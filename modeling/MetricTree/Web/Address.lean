import MetricTree.Text.Numeral

namespace MetricTree.Address

/-- What comes before a query or a fragment. -/
def beforeQuery (cs : List Char) : List Char := cs.takeWhile fun c => c != '?' && c != '#'

/-- What comes after a host, which stands behind two slashes. -/
def afterHost : List Char → List Char
  | '/' :: '/' :: rest => rest.dropWhile (· != '/')
  | cs => cs

/-- The pieces between slashes. -/
def segments (cs : List Char) : List (List Char) := cs.splitOn '/'

/-- Takes a step down a path: a point stays where it is, and two points lead back. -/
def descend (path : List (List Char)) (segment : List Char) : List (List Char) :=
  if segment = ['.'] then path
  else if segment = ['.', '.'] then path.dropLast
  else path ++ [segment]

def hexValue? (c : Char) : Option Nat :=
  if c.isDigit then some (Text.digitValue c)
  else if 'a' ≤ c.toLower ∧ c.toLower ≤ 'f' then some (c.toLower.toNat - 'a'.toNat + 10)
  else none

/-- Puts ASCII characters in the place of their codes, which are two digits after a percent sign. -/
def decode : List Char → List Char
  | '%' :: a :: b :: rest =>
    match hexValue? a, hexValue? b with
    | some high, some low =>
      if high < 8 then Char.ofNat (16 * high + low) :: decode rest else '%' :: decode (a :: b :: rest)
    | _, _ => '%' :: decode (a :: b :: rest)
  | c :: rest => c :: decode rest
  | [] => []

/-- The path that an address leads to. -/
def path (address : String) : String :=
  let below := (afterHost (beforeQuery address.toList)).dropWhile (· == '/')
  let steps := (segments below).foldl descend []
  String.ofList (decode (steps.flatMap ('/' :: ·)))

end MetricTree.Address
