import MetricTree.Table
import MetricTree.Text.Blank

namespace MetricTree.VariableFile

/-- A line's end is a line feed, whichever of the usual ways it was written in. -/
def unifyBreaks : List Char → List Char
  | '\r' :: '\n' :: rest => '\n' :: unifyBreaks rest
  | '\r' :: rest => '\n' :: unifyBreaks rest
  | c :: rest => c :: unifyBreaks rest
  | [] => []

/-- White space that does not end the line. -/
def isGap (c : Char) : Bool := Text.isSpacing c && c != '\n'

/-- The text after the present line. -/
def nextLine (cs : List Char) : List Char := (cs.dropWhile (· != '\n')).drop 1

/-- What comes before a comment, which starts with a number sign after a blank. -/
def uncommented (afterBlank : Bool) : List Char → List Char
  | [] => []
  | c :: rest => if afterBlank && c = '#' then [] else c :: uncommented (Text.isSpacing c) rest

/-- Splits at the first quote mark. A backslash goes with the character after it. -/
def splitAtMark? (mark : Char) : List Char → Option (List Char × List Char)
  | [] => none
  | '\\' :: c :: rest =>
    (splitAtMark? mark rest).map fun (inside, outside) => ('\\' :: c :: inside, outside)
  | c :: rest =>
    if c = mark then some ([], rest)
    else (splitAtMark? mark rest).map fun (inside, outside) => (c :: inside, outside)

/-- What may follow a backslash in quotes, and what both then stand for. -/
def escapes (mark : Char) : List (Char × Char) :=
  let marks := [('\\', '\\'), ('\'', '\'')]
  if mark = '\'' then marks
  else
    marks ++ [('"', '"'), ('a', '\x07'), ('b', '\x08'), ('f', '\x0c'), ('n', '\n'), ('r', '\r'), ('t', '\t'),
      ('v', '\x0b')]

def unescape (escapes : List (Char × Char)) : List Char → List Char
  | '\\' :: c :: rest =>
    match escapes.lookup c with
    | some meant => meant :: unescape escapes rest
    | none => '\\' :: unescape escapes (c :: rest)
  | c :: rest => c :: unescape escapes rest
  | [] => []

/-- A name in single quotes, or one that ends at white space, an equals sign or a comment. A comment
in its place leaves the entry without one. What is read comes with the text after it; the error is
the text at which reading failed. -/
def readName (cs : List Char) : Except (List Char) (Option (List Char) × List Char) :=
  match cs with
  | '#' :: _ => pure (none, cs)
  | '\'' :: rest =>
    let name := rest.takeWhile (· != '\'')
    if name.isEmpty || name.length = rest.length then throw cs
    else pure (some name, rest.drop (name.length + 1))
  | _ =>
    let name := cs.takeWhile fun c => c != '=' && c != '#' && !Text.isSpacing c
    if name.isEmpty then throw cs else pure (some name, cs.drop name.length)

/-- A value: what stands in quotes, or else the rest of the line without a comment and blanks around it. -/
def readValue (cs : List Char) : Except (List Char) (List Char × List Char) :=
  let quoted := fun (mark : Char) (rest : List Char) =>
    match splitAtMark? mark rest with
    | some (inside, outside) => pure (unescape (escapes mark) inside, outside)
    | none => throw (mark :: rest)
  match cs.dropWhile isGap with
  | '\'' :: rest => quoted '\'' rest
  | '"' :: rest => quoted '"' rest
  | _ =>
    let line := cs.takeWhile (· != '\n')
    pure (Text.trimBy Text.isSpacing (uncommented false line), cs.drop line.length)

/-- The end of a line, before which only blanks and a comment may stand. -/
def readEnd (cs : List Char) : Except (List Char) (List Char) :=
  match cs.dropWhile isGap with
  | [] => pure []
  | '\n' :: rest => pure rest
  | '#' :: rest => pure (nextLine rest)
  | _ => throw cs

/-- A word that may stand in front of a name and means nothing. -/
def dropExport (cs : List Char) : List Char :=
  let rest := cs.drop 6
  if cs.take 6 = ['e', 'x', 'p', 'o', 'r', 't'] ∧ rest.head?.any isGap then rest.dropWhile isGap else cs

/-- A name with the value after its equals sign. Without an equals sign there is none. -/
def readEntry (cs : List Char) :
    Except (List Char) (Option (List Char × Option (List Char)) × List Char) := do
  let (name?, rest) ← readName (dropExport cs)
  let (value?, rest) ← match rest.dropWhile isGap with
    | '=' :: rest => do
      let (value, rest) ← readValue rest
      pure (some value, rest)
    | rest => pure (none, rest)
  return (name?.map (·, value?), ← readEnd rest)

/-- The entries of a text. A line that fails to be read is passed over. -/
def readEntries (cs : List Char) : List (List Char × Option (List Char)) :=
  match cs.dropWhile Text.isSpacing with
  | [] => []
  | c :: rest =>
    let (found?, after) := match readEntry (c :: rest) with
      | .ok done => done
      | .error failed => (none, nextLine failed)
    if _shorter : after.length < cs.length then found?.toList ++ readEntries after else found?.toList
termination_by cs.length

/-- A reference to another variable, after its opening brace: the name, a value for want of one, and
the text after the closing brace. -/
def readReference? (cs : List Char) : Option (List Char × List Char × List Char) :=
  let isOpen := fun c => c != '\x7d'
  let name := cs.takeWhile fun c => isOpen c && c != ':'
  match cs.drop name.length with
  | '\x7d' :: rest => some (name, [], rest)
  | ':' :: '-' :: rest =>
    let otherwise := rest.takeWhile isOpen
    if otherwise.length = rest.length then none
    else some (name, otherwise, rest.drop (otherwise.length + 1))
  | _ => none

/-- The text with values in the place of references. -/
def fillReferences (valueOf : String → Option String) (cs : List Char) : List Char :=
  match cs with
  | [] => []
  | '$' :: '\x7b' :: rest =>
    match readReference? rest with
    | some (name, otherwise, after) =>
      let value := ((valueOf (String.ofList name)).map String.toList).getD otherwise
      if _shorter : after.length < rest.length then value ++ fillReferences valueOf after else value
    | none => '$' :: fillReferences valueOf ('\x7b' :: rest)
  | c :: rest => c :: fillReferences valueOf rest
termination_by cs.length
decreasing_by all_goals simp only [List.length_cons]; omega

/-- Adds an entry. References in it mean the variables set so far, and then those of the environment. -/
def addEntry (environment : Table String String) (t : Table String (Option String))
    (entry : List Char × Option (List Char)) : Table String (Option String) :=
  let valueOf := fun name =>
    match t.get? name with
    | some value? => some (value?.getD "")
    | none => environment.get? name
  t.insert (String.ofList entry.1) (entry.2.map fun cs => String.ofList (fillReferences valueOf cs))

/-- A mark of byte order at the start is no part of the text. -/
def withoutMark : List Char → List Char
  | '\ufeff' :: rest => rest
  | cs => cs

/-- The variables that a file sets. One that is named without a value has none. -/
def variablesOf (environment : Table String String) (text : String) : Table String (Option String) :=
  (readEntries (unifyBreaks (withoutMark text.toList))).foldl (addEntry environment) .empty

end MetricTree.VariableFile
