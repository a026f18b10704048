import MetricTree.Loop.Basic
import MetricTree.Tree.Snapshot
import MetricTree.Web.Address

namespace MetricTree

/-- What can be asked for over HTTP. -/
inductive Route where
  | health
  | snapshot
  | flush
  deriving DecidableEq

/-- The content of a response. -/
inductive Body where
  | health (phase : Phase)
  | snapshot (s : Snapshot)
  | summary (s : Summary)
  | detail (text : String)

/-- A response, some of which have no content. -/
structure Response where
  status : Nat
  body : Option Body

namespace Route

/-- The route at a path, and the method that it is asked for with. -/
def table : List (String × String × Route) :=
  [("/health", "GET", health), ("/metrics/snapshot", "GET", snapshot), ("/metrics/flush", "POST", flush)]

/-- A path without the slashes at its end, if it has any. -/
def withoutSlashes? (path : String) : Option String :=
  let cs := path.toList
  if cs.getLast? = some '/' then some (String.ofList (Text.dropEnd (· == '/') cs)) else none

/-- The route that a request finds, or else its response. A request for a route with slashes behind
it is sent on, and one for the head alone has no content in its response. -/
def find (method address : String) : Except Response Route :=
  let method := method.toUpper
  let detail := fun text => if method = "HEAD" then none else some (Body.detail text)
  let path := Address.path address
  match table.lookup path, (withoutSlashes? path).bind fun bare => table.lookup bare with
  | some (expected, route), _ =>
    if method = expected then pure route else throw ⟨405, detail "Method Not Allowed"⟩
  | none, some _ => throw ⟨307, none⟩
  | none, none => throw ⟨404, detail "Not Found"⟩

end Route

namespace Response

def healthy (phase : Phase) : Response := ⟨200, some (.health phase)⟩

def flushed (s : Summary) : Response := ⟨200, some (.summary s)⟩

/-- The response to a flush after a close. -/
def conflict : Response := ⟨409, some (.detail "Scope is closed")⟩

/-- Are there characters alone in what is shown of a metric? Keys of tags are told in characters in any case. -/
def isEncodable {α : Type} (reading : Reading α) : Bool :=
  reading.name.isUnicode && reading.tags.values.all Text.isUnicode

/-- A snapshot can be sent if its integers are not too long, all its numbers are finite and its texts consist of
characters. -/
def ofSnapshot (s : Snapshot) : Except Fault Response := do
  for reading in s.counters.values do
    let _ ← ShortInt.ofInt reading.value
  if !s.gauges.values.all fun reading => reading.value.isFinite then throw .notFiniteInJson
  if !(s.counters.values.all isEncodable && s.gauges.values.all isEncodable) then throw .notEncodable
  return ⟨200, some (.snapshot s)⟩

end Response

end MetricTree
