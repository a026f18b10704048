import MetricTree.Registry.Basic
import MetricTree.Fault

namespace MetricTree.Registry

/-- A request to a registry. What `obtain` makes may itself take requests to make, and may fail. -/
inductive Request (κ α : Type) where
  | obtain (key : κ) (during : List (Request κ α)) (made : Except Fault (Option α))
  | get (key : κ)
  | contains (key : κ)
  | all

instance {κ α : Type} : Inhabited (Request κ α) := ⟨.all⟩

inductive Reply (α : Type) where
  | obtained (value : Option α) (during : List (Reply α))
  | found (value : Option α)
  | known (yes : Bool)
  | values (values : List (Option α))
  | refused (fault : Fault)

variable {κ α : Type} [BEq κ]

mutual

/-- Answers a request for a key that `allow` lets pass. The maker runs only if the key has no value
at entry, and its product counts only if the key still has none when it is done. -/
def answer (allow : κ → Except Fault Unit) (r : Registry κ α) : Request κ α → Reply α × Registry κ α
  | .obtain key during made =>
    match allow key with
    | .error fault => (.refused fault, r)
    | .ok () =>
      match r.get? key with
      | some standing => (.obtained (some standing) [], r)
      | none =>
        let (replies, after) := answerAll allow r during
        match made with
        | .error fault => (.refused fault, after)
        | .ok made =>
          let (value, settled) := after.settle key made
          (.obtained value replies, settled)
  | .get key =>
    match allow key with
    | .error fault => (.refused fault, r)
    | .ok () => (.found (r.get? key), r)
  | .contains key =>
    match allow key with
    | .error fault => (.refused fault, r)
    | .ok () => (.known (r.contains key), r)
  | .all => (.values r.values, r)
termination_by structural request => request

def answerAll (allow : κ → Except Fault Unit) (r : Registry κ α) :
    List (Request κ α) → List (Reply α) × Registry κ α
  | [] => ([], r)
  | request :: rest =>
    let (reply, after) := answer allow r request
    let (replies, final) := answerAll allow after rest
    (reply :: replies, final)
termination_by structural requests => requests

end

end MetricTree.Registry
