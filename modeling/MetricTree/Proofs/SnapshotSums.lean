import MetricTree.Proofs.PendingReports
import MetricTree.Proofs.TableMaps
import MetricTree.Tree.Snapshot

namespace MetricTree

namespace Reading

/-- The identity under which a snapshot shows it. -/
def key {α : Type} (r : Reading α) : Text := Identity.encode r.name r.tags

def label {α : Type} (r : Reading α) : Text × Tags := (r.name, r.tags)

/-- What it adds to the total under an identity. -/
def under (key : Text) (r : Reading Int) : Int := if r.key = key then r.value else 0

end Reading

/-- What was added to a counter of integers since it was last reported. -/
def Counter.unreported : Counter → Int
  | ⟨.int m, .int n⟩ => m - n
  | _ => 0

/-- The counters of a scope, as a snapshot reads them. -/
def Scope.readings (separator : Text) (s : Scope) : List (Reading Int) :=
  s.counters.entries.map fun e => ⟨s.qualify separator e.1, s.tags, e.2.unreported⟩

def Tree.readings (t : Tree) : List (Reading Int) := t.scopes.flatMap (Scope.readings t.separator)

namespace Snapshot

/-- What is shown under an identity, if anything is. -/
def valueAt (seen : Table Text (Reading Int)) (key : Text) : Int := (seen.get? key).elim 0 (·.value)

/-- Adds a reading to what is shown under its identity. -/
def deposit (seen : Table Text (Reading Int)) (r : Reading Int) : Table Text (Reading Int) :=
  seen.insert r.key { r with value := r.value + valueAt seen r.key }

variable {seen : Table Text (Reading Int)} {readings : List (Reading Int)} {separator key : Text}

theorem total_int (d : Int) (standing : Option (Reading Int)) :
    total (.int d) standing = .ok (d + standing.elim 0 (·.value)) := by
  cases standing with
  | none => exact congrArg Except.ok (Int.add_zero d).symm
  | some r => rfl

theorem addCounters_eq {s : Scope} {entries : List (Text × Counter)}
    (integral : ∀ e ∈ entries, ∃ m n, e.2 = ⟨.int m, .int n⟩) :
    addCounters separator s seen entries = .ok
      ((entries.map fun e => ⟨s.qualify separator e.1, s.tags, e.2.unreported⟩).foldl deposit seen) := by
  induction entries generalizing seen with
  | nil => rfl
  | cons e rest ih =>
    obtain ⟨name, counter⟩ := e
    obtain ⟨⟨m, n, same⟩, others⟩ := List.forall_mem_cons.mp integral
    cases same
    have sum := total_int (m - n) (seen.get? (Identity.encode (s.qualify separator name) s.tags))
    rw [addCounters]
    exact bind_eq_ok.mpr ⟨.int (m - n), rfl, bind_eq_ok.mpr ⟨_, sum, ih others⟩⟩

theorem counterReadings_eq {scopes : List Scope}
    (integral : ∀ s ∈ scopes, ∀ e ∈ s.counters.entries, ∃ m n, e.2 = ⟨.int m, .int n⟩) :
    counterReadings separator seen scopes = .ok
      ((scopes.flatMap (Scope.readings separator)).foldl deposit seen) := by
  induction scopes generalizing seen with
  | nil => rfl
  | cons s rest ih =>
    obtain ⟨first, others⟩ := List.forall_mem_cons.mp integral
    rw [List.flatMap_cons, List.foldl_append]
    exact bind_eq_ok.mpr ⟨_, addCounters_eq first, ih others⟩

/-- Every reading comes to stand under its identity, with its name and its tags. -/
theorem map_label_foldl_deposit (seen : Table Text (Reading Int)) (readings : List (Reading Int)) :
    (readings.foldl deposit seen).map Reading.label =
      (seen.map Reading.label).overlay ⟨readings.map fun r => (r.key, r.label)⟩ := by
  induction readings generalizing seen with
  | nil => rfl
  | cons r rest ih =>
    rw [List.foldl_cons, ih, deposit, Table.map_insert]
    rfl

/-- Under each identity the values of its readings add up. -/
theorem valueAt_foldl_deposit (seen : Table Text (Reading Int)) (readings : List (Reading Int)) (key : Text) :
    valueAt (readings.foldl deposit seen) key = (readings.map (Reading.under key)).sum + valueAt seen key := by
  induction readings generalizing seen with
  | nil => exact (Int.zero_add _).symm
  | cons r rest ih =>
    have one : valueAt (deposit seen r) key = r.under key + valueAt seen key := by
      simp only [valueAt, deposit, Table.get?_insert, Reading.under, eq_comm (a := r.key)]
      split
      · next same => rw [same, Option.elim_some]
      · exact (Int.zero_add _).symm
    rw [List.foldl_cons, ih, one, List.map_cons, List.sum_cons]
    omega

end Snapshot

end MetricTree
