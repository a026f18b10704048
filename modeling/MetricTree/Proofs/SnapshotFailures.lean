import MetricTree.Proofs.SnapshotSums

namespace MetricTree

/-- The deltas of a scope's counters, in the order in which a snapshot comes to them. -/
def Scope.deltas (separator : Text) (s : Scope) : List (Reading (Except Fault Number)) :=
  s.counters.entries.map fun e => ⟨s.qualify separator e.1, s.tags, e.2.delta⟩

def Tree.deltas (t : Tree) : List (Reading (Except Fault Number)) := t.scopes.flatMap (Scope.deltas t.separator)

namespace Snapshot

/-- Adds a delta to what stands under its identity. -/
def addTo (standing : Option (Reading Int)) (r : Reading (Except Fault Number)) :
    Except Fault (Option (Reading Int)) := do
  let value ← total (← r.value) standing
  return some ⟨r.name, r.tags, value⟩

/-- Adds a delta to what is shown, under its identity. -/
def merge (seen : Table Text (Reading Int)) (r : Reading (Except Fault Number)) :
    Except Fault (Table Text (Reading Int)) := do
  let value ← total (← r.value) (seen.get? r.key)
  return seen.insert r.key ⟨r.name, r.tags, value⟩

variable {seen : Table Text (Reading Int)} {separator : Text} {readings : List (Reading (Except Fault Number))}

theorem addCounters_eq_foldlM (separator : Text) (s : Scope) (seen : Table Text (Reading Int))
    (entries : List (Text × Counter)) :
    addCounters separator s seen entries =
      (entries.map fun e => ⟨s.qualify separator e.1, s.tags, e.2.delta⟩).foldlM merge seen := by
  induction entries generalizing seen with
  | nil => rfl
  | cons e rest ih =>
    obtain ⟨name, counter⟩ := e
    rw [addCounters, List.map_cons, List.foldlM_cons, merge]
    simp only [ih, bind_assoc, pure_bind]
    rfl

theorem counterReadings_eq_foldlM (separator : Text) (seen : Table Text (Reading Int)) (scopes : List Scope) :
    counterReadings separator seen scopes = (scopes.flatMap (Scope.deltas separator)).foldlM merge seen := by
  induction scopes generalizing seen with
  | nil => rfl
  | cons s rest ih =>
    rw [counterReadings, List.flatMap_cons, List.foldlM_append, addCounters_eq_foldlM]
    simp only [ih]
    rfl

theorem merge_eq_ok {r : Reading (Except Fault Number)} {after : Table Text (Reading Int)} :
    merge seen r = .ok after ↔
      ∃ shown, addTo (seen.get? r.key) r = .ok (some shown) ∧ after = seen.insert r.key shown := by
  constructor
  · intro run
    obtain ⟨d, delta, run⟩ := bind_eq_ok.mp run
    obtain ⟨value, sum, run⟩ := bind_eq_ok.mp run
    cases run
    exact ⟨_, bind_eq_ok.mpr ⟨d, delta, bind_eq_ok.mpr ⟨value, sum, rfl⟩⟩, rfl⟩
  · rintro ⟨shown, run, rfl⟩
    obtain ⟨d, delta, run⟩ := bind_eq_ok.mp run
    obtain ⟨value, sum, run⟩ := bind_eq_ok.mp run
    cases run
    exact bind_eq_ok.mpr ⟨d, delta, bind_eq_ok.mpr ⟨value, sum, rfl⟩⟩

theorem exists_of_addTo {standing shown : Option (Reading Int)} {r : Reading (Except Fault Number)}
    (run : addTo standing r = .ok shown) : ∃ value, shown = some value := by
  obtain ⟨_, _, run⟩ := bind_eq_ok.mp run
  obtain ⟨_, _, run⟩ := bind_eq_ok.mp run
  cases run
  exact ⟨_, rfl⟩

/-- Deltas can be merged if those under each identity can be added up. -/
theorem foldlM_merge_succeeds_iff :
    (∃ after, readings.foldlM merge seen = .ok after) ↔
      ∀ key, ∃ shown, (readings.filter (·.key = key)).foldlM addTo (seen.get? key) = .ok shown := by
  induction readings generalizing seen with
  | nil => exact iff_of_true ⟨seen, rfl⟩ fun key => ⟨seen.get? key, rfl⟩
  | cons r rest ih =>
    have others : ∀ {shown : Reading Int} {key : Text}, r.key ≠ key →
        (seen.insert r.key shown).get? key = seen.get? key := by
      intro shown key other
      rw [Table.get?_insert, if_neg (Ne.symm other)]
    have own : ∀ {shown : Reading Int}, (seen.insert r.key shown).get? r.key = some shown := by
      intro shown
      rw [Table.get?_insert, if_pos rfl]
    constructor
    · rintro ⟨after, run⟩ key
      obtain ⟨next, first, later⟩ := bind_eq_ok.mp ((List.foldlM_cons ..).symm.trans run)
      obtain ⟨shown, added, rfl⟩ := merge_eq_ok.mp first
      obtain ⟨last, sum⟩ := ih.mp ⟨after, later⟩ key
      by_cases same : r.key = key
      · subst same
        rw [own] at sum
        rw [List.filter_cons_of_pos (by simp), List.foldlM_cons]
        exact ⟨last, bind_eq_ok.mpr ⟨_, added, sum⟩⟩
      · rw [others same] at sum
        rw [List.filter_cons_of_neg (by simpa using same)]
        exact ⟨last, sum⟩
    · intro each
      obtain ⟨last, sum⟩ := each r.key
      rw [List.filter_cons_of_pos (by simp), List.foldlM_cons] at sum
      obtain ⟨next, added, sum⟩ := bind_eq_ok.mp sum
      obtain ⟨shown, rfl⟩ := exists_of_addTo added
      have first : merge seen r = .ok (seen.insert r.key shown) := merge_eq_ok.mpr ⟨shown, added, rfl⟩
      obtain ⟨after, later⟩ := ih.mpr fun key => by
        by_cases same : r.key = key
        · subst same
          rw [own]
          exact ⟨last, sum⟩
        · obtain ⟨shown, rest⟩ := each key
          rw [List.filter_cons_of_neg (by simpa using same)] at rest
          rw [others same]
          exact ⟨shown, rest⟩
      exact ⟨after, (List.foldlM_cons ..).trans (bind_eq_ok.mpr ⟨_, first, later⟩)⟩

end Snapshot

/-- A snapshot succeeds exactly if under each identity the deltas add up to integers, one after the other. What gauges
hold does not matter. -/
theorem Tree.snapshot_succeeds_iff {t : Tree} :
    (∃ s, t.snapshot = .ok s) ↔
      ∀ key, ∃ shown, (t.deltas.filter (·.key = key)).foldlM Snapshot.addTo none = .ok shown := by
  have all : (∃ after, t.deltas.foldlM Snapshot.merge .empty = .ok after) ↔
      ∀ key, ∃ shown, (t.deltas.filter (·.key = key)).foldlM Snapshot.addTo none = .ok shown :=
    Snapshot.foldlM_merge_succeeds_iff
  rw [← all, Tree.deltas, ← Snapshot.counterReadings_eq_foldlM]
  constructor
  · rintro ⟨s, run⟩
    obtain ⟨after, counters, _⟩ := bind_eq_ok.mp run
    exact ⟨after, counters⟩
  · rintro ⟨after, counters⟩
    exact ⟨_, bind_eq_ok.mpr ⟨after, counters, rfl⟩⟩

end MetricTree
