import MetricTree.Proofs.IdentityText
import MetricTree.Proofs.NameOrder

namespace MetricTree

open Identity

/-- A name that can be given to a metric or to a scope below another one. -/
def ProperName (name : Text) : Prop := name ≠ "" ∧ Plain name

/-- A scope whose parts and names can all be embedded in identities. -/
structure Scope.Proper (s : Scope) : Prop where
  stem : Plain s.stem
  tags : PlainTags s.tags
  distinct : s.tags.keys.Nodup
  counters : ∀ name ∈ s.counters.keys, ProperName name
  gauges : ∀ name ∈ s.gauges.keys, ProperName name

/-- A tree in which every scope is registered under its own identity, and names can be put together. -/
structure Tree.Proper (t : Tree) : Prop where
  separator : ProperName t.separator
  filled : ∀ i ∈ t.identities, (t.scope? i).isSome
  identity : ∀ {i s}, t.scope? i = some s → i = encode s.stem s.tags
  scopes : ∀ {i s}, t.scope? i = some s → s.Proper

namespace Scope

variable {s : Scope} {separator name : Text}

theorem Proper.fresh {stem : Text} {tags : Tags} (plain : Plain stem) (plains : PlainTags tags)
    (distinct : tags.keys.Nodup) : (Scope.fresh stem tags).Proper :=
  ⟨plain, plains, distinct, nofun, nofun⟩

theorem Proper.qualify (proper : s.Proper) (plainSeparator : Plain separator) (plain : Plain name) :
    Plain (s.qualify separator name) := by
  unfold Scope.qualify
  split
  · exact plain
  · exact (proper.stem.append plainSeparator).append plain

end Scope

namespace Tree

variable {t u : Tree} {h : Handle} {i j : Text} {s r : Scope}

/-- The stem and the tags say which scope it is. -/
theorem Proper.unique (proper : t.Proper) (first : t.scope? i = some s) (second : t.scope? j = some r)
    (stem : s.stem = r.stem) (tags : s.tags.Agrees r.tags) : i = j := by
  rw [proper.identity first, proper.identity second, stem]
  exact encode_congr (proper.scopes first).distinct (proper.scopes second).distinct tags

theorem Proper.counterName {c : Counter} (proper : t.Proper) (found : t.counter? h = some c) : ProperName h.name := by
  obtain ⟨s, atScope, inScope⟩ := Option.bind_eq_some_iff.mp found
  exact (proper.scopes atScope).counters _ (Table.mem_keys_of_get? inScope)

theorem Proper.gaugeName {g : Gauge} (proper : t.Proper) (found : t.gauge? h = some g) : ProperName h.name := by
  obtain ⟨s, atScope, inScope⟩ := Option.bind_eq_some_iff.mp found
  exact (proper.scopes atScope).gauges _ (Table.mem_keys_of_get? inScope)

theorem Proper.editScope {edit : Scope → Scope} (proper : t.Proper) (stem : ∀ s, (edit s).stem = s.stem)
    (tags : ∀ s, (edit s).tags = s.tags) (keeps : ∀ s : Scope, s.Proper → (edit s).Proper) :
    (t.editScope i edit).Proper := by
  refine ⟨separator_editScope.symm ▸ proper.separator, fun j member => ?_, fun {j s} found => ?_, fun {j s} found => ?_⟩
  · rw [identities_editScope] at member
    rw [scope?_editScope]
    split
    · next here => rw [Option.isSome_map]; exact here ▸ proper.filled j member
    · exact proper.filled j member
  all_goals
    rw [scope?_editScope] at found
    split at found
  · next here =>
    obtain ⟨old, atScope, rfl⟩ := Option.map_eq_some_iff.mp found
    rw [stem, tags, here]
    exact proper.identity atScope
  · exact proper.identity found
  · obtain ⟨old, atScope, rfl⟩ := Option.map_eq_some_iff.mp found
    exact keeps old (proper.scopes atScope)
  · exact proper.scopes found

theorem Proper.setCounter {c : Counter} (proper : t.Proper) (name : ProperName h.name) : (t.setCounter h c).Proper := by
  refine proper.editScope (fun _ => rfl) (fun _ => rfl) fun s old =>
    ⟨old.stem, old.tags, old.distinct, fun k member => ?_, old.gauges⟩
  rcases Table.mem_keys_insert.mp member with rfl | there
  · exact name
  · exact old.counters k there

theorem Proper.setGauge {g : Gauge} (proper : t.Proper) (name : ProperName h.name) : (t.setGauge h g).Proper := by
  refine proper.editScope (fun _ => rfl) (fun _ => rfl) fun s old =>
    ⟨old.stem, old.tags, old.distinct, old.counters, fun k member => ?_⟩
  rcases Table.mem_keys_insert.mp member with rfl | there
  · exact name
  · exact old.gauges k there

theorem separator_derive {stem : Text} {tags : Tags} : (t.derive stem tags).2.separator = t.separator := rfl

theorem Proper.derive {stem : Text} {tags : Tags} (proper : t.Proper) (made : (Scope.fresh stem tags).Proper) :
    (t.derive stem tags).2.Proper := by
  cases known : t.scope? (Scope.fresh stem tags).identity with
  | some s =>
    rw [derive_of_scope? known]
    exact proper
  | none =>
    refine ⟨proper.separator, fun j member => ?_, fun {j s} found => ?_, fun {j s} found => ?_⟩
    · rw [scope?_derive known]
      split
      · rfl
      · next other =>
        rw [identities_derive known] at member
        exact proper.filled j ((Table.mem_keys_insert.mp member).resolve_left other)
    all_goals
      rw [scope?_derive known] at found
      split at found
    · next here =>
      cases found
      exact here
    · exact proper.identity found
    · cases found
      exact made
    · exact proper.scopes found

/-- The scope that stands in a place is the one of that identity. -/
theorem Proper.derive_fst {stem : Text} {tags : Tags} (proper : t.Proper) :
    (t.derive stem tags).1 = (Scope.fresh stem tags).identity := by
  cases known : t.registry.get? (Scope.fresh stem tags).identity with
  | none => simp only [Tree.derive, Registry.settle, known, Option.getD_some]
  | some s =>
    simp only [Tree.derive, Registry.settle, known, Option.getD_some]
    exact (proper.identity known).symm

/-- The scope that a derivation leads to is made of what was asked for, whether or not it is new. -/
theorem Proper.scope?_derive {stem : Text} {tags : Tags} (proper : t.Proper) (made : (Scope.fresh stem tags).Proper) :
    ∃ s, (t.derive stem tags).2.scope? (t.derive stem tags).1 = some s ∧ s.stem = stem ∧ s.tags.Agrees tags := by
  rw [proper.derive_fst]
  cases known : t.scope? (Scope.fresh stem tags).identity with
  | none => exact ⟨_, (Tree.scope?_derive known).trans (if_pos rfl), rfl, .refl tags⟩
  | some s =>
    have old := proper.scopes known
    have same := (encode_eq_encode_iff made.stem old.stem made.tags old.tags made.distinct old.distinct).mp
      (proper.identity known)
    rw [derive_of_scope? known]
    exact ⟨s, known, same.1.symm, same.2.symm⟩

theorem Visit.proper {found : Option (Text × Observation)} (visit : t.Visit found u) (proper : t.Proper) :
    u.Proper := by
  cases visit with
  | idleCounter found => exact proper.setCounter (proper.counterName found)
  | counter _ found => exact proper.setCounter (proper.counterName found)
  | cleanGauge found => exact proper.setGauge (proper.gaugeName found)
  | gauge _ found => exact proper.setGauge (proper.gaugeName found)

theorem tagged_eq_ok {tags : Table Value Value} {result : Text × Tree} :
    t.tagged i tags = .ok result ↔ ∃ s extra, t.scope? i = some s ∧ checkTags tags = .ok extra ∧
      result = if extra.isEmpty then (i, t) else t.derive s.stem (s.tags.overlay extra) := by
  simp only [tagged, bind_eq_ok, scope_eq_ok, pure, Except.pure, Except.ok.injEq]
  constructor
  · rintro ⟨s, atScope, extra, accepted, rfl⟩
    exact ⟨s, extra, atScope, accepted, rfl⟩
  · rintro ⟨s, extra, atScope, accepted, rfl⟩
    exact ⟨s, atScope, extra, accepted, rfl⟩

theorem subScope_eq_ok {name : Value} {result : Text × Tree} :
    t.subScope i name = .ok result ↔ ∃ s text, t.scope? i = some s ∧ name = .text text ∧ ProperName text ∧
      result = t.derive (s.qualify t.separator text) s.tags := by
  simp only [subScope, bind_eq_ok, scope_eq_ok, pure, Except.pure, Except.ok.injEq, checkName_eq_ok]
  constructor
  · rintro ⟨s, atScope, text, ⟨named, plain, filled⟩, rfl⟩
    exact ⟨s, text, atScope, named, ⟨fun empty => Bool.false_ne_true (filled empty), plain⟩, rfl⟩
  · rintro ⟨s, text, atScope, named, ⟨filled, plain⟩, rfl⟩
    exact ⟨s, atScope, text, ⟨named, plain, fun empty => absurd empty filled⟩, rfl⟩

/-- In a proper tree, no tags lead where all others do: to the scope of the tags laid over each other. -/
theorem Proper.tagged_eq_ok {tags : Table Value Value} {result : Text × Tree} (proper : t.Proper) :
    t.tagged i tags = .ok result ↔ ∃ s extra, t.scope? i = some s ∧ checkTags tags = .ok extra ∧
      result = t.derive s.stem (s.tags.overlay extra) := by
  rw [Tree.tagged_eq_ok]
  refine exists_congr fun s => exists_congr fun extra => and_congr_right fun atScope => and_congr_right fun _ => ?_
  split
  · next bare =>
    have same : s.tags.overlay extra = s.tags := by
      rw [Table.overlay, List.isEmpty_iff.mp bare]
      rfl
    have here := proper.identity atScope
    have stays : t.derive s.stem s.tags = (i, t) :=
      Prod.ext (proper.derive_fst.trans here.symm) (derive_of_scope? (s := s) (by rw [← atScope, here]; rfl))
    rw [same, stays]
  · rfl

theorem Proper.tagged {tags : Table Value Value} {result : Text × Tree} (proper : t.Proper)
    (run : t.tagged i tags = .ok result) : result.2.Proper := by
  obtain ⟨s, extra, atScope, accepted, rfl⟩ := proper.tagged_eq_ok.mp run
  have old := proper.scopes atScope
  obtain ⟨_, plains⟩ := checkTags_eq_ok.mp accepted
  refine proper.derive (.fresh old.stem (fun pair member => ?_) (Table.nodup_keys_overlay extra old.distinct))
  exact (Table.mem_entries_overlay member).elim (old.tags pair) (plains pair)

theorem Proper.subScope {name : Value} {result : Text × Tree} (proper : t.Proper)
    (run : t.subScope i name = .ok result) : result.2.Proper := by
  obtain ⟨s, text, atScope, _, named, rfl⟩ := subScope_eq_ok.mp run
  have old := proper.scopes atScope
  exact proper.derive (.fresh (old.qualify proper.separator.2 named.2) old.tags old.distinct)

end Tree

end MetricTree
