import MetricTree.Proofs.ProperRuns

namespace MetricTree

open Identity

/-- Of tags as callers pass them, those that are texts. -/
def Table.texts (tags : Table Value Value) : Tags :=
  ⟨tags.entries.filterMap fun entry => do return (← entry.1.text?, ← entry.2.text?)⟩

theorem Tags.texts_given (tags : Tags) : tags.given.texts = tags := by
  obtain ⟨pairs⟩ := tags
  simp only [given, Table.texts, List.filterMap_map]
  exact congrArg Table.mk List.filterMap_some

/-- A call that leads from a scope to one derived from it. -/
inductive Link where
  | tagged (tags : Table Value Value)
  | below (name : Value)

namespace Link

/-- Does the link go through, wherever it starts? -/
def Accepted : Link → Prop
  | tagged tags => ∃ found, checkTags tags = .ok found
  | below name => ∃ text, name = .text text ∧ ProperName text

/-- The name that a link adds to the stem. -/
def name? : Link → Option Text
  | tagged _ => none
  | below name => name.text?

/-- The tags that a link lays over the others. -/
def tags? : Link → Option Tags
  | tagged tags => some tags.texts
  | below _ => none

end Link

/-- The stem, if there is one, and the names that links add to it, with the separator in between. -/
def stemAfter (separator stem : Text) (links : List Link) : Text :=
  separator.intercalate ((if stem.isEmpty then [] else [stem]) ++ links.filterMap Link.name?)

/-- The tags, with those that links lay over them one after the other. -/
def tagsAfter (tags : Tags) (links : List Link) : Tags := (links.filterMap Link.tags?).foldl Table.overlay tags

theorem intercalate_ne_empty {separator : Text} {names : List Text} (filled : ∀ name ∈ names, name ≠ "")
    (some : names ≠ []) : separator.intercalate names ≠ "" := by
  cases names with
  | nil => exact absurd rfl some
  | cons name rest =>
    have front := filled name (List.mem_cons_self ..)
    cases rest with
    | nil => rwa [Text.intercalate_singleton]
    | cons next rest =>
      rw [Text.intercalate_cons_cons]
      intro empty
      rw [Text.append_eq_empty_iff, Text.append_eq_empty_iff] at empty
      exact front empty.1.1

theorem stemAfter_nil (separator stem : Text) : stemAfter separator stem [] = stem := by
  by_cases empty : stem.isEmpty
  · simp only [stemAfter, empty, if_true, List.filterMap_nil, List.append_nil, Text.intercalate_nil]
    exact (Text.isEmpty_iff.mp empty).symm
  · simp only [stemAfter, empty, Bool.false_eq_true, if_false, List.filterMap_nil, List.append_nil,
      Text.intercalate_singleton]

/-- None of the names that a stem is put together from is empty. -/
theorem forall_names_ne_empty {stem : Text} {links : List Link} (accepted : ∀ link ∈ links, link.Accepted) :
    ∀ name ∈ (if stem.isEmpty then [] else [stem]) ++ links.filterMap Link.name?, name ≠ "" := by
  intro name member
  rcases List.mem_append.mp member with front | later
  · split at front
    · cases front
    · next full =>
      rw [List.mem_singleton.mp front]
      exact fun empty => full (Text.isEmpty_iff.mpr empty)
  · obtain ⟨link, inside, named⟩ := List.mem_filterMap.mp later
    cases link with
    | tagged => cases named
    | below v =>
      obtain ⟨text, rfl, proper⟩ := accepted _ inside
      cases named
      exact proper.1

theorem stemAfter_append {separator stem : Text} {links : List Link} (accepted : ∀ link ∈ links, link.Accepted)
    (more : List Link) :
    stemAfter separator stem (links ++ more) = stemAfter separator (stemAfter separator stem links) more := by
  have filled : ∀ name ∈ (if stem.isEmpty then [] else [stem]) ++ links.filterMap Link.name?, name ≠ "" :=
    forall_names_ne_empty accepted
  rw [stemAfter, stemAfter, stemAfter, List.filterMap_append, ← List.append_assoc]
  generalize (if stem.isEmpty then [] else [stem]) ++ links.filterMap Link.name? = names at filled ⊢
  generalize more.filterMap Link.name? = others
  by_cases none : names = []
  · subst none
    rfl
  · rw [if_neg fun empty => intercalate_ne_empty filled none (Text.isEmpty_iff.mp empty)]
    by_cases done : others = []
    · simp only [done, List.append_nil, Text.intercalate_singleton]
    · rw [Text.intercalate_append_of_ne_nil none done,
        Text.intercalate_append_of_ne_nil (List.cons_ne_nil _ _) done, Text.intercalate_singleton]

/-- A name below leaves no stem empty. -/
theorem stemAfter_ne_empty {separator stem : Text} {links : List Link} {name : Value}
    (accepted : ∀ link ∈ links, link.Accepted) (below : .below name ∈ links) : stemAfter separator stem links ≠ "" := by
  obtain ⟨text, rfl, _⟩ := accepted _ below
  have member : text ∈ links.filterMap Link.name? := List.mem_filterMap.mpr ⟨_, below, rfl⟩
  exact intercalate_ne_empty (forall_names_ne_empty accepted)
    (List.append_ne_nil_of_right_ne_nil _ (List.ne_nil_of_mem member))

theorem tagsAfter_append (tags : Tags) (links more : List Link) :
    tagsAfter tags (links ++ more) = tagsAfter (tagsAfter tags links) more := by
  rw [tagsAfter, tagsAfter, tagsAfter, List.filterMap_append, List.foldl_append]

theorem nodup_keys_tagsAfter {tags : Tags} (distinct : tags.keys.Nodup) (links : List Link) :
    (tagsAfter tags links).keys.Nodup := by
  unfold tagsAfter
  induction links.filterMap Link.tags? generalizing tags with
  | nil => exact distinct
  | cons others rest ih => exact ih (Table.nodup_keys_overlay others distinct)

theorem tagsAfter_agrees {tags others : Tags} (same : tags.Agrees others) (links : List Link) :
    (tagsAfter tags links).Agrees (tagsAfter others links) := by
  unfold tagsAfter
  induction links.filterMap Link.tags? generalizing tags others with
  | nil => exact same
  | cons upper rest ih => exact ih (same.overlay upper)

theorem stemAfter_below {separator : Text} {s : Scope} {text : Text} :
    stemAfter separator s.stem [.below (.text text)] = s.qualify separator text := by
  unfold Scope.qualify stemAfter
  split
  · exact Text.intercalate_singleton
  · exact Text.intercalate_cons_cons.trans (congrArg _ Text.intercalate_singleton)

theorem tagsAfter_tagged {tags found : Tags} : tagsAfter tags [.tagged found.given] = tags.overlay found := by
  simp only [tagsAfter, Link.tags?, List.filterMap_cons, List.filterMap_nil, Tags.texts_given, List.foldl_cons,
    List.foldl_nil]

namespace Tree

/-- Takes a link from a scope. -/
def reach (t : Tree) (i : Text) : Link → Except Fault (Text × Tree)
  | .tagged tags => t.tagged i tags
  | .below name => t.subScope i name

/-- Takes links one after the other. -/
def reachAll (t : Tree) (i : Text) : List Link → Except Fault (Text × Tree)
  | [] => pure (i, t)
  | link :: rest => do
    let (j, u) ← t.reach i link
    u.reachAll j rest

/-- Do the links lead from the one scope to the other, if they are taken now? -/
def Leads (t : Tree) (i : Text) (links : List Link) (j : Text) : Prop := ∃ u, t.reachAll i links = .ok (j, u)

variable {t : Tree} {i j : Text} {s : Scope} {link : Link} {links : List Link}

/-- A link that is accepted leads to the scope of the stem and the tags after it. -/
theorem Proper.reach_eq_ok {result : Text × Tree} (proper : t.Proper) (atScope : t.scope? i = some s) :
    t.reach i link = .ok result ↔
      link.Accepted ∧ result = t.derive (stemAfter t.separator s.stem [link]) (tagsAfter s.tags [link]) := by
  cases link with
  | tagged tags =>
    rw [reach, proper.tagged_eq_ok, show stemAfter t.separator s.stem [.tagged tags] = s.stem from stemAfter_nil _ _]
    constructor
    · rintro ⟨r, found, known, accepted, rfl⟩
      cases atScope.symm.trans known
      obtain ⟨rfl, _⟩ := checkTags_eq_ok.mp accepted
      exact ⟨⟨found, accepted⟩, by rw [tagsAfter_tagged]⟩
    · rintro ⟨⟨found, accepted⟩, rfl⟩
      obtain ⟨rfl, _⟩ := checkTags_eq_ok.mp accepted
      exact ⟨s, found, atScope, accepted, by rw [tagsAfter_tagged]⟩
  | below name =>
    rw [reach, subScope_eq_ok]
    constructor
    · rintro ⟨r, text, known, rfl, named, rfl⟩
      cases atScope.symm.trans known
      exact ⟨⟨text, rfl, named⟩, by rw [stemAfter_below]; rfl⟩
    · rintro ⟨⟨text, rfl, named⟩, rfl⟩
      exact ⟨s, text, atScope, rfl, named, by rw [stemAfter_below]; rfl⟩

/-- An accepted link asks for a scope that can stand in the tree. -/
theorem Proper.fresh_after (proper : t.Proper) (atScope : t.scope? i = some s) (accepted : link.Accepted) :
    (Scope.fresh (stemAfter t.separator s.stem [link]) (tagsAfter s.tags [link])).Proper := by
  have old := proper.scopes atScope
  cases link with
  | tagged tags =>
    obtain ⟨found, accepted⟩ := accepted
    obtain ⟨rfl, plains⟩ := checkTags_eq_ok.mp accepted
    rw [tagsAfter_tagged, show stemAfter t.separator s.stem [.tagged found.given] = s.stem from stemAfter_nil _ _]
    refine .fresh old.stem (fun pair member => ?_) (Table.nodup_keys_overlay found old.distinct)
    exact (Table.mem_entries_overlay member).elim (old.tags pair) (plains pair)
  | below name =>
    obtain ⟨text, rfl, named⟩ := accepted
    rw [stemAfter_below]
    exact .fresh (old.qualify proper.separator.2 named.2) old.tags old.distinct

/-- The scope that a link leads to is there, and is made of the stem and the tags after the link. -/
theorem Proper.scope?_reach {result : Text × Tree} (proper : t.Proper) (atScope : t.scope? i = some s)
    (run : t.reach i link = .ok result) :
    result.2.Proper ∧ link.Accepted ∧ result.2.separator = t.separator ∧ ∃ r, result.2.scope? result.1 = some r ∧
      r.stem = stemAfter t.separator s.stem [link] ∧ r.tags.Agrees (tagsAfter s.tags [link]) := by
  obtain ⟨accepted, rfl⟩ := (proper.reach_eq_ok atScope).mp run
  have made := proper.fresh_after atScope accepted
  exact ⟨proper.derive made, accepted, separator_derive, proper.scope?_derive made⟩

/-- Links lead somewhere if they are accepted, and it is the scope of the stem and the tags after them. -/
theorem Proper.leads_iff (proper : t.Proper) (atScope : t.scope? i = some s) :
    t.Leads i links j ↔ (∀ link ∈ links, link.Accepted) ∧
      j = encode (stemAfter t.separator s.stem links) (tagsAfter s.tags links) := by
  induction links generalizing t i s with
  | nil =>
    rw [stemAfter_nil]
    constructor
    · rintro ⟨u, run⟩
      cases run
      exact ⟨List.forall_mem_nil _, proper.identity atScope⟩
    · rintro ⟨_, rfl⟩
      exact ⟨t, congrArg (fun i => Except.ok (i, t)) (proper.identity atScope)⟩
  | cons link rest ih =>
    have split : t.Leads i (link :: rest) j ↔ ∃ k u, t.reach i link = .ok (k, u) ∧ u.Leads k rest j := by
      constructor
      · rintro ⟨v, run⟩
        obtain ⟨⟨k, u⟩, reached, later⟩ := bind_eq_ok.mp run
        exact ⟨k, u, reached, v, later⟩
      · rintro ⟨k, u, reached, v, later⟩
        exact ⟨v, bind_eq_ok.mpr ⟨(k, u), reached, later⟩⟩
    have onward : ∀ {k u}, t.reach i link = .ok (k, u) → (u.Leads k rest j ↔ (∀ link ∈ rest, link.Accepted) ∧
        j = encode (stemAfter t.separator s.stem (link :: rest)) (tagsAfter s.tags (link :: rest))) := by
      intro k u reached
      obtain ⟨still, accepted, separator, r, there, stem, tags⟩ := proper.scope?_reach atScope reached
      have same : encode (stemAfter t.separator s.stem (link :: rest)) (tagsAfter s.tags (link :: rest)) =
          encode (stemAfter u.separator r.stem rest) (tagsAfter r.tags rest) := by
        rw [separator, stem, ← stemAfter_append (List.forall_mem_singleton.mpr accepted)]
        refine encode_congr (nodup_keys_tagsAfter (proper.scopes atScope).distinct _)
          (nodup_keys_tagsAfter (still.scopes there).distinct _) ?_
        exact (tagsAfter_append s.tags [link] rest) ▸ tagsAfter_agrees tags.symm rest
      rw [same]
      exact ih still there
    rw [split, List.forall_mem_cons, and_assoc]
    constructor
    · rintro ⟨k, u, reached, later⟩
      exact ⟨((proper.reach_eq_ok atScope).mp reached).1, (onward reached).mp later⟩
    · rintro ⟨accepted, later⟩
      have reached := (proper.reach_eq_ok atScope).mpr ⟨accepted, rfl⟩
      exact ⟨_, _, reached, (onward reached).mpr later⟩

end Tree

end MetricTree
