import MetricTree.Proofs.Derivations
import MetricTree.Proofs.KeptScopes

namespace MetricTree

open Identity

namespace Tree

variable {t : Tree} {i x : Text} {s : Scope}

/-- Tags and a name below can be asked for in either order. -/
theorem Proper.leads_commute (proper : t.Proper) (atScope : t.scope? i = some s) (tags : Table Value Value)
    (name : Value) :
    t.Leads i [.tagged tags, .below name] x ↔ t.Leads i [.below name, .tagged tags] x := by
  rw [proper.leads_iff atScope, proper.leads_iff atScope]
  simp only [List.forall_mem_cons, and_left_comm]
  rfl

/-- Tags that are asked for one after the other can be asked for at once. -/
theorem Proper.leads_overlay (proper : t.Proper) (atScope : t.scope? i = some s) {tags others : Table Value Value}
    (distinct : tags.keys.Nodup) (apart : others.keys.Nodup) (leads : t.Leads i [.tagged tags, .tagged others] x) :
    t.Leads i [.tagged (tags.overlay others)] x := by
  rw [proper.leads_iff atScope] at leads ⊢
  obtain ⟨accepted, rfl⟩ := leads
  simp only [List.forall_mem_cons] at accepted
  obtain ⟨⟨found, first⟩, ⟨extra, second⟩, _⟩ := accepted
  obtain ⟨rfl, plain⟩ := checkTags_eq_ok.mp first
  obtain ⟨rfl, plains⟩ := checkTags_eq_ok.mp second
  rw [Tags.nodup_keys_given] at distinct apart
  have both : PlainTags (found.overlay extra) := fun pair member =>
    (Table.mem_entries_overlay member).elim (plain pair) (plains pair)
  have twice : tagsAfter s.tags [.tagged found.given, .tagged extra.given] = (s.tags.overlay found).overlay extra := by
    rw [← tagsAfter_tagged, ← tagsAfter_tagged]
    rfl
  have kept := (proper.scopes atScope).distinct
  rw [Tags.given_overlay, twice, tagsAfter_tagged]
  refine ⟨List.forall_mem_singleton.mpr ⟨_, checkTags_eq_ok.mpr ⟨rfl, both⟩⟩, ?_⟩
  exact encode_congr (Table.nodup_keys_overlay _ (Table.nodup_keys_overlay _ kept)) (Table.nodup_keys_overlay _ kept)
    (Table.overlay_overlay s.tags distinct apart)

/-- Names that are asked for one below the other can be asked for at once. -/
theorem Proper.leads_joined (proper : t.Proper) (atScope : t.scope? i = some s) {name other : Text}
    (leads : t.Leads i [.below (.text name), .below (.text other)] x) :
    t.Leads i [.below (.text (name ++ t.separator ++ other))] x := by
  rw [proper.leads_iff atScope] at leads ⊢
  obtain ⟨accepted, rfl⟩ := leads
  simp only [List.forall_mem_cons] at accepted
  obtain ⟨⟨_, same, named⟩, ⟨_, alike, lower⟩, _⟩ := accepted
  cases same
  cases alike
  have joined : ProperName (name ++ t.separator ++ other) :=
    ⟨fun empty => lower.1 (Text.append_eq_empty_iff.mp empty).2,
      (named.2.append proper.separator.2).append lower.2⟩
  refine ⟨List.forall_mem_singleton.mpr ⟨_, rfl, joined⟩, congrArg (encode · s.tags) ?_⟩
  by_cases bare : s.stem.isEmpty
  · simp only [stemAfter, bare, if_true, List.nil_append, List.filterMap_cons, List.filterMap_nil, Link.name?,
      Value.text?, Text.intercalate_cons_cons, Text.intercalate_singleton]
  · simp only [stemAfter, bare, Bool.false_eq_true, if_false, List.singleton_append, List.filterMap_cons,
      List.filterMap_nil, Link.name?, Value.text?, Text.intercalate_cons_cons, Text.intercalate_singleton,
      Text.append_assoc]

/-- Tags lead to the scope itself if and only if it has them all. -/
theorem Proper.leads_self_iff (proper : t.Proper) (atScope : t.scope? i = some s) {tags : Table Value Value}
    (distinct : tags.keys.Nodup) (leads : t.Leads i [.tagged tags] x) :
    x = i ↔ ∀ entry ∈ tags.entries, entry ∈ s.tags.given.entries := by
  obtain ⟨accepted, rfl⟩ := (proper.leads_iff atScope).mp leads
  have made := proper.fresh_after atScope (List.forall_mem_singleton.mp accepted)
  have old := proper.scopes atScope
  obtain ⟨found, passed⟩ := List.forall_mem_singleton.mp accepted
  obtain ⟨rfl, _⟩ := checkTags_eq_ok.mp passed
  rw [Tags.nodup_keys_given] at distinct
  have pairs : Function.Injective fun pair : Text × Text => (Value.text pair.1, Value.text pair.2) := by
    rintro ⟨k, v⟩ ⟨l, w⟩ same
    cases same
    rfl
  calc encode (stemAfter t.separator s.stem [.tagged found.given]) (tagsAfter s.tags [.tagged found.given]) = i
      ↔ stemAfter t.separator s.stem [.tagged found.given] = s.stem ∧
          (tagsAfter s.tags [.tagged found.given]).Agrees s.tags := by
        rw [proper.identity atScope]
        exact encode_eq_encode_iff made.stem old.stem made.tags old.tags made.distinct old.distinct
    _ ↔ (s.tags.overlay found).Agrees s.tags := by
        rw [tagsAfter_tagged]
        exact and_iff_right (stemAfter_nil _ _)
    _ ↔ ∀ pair ∈ found.entries, pair ∈ s.tags.entries := by
        simp only [Table.overlay_agrees_iff _ distinct, Table.get?_eq_some_iff old.distinct]
    _ ↔ ∀ entry ∈ found.given.entries, entry ∈ s.tags.given.entries := by
        simp only [Tags.given, List.forall_mem_map, List.mem_map_of_injective pairs]

end Tree

/-- The request that is made for a link from a scope. -/
def Link.request (i : Text) : Link → Course.Request
  | .tagged tags => .tagged i tags
  | .below name => .subScope i name

theorem Link.perform_request {t u : Tree} {i j : Text} {link : Link} (reached : t.reach i link = .ok (j, u)) :
    (link.request i).perform t = .ok ([], u) := by
  cases link <;> exact bind_eq_ok.mpr ⟨_, reached, rfl⟩

/-- A tree is opened with a root that is made of the stem and the tags in its options. -/
theorem Opening.scope?_root {o : Options} {interval : Interval} {opening : Opening}
    (opened : Opening.ofOptions o interval = .ok opening) :
    ∃ stem tags s, o.stem = .text stem ∧ o.tags = tags.given ∧ opening.loop.tree.scope? opening.root = some s ∧
      s.stem = stem ∧ s.tags = tags := by
  obtain ⟨separator, stem, tags, _, given, _, pairs, _, root, tree⟩ := ofOptions_root opened
  refine ⟨stem, tags, .fresh stem tags, given, pairs, ?_, rfl, rfl⟩
  rw [root, tree, Tree.ofRoot_eq_derive, Tree.scope?_derive rfl]
  exact if_pos rfl

namespace Course

/-- In the course of these steps, the links have led from the one scope to the other, each of them from where the one
before it had led, with whatever else in between. -/
inductive Led (c : Course) (i : Text) : List Step → List Link → Text → Prop
  | start {steps : List Step} {s : Scope} (atScope : (c.run steps).loop.tree.scope? i = some s) : Led c i steps [] i
  | other {steps : List Step} {links : List Link} {j : Text} (sooner : Led c i steps links j) (step : Step) :
      Led c i (steps ++ [step]) links j
  | link {steps : List Step} {links : List Link} {j k : Text} {link : Link} {u : Tree}
      (sooner : Led c i steps links j) (reached : (c.run steps).loop.tree.reach j link = .ok (k, u)) :
      Led c i (steps ++ [.request (link.request j)]) (links ++ [link]) k

variable {c : Course} {i x : Text} {steps : List Step} {links : List Link}

/-- The scope that links have led to is made of the stem and the tags after them. -/
theorem Led.scope? (led : c.Led i steps links x) (proper : c.loop.tree.Proper) :
    let t := (c.run steps).loop.tree
    (∀ link ∈ links, link.Accepted) ∧ ∃ s q, t.scope? i = some s ∧ t.scope? x = some q ∧
      q.stem = stemAfter t.separator s.stem links ∧ q.tags.Agrees (tagsAfter s.tags links) := by
  induction led with
  | start atScope => exact ⟨List.forall_mem_nil _, _, _, atScope, atScope, (stemAfter_nil _ _).symm, .refl _⟩
  | @other steps links j sooner step ih =>
    obtain ⟨accepted, s, q, atScope, there, stem, tags⟩ := ih
    have kept := (c.run steps).retains_run [step]
    obtain ⟨r, atScope, sameStem, sameTags⟩ := kept.scopes atScope
    obtain ⟨p, there, stemKept, tagsKept⟩ := kept.scopes there
    rw [run_append]
    refine ⟨accepted, r, p, atScope, there, ?_, ?_⟩
    · rw [stemKept, sameStem, stem]
      exact congrArg (stemAfter · s.stem links) kept.separator.symm
    · rw [tagsKept, sameTags]
      exact tags
  | @link steps links j k link u sooner reached ih =>
    obtain ⟨accepted, s, q, atScope, there, stem, tags⟩ := ih
    have kept := (c.run steps).retains_run [.request (link.request j)]
    have after : ((c.run steps).run [.request (link.request j)]).loop.tree = u := by
      show ((c.run steps).take (.request (link.request j))).loop.tree = u
      simp only [take, Link.perform_request reached]
    obtain ⟨_, one, separator, r, found, stemThere, tagsThere⟩ :=
      (proper_run proper steps).scope?_reach there reached
    obtain ⟨p, atScope, sameStem, sameTags⟩ := kept.scopes atScope
    rw [run_append]
    refine ⟨List.forall_mem_append.mpr ⟨accepted, List.forall_mem_singleton.mpr one⟩, p, r, atScope,
      (congrArg (·.scope? k) after).trans found, ?_, ?_⟩
    · rw [stemThere, sameStem, stemAfter_append accepted, stem, kept.separator]
    · rw [sameTags, tagsAfter_append]
      exact tagsThere.trans (tagsAfter_agrees tags [link])

/-- Links lead to the same scope again, for as long as the tree is used. -/
theorem Led.leads (led : c.Led i steps links x) (proper : c.loop.tree.Proper) :
    (c.run steps).loop.tree.Leads i links x := by
  obtain ⟨accepted, s, q, atScope, there, stem, tags⟩ := led.scope? proper
  have now := proper_run proper steps
  refine (now.leads_iff atScope).mpr ⟨accepted, ?_⟩
  rw [now.identity there, stem]
  exact encode_congr (now.scopes there).distinct (nodup_keys_tagsAfter (now.scopes atScope).distinct links) tags

/-- A scope that links have led to is another one if and only if that is made of the same. -/
theorem Led.eq_iff {y : Text} {s r : Scope} (led : c.Led i steps links x) (proper : c.loop.tree.Proper)
    (atScope : (c.run steps).loop.tree.scope? i = some s) (other : (c.run steps).loop.tree.scope? y = some r) :
    x = y ↔ stemAfter (c.run steps).loop.tree.separator s.stem links = r.stem ∧
      (tagsAfter s.tags links).Agrees r.tags := by
  obtain ⟨_, p, q, found, there, stem, tags⟩ := led.scope? proper
  cases atScope.symm.trans found
  rw [← stem]
  constructor
  · rintro rfl
    cases other.symm.trans there
    exact ⟨rfl, tags.symm⟩
  · rintro ⟨sameStem, sameTags⟩
    exact (proper_run proper steps).unique there other sameStem (tags.trans sameTags)

/-- Calls for derived scopes lead to the same scope just if they come to the same stem and, but for the order, to the
same tags, whoever makes them and whatever happens in between. -/
theorem derived_scopes_shared {o : Options} {interval : Interval} {opening : Opening}
    (opened : Opening.ofOptions o interval = .ok opening) (distinct : o.tags.keys.Nodup) (steps : List Step) :
    let c := Course.opened opening
    let t := (c.run steps).loop.tree
    (∀ i links x, c.Led i steps links x → t.Leads i links x ∧ ∃ s q, t.scope? i = some s ∧ t.scope? x = some q ∧
      q.stem = stemAfter t.separator s.stem links ∧ q.tags.Agrees (tagsAfter s.tags links)) ∧
    (∀ i j s r links more x y, t.scope? i = some s → t.scope? j = some r →
      c.Led i steps links x → c.Led j steps more y →
      (x = y ↔ stemAfter t.separator s.stem links = stemAfter t.separator r.stem more ∧
        (tagsAfter s.tags links).Agrees (tagsAfter r.tags more))) ∧
    (∃ (stem : Text) (tags : Tags), o.stem = .text stem ∧ o.tags = tags.given ∧
      ∀ i s links x, t.scope? i = some s → c.Led i steps links x →
      (x = opening.root ↔ stemAfter t.separator s.stem links = stem ∧ (tagsAfter s.tags links).Agrees tags)) ∧
    ∀ i s, t.scope? i = some s →
      (∀ tags name x, t.Leads i [.tagged tags, .below name] x ↔ t.Leads i [.below name, .tagged tags] x) ∧
      (∀ tags others x, tags.keys.Nodup → others.keys.Nodup → t.Leads i [.tagged tags, .tagged others] x →
        t.Leads i [.tagged (tags.overlay others)] x) ∧
      (∀ name other x, t.Leads i [.below (.text name), .below (.text other)] x →
        t.Leads i [.below (.text (name ++ t.separator ++ other))] x) ∧
      ∀ tags x, tags.keys.Nodup → t.Leads i [.tagged tags] x →
        (x = i ↔ ∀ entry ∈ tags.entries, entry ∈ s.tags.given.entries) := by
  intro c t
  have first : c.loop.tree.Proper := Opening.proper opened distinct
  have proper : t.Proper := proper_run first steps
  refine ⟨fun i links x led => ?_, fun i j s r links more x y atScope atOther led other => ?_, ?_,
    fun i s atScope => ⟨fun tags name x => proper.leads_commute atScope tags name,
      fun tags others x apart unlike leads => proper.leads_overlay atScope apart unlike leads,
      fun name other x leads => proper.leads_joined atScope leads,
      fun tags x apart leads => proper.leads_self_iff atScope apart leads⟩⟩
  · obtain ⟨_, s, q, atScope, there, stem, sameTags⟩ := led.scope? first
    exact ⟨led.leads first, s, q, atScope, there, stem, sameTags⟩
  · obtain ⟨_, p, q, found, there, stem, tags⟩ := other.scope? first
    cases atOther.symm.trans found
    rw [led.eq_iff first atScope there, stem]
    exact and_congr_right fun _ => ⟨fun same => same.trans tags, fun same => same.trans tags.symm⟩
  · obtain ⟨stem, tags, root, given, pairs, atRoot, rootStem, rootTags⟩ := Opening.scope?_root opened
    obtain ⟨r, atRoot, sameStem, sameTags⟩ := (c.retains_run steps).scopes atRoot
    refine ⟨stem, tags, given, pairs, fun i s links x atScope led => ?_⟩
    rw [led.eq_iff first atScope atRoot, sameStem, sameTags, rootStem, rootTags]

/-- One caller asks for a name that holds the separator, and for tags that the next call takes back. Another caller
asks for the parts of the name, in between. -/
theorem derived_scopes_shared_interleaved :
    let prod : Table Value Value := ⟨[(.text "env", .text "prod")]⟩
    let test : Table Value Value := ⟨[(.text "env", .text "test")]⟩
    let links : List Link := [.below (.text "a.b"), .tagged test, .tagged prod]
    let more : List Link := [.below (.text "a"), .below (.text "b")]
    let steps : List Step := [.request (.subScope "svc+env=prod" (.text "a")),
      .request (.subScope "svc+env=prod" (.text "a.b")), .request (.subScope "svc.a+env=prod" (.text "b")),
      .request (.tagged "svc.a.b+env=prod" test), .report, .request (.tagged "svc.a.b+env=test" prod)]
    ∃ opening, Opening.ofOptions { Options.standard with stem := .text "svc", tags := prod } (.value .null) =
        .ok opening ∧ opening.root = "svc+env=prod" ∧
      let c := Course.opened opening
      (∃ x, c.Led "svc+env=prod" steps links x) ∧ (∃ y, c.Led "svc+env=prod" steps more y) ∧
      ∀ x y, c.Led "svc+env=prod" steps links x → c.Led "svc+env=prod" steps more y → x = y := by
  intro prod test links more steps
  have start : Opening.ofOptions { Options.standard with stem := .text "svc", tags := prod } (.value .null) =
    .ok _ := rfl
  refine ⟨_, start, by decide +kernel, ?_⟩
  obtain ⟨_, same, _⟩ := derived_scopes_shared start (List.nodup_singleton _) steps
  generalize held : Course.opened _ = c at same ⊢
  have next : ∀ {i j k links steps} link, c.Led i steps links j →
      ((c.run steps).loop.tree.reach j link).toOption.map Prod.fst = some k →
      c.Led i (steps ++ [.request (link.request j)]) (links ++ [link]) k := by
    intro i j k links steps link sooner reached
    cases run : (c.run steps).loop.tree.reach j link with
    | error fault => rw [run] at reached; cases reached
    | ok result =>
      rw [run] at reached
      cases reached
      exact sooner.link run
  have root : (c.loop.tree.scope? "svc+env=prod").isSome := by subst held; decide +kernel
  have first : c.Led "svc+env=prod" [] [] "svc+env=prod" := @Led.start _ _ [] _ (Option.get_mem root)
  have above := next (k := "svc.a+env=prod") (.below (.text "a")) first (by subst held; decide +kernel)
  have aside := next (k := "svc.a.b+env=prod") (.below (.text "a.b"))
    (first.other (.request (.subScope "svc+env=prod" (.text "a")))) (by subst held; decide +kernel)
  have below := next (k := "svc.a.b+env=prod") (.below (.text "b"))
    (above.other (.request (.subScope "svc+env=prod" (.text "a.b")))) (by subst held; decide +kernel)
  have changed := next (k := "svc.a.b+env=test") (.tagged test)
    (aside.other (.request (.subScope "svc.a+env=prod" (.text "b")))) (by subst held; decide +kernel)
  have back := next (k := "svc.a.b+env=prod") (.tagged prod) (changed.other .report) (by subst held; decide +kernel)
  refine ⟨⟨_, back⟩, ⟨_, ((below.other _).other _).other _⟩, fun x y led other => ?_⟩
  have facts : (c.run steps).loop.tree.separator = "." ∧ ((c.run steps).loop.tree.scope? "svc+env=prod").map
      (fun s => (s.stem, s.tags.entries)) = some (↑"svc", [(↑"env", ↑"prod")]) := by subst held; decide +kernel
  obtain ⟨separator, made⟩ := facts
  obtain ⟨⟨stem, ⟨pairs⟩, _, _⟩, atScope, parts⟩ := Option.map_eq_some_iff.mp made
  cases parts
  have alike : stemAfter "." "svc" links = stemAfter "." "svc" more ∧
      (tagsAfter ⟨[("env", "prod")]⟩ links).Agrees (tagsAfter ⟨[("env", "prod")]⟩ more) :=
    ⟨by decide +kernel, by decide +kernel⟩
  exact (same _ _ _ _ links more x y atScope atScope led other).mpr (separator.symm ▸ alike)

end Course

end MetricTree
