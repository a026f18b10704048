import MetricTree.Proofs.Cells
import MetricTree.Proofs.Deduplication

namespace MetricTree

open Identity

/-- A call of a producer: links to take one after the other from the root, and an amount for the counter of this name
where they lead. -/
structure Production where
  links : List Link
  name : Value
  amount : Int

namespace Course

/-- Takes links one after the other, up to the first that is refused. -/
def descend (c : Course) (i : Text) : List Link → Except Fault Text × Course
  | [] => (pure i, c)
  | link :: rest =>
    let d := c.take (.request (link.request i))
    match c.loop.tree.reach i link with
    | .error fault => (throw fault, d)
    | .ok (j, _) => d.descend j rest

/-- Adds an integer to the counter of this name, which is made on first use. -/
def count (c : Course) (i : Text) (name : Value) (amount : Int) : Except Fault Unit × Course :=
  let d := c.take (.request (.counter i name))
  match c.loop.tree.counter i name with
  | .error fault => (throw fault, d)
  | .ok (h, _) =>
    ((d.loop.tree.inc h (.int amount)).map fun _ => (), d.take (.request (.inc h (.int amount))))

def produce (c : Course) (root : Text) (p : Production) : Except Fault Unit × Course :=
  match c.descend root p.links with
  | (.error fault, d) => (throw fault, d)
  | (.ok i, d) => d.count i p.name p.amount

/-- Makes calls one after the other, with nothing in between. -/
def produceAll (c : Course) (root : Text) : List Production → List (Except Fault Unit) × Course
  | [] => ([], c)
  | p :: rest =>
    let (result, d) := c.produce root p
    let (results, e) := d.produceAll root rest
    (result :: results, e)

end Course

/-- Names that are no texts do not stand for such as are. -/
def Apart (given other : Value) : Prop :=
  ∀ text, given.text? = none → given.textKey? = some text → other ≠ .text text

/-- What is wrong with a link, wherever it starts. -/
def Link.check : Link → Except Fault Unit
  | .tagged tags => (checkTags tags).map fun _ => ()
  | .below name => (checkName "scope name" false name).map fun _ => ()

/-- The name of the counter that is found or made where there is a scope, unless what is given as a name is refused. -/
def Tree.nameFor (t : Tree) (i : Text) (name : Value) : Except Fault Text := do
  name.hashable
  match name.textKey?.filter fun text => (t.counter? ⟨i, text⟩).isSome with
  | some text => pure text
  | none => checkName "metric name" false name

/-- What a scope is made of, and the separator of its tree. -/
structure Site where
  separator : Text
  stem : Text
  tags : Tags

namespace Site

def identity (site : Site) : Text := encode site.stem site.tags

def after (site : Site) (link : Link) : Site :=
  { site with stem := stemAfter site.separator site.stem [link], tags := tagsAfter site.tags [link] }

/-- The scopes that links come through, up to the first link that is refused. -/
def trail (site : Site) : List Link → List Text
  | [] => []
  | link :: rest =>
    match link.check with
    | .error _ => []
    | .ok () => (site.after link).identity :: (site.after link).trail rest

/-- The scope that links lead to, unless one of them is refused. -/
def destination (site : Site) : List Link → Except Fault Text
  | [] => pure site.identity
  | link :: rest => do
    link.check
    (site.after link).destination rest

/-- The counter that a call comes to in a tree, unless something in the call but its amount is refused. -/
def landing (site : Site) (t : Tree) (p : Production) : Except Fault Handle := do
  let i ← site.destination p.links
  let name ← t.nameFor i p.name
  return ⟨i, name⟩

/-- The amounts that calls have for a counter. -/
def landed (site : Site) (t : Tree) (h : Handle) (ps : List Production) : List Int :=
  ps.filterMap fun p => if (site.landing t p).toOption = some h then some p.amount else none

/-- Is a counter there after a call, whether or not it was there before? -/
def Makes (site : Site) (p : Production) (h : Handle) : Prop :=
  site.destination p.links = .ok h.scope ∧ p.name = .text h.name ∧ ProperName h.name

end Site

namespace Counter

/-- Is an integer accepted? -/
def takes (c : Counter) (n : Int) : Except Fault Unit := (c.inc (.int n)).map fun _ => ()

/-- The counter after an integer was offered. -/
def plus (c : Counter) (n : Int) : Counter := (c.inc (.int n)).toOption.getD c

theorem inc_int (k : Int) (reported : Number) (n : Int) :
    (Counter.mk (.int k) reported).inc (.int n) = .ok ⟨.int (k + n), reported⟩ := rfl

theorem inc_float (x : Binary64) (reported : Number) (n : Int) : (Counter.mk (.float x) reported).inc (.int n) =
    (Binary64.ofInt? n).elim (.error .integerTooLarge) fun y => .ok ⟨.float (x.add y), reported⟩ := by
  simp only [inc, Value.number?, Number.add, Number.toBinary64]
  cases Binary64.ofInt? n <;> rfl

/-- What an integer makes of a counter, or of none. -/
def offer (counter : Option Counter) (n : Int) : Option Counter := some ((counter.getD .fresh).plus n)

/-- It is for the kind of its total that a counter accepts an integer or not, and the kind stays the same. -/
theorem takes_plus (c : Counter) (m n : Int) : (c.plus m).takes n = c.takes n := by
  obtain ⟨total, reported⟩ := c
  cases total with
  | int k => rfl
  | float x =>
    simp only [takes, plus, inc_float]
    cases Binary64.ofInt? m with
    | none => simp only [Option.elim_none, Except.toOption, Option.getD_none, inc_float]
    | some y =>
      simp only [Option.elim_some, Except.toOption, Option.getD_some, inc_float]
      cases Binary64.ofInt? n <;> rfl

end Counter

namespace Link

theorem check_eq_ok {link : Link} : link.check = .ok () ↔ link.Accepted := by
  cases link with
  | tagged tags =>
    rw [check, Accepted]
    cases checkTags tags with
    | error fault => simp [Except.map]
    | ok found => simp [Except.map]
  | below name =>
    have named : (∃ text, checkName "scope name" false name = .ok text) ↔ (below name).Accepted := by
      refine exists_congr fun text => ?_
      rw [checkName_eq_ok]
      exact and_congr_right fun _ => ⟨fun both => ⟨fun empty => Bool.false_ne_true (both.2 empty), both.1⟩,
        fun named => ⟨named.2, fun empty => absurd empty named.1⟩⟩
    rw [← named, check]
    cases checkName "scope name" false name with
    | error fault => simp [Except.map]
    | ok text => simp [Except.map]

end Link

namespace Tree

/-- There is a scope that is made of this, whatever the order of its tags. -/
structure Stands (t : Tree) (i : Text) (site : Site) : Prop where
  separator : t.separator = site.separator
  scope : ∃ s, t.scope? i = some s ∧ s.stem = site.stem ∧ s.tags.Agrees site.tags
  distinct : site.tags.keys.Nodup

variable {t u : Tree} {i : Text} {site : Site} {link : Link}

/-- Where there is a scope, nothing but the link itself decides whether it is refused, and how. -/
theorem map_reach {s : Scope} (atScope : t.scope? i = some s) : (t.reach i link).map (fun _ => ()) = link.check := by
  have here : t.scope i = .ok s := scope_eq_ok.mpr atScope
  cases link with
  | tagged tags =>
    simp only [reach, tagged, here, Link.check]
    cases checkTags tags <;> rfl
  | below name =>
    simp only [reach, subScope, here, Link.check]
    cases checkName "scope name" false name <;> rfl

theorem reach_of_refused {s : Scope} {fault : Fault} (atScope : t.scope? i = some s)
    (refused : link.check = .error fault) : t.reach i link = .error fault := by
  have same : (t.reach i link).map (fun _ => ()) = link.check := map_reach atScope
  rw [refused] at same
  cases run : t.reach i link with
  | error other =>
    rw [run] at same
    cases same
    rfl
  | ok result =>
    rw [run] at same
    cases same

theorem mem_identities_derive {stem x : Text} {tags : Tags} :
    x ∈ (t.derive stem tags).2.identities ↔ x ∈ t.identities ∨ x = encode stem tags := by
  cases known : t.scope? (Scope.fresh stem tags).identity with
  | some s =>
    rw [derive_of_scope? known]
    exact ⟨.inl, fun either => either.elim id fun same => same ▸ mem_identities_of_scope? known⟩
  | none =>
    rw [identities_derive known]
    exact Table.mem_keys_insert.trans or_comm

theorem counter?_derive_eq {stem : Text} {tags : Tags} {h : Handle} :
    (t.derive stem tags).2.counter? h = t.counter? h := by
  cases known : t.scope? (Scope.fresh stem tags).identity with
  | some s => rw [derive_of_scope? known]
  | none => exact counter?_derive known

theorem Stands.retains (stands : t.Stands i site) (retains : u.Retains t) : u.Stands i site := by
  obtain ⟨separator, ⟨s, atScope, stem, tags⟩, distinct⟩ := stands
  obtain ⟨r, there, sameStem, sameTags⟩ := retains.scopes atScope
  exact ⟨retains.separator.trans separator, ⟨r, there, sameStem.trans stem, sameTags ▸ tags⟩, distinct⟩

theorem Stands.identity (stands : t.Stands i site) (proper : t.Proper) : i = site.identity := by
  obtain ⟨_, ⟨s, atScope, stem, tags⟩, distinct⟩ := stands
  rw [proper.identity atScope, stem]
  exact encode_congr (proper.scopes atScope).distinct distinct tags

/-- A link that is accepted leads on, and registers the scope that it leads to. -/
theorem Stands.reach (stands : t.Stands i site) (proper : t.Proper) (accepted : link.check = .ok ()) :
    ∃ u, t.reach i link = .ok ((site.after link).identity, u) ∧ u.Proper ∧
      u.Stands (site.after link).identity (site.after link) ∧
      (∀ x, x ∈ u.identities ↔ x ∈ t.identities ∨ x = (site.after link).identity) ∧
      ∀ h, u.counter? h = t.counter? h := by
  obtain ⟨separator, ⟨s, atScope, stem, tags⟩, distinct⟩ := stands
  have reached := (proper.reach_eq_ok atScope).mpr ⟨Link.check_eq_ok.mp accepted, rfl⟩
  obtain ⟨still, _, sameSeparator, r, there, sameStem, sameTags⟩ := proper.scope?_reach atScope reached
  have sameStemAfter : stemAfter t.separator s.stem [link] = (site.after link).stem := by
    rw [separator, stem]
    rfl
  have sameTagsAfter : (tagsAfter s.tags [link]).Agrees (site.after link).tags := tagsAfter_agrees tags [link]
  have apart : (site.after link).tags.keys.Nodup := nodup_keys_tagsAfter distinct [link]
  have identity : encode (stemAfter t.separator s.stem [link]) (tagsAfter s.tags [link]) =
      (site.after link).identity := by
    rw [sameStemAfter]
    exact encode_congr (nodup_keys_tagsAfter (proper.scopes atScope).distinct [link]) apart sameTagsAfter
  rw [← identity]
  have place : (t.derive (stemAfter t.separator s.stem [link]) (tagsAfter s.tags [link])).1 =
      encode (stemAfter t.separator s.stem [link]) (tagsAfter s.tags [link]) := proper.derive_fst
  have reached : t.reach i link = .ok (encode (stemAfter t.separator s.stem [link]) (tagsAfter s.tags [link]),
      (t.derive (stemAfter t.separator s.stem [link]) (tagsAfter s.tags [link])).2) := by
    rw [reached, ← place]
  rw [place] at there
  exact ⟨_, reached, still, ⟨sameSeparator.trans separator, ⟨r, there, sameStem.trans sameStemAfter,
    sameTags.trans sameTagsAfter⟩, apart⟩, fun _ => mem_identities_derive, fun _ => counter?_derive_eq⟩

theorem nameFor_eq_ok {name : Value} {text : Text} (named : t.nameFor i name = .ok text) :
    (t.counter? ⟨i, text⟩).isSome ∨ name = .text text ∧ ProperName text := by
  obtain ⟨_, _, named⟩ := bind_eq_ok.mp named
  split at named
  · next found =>
    cases named
    exact .inl (Option.filter_eq_some_iff.mp found).2
  · exact .inr (checkName_metric_eq_ok.mp named)

/-- Texts are accepted or refused by themselves. -/
theorem Proper.nameFor_text (proper : t.Proper) (s : Text) :
    t.nameFor i (.text s) = checkName "metric name" false (.text s) := by
  have front : t.nameFor i (.text s) = match (some s).filter fun text => (t.counter? ⟨i, text⟩).isSome with
    | some text => .ok text
    | none => checkName "metric name" false (.text s) := rfl
  rw [front]
  cases found : (some s).filter fun text => (t.counter? ⟨i, text⟩).isSome with
  | none => rfl
  | some text =>
    obtain ⟨same, there⟩ := Option.filter_eq_some_iff.mp found
    cases same
    obtain ⟨c, there⟩ := Option.isSome_iff_exists.mp there
    exact (checkName_metric_eq_ok.mpr ⟨rfl, proper.counterName there⟩).symm

theorem Proper.nameFor_of_properName (proper : t.Proper) {text : Text} (named : ProperName text) :
    t.nameFor i (.text text) = .ok text :=
  (proper.nameFor_text text).trans (checkName_metric_eq_ok.mpr ⟨rfl, named⟩)

/-- What is no text is accepted in every tree that has the counter which it stands for. -/
theorem Proper.nameFor_congr (proper : t.Proper) (other : u.Proper) {name : Value}
    (same : ∀ text, name.text? = none → name.textKey? = some text →
      (u.counter? ⟨i, text⟩).isSome = (t.counter? ⟨i, text⟩).isSome) : u.nameFor i name = t.nameFor i name := by
  cases given : name.text? with
  | some s =>
    obtain rfl : name = .text s := by
      cases name <;> cases given
      rfl
    rw [proper.nameFor_text, other.nameFor_text]
  | none =>
    have found : name.textKey?.filter (fun text => (u.counter? ⟨i, text⟩).isSome) =
        name.textKey?.filter fun text => (t.counter? ⟨i, text⟩).isSome := by
      cases key : name.textKey? with
      | none => rfl
      | some text => simp only [Option.filter_some, same text given key]
    rw [nameFor, nameFor, found]

/-- A counter is found or made where there is a scope, unless its name is refused. -/
theorem counter_eq_map {s : Scope} (atScope : t.scope? i = some s) (name : Value) :
    t.counter i name = (t.nameFor i name).map fun text =>
      (⟨i, text⟩, if (t.counter? ⟨i, text⟩).isSome then t else t.setCounter ⟨i, text⟩ .fresh) := by
  have known : ∀ text, s.counters.contains text = (t.counter? ⟨i, text⟩).isSome := by
    intro text
    rw [counter?, atScope, Option.bind_some, Bool.eq_iff_iff, Table.contains_iff, Option.isSome_iff_ne_none, Ne,
      Table.get?_eq_none_iff, not_not]
  rw [counter, findOrMake, scope_eq_ok.mpr atScope, nameFor]
  simp only [bind, Except.bind, known]
  cases name.hashable with
  | error fault => rfl
  | ok =>
    simp only
    cases found : name.textKey?.filter fun text => (t.counter? ⟨i, text⟩).isSome with
    | some text =>
      simp only [pure, Except.pure, Except.map, (Option.filter_eq_some_iff.mp found).2, if_true]
    | none =>
      cases accepted : checkName "metric name" false name with
      | error fault => rfl
      | ok text =>
        obtain ⟨rfl, _⟩ := checkName_metric_eq_ok.mp accepted
        have absent : (t.counter? ⟨i, text⟩).isSome = false := by
          cases there : (t.counter? ⟨i, text⟩).isSome with
          | false => rfl
          | true =>
            have stays : (some text).filter (fun text => (t.counter? ⟨i, text⟩).isSome) = some text := if_pos there
            cases stays.symm.trans found
        simp only [pure, Except.pure, Except.map, absent, Bool.false_eq_true, if_false, setCounter,
          editScope_of_scope? atScope]

theorem counter_of_nameFor {s : Scope} {name : Value} {text : Text} (atScope : t.scope? i = some s)
    (named : t.nameFor i name = .ok text) :
    ∃ u, t.counter i name = .ok (⟨i, text⟩, u) ∧ u.identities = t.identities ∧
      u.counter? ⟨i, text⟩ = some (t.counterAt ⟨i, text⟩) ∧ ∀ h, h ≠ ⟨i, text⟩ → u.counter? h = t.counter? h := by
  refine ⟨_, (counter_eq_map atScope name).trans (congrArg (Except.map _) named), ?_⟩
  have present : (t.scope? i).isSome := Option.isSome_iff_exists.mpr ⟨s, atScope⟩
  cases there : t.counter? ⟨i, text⟩ with
  | some c =>
    rw [Option.isSome_some, if_pos rfl, counterAt_of_counter? there]
    exact ⟨rfl, there, fun _ _ => rfl⟩
  | none =>
    rw [Option.isSome_none, if_neg Bool.false_ne_true, counterAt, there, Option.getD_none]
    refine ⟨identities_editScope, (counter?_setCounter present).trans (if_pos rfl), fun h other => ?_⟩
    exact (counter?_setCounter present).trans (if_neg other)

/-- An integer is added to a counter that is there, unless the counter refuses it. -/
theorem inc_cases {h : Handle} {c : Counter} (there : t.counter? h = some c) (n : Int) :
    (∃ fault, t.inc h (.int n) = .error fault ∧ c.takes n = .error fault ∧ c.plus n = c) ∨
      t.inc h (.int n) = .ok (t.setCounter h (c.plus n)) ∧ c.takes n = .ok () := by
  have read : t.readCounter h = .ok c := readCounter_eq_ok.mpr there
  cases run : c.inc (.int n) with
  | error fault =>
    refine .inl ⟨fault, ?_, ?_, ?_⟩
    · simp only [inc, read, run, bind, Except.bind]
    · rw [Counter.takes, run]
      rfl
    · rw [Counter.plus, run]
      rfl
  | ok d =>
    have sum : c.plus n = d := by rw [Counter.plus, run]; rfl
    refine .inr ⟨?_, by rw [Counter.takes, run]; rfl⟩
    rw [sum]
    exact bind_eq_ok.mpr ⟨c, read, bind_eq_ok.mpr ⟨d, run,
      putCounter_eq_ok.mpr ⟨scope?_isSome_of_counter? there, rfl⟩⟩⟩

end Tree

namespace Course

/-- One course comes from the other by requests alone. -/
def Asks (c d : Course) : Prop := ∃ requests : List Request, d = c.run (requests.map .request)

variable {c d e : Course} {i : Text} {site : Site}

theorem Asks.refl (c : Course) : c.Asks c := ⟨[], rfl⟩

theorem Asks.trans (sooner : c.Asks d) (later : d.Asks e) : c.Asks e := by
  obtain ⟨requests, rfl⟩ := sooner
  obtain ⟨more, rfl⟩ := later
  exact ⟨requests ++ more, by rw [List.map_append, run_append]⟩

theorem asks_take (c : Course) (r : Request) : c.Asks (c.take (.request r)) := ⟨[r], rfl⟩

theorem Asks.proper (asks : c.Asks d) (proper : c.loop.tree.Proper) : d.loop.tree.Proper := by
  obtain ⟨requests, rfl⟩ := asks
  exact proper_run proper _

theorem Asks.retains (asks : c.Asks d) : d.loop.tree.Retains c.loop.tree := by
  obtain ⟨requests, rfl⟩ := asks
  exact c.retains_run _

/-- Requests do nothing to the reporting. -/
theorem Asks.frame (asks : c.Asks d) : d.waiting = c.waiting ∧ d.loop.phase = c.loop.phase := by
  obtain ⟨requests, rfl⟩ := asks
  refine run_induction (P := fun e => e.waiting = c.waiting ∧ e.loop.phase = c.loop.phase) ⟨rfl, rfl⟩ ?_
  intro e step member before
  obtain ⟨r, _, rfl⟩ := List.mem_map.mp member
  cases run : r.perform e.loop.tree with
  | error fault => simpa only [take, run] using before
  | ok done => simpa only [take, run] using before

theorem perform_of_refused {t : Tree} {link : Link} {fault : Fault} (refused : t.reach i link = .error fault) :
    (link.request i).perform t = .error fault := by
  cases link <;> exact congrArg (· >>= _) refused

theorem tree_take_of_perform {r : Request} {events : List Event} {u : Tree}
    (granted : r.perform c.loop.tree = .ok (events, u)) :
    (c.take (.request r)).loop.tree = u := by
  simp only [take, granted]

/-- Links that are taken from a scope made of this register the scopes that they come through, and nothing else. -/
structure Descends (c : Course) (site : Site) (links : List Link) (result : Except Fault Text) (d : Course) :
    Prop where
  asks : c.Asks d
  answer : result = site.destination links
  identities : ∀ x, x ∈ d.loop.tree.identities ↔ x ∈ c.loop.tree.identities ∨ x ∈ site.trail links
  counters : ∀ h, d.loop.tree.counter? h = c.loop.tree.counter? h
  there : ∀ j, result = .ok j → ∃ s, d.loop.tree.scope? j = some s

theorem descends (proper : c.loop.tree.Proper) (stands : c.loop.tree.Stands i site) (links : List Link) :
    c.Descends site links (c.descend i links).1 (c.descend i links).2 := by
  induction links generalizing c i site with
  | nil =>
    obtain ⟨s, atScope, _⟩ := stands.scope
    refine ⟨.refl c, congrArg Except.ok (stands.identity proper), fun x => ?_, fun _ => rfl, fun j same => ?_⟩
    · exact (or_iff_left List.not_mem_nil).symm
    · cases same
      exact ⟨s, atScope⟩
  | cons link rest ih =>
    have asked := c.asks_take (link.request i)
    cases checked : link.check with
    | error fault =>
      obtain ⟨s, atScope, _⟩ := stands.scope
      have refused := Tree.reach_of_refused atScope checked
      have still : c.take (.request (link.request i)) = c := take_of_refused (perform_of_refused refused)
      have gone : c.descend i (link :: rest) = (.error fault, c) := by
        simp only [descend, refused, still]
        rfl
      rw [gone]
      refine ⟨.refl c, ?_, fun x => ?_, fun _ => rfl, fun j same => by cases same⟩
      · simp only [Site.destination, checked]
        rfl
      · simp only [Site.trail, checked, List.not_mem_nil, or_false]
    | ok accepted =>
      obtain ⟨u, reached, still, there, registered, kept⟩ := stands.reach proper checked
      have tree : (c.take (.request (link.request i))).loop.tree = u :=
        tree_take_of_perform (Link.perform_request reached)
      have onward := @ih (c.take (.request (link.request i))) _ _ (tree ▸ still) (tree ▸ there)
      have gone : c.descend i (link :: rest) =
          (c.take (.request (link.request i))).descend (site.after link).identity rest := by
        simp only [descend, reached]
      rw [gone]
      obtain ⟨asks, answer, identities, counters, lands⟩ := onward
      refine ⟨asked.trans asks, ?_, fun x => ?_, fun h => ?_, lands⟩
      · rw [answer]
        simp only [Site.destination, checked]
        rfl
      · rw [identities, tree, registered, or_assoc]
        simp only [Site.trail, checked, List.mem_cons]
      · rw [counters, tree, kept]

/-- An integer is added to a counter that is there, if it is accepted. -/
theorem take_inc {h : Handle} {k : Counter} (there : c.loop.tree.counter? h = some k) (n : Int) :
    let d := c.take (.request (.inc h (.int n)))
    (c.loop.tree.inc h (.int n)).map (fun _ => ()) = k.takes n ∧ d.loop.tree.identities = c.loop.tree.identities ∧
      d.loop.tree.counter? h = some (k.plus n) ∧
      ∀ other, other ≠ h → d.loop.tree.counter? other = c.loop.tree.counter? other := by
  intro d
  rcases Tree.inc_cases there n with ⟨fault, refused, takes, same⟩ | ⟨added, takes⟩
  · have still : d = c := take_of_refused (show Request.perform c.loop.tree (.inc h (.int n)) = .error fault from
      congrArg (· >>= _) refused)
    rw [still, refused, takes, same]
    exact ⟨rfl, rfl, there, fun _ _ => rfl⟩
  · have tree : d.loop.tree = c.loop.tree.setCounter h (k.plus n) :=
      tree_take_of_perform (bind_eq_ok.mpr ⟨_, added, rfl⟩)
    have present := Tree.scope?_isSome_of_counter? there
    rw [tree, added, takes]
    exact ⟨rfl, Tree.identities_editScope, (Tree.counter?_setCounter present).trans (if_pos rfl),
      fun other apart => (Tree.counter?_setCounter present).trans (if_neg apart)⟩

/-- An integer for a counter of a scope makes that counter if need be, and is added to it if it is accepted. -/
structure Counts (c : Course) (i : Text) (name : Value) (amount : Int) (result : Except Fault Unit) (d : Course) :
    Prop where
  asks : c.Asks d
  identities : d.loop.tree.identities = c.loop.tree.identities
  answer : result = (c.loop.tree.nameFor i name).bind fun text => (c.loop.tree.counterAt ⟨i, text⟩).takes amount
  counters : ∀ h, d.loop.tree.counter? h =
    if (c.loop.tree.nameFor i name).toOption.map (Handle.mk i) = some h then
      Counter.offer (c.loop.tree.counter? h) amount
    else c.loop.tree.counter? h

theorem counts {s : Scope} (atScope : c.loop.tree.scope? i = some s) (name : Value) (amount : Int) :
    c.Counts i name amount (c.count i name amount).1 (c.count i name amount).2 := by
  cases named : c.loop.tree.nameFor i name with
  | error fault =>
    have refused : c.loop.tree.counter i name = .error fault := by
      rw [Tree.counter_eq_map atScope, named]
      rfl
    have still : c.take (.request (.counter i name)) = c :=
      take_of_refused (show Request.perform c.loop.tree (.counter i name) = .error fault from
        congrArg (· >>= _) refused)
    have gone : c.count i name amount = (.error fault, c) := by
      simp only [count, refused, still]
      rfl
    rw [gone]
    exact ⟨.refl c, rfl, by rw [named]; rfl, fun h => by rw [named]; rfl⟩
  | ok text =>
    obtain ⟨u, made, identities, there, others⟩ := Tree.counter_of_nameFor atScope named
    have tree : (c.take (.request (.counter i name))).loop.tree = u :=
      tree_take_of_perform (bind_eq_ok.mpr ⟨_, made, rfl⟩)
    obtain ⟨answer, kept, added, apart⟩ := take_inc (tree.symm ▸ there) amount
    have gone : c.count i name amount =
        ((c.loop.tree.counterAt ⟨i, text⟩).takes amount,
          (c.take (.request (.counter i name))).take (.request (.inc ⟨i, text⟩ (.int amount)))) := by
      simp only [count, made, answer]
    rw [gone]
    refine ⟨(c.asks_take _).trans (asks_take _ _), kept.trans (tree ▸ identities), by rw [named]; rfl, fun h => ?_⟩
    rw [named]
    show _ = if some (Handle.mk i text) = some h then _ else _
    by_cases here : Handle.mk i text = h
    · subst here
      rw [if_pos rfl, added]
      rfl
    · rw [if_neg (fun same => here (Option.some.inj same)), apart h (Ne.symm here), tree, others h (Ne.symm here)]

/-- A call registers the scopes that it comes through, and offers its amount to the counter that it comes to. -/
structure Produces (c : Course) (site : Site) (p : Production) (result : Except Fault Unit) (d : Course) : Prop where
  asks : c.Asks d
  answer : result = (site.landing c.loop.tree p).bind fun h => (c.loop.tree.counterAt h).takes p.amount
  identities : ∀ x, x ∈ d.loop.tree.identities ↔ x ∈ c.loop.tree.identities ∨ x ∈ site.trail p.links
  counters : ∀ h, d.loop.tree.counter? h =
    if (site.landing c.loop.tree p).toOption = some h then Counter.offer (c.loop.tree.counter? h) p.amount
    else c.loop.tree.counter? h

theorem produces (proper : c.loop.tree.Proper) (stands : c.loop.tree.Stands i site) (p : Production) :
    c.Produces site p (c.produce i p).1 (c.produce i p).2 := by
  obtain ⟨asks, answer, identities, counters, there⟩ := descends proper stands p.links
  cases led : c.descend i p.links with
  | mk result d =>
    rw [led] at asks answer identities counters there
    cases result with
    | error fault =>
      have refused : site.landing c.loop.tree p = .error fault := by rw [Site.landing, ← answer]; rfl
      have gone : c.produce i p = (.error fault, d) := by
        simp only [produce, led]
        rfl
      rw [gone]
      exact ⟨asks, by rw [refused]; rfl, identities, fun h => by rw [refused]; exact counters h⟩
    | ok j =>
      obtain ⟨s, atScope⟩ := there j rfl
      have counted := counts atScope p.name p.amount
      have gone : c.produce i p = d.count j p.name p.amount := by simp only [produce, led]
      have named : d.loop.tree.nameFor j p.name = c.loop.tree.nameFor j p.name := by
        simp only [Tree.nameFor, counters]
      have landing : site.landing c.loop.tree p = (d.loop.tree.nameFor j p.name).map (Handle.mk j) := by
        have landed : site.landing c.loop.tree p = (do return ⟨j, ← c.loop.tree.nameFor j p.name⟩) := by
          rw [Site.landing, ← answer]
          rfl
        rw [landed, named]
        cases c.loop.tree.nameFor j p.name <;> rfl
      have cells : ∀ h, d.loop.tree.counterAt h = c.loop.tree.counterAt h := fun h =>
        congrArg (·.getD .fresh) (counters h)
      rw [gone]
      refine ⟨asks.trans counted.asks, ?_, fun x => ?_, fun h => ?_⟩
      · rw [counted.answer, landing]
        cases d.loop.tree.nameFor j p.name with
        | error fault => rfl
        | ok text => exact congrArg (Counter.takes · p.amount) (cells _)
      · rw [counted.identities, identities]
      · rw [counted.counters, counters, landing]
        cases d.loop.tree.nameFor j p.name <;> rfl

namespace Produces

variable {p : Production} {result : Except Fault Unit} (produces : c.Produces site p result d)
include produces

/-- What a call does to a counter does not change what the counter accepts. -/
theorem takes (h : Handle) (n : Int) : (d.loop.tree.counterAt h).takes n = (c.loop.tree.counterAt h).takes n := by
  rw [Tree.counterAt, produces.counters]
  split
  · exact Counter.takes_plus (c.loop.tree.counterAt h) p.amount n
  · rfl

/-- New counters are those that a call names by their texts. -/
theorem isSome_counter? (proper : c.loop.tree.Proper) (h : Handle) :
    (d.loop.tree.counter? h).isSome ↔ (c.loop.tree.counter? h).isSome ∨ site.Makes p h := by
  rw [produces.counters]
  constructor
  · intro there
    split at there
    · next lands =>
      obtain ⟨_, landed, rfl⟩ : ∃ k, site.landing c.loop.tree p = .ok k ∧ k = h := by
        cases landed : site.landing c.loop.tree p with
        | error fault => rw [landed] at lands; cases lands
        | ok k => rw [landed] at lands; exact ⟨k, rfl, Option.some.inj lands⟩
      obtain ⟨i, led, landed⟩ := bind_eq_ok.mp landed
      obtain ⟨name, named, same⟩ := bind_eq_ok.mp landed
      cases same
      exact (Tree.nameFor_eq_ok named).imp_right fun made => ⟨led, made⟩
    · exact .inl there
  · rintro (there | ⟨led, given, named⟩)
    · split
      · rfl
      · exact there
    · have lands : site.landing c.loop.tree p = .ok h := by
        rw [Site.landing, led, given]
        exact bind_eq_ok.mpr ⟨_, rfl, bind_eq_ok.mpr ⟨_, proper.nameFor_of_properName named, rfl⟩⟩
      rw [lands]
      exact (congrArg Option.isSome (if_pos rfl)).trans rfl

/-- A call comes to the same counter after another one, unless what it gives as a name stands for a text which the other
one gives. -/
theorem landing (proper : c.loop.tree.Proper) {q : Production} (apart : Apart q.name p.name) :
    site.landing d.loop.tree q = site.landing c.loop.tree q := by
  rw [Site.landing, Site.landing]
  refine congrArg (site.destination q.links >>= ·) (funext fun i => congrArg (· >>= _) ?_)
  refine proper.nameFor_congr (produces.asks.proper proper) fun text given key => ?_
  rw [Bool.eq_iff_iff, produces.isSome_counter? proper]
  exact or_iff_left fun made => apart text given key made.2.1

end Produces

/-- Calls one after the other register the scopes that they come through, and make the counters that they name by their
texts. If no name only stands for one of these, they offer their amounts to the counters that they come to, and whether
one is refused does not depend on the others. -/
structure ProducesAll (c : Course) (site : Site) (ps : List Production) (results : List (Except Fault Unit))
    (d : Course) : Prop where
  asks : c.Asks d
  identities : ∀ x, x ∈ d.loop.tree.identities ↔ x ∈ c.loop.tree.identities ∨ ∃ p ∈ ps, x ∈ site.trail p.links
  made : ∀ h, (d.loop.tree.counter? h).isSome ↔ (c.loop.tree.counter? h).isSome ∨ ∃ p ∈ ps, site.Makes p h
  answers : (∀ p ∈ ps, ∀ q ∈ ps, Apart p.name q.name) →
    results = ps.map fun p =>
      (site.landing c.loop.tree p).bind fun h => (c.loop.tree.counterAt h).takes p.amount
  counters : (∀ p ∈ ps, ∀ q ∈ ps, Apart p.name q.name) →
    ∀ h, d.loop.tree.counter? h = (site.landed c.loop.tree h ps).foldl Counter.offer (c.loop.tree.counter? h)

theorem producesAll (proper : c.loop.tree.Proper) (stands : c.loop.tree.Stands i site) (ps : List Production) :
    c.ProducesAll site ps (c.produceAll i ps).1 (c.produceAll i ps).2 := by
  induction ps generalizing c with
  | nil => exact ⟨.refl c, fun x => by simp [produceAll], fun h => by simp [produceAll], fun _ => rfl, fun _ _ => rfl⟩
  | cons p rest ih =>
    have first := produces proper stands p
    have later := ih (first.asks.proper proper) (stands.retains first.asks.retains)
    have last : (c.produceAll i (p :: rest)).2 = ((c.produce i p).2.produceAll i rest).2 := rfl
    refine ⟨first.asks.trans later.asks, fun x => ?_, fun h => ?_, fun apart => ?_, fun apart h => ?_⟩
    · rw [last, later.identities, first.identities, or_assoc, List.exists_mem_cons_iff]
    · rw [last, later.made, first.isSome_counter? proper, or_assoc, List.exists_mem_cons_iff]
    · have others : ∀ q ∈ rest, ∀ r ∈ rest, Apart q.name r.name := fun q one r two =>
        apart q (List.mem_cons_of_mem _ one) r (List.mem_cons_of_mem _ two)
      refine congrArg₂ List.cons first.answer ((later.answers others).trans (List.map_congr_left fun q member => ?_))
      rw [first.landing proper (apart q (List.mem_cons_of_mem _ member) p (List.mem_cons_self ..))]
      cases site.landing c.loop.tree q with
      | error fault => rfl
      | ok h => exact first.takes h q.amount
    · have others : ∀ q ∈ rest, ∀ r ∈ rest, Apart q.name r.name := fun q one r two =>
        apart q (List.mem_cons_of_mem _ one) r (List.mem_cons_of_mem _ two)
      have onward : site.landed (c.produce i p).2.loop.tree h rest = site.landed c.loop.tree h rest :=
        List.filterMap_congr fun q member => by
          rw [first.landing proper (apart q (List.mem_cons_of_mem _ member) p (List.mem_cons_self ..))]
      rw [last, later.counters others, onward, first.counters, Site.landed, Site.landed, List.filterMap_cons]
      by_cases here : (site.landing c.loop.tree p).toOption = some h
      · simp only [if_pos here, List.foldl_cons]
      · simp only [if_neg here]

end Course

end MetricTree
