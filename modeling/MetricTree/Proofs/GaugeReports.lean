import MetricTree.Proofs.CellAccounts
import MetricTree.Proofs.PassFates
import MetricTree.Proofs.VisitHistory

namespace MetricTree

namespace Course

/-- A gauge was updated, and no pass has come to it since. -/
def Unseen (h : Handle) (past : List Moment) : Prop :=
  ∃ sooner x later, past = sooner ++ .event (.updated h x) :: later ∧ .visit (.gauge h) ∉ later

/-- Something in a list that is put together is in one of its parts. -/
theorem append_split {α : Type} {past more sooner later : List α} {x : α}
    (split : past ++ more = sooner ++ x :: later) :
    (∃ rest, past = sooner ++ x :: rest ∧ later = rest ++ more) ∨
      ∃ first, more = first ++ x :: later ∧ sooner = past ++ first := by
  rcases List.append_eq_append_iff.mp split with ⟨first, same, tail⟩ | ⟨rest, same, tail⟩
  · exact .inr ⟨first, tail, same⟩
  · rcases List.cons_eq_append_iff.mp tail with ⟨rfl, tail⟩ | ⟨rest, rfl, tail⟩
    · exact .inr ⟨[], tail.symm, by rw [same, List.append_nil, List.append_nil]⟩
    · exact .inl ⟨rest, same, (List.cons.inj tail).2⟩

/-- What the reporter is told of a metric in a moment, if it is told of it. -/
def Moment.tells? (t : Tree) (job : Job) : Moment → Option Number
  | .event e => (e.observed?.filter (t.isOf job)).map (·.2.amount)
  | .visit _ => none

/-- A gauge is to be reported now: a pass has just come to it, it had been updated without one coming to it, and this is
the last value that it was updated to. -/
def DueNow (h : Handle) (past : List Moment) (n : Number) : Prop :=
  ∃ before x, past = before ++ [.visit (.gauge h)] ∧ Unseen h before ∧ (writes h (eventsOf before)).getLast? = some x ∧
    n = .float x

/-- A gauge among all that has happened: it has the last value that it was updated to, and is marked exactly if no pass
has come to it since. The reporter was told of it when it was due, and a pass that came to it when it was told of it in
the next moment. -/
structure Exact (h : Handle) (past : List Moment) (t : Tree) : Prop where
  known : ∀ seen ∈ (eventsOf past).filterMap Event.observed?, (t.scope? seen.1).isSome
  value : (t.gaugeAt h).value = (writes h (eventsOf past)).getLast?.getD .zero
  dirty : (t.gaugeAt h).dirty = true ↔ Unseen h past
  calls : ∀ sooner m later n, past = sooner ++ m :: later → m.tells? t (.gauge h) = some n → DueNow h sooner n
  visits : ∀ sooner later, past = sooner ++ .visit (.gauge h) :: later → Unseen h sooner →
    ∃ m n rest, later = m :: rest ∧ m.tells? t (.gauge h) = some n

variable {h : Handle} {t u : Tree} {past more : List Moment} {events : List Event} {job : Job}

theorem unseen_append : Unseen h (past ++ more) ↔ Unseen h more ∨ .visit (.gauge h) ∉ more ∧ Unseen h past := by
  constructor
  · rintro ⟨sooner, x, later, split, unvisited⟩
    rcases append_split split with ⟨rest, same, rfl⟩ | ⟨first, same, _⟩
    · rw [List.mem_append, not_or] at unvisited
      exact .inr ⟨unvisited.2, sooner, x, rest, same, unvisited.1⟩
    · exact .inl ⟨first, x, later, same, unvisited⟩
  · rintro (⟨sooner, x, later, rfl, unvisited⟩ | ⟨not, sooner, x, later, rfl, unvisited⟩)
    · exact ⟨past ++ sooner, x, later, (List.append_assoc ..).symm, unvisited⟩
    · refine ⟨sooner, x, later ++ more, List.append_assoc .., ?_⟩
      rw [List.mem_append, not_or]
      exact ⟨unvisited, not⟩

theorem unseen_events : Unseen h (events.map .event) ↔ writes h events ≠ [] := by
  constructor
  · rintro ⟨sooner, x, later, split, _⟩ none
    have member : Moment.event (.updated h x) ∈ events.map .event := split ▸ List.mem_append_right _ List.mem_cons_self
    obtain ⟨e, inside, same⟩ := List.mem_map.mp member
    cases same
    have skipped := List.filterMap_eq_nil_iff.mp none _ inside
    simp at skipped
  · intro some
    obtain ⟨x, written⟩ := List.exists_mem_of_ne_nil _ some
    obtain ⟨e, inside, same⟩ := List.mem_filterMap.mp written
    obtain ⟨sooner, later, rfl⟩ := List.append_of_mem inside
    cases e with
    | updated k y =>
      simp only [Option.ite_none_right_eq_some] at same
      obtain ⟨rfl, _⟩ := same
      refine ⟨sooner.map .event, y, later.map .event, by rw [List.map_append, List.map_cons], ?_⟩
      simp
    | _ => cases same

theorem unseen_of_calm (calm : writes h events = []) : Unseen h (past ++ events.map .event) ↔ Unseen h past := by
  rw [unseen_append, unseen_events]
  simp [calm]

theorem Unseen.exists_last (unseen : Unseen h past) : ∃ x, (writes h (eventsOf past)).getLast? = some x := by
  obtain ⟨sooner, x, later, rfl, _⟩ := unseen
  cases last : (writes h (eventsOf (sooner ++ .event (.updated h x) :: later))).getLast? with
  | some y => exact ⟨y, rfl⟩
  | none =>
    have none := List.getLast?_eq_none_iff.mp last
    rw [eventsOf_append, writes_append, List.append_eq_nil_iff] at none
    have first : writes h (eventsOf (.event (.updated h x) :: later)) = x :: writes h (eventsOf later) := by
      simp only [eventsOf, List.filterMap_cons, Moment.event?, writes, if_true]
    cases first.symm.trans none.2

theorem not_unseen_visit : ¬ Unseen h (past ++ [.visit (.gauge h)]) := by
  rw [unseen_append]
  rintro (⟨sooner, x, later, split, _⟩ | ⟨not, _⟩)
  · rcases List.singleton_eq_append_iff.mp split with ⟨_, one⟩ | ⟨_, none⟩
    · cases one
    · cases none
  · exact not List.mem_cons_self

theorem unseen_of_other (other : .gauge h ≠ job) : Unseen h (past ++ [.visit job]) ↔ Unseen h past := by
  rw [unseen_append]
  constructor
  · rintro (⟨sooner, x, later, split, _⟩ | ⟨_, unseen⟩)
    · rcases List.singleton_eq_append_iff.mp split with ⟨_, one⟩ | ⟨_, none⟩
      · cases one
      · cases none
    · exact unseen
  · intro unseen
    refine .inr ⟨fun member => other ?_, unseen⟩
    cases List.mem_singleton.mp member
    rfl

theorem toList_tells? (t : Tree) (job : Job) (e : Event) :
    ((Moment.event e).tells? t job).toList = t.amountsOf job e.observed?.toList := by
  rw [Moment.tells?, Tree.amountsOf]
  cases e.observed? with
  | none => rfl
  | some seen =>
    rw [Option.filter_some, Option.toList_some, List.filter_singleton]
    cases t.isOf job seen <;> rfl

theorem tells?_of_extends {m : Moment} (extended : u.Extends t)
    (known : ∀ e seen, m = .event e → e.observed? = some seen → (t.scope? seen.1).isSome) :
    m.tells? u job = m.tells? t job := by
  cases m with
  | visit _ => rfl
  | event e =>
    rw [Moment.tells?, Moment.tells?]
    cases same : e.observed? with
    | none => rfl
    | some seen => rw [Option.filter_some, Option.filter_some, Tree.isOf_of_extends extended (known e seen rfl same)]

theorem Moment.exists_call {m : Moment} (told : (m.tells? t job).isSome) : ∃ a, m = .event (.called a) := by
  cases m with
  | visit => cases told
  | event e =>
    cases e with
    | called a => exact ⟨a, rfl⟩
    | _ => cases told

/-- What is found is told at once, and of no gauge but the one that the pass has come to. -/
theorem tells?_of_find {o : Observation} {a : Activity} (there : t.Has job) (due : t.due job = some o)
    (told : a.observed? = some (job.scope, o)) :
    (Moment.event (.called a)).tells? (t.settle job) (.gauge h) =
      if .gauge h = job then (Cell.gauge (t.gaugeAt h)).due else none := by
  have inj : Function.Injective (Option.toList : Option Number → List Number) := by
    rintro (_ | m) (_ | n) same <;> cases same <;> rfl
  apply inj
  have found := Tree.amountsOf_due there (.gauge h)
  rw [due] at found
  rw [toList_tells?, Tree.amountsOf_congr fun _ => Tree.fullName?_settle, show (Event.called a).observed? = _ from told]
  refine found.trans ?_
  split
  · next same => rw [← same]; rfl
  · rfl

theorem gauge_of_written {g g' : Gauge} (written : Cell.Written h events (.gauge g) (.gauge g')) :
    writes h events = [] ∧ g' = g ∨ ∃ x, (writes h events).getLast? = some x ∧ g' = ⟨x, true⟩ := by
  cases last : (writes h events).getLast? with
  | none =>
    have none := List.getLast?_eq_none_iff.mp last
    exact .inl ⟨none, Cell.gauge.inj (written.gauge_eq none)⟩
  | some x =>
    generalize same : Cell.gauge g' = cell at written
    cases written with
    | gauge =>
      rw [last] at same
      exact .inr ⟨x, rfl, Cell.gauge.inj same⟩

namespace Exact

/-- What was known is still so when more happens. -/
theorem append (before : Exact h past t) (extended : u.Extends t)
    (known : ∀ seen ∈ (eventsOf more).filterMap Event.observed?, (u.scope? seen.1).isSome)
    (value : (u.gaugeAt h).value = (writes h (eventsOf (past ++ more))).getLast?.getD .zero)
    (dirty : (u.gaugeAt h).dirty = true ↔ Unseen h (past ++ more))
    (calls : ∀ first m later n,
      more = first ++ m :: later → m.tells? u (.gauge h) = some n → DueNow h (past ++ first) n)
    (visits : ∀ first later, more = first ++ .visit (.gauge h) :: later → Unseen h (past ++ first) →
      ∃ m n rest, later = m :: rest ∧ m.tells? u (.gauge h) = some n) : Exact h (past ++ more) u := by
  have still : ∀ sooner m later, past = sooner ++ m :: later → m.tells? u (.gauge h) = m.tells? t (.gauge h) := by
    rintro sooner m later rfl
    refine tells?_of_extends extended ?_
    rintro e seen rfl told
    refine before.known seen (List.mem_filterMap.mpr ⟨e, ?_, told⟩)
    rw [eventsOf_append]
    exact List.mem_append_right _ List.mem_cons_self
  refine ⟨?_, value, dirty, fun sooner m later n split told => ?_, fun sooner later split unseen => ?_⟩
  · rw [eventsOf_append, List.filterMap_append]
    exact List.forall_mem_append.mpr ⟨fun seen member => extended.scope (before.known seen member), known⟩
  · rcases append_split split with ⟨rest, same, _⟩ | ⟨first, same, rfl⟩
    · exact before.calls sooner m rest n same (still sooner m rest same ▸ told)
    · exact calls first m later n same told
  · rcases append_split split with ⟨rest, same, rfl⟩ | ⟨first, same, rfl⟩
    · obtain ⟨m, n, others, rfl, told⟩ := before.visits sooner rest same unseen
      refine ⟨m, n, others ++ more, rfl, (still (sooner ++ [.visit (.gauge h)]) m others ?_).trans told⟩
      rw [same, List.append_assoc]
      rfl
    · exact visits first later same unseen

/-- Writes mark a gauge, and nothing else that callers do concerns it. -/
theorem meanwhile (before : Exact h past t) (extended : u.Extends t) (uncalled : events.filterMap Event.observed? = [])
    (written : Cell.Written h events (.gauge (t.gaugeAt h)) (.gauge (u.gaugeAt h))) :
    Exact h (past ++ events.map .event) u := by
  have vacant : ∀ {x : Moment} {first later}, events.map Moment.event = first ++ x :: later →
      ∃ e ∈ events, x = .event e ∧ e.observed? = none := by
    intro x first later split
    obtain ⟨e, member, same⟩ := List.mem_map.mp (split ▸ List.mem_append_right first List.mem_cons_self)
    exact ⟨e, member, same.symm, List.filterMap_eq_nil_iff.mp uncalled e member⟩
  have all : writes h (eventsOf (past ++ events.map .event)) = writes h (eventsOf past) ++ writes h events := by
    rw [eventsOf_append, eventsOf_events, writes_append]
  refine before.append extended ?_ ?_ ?_ (fun first m later n split told => ?_) fun first later split => ?_
  · rw [eventsOf_events, uncalled]
    exact List.forall_mem_nil _
  · rw [all, List.getLast?_append]
    rcases gauge_of_written written with ⟨none, same⟩ | ⟨x, last, same⟩
    · rw [same, none, before.value]
      rfl
    · rw [same, last]
      rfl
  · rcases gauge_of_written written with ⟨none, same⟩ | ⟨x, last, same⟩
    · rw [same, before.dirty, unseen_of_calm none]
    · refine iff_of_true (congrArg Gauge.dirty same) (unseen_append.mpr (.inl (unseen_events.mpr fun none => ?_)))
      cases (congrArg List.getLast? none).symm.trans last
  · obtain ⟨e, _, rfl, untold⟩ := vacant split
    rw [Moment.tells?, untold] at told
    cases told
  · obtain ⟨e, _, same, _⟩ := vacant split
    cases same

/-- A visit of a gauge leaves its value, and nothing to report of it. -/
theorem settle (before : Exact h past t) (there : t.Has job) :
    ((t.settle job).gaugeAt h).value = (writes h (eventsOf (past ++ [.visit job]))).getLast?.getD .zero ∧
      (((t.settle job).gaugeAt h).dirty = true ↔ Unseen h (past ++ [.visit job])) := by
  have cell : (t.settle job).cellAt (.gauge h) = _ := Tree.cellAt_settle there
  have same : eventsOf (past ++ [.visit job]) = eventsOf past := by
    rw [eventsOf_append]
    exact List.append_nil _
  rw [same]
  by_cases here : .gauge h = job
  · subst here
    rw [if_pos rfl] at cell
    rw [Cell.gauge.inj cell]
    exact ⟨before.value, iff_of_false Bool.false_ne_true not_unseen_visit⟩
  · rw [if_neg here] at cell
    rw [Cell.gauge.inj cell, unseen_of_other here]
    exact ⟨before.value, before.dirty⟩

theorem due_of_unseen (before : Exact h past t) (there : t.Has (.gauge h)) (unseen : Unseen h past) :
    t.due (.gauge h) ≠ none := by
  intro none
  have due := Tree.amountsOf_due there (.gauge h)
  rw [none, if_pos rfl, Tree.cellAt, Cell.due, if_pos (before.dirty.mpr unseen)] at due
  cases due

theorem idle (before : Exact h past t) (there : t.Has job) (undue : t.due job = none) :
    Exact h (past ++ [.visit job]) (t.settle job) := by
  obtain ⟨value, dirty⟩ := before.settle there
  refine before.append Tree.settle_extends (List.forall_mem_nil _) value dirty (fun first m later n split told => ?_)
    fun first later split unseen => ?_
  · rcases List.singleton_eq_append_iff.mp split with ⟨_, one⟩ | ⟨_, none⟩
    · cases one
      cases told
    · cases none
  · rcases List.singleton_eq_append_iff.mp split with ⟨rfl, one⟩ | ⟨_, none⟩
    · cases one
      rw [List.append_nil] at unseen
      cases before.due_of_unseen there unseen undue
    · cases none

theorem find {o : Observation} {a : Activity} (before : Exact h past t) (there : t.Has job) (due : t.due job = some o)
    (told : a.observed? = some (job.scope, o)) :
    Exact h (past ++ [.visit job, .event (.called a)]) (t.settle job) := by
  obtain ⟨value, dirty⟩ := before.settle there
  have tells : (Moment.event (.called a)).tells? (t.settle job) (.gauge h) = _ := tells?_of_find there due told
  refine before.append Tree.settle_extends (fun seen member => ?_) ?_ ?_ (fun first m later n split some => ?_)
    fun first later split unseen => ?_
  · obtain ⟨s, atScope⟩ := Tree.exists_scope?_of_has there
    have calls : eventsOf [.visit job, .event (.called a)] = [.called a] := rfl
    rw [calls, Tree.filterMap_called, told, Option.toList_some] at member
    rw [List.mem_singleton.mp member]
    exact Tree.settle_extends.scope (Option.isSome_iff_exists.mpr ⟨s, atScope⟩)
  · rw [List.append_cons, eventsOf_append, writes_append, show writes h (eventsOf [.event (.called a)]) = [] from rfl,
      List.append_nil]
    exact value
  · have still : Unseen h (past ++ [.visit job] ++ [Event.called a].map .event) ↔ _ := unseen_of_calm rfl
    rw [List.append_cons]
    exact dirty.trans still.symm
  · -- Of the two moments it is the call that tells something.
    rcases first with _ | ⟨x, _ | ⟨y, first⟩⟩
    · cases split
      cases some
    · cases split
      rw [tells] at some
      by_cases here : .gauge h = job
      · subst here
        rw [if_pos rfl, Cell.due, Option.ite_none_right_eq_some] at some
        have unseen := before.dirty.mp some.1
        obtain ⟨x, last⟩ := unseen.exists_last
        refine ⟨past, x, rfl, unseen, last, (Option.some.inj some.2).symm.trans ?_⟩
        rw [before.value, last]
        rfl
      · rw [if_neg here] at some
        cases some
    · cases first <;> cases split
  · rcases first with _ | ⟨x, _ | ⟨y, first⟩⟩
    · cases split
      rw [List.append_nil] at unseen
      rw [if_pos rfl, Cell.due, if_pos (before.dirty.mpr unseen)] at tells
      exact ⟨_, _, [], rfl, tells⟩
    · cases split
    · cases first <;> cases split

end Exact

/-- The history of a tree from its opening on. -/
theorem exact_history {o : Options} {interval : Interval} {opening : Opening}
    (opened : Opening.ofOptions o interval = .ok opening) (steps : List Step) (h : Handle) :
    Exact h (history opening steps) ((Course.opened opening).run steps).loop.tree := by
  have noWrite : ∀ e ∈ (Course.opened opening).past, e.isWrite = false := fun e => noWrite_told
  have uncalled : (Course.opened opening).past.filterMap Event.observed? = [] := filterMap_told _
  have absent : (Course.opened opening).loop.tree.gauge? h = none := Opening.gauge?_eq_none opened h
  have start : Exact h [] (Course.opened opening).loop.tree := by
    have fresh : (Course.opened opening).loop.tree.gaugeAt h = .fresh := by
      rw [Tree.gaugeAt, absent, Option.getD_none]
    refine ⟨List.forall_mem_nil _, by rw [fresh]; rfl, iff_of_false (by rw [fresh]; exact Bool.false_ne_true) ?_, ?_, ?_⟩
    · rintro ⟨sooner, x, later, split, _⟩
      cases sooner <;> cases split
    · intro sooner m later n split
      cases sooner <;> cases split
    · intro sooner later split
      cases sooner <;> cases split
  have first : Exact h ((Course.opened opening).past.map .event) (Course.opened opening).loop.tree :=
    start.meanwhile (.refl _) uncalled (.of_noWrite noWrite _)
  refine ((Course.opened opening).run_proceeds steps).induction (P := Exact h) first (fun calm before => ?_)
    (fun change before => ?_) (fun there undue before => before.idle there undue)
    fun there due told before => before.find there due told
  · have quiet := Event.isCalm_iff.mp calm
    exact before.meanwhile (.refl _) (by rw [List.filterMap_cons, quiet.2]; rfl)
      (.of_noWrite (List.forall_mem_singleton.mpr quiet.1) _)
  · exact before.meanwhile change.extends (filterMap_granted change) (change.written (.gauge h))

/-- When a gauge is due again after a pass has come to it, it was updated in between. -/
theorem updated_between {earlier between : List Moment} {a : Activity} {n : Number}
    (due : DueNow h (earlier ++ [.visit (.gauge h)] ++ .event (.called a) :: between) n) :
    writes h (eventsOf between) ≠ [] := by
  obtain ⟨before, _, same, unseen, _⟩ := due
  rcases between.eq_nil_or_concat with rfl | ⟨since, last, rfl⟩
  · cases (List.append_inj' same rfl).2
  · rw [List.concat_eq_append] at same ⊢
    rw [← List.cons_append, ← List.append_assoc] at same
    obtain ⟨rfl, _⟩ := List.append_inj' same rfl
    rcases unseen_append.mp unseen with new | ⟨_, old⟩
    · obtain ⟨x, some⟩ := new.exists_last
      intro none
      rw [eventsOf_append, writes_append, List.append_eq_nil_iff] at none
      rw [show writes h (eventsOf (.event (.called a) :: since)) = writes h (eventsOf since) from rfl, none.1] at some
      cases some
    · cases not_unseen_visit old

section

variable {o : Options} {interval : Interval} {opening : Opening} {steps : List Step}

/-- An update takes effect as a whole, or it is refused and changes nothing. -/
theorem take_update (c : Course) (value : Value) (there : (c.loop.tree.gauge? h).isSome) :
    (∃ x, value.toBinary64 = .ok x ∧ c.take (.request (.update h value)) =
      { c with loop := { c.loop with tree := c.loop.tree.setGauge h ⟨x, true⟩ }, past := c.past ++ [.updated h x] }) ∨
      ∃ fault, value.toBinary64 = .error fault ∧ c.take (.request (.update h value)) = c := by
  cases read : value.toBinary64 with
  | error fault =>
    refine .inr ⟨fault, rfl, ?_⟩
    simp only [take, Request.perform, read]
    rfl
  | ok x =>
    refine .inl ⟨x, rfl, ?_⟩
    obtain ⟨g, found⟩ := Option.isSome_iff_exists.mp there
    have updated : c.loop.tree.update h value = .ok (c.loop.tree.setGauge h ⟨x, true⟩) :=
      bind_eq_ok.mpr ⟨g, Tree.readGauge_eq_ok.mpr found, bind_eq_ok.mpr ⟨⟨x, true⟩, by rw [Gauge.update, read]; rfl,
        Tree.putGauge_eq_ok.mpr ⟨Tree.scope?_isSome_of_gauge? found, rfl⟩⟩⟩
    simp only [take, Request.perform, read, updated]
    rfl

/-- Gauges are reported exactly. Each time that the reporter is told of a gauge, it is told the last value that the
gauge was updated to, right when a pass has come to it; between two times there is an update. A pass that comes to a
gauge tells the reporter of it exactly if it was updated and no pass has come to it since. An update that is refused changes
nothing. -/
theorem gauge_reported_exactly (opened : Opening.ofOptions o interval = .ok opening) (steps : List Step) (h : Handle) :
    let c := (Course.opened opening).run steps
    let t := c.loop.tree
    let past := history opening steps
    (eventsOf past = c.past ∧ Proceeds (Course.opened opening).loop.tree ((Course.opened opening).momentsOf steps) t) ∧
    (∀ sooner m later n, past = sooner ++ m :: later → m.tells? t (.gauge h) = some n →
      (∃ x, (writes h (eventsOf sooner)).getLast? = some x ∧ n = .float x) ∧
        ∃ before, sooner = before ++ [.visit (.gauge h)]) ∧
    (∀ sooner m between n later, past = sooner ++ m :: (between ++ n :: later) →
      (m.tells? t (.gauge h)).isSome → (n.tells? t (.gauge h)).isSome → writes h (eventsOf between) ≠ []) ∧
    (∀ sooner later, past = sooner ++ .visit (.gauge h) :: later →
      ((∃ m n rest, later = m :: rest ∧ m.tells? t (.gauge h) = some n) ↔ Unseen h sooner)) ∧
    ∀ value, (t.gauge? h).isSome →
      (∃ x, value.toBinary64 = .ok x ∧ c.take (.request (.update h value)) =
        { c with loop := { c.loop with tree := t.setGauge h ⟨x, true⟩ }, past := c.past ++ [.updated h x] }) ∨
        ∃ fault, value.toBinary64 = .error fault ∧ c.take (.request (.update h value)) = c := by
  intro c t past
  have exact : Exact h past t := exact_history opened steps h
  refine ⟨⟨eventsOf_history opening steps, run_proceeds _ steps⟩, fun sooner m later n split told => ?_,
    fun sooner m between n later split first second => ?_,
    fun sooner later split => ⟨?_, exact.visits sooner later split⟩, fun value there => c.take_update value there⟩
  · obtain ⟨before, x, rfl, _, last, same⟩ := exact.calls sooner m later n split told
    refine ⟨⟨x, ?_, same⟩, before, rfl⟩
    rw [eventsOf_append]
    exact (congrArg (fun events => (writes h events).getLast?) (List.append_nil _)).trans last
  · obtain ⟨a, rfl⟩ := Moment.exists_call first
    obtain ⟨_, first⟩ := Option.isSome_iff_exists.mp first
    obtain ⟨_, second⟩ := Option.isSome_iff_exists.mp second
    obtain ⟨earlier, _, rfl, _⟩ := exact.calls sooner _ _ _ split first
    have again : past = (earlier ++ [.visit (.gauge h)] ++ .event (.called a) :: between) ++ n :: later := by
      rw [split, List.append_assoc _ (_ :: between)]
      rfl
    exact updated_between (exact.calls _ n later _ again second)
  · rintro ⟨m, n, rest, rfl, told⟩
    obtain ⟨before, x, same, unseen, _⟩ := exact.calls (sooner ++ [.visit (.gauge h)]) m rest n
      (by rw [split, List.append_assoc]; rfl) told
    obtain ⟨rfl, _⟩ := List.append_inj' same rfl
    exact unseen

end

/-- A gauge is updated from outside, and once more while the reporter is told of it, where it also refuses an update.
The call fails, and the second value is told in the next pass. -/
theorem gauge_reported_exactly_nested :
    ∃ opening, Opening.ofOptions { Options.standard with reporter := some ⟨"Recorder", true, true⟩ }
        (.value .null) = .ok opening ∧
      let steps : List Step := [.request (.gauge "" (.text "g")), .request (.update ⟨"", "g"⟩ (.int 1)), .report,
        .request (.update ⟨"", "g"⟩ (.int 2)), .request (.update ⟨"", "g"⟩ (.text "x")),
        .outcome (.failed ⟨"OSError", "gone"⟩), .outcome .returned, .report, .outcome .returned, .outcome .returned,
        .report]
      let c := (Course.opened opening).run steps
      let past := history opening steps
      c.take (.request (.update ⟨"", "g"⟩ (.text "x"))) = c ∧
      ∃ sooner m between n later, past = sooner ++ m :: (between ++ n :: later) ∧
        (m.tells? c.loop.tree (.gauge ⟨"", "g"⟩)).isSome ∧ (n.tells? c.loop.tree (.gauge ⟨"", "g"⟩)).isSome ∧
          writes ⟨"", "g"⟩ (eventsOf between) ≠ [] := by
  have opened : Opening.ofOptions { Options.standard with reporter := some ⟨"Recorder", true, true⟩ }
    (.value .null) = .ok _ := rfl
  refine ⟨_, opened, ?_⟩
  intro steps c past
  obtain ⟨_, _, apart, _, updates⟩ := gauge_reported_exactly opened steps ⟨"", "g"⟩
  constructor
  · rcases updates (.text "x") (by decide +kernel) with ⟨x, read, _⟩ | ⟨_, _, same⟩
    · cases read
    · exact same
  · have twice : (past.filterMap (Moment.tells? c.loop.tree (.gauge ⟨"", "g"⟩))).length = 2 := by
      decide +kernel
    obtain ⟨_, _, both⟩ := List.length_eq_two.mp twice
    obtain ⟨sooner, m, rest, split, _, first, others⟩ := List.filterMap_eq_cons_iff.mp both
    obtain ⟨between, n, later, rfl, _, second, _⟩ := List.filterMap_eq_cons_iff.mp others
    have told := Option.isSome_iff_exists.mpr ⟨_, first⟩
    have toldAgain := Option.isSome_iff_exists.mpr ⟨_, second⟩
    exact ⟨sooner, m, between, n, later, split, told, toldAgain, apart _ _ _ _ _ split told toldAgain⟩

end Course

end MetricTree
