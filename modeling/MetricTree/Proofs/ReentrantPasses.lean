import MetricTree.Proofs.LatestPasses

namespace MetricTree

/-- Is it the call with which a pass ends? -/
def Activity.isFlush : Activity → Bool
  | .flushing .. => true
  | _ => false

namespace Course

/-- What a reporter does in each of its calls: errands, and how the call then comes out. Both may depend on all that has
happened by then. -/
structure Script where
  errands : List Event → List Step
  outcome : List Event → Outcome
  outside : ∀ past, ∀ step ∈ errands past, step.isErrand = true

/-- The reporter's innermost call takes its course, and comes out. -/
def Script.serve (script : Script) (c : Course) : Course :=
  let d := c.run (script.errands c.past)
  d.take (.outcome (script.outcome d.past))

variable {c : Course} {s : Stage} {t u : Tree} {a : Activity} {outer : List Activity} {since : List Event} {job : Job}

/-- Whatever a reporter does in a call, it is the same call that comes out. -/
theorem At.run_errands (here : c.At s) (waits : c.waiting ≠ []) {errands : List Step}
    (outside : ∀ step ∈ errands, step.isErrand = true) :
    (c.run errands).waiting = c.waiting ∧ ∃ next, (c.run errands).At next := by
  refine run_induction (P := fun d => d.waiting = c.waiting ∧ ∃ next, d.At next) ⟨rfl, s, here⟩ ?_
  rintro d step member ⟨same, next, there⟩
  obtain ⟨events, aside⟩ := errand_aside (there.engaged (same ▸ waits)) (outside step member)
  obtain ⟨_, after, advances⟩ := take_advances there step
  exact ⟨aside.waiting.trans same, after, advances.here⟩

theorem At.serve (here : c.At s) (waits : c.waiting = a :: outer) (script : Script) :
    (∃ next, (script.serve c).At next) ∧
      ((script.serve c).waiting = outer ∨ ∃ b, Loop.Nearer b a ∧ (script.serve c).waiting = b :: outer) := by
  obtain ⟨same, next, there⟩ := here.run_errands (waiting_ne_nil waits) (script.outside c.past)
  obtain ⟨_, after, advances⟩ := take_advances there (.outcome (script.outcome (c.run (script.errands c.past)).past))
  refine ⟨⟨after, advances.here⟩, ?_⟩
  simp only [Script.serve, take, same.trans waits, move]
  cases leads : ((c.run (script.errands c.past)).loop.resume a _).next with
  | ends => exact .inl rfl
  | waits b => exact .inr ⟨b, Loop.resume_nearer leads, rfl⟩

/-- The calls of the reporter come to an end: each one that goes on leaves less to be done. -/
theorem At.serve_ends (script : Script) (here : c.At s) : ∃ n, (script.serve^[n] c).waiting = [] := by
  have ends : ∀ waiting (c : Course) (s : Stage), c.At s → c.waiting = waiting →
      ∃ n, (script.serve^[n] c).waiting = [] := by
    -- By induction on the calls that wait, and for the innermost on how near it is to its end.
    intro waiting
    induction waiting with
    | nil => exact fun c s _ none => ⟨0, none⟩
    | cons a outer later =>
      refine WellFounded.induction (C := fun a => ∀ (c : Course) (s : Stage), c.At s → c.waiting = a :: outer →
        ∃ n, (script.serve^[n] c).waiting = []) WellFoundedRelation.wf a ?_
      intro a nearer c s here waits
      obtain ⟨⟨next, there⟩, done | ⟨b, closer, goesOn⟩⟩ := here.serve waits script
      · obtain ⟨n, ended⟩ := later _ next there done
        exact ⟨n + 1, ended⟩
      · obtain ⟨n, ended⟩ := nearer b closer _ next there goesOn
        exact ⟨n + 1, ended⟩
  exact ends c.waiting c s here rfl

/-- What is told of a metric since a pass began is what was due of it when the pass came to it. -/
theorem told_visited {sooner later : List Event} {x : Cell} (fate : t.VisitedAt sooner later u job x) :
    told u job (sooner ++ later) = x.due.toList := by
  rw [told_append, fate.untold, fate.told, List.nil_append]

theorem told_untouched {sooner later : List Event} {x : Cell} {h : Handle} {k : Counter} {n : Number}
    (fate : t.VisitedAt sooner later u (.counter h) x) (there : t.counter? h = some k) (unreported : k.delta = .ok n)
    (nonzero : n.isZero = false) (unadded : amounts h sooner = []) : told u (.counter h) (sooner ++ later) = [n] := by
  have before := fate.before
  rw [Tree.cellAt, Tree.counterAt_of_counter? there] at before
  rw [told_visited fate, before.counter_eq unadded, Cell.due, unreported]
  simp only [Except.toOption, Option.filter_some, nonzero, Bool.not_false, if_true, Option.toList_some]

/-- What a pass that began over the tree `t` has done until its course waits for the call `a`. It is in the scopes that
were registered when it began, and has told the reporter only of metrics in them that it has been to. It has been to none
twice, and has told of none twice. What it told of a metric was due when it came to it: for a counter that nobody added
to since the pass began, what was due then. Its calls but for this one were reports of metrics. -/
structure Bounded (c : Course) (t : Tree) (duty : Duty) (since : List Event) (been : List Job) (a : Activity) :
    Prop where
  going : ∀ e ∈ since, e.begins = false ∧ e.endsPass = false
  scopes : a.scopes <:+ t.identities
  inside : ∀ seen ∈ since.filterMap Event.observed?,
    seen.1 ∈ t.identities ∧ ∃ job ∈ been, c.loop.tree.isOf job seen = true
  apart : been.Nodup
  once : ∀ job, (told c.loop.tree job since).length ≤ 1
  visits : ∀ job ∈ been, job.scope ∈ t.identities ∧ ∃ before after x, since = before ++ after ∧
    t.VisitedAt before after c.loop.tree job x ∧ ∀ h k n, job = .counter h → t.counter? h = some k → k.delta = .ok n →
      n.isZero = false → amounts h before = [] → told c.loop.tree job since = [n]
  calls : ∃ reports, made since = reports ++ [a] ∧ ∀ b ∈ reports, ∃ p seen, b = .observing duty p seen

theorem InPass.bounded {duty : Duty} {been : List Job} (inPass : c.InPass t duty since been a)
    (going : ∀ e ∈ since, e.begins = false ∧ e.endsPass = false) : c.Bounded t duty since been a where
  going := going
  scopes := inPass.scopes
  apart := inPass.toured.apart.of_append_left
  calls := inPass.calls
  inside := by
    intro seen member
    obtain ⟨job, visited, isOf⟩ := inPass.toured.calls seen member
    exact ⟨(Tree.isOf_iff.mp isOf).1 ▸ inPass.inside job visited, job, visited, isOf⟩
  once := by
    intro job
    by_cases visited : job ∈ been
    · obtain ⟨sooner, later, x, rfl, fate⟩ := inPass.toured.visited job visited
      rw [told_visited fate]
      cases x.due <;> simp
    · rw [(inPass.toured.spared job visited).untold]
      exact Nat.zero_le 1
  visits := by
    intro job visited
    obtain ⟨before, after, x, rfl, fate⟩ := inPass.toured.visited job visited
    refine ⟨inPass.inside job visited, before, after, x, rfl, fate, ?_⟩
    rintro h k n rfl there unreported nonzero unadded
    exact told_untouched fate there unreported nonzero unadded

theorem unbegun_of_told {notices : List Notice} {duty : Duty} : .began duty ∉ notices.map Event.told := by
  simp only [List.mem_map, reduceCtorEq, and_false, exists_false, not_false_eq_true]

/-- A pass that begins is cut short at once, or waits for the reporter. -/
theorem waits_of_began {d : Course} {next : Stage} {events : List Event} {duty : Duty}
    (advances : c.Advances s d events next) (begins : .began duty ∈ events) :
    (∃ b, d.waiting = [b] ∧ b.duty? = some duty) ∨ ∃ fault, .cut fault ∈ events := by
  have unbegun : ∀ {other asked ending next}, Stage.Pauses other asked ending next → .began duty ∉ ending := by
    rintro other asked ending next (_ | _) <;> simp
  have leads : ∀ {asked ending}, Stage.Pauses duty asked ending next →
      (∃ b, d.waiting = [b] ∧ b.duty? = some duty) ∨ ∃ fault, .cut fault ∈ ending := by
    intro asked ending pauses
    have there := advances.here
    cases pauses with
    | waits => cases there with | passing one same => exact .inl ⟨_, one, same⟩
    | breaks => exact .inr ⟨_, List.mem_cons_self ..⟩
  cases advances.leads with
  | quiet quiet => cases quiet _ begins
  | goesOn pauses => simp [unbegun_of_told, unbegun pauses] at begins
  | ask => simp at begins
  | reported | closeBare => simp [unbegun_of_told] at begins
  | leave _ _ parting =>
    obtain ⟨answer, rfl⟩ := parting
    split at begins <;> simp [unbegun_of_told] at begins
  | report pauses =>
    obtain ⟨⟩ | ⟨_, later⟩ := begins
    · exact (leads pauses).imp_right fun ⟨fault, cut⟩ => ⟨fault, List.mem_cons_of_mem _ cut⟩
    · exact absurd later (unbegun pauses)
  | close _ pauses =>
    obtain _ | ⟨_, ⟨⟩ | ⟨_, later⟩⟩ := begins
    · exact (leads pauses).imp_right fun ⟨fault, cut⟩ => ⟨fault, List.mem_cons_of_mem _ (List.mem_cons_of_mem _ cut)⟩
    · exact absurd later (unbegun pauses)
  | farewell _ pauses =>
    rw [List.append_assoc, List.mem_append] at begins
    rcases begins with before | ⟨⟩ | ⟨_, later⟩
    · simp [unbegun_of_told] at before
    · exact (leads pauses).imp_right fun ⟨fault, cut⟩ => ⟨fault, List.mem_append_right _ cut⟩
    · exact absurd later (unbegun pauses)

section

variable {o : Options} {interval : Interval} {opening : Opening} {steps : List Step} {duty : Duty}

/-- Who waits for a call of a pass stands in the pass that was begun last. -/
theorem exists_inPass (opened : Opening.ofOptions o interval = .ok opening)
    (same : c = (Course.opened opening).run steps) (waits : c.waiting = [a]) (serves : a.duty? = some duty) :
    ∃ sooner begin later first since, ∃ been : List Job, steps = sooner ++ begin :: later ∧
      Begun opening c sooner begin duty first since ∧ (∀ e ∈ since, e.endsPass = false) ∧
      c.InPass ((Course.opened opening).run sooner).loop.tree duty since been a ∧
      Covers opening sooner begin later (been ++ a.left c.loop.tree) := by
  obtain ⟨s, here, _⟩ := placed_run opened steps
  have standing := standing_run opened steps
  rw [← same] at here standing
  cases standing with
  | resting none => cases none.symm.trans waits
  | bare closed | parted closed => exact absurd closed (here.unclosed_of_serves waits serves)
  | passing split begun going inPass covers =>
    cases inPass.waits.symm.trans waits
    cases inPass.serves.symm.trans serves
    exact ⟨_, _, _, _, _, _, split, begun, going, inPass, covers⟩

/-- A step leaves a pass under way, unless it is the outcome of its flush, or cuts it short. -/
theorem take_of_serves (opened : Opening.ofOptions o interval = .ok opening)
    (same : c = (Course.opened opening).run steps) (waits : c.waiting = [a]) (serves : a.duty? = some duty)
    {step : Step} {events : List Event} (past : (c.take step).past = c.past ++ events) :
    (∃ b, (c.take step).waiting = [b] ∧ b.duty? = some duty ∧ ∀ e ∈ events, e.begins = false ∧ e.endsPass = false) ∨
      (∃ tally out, a = .flushing duty tally ∧ step = .outcome out ∧ out.aborts = false) ∨
      ∃ fault, .cut fault ∈ events := by
  obtain ⟨sooner, _, _, _, _, _, _, _, _, inPass, _⟩ := exists_inPass opened same waits serves
  obtain ⟨s, here, _⟩ := placed_run opened steps
  rw [← same] at here
  have after : (c.take step).loop.tree.Distinct := take_eq_run same step ▸ distinct_run opened _
  obtain ⟨_, others, grown, leads⟩ := inPass.next here (distinct_run opened sooner) step after
  obtain rfl : others = events := List.append_cancel_left (grown.symm.trans past)
  rcases leads with ⟨_, b, calm, _, goesOn⟩ | cut | flush
  · exact .inl ⟨b, goesOn.waits, goesOn.serves, calm⟩
  · exact .inr (.inr cut.cut)
  · exact .inr (.inl flush)

/-- With integers, it takes an interruption to cut a pass short. -/
theorem aborted_of_cut (opened : Opening.ofOptions o interval = .ok opening)
    (integral : ∀ step ∈ steps, step.isIntegral) (same : c = (Course.opened opening).run steps) {step : Step}
    (sound : step.isIntegral) {events : List Event}
    (past : (c.take step).past = c.past ++ events) {fault : Fault} (cut : .cut fault ∈ events) :
    ∃ message, step = .outcome (.aborted message) := by
  obtain ⟨s, here, _⟩ := placed_run opened steps
  subst same
  obtain ⟨_, others, grown, cuts⟩ := take_sound (faultless_run opened integral).sound here sound
  obtain rfl : others = events := List.append_cancel_left (grown.symm.trans past)
  obtain ⟨a, message, _, _, broken⟩ := cuts.cut fault cut
  exact ⟨message, cuts.came a _ broken⟩

end

/-- Passes are bounded, whatever the reporter does in its calls. A pass stays in the scopes that were registered when it
began, and comes to each metric at most once. Its flush is the last of its calls, after all metrics that there were when
it began, and all that it found to visit in those scopes since. A report during the pass is answered with nothing. A
pass goes on until its flush has come out, unless it is cut short, which with integers takes an interruption. The calls
of the reporter come to an end. -/
theorem reentrant_pass {o : Options} {interval : Interval} {opening : Opening} {steps : List Step}
    (opened : Opening.ofOptions o interval = .ok opening) :
    let c := (Course.opened opening).run steps
    (∀ a duty, c.waiting = [a] → a.duty? = some duty → ∃ sooner begin later first since, ∃ been : List Job,
      steps = sooner ++ begin :: later ∧ Begun opening c sooner begin duty first since ∧
      let t := ((Course.opened opening).run sooner).loop.tree
      c.Bounded t duty since been a ∧
      (∀ tally, a = .flushing duty tally → (∀ job, t.Has job → job ∈ been) ∧ Covers opening sooner begin later been) ∧
      c.take .report = { c with past := c.past ++ [.answered (.ok (some .empty))] }) ∧
    (∀ step, ∃ events, (c.take step).past = c.past ++ events ∧
      (∀ duty, .began duty ∈ events →
        (∃ b, (c.take step).waiting = [b] ∧ b.duty? = some duty) ∨ ∃ fault, .cut fault ∈ events) ∧
      (∀ a duty, c.waiting = [a] → a.duty? = some duty →
        (∃ b, (c.take step).waiting = [b] ∧ b.duty? = some duty ∧ ∀ e ∈ events, e.begins = false ∧ e.endsPass = false) ∨
        (∃ tally out, a = .flushing duty tally ∧ step = .outcome out ∧ out.aborts = false) ∨
        ∃ fault, .cut fault ∈ events) ∧
      ((∀ step ∈ steps, step.isIntegral) → step.isIntegral → ∀ fault, .cut fault ∈ events →
        ∃ message, step = .outcome (.aborted message))) ∧
    ∀ script : Script, ∃ n, (script.serve^[n] c).waiting = [] := by
  intro c
  obtain ⟨s, here, _⟩ := placed_run opened steps
  refine ⟨fun a duty waits serves => ?_, fun step => ?_, fun script => here.serve_ends script⟩
  · obtain ⟨sooner, begin, later, first, since, been, split, begun, going, inPass, covers⟩ :=
      exists_inPass opened rfl waits serves
    have busy : c.loop.busy = true ∨ c.loop.phase.isOver = true :=
      here.engaged (show c.waiting ≠ [] from waits ▸ List.cons_ne_nil _ _)
    refine ⟨sooner, begin, later, first, since, been, split, begun,
      inPass.bounded fun e member => ⟨begun.alone e member, going e member⟩, ?_, take_report_of_engaged busy⟩
    rintro tally rfl
    have none : been ++ (Activity.flushing duty tally).left c.loop.tree = been := List.append_nil been
    exact ⟨fun job there => none ▸ inPass.toured.all job there, none ▸ covers⟩
  · obtain ⟨events, next, advances⟩ := take_advances here step
    exact ⟨events, advances.past, fun duty begins => waits_of_began advances begins,
      fun a duty waits serves => take_of_serves opened rfl waits serves advances.past,
      fun integral sound fault cut => aborted_of_cut opened integral rfl sound advances.past cut⟩

/-- A reporter that adds to the very counter that it is told of, asks for a report, and makes a counter in a new
scope. -/
theorem reentrant_pass_growing :
    ∃ opening, Opening.ofOptions { Options.standard with reporter := some ⟨"Recorder", true, true⟩ }
        (.value .null) = .ok opening ∧
      let c := (Course.opened opening).run
        [.request (.counter "" (.text "a")), .request (.inc ⟨"", "a"⟩ (.int 3)), .report,
          .request (.inc ⟨"", "a"⟩ (.int 5)), .report, .request (.subScope "" (.text "s")),
          .request (.counter "s+" (.text "b")), .request (.inc ⟨"s+", "b"⟩ (.int 1)), .outcome .returned]
      ∃ duty tally since reports, c.waiting = [.flushing duty tally] ∧ since <:+ c.past ∧
        made since = reports ++ [.flushing duty tally] ∧ (∀ job, (told c.loop.tree job since).length ≤ 1) ∧
        (made c.past).length = 2 ∧ c.loop.tree.identities.length = 2 := by
  have opened : Opening.ofOptions { Options.standard with reporter := some ⟨"Recorder", true, true⟩ }
    (.value .null) = .ok _ := rfl
  refine ⟨_, opened, ?_⟩
  intro c
  have flushing : c.waiting.map Activity.isFlush = [true] := by decide +kernel
  obtain ⟨a, waits, isFlush⟩ := List.map_eq_singleton_iff.mp flushing
  cases a with
  | observing | leaving => cases isFlush
  | flushing duty tally =>
    obtain ⟨_, _, _, _, since, _, _, begun, bounded, _⟩ := (reentrant_pass opened).1 _ _ waits rfl
    obtain ⟨reports, calls, _⟩ := bounded.calls
    refine ⟨duty, tally, since, reports, waits, ?_, calls, bounded.once, by decide +kernel, by decide +kernel⟩
    rw [show c.past = _ from begun.past, ← List.append_assoc, List.append_cons]
    exact List.suffix_append _ _

/-- A delta that is too large for its kind cuts a pass short after its first call, and the pass does not flush. -/
theorem reentrant_pass_overflow :
    ∃ opening, Opening.ofOptions { Options.standard with reporter := some ⟨"Recorder", true, true⟩ }
        (.value .null) = .ok opening ∧
      let half := Binary64.signed false (.ofRank (1022 * Nat.pow 2 52))
      let steps : List Step := [.request (.counter "" (.text "z")), .request (.counter "" (.text "a")),
        .request (.inc ⟨"", "a"⟩ (.int (Nat.pow 10 200 * Nat.pow 10 200))), .report, .outcome .returned,
        .outcome .returned, .request (.inc ⟨"", "a"⟩ (.int (-(Nat.pow 10 200 * Nat.pow 10 200)))),
        .request (.inc ⟨"", "a"⟩ (.float half)), .request (.inc ⟨"", "z"⟩ (.int 1)), .report, .outcome .returned]
      let c := (Course.opened opening).run steps
      (∀ message, .outcome (.aborted message) ∉ steps) ∧ c.waiting = [] ∧ c.past.countP Event.begins = 2 ∧
        (made c.past).countP Activity.isFlush = 1 := by
  have opened : Opening.ofOptions { Options.standard with reporter := some ⟨"Recorder", true, true⟩ }
    (.value .null) = .ok _ := rfl
  refine ⟨_, opened, ?_⟩
  intro half steps c
  have none : c.waiting = [] := List.isEmpty_iff.mp (by decide +kernel)
  exact ⟨by simp [steps], none, by decide +kernel, by decide +kernel⟩

end Course

end MetricTree
