import MetricTree.Proofs.PassFates
import MetricTree.Proofs.Serving
import MetricTree.Proofs.StageRuns

namespace MetricTree

/-- The metrics that are left to a pass while it waits for the reporter. -/
def Activity.left (t : Tree) : Activity → List Job
  | .observing _ p _ => p.jobs t
  | _ => []

/-- The scopes that are left to a pass, with the one that it is in. -/
def Activity.scopes : Activity → List Text
  | .observing _ p _ => p.scopes
  | _ => []

namespace Course

/-- Does a pass go on waiting for the same call? -/
def Event.isAside : Event → Bool
  | .began _ | .called _ | .came .. | .cut _ => false
  | _ => true

/-- The calls of the reporter, one after the other. -/
def made (events : List Event) : List Activity :=
  events.filterMap fun
    | .called a => some a
    | _ => none

theorem made_append (events more : List Event) : made (events ++ more) = made events ++ made more :=
  List.filterMap_append

theorem made_of_aside {events : List Event} (aside : ∀ e ∈ events, e.isAside = true) : made events = [] := by
  refine List.filterMap_eq_nil_iff.mpr fun e member => ?_
  have calm := aside e member
  cases e with
  | called => cases calm
  | _ => rfl

theorem uncalled_of_aside {events : List Event} (aside : ∀ e ∈ events, e.isAside = true) :
    events.filterMap Event.observed? = [] := by
  refine List.filterMap_eq_nil_iff.mpr fun e member => ?_
  have calm := aside e member
  cases e with
  | called => cases calm
  | _ => rfl

theorem isAside_of_told {notices : List Notice} {e : Event} (member : e ∈ notices.map Event.told) :
    e.isAside = true := by
  obtain ⟨notice, _, rfl⟩ := List.mem_map.mp member
  rfl

/-- What callers do to a course, whether or not the reporter is being called. -/
structure Aside (c d : Course) (events : List Event) : Prop where
  past : d.past = c.past ++ events
  waiting : d.waiting = c.waiting
  aside : ∀ e ∈ events, e.isAside = true
  extended : d.loop.tree.Extends c.loop.tree
  written : ∀ job, Cell.Written job.handle events (c.loop.tree.cellAt job) (d.loop.tree.cellAt job)
  phase : d.loop.phase = .closed ↔ c.loop.phase = .closed
  reporter : d.loop.reporter = c.loop.reporter

variable {c d : Course} {s : Stage} {t : Tree} {duty : Duty} {since events : List Event} {been : List Job}
  {a : Activity}

theorem Aside.of_tree (past : d.past = c.past ++ events) (waiting : d.waiting = c.waiting)
    (aside : ∀ e ∈ events, e.isAside = true) (noWrite : ∀ e ∈ events, e.isWrite = false)
    (tree : d.loop.tree = c.loop.tree) (phase : d.loop.phase = .closed ↔ c.loop.phase = .closed)
    (reporter : d.loop.reporter = c.loop.reporter) : c.Aside d events :=
  ⟨past, waiting, aside, tree ▸ .refl _, fun _ => tree ▸ .of_noWrite noWrite _, phase, reporter⟩

theorem request_aside (c : Course) (r : Request) : ∃ events, c.Aside (c.take (.request r)) events := by
  cases run : r.perform c.loop.tree with
  | error fault =>
    have still : c.take (.request r) = c := by simp only [take, run]
    rw [still]
    exact ⟨[], .of_tree (List.append_nil _).symm rfl (List.forall_mem_nil _) (List.forall_mem_nil _) rfl Iff.rfl rfl⟩
  | ok done =>
    obtain ⟨events, tree⟩ := done
    have change := Request.perform_change run
    simp only [take, run]
    refine ⟨events, rfl, rfl, ?_, change.extends, change.written, Iff.rfl, rfl⟩
    cases change with
    | added | updated => exact List.forall_mem_singleton.mpr rfl
    | _ => exact List.forall_mem_nil _

theorem start_aside (c : Course) : c.Aside (c.take .start) (c.loop.start.2.map .told) := by
  refine .of_tree rfl rfl (fun _ => isAside_of_told) (fun _ => noWrite_told) c.loop.start_tree ?_ ?_
  · rcases c.loop.start_cases with same | ⟨idle, running⟩
    · rw [take, same]
    · rw [take, running, idle]
      exact iff_of_false (fun closed => by cases closed) fun closed => by cases closed
  · rcases c.loop.start_cases with same | ⟨_, running⟩
    · rw [take, same]
    · rw [take, running]

/-- During a pass, and once a close was asked for, a report is answered with nothing, and makes nothing happen. -/
theorem take_report_of_engaged (engaged : c.loop.busy = true ∨ c.loop.phase.isOver = true) :
    c.take .report = { c with past := c.past ++ [.answered (.ok (some .empty))] } := by
  have planned : c.loop.planReport = .answer (some .empty) := by
    rw [Loop.planReport, if_pos]
    rcases engaged with busy | ended
    · rw [busy]; rfl
    · rw [ended, Bool.or_true]; rfl
  rw [take, Loop.report, planned]
  exact c.move_answer [] (some .empty) []

theorem close_aside (engaged : c.loop.busy = true ∨ c.loop.phase.isOver = true) :
    ∃ events, c.Aside (c.take .close) events := by
  have planned : c.loop.planClose = .answer none := by
    rw [Loop.planClose, if_pos]
    rw [Bool.or_eq_true]
    exact engaged.symm
  cases ended : c.loop.phase.isOver with
  | true =>
    have answered : c.take .close = { c with past := c.past ++ [.answered (.ok none)] } := by
      simp only [take, Loop.close, ended, if_true, planned]
      exact c.move_answer [] none []
    rw [answered]
    exact ⟨_, .of_tree rfl rfl (List.forall_mem_singleton.mpr rfl) (List.forall_mem_singleton.mpr rfl) rfl Iff.rfl rfl⟩
  | false =>
    have answered : c.take .close =
        { c with loop := { c.loop with phase := .closing }, past := c.past ++ [.closing, .answered (.ok none)] } := by
      simp only [take, Loop.close, ended, Bool.false_eq_true, if_false, planned]
      exact c.move_answer [.closing] none []
    have going : c.loop.phase ≠ .closed := by
      intro closed
      rw [closed] at ended
      cases ended
    rw [answered]
    have closing : Phase.closing ≠ .closed := fun closed => by cases closed
    refine ⟨_, .of_tree rfl rfl ?_ ?_ rfl (iff_of_false closing going) rfl⟩ <;>
      (rintro e (_ | ⟨_, _ | ⟨_, ⟨⟩⟩⟩) <;> rfl)

/-- What the reporter does while it is called changes nothing of what waits for it. -/
theorem errand_aside {step : Step} (engaged : c.loop.busy = true ∨ c.loop.phase.isOver = true)
    (outside : step.isErrand = true) : ∃ events, c.Aside (c.take step) events := by
  cases step with
  | request r => exact c.request_aside r
  | start => exact ⟨_, c.start_aside⟩
  | report =>
    rw [take_report_of_engaged engaged]
    exact ⟨_, .of_tree rfl rfl (List.forall_mem_singleton.mpr rfl) (List.forall_mem_singleton.mpr rfl) rfl Iff.rfl rfl⟩
  | close => exact close_aside engaged
  | outcome o => cases outside

theorem At.engaged (here : c.At s) (waits : c.waiting ≠ []) : c.loop.busy = true ∨ c.loop.phase.isOver = true := by
  cases here with
  | ready none | stuck none => exact absurd none waits
  | passing _ _ busy => exact .inl busy
  | finished _ _ closed => exact .inr (by rw [closed]; rfl)

/-- A pass for a duty that began over the tree `t` waits for the call `a`, after what has happened since. Its calls are
reports of metrics, but for the last one, and it is in the scopes that were registered when it began. -/
structure InPass (c : Course) (t : Tree) (duty : Duty) (since : List Event) (been : List Job) (a : Activity) :
    Prop where
  waits : c.waiting = [a]
  serves : a.duty? = some duty
  scopes : a.scopes <:+ t.identities
  inside : ∀ job ∈ been, job.scope ∈ t.identities
  calls : ∃ sooner, made since = sooner ++ [a] ∧ ∀ b ∈ sooner, ∃ p o, b = .observing duty p o
  toured : t.Toured since c.loop.tree been (a.left c.loop.tree)

theorem InPass.aside (inPass : c.InPass t duty since been a) (start : t.Distinct) (aside : c.Aside d events)
    (distinct : d.loop.tree.Distinct) : d.InPass t duty (since ++ events) been a := by
  obtain ⟨waits, serves, scopes, inside, ⟨sooner, calls, reports⟩, toured⟩ := inPass
  refine ⟨aside.waiting.trans waits, serves, scopes, inside, ⟨sooner, ?_, reports⟩, ?_⟩
  · rw [made_append, made_of_aside aside.aside, List.append_nil, calls]
  have uncalled := uncalled_of_aside aside.aside
  have left := toured.apart.of_append_right
  have there := (List.forall_mem_append.mp toured.there).2
  cases a with
  | observing _ p o =>
    have apart : p.scopes.Nodup := start.identities.sublist scopes.sublist
    exact toured.meanwhile aside.extended aside.written uncalled (Tree.nodup_passJobs distinct apart left)
      (fun job member => Tree.has_of_mem_passJobs there aside.extended member)
      fun job there => Tree.mem_jobs_iff_of_has aside.extended there
  | flushing | leaving =>
    exact toured.meanwhile aside.extended aside.written uncalled List.nodup_nil nofun fun _ _ => Iff.rfl

theorem InPass.kept_aside (inPass : c.InPass t duty since been a) (aside : c.Aside d events) :
    been ++ a.left c.loop.tree ⊆ been ++ a.left d.loop.tree := by
  intro job member
  refine List.mem_append.mpr ((List.mem_append.mp member).imp_right fun left => ?_)
  cases a with
  | observing _ p o =>
    exact (Tree.mem_jobs_iff_of_has aside.extended (inPass.toured.there job member)).mpr left
  | flushing | leaving => cases left

/-- Does it end a pass, at its flush or before its time? -/
def Event.endsPass : Event → Bool
  | .cut _ => true
  | .came (.flushing ..) _ => true
  | _ => false

theorem Event.of_isAside {e : Event} (aside : e.isAside = true) : e.begins = false ∧ e.endsPass = false := by
  cases e with
  | began | cut | came => cases aside
  | _ => exact ⟨rfl, rfl⟩

/-- Does it lead on within a pass, with nothing written and nobody called? -/
def Event.isLink : Event → Bool
  | .told _ | .came (.observing ..) _ => true
  | _ => false

theorem isLink_of_told {notices : List Notice} {e : Event} (member : e ∈ notices.map Event.told) : e.isLink = true := by
  obtain ⟨notice, _, rfl⟩ := List.mem_map.mp member
  rfl

theorem Event.of_isLink {e : Event} (link : e.isLink = true) :
    e.isWrite = false ∧ e.observed? = none ∧ e.begins = false ∧ e.endsPass = false := by
  cases e with
  | told => exact ⟨rfl, rfl, rfl, rfl⟩
  | came a o =>
    cases a with
    | observing => exact ⟨rfl, rfl, rfl, rfl⟩
    | flushing | leaving => cases link
  | _ => cases link

/-- A search for the next metric to report fails, or goes on with the pass. -/
theorem own_of_pass {l : Loop} (unclosed : l.phase ≠ .closed) (duty : Duty) (tally : Summary)
    (found : Except Fault (Option (Observation × Pass)) × Tree) :
    ∃ ending, (∀ plan notices, own plan (Move.after notices (l.pass duty tally found)) =
        notices.map .told ++ (plan.map Plan.events).getD [] ++ ending) ∧
      ((∃ fault, .cut fault ∈ ending ∧ (l.pass duty tally found).next = .ends (.error fault)) ∨
        ∃ a, (l.pass duty tally found).next = .waits a ∧ ending = [.called a]) := by
  obtain ⟨fault | _ | ⟨o, p⟩, u⟩ := found
  · refine ⟨[.cut fault, .answered (.error fault)], fun plan notices => ?_, .inl ⟨fault, List.mem_cons_self .., rfl⟩⟩
    simp only [own, Move.after, Loop.pass, Loop.answered, throw, throwThe, MonadExceptOf.throw, Move.ending, unclosed,
      if_false, List.append_nil]
  all_goals
    refine ⟨_, fun plan notices => ?_, .inr ⟨_, rfl, rfl⟩⟩
    simp only [own, Move.after, Loop.pass, Move.ending, List.append_nil]

theorem pass_phase (l : Loop) (duty : Duty) (tally : Summary)
    (found : Except Fault (Option (Observation × Pass)) × Tree) : (l.pass duty tally found).loop.phase = l.phase := by
  obtain ⟨fault | _ | ⟨o, p⟩, u⟩ := found <;> rfl

theorem waiting_of_ends {before : List Event} {plan : Option Plan} {m : Move} {answer : Except Fault (Option Summary)}
    (ends : m.next = .ends answer) : (c.move before plan m).waiting = c.waiting := by
  simp only [move, ends]

/-- A pass was cut short, and its loop is not closed. -/
structure CutShort (d : Course) (events : List Event) : Prop where
  cut : ∃ fault, .cut fault ∈ events
  none : d.waiting = []
  unclosed : d.loop.phase ≠ .closed

theorem InPass.of_pass {l : Loop} {u : Tree} {tally : Summary} {jobs : List Job} {scopes : List Text}
    {pre : List Event} {found : Except Fault (Option (Observation × Pass)) × Tree} (before : List Event)
    (plan : Option Plan) (notices : List Notice) (none : c.waiting = [])
    (toured : t.Toured since u been jobs) (tours : u.Tours jobs (·.cursor.scope) (Pass.jobs found.2) found)
    (remaining : ∀ o p, found.1 = .ok (some (o, p)) → p.scopes <:+ scopes) (ahead : scopes <:+ t.identities)
    (inside : ∀ job ∈ been ++ jobs, job.scope ∈ t.identities)
    (reports : ∀ b ∈ made since, ∃ p o, b = .observing duty p o) (links : ∀ e ∈ pre, e.isLink = true)
    (next : (l.pass duty tally found).next = .waits a) :
    let d := c.move before plan (Move.after notices (l.pass duty tally found))
    ∃ visited, jobs = visited ++ a.left d.loop.tree ∧
      d.InPass t duty (since ++ (pre ++ [Event.called a])) (been ++ visited) a := by
  intro d
  have noWrite : ∀ e ∈ pre, e.isWrite = false := fun e member => (Event.of_isLink (links e member)).1
  have uncalled : pre.filterMap Event.observed? = [] :=
    List.filterMap_eq_nil_iff.mpr fun e member => (Event.of_isLink (links e member)).2.1
  have unmade : made pre = [] := by
    refine List.filterMap_eq_nil_iff.mpr fun e member => ?_
    have link := links e member
    cases e with
    | called => cases link
    | _ => rfl
  have calls : made (since ++ (pre ++ [Event.called a])) = made since ++ [a] := by
    rw [made_append, made_append, unmade]
    rfl
  obtain ⟨fault | _ | ⟨o, p⟩, v⟩ := found
  · cases next
  · cases next
    have whole : jobs = jobs ++ [] := (List.append_nil _).symm
    rw [whole] at toured
    exact ⟨jobs, whole, congrArg _ none, rfl, List.nil_suffix, inside, ⟨_, calls, reports⟩,
      toured.tour tours noWrite uncalled⟩
  · cases next
    obtain ⟨visited, rfl, tour⟩ := tours
    rw [← List.append_assoc] at inside
    exact ⟨visited, rfl, congrArg _ none, rfl, (remaining o p rfl).trans ahead,
      fun job member => inside job (List.mem_append_left _ member), ⟨_, calls, reports⟩,
      toured.tour tour noWrite uncalled⟩

/-- The outcome of a report leads on to the next call of the pass, unless it cuts the pass short. Of the metrics that
were left, those that the pass does not come to by then are left still. -/
theorem InPass.outcome {p : Pass} {seen : Observation} (inPass : c.InPass t duty since been (.observing duty p seen))
    (unclosed : c.loop.phase ≠ .closed) (o : Outcome) :
    ∃ events, (c.take (.outcome o)).past = c.past ++ events ∧ ((c.take (.outcome o)).CutShort events ∨
      ∃ visited a, (∀ e ∈ events, e.begins = false ∧ e.endsPass = false) ∧
        p.jobs c.loop.tree = visited ++ a.left (c.take (.outcome o)).loop.tree ∧
        (c.take (.outcome o)).InPass t duty (since ++ events) (been ++ visited) a) := by
  obtain ⟨waits, serves, scopes, inside, ⟨sooner, calls, reports⟩, toured⟩ := inPass
  have taken : c.take (.outcome o) = { c with waiting := [] }.move [.came (.observing duty p seen) o] none
      (c.loop.resume (.observing duty p seen) o) := by
    simp only [take, waits, Activity.plan?]
  rw [taken]
  refine ⟨_, past_move _ _ _ _, ?_⟩
  cases calm : o.aborts with
  | true =>
    cases o with
    | returned | failed => cases calm
    | aborted message =>
      exact .inl ⟨⟨.aborted message, List.mem_append_right _ (cut_mem_own.mpr ⟨rfl, unclosed⟩)⟩, rfl, unclosed⟩
  | false =>
    obtain ⟨notices, resumes⟩ := c.loop.resume_observing duty p seen calm
    rw [resumes]
    generalize Loop.tallied p.tally seen o = tally
    have tours := c.loop.tree.continuePass_tours { p with tally := tally }
    have remaining : ∀ o q, (c.loop.tree.continuePass { p with tally := tally }).1 = .ok (some (o, q)) →
        q.scopes <:+ p.scopes :=
      fun o q run => Tree.continuePass_scopes (p := { p with tally := tally }) (Prod.ext run rfl)
    -- From here on it matters where the search went, not how.
    generalize c.loop.tree.continuePass { p with tally := tally } = found at tours remaining
    obtain ⟨ending, happens, ⟨fault, cut, ends⟩ | ⟨a, next, rfl⟩⟩ := own_of_pass unclosed duty tally found
    · refine .inl ⟨⟨fault, List.mem_append_right _ ?_⟩, waiting_of_ends ends, ?_⟩
      · rw [happens]
        exact List.mem_append_right _ cut
      · exact fun closed => unclosed ((pass_phase ..).symm.trans closed)
    · refine .inr ?_
      rw [happens, Option.map_none, Option.getD_none, List.append_nil, ← List.append_assoc]
      have links : ∀ e ∈ [Event.came (.observing duty p seen) o] ++ notices.map Event.told, e.isLink = true :=
        List.forall_mem_append.mpr ⟨List.forall_mem_singleton.mpr rfl, fun _ => isLink_of_told⟩
      have earlier : ∀ b ∈ made since, ∃ p o, b = .observing duty p o := by
        rw [calls]
        exact List.forall_mem_append.mpr ⟨reports, List.forall_mem_singleton.mpr ⟨p, seen, rfl⟩⟩
      obtain ⟨visited, left, goesOn⟩ := InPass.of_pass (c := { c with waiting := [] }) (l := c.loop)
        [.came (.observing duty p seen) o] none notices rfl toured tours remaining scopes
        (List.forall_mem_append.mpr ⟨inside, fun job member => scopes.subset (Tree.scope_mem_of_mem_jobs member)⟩)
        earlier links next
      have calm : ∀ e ∈ [Event.came (.observing duty p seen) o] ++ notices.map Event.told,
          e.begins = false ∧ e.endsPass = false := fun e member => (Event.of_isLink (links e member)).2.2
      exact ⟨visited, a, List.forall_mem_append.mpr ⟨calm, List.forall_mem_singleton.mpr ⟨rfl, rfl⟩⟩, left, goesOn⟩

/-- Every step leaves a pass under way, with all that it was to visit, or cuts it short, unless it is the outcome of its
flush. -/
theorem InPass.next (inPass : c.InPass t duty since been a) (here : c.At s) (start : t.Distinct)
    (step : Step) (distinct : (c.take step).loop.tree.Distinct) : c.loop.phase ≠ .closed ∧
    ∃ events, (c.take step).past = c.past ++ events ∧
      ((∃ visited b, (∀ e ∈ events, e.begins = false ∧ e.endsPass = false) ∧
          been ++ a.left c.loop.tree ⊆ (been ++ visited) ++ b.left (c.take step).loop.tree ∧
          (c.take step).InPass t duty (since ++ events) (been ++ visited) b) ∨
        (c.take step).CutShort events ∨
        ∃ tally out, a = .flushing duty tally ∧ step = .outcome out ∧ out.aborts = false) := by
  have waits := inPass.waits
  have serves := inPass.serves
  cases here with
  | ready none | stuck none => cases none.symm.trans waits
  | finished parting => cases (parting a (waits ▸ List.mem_singleton.mpr rfl)).symm.trans serves
  | passing _ _ busy _ allowed =>
    have unclosed := allowed.ne_closed
    refine ⟨unclosed, ?_⟩
    by_cases outside : step.isErrand = true
    · obtain ⟨events, aside⟩ := errand_aside (.inl busy) outside
      refine ⟨events, aside.past, .inl ⟨[], a, fun e member => Event.of_isAside (aside.aside e member), ?_⟩⟩
      rw [List.append_nil]
      exact ⟨inPass.kept_aside aside, inPass.aside start aside distinct⟩
    · cases step with
      | outcome out =>
        cases a with
        | leaving => cases serves
        | observing =>
          cases serves
          obtain ⟨events, past, cut | ⟨visited, b, calm, left, goesOn⟩⟩ := inPass.outcome unclosed out
          · exact ⟨events, past, .inr (.inl cut)⟩
          · refine ⟨events, past, .inl ⟨visited, b, calm, ?_, goesOn⟩⟩
            rw [Activity.left, left, List.append_assoc]
            exact List.Subset.refl _
        | flushing _ tally =>
          cases serves
          cases out with
          | returned | failed =>
            obtain ⟨events, past, _⟩ := c.take_effect (.outcome _)
            exact ⟨events, past, .inr (.inr ⟨tally, _, rfl, rfl, rfl⟩)⟩
          | aborted message =>
            have taken : c.take (.outcome (.aborted message)) = { c with waiting := [] }.move
                [.came (.flushing duty tally) (.aborted message)] none
                (c.loop.resume (.flushing duty tally) (.aborted message)) := by
              simp only [take, waits, Activity.plan?]
            rw [taken]
            refine ⟨_, past_move _ _ _ _, .inr (.inl ⟨⟨.aborted message, ?_⟩, rfl, unclosed⟩)⟩
            exact List.mem_append_right _ (cut_mem_own.mpr ⟨rfl, unclosed⟩)
      | _ => exact absurd rfl outside

/-- A pass that begins goes through all metrics that there are. -/
theorem InPass.begin {l : Loop} (none : c.waiting = []) (unclosed : l.phase ≠ .closed) (distinct : l.tree.Distinct)
    (duty : Duty) (before : List Event) (notices : List Notice) :
    let d := c.move before (some (.pass duty)) (Move.after notices (l.follow (.pass duty)))
    ∃ rest, d.past = c.past ++ (before ++ notices.map .told ++ .began duty :: rest) ∧
      (d.CutShort rest ∨ ∃ visited a, rest = [.called a] ∧ d.InPass l.tree duty rest visited a) := by
  intro d
  have tours : l.tree.Tours l.tree.jobs _ _ l.tree.beginPass := l.tree.enter_tours .empty l.tree.identities
  have remaining : ∀ o p, l.tree.beginPass.1 = .ok (some (o, p)) → p.scopes <:+ l.tree.identities :=
    fun o p run => Tree.enter_scopes (Prod.ext run rfl)
  obtain ⟨ending, happens, leads⟩ := own_of_pass unclosed duty .empty l.tree.beginPass
  refine ⟨ending, ?_, ?_⟩
  · rw [show d.past = _ from c.past_move before (some (.pass duty)) (Move.after notices (l.follow (.pass duty))),
      Loop.follow, happens]
    simp only [Option.map_some, Option.getD_some, Plan.events, List.append_assoc, List.singleton_append]
  rcases leads with ⟨fault, cut, ends⟩ | ⟨a, next, rfl⟩
  · have rests : d.waiting = c.waiting :=
      waiting_of_ends (m := Move.after notices (l.pass duty .empty l.tree.beginPass)) ends
    exact .inl ⟨⟨fault, cut⟩, rests.trans none, fun closed => unclosed ((pass_phase ..).symm.trans closed)⟩
  · have inside : ∀ job ∈ l.tree.jobs, job.scope ∈ l.tree.identities := by
      intro job member
      obtain ⟨i, known, inScope⟩ := List.mem_flatMap.mp member
      exact Tree.scope_of_mem_scopeJobs inScope ▸ known
    obtain ⟨visited, _, inPass⟩ := InPass.of_pass before (some (.pass duty)) notices none (.begin distinct) tours
      remaining (List.suffix_refl _) inside (List.forall_mem_nil _) (List.forall_mem_nil _) next
    exact .inr ⟨visited, a, rfl, inPass⟩

end Course

end MetricTree
