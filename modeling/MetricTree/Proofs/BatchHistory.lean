import Mathlib.Data.List.Basic
import MetricTree.Proofs.Batching

namespace MetricTree.Batch

/-- An observation as it is reported, from any values. -/
structure Report where
  metric : Metric
  name : Value
  tags : Table Value Value
  amount : Value

def Report.record (r : Report) : Except (List Issue) Record :=
  Record.ofFields (fields r.metric r.name r.tags r.amount)

/-- What a batch is asked for. A flush has what it takes out sent, if that is anything; while it is sent, the batch may
be asked for more, and then the sending comes out somehow. -/
inductive Act where
  | report (report : Report)
  | pending
  | flush (during : List Act) (outcome : Outcome)

inductive Reply where
  | kept
  | refused (issues : List Issue)
  | shown (records : List Record)
  | flushed (outcome : Outcome)

/-- What happens to a batch. Where a flush begins, the records that it takes out begin to be sent. -/
inductive Moment where
  | begins (sends : Option (List Record))
  | ends (act : Act) (reply : Reply)

/-- A moment, and the batch that it leaves behind. -/
structure Instant where
  moment : Moment
  batch : Batch

namespace Instant

def sends? : Instant → Option (List Record)
  | ⟨.begins sends, _⟩ => sends
  | _ => none

def kept? : Instant → Option Record
  | ⟨.ends (.report report) .kept, _⟩ => report.record.toOption
  | _ => none

def isBeginning : Instant → Bool
  | ⟨.begins _, _⟩ => true
  | _ => false

end Instant

mutual

/-- All that happens until an act is done, in order, and the batch after it. -/
def perform (b : Batch) : Act → List Instant × Batch
  | .report report =>
    match b.add report.metric report.name report.tags report.amount with
    | .ok after => ([⟨.ends (.report report) .kept, after⟩], after)
    | .error issues => ([⟨.ends (.report report) (.refused issues), b⟩], b)
  | .pending => ([⟨.ends .pending (.shown b.pending), b⟩], b)
  | .flush during outcome =>
    match b.flush with
    | (none, taken) =>
      ([⟨.begins none, taken⟩, ⟨.ends (.flush during outcome) (.flushed .returned), taken⟩], taken)
    | (some records, taken) =>
      let (within, after) := performAll taken during
      (⟨.begins (some records), taken⟩ ::
        (within ++ [⟨.ends (.flush during outcome) (.flushed outcome), after⟩]), after)
termination_by structural act => act

/-- The same for acts that are done one after the other. -/
def performAll (b : Batch) : List Act → List Instant × Batch
  | [] => ([], b)
  | act :: rest =>
    let (first, between) := perform b act
    let (second, after) := performAll between rest
    (first ++ second, after)
termination_by structural acts => acts

end

theorem performAll_cons (b : Batch) (act : Act) (rest : List Act) :
    b.performAll (act :: rest) = ((b.perform act).1 ++ ((b.perform act).2.performAll rest).1,
      ((b.perform act).2.performAll rest).2) := rfl

theorem performAll_append (b : Batch) (acts others : List Act) :
    b.performAll (acts ++ others) = ((b.performAll acts).1 ++ ((b.performAll acts).2.performAll others).1,
      ((b.performAll acts).2.performAll others).2) := by
  induction acts generalizing b with
  | nil => rfl
  | cons act rest ih => rw [List.cons_append, performAll_cons, ih, performAll_cons, List.append_assoc]

theorem performAll_singleton (b : Batch) (act : Act) : b.performAll [act] = b.perform act :=
  Prod.ext (List.append_nil _) rfl

/-- How a flush comes out, at the end of all that happens in it. -/
theorem perform_flush_ends (b : Batch) (during : List Act) (outcome : Outcome) :
    ∃ sooner, (b.perform (.flush during outcome)).1 = sooner ++ [⟨.ends (.flush during outcome)
      (.flushed (if b.pending.isEmpty then .returned else outcome)), (b.perform (.flush during outcome)).2⟩] := by
  obtain ⟨_ | ⟨record, records⟩, flushes⟩ := b
  · exact ⟨[_], rfl⟩
  · exact ⟨_ :: (performAll ⟨[], flushes + 1⟩ during).1, rfl⟩

/-- The batch at the end of a history. -/
def latest (b : Batch) (history : List Instant) : Batch := history.foldl (fun _ now => now.batch) b

/-- The batches that were sent, in the order in which their sendings began. -/
def sent (history : List Instant) : List (List Record) := history.filterMap Instant.sends?

/-- The records of the reports that were not refused. -/
def kept (history : List Instant) : List Record := history.filterMap Instant.kept?

/-- How many flushes have begun. -/
def begun (history : List Instant) : Nat := history.countP Instant.isBeginning

theorem sent_append (sooner later : List Instant) : sent (sooner ++ later) = sent sooner ++ sent later :=
  List.filterMap_append

theorem sent_perform_flush (record : Record) (records : List Record) (flushes : Nat) (during : List Act)
    (outcome : Outcome) : sent (perform ⟨record :: records, flushes⟩ (.flush during outcome)).1 =
      (record :: records) :: sent (performAll ⟨[], flushes + 1⟩ during).1 := by
  have within := sent_append (performAll ⟨[], flushes + 1⟩ during).1
    [⟨.ends (.flush during outcome) (.flushed outcome), (performAll ⟨[], flushes + 1⟩ during).2⟩]
  exact congrArg (_ :: ·) (within.trans (List.append_nil _))

/-- What can happen next to a batch. -/
inductive Follows (b : Batch) : Instant → Prop
  | keeps {report record} (valid : report.record = .ok record) :
      Follows b ⟨.ends (.report report) .kept, ⟨b.pending ++ [record], b.flushes⟩⟩
  | refuses {report issues} (invalid : report.record = .error issues) :
      Follows b ⟨.ends (.report report) (.refused issues), b⟩
  | shows : Follows b ⟨.ends .pending (.shown b.pending), b⟩
  | begins : Follows b ⟨.begins b.flush.1, b.flush.2⟩
  | ends {during outcome reply} : Follows b ⟨.ends (.flush during outcome) (.flushed reply), b⟩

/-- A history in which every instant follows from the batch before it. -/
def Leads (b : Batch) : List Instant → Prop
  | [] => True
  | now :: rest => Follows b now ∧ Leads now.batch rest

variable {b : Batch} {sooner later h : List Instant}

theorem latest_append (b : Batch) (sooner later : List Instant) :
    b.latest (sooner ++ later) = (b.latest sooner).latest later := List.foldl_append ..

theorem leads_append : Leads b (sooner ++ later) ↔ Leads b sooner ∧ Leads (b.latest sooner) later := by
  induction sooner generalizing b with
  | nil => exact iff_and_self.mpr fun _ => trivial
  | cons now rest ih =>
    rw [List.cons_append, Leads, ih, Leads, and_assoc]
    rfl

/-- Between two batches nothing is lost, nothing is there twice, and every flush is counted: what was sent and what
waits are what waited at first and what was kept since. -/
structure Balanced (b : Batch) (h : List Instant) (after : Batch) : Prop where
  settled : (sent h).flatten ++ after.pending = b.pending ++ kept h
  filled : [] ∉ sent h
  counted : after.flushes = b.flushes + begun h

theorem Balanced.nil (b : Batch) : Balanced b [] b :=
  ⟨(List.append_nil _).symm, List.not_mem_nil, rfl⟩

theorem Balanced.append {between after : Batch} (first : Balanced b sooner between)
    (second : Balanced between later after) : Balanced b (sooner ++ later) after where
  settled := by
    rw [sent_append, kept, List.filterMap_append, List.flatten_append, List.append_assoc]
    calc (sent sooner).flatten ++ ((sent later).flatten ++ after.pending)
      _ = ((sent sooner).flatten ++ between.pending) ++ kept later := by rw [second.settled, List.append_assoc]
      _ = b.pending ++ (kept sooner ++ kept later) := by rw [first.settled, List.append_assoc]
  filled := by
    rw [sent_append, List.mem_append, not_or]
    exact ⟨first.filled, second.filled⟩
  counted := by
    rw [second.counted, first.counted, begun, begun, begun, List.countP_append, Nat.add_assoc]

theorem Follows.balanced {now : Instant} (follows : Follows b now) : Balanced b [now] now.batch := by
  cases follows with
  | @keeps report record valid =>
    have found : kept [⟨.ends (.report report) .kept, ⟨b.pending ++ [record], b.flushes⟩⟩] = [record] :=
      List.filterMap_cons_some (congrArg Except.toOption valid)
    exact ⟨congrArg (b.pending ++ ·) found.symm, List.not_mem_nil, rfl⟩
  | refuses | shows | ends => exact ⟨(List.append_nil _).symm, List.not_mem_nil, rfl⟩
  | begins =>
    obtain ⟨_ | ⟨record, records⟩, flushes⟩ := b
    · exact ⟨rfl, List.not_mem_nil, rfl⟩
    · exact ⟨List.append_nil _, List.not_mem_cons_of_ne_of_not_mem nofun List.not_mem_nil, rfl⟩

theorem Leads.balanced (leads : Leads b h) : Balanced b h (b.latest h) := by
  induction h generalizing b with
  | nil => exact .nil b
  | cons now rest ih => exact leads.1.balanced.append (ih leads.2)

mutual

/-- One after the other, the instants of an act follow from the batch before it. -/
theorem leads_perform (b : Batch) : ∀ act, Leads b (perform b act).1 ∧ b.latest (perform b act).1 = (perform b act).2
  | .report report => by
    cases valid : report.record with
    | ok record =>
      have added : b.add report.metric report.name report.tags report.amount =
          .ok ⟨b.pending ++ [record], b.flushes⟩ := congrArg (· >>= _) valid
      rw [perform, added]
      exact ⟨⟨.keeps valid, trivial⟩, rfl⟩
    | error issues =>
      have refused : b.add report.metric report.name report.tags report.amount = .error issues :=
        congrArg (· >>= _) valid
      rw [perform, refused]
      exact ⟨⟨.refuses valid, trivial⟩, rfl⟩
  | .pending => ⟨⟨.shows, trivial⟩, rfl⟩
  | .flush during outcome => by
    have first : Follows b ⟨.begins b.flush.1, b.flush.2⟩ := .begins
    rw [perform]
    rcases out : b.flush with ⟨_ | records, taken⟩ <;> rw [out] at first
    · exact ⟨⟨first, .ends, trivial⟩, rfl⟩
    · obtain ⟨within, last⟩ := leads_performAll taken during
      refine ⟨⟨first, leads_append.mpr ⟨within, ?_, trivial⟩⟩, ?_⟩
      · rw [last]
        exact .ends
      · exact latest_append ..
termination_by structural act => act

theorem leads_performAll (b : Batch) :
    ∀ acts, Leads b (performAll b acts).1 ∧ b.latest (performAll b acts).1 = (performAll b acts).2
  | [] => ⟨trivial, rfl⟩
  | act :: rest => by
    obtain ⟨first, between⟩ := leads_perform b act
    obtain ⟨second, last⟩ := leads_performAll (perform b act).2 rest
    rw [performAll]
    refine ⟨leads_append.mpr ⟨first, ?_⟩, ?_⟩
    · rw [between]
      exact second
    · rw [latest_append, between]
      exact last
termination_by structural acts => acts

end

/-- How a flush is concluded: at once, if there was nothing to be sent, or as the sending comes out, after all that was
asked for meanwhile. -/
inductive Concluded (during : List Act) (outcome : Outcome) : List Instant → Reply → Prop
  | unsent (sooner taken) : Concluded during outcome (sooner ++ [⟨.begins none, taken⟩]) (.flushed .returned)
  | sent (sooner records taken) :
      Concluded during outcome (sooner ++ ⟨.begins (some records), taken⟩ :: (performAll taken during).1)
        (.flushed outcome)

theorem Concluded.after {during : List Act} {outcome : Outcome} {reply : Reply}
    (concluded : Concluded during outcome later reply) (sooner : List Instant) :
    Concluded during outcome (sooner ++ later) reply := by
  cases concluded with
  | unsent between taken =>
    rw [← List.append_assoc]
    exact .unsent _ taken
  | sent between records taken =>
    rw [← List.append_assoc]
    exact .sent _ records taken

/-- A history in which every flush that ends is concluded. -/
def Concluding (h : List Instant) : Prop :=
  ∀ ⦃sooner during outcome reply after later⦄,
    h = sooner ++ ⟨.ends (.flush during outcome) reply, after⟩ :: later → Concluded during outcome sooner reply

theorem Concluding.nil : Concluding [] := by
  rintro sooner _ _ _ _ _ cut
  cases List.append_eq_nil_iff.mp cut.symm |>.2

theorem Concluding.append (first : Concluding sooner) (second : Concluding later) : Concluding (sooner ++ later) := by
  intro before during outcome reply after rest cut
  rcases List.append_eq_append_iff.mp cut with ⟨between, rfl, right⟩ | ⟨_ | ⟨now, between⟩, left, right⟩
  · exact (second right).after sooner
  · have last : Concluded during outcome (sooner ++ []) reply := (@second [] _ _ _ _ _ right.symm).after sooner
    rwa [left, List.append_nil, List.append_nil] at last
  · obtain ⟨rfl, _⟩ := List.cons_eq_cons.mp right
    exact first left

mutual

theorem concluding_perform (b : Batch) : ∀ act, Concluding (perform b act).1
  | .report report => by
    rw [perform]
    cases b.add report.metric report.name report.tags report.amount <;>
      rintro (_ | ⟨_, _ | _⟩) _ _ _ _ _ ⟨⟩
  | .pending => by rintro (_ | ⟨_, _ | _⟩) _ _ _ _ _ ⟨⟩
  | .flush during outcome => by
    rw [perform]
    rcases b.flush with ⟨_ | records, taken⟩
    · rintro (_ | ⟨_, _ | ⟨_, _ | _⟩⟩) _ _ _ _ _ ⟨⟩
      exact .unsent [] taken
    · rintro (_ | ⟨first, sooner⟩) _ _ _ _ later cut
      · cases cut
      · obtain ⟨rfl, within⟩ := List.cons_eq_cons.mp cut
        change (performAll taken during).1 ++ [_] = sooner ++ _ at within
        -- A flush that ends is the one that is performed, or one that was asked for while it sent.
        rcases List.eq_nil_or_concat later with rfl | ⟨between, last, rfl⟩
        · obtain ⟨rfl, ends⟩ := List.append_inj' within rfl
          cases ends
          exact .sent [] records taken
        · rw [List.concat_eq_append, ← List.cons_append, ← List.append_assoc] at within
          exact (concluding_performAll taken during (List.append_inj' within rfl).1).after [_]
termination_by structural act => act

theorem concluding_performAll (b : Batch) : ∀ acts, Concluding (performAll b acts).1
  | [] => .nil
  | act :: rest => (concluding_perform b act).append (concluding_performAll (perform b act).2 rest)
termination_by structural acts => acts

end

/-- Whatever is asked of a batch, also while it is being flushed, and however its sendings come out: at any time, what
was sent until then, in the order in which the sendings began, and what waits, are what waited at first and the records
that were kept. No empty batch is sent, and all flushes are counted that have begun. A report that makes no record is
refused, and leaves the batch alone; a flush comes out as its sending does. -/
theorem nothing_lost (b : Batch) (acts : List Act) {sooner later : List Instant}
    (cut : (b.performAll acts).1 = sooner ++ later) :
    (sent sooner).flatten ++ (b.latest sooner).pending = b.pending ++ kept sooner ∧
    [] ∉ sent sooner ∧
    (b.latest sooner).flushes = b.flushes + begun sooner ∧
    (later = [] → b.latest sooner = (b.performAll acts).2) ∧
    ∀ now rest, later = now :: rest → Follows (b.latest sooner) now ∧
      ∀ during outcome reply, now.moment = .ends (.flush during outcome) reply →
        Concluded during outcome sooner reply := by
  obtain ⟨leads, last⟩ := leads_performAll b acts
  rw [cut, leads_append] at leads
  obtain ⟨settled, filled, counted⟩ := leads.1.balanced
  refine ⟨settled, filled, counted, ?_, ?_⟩
  · rintro rfl
    rw [← last, cut, List.append_nil]
  · rintro ⟨moment, after⟩ rest rfl
    refine ⟨leads.2.1, ?_⟩
    rintro during outcome reply rfl
    exact concluding_performAll b acts cut

/-- A sending that fails, in which there is more to keep, a report that is refused, and another flush that fails. -/
theorem nothing_lost_nested :
    let delta (n : Int) : Record := ⟨"c", .counter, .empty, some n, none⟩
    let count (n : Int) : Act := .report ⟨.counter, .text "c", .empty, .int n⟩
    let unnamed : Act := .report ⟨.counter, .text "", .empty, .int 1⟩
    let failed : Outcome := .failed ⟨"ConnectionError", "connection refused"⟩
    let acts := [count 1, .flush [count 2, unnamed, .flush [count 3] failed, count 4] failed, .pending]
    let history := (empty.performAll acts).1
    sent history = [[delta 1], [delta 2]] ∧ (empty.latest history).pending = [delta 3, delta 4] ∧
      (empty.latest history).flushes = 2 ∧ kept history = [delta 1, delta 2, delta 3, delta 4] := by
  intro delta count unnamed failed acts history
  obtain ⟨settled, _, counted, _⟩ := @nothing_lost empty acts history [] (List.append_nil _).symm
  have sent : sent history = [[delta 1], [delta 2]] := rfl
  have waits : (empty.latest history).pending = [delta 3, delta 4] := rfl
  rw [sent, waits] at settled
  exact ⟨sent, waits, counted, settled.symm⟩

end MetricTree.Batch
