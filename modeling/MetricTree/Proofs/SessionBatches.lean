import MetricTree.Proofs.BatchHistory

namespace MetricTree

open Batch (Act Reply)

namespace Session

/-- The commands that ask a reporter that batches for something, and what they ask for. -/
inductive Asks : Command → Act → Prop
  | report (metric name tags amount) :
      Asks (.direct (.ok (.observe metric name tags amount))) (.report ⟨metric, name, tags, amount⟩)
  | pending : Asks .pending .pending
  | flush (during outcome) : Asks (.direct (.ok .flush)) (.flush during outcome)

def IsAct (command : Command) : Prop := ∃ act, Asks command act

/-- Rules by which a reporter is asked for something while it sends, and nothing else is done. -/
def Asking (rules : List Rule) : Prop :=
  ∀ on name nth steps failure, Rule.rule on name nth (some steps) failure ∈ rules → ∀ command ∈ steps, IsAct command

def Event.sent? : Event → Option (List Record)
  | .sent records _ => some records
  | _ => none

/-- The batches that were sent, as the far end has met them. -/
def sent (s : Session) : List (List Record) := (s.entries.map Entry.event).toList.filterMap Event.sent?

theorem map_event_nest (s : Session) (position : Nat) (results : List Result) :
    (s.nest position results).entries.map Entry.event = s.entries.map Entry.event := by
  refine Array.ext_getElem? fun i => ?_
  rw [nest, Array.getElem?_map, Array.getElem?_map, Array.getElem?_modify]
  split <;> cases s.entries[i]? <;> rfl

theorem sent_nest (s : Session) (position : Nat) (results : List Result) : (s.nest position results).sent = s.sent := by
  rw [sent, map_event_nest, sent]

/-- A session whose batch becomes another, and at whose far end there is what acts of the batch send. -/
structure Does (s : Session) (b : Batch) (acts : List Act) (after : Session) : Prop where
  sink : after.sink = .batch (b.performAll acts).2
  rules : after.rules = s.rules
  sent : after.sent = s.sent ++ Batch.sent (b.performAll acts).1

theorem Does.nothing {s : Session} {b : Batch} (sink : s.sink = .batch b) : Does s b [] s :=
  ⟨sink, rfl, (List.append_nil _).symm⟩

theorem Does.append {s between after : Session} {b : Batch} {acts others : List Act} (first : Does s b acts between)
    (second : Does between (b.performAll acts).2 others after) : Does s b (acts ++ others) after where
  sink := by rw [b.performAll_append, second.sink]
  rules := second.rules.trans first.rules
  sent := by
    rw [b.performAll_append, Batch.sent_append, ← List.append_assoc, second.sent, first.sent]

theorem Does.nest {s after : Session} {b : Batch} {acts : List Act} (does : Does s b acts after) (position : Nat)
    (results : List Result) : Does s b acts (after.nest position results) :=
  ⟨does.sink, does.rules, (after.sent_nest position results).trans does.sent⟩

/-- A performer that does nothing but acts where nothing else is asked for. -/
def Obliging (perform : Performer) : Prop :=
  ∀ ⦃s b command⦄, s.sink = .batch b → Asking s.rules → IsAct command → ∃ acts, Does s b acts (perform command s).2

variable {perform : Performer} {s : Session} {b : Batch}

theorem does_performAll (obliging : Obliging perform) {commands : List Command}
    (each : ∀ command ∈ commands, IsAct command) (sink : s.sink = .batch b) (asking : Asking s.rules) :
    ∃ acts, Does s b acts (performAll perform commands s).2 := by
  induction commands generalizing s b with
  | nil => exact ⟨[], .nothing sink⟩
  | cons command rest ih =>
    obtain ⟨first, others⟩ := List.forall_mem_cons.mp each
    obtain ⟨acts, does⟩ := obliging sink asking first
    obtain ⟨more, goes_on⟩ := ih others does.sink (does.rules ▸ asking)
    exact ⟨acts ++ more, does.append goes_on⟩

/-- What a rule has done when it applies. -/
theorem does_steps (obliging : Obliging perform) (sink : s.sink = .batch b) (asking : Asking s.rules)
    (steps : Option (List Command)) (position : Nat) :
    (∀ commands, steps = some commands → ∀ command ∈ commands, IsAct command) →
      ∃ acts, Does s b acts (match steps with
        | some commands => (performAll perform commands s).2.nest position (performAll perform commands s).1
        | none => s) := by
  intro each
  cases steps with
  | none => exact ⟨[], .nothing sink⟩
  | some commands =>
    obtain ⟨acts, does⟩ := does_performAll obliging (each commands rfl) sink asking
    exact ⟨acts, does.nest position _⟩

theorem does_follow (obliging : Obliging perform) (event : Event) (count position : Nat) {rules : List Rule}
    (each : Asking rules) (sink : s.sink = .batch b) (asking : Asking s.rules) :
    ∃ acts, Does s b acts (follow perform event count position rules s).2 := by
  induction rules generalizing s b with
  | nil => exact ⟨[], .nothing sink⟩
  | cons rule rest ih =>
    obtain ⟨on, name, nth, steps, failure⟩ := rule
    have others : Asking rest := fun on name nth steps failure member =>
      each on name nth steps failure (List.mem_cons_of_mem _ member)
    unfold follow
    split
    · obtain ⟨acts, does⟩ := does_steps obliging sink asking steps position
        fun commands given => each on name nth commands failure (given ▸ List.mem_cons_self)
      cases failure with
      | some fault => exact ⟨acts, does⟩
      | none =>
        obtain ⟨more, goes_on⟩ := ih others does.sink (does.rules ▸ asking)
        exact ⟨acts ++ more, does.append goes_on⟩
    · exact ih others sink asking

theorem does_meet (obliging : Obliging perform) (records : List Record) (number : Nat) (sink : s.sink = .batch b)
    (asking : Asking s.rules) : ∃ acts, (meet perform (.sent records number) s).2.sink = .batch (b.performAll acts).2 ∧
      (meet perform (.sent records number) s).2.rules = s.rules ∧
      (meet perform (.sent records number) s).2.sent = s.sent ++ records :: Batch.sent (b.performAll acts).1 := by
  have recorded : (s.record (.sent records number)).2.sent = s.sent ++ [records] := by
    rw [sent, record, Array.map_push, Array.toList_push, List.filterMap_append]
    rfl
  obtain ⟨acts, does⟩ := does_follow obliging (.sent records number) (s.record (.sent records number)).1 s.entries.size
    (s := (s.record (.sent records number)).2) asking sink asking
  refine ⟨acts, does.sink, does.rules, ?_⟩
  rw [List.append_cons, ← recorded]
  exact does.sent

/-- A flush of the batch is an act, in which the far end asks for what its rules say. -/
theorem does_flush (obliging : Obliging perform) (sink : s.sink = .batch b) (asking : Asking s.rules) :
    ∃ during outcome, Does s b [.flush during outcome] (flushBatch perform s).2 ∧
      (flushBatch perform s).1 = if b.pending.isEmpty then .returned else outcome := by
  obtain ⟨_ | ⟨record, records⟩, flushes⟩ := b
  · have flushed : flushBatch perform s = (.returned, { s with sink := .batch ⟨[], flushes + 1⟩ }) := by
      simp only [flushBatch, sink]
      rfl
    rw [flushed]
    exact ⟨[], .returned, ⟨rfl, rfl, (List.append_nil _).symm⟩, rfl⟩
  · have flushed : flushBatch perform s = meet perform (.sent (record :: records) (flushes + 1))
        { s with sink := .batch ⟨[], flushes + 1⟩ } := by
      simp only [flushBatch, sink]
      rfl
    rw [flushed]
    obtain ⟨during, sink, rules, sent⟩ := does_meet obliging (record :: records) (flushes + 1)
      (s := { s with sink := .batch ⟨[], flushes + 1⟩ }) rfl asking
    refine ⟨during, _, ⟨sink, rules, sent.trans ?_⟩, rfl⟩
    rw [Batch.performAll_singleton, Batch.sent_perform_flush]
    rfl

/-- How a session answers to an act. -/
def answerTo (after : Batch) : Reply → Result
  | .kept => .pendingCount after.pending.length
  | .refused issues => .refused (.invalid issues)
  | .shown records => .records records
  | .flushed .returned => .flushCount after.flushes none
  | .flushed (.failed failure) => .flushCount after.flushes (some (.raised failure))
  | .flushed (.aborted message) => .refused (.aborted message)

/-- A step that does what an act says, and is answered as the act ends. -/
def Performs (s : Session) (b : Batch) (act : Act) (done : Result × Session) : Prop :=
  Does s b [act] done.2 ∧ ∃ sooner reply after,
    (b.perform act).1 = sooner ++ [⟨.ends act reply, after⟩] ∧ done.1 = answerTo after reply

theorem performs_report (perform : Performer) (sink : s.sink = .batch b) (metric : Metric) (name : Value)
    (tags : Table Value Value) (amount : Value) :
    Performs s b (.report ⟨metric, name, tags, amount⟩) (direct perform s (.observe metric name tags amount)) := by
  have added : s.addToBatch (·.add metric name tags amount) =
      (b.add metric name tags amount).map fun after => { s with sink := .batch after } := by
    simp only [addToBatch, sink]
    cases b.add metric name tags amount <;> rfl
  rw [direct, added, Performs]
  cases kept : b.add metric name tags amount with
  | ok after =>
    have performed : b.perform (.report ⟨metric, name, tags, amount⟩) =
      ([⟨.ends (.report ⟨metric, name, tags, amount⟩) .kept, after⟩], after) := by rw [Batch.perform, kept]
    refine ⟨⟨?_, rfl, ?_⟩, [], .kept, after, congrArg Prod.fst performed, rfl⟩ <;>
      rw [Batch.performAll_singleton, performed]
    · rfl
    · exact (List.append_nil _).symm
  | error issues =>
    have performed : b.perform (.report ⟨metric, name, tags, amount⟩) =
      ([⟨.ends (.report ⟨metric, name, tags, amount⟩) (.refused issues), b⟩], b) := by rw [Batch.perform, kept]
    refine ⟨⟨?_, rfl, ?_⟩, [], .refused issues, b, congrArg Prod.fst performed, rfl⟩ <;>
      rw [Batch.performAll_singleton, performed]
    · exact sink
    · exact (List.append_nil _).symm

theorem performs_flush (obliging : Obliging perform) (sink : s.sink = .batch b) (asking : Asking s.rules) :
    ∃ during outcome, Performs s b (.flush during outcome) (direct perform s .flush) := by
  obtain ⟨during, outcome, does, comes_out⟩ := does_flush obliging sink asking
  obtain ⟨sooner, ends⟩ := b.perform_flush_ends during outcome
  rw [← comes_out] at ends
  have left := does.sink
  rw [Batch.performAll_singleton] at left
  have done : direct perform s .flush = (answerTo (b.perform (.flush during outcome)).2
      (.flushed (flushBatch perform s).1), (flushBatch perform s).2) := by
    simp only [direct, left]
    cases (flushBatch perform s).1 <;> rfl
  rw [done]
  exact ⟨during, outcome, does, sooner, _, _, ends, rfl⟩

/-- A command that is an act does what the act says, and is answered as it ends. -/
theorem performs_step (obliging : Obliging perform) (sink : s.sink = .batch b) (asking : Asking s.rules)
    {command : Command} (isAct : IsAct command) :
    ∃ act, Asks command act ∧ Performs s b act (step perform s command) := by
  obtain ⟨act, asks⟩ := isAct
  cases asks with
  | report metric name tags amount =>
    exact ⟨_, .report metric name tags amount, performs_report perform sink metric name tags amount⟩
  | pending =>
    obtain ⟨_, _, _, _, _, _, _, _, _⟩ := s
    cases sink
    exact ⟨.pending, .pending, ⟨rfl, rfl, (List.append_nil _).symm⟩, [], .shown b.pending, b, rfl, rfl⟩
  | flush =>
    obtain ⟨during, outcome, performs⟩ := performs_flush obliging sink asking
    exact ⟨_, .flush during outcome, performs⟩

/-- Whatever depth steps may be nested to. -/
theorem obliging_performWithin (depth : Nat) : Obliging (performWithin depth) := by
  induction depth with
  | zero => exact fun _ _ _ sink _ _ => ⟨[], .nothing sink⟩
  | succ depth ih =>
    intro s b command sink asking isAct
    obtain ⟨act, _, does, _⟩ := performs_step ih sink asking isAct
    exact ⟨[act], does⟩

/-- Commands that are acts do what these say, one act for each command. -/
theorem does_stepAll (obliging : Obliging perform) {commands : List Command}
    (each : ∀ command ∈ commands, IsAct command) (sink : s.sink = .batch b) (asking : Asking s.rules) :
    ∃ acts, List.Forall₂ Asks commands acts ∧ Does s b acts (stepAll perform s commands).2 := by
  induction commands generalizing s b with
  | nil => exact ⟨[], .nil, .nothing sink⟩
  | cons command rest ih =>
    obtain ⟨first, others⟩ := List.forall_mem_cons.mp each
    obtain ⟨act, asks, does, _⟩ := performs_step obliging sink asking first
    obtain ⟨acts, all, goes_on⟩ := ih others does.sink (does.rules ▸ asking)
    exact ⟨act :: acts, .cons asks all, does.append goes_on⟩

/-- A session's reporter that batches does what a tree of acts says: one act for each command, and in its flushes what
the far end asks for by its rules, to any depth. So nothing is lost in a session either. -/
theorem nothing_lost_in_session (depth : Nat) {commands : List Command} (each : ∀ command ∈ commands, IsAct command)
    (sink : s.sink = .batch b) (asking : Asking s.rules) :
    let after := (stepAll (performWithin depth) s commands).2
    ∃ acts, List.Forall₂ Asks commands acts ∧ Does s b acts after ∧
      after.sent.flatten ++ (b.performAll acts).2.pending =
        s.sent.flatten ++ b.pending ++ Batch.kept (b.performAll acts).1 := by
  obtain ⟨acts, asks, does⟩ := does_stepAll (obliging_performWithin depth) each sink asking
  obtain ⟨leads, last⟩ := b.leads_performAll acts
  refine ⟨acts, asks, does, ?_⟩
  rw [does.sent, List.flatten_append, List.append_assoc, ← last, leads.balanced.settled, List.append_assoc]

end Session

end MetricTree
