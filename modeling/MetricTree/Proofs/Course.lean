import MetricTree.Loop.Opening
import MetricTree.Tree.Snapshot

namespace MetricTree

namespace Course

/-- What happens in the course of a tree's use. -/
inductive Event where
  | added (h : Handle) (n : Number)
  | updated (h : Handle) (x : Binary64)
  | told (notice : Notice)
  /-- A close takes effect. -/
  | closing
  /-- A pass begins. -/
  | began (duty : Duty)
  /-- The reporter is called. -/
  | called (a : Activity)
  /-- A call of the reporter comes out. -/
  | came (a : Activity) (o : Outcome)
  /-- A pass ends before its time. -/
  | cut (fault : Fault)
  | answered (answer : Except Fault (Option Summary))

/-- What callers ask of a tree, and reporters while they are called. -/
inductive Request where
  | tagged (scope : Text) (tags : Table Value Value)
  | subScope (scope : Text) (name : Value)
  | counter (scope : Text) (name : Value)
  | gauge (scope : Text) (name : Value)
  | inc (h : Handle) (amount : Value)
  | update (h : Handle) (value : Value)
  | snapshot

/-- What a request that is granted makes happen, and the tree that it leaves. -/
def Request.perform (t : Tree) : Request → Except Fault (List Event × Tree)
  | .tagged scope tags => return ([], (← t.tagged scope tags).2)
  | .subScope scope name => return ([], (← t.subScope scope name).2)
  | .counter scope name => return ([], (← t.counter scope name).2)
  | .gauge scope name => return ([], (← t.gauge scope name).2)
  | .inc h amount => return (amount.number?.toList.map (.added h), ← t.inc h amount)
  | .update h value => return ([.updated h (← value.toBinary64)], ← t.update h value)
  | .snapshot => do
    let _ ← t.snapshot
    return ([], t)

/-- A step of a course: a request, a call of the loop, or the outcome of the reporter's innermost
call. The steps between a call and its outcome are those that the reporter takes meanwhile. -/
inductive Step where
  | request (r : Request)
  | start
  | report
  | close
  | outcome (o : Outcome)

/-- Is nothing but integers offered to counters, truth values being zero and one? What is no number at
all may be offered, for it is refused. -/
def Step.isIntegral : Step → Bool
  | .request (.inc _ (.float _)) => false
  | _ => true

end Course

/-- A tree in use: its loop, the reporter's calls that have not come out yet with the innermost in
front, and all that has happened so far. -/
structure Course where
  loop : Loop
  waiting : List Activity
  past : List Course.Event

/-- The pass that begins with a plan. -/
def Plan.events : Plan → List Course.Event
  | .pass duty => [.began duty]
  | _ => []

/-- The plan that is followed when an activity's call has come out. -/
def Activity.plan? (l : Loop) : Activity → Outcome → Option Plan
  | .flushing _ _, .aborted _ => none
  | .flushing duty tally, outcome => some (l.planAfter (Loop.flushed tally outcome) duty)
  | _, _ => none

/-- What happens at the end of a move. A fault is that of a pass, except once the loop is closed,
where it is that of closing the reporter. -/
def Move.ending (m : Move) : List Course.Event :=
  match m.next with
  | .waits a => [.called a]
  | .ends (.error fault) =>
    if m.loop.phase = .closed then [.answered (.error fault)] else [.cut fault, .answered (.error fault)]
  | .ends (.ok answer) => [.answered (.ok answer)]

namespace Course

def opened (o : Opening) : Course := ⟨o.loop, [], o.notices.map .told⟩

/-- Makes a move for a plan, after what has happened already. -/
def move (c : Course) (before : List Event) (plan : Option Plan) (m : Move) : Course where
  loop := m.loop
  waiting := match m.next with
    | .waits a => a :: c.waiting
    | .ends _ => c.waiting
  past := c.past ++ (before ++ m.notices.map .told ++ (plan.map Plan.events).getD [] ++ m.ending)

/-- Takes a step. A request that is refused changes nothing, nor does an outcome that nobody waits for. -/
def take (c : Course) : Step → Course
  | .request r =>
    match r.perform c.loop.tree with
    | .ok (events, tree) => { c with loop := { c.loop with tree := tree }, past := c.past ++ events }
    | .error _ => c
  | .start => { c with loop := c.loop.start.1, past := c.past ++ c.loop.start.2.map .told }
  | .report => c.move [] (some c.loop.planReport) c.loop.report
  | .close =>
    c.move (if c.loop.phase.isOver then [] else [.closing]) (some c.loop.planClose) c.loop.close
  | .outcome o =>
    match c.waiting with
    | [] => c
    | a :: outer => { c with waiting := outer }.move [.came a o] (a.plan? c.loop o) (c.loop.resume a o)

def run (c : Course) (steps : List Step) : Course := steps.foldl take c

/-- All that a move makes happen by itself. -/
def own (plan : Option Plan) (m : Move) : List Event :=
  m.notices.map .told ++ (plan.map Plan.events).getD [] ++ m.ending

/-- Is it something that a loop makes happen by itself? -/
def Event.isOwn : Event → Bool
  | .told _ | .began _ | .called _ | .cut _ | .answered _ => true
  | _ => false

theorem take_of_refused {c : Course} {r : Request} {fault : Fault} (refused : r.perform c.loop.tree = .error fault) :
    c.take (.request r) = c := by
  simp only [take, refused]

theorem past_move (c : Course) (before : List Event) (plan : Option Plan) (m : Move) :
    (c.move before plan m).past = c.past ++ (before ++ own plan m) := by
  simp only [move, own, List.append_assoc]

theorem isOwn_of_own {plan : Option Plan} {m : Move} {e : Event} (member : e ∈ own plan m) : e.isOwn = true := by
  simp only [own, List.mem_append] at member
  rcases member with (told | planned) | ended
  · obtain ⟨notice, _, rfl⟩ := List.mem_map.mp told
    rfl
  · rcases plan with _ | duty | _ | _
    · cases planned
    · rw [List.mem_singleton.mp planned]; rfl
    · cases planned
    · cases planned
  · unfold Move.ending at ended
    split at ended
    · rw [List.mem_singleton.mp ended]; rfl
    · split at ended
      · rw [List.mem_singleton.mp ended]; rfl
      · rcases List.mem_cons.mp ended with rfl | last
        · rfl
        · rw [List.mem_singleton.mp last]; rfl
    · rw [List.mem_singleton.mp ended]; rfl

theorem run_append (c : Course) (steps more : List Step) : c.run (steps ++ more) = (c.run steps).run more :=
  List.foldl_append

/-- What holds at first and is kept by every step holds throughout. -/
theorem run_induction {P : Course → Prop} {c : Course} {steps : List Step} (first : P c)
    (keeps : ∀ c step, step ∈ steps → P c → P (c.take step)) : P (c.run steps) := by
  induction steps generalizing c with
  | nil => exact first
  | cons step rest ih =>
    exact ih (keeps c step (List.mem_cons_self ..) first)
      fun c' step' later => keeps c' step' (List.mem_cons_of_mem _ later)

end Course

end MetricTree
