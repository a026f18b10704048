import MetricTree.Loop.Basic
import MetricTree.Tree.Snapshot
import MetricTree.Batch.Basic
import MetricTree.Web

namespace MetricTree.Session

/-- Where a metric is found: under a name in a scope, where it is made on first use, or as a handle
that was kept. -/
inductive Place where
  | named (scope : String) (name : Value)
  | kept (handle : String)

inductive EventKind where
  | counter
  | gauge
  | flush
  | close
  | send
  deriving DecidableEq

/-- A call that goes past the tree to a batching reporter. -/
inductive DirectCall where
  | observe (metric : Metric) (name : Value) (tags : Table Value Value) (amount : Value)
  | flush

mutual

/-- A step of a session. Scopes, handles and snapshots are kept under names and found again by them. -/
inductive Command where
  | counter (place : Place) (keep : Option String)
  | gauge (place : Place) (keep : Option String)
  | inc (place : Place) (amount : Value)
  | update (place : Place) (value : Value)
  | readCounter (place : Place)
  | readGauge (place : Place)
  | consumeCounter (place : Place)
  | consumeGauge (place : Place)
  | tagged (scope : String) (tags : Except Fault (Table Value Value)) (keep : Option String)
  | subScope (scope : String) (name : Value) (keep : Option String)
  | info (scope : String)
  | qualify (scope : String) (name : Value)
  | report (scope : String)
  | close (scope : String)
  | start (scope : String)
  | state (scope : String)
  | snapshot (scope : String) (keep : Option String)
  | recall (snapshot : String)
  | registry (scope : String)
  | lookup (scope : String) (identity : Value)
  | runTimer (scope : String) (ticks : Int)
  /-- Steps within a block at whose end the tree is closed, and what the block itself fails with. -/
  | block (scope : String) (steps : List Command) (failure : Option Fault)
  | setRules (rules : List Rule)
  | pending
  | direct (call : Except Fault DirectCall)
  | request (method path : String) (detached : Bool)
  | serve (closeAtEnd : Bool)

/-- What a reporter does at an event of a kind, of a metric of a name if one is given, and at its
`nth` occurrence if a number is given: it takes steps, and then fails. -/
inductive Rule where
  | rule (on : EventKind) (name : Option Text) (nth : Option Int) (steps : Option (List Command))
    (failure : Option Fault)

end

instance : Inhabited Command := ⟨.pending⟩

/-- What reached a reporter. -/
inductive Event where
  | observed (o : Observation)
  | flushed
  | closed
  | sent (records : List Record) (number : Nat)

namespace Event

def kind : Event → EventKind
  | observed o => if o.isCounter then .counter else .gauge
  | flushed => .flush
  | closed => .close
  | sent .. => .send

def name? : Event → Option Text
  | observed o => some o.name
  | _ => none

end Event

structure ScopeInfo where
  scope : Scope
  separator : Text
  identity : Text
  sameAs : Option String

/-- The written form of a scope. -/
def ScopeInfo.repr (info : ScopeInfo) : String := "Scope(identity=" ++ Text.quoted info.identity ++ ")"

structure StateInfo where
  phase : Phase
  passes : Nat
  interval : Binary64
  attached : Bool

/-- The answer to a step. -/
inductive Result where
  | nothing
  | refused (fault : Fault)
  | handle (sameAs : Option String)
  | scope (info : ScopeInfo)
  | number (n : Number)
  | counter (total delta : Number)
  | gauge (value : Binary64)
  | consumed (value : Binary64) (dirty : Bool)
  | name (v : Value)
  | summary (s : Summary)
  | state (info : StateInfo)
  | snapshot (s : Snapshot)
  | registry (identities : List Text)
  | lookup (known found : Bool) (sameAs : Option String)
  | ticksLeft (ticks : Int)
  /-- What was entered, the answers to the steps taken in it, and how it failed. -/
  | block (steps : List Result) (fault : Option Fault)
  | records (pending : List Record)
  | pendingCount (count : Nat)
  | flushCount (count : Nat) (fault : Option Fault)
  | response (r : Response)
  | served (during after : Phase)

/-- An event, and the answers to the steps that the reporter took at it. -/
structure Entry where
  event : Event
  nested : Option (List Result)

end MetricTree.Session
