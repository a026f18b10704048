import MetricTree.Loop.Run
import MetricTree.Interval

namespace MetricTree

/-- What a tree is opened with. -/
structure Options where
  stem : Value
  separator : Value
  tags : Table Value Value
  reporter : Option Reporter

/-- A replacement for one of the options. The name of any other is one of no option. -/
inductive Override where
  | stem (v : Value)
  | separator (v : Value)
  | tags (tags : Table Value Value)
  | reporter (r : Option Reporter)
  | other (name : String)

namespace Options

def standard : Options := ⟨.text "", .text ".", .empty, none⟩

def replace (o : Options) : Override → Except Fault Options
  | .stem v => pure { o with stem := v }
  | .separator v => pure { o with separator := v }
  | .tags tags => pure { o with tags := tags }
  | .reporter r => pure { o with reporter := r }
  | .other name =>
    throw (if name = "self" then .givenTwice "ScopeOptions.__init__" name else .optionUnknown name)

/-- The name of something that is given beside the options. -/
def Override.besideOptions? : Override → Option String
  | .other name => if name = "options" ∨ name = "interval" then some name else none
  | _ => none

/-- The options with all replacements made. What is given beside them cannot be replaced, which
stands against any other fault. -/
def replaceAll (o : Options) (overrides : List Override) : Except Fault Options :=
  match overrides.findSome? Override.besideOptions? with
  | some name => throw (.givenTwice "new_root_scope" name)
  | none => overrides.foldlM replace o

/-- A separator that can stand in names; nothing stands for a point. -/
def checkSeparator (v : Value) : Except Fault Text :=
  if !v.isTruthy then pure "."
  else
    match v with
    | .text s => if s.toList.any Identity.isReserved then throw (.separatorUnusable (Text.quoted s)) else pure s
    | v => do throw (.separatorUnusable (← v.literal).lossy)

def checkReporter : Option Reporter → Except Fault Unit
  | some r => if r.complete then pure () else throw (.reporterIncomplete r.typeName)
  | none => pure ()

end Options

/-- A tree that was just opened: the identity of its root, its loop, and what was told of the start. -/
structure Opening where
  root : Text
  loop : Loop
  notices : List Notice

/-- Opens a tree. The first thing that is wrong is the fault: the reporter, the separator, the stem,
the tags, and then the interval. -/
def Opening.ofOptions (o : Options) (interval : Interval) : Except Fault Opening := do
  Options.checkReporter o.reporter
  let separator ← Options.checkSeparator o.separator
  let stem ← Identity.checkName "prefix" true o.stem
  let tags ← Identity.checkTags o.tags
  let seconds ← interval.seconds
  let (root, tree) := Tree.ofRoot separator stem tags
  let (loop, notices) := Loop.start
    { tree := tree, interval := seconds, reporter := o.reporter, phase := .idle, passes := 0, busy := false }
  return ⟨root, loop, notices⟩

end MetricTree
