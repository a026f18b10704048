import MetricTree.Loop.Notice
import MetricTree.Proofs.LogLines

namespace MetricTree

open Log

/-- Has it no more digits than are written, if it is an integer? -/
def Value.isBrief : Value → Bool
  | .int n => n.natAbs < Text.leastTooLong
  | _ => true

namespace Value

theorem isBrief_int (s : ShortInt) : (Value.int s.value).isBrief = true := decide_eq_true s.short

theorem exists_short {n : Int} (brief : (Value.int n).isBrief = true) : ∃ s : ShortInt, s.value = n :=
  ⟨⟨n, of_decide_eq_true brief⟩, rfl⟩

theorem image_int (s : ShortInt) : (Value.int s.value).image = .ok (.int s) :=
  bind_eq_ok.mpr ⟨s, s.ofInt_value, rfl⟩

theorem told_int (s : ShortInt) : (Value.int s.value).told = .int s := (showable_of_image (image_int s)).2

end Value

namespace Notice

/-- The values that notices tell: texts and numbers. -/
def Tells : Value → Prop
  | .text _ | .int _ | .float _ => True
  | _ => False

theorem tells_of_extra (n : Notice) : ∀ e ∈ n.extras, Tells e.2 := by
  have number : ∀ x : Number, Tells (.ofNumber x) := by
    rintro (n | x) <;> trivial
  cases n with
  | notTaken scope o failure =>
    exact List.forall_mem_cons.mpr ⟨trivial, List.forall_mem_cons.mpr ⟨trivial,
      List.forall_mem_singleton.mpr (number _)⟩⟩
  | _ => simp [extras, countExtras, Tells]

/-- What a notice tells can be written in a line just if no integer in it is too long; else not at all. -/
theorem Tells.writable_iff {v : Value} (tells : Tells v) :
    (v.Showable ↔ v.isBrief = true) ∧ ((∃ w, Event.writable v = .ok w) ↔ v.isBrief = true) := by
  cases v with
  | text s => exact ⟨iff_of_true (Value.showable_text s) rfl, iff_of_true ⟨_, rfl⟩ rfl⟩
  | float x => exact ⟨iff_of_true (Value.showable_of_image rfl).1 rfl, iff_of_true ⟨_, rfl⟩ rfl⟩
  | int n =>
    rw [Value.isBrief, decide_eq_true_iff]
    by_cases brief : n.natAbs < Text.leastTooLong
    · have showable := (Value.showable_of_image (Value.image_int ⟨n, brief⟩)).1
      exact ⟨iff_of_true showable brief, iff_of_true ⟨_, showable.shownAs.written.1⟩ brief⟩
    · have unwritable : ¬∃ w, Event.writable (.int n) = .ok w :=
        fun ⟨_, written⟩ => brief (Event.short_of_writable .here written)
      exact ⟨iff_of_false (fun showable => unwritable ⟨_, showable.shownAs.written.1⟩) brief,
        iff_of_false unwritable brief⟩
  | _ => exact tells.elim

theorem ofList_extras (n : Notice) : Table.ofList n.extras = ⟨n.extras⟩ := by
  cases n <;> rfl

/-- No extra of a notice has a name that is hidden in lines, or taken. -/
theorem shown_of_extra (n : Notice) :
    ∀ e ∈ n.extras, Event.isShown e.1 = true ∧ takenAttributes.contains e.1 = false := by
  let names : List Text :=
    ["interval", "metric", "scope_identity", "dropped", "counters", "gauges", "errors", "pass_number"]
  have known : n.extras.map (·.1) ⊆ names := by
    cases n <;> simp [extras, countExtras, names]
  have shown : ∀ name ∈ names, Event.isShown name = true ∧ takenAttributes.contains name = false := by
    decide +kernel
  exact fun e member => shown _ (known (List.mem_map_of_mem member))

/-- Can all that a notice tells be written? -/
def isBrief (n : Notice) : Bool := n.extras.all (·.2.isBrief)

/-- What the level of a notice is called. -/
def title (n : Notice) : Text := (levelNames.lookup n.level).getD ""

theorem levelTitle_level (n : Notice) : levelTitle (.int n.level) = .ok (.text n.title) := by
  cases n <;> rfl

/-- The extras as a caller gives them. -/
def given (n : Notice) : Table Value Value := ⟨n.extras.map fun e => (.text e.1, e.2)⟩

theorem named_given (n : Notice) : Event.named n.given = ⟨n.extras⟩ := by
  rw [Event.named, given, List.filterMap_map]
  exact congrArg Table.mk List.filterMap_some

theorem shownOf_given (n : Notice) : Event.shownOf n.given = n.extras := by
  rw [Event.shownOf, named_given]
  exact List.filter_eq_self.mpr fun e member => (n.shown_of_extra e member).1

theorem event_eq_ofCall (origin : Origin) (n : Notice) : n.event origin (.text n.title) =
    Event.ofCall origin n.logger n.title (.text n.message) [] n.given (n.failure?.map fun f => ↑f.text) := by
  have stray : Event.strayOf n.given = none := by
    refine List.find?_eq_none.mpr fun name member => ?_
    simp only [given, Table.keys, List.map_map, List.mem_map] at member
    obtain ⟨e, _, rfl⟩ := member
    exact Bool.false_ne_true
  rw [event, Event.plain, Event.ofCall, ofList_extras, named_given, stray]
  cases n.failure? <;> rfl

/-- The members of a notice's line, as JSON shows them. -/
def lineMembers (n : Notice) (time : String) (thread : Text) : List (Text × Json) :=
  (Event.opening time n.title n.logger n.message thread ++ n.extras ++
    Event.reportOf (n.failure?.map fun f => ↑f.text)).map fun row => (row.1, row.2.told)

end Notice

namespace Log

/-- A moment that can be told as date and time. -/
def Origin.Timed (origin : Origin) (time : String) : Prop :=
  ∃ moment, Timestamp.ofSeconds origin.created = .ok moment ∧ moment.toText = .ok time

variable {config : Config} {origin : Origin} {time : String}

/-- A notice whose integers are not too long can be put into a line, with all that it tells. -/
theorem toJson_event (timed : origin.Timed time) {n : Notice} (brief : n.isBrief = true) :
    (n.event origin (.text n.title)).toJson = .ok (.object (n.lineMembers time origin.thread)) := by
  obtain ⟨moment, read, written⟩ := timed
  have unshadowed : (Event.named n.given).get? Event.messageAttribute = none := by
    rw [n.named_given]
    cases n <;> rfl
  have straight : Event.strayOf n.given = none := congrArg Event.stray (n.event_eq_ofCall origin).symm
  have distinct : (Event.named n.given).keys.Nodup := by
    rw [n.named_given]
    cases n <;> simp [Notice.extras, Notice.countExtras, Table.keys]
  have showable : ∀ row ∈ Event.shownOf n.given, row.2.Showable := by
    rw [n.shownOf_given]
    exact fun row member =>
      (n.tells_of_extra row member).writable_iff.1.mpr (List.all_eq_true.mp brief row member)
  rw [n.event_eq_ofCall, Event.toJson_ofCall read written rfl unshadowed straight distinct showable, n.shownOf_given]
  have apart : ∀ time thread, Table.overlaid (Table.overlaid (Event.opening time n.title n.logger n.message thread)
      n.extras) (Event.reportOf (n.failure?.map fun f => ↑f.text)) =
        Event.opening time n.title n.logger n.message thread ++ n.extras ++
          Event.reportOf (n.failure?.map fun f => ↑f.text) := by
    intro time thread
    cases n <;> rfl
  rw [apart]
  rfl

/-- The other ones leave no line. -/
theorem toJson_event_of_not_brief {n : Notice} (long : n.isBrief = false) {j : Json} :
    (n.event origin (.text n.title)).toJson ≠ .ok j := by
  intro written
  obtain ⟨e, member, long⟩ := List.all_eq_false.mp long
  obtain ⟨_, members, _⟩ := bind_eq_ok.mp written
  have extra : e ∈ (n.event origin (.text n.title)).extras.entries := by
    rw [show (n.event origin (.text n.title)).extras = ⟨n.extras⟩ from n.ofList_extras]
    exact member
  exact long ((n.tells_of_extra e member).writable_iff.2.mp
    (Event.writable_of_members members e extra (n.shown_of_extra e member).1))

end Log

namespace Log

variable {config : Config} {origin : Origin} {time : String}

/-- A log that writes what it is told writes the line of every notice that is enabled and can be put into one. -/
theorem tell_singleton (attached : config.attached = true) (timed : origin.Timed time) (n : Notice) :
    config.tell origin [n] = if config.isEnabled n.logger n.level && n.isBrief then
      [.object (n.lineMembers time origin.thread)] else [] := by
  have governed : Config.governs n.logger = true := by
    have known : ∀ name ∈ [Notice.scopeLogger, Notice.loopLogger], Config.governs name = true := by decide +kernel
    refine known n.logger ?_
    cases n <;> simp [Notice.logger]
  have untaken : (n.event origin (.text n.title)).extras.keys.find? takenAttributes.contains = none := by
    rw [show (n.event origin (.text n.title)).extras = ⟨n.extras⟩ from n.ofList_extras, List.find?_eq_none]
    intro name member
    obtain ⟨e, extra, rfl⟩ := List.mem_map.mp member
    rw [(n.shown_of_extra e extra).2]
    exact Bool.false_ne_true
  have exact : exactLevel (.int n.level) = .ok n.level := rfl
  rw [Config.tell, List.filterMap_cons, List.filterMap_nil, Config.write, exact, n.levelTitle_level]
  dsimp only [bind, Except.bind]
  rw [untaken, attached, governed]
  cases config.isEnabled n.logger n.level with
  | false => rfl
  | true =>
    cases brief : n.isBrief with
    | true =>
      rw [toJson_event timed brief]
      rfl
    | false =>
      cases written : (n.event origin (.text n.title)).toJson with
      | ok j => exact absurd written (toJson_event_of_not_brief brief)
      | error => rfl

end Log

/-- What a reporter failed to take: the delta of a counter or the value of a gauge, with the identity of the scope and
the full name, or a flush, with the counts of what it took before. -/
inductive Drop where
  | counter (scope metric : Text) (delta : Number)
  | gauge (scope metric : Text) (value : Number)
  | flush (counters gauges : Number)

namespace Drop

def ofObservation (scope : Text) : Observation → Drop
  | .counter name _ delta => .counter scope name delta
  | .gauge name _ value => .gauge scope name (.float value)

def ofTally (tally : Summary) : Drop := .flush (.int tally.counters) (.int tally.gauges)

def numbers : Drop → List Number
  | counter _ _ delta => [delta]
  | gauge _ _ value => [value]
  | flush counters gauges => [counters, gauges]

/-- Can it be told in a line? An integer that is too long cannot. -/
def isBrief (drop : Drop) : Bool := drop.numbers.all fun x => (Value.ofNumber x).isBrief

end Drop

namespace Json

def text? : Json → Option Text
  | .text s => some s
  | _ => none

def number? : Json → Option Number
  | .int n => some (.int n.value)
  | .float x => some (.float x)
  | _ => none

def members : Json → List (Text × Json)
  | .object members => members
  | _ => []

def member? (j : Json) (name : Text) : Option Json := j.members.lookup name

/-- Is it a warning of this event? -/
def warnsOf (line : Json) (event : Text) : Bool :=
  (line.member? "level").bind text? = some ↑"WARNING" ∧ (line.member? "event").bind text? = some event

/-- Is it a warning that something was dropped? -/
def warnsOfDrop (line : Json) : Bool :=
  line.warnsOf "statscope.report.counter_failed" || line.warnsOf "statscope.report.gauge_failed" ||
    line.warnsOf "statscope.report.flush_failed"

/-- What is read from a line about a metric. -/
def dropOf? (line : Json) (make : Text → Text → Number → Drop) : Option Drop := do
  let scope ← (← line.member? "scope_identity").text?
  let metric ← (← line.member? "metric").text?
  let dropped ← (← line.member? "dropped").number?
  return make scope metric dropped

/-- What is read from a line about a flush. -/
def flushOf? (line : Json) : Option Drop := do
  let counters ← (← line.member? "counters").number?
  let gauges ← (← line.member? "gauges").number?
  return .flush counters gauges

/-- What was dropped, as a line tells it. -/
def drop? (line : Json) : Option Drop :=
  if line.warnsOf "statscope.report.counter_failed" then line.dropOf? .counter
  else if line.warnsOf "statscope.report.gauge_failed" then line.dropOf? .gauge
  else if line.warnsOf "statscope.report.flush_failed" then line.flushOf?
  else none

end Json

/-- A number that is no integer of too many digits is told as it is. -/
theorem Value.number?_told {x : Number} (brief : (Value.ofNumber x).isBrief = true) :
    (Value.ofNumber x).told.number? = some x := by
  cases x with
  | float x => rfl
  | int n =>
    obtain ⟨s, rfl⟩ := Value.exists_short brief
    exact congrArg Json.number? (Value.told_int s)

namespace Notice

def drop? : Notice → Option Drop
  | notTaken scope o _ => some (.ofObservation scope o)
  | flushFailed tally _ => some (.ofTally tally)
  | _ => none

variable {n : Notice} {time : String} {thread : Text} {drop : Drop}

theorem isBrief_of_drop? (told : n.drop? = some drop) : n.isBrief = drop.isBrief := by
  cases n with
  | notTaken scope o failure =>
    cases told
    cases o <;> rfl
  | flushFailed tally failure =>
    cases told
    rfl
  | _ => cases told

theorem level_line (n : Notice) :
    (Json.object (n.lineMembers time thread)).member? "level" = some (.text n.title) := rfl

theorem event_line (n : Notice) : (Json.object (n.lineMembers time thread)).member? "event" = some (.text n.message) :=
  rfl

theorem warnsOf_line (n : Notice) (event : String) : (Json.object (n.lineMembers time thread)).warnsOf event =
    decide (n.level = warning ∧ n.message = event) := by
  have called : n.title = "WARNING" ↔ n.level = warning := by
    have levels : n.level ∈ [debug, info, warning] := by
      cases n <;> simp [level]
    have titles : ∀ level ∈ [debug, info, warning],
        Text.ofString ((levelNames.lookup level).getD "") = "WARNING" ↔ level = warning := by decide
    exact titles _ levels
  simp only [Json.warnsOf, level_line, event_line, Option.bind_some, Json.text?, Option.some.injEq, called,
    Text.ofString_inj]

/-- A line tells what the notice told that was dropped. -/
theorem drop?_line (brief : n.isBrief = true) : (Json.object (n.lineMembers time thread)).drop? = n.drop? := by
  rw [Json.drop?, warnsOf_line, warnsOf_line, warnsOf_line]
  cases n with
  | notTaken scope o failure =>
    cases o with
    | counter name tags delta =>
      have last : (Value.ofNumber delta).isBrief = true :=
        List.all_eq_true.mp brief (↑"dropped", .ofNumber delta) (by simp [extras, Observation.amount])
      calc (Json.object ((notTaken scope (.counter name tags delta) failure).lineMembers time thread)).dropOf? .counter
        _ = (Value.ofNumber delta).told.number?.bind fun x => some (.counter scope name x) := rfl
        _ = some (.counter scope name delta) := by rw [Value.number?_told last]; rfl
    | gauge name tags value => rfl
  | flushFailed tally failure =>
    have counters : (Value.ofNumber (.int tally.counters)).isBrief = true :=
      List.all_eq_true.mp brief (↑"counters", .int tally.counters) (by simp [extras])
    have gauges : (Value.ofNumber (.int tally.gauges)).isBrief = true :=
      List.all_eq_true.mp brief (↑"gauges", .int tally.gauges) (by simp [extras])
    calc (Json.object ((flushFailed tally failure).lineMembers time thread)).flushOf?
      _ = (Value.ofNumber (.int tally.counters)).told.number?.bind fun x =>
          (Value.ofNumber (.int tally.gauges)).told.number?.bind fun y => some (.flush x y) := rfl
      _ = some (.ofTally tally) := by rw [Value.number?_told counters, Value.number?_told gauges]; rfl
  | _ => rfl

theorem warnsOfDrop_line (n : Notice) : (Json.object (n.lineMembers time thread)).warnsOfDrop = n.drop?.isSome := by
  rw [Json.warnsOfDrop, warnsOf_line, warnsOf_line, warnsOf_line]
  cases n with
  | notTaken scope o failure => cases o <;> rfl
  | _ => rfl

theorem level_of_drop? (told : n.drop? = some drop) : n.level = warning := by
  cases n with
  | notTaken | flushFailed => rfl
  | _ => cases told

end Notice

namespace Log

/-- Does it write all warnings? -/
structure Config.Warns (config : Config) : Prop where
  attached : config.attached = true
  level : config.level ≤ warning

variable {config : Config} {origin : Origin} {time : String}

theorem Config.Warns.isEnabled (warns : config.Warns) (logger : String) : config.isEnabled logger warning = true := by
  have low : config.effectiveLevel logger ≤ warning := by
    rw [effectiveLevel]
    split
    · exact warns.level
    · exact Int.le_refl _
  rw [Config.isEnabled, decide_eq_true low]
  rfl

/-- Of the lines of a notice, one tells what the notice tells that was dropped, if it can be told, and no other warns of
a drop. -/
theorem drops_tell (warns : config.Warns) (timed : origin.Timed time) (n : Notice) :
    (config.tell origin [n]).filterMap Json.drop? = n.drop?.toList.filter Drop.isBrief ∧
      ∀ line ∈ config.tell origin [n], line.warnsOfDrop = line.drop?.isSome := by
  rw [tell_singleton warns.attached timed n]
  split
  · next written =>
    have brief : n.isBrief = true := (Bool.and_eq_true_iff.mp written).2
    refine ⟨?_, List.forall_mem_singleton.mpr ?_⟩
    · rw [List.filterMap_cons, Notice.drop?_line brief]
      cases told : n.drop? with
      | none => rfl
      | some drop =>
        rw [Notice.isBrief_of_drop? told] at brief
        exact (List.filter_eq_self.mpr (List.forall_mem_singleton.mpr brief)).symm
    · rw [Notice.drop?_line brief, n.warnsOfDrop_line]
  · next unwritten =>
    refine ⟨?_, List.forall_mem_nil _⟩
    cases told : n.drop? with
    | none => rfl
    | some drop =>
      rw [Notice.level_of_drop? told, warns.isEnabled, Notice.isBrief_of_drop? told, Bool.true_and] at unwritten
      exact (List.filter_eq_nil_iff.mpr (List.forall_mem_singleton.mpr unwritten)).symm

end Log

end MetricTree
