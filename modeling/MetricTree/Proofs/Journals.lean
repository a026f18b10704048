import MetricTree.Batch.Journal
import MetricTree.Proofs.DropLines
import MetricTree.Proofs.LogLines

namespace MetricTree

open Log Table

namespace Json

mutual

/-- What is made of JSON that was read: arrays become lists, and objects dictionaries, in which the last one of several
members of a name counts. -/
def toValue : Json → Value
  | .null => .null
  | .bool b => .bool b
  | .int n => .int n.value
  | .float x => .float x
  | .text s => .text s
  | .array items => .list (itemValues items)
  | .object members => .dict ((Table.ofList (memberValues members)).entries.map fun e => (.text e.1, e.2))
termination_by structural j => j

def itemValues : List Json → List Value
  | [] => []
  | item :: rest => toValue item :: itemValues rest
termination_by structural items => items

def memberValues : List (Text × Json) → List (Text × Value)
  | [] => []
  | (name, value) :: rest => (name, toValue value) :: memberValues rest
termination_by structural members => members

end

end Json

namespace Record

/-- Has its delta no more digits than are written, if it has one? -/
def isBrief (r : Record) : Bool := r.delta.all fun n => (Value.int n).isBrief

/-- The record that is told of it: keys of tags are told in characters alone. -/
def shown (r : Record) : Record := { r with tags := r.shownTags }

/-- The object that JSON shows of a record. -/
def toJson (r : Record) : Json :=
  .object (([(↑"id", .text r.id), (↑"type", .text r.metric.name),
      (↑"tags", .object (r.shownTags.entries.map fun e => (e.1, .text e.2)))] : List (Text × Json)) ++
    (r.delta.map fun n => ((↑"delta" : Text), (Value.int n).told)).toList ++
    (r.value.map fun x => ((↑"value" : Text), Json.float x)).toList)

/-- The record that an object makes whose members are read as the fields. Members of other names do not matter. -/
def ofJson (j : Json) : Except (List Issue) Record :=
  ofFields (.ofList ((Json.memberValues j.members).filterMap fun e => e.1.string?.map (·, e.2)))

theorem imageEntries_texts (entries : List (Text × Text)) :
    Value.imageEntries (entries.map fun e => (.text e.1, .text e.2)) = .ok (entries.map fun e => (e.1, .text e.2)) := by
  induction entries with
  | nil => rfl
  | cons e rest ih => exact bind_eq_ok.mpr ⟨e.1, rfl, bind_eq_ok.mpr ⟨_, rfl, bind_eq_ok.mpr ⟨_, ih, rfl⟩⟩⟩

theorem image_toValue {r : Record} (brief : r.isBrief = true) : r.toValue.image = .ok r.toJson := by
  obtain ⟨id, metric, tags, delta, value⟩ := r
  have tagged : ∀ tags : Tags, (Value.dict (tags.entries.map fun e => (.text e.1, .text e.2))).image =
      .ok (.object (tags.entries.map fun e => (e.1, .text e.2))) :=
    fun tags => bind_eq_ok.mpr ⟨_, imageEntries_texts _, rfl⟩
  have valued : Value.imageEntries (value.map fun x => (Value.text "value", Value.float x)).toList =
      .ok (value.map fun x => ((↑"value" : Text), Json.float x)).toList := by
    cases value <;> rfl
  have rest : Value.imageEntries ((delta.map fun n => (Value.text "delta", Value.int n)).toList ++
        (value.map fun x => (Value.text "value", Value.float x)).toList) =
      .ok ((delta.map fun n => ((↑"delta" : Text), (Value.int n).told)).toList ++
        (value.map fun x => ((↑"value" : Text), Json.float x)).toList) := by
    cases delta with
    | none => exact valued
    | some n =>
      obtain ⟨s, rfl⟩ := Value.exists_short brief
      have image := Value.image_int s
      rw [← Value.told_int] at image
      exact bind_eq_ok.mpr ⟨↑"delta", rfl, bind_eq_ok.mpr ⟨_, image, bind_eq_ok.mpr ⟨_, valued, rfl⟩⟩⟩
  refine bind_eq_ok.mpr ⟨_, ?_, rfl⟩
  exact bind_eq_ok.mpr ⟨_, rfl, bind_eq_ok.mpr ⟨_, rfl, bind_eq_ok.mpr ⟨_, bind_eq_ok.mpr ⟨_, rfl,
    bind_eq_ok.mpr ⟨_, rfl, bind_eq_ok.mpr ⟨_, bind_eq_ok.mpr ⟨_, rfl, bind_eq_ok.mpr ⟨_, tagged _,
    bind_eq_ok.mpr ⟨_, rest, rfl⟩⟩⟩, rfl⟩⟩⟩, rfl⟩⟩⟩

theorem image_records {records : List Record} (brief : ∀ r ∈ records, r.isBrief = true) :
    (Value.list (records.map toValue)).image = .ok (.array (records.map toJson)) := by
  have items : Value.imageItems (records.map toValue) = .ok (records.map toJson) := by
    induction records with
    | nil => rfl
    | cons r rest ih =>
      obtain ⟨first, others⟩ := List.forall_mem_cons.mp brief
      exact bind_eq_ok.mpr ⟨_, image_toValue first, bind_eq_ok.mpr ⟨_, ih others, rfl⟩⟩
  rw [Value.image, items]
  rfl

/-- The delta of a record is inside its value. -/
theorem inside_toValue {r : Record} {n : Int} (delta : r.delta = some n) : Value.Inside (.int n) r.toValue := by
  refine @Value.Inside.dict _ _ (.text "delta", .int n) ?_ .here
  rw [delta]
  exact List.mem_append_left _ (List.mem_append_right _ (List.mem_singleton.mpr rfl))

theorem memberValues_texts (entries : List (Text × Text)) :
    Json.memberValues (entries.map fun e => (e.1, .text e.2)) = entries.map fun e => (e.1, .text e.2) := by
  induction entries with
  | nil => rfl
  | cons e rest ih => rw [List.map_cons, Json.memberValues, ih]; rfl

/-- Read back, a table of tags is given as it was. -/
theorem toValue_tags {tags : Tags} (distinct : tags.keys.Nodup) :
    Json.toValue (.object (tags.entries.map fun e => (e.1, .text e.2))) = .dict tags.given.entries := by
  have table : Table.ofList (tags.entries.map fun e => (e.1, Value.text e.2)) =
      ⟨tags.entries.map fun e => (e.1, Value.text e.2)⟩ := by
    refine ofList_entries ⟨_⟩ ?_
    rw [keys, List.map_map]
    exact distinct
  rw [Json.toValue, memberValues_texts, table, List.map_map]
  rfl

theorem nodup_keys_shownTags (r : Record) : r.shownTags.keys.Nodup :=
  nodup_keys_overlay (t := .empty) ⟨_⟩ List.nodup_nil

/-- A record is told as it is if the keys of its tags are characters alone. -/
theorem shown_eq_self {r : Record} (distinct : r.tags.keys.Nodup)
    (unicode : ∀ key ∈ r.tags.keys, key.isUnicode = true) : r.shown = r := by
  have same : r.shownTags = .ofList r.tags.entries := by
    refine congrArg Table.ofList ((List.map_congr_left fun e member => ?_).trans (List.map_id _))
    exact congrArg (·, e.2) (Text.lossy_of_isUnicode (unicode e.1 (List.mem_map_of_mem member)))
  rw [shown, same, ofList_entries _ distinct]

/-- What is told of the record of an observation is made again of what JSON shows of it. -/
theorem ofJson_toJson {o : Observation} (regular : o.Regular) (taken : o.isTaken = true)
    (brief : o.record.isBrief = true) : ofJson o.record.toJson = .ok o.record.shown := by
  obtain ⟨named, _, integral⟩ := regular
  cases o with
  | counter name tags delta =>
    obtain ⟨n, rfl⟩ := integral name tags delta rfl
    have named : name ≠ "" := named
    have unicode : name.isUnicode = true := taken
    have reads := readings_eq named (nodup_keys_shownTags (Observation.counter name tags (.int n)).record) .counter
      (some n, none)
    rw [← toValue_tags (nodup_keys_shownTags _), if_pos unicode] at reads
    -- The delta is read back from its digits.
    obtain ⟨s, rfl⟩ := Value.exists_short brief
    have delta : (Observation.counter name tags (.int s.value)).record.toJson = .object
        [(↑"id", .text name), (↑"type", .text ↑"counter"), (↑"tags", .object ((Observation.counter name tags
          (.int s.value)).record.shownTags.entries.map fun e => (e.1, .text e.2))), (↑"delta", .int s)] := by
      rw [toJson, ← Value.told_int]
      rfl
    rw [delta]
    exact (congrArg (· >>= _) reads).trans rfl
  | gauge name tags value =>
    have named : name ≠ "" := named
    have unicode : name.isUnicode = true := taken
    have reads := readings_eq named (nodup_keys_shownTags (Observation.gauge name tags value).record) .gauge
      (none, some value)
    rw [← toValue_tags (nodup_keys_shownTags _), if_pos unicode] at reads
    exact (congrArg (· >>= _) reads).trans rfl

end Record

namespace Log

theorem pieces_level : piecesFrom 0 (Text.ofString "Level %s").toList =
    [.letter (.char 'L'), .letter (.char 'e'), .letter (.char 'v'), .letter (.char 'e'), .letter (.char 'l'),
      .letter (.char ' '), .conversion ⟨none, [], .absent, .absent, some (.char 's'), 7⟩] := by
  simp [piecesFrom, readConversion, readMeasure, readPlaces, Letter.char?]

/-- A template that asks for one argument as it is displayed can be filled with one that can be displayed. -/
theorem exists_fillTemplate {v : Value} {s : Text} (single : Supply.ofArguments v = ⟨none, [v]⟩)
    (displayed : v.display = .ok s) : ∃ t, fillTemplate "Level %s" v = .ok t := by
  have written : (Layout.ofFlags [] 0 none).write (.char 's') 7 v = .ok ((Layout.ofFlags [] 0 none).writeText s) :=
    bind_eq_ok.mpr ⟨s, displayed, rfl⟩
  have converted : (⟨none, [v]⟩ : Supply).convert ⟨none, [], .absent, .absent, some (.char 's'), 7⟩ =
      .ok ((Layout.ofFlags [] 0 none).writeText s, ⟨none, []⟩) := bind_eq_ok.mpr ⟨_, rfl, bind_eq_ok.mpr ⟨_, rfl,
    bind_eq_ok.mpr ⟨_, rfl, bind_eq_ok.mpr ⟨_, rfl, bind_eq_ok.mpr ⟨_, rfl, bind_eq_ok.mpr ⟨_, written, rfl⟩⟩⟩⟩⟩⟩
  rw [fillTemplate, pieces_level, single]
  simp only [Supply.fillPieces, converted]
  exact ⟨_, rfl⟩

/-- A level that is an integer has a title, unless it is too long to be told. -/
theorem exists_levelTitle {v : Value} {n : Int} (exact : exactLevel v = .ok n) (brief : v.isBrief = true) :
    ∃ title, levelTitle v = .ok (.text title) := by
  have single : v.hashable = .ok () ∧ v.textKey? = none ∧ Supply.ofArguments v = ⟨none, [v]⟩ ∧
      ∃ s, v.display = .ok s := by
    cases v with
    | int n =>
      obtain ⟨s, rfl⟩ := Value.exists_short brief
      exact ⟨rfl, rfl, rfl, _, bind_eq_ok.mpr ⟨s, s.ofInt_value, rfl⟩⟩
    | bool => exact ⟨rfl, rfl, rfl, _, rfl⟩
    | _ => cases exact
  obtain ⟨hashable, unlike, single, s, displayed⟩ := single
  obtain ⟨t, filled⟩ := exists_fillTemplate single displayed
  rw [levelTitle, hashable, unlike]
  cases known : levelNames.find? fun named => v == .int named.1 with
  | some named => exact ⟨named.2, rfl⟩
  | none => exact ⟨t, bind_eq_ok.mpr ⟨(), rfl, bind_eq_ok.mpr ⟨_, filled, rfl⟩⟩⟩

end Log

namespace Journal

/-- A journal whose batches are written: its logger is enabled at its level, which can be told, and its lines come to
the root. -/
structure Writes (j : Journal) (c : Config) : Prop where
  attached : c.attached = true
  governed : Config.governs j.logger = true
  enabled : ∃ n, exactLevel j.level = .ok n ∧ c.isEnabled j.logger n = true
  brief : j.level.isBrief = true

/-- What is told of a batch. -/
def extraRows (number : Nat) (records : List Record) : List (Text × Value) :=
  [(↑"flush_number", .int number), (↑"size", .int records.length), (↑"metrics", .list (records.map Record.toValue))]

/-- The line of a batch. -/
def line (j : Journal) (title : Text) (time : String) (thread : Text) (number : Nat) (records : List Record) : Json :=
  .object ((Event.opening time title j.logger "statscope.reporter.batch" thread ++ extraRows number records).map
    fun row => (row.1, row.2.told))

/-- Has the line of a batch no integer that is too long? -/
def isBrief (number : Nat) (records : List Record) : Bool :=
  (Value.int number).isBrief && (Value.int records.length).isBrief && records.all Record.isBrief

variable {j : Journal} {c : Config} {origin : Origin} {title : Text} {time : String} {number : Nat}
  {records : List Record}

/-- The extras of the event of a batch. -/
def extras (number : Nat) (records : List Record) : Table Value Value :=
  ⟨(extraRows number records).map fun row => (.text row.1, row.2)⟩

theorem shownOf_extras (number : Nat) (records : List Record) :
    Event.shownOf (extras number records) = extraRows number records := by
  have shown : ∀ name ∈ [(↑"flush_number" : Text), ↑"size", ↑"metrics"], Event.isShown name = true := by
    decide +kernel
  refine List.filter_eq_self.mpr fun e member => shown _ ?_
  exact List.mem_map_of_mem (f := Prod.fst) member

theorem event_eq_ofCall (number : Nat) (records : List Record) : j.event origin number records (.text title) =
    Event.ofCall origin j.logger title (.text "statscope.reporter.batch") [] (extras number records) none := rfl

theorem isBrief_iff : isBrief number records = true ↔
    (Value.int number).isBrief = true ∧ (Value.int records.length).isBrief = true ∧
      ∀ r ∈ records, r.isBrief = true := by
  rw [isBrief, Bool.and_eq_true_iff, Bool.and_eq_true_iff, List.all_eq_true, and_assoc]

theorem showable_extras (brief : isBrief number records = true) :
    ∀ row ∈ Event.shownOf (extras number records), row.2.Showable := by
  obtain ⟨numbered, sized, brief⟩ := isBrief_iff.mp brief
  have integer : ∀ {n : Int}, (Value.int n).isBrief = true → (Value.int n).Showable :=
    fun {n} => (Notice.Tells.writable_iff (v := .int n) trivial).1.mpr
  rw [shownOf_extras]
  exact List.forall_mem_cons.mpr ⟨integer numbered, List.forall_mem_cons.mpr ⟨integer sized,
    List.forall_mem_singleton.mpr (Value.showable_of_image (Record.image_records brief)).1⟩⟩

/-- The event of a batch makes its line. -/
theorem toJson_event (timed : origin.Timed time) (brief : isBrief number records = true) :
    (j.event origin number records (.text title)).toJson = .ok (j.line title time origin.thread number records) := by
  obtain ⟨moment, read, told⟩ := timed
  have filled : Event.formatted (.text "statscope.reporter.batch") [] = .ok "statscope.reporter.batch" := rfl
  have names : [(↑"flush_number" : Text), ↑"size", ↑"metrics"].Nodup := by decide
  have distinct : (Event.named (extras number records)).keys.Nodup := names
  have rows : overlaid (overlaid (Event.opening time title j.logger "statscope.reporter.batch" origin.thread)
      (extraRows number records)) (Event.reportOf none) =
      Event.opening time title j.logger "statscope.reporter.batch" origin.thread ++ extraRows number records := rfl
  rw [event_eq_ofCall, Event.toJson_ofCall read told filled rfl rfl distinct (showable_extras brief), shownOf_extras,
    rows]
  rfl

/-- An integer that is too long leaves no line. -/
theorem isBrief_of_toJson {j' : Json} (made : (j.event origin number records (.text title)).toJson = .ok j') :
    isBrief number records = true := by
  obtain ⟨_, members, _⟩ := bind_eq_ok.mp made
  have short : ∀ (name : String) (v : Value), (↑name, v) ∈ Event.shownOf (extras number records) →
      ∀ n : Int, Value.Inside (.int n) v → (Value.int n).isBrief = true := by
    intro name v member n inside
    obtain ⟨extra, shown⟩ := List.mem_filter.mp member
    obtain ⟨w, written⟩ := Event.writable_of_members members (↑name, v) extra shown
    exact decide_eq_true (Event.short_of_writable inside written)
  rw [shownOf_extras] at short
  refine isBrief_iff.mpr ⟨short "flush_number" _ (.head _) _ .here, short "size" _ (.tail _ (.head _)) _ .here,
    fun r member => ?_⟩
  cases delta : r.delta with
  | none => rw [Record.isBrief, delta]; rfl
  | some n =>
    rw [Record.isBrief, delta]
    exact short "metrics" _ (.tail _ (.tail _ (.head _))) n
      (.list (List.mem_map_of_mem member) (Record.inside_toValue delta))

/-- What is written of a batch is one line, unless an integer is too long for it. -/
theorem send_eq (writes : j.Writes c) (titled : levelTitle j.level = .ok (.text title)) (timed : origin.Timed time) :
    j.send c origin number records =
      .ok (if isBrief number records then some (j.line title time origin.thread number records) else none) := by
  obtain ⟨attached, governed, ⟨n, exact, enabled⟩, _⟩ := writes
  have untaken : (j.event origin number records (.text title)).extras.keys.find? takenAttributes.contains = none := rfl
  have line : (j.event origin number records (.text title)).toJson.toOption =
      if isBrief number records then some (j.line title time origin.thread number records) else none := by
    cases brief : isBrief number records with
    | true =>
      rw [toJson_event timed brief]
      rfl
    | false =>
      cases made : (j.event origin number records (.text title)).toJson with
      | error => rfl
      | ok => exact absurd (isBrief_of_toJson made) (by rw [brief]; exact Bool.false_ne_true)
  rw [send, Config.write, exact]
  refine bind_eq_ok.mpr ⟨n, rfl, ?_⟩
  rw [enabled, titled]
  dsimp only [bind, Except.bind]
  rw [untaken, attached, governed, ← line]
  rfl

/-- The line of a piece, if there is one: something was taken of it, and no integer is too long. -/
def lineOf? (j : Journal) (title : Text) (time : String) (thread : Text) (number : Nat) (records : List Record) :
    Option Json :=
  if !records.isEmpty && isBrief number records then some (j.line title time thread number records) else none

/-- The lines of batches of these pieces, flush by flush. -/
def linesOf (j : Journal) (title : Text) (time : Nat → String) (clock : Nat → Origin)
    (pieces : List (List Observation)) : List (List Json) :=
  pieces.mapIdx fun i piece =>
    (j.lineOf? title (time (i + 1)) (clock (i + 1)).thread (i + 1) (Pieces.records piece)).toList

end Journal

/-- A reporter that journals: what waits to be sent, the lines of each flush so far, and how its last call failed if it
did. -/
structure Journaling where
  batch : Batch
  lines : List (List Json)
  failure : Option Failure

namespace Journaling

def fresh : Journaling := ⟨.empty, [], none⟩

def failureOf (fault : Fault) : Option Failure :=
  match Session.outcomeOf fault with
  | .failed failure => some failure
  | _ => none

section

variable (j : Journal) (c : Config) (clock : Nat → Origin)

/-- Each batch is sent at a moment of its own. -/
def call (s : Journaling) : Call → Journaling
  | .flush =>
    let (records?, after) := s.batch.flush
    match records?.elim (pure none) (j.send c (clock after.flushes) after.flushes) with
    | .ok line? => ⟨after, s.lines ++ [line?.toList], none⟩
    | .error fault => ⟨after, s.lines ++ [[]], failureOf fault⟩
  | call =>
    match s.batch.meet call with
    | .error issues => { s with failure := some (Batch.refusal issues) }
    | .ok (_, after) => ⟨after, s.lines, none⟩

def serve (calls : List Call) : Journaling := calls.foldl (call j c clock) fresh

/-- The calls of a journaling reporter that fail. -/
def temper : Course.Temper := fun calls => (serve j c clock calls).failure

end

variable {j : Journal} {c : Config} {clock : Nat → Origin} {title : Text} {time : Nat → String} {calls : List Call}

theorem serve_concat (calls : List Call) (next : Call) :
    serve j c clock (calls ++ [next]) = (serve j c clock calls).call j c clock next := List.foldl_concat ..

/-- How a reporter that batches refuses a call, if it does: for a name that is more than characters. -/
def refusal : Call → Option Failure
  | .observe o => if o.isTaken then none else some (Batch.refusal Record.nameRefused)
  | _ => none

/-- A journal that is written refuses names only, and leaves one line of each piece of which something is taken, if no
integer is too long for it. -/
theorem serve_eq (writes : j.Writes c) (titled : levelTitle j.level = .ok (.text title))
    (timed : ∀ k, (clock k).Timed (time k)) (regular : Batching.Regular calls) :
    serve j c clock calls =
      ⟨⟨Pieces.records (Pieces.ofCalls calls).since, (Pieces.ofCalls calls).flushed.length⟩,
        j.linesOf title time clock (Pieces.ofCalls calls).flushed, calls.getLast?.bind refusal⟩ := by
  induction calls using List.reverseRecOn with
  | nil => rfl
  | append_singleton sooner next ih =>
    rw [serve_concat, ih fun o member => regular o (List.mem_append_left _ member), Pieces.ofCalls_concat,
      List.getLast?_concat, Option.bind_some]
    cases next with
    | close => rfl
    | observe o =>
      have added := Batch.addObservation_eq ⟨Pieces.records (Pieces.ofCalls sooner).since,
        (Pieces.ofCalls sooner).flushed.length⟩ (regular o (List.mem_append_right _ (List.mem_singleton.mpr rfl)))
      simp only [call, Batch.meet, added, Pieces.add, Pieces.records_concat, refusal]
      cases o.isTaken with
      | true => rfl
      | false => exact congrArg (fun pending => Journaling.mk ⟨pending, _⟩ _ _) (List.append_nil _).symm
    | flush =>
      have sent := @Journal.send_eq _ _ _ _ _ ((Pieces.ofCalls sooner).flushed.length + 1)
        (Pieces.records (Pieces.ofCalls sooner).since) writes titled
        (timed ((Pieces.ofCalls sooner).flushed.length + 1))
      simp only [call, Batch.flush, Pieces.add, Journal.linesOf, List.mapIdx_concat, List.length_append,
        List.length_singleton, Journal.lineOf?, refusal]
      cases (Pieces.records (Pieces.ofCalls sooner).since).isEmpty with
      | true => rfl
      | false =>
        simp only [Bool.false_eq_true, if_false, Option.elim_some, sent]
        rfl

/-- The calls of a journal that is written fail by refusal only. -/
theorem temper_eq (writes : j.Writes c) (moments : ∀ k, ∃ time, (clock k).Timed time)
    (regular : Batching.Regular calls) : temper j c clock calls = calls.getLast?.bind refusal := by
  obtain ⟨n, exact, _⟩ := writes.enabled
  obtain ⟨title, titled⟩ := exists_levelTitle exact writes.brief
  choose time timed using moments
  rw [temper, serve_eq writes titled timed regular]

end Journaling

/-- A session's reporter that journals does what is told here, with the session's log and at its moment. -/
theorem Session.respond_of_journaling (perform : Performer) (call : Call) {s : Session} {j : Journal} {b : Journaling}
    {clock : Nat → Origin} (sink : s.sink = .journal j b.batch) (moment : s.origin = clock (b.batch.flushes + 1))
    (calm : ∀ records fault, j.send s.config (clock (b.batch.flushes + 1)) (b.batch.flushes + 1) records =
      .error fault →
      ∃ failure, outcomeOf fault = .failed failure) :
    (respond perform call s).1 = (b.call j s.config clock call).failure.elim .returned .failed ∧
      (respond perform call s).2.sink = .journal j (b.call j s.config clock call).batch ∧
      ∃ lines, (b.call j s.config clock call).lines = b.lines ++ lines ∧
        (respond perform call s).2.lines.toList = s.lines.toList ++ lines.flatten := by
  obtain ⟨batch, written, failure⟩ := b
  obtain ⟨_, _, _, _, _, _, _, _, _⟩ := s
  cases sink
  cases moment
  cases call with
  | close => exact ⟨rfl, rfl, [], (List.append_nil _).symm, (List.append_nil _).symm⟩
  | observe o =>
    simp only [respond, addToBatch, Journaling.call, Batch.meet]
    cases batch.addObservation o <;>
      exact ⟨rfl, rfl, [], (List.append_nil _).symm, (List.append_nil _).symm⟩
  | flush =>
    simp only [respond, flushBatch, Journaling.call, Batch.flush]
    cases batch.pending.isEmpty with
    | true => exact ⟨rfl, rfl, [[]], rfl, Array.toList_append⟩
    | false =>
      simp only [Bool.false_eq_true, if_false, Option.elim_some]
      cases sent : j.send _ (clock (batch.flushes + 1)) (batch.flushes + 1) batch.pending with
      | ok line? =>
        refine ⟨rfl, rfl, [line?.toList], rfl, ?_⟩
        simp only [log, Array.toList_append, List.flatten_singleton]
      | error fault =>
        obtain ⟨failure, fails⟩ := calm _ _ sent
        have told : (Journaling.failureOf fault).elim Outcome.returned Outcome.failed = .failed failure := by
          rw [Journaling.failureOf, fails]
          rfl
        exact ⟨fails.trans told.symm, rfl, [[]], rfl, (List.append_nil _).symm⟩

end MetricTree
