import MetricTree.Proofs.PlainText
import MetricTree.Proofs.TableMaps
import MetricTree.Proofs.Serving
import MetricTree.Session.Perform

namespace MetricTree

/-- A number that is an integer already. -/
def Number.int? : Number → Option Int
  | .int n => some n
  | .float _ => none

namespace Observation

/-- What a batch keeps of an observation: a delta for a counter, a value for a gauge, and nothing besides. -/
def record : Observation → Record
  | .counter name tags delta => ⟨name, .counter, tags, delta.int?, none⟩
  | .gauge name tags value => ⟨name, .gauge, tags, none, some value⟩

/-- An observation that makes a record, if its name consists of characters. -/
structure Regular (o : Observation) : Prop where
  named : o.name ≠ ""
  distinct : o.tags.keys.Nodup
  integral : ∀ name tags delta, o = .counter name tags delta → ∃ n, delta = .int n

/-- A batch takes no other names. -/
def isTaken (o : Observation) : Bool := o.name.isUnicode

end Observation

namespace Table

variable {κ α : Type} [BEq κ] [LawfulBEq κ]

theorem insert_of_not_mem {t : Table κ α} {k : κ} {v : α} (fresh : k ∉ t.keys) :
    t.insert k v = ⟨t.entries ++ [(k, v)]⟩ := by
  obtain ⟨entries⟩ := t
  refine congrArg Table.mk ?_
  induction entries with
  | nil => rfl
  | cons e rest ih =>
    rw [keys, List.map_cons, List.mem_cons, not_or] at fresh
    rw [insertEntry, if_neg (by rw [beq_iff_eq]; exact Ne.symm fresh.1), ih fresh.2]
    rfl

/-- The entries of a table, added one after the other, make the table again. -/
theorem ofList_entries (t : Table κ α) (distinct : t.keys.Nodup) : ofList t.entries = t := by
  obtain ⟨entries⟩ := t
  induction entries using List.reverseRecOn with
  | nil => rfl
  | append_singleton sooner e ih =>
    rw [keys, List.map_append, List.nodup_append] at distinct
    obtain ⟨sooner_distinct, _, apart⟩ := distinct
    have fresh : e.1 ∉ keys ⟨sooner⟩ := fun member => apart _ member _ (List.mem_singleton.mpr rfl) rfl
    have last : ofList (sooner ++ [e]) = (ofList sooner).insert e.1 e.2 := List.foldl_concat ..
    rw [last, ih sooner_distinct, insert_of_not_mem fresh]

end Table

namespace Record

/-- How a record is refused whose name is more than characters. -/
def nameRefused : List Issue := [⟨["id"], .notUnicode⟩]

theorem identifier_text {name : Text} (named : name ≠ "") :
    identifier (.text name) = if name.isUnicode then .ok name else .error .notUnicode := by
  have front : identifier (.text name) = (Field.unicode name >>= fun s =>
    if s.isEmpty then throw .tooShort else pure ↑s) := rfl
  rw [front, Field.unicode, Text.isUnicode]
  cases read : name.string? with
  | none => rfl
  | some s =>
    obtain rfl := Text.string?_eq_some.mp read
    exact if_neg fun empty => named (congrArg Text.ofString (String.isEmpty_iff.mp empty))

theorem tagEntries_given (entries : List (Text × Text)) :
    tagEntries (entries.map fun e => (.text e.1, .text e.2)) = .ok entries := by
  induction entries with
  | nil => rfl
  | cons e rest ih =>
    rw [List.map_cons, tagEntries, ih]
    rfl

theorem tagsOf_given {tags : Tags} (distinct : tags.keys.Nodup) : tagsOf (.dict tags.given.entries) = .ok tags := by
  have texts : tagEntries tags.given.entries = .ok tags.entries := tagEntries_given tags.entries
  rw [tagsOf, texts]
  exact congrArg Except.ok (tags.ofList_entries distinct)

theorem metricOf_name (metric : Metric) : metricOf (.text metric.name) = .ok metric := by
  rw [metricOf, Field.unicode, Text.string?_ofString]
  cases metric <;> rfl

/-- The fields of an observation are read like this; the number that it has not is absent. -/
theorem ofFields_fields (metric : Metric) (name : Value) (tags : Table Value Value) (amount : Value) :
    ofFields (Batch.fields metric name tags amount) =
      (Field.both (Field.named ["id"] (identifier name)) <|
        Field.both (Field.named ["type"] (metricOf (.text metric.name))) <|
        Field.both (tagsOf (.dict tags.entries)) <|
        match metric with
        | .counter => Field.both (Field.named ["delta"] (optional Field.integer amount)) (.ok none)
        | .gauge => Field.both (.ok none) (Field.named ["value"] (optional Field.number amount))) >>=
      fun (id, metric, tags, delta, value) => .ok ⟨id, metric, tags, delta, value⟩ := by
  cases metric <;> rfl

/-- The readings of a record whose numbers can be read. -/
theorem readings_eq {name : Text} {tags : Tags} (named : name ≠ "") (distinct : tags.keys.Nodup)
    (metric : Metric) (numbers : Option Int × Option Binary64) :
    (Field.both (Field.named ["id"] (identifier (.text name))) <|
      Field.both (Field.named ["type"] (metricOf (.text metric.name))) <|
      Field.both (tagsOf (.dict tags.given.entries)) (.ok numbers)) =
      if name.isUnicode then .ok (name, metric, tags, numbers) else .error nameRefused := by
  rw [identifier_text named, metricOf_name, tagsOf_given distinct]
  cases name.isUnicode <;> rfl

end Record

namespace Batch

/-- The fields of a regular observation make its record, or the name is refused and nothing else. -/
theorem ofFields_observation {o : Observation} (regular : o.Regular) :
    Record.ofFields (fields (if o.isCounter then .counter else .gauge) (.text o.name) o.tags.given
      (.ofNumber o.amount)) = if o.isTaken then .ok o.record else .error Record.nameRefused := by
  obtain ⟨named, distinct, integral⟩ := regular
  rw [Record.ofFields_fields]
  cases o with
  | counter name tags delta =>
    obtain ⟨n, rfl⟩ := integral name tags delta rfl
    refine (congrArg (· >>= _) (Record.readings_eq named distinct .counter (some n, none))).trans ?_
    rw [Observation.isTaken, Observation.name]
    cases name.isUnicode <;> rfl
  | gauge name tags value =>
    refine (congrArg (· >>= _) (Record.readings_eq named distinct .gauge (none, some value))).trans ?_
    rw [Observation.isTaken, Observation.name]
    cases name.isUnicode <;> rfl

/-- What can be recorded is recorded, after all that waits already. -/
theorem addObservation_eq (b : Batch) {o : Observation} (regular : o.Regular) :
    b.addObservation o = if o.isTaken then .ok { b with pending := b.pending ++ [o.record] }
      else .error Record.nameRefused := by
  have reads := ofFields_observation regular
  rw [addObservation, add]
  refine (congrArg (· >>= _) reads).trans ?_
  cases o.isTaken <;> rfl

/-- What a reporter fails with when its batch takes no record. -/
def refusal (issues : List Issue) : Failure := ⟨"ValidationError", (Fault.invalid issues).message⟩

/-- What a batch does when its reporter is called: it keeps a record, or gives out those that are to be sent. -/
def meet (b : Batch) : Call → Except (List Issue) (Option (List Record) × Batch)
  | .observe o => return (none, ← b.addObservation o)
  | .flush => return b.flush
  | .close => return (none, b)

end Batch

namespace Session

/-- A session's reporter that batches does what its batch does, and lets the far end meet what is sent. -/
theorem respond_of_batch (perform : Performer) (call : Call) {s : Session} {b : Batch} (sink : s.sink = .batch b) :
    respond perform call s = match b.meet call with
      | .error issues => (.failed (Batch.refusal issues), s)
      | .ok (none, after) => (.returned, { s with sink := .batch after })
      | .ok (some records, after) => meet perform (.sent records after.flushes) { s with sink := .batch after } := by
  obtain ⟨_, _, _, _, _, _, _, _, _⟩ := s
  cases sink
  cases call with
  | close => rfl
  | observe o =>
    simp only [respond, Batch.meet, addToBatch]
    cases b.addObservation o <;> rfl
  | flush =>
    simp only [respond, Batch.meet, flushBatch, Batch.flush]
    cases b.pending.isEmpty <;> rfl

end Session

/-- What a reporter is told of metrics, cut at its flushes: a piece for each flush, and what has come since. -/
structure Pieces where
  flushed : List (List Observation)
  since : List Observation

namespace Pieces

def add (p : Pieces) : Call → Pieces
  | .observe o => ⟨p.flushed, p.since ++ [o]⟩
  | .flush => ⟨p.flushed ++ [p.since], []⟩
  | .close => p

def ofCalls (calls : List Call) : Pieces := calls.foldl add ⟨[], []⟩

theorem ofCalls_concat (calls : List Call) (call : Call) : ofCalls (calls ++ [call]) = (ofCalls calls).add call :=
  List.foldl_concat ..

/-- The records of what is taken of a piece. -/
def records (piece : List Observation) : List Record := (piece.filter Observation.isTaken).map Observation.record

theorem records_concat (piece : List Observation) (o : Observation) :
    records (piece ++ [o]) = records piece ++ if o.isTaken then [o.record] else [] := by
  rw [records, records, List.filter_append, List.map_append, List.filter_singleton]
  cases o.isTaken <;> rfl

/-- The records of the pieces of which something is taken. -/
def batches (pieces : List (List Observation)) : List (List Record) := (pieces.map records).filter (!·.isEmpty)

theorem batches_concat (pieces : List (List Observation)) (piece : List Observation) :
    batches (pieces ++ [piece]) = batches pieces ++ if (records piece).isEmpty then [] else [records piece] := by
  rw [batches, batches, List.map_append, List.filter_append, List.map_singleton, List.filter_singleton]
  cases (records piece).isEmpty <;> rfl

end Pieces

/-- How the last one of these batches fails to be sent, if it does. -/
abbrev Sender := List (List Record) → Option Failure

/-- A reporter that batches: what waits to be sent, all that was to be sent so far, and how its last call failed if it
did. -/
structure Batching where
  batch : Batch
  sent : List (List Record)
  failure : Option Failure

namespace Batching

def fresh : Batching := ⟨.empty, [], none⟩

/-- It keeps nothing of what it has tried to send. -/
def call (send : Sender) (s : Batching) (call : Call) : Batching :=
  match s.batch.meet call with
  | .error issues => { s with failure := some (Batch.refusal issues) }
  | .ok (none, after) => ⟨after, s.sent, none⟩
  | .ok (some records, after) => ⟨after, s.sent ++ [records], send (s.sent ++ [records])⟩

def serve (send : Sender) (calls : List Call) : Batching := calls.foldl (call send) fresh

/-- The calls of a batching reporter that fail. -/
def temper (send : Sender) : Course.Temper := fun calls => (serve send calls).failure

variable {send : Sender} {calls : List Call}

theorem serve_concat (send : Sender) (calls : List Call) (next : Call) :
    serve send (calls ++ [next]) = (serve send calls).call send next := List.foldl_concat ..

theorem call_observe (s : Batching) {o : Observation} (regular : o.Regular) :
    s.call send (.observe o) = ⟨⟨s.batch.pending ++ if o.isTaken then [o.record] else [], s.batch.flushes⟩, s.sent,
      if o.isTaken then none else some (Batch.refusal Record.nameRefused)⟩ := by
  rw [call, Batch.meet, s.batch.addObservation_eq regular]
  cases o.isTaken with
  | true => rfl
  | false => exact congrArg (fun pending => Batching.mk ⟨pending, _⟩ _ _) (List.append_nil _).symm

theorem call_flush (s : Batching) :
    s.call send .flush = if s.batch.pending.isEmpty then ⟨⟨[], s.batch.flushes + 1⟩, s.sent, none⟩
      else ⟨⟨[], s.batch.flushes + 1⟩, s.sent ++ [s.batch.pending], send (s.sent ++ [s.batch.pending])⟩ := by
  have flushes : s.batch.meet .flush = .ok s.batch.flush := rfl
  rw [call, flushes, Batch.flush]
  cases s.batch.pending.isEmpty <;> rfl

/-- Is everything told of metrics something that can be recorded but for its name? -/
def Regular (calls : List Call) : Prop := ∀ o, .observe o ∈ calls → o.Regular

/-- What waits is what was taken since the last flush, and every other piece was to be sent, once and whole. -/
theorem serve_pieces (send : Sender) (regular : Regular calls) :
    (serve send calls).batch = ⟨Pieces.records (Pieces.ofCalls calls).since, (Pieces.ofCalls calls).flushed.length⟩ ∧
      (serve send calls).sent = Pieces.batches (Pieces.ofCalls calls).flushed := by
  induction calls using List.reverseRecOn with
  | nil => exact ⟨rfl, rfl⟩
  | append_singleton sooner next ih =>
    obtain ⟨batch, sent⟩ := ih fun o member => regular o (List.mem_append_left _ member)
    rw [serve_concat, Pieces.ofCalls_concat]
    cases next with
    | close => exact ⟨batch, sent⟩
    | observe o =>
      rw [call_observe _ (regular o (List.mem_append_right _ (List.mem_singleton.mpr rfl))), batch, Pieces.add,
        Pieces.records_concat]
      exact ⟨rfl, sent⟩
    | flush =>
      rw [call_flush, batch, sent, Pieces.add, Pieces.batches_concat, List.length_append]
      cases (Pieces.records (Pieces.ofCalls sooner).since).isEmpty
      · exact ⟨rfl, rfl⟩
      · exact ⟨rfl, (List.append_nil _).symm⟩

theorem temper_observe (send : Sender) {o : Observation} (regular : o.Regular) :
    temper send (calls ++ [.observe o]) = if o.isTaken then none else some (Batch.refusal Record.nameRefused) := by
  rw [temper, serve_concat, call_observe _ regular]

/-- A flush fails just as the sending of its piece does, if there is something to be sent. -/
theorem temper_flush (send : Sender) (regular : Regular calls) :
    temper send (calls ++ [.flush]) = if (Pieces.records (Pieces.ofCalls calls).since).isEmpty then none
      else send (Pieces.batches ((Pieces.ofCalls calls).flushed ++ [(Pieces.ofCalls calls).since])) := by
  obtain ⟨batch, sent⟩ := serve_pieces send regular
  rw [temper, serve_concat, call_flush, batch, sent, Pieces.batches_concat]
  cases (Pieces.records (Pieces.ofCalls calls).since).isEmpty <;> rfl

end Batching

/-- A session's reporter that batches responds to every call as is told here, if the far end fails as the sending does
and leaves the reporter alone. -/
theorem Session.respond_of_batching (perform : Performer) (call : Call) {s : Session} {b : Batching} {send : Sender}
    (sink : s.sink = .batch b.batch)
    (sends : ∀ records after, (meet perform (.sent records after.flushes) { s with sink := .batch after }).1 =
      (send (b.sent ++ [records])).elim .returned .failed)
    (alone : ∀ records after,
      (meet perform (.sent records after.flushes) { s with sink := .batch after }).2.sink = .batch after) :
    (respond perform call s).1 = (b.call send call).failure.elim .returned .failed ∧
      (respond perform call s).2.sink = .batch (b.call send call).batch := by
  rw [respond_of_batch perform call sink, Batching.call]
  rcases b.batch.meet call with issues | ⟨_ | records, after⟩
  · exact ⟨rfl, sink⟩
  · exact ⟨rfl, rfl⟩
  · exact ⟨sends records after, alone records after⟩

end MetricTree
