import MetricTree.Log.Request
import MetricTree.Proofs.Batching
import MetricTree.Proofs.JsonReading
import MetricTree.Proofs.WritableValues

namespace MetricTree

namespace Table

variable {κ α : Type} [BEq κ] [LawfulBEq κ]

/-- Entries laid over others: one under a key that is there takes the place of the old one, and the rest come behind. -/
def overlaid (lower upper : List (κ × α)) : List (κ × α) :=
  lower.map (fun e => (e.1, (upper.lookup e.1).getD e.2)) ++ upper.filter fun e => !(lower.map (·.1)).contains e.1

theorem entries_insert_of_mem {t : Table κ α} {k : κ} {v : α} (distinct : t.keys.Nodup) (member : k ∈ t.keys) :
    (t.insert k v).entries = t.entries.map fun e => (e.1, if e.1 == k then v else e.2) := by
  obtain ⟨entries⟩ := t
  induction entries with
  | nil => cases member
  | cons e rest ih =>
    obtain ⟨apart, later⟩ := List.nodup_cons.mp distinct
    by_cases here : (e.1 == k) = true
    · have others : rest.map (fun x => (x.1, if x.1 == k then v else x.2)) = rest := by
        refine (List.map_congr_left fun x inside => ?_).trans (List.map_id rest)
        have other : x.1 ≠ k := fun same =>
          apart (List.mem_map.mpr ⟨x, inside, same.trans (eq_of_beq here).symm⟩)
        rw [beq_false_of_ne other]
        rfl
      simp only [insert, insertEntry, here, if_true, List.map_cons, others]
    · have inside : k ∈ keys ⟨rest⟩ := (List.mem_cons.mp member).resolve_left
        fun same => here (beq_iff_eq.mpr same.symm)
      have tail := ih later inside
      simp only [insert] at tail
      simp only [insert, insertEntry, here, Bool.false_eq_true, if_false, List.map_cons, tail]

theorem entries_overlay {left right : Table κ α} (distinct : left.keys.Nodup) (others : right.keys.Nodup) :
    (left.overlay right).entries = overlaid left.entries right.entries := by
  obtain ⟨upper⟩ := right
  induction upper generalizing left with
  | nil => exact ((List.append_nil _).trans (List.map_id left.entries)).symm
  | cons e rest ih =>
    obtain ⟨k, v⟩ := e
    obtain ⟨apart, later⟩ := List.nodup_cons.mp others
    have other : ∀ x ∈ rest, x.1 ≠ k := fun x inside same => apart (List.mem_map.mpr ⟨x, inside, same⟩)
    have absent : rest.lookup k = none :=
      List.lookup_eq_none_iff.mpr fun x inside => bne_iff_ne.mpr (other x inside).symm
    have value : ∀ x : κ × α, (rest.lookup x.1).getD (if x.1 == k then v else x.2) =
        (((k, v) :: rest).lookup x.1).getD x.2 := by
      intro x
      by_cases here : x.1 = k
      · rw [here, absent, List.lookup_cons_self, beq_self_eq_true, if_pos rfl]
        rfl
      · rw [List.lookup_cons, beq_false_of_ne here]
        rfl
    have step : (left.overlay ⟨(k, v) :: rest⟩).entries = overlaid (left.insert k v).entries rest :=
      ih (nodup_keys_insert distinct) later
    rw [step, overlaid, overlaid]
    by_cases member : k ∈ left.keys
    · have known : (left.entries.map (·.1)).contains k = true := List.contains_iff_mem.mpr member
      rw [entries_insert_of_mem distinct member, List.map_map, List.map_map, List.filter_cons, known]
      exact congr (congrArg _ (List.map_congr_left fun x _ => congrArg _ (value x))) rfl
    · have fresh : (left.entries.map (·.1)).contains k = false :=
        Bool.eq_false_iff.mpr fun known => member (List.contains_iff_mem.mp known)
      have places : left.entries.map (fun x => (x.1, (rest.lookup x.1).getD x.2)) =
          left.entries.map fun x => (x.1, (((k, v) :: rest).lookup x.1).getD x.2) := by
        refine List.map_congr_left fun x inside => congrArg _ ?_
        rw [← value x, beq_false_of_ne fun same => member (List.mem_map.mpr ⟨x, inside, same⟩)]
        rfl
      have behind : (rest.filter fun x => !(left.entries.map (·.1) ++ [k]).contains x.1) =
          rest.filter fun x => !(left.entries.map (·.1)).contains x.1 := by
        refine List.filter_congr fun x inside => congrArg _ ?_
        rw [List.contains_append, List.contains_cons, beq_false_of_ne (other x inside)]
        exact Bool.or_false _
      rw [insert_of_not_mem member, List.map_append, List.map_append, List.filter_cons, fresh, places]
      simp only [List.map_cons, List.map_nil, behind, absent]
      exact List.append_assoc ..

end Table
open Table

/-- A line shows the image of a value, or else its written form where something that JSON cannot write is inside. -/
inductive Value.ShownAs (v : Value) : Json → Prop
  | image {j : Json} (writable : ¬v.Unwritable) (image : v.image = .ok j) : ShownAs v j
  | literal {s : Text} (unwritable : v.Unwritable) (literal : v.literal = .ok s) : ShownAs v (.text s)

namespace Value

variable {v : Value}

/-- Can a line show it? If something that JSON cannot write is inside, its written form is asked for. There is none of
what holds an integer that is too long. -/
def Showable (v : Value) : Prop := v.Unwritable → ∃ s, v.literal = .ok s

/-- What stands in a line for a value that can be shown. -/
def written (v : Value) : Value := (Log.Event.writable v).toOption.getD v

/-- What a line shows of a value that can be shown. -/
def told (v : Value) : Json := v.written.image.toOption.getD .null

theorem ShownAs.written {j : Json} (shown : v.ShownAs j) :
    Log.Event.writable v = .ok v.written ∧ v.written.image = .ok j := by
  cases shown with
  | image _ image => simp [Value.written, Log.Event.writable, image, pure, Except.pure, Except.toOption]
  | @literal s unwritable literal =>
    cases image : v.image with
    | ok j => exact absurd unwritable ((exists_image v).mp ⟨j, image⟩)
    | error fault =>
      have made : Log.Event.writable v = .ok (.text s) := by
        rw [Log.Event.writable, image, literal]
        rfl
      rw [Value.written, made]
      exact ⟨rfl, rfl⟩

theorem ShownAs.eq_told {j : Json} (shown : v.ShownAs j) : j = v.told := by
  rw [told, shown.written.2]
  rfl

theorem ShownAs.showable {j : Json} (shown : v.ShownAs j) : v.Showable := by
  cases shown with
  | image writable => exact fun unwritable => absurd unwritable writable
  | literal _ literal => exact fun _ => ⟨_, literal⟩

theorem Showable.shownAs (showable : v.Showable) : v.ShownAs v.told := by
  obtain ⟨j, shown⟩ : ∃ j, v.ShownAs j := by
    by_cases unwritable : v.Unwritable
    · obtain ⟨s, literal⟩ := showable unwritable
      exact ⟨_, .literal unwritable literal⟩
    · obtain ⟨j, image⟩ := (exists_image v).mpr unwritable
      exact ⟨j, .image unwritable image⟩
  exact shown.eq_told ▸ shown

theorem showable_of_image {j : Json} (image : v.image = .ok j) : v.Showable ∧ v.told = j := by
  have shown : v.ShownAs j := .image ((exists_image v).mp ⟨j, image⟩) image
  exact ⟨shown.showable, shown.eq_told.symm⟩

theorem showable_text (s : Text) : (Value.text s).Showable := (showable_of_image rfl).1

end Value

namespace Log

namespace Timestamp

/-- The date in universal time. -/
def date (t : Timestamp) : Date := Date.ofDays ((t.microseconds.fdiv 1000000).fdiv 86400)

/-- A cycle has 400 years. -/
theorem year_ofDays (days : Int) : (days + 719468) / 146097 * 400 ≤ (Date.ofDays days).year ∧
    (Date.ofDays days).year ≤ (days + 719468) / 146097 * 400 + 401 := by
  have cycle : (days + 719468).fdiv 146097 = (days + 719468) / 146097 := Int.fdiv_eq_ediv_of_nonneg _ (by decide)
  have day : ((days + 719468).fmod 146097).toNat < 146097 := by
    rw [Int.fmod_eq_emod_of_nonneg _ (by decide)]
    omega
  rw [Date.ofDays, cycle]
  generalize ((days + 719468).fmod 146097).toNat = day at *
  simp only
  split <;> omega

/-- A point in time in a year of four digits, or less, can be told. -/
theorem exists_toText {t : Timestamp} (first : 1 ≤ t.date.year) (last : t.date.year ≤ 9999) :
    ∃ time, t.toText = .ok time := by
  obtain ⟨low, high⟩ := year_ofDays ((t.microseconds.fdiv 1000000).fdiv 86400)
  unfold toText
  extract_lets seconds fraction date second day time
  have year : date.year = t.date.year := rfl
  have days : seconds.fdiv 86400 = seconds / 86400 := Int.fdiv_eq_ediv_of_nonneg _ (by decide)
  change (seconds.fdiv 86400 + 719468) / 146097 * 400 ≤ t.date.year at low
  change t.date.year ≤ (seconds.fdiv 86400 + 719468) / 146097 * 400 + 401 at high
  rw [days] at low high
  have near : ¬(seconds < -Int.pow 2 63 ∨ Int.pow 2 63 ≤ seconds) := by
    rw [show Int.pow 2 63 = 9223372036854775808 from rfl]
    omega
  have told : ¬(date.year - 1900 < -Int.pow 2 31 ∨ Int.pow 2 31 ≤ date.year - 1900) := by
    rw [show Int.pow 2 31 = 2147483648 from rfl]
    omega
  rw [if_neg near, if_neg told, if_neg (by omega)]
  exact ⟨_, rfl⟩
end Timestamp

namespace Event

/-- The event that a logger makes of a call: the title of its level, the message with its arguments, the extras by
their names, and the report of an exception. -/
def ofCall (origin : Origin) (logger title : Text) (message : Value) (arguments : List Value)
    (extras : Table Value Value) (report? : Option Text) : Event :=
  { created := some origin.created
    level := some (.text title)
    logger := some (.text logger)
    thread := some (.text origin.thread)
    message := some message
    arguments := some (argumentsOf arguments)
    extras := named extras
    stray := strayOf extras
    cause := some (report?.elim .absent .reported) }

/-- The message with the arguments filled in, if there are any. -/
def formatted (message : Value) (arguments : List Value) : Except Fault Text := do
  let template ← message.display
  if (argumentsOf arguments).isTruthy then fillTemplate template (argumentsOf arguments) else pure template

/-- The five members that every line begins with. -/
def opening (time title logger text thread : Text) : List (Text × Value) :=
  [("timestamp", .text time), ("level", .text title), ("logger", .text logger), ("event", .text text),
    ("thread", .text thread)]

/-- The extras that a line shows. -/
def shownOf (extras : Table Value Value) : List (Text × Value) := (named extras).entries.filter fun e => isShown e.1

def reportOf (report? : Option Text) : List (Text × Value) :=
  (report?.map fun report => (↑"exception", Value.text report)).toList

variable {origin : Origin} {logger title : Text} {message : Value} {arguments : List Value}
  {extras : Table Value Value} {report? : Option Text} {moment : Timestamp} {time : String} {text : Text}

theorem text_ofCall (unshadowed : (named extras).get? messageAttribute = none) :
    (ofCall origin logger title message arguments extras report?).text = formatted message arguments := by
  unfold Event.text
  rw [show (ofCall origin logger title message arguments extras report?).extras = named extras from rfl, unshadowed]
  rfl

/-- Rows that can all be shown are shown row by row. -/
theorem mapM_writable {rows : List (Text × Value)} (showable : ∀ row ∈ rows, row.2.Showable) :
    (rows.mapM fun row => do return (row.1, ← writable row.2)) =
      (.ok (rows.map fun row => (row.1, row.2.written)) : Except Fault _) := by
  induction rows with
  | nil => rfl
  | cons row rest ih =>
    obtain ⟨first, others⟩ := List.forall_mem_cons.mp showable
    rw [List.mapM_cons, first.shownAs.written.1, ih others]
    rfl

/-- No integer inside what is written is too long. -/
theorem short_of_writable {v w : Value} {n : Int} (inside : Value.Inside (.int n) v) (written : writable v = .ok w) :
    n.natAbs < Text.leastTooLong := by
  unfold writable at written
  cases image : v.image with
  | ok j => exact Value.short_of_image inside image
  | error =>
    rw [image] at written
    obtain ⟨s, literal, _⟩ := bind_eq_ok.mp written
    exact Value.short_of_literal inside literal

theorem exists_of_mapM {α β : Type} {f : α → Except Fault β} {xs : List α} {ys : List β} (all : xs.mapM f = .ok ys) :
    ∀ x ∈ xs, ∃ y, f x = .ok y := by
  induction xs generalizing ys with
  | nil => exact List.forall_mem_nil _
  | cons x rest ih =>
    rw [List.mapM_cons] at all
    obtain ⟨y, first, others⟩ := bind_eq_ok.mp all
    obtain ⟨_, others, _⟩ := bind_eq_ok.mp others
    exact List.forall_mem_cons.mpr ⟨⟨y, first⟩, ih others⟩

/-- No line leaves out an extra that is to be shown. -/
theorem writable_of_members {e : Event} {members : Table Text Value} (made : e.members = .ok members) :
    ∀ extra ∈ e.extras.entries, isShown extra.1 = true → ∃ w, writable extra.2 = .ok w := by
  -- The extras are written last but for the cause; what comes before does not matter.
  obtain ⟨_, _, made⟩ := bind_eq_ok.mp made
  obtain ⟨_, _, made⟩ := bind_eq_ok.mp made
  obtain ⟨_, _, made⟩ := bind_eq_ok.mp made
  obtain ⟨_, _, made⟩ := bind_eq_ok.mp made
  obtain ⟨_, _, made⟩ := bind_eq_ok.mp made
  obtain ⟨_, _, made⟩ := bind_eq_ok.mp made
  obtain ⟨_, _, made⟩ := bind_eq_ok.mp made
  obtain ⟨_, _, made⟩ := bind_eq_ok.mp made
  obtain ⟨_, shown, _⟩ := bind_eq_ok.mp made
  intro extra member visible
  obtain ⟨_, row⟩ := exists_of_mapM shown extra (List.mem_filter.mpr ⟨member, visible⟩)
  obtain ⟨w, written, _⟩ := bind_eq_ok.mp row
  exact ⟨w, written⟩

theorem imageEntries_written {rows : List (Text × Value)} (showable : ∀ row ∈ rows, row.2.Showable) :
    Value.imageEntries (rows.map fun row => (.text row.1, row.2.written)) =
      .ok (rows.map fun row => (row.1, row.2.told)) := by
  induction rows with
  | nil => rfl
  | cons row rest ih =>
    obtain ⟨first, others⟩ := List.forall_mem_cons.mp showable
    rw [List.map_cons, Value.imageEntries]
    exact bind_eq_ok.mpr ⟨row.1, rfl, bind_eq_ok.mpr ⟨row.2.told, first.shownAs.written.2,
      bind_eq_ok.mpr ⟨_, ih others, rfl⟩⟩⟩

theorem ofList_map {κ α β : Type} [BEq κ] [LawfulBEq κ] (f : α → β) (entries : List (κ × α)) :
    Table.ofList (entries.map fun e => (e.1, f e.2)) = (Table.ofList entries).map f := by
  induction entries using List.reverseRecOn with
  | nil => rfl
  | append_singleton sooner e ih =>
    have last : ofList (sooner ++ [e]) = (ofList sooner).insert e.1 e.2 := List.foldl_concat ..
    rw [last, map_insert, ← ih, List.map_append]
    exact List.foldl_concat ..

/-- What is shown of rows, row by row. -/
def Shows (rows : List (Text × Value)) (members : List (Text × Json)) : Prop :=
  List.Forall₂ (fun row member => member.1 = row.1 ∧ row.2.ShownAs member.2) rows members

theorem shows_told {rows : List (Text × Value)} (showable : ∀ row ∈ rows, row.2.Showable) :
    Shows rows (rows.map fun row => (row.1, row.2.told)) :=
  List.forall₂_map_right_iff.mpr (List.forall₂_same.mpr fun row member => ⟨rfl, (showable row member).shownAs⟩)

theorem Shows.eq_told {rows : List (Text × Value)} {members : List (Text × Json)} (shows : Shows rows members) :
    members = rows.map fun row => (row.1, row.2.told) := by
  induction shows with
  | nil => rfl
  | cons first _ ih => rw [List.map_cons, ← ih, ← first.1, ← first.2.eq_told]

/-- All rows of a line, before one takes the place of another. -/
def rowsOf (time title logger text thread : Text) (extras : Table Value Value) (report? : Option Text) :
    List (Text × Value) := opening time title logger text thread ++ shownOf extras ++ reportOf report?

theorem showable_rowsOf (showable : ∀ row ∈ shownOf extras, row.2.Showable) (time title logger text thread : Text) :
    ∀ row ∈ rowsOf time title logger text thread extras report?, row.2.Showable := by
  intro row member
  rw [rowsOf, List.mem_append, List.mem_append] at member
  rcases member with (first | shown) | report
  · simp only [opening, List.mem_cons, List.not_mem_nil, or_false] at first
    rcases first with rfl | rfl | rfl | rfl | rfl <;> exact Value.showable_text _
  · exact showable row shown
  · obtain ⟨s, _, rfl⟩ := Option.map_eq_some_iff.mp (Option.mem_toList.mp report)
    exact Value.showable_text s

theorem showable_entries (showable : ∀ row ∈ shownOf extras, row.2.Showable) (time title logger text thread : Text) :
    ∀ row ∈ (Table.ofList (rowsOf time title logger text thread extras report?)).entries, row.2.Showable :=
  fun row member =>
    showable_rowsOf showable _ _ _ _ _ row ((mem_entries_overlay (t := .empty) member).resolve_left nofun)

/-- The rows of a line, one laid over the other. -/
theorem entries_rows (distinct : (named extras).keys.Nodup) (time title logger text thread : Text) :
    (Table.ofList (rowsOf time title logger text thread extras report?)).entries =
      overlaid (overlaid (opening time title logger text thread) (shownOf extras)) (reportOf report?) := by
  have names : [(↑"timestamp" : Text), ↑"level", ↑"logger", ↑"event", ↑"thread"].Nodup := by decide
  have first : (⟨opening time title logger text thread⟩ : Table Text Value).keys.Nodup := names
  have second : (⟨shownOf extras⟩ : Table Text Value).keys.Nodup :=
    distinct.sublist (List.filter_sublist.map _)
  have third : (⟨reportOf report?⟩ : Table Text Value).keys.Nodup := by
    cases report? with
    | none => exact List.nodup_nil
    | some => exact List.nodup_singleton _
  have layers : Table.ofList (rowsOf time title logger text thread extras report?) =
      ((Table.ofList (opening time title logger text thread)).overlay ⟨shownOf extras⟩).overlay ⟨reportOf report?⟩ := by
    rw [Table.ofList, rowsOf, List.foldl_append, List.foldl_append]
    rfl
  rw [layers, ofList_entries ⟨_⟩ first, entries_overlay (nodup_keys_overlay _ first) third,
    entries_overlay first second]

theorem toJson_ofCall (timed : Timestamp.ofSeconds origin.created = .ok moment) (told : moment.toText = .ok time)
    (filled : formatted message arguments = .ok text) (unshadowed : (named extras).get? messageAttribute = none)
    (straight : strayOf extras = none) (distinct : (named extras).keys.Nodup)
    (showable : ∀ row ∈ shownOf extras, row.2.Showable) :
    (ofCall origin logger title message arguments extras report?).toJson = .ok (.object
      ((overlaid (overlaid (opening time title logger text origin.thread) (shownOf extras)) (reportOf report?)).map
        fun row => (row.1, row.2.told))) := by
  have read : (ofCall origin logger title message arguments extras report?).text = .ok text :=
    (text_ofCall unshadowed).trans filled
  have cause : (report?.elim Cause.absent Cause.reported).report? = .ok report? := by
    cases report? <;> rfl
  have stray : ((strayOf extras).elim (pure ()) fun name => throw (strayFault name) : Except Fault Unit) = .ok () := by
    rw [straight]
    rfl
  have members : (ofCall origin logger title message arguments extras report?).members =
      .ok ((Table.ofList (rowsOf time title logger text origin.thread extras report?)).map Value.written) := by
    refine bind_eq_ok.mpr ⟨_, rfl, bind_eq_ok.mpr ⟨moment, timed, bind_eq_ok.mpr ⟨time, told,
      bind_eq_ok.mpr ⟨_, rfl, bind_eq_ok.mpr ⟨_, rfl, bind_eq_ok.mpr ⟨_, read, bind_eq_ok.mpr ⟨_, rfl,
      bind_eq_ok.mpr ⟨_, stray, bind_eq_ok.mpr ⟨_, mapM_writable showable, bind_eq_ok.mpr ⟨_, rfl,
      bind_eq_ok.mpr ⟨_, cause, ?_⟩⟩⟩⟩⟩⟩⟩⟩⟩⟩⟩
    rw [← ofList_map, rowsOf, List.map_append, List.map_append]
    cases report? <;> rfl
  refine bind_eq_ok.mpr ⟨_, members, ?_⟩
  rw [Table.map, ← entries_rows distinct, List.map_map, Value.image]
  exact bind_eq_ok.mpr ⟨_, imageEntries_written (showable_entries showable _ _ _ _ _), rfl⟩

/-- Only the title of the level matters for what is written. -/
theorem write_congr (c : Config) (logger : String) {level title : Value} {event other : Value → Event}
    (called : levelTitle level = .ok title) (same : event title = other title) :
    c.write logger level event = c.write logger level other := by
  unfold Config.write
  rw [called]
  dsimp only [bind, Except.bind]
  rw [same]

/-- What a log writes is the event of a call. -/
theorem emit_ofCall (c : Config) {logger : String} {level : Value} (called : levelTitle level = .ok (.text title)) :
    c.emit origin logger level message arguments extras =
      c.write logger level fun _ => ofCall origin logger title message arguments extras none := by
  exact write_congr c logger called rfl

theorem keys_named (extras : Table Value Value) : (named extras).keys = extras.keys.filterMap Value.text? := by
  rw [named, Table.keys, Table.keys, List.filterMap_map, List.map_filterMap]
  refine List.filterMap_congr fun e _ => ?_
  obtain ⟨name, v⟩ := e
  cases name <;> rfl

theorem nodup_keys_named (distinct : extras.keys.Nodup) : (named extras).keys.Nodup := by
  rw [keys_named]
  refine distinct.filterMap fun v w name left right => ?_
  cases v <;> cases left
  cases w <;> cases right
  rfl

/-- A line has no control characters below the space, and what is read from it are the five members that every line
begins with, the extras that are not hidden in their order, and the report of an exception, of which each that is
named like a member before it takes that one's place. Each is shown as it can be. -/
theorem line_reads_back (timed : Timestamp.ofSeconds origin.created = .ok moment) (first : 1 ≤ moment.date.year)
    (last : moment.date.year ≤ 9999) (filled : formatted message arguments = .ok text)
    (distinct : extras.keys.Nodup) (texts : ∀ name ∈ extras.keys, ∃ s, name = .text s ∧ s ≠ messageAttribute)
    (showable : ∀ row ∈ shownOf extras, row.2.Showable) :
    ∃ time line members, moment.toText = .ok time ∧
      (ofCall origin logger title message arguments extras report?).line = .ok line ∧
      (∀ letter ∈ line.toList, 0x20 ≤ letter.code) ∧
      Json.read? line = some (.object members) ∧
      Shows (overlaid (overlaid (opening time title logger text origin.thread) (shownOf extras)) (reportOf report?))
        members := by
  obtain ⟨time, told⟩ := Timestamp.exists_toText first last
  have unshadowed : (named extras).get? messageAttribute = none := by
    rw [get?_eq_none_iff, keys_named, List.mem_filterMap]
    rintro ⟨name, member, same⟩
    obtain ⟨s, rfl, other⟩ := texts name member
    exact other (Option.some.inj same)
  have straight : strayOf extras = none := by
    rw [strayOf, List.find?_eq_none]
    intro name member
    obtain ⟨s, rfl, _⟩ := texts name member
    exact Bool.false_ne_true
  have json : (ofCall origin logger title message arguments extras report?).toJson = _ :=
    toJson_ofCall timed told filled unshadowed straight (nodup_keys_named distinct) showable
  refine ⟨time, _, _, told, bind_eq_ok.mpr ⟨_, json, rfl⟩, Json.uncontrolled_letters _, Json.read?_print _, ?_⟩
  rw [← entries_rows (nodup_keys_named distinct)]
  exact shows_told (showable_entries showable _ _ _ _ _)

/-- Extras named like members, one that is hidden, and one of bytes. -/
theorem line_with_extras_reads_back : ∃ line,
    (ofCall ⟨.int 0, "MainThread"⟩ "statscope" "INFO" (.text "a \"b\"\n") []
      ⟨[(.text "event", .text "x"), (.text "_hidden", .int 1), (.text "exception", .null),
        (.text "parts", .tuple [.float .nan, .dict [(.int 1, .bool true)]]), (.text "raw", .list [.bytes [0]])]⟩
      (some ↑"ValueError: bad")).line = .ok line ∧
    Json.read? line = some (.object [("timestamp", .text "1970-01-01T00:00:00+00:00"), ("level", .text "INFO"),
      ("logger", .text "statscope"), ("event", .text "x"), ("thread", .text "MainThread"),
      ("exception", .text "ValueError: bad"), ("parts", .array [.float .nan, .object [("1", .bool true)]]),
      ("raw", .text "[b'\\x00']")]) := by
  let extras : Table Value Value :=
    ⟨[(.text "event", .text "x"), (.text "_hidden", .int 1), (.text "exception", .null),
      (.text "parts", .tuple [.float .nan, .dict [(.int 1, .bool true)]]), (.text "raw", .list [.bytes [0]])]⟩
  have distinct : extras.keys.Nodup := by
    simp [extras, Table.keys]
  have shown : shownOf extras = [(↑"event", .text "x"), (↑"exception", .null),
      (↑"parts", .tuple [.float .nan, .dict [(.int 1, .bool true)]]), (↑"raw", .list [.bytes [0]])] := rfl
  have raw : (Value.list [.bytes [0]]).ShownAs (.text "[b'\\x00']") :=
    .literal (Value.unwritable_list.mpr ⟨_, List.mem_singleton_self _, _, .here, rfl⟩) rfl
  have parts := @Value.showable_of_image (.tuple [.float .nan, .dict [(.int 1, .bool true)]]) _ rfl
  have null := @Value.showable_of_image .null _ rfl
  have event := @Value.showable_of_image (.text "x") _ rfl
  have showable : ∀ row ∈ shownOf extras, row.2.Showable := by
    rw [shown]
    exact List.forall_mem_cons.mpr ⟨event.1, List.forall_mem_cons.mpr ⟨null.1, List.forall_mem_cons.mpr ⟨parts.1,
      List.forall_mem_singleton.mpr raw.showable⟩⟩⟩
  obtain ⟨time, line, members, told, written, _, read, shows⟩ := @line_reads_back ⟨.int 0, "MainThread"⟩ "statscope"
    "INFO" (.text "a \"b\"\n") [] extras (some ↑"ValueError: bad") ⟨0⟩ "a \"b\"\n" rfl (by decide) (by decide) rfl
      distinct (by simp [extras, Table.keys, messageAttribute]) showable
  have date : "1970-01-01T00:00:00+00:00" = time := Except.ok.inj told
  subst date
  refine ⟨line, written, read.trans ?_⟩
  rw [shows.eq_told, shown]
  rfl

/-- An extra of the name by which a message is asked for, one that is named by no text, and an integer of more digits
than are written may be set, but nothing is written then. -/
theorem line_fails_on_extras :
    (named ⟨[(.text "getMessage", .int 5)]⟩).keys.find? takenAttributes.contains = none ∧
    (named ⟨[(.int 1, .int 2)]⟩).keys.find? takenAttributes.contains = none ∧
    (named ⟨[(.text "dropped", .int Text.leastTooLong)]⟩).keys.find? takenAttributes.contains = none ∧
    formatted (.text "m") [] = .ok "m" ∧ (⟨0⟩ : Timestamp).date.year = 1970 ∧
    (ofCall ⟨.int 0, "MainThread"⟩ "statscope" "INFO" (.text "m") [] ⟨[(.text "getMessage", .int 5)]⟩ none).line =
      .error (.notCallable "int") ∧
    (ofCall ⟨.int 0, "MainThread"⟩ "statscope" "INFO" (.text "m") [] ⟨[(.int 1, .int 2)]⟩ none).line =
      .error (.missingMethod "int" "startswith") ∧
    (ofCall ⟨.int 0, "MainThread"⟩ "statscope" "INFO" (.text "m") []
      ⟨[(.text "dropped", .int Text.leastTooLong)]⟩ none).line = .error .integerTooLong := by
  exact ⟨rfl, rfl, rfl, rfl, rfl, rfl, rfl, rfl⟩

end Event

end Log

end MetricTree
