import MetricTree.Proofs.Batching
import MetricTree.Proofs.ReservedCharacters

namespace MetricTree

/-- What a fault says where a reserved character is named whatever else the text holds. -/
def Fault.fullMessage : Fault → String
  | partReserved part text char =>
    part ++ " " ++ Text.quoted text ++ " contains reserved character " ++ Text.quoted (.singleton char)
  | fault => fault.message

theorem mapError_bind {α β : Type} (x : Except Fault α) (f : α → Except Fault β) (say : Fault → String) :
    (x >>= f).mapError say = x.mapError say >>= fun a => (f a).mapError say := by
  cases x <;> rfl

namespace Identity

/-- What can be embedded in an identity: a text without reserved characters. -/
def IsPart (v : Value) : Prop := ∃ s, v = .text s ∧ Plain s

/-- The parts of tags with what they are called: each key, and then its value. -/
def partsOf (entries : List (Value × Value)) : List (String × Value) :=
  entries.flatMap fun entry => [("tag key", entry.1), ("tag value", entry.2)]

/-- A check of a part, which is told under what it is called. -/
abbrev Check := String → Value → Except Fault Text

/-- Looks for the reserved characters one after the other. -/
def checkInTurn (order : List Letter) : Check
  | part, .text s => (order.find? s.toList.contains).elim (pure s) fun c => throw (.partReserved part s c)
  | part, v => throw (.partNotText part v.typeName)

/-- Checks entry by entry, and stores each one that is accepted. -/
def gatherTags (check : Check) : Tags → List (Value × Value) → Except Fault Tags
  | found, [] => pure found
  | found, (key, value) :: rest => do
    let k ← check "tag key" key
    let v ← check "tag value" value
    gatherTags check (found.insert k v) rest

/-- A check that accepts just what can be embedded, as it is. -/
structure Check.Exact (check : Check) : Prop where
  eq_ok : ∀ {part s v}, check part v = .ok s ↔ v = .text s ∧ Plain s

variable {check other : Check} {order : List Letter} {found : Tags} {entries : List (Value × Value)}
  {part : String} {s : Text} {v : Value} {fault : Fault}

theorem Check.Exact.isOk_iff (exact : check.Exact) : (∃ s, check part v = .ok s) ↔ IsPart v :=
  exists_congr fun _ => exact.eq_ok

theorem Check.Exact.isOk_or_error (exact : check.Exact) (part : String) (v : Value) :
    IsPart v ∨ ∃ fault, check part v = .error fault := by
  cases checked : check part v with
  | ok s => exact .inl (exact.isOk_iff.mp ⟨s, checked⟩)
  | error fault => exact .inr ⟨fault, rfl⟩

/-- Whatever the order of all reserved characters, none of them is found just if there is none. -/
theorem find?_eq_none_iff_plain (all : order.Perm Fault.reservedCharacters) :
    order.find? s.toList.contains = none ↔ Plain s := by
  simp only [List.find?_eq_none, List.contains_iff_mem, Plain, isReserved, Bool.eq_false_iff, ne_eq, all.mem_iff]
  exact ⟨fun fresh c member choice => fresh c choice member, fun fresh c choice member => fresh c member choice⟩

theorem checkInTurn_eq_error (all : order.Perm Fault.reservedCharacters)
    (run : checkInTurn order part v = .error fault) :
    (v.text? = none ∧ fault = .partNotText part v.typeName) ∨
      ∃ s c, v = .text s ∧ c ∈ s.toList ∧ isReserved c = true ∧ fault = .partReserved part s c := by
  cases v with
  | text s =>
    rw [checkInTurn] at run
    cases found : order.find? s.toList.contains with
    | none =>
      rw [found] at run
      cases run
    | some c =>
      rw [found] at run
      cases run
      refine .inr ⟨s, c, rfl, List.contains_iff_mem.mp (List.find?_some found), ?_, rfl⟩
      exact List.contains_iff_mem.mpr (all.mem_iff.mp (List.mem_of_find?_eq_some found))
  | _ =>
    cases run
    exact .inl ⟨rfl, rfl⟩

theorem exact_checkInTurn (all : order.Perm Fault.reservedCharacters) : Check.Exact (checkInTurn order) := by
  refine ⟨@fun part s v => ⟨?_, ?_⟩⟩
  · intro run
    cases v with
    | text t =>
      rw [checkInTurn] at run
      cases found : order.find? t.toList.contains with
      | none =>
        rw [found] at run
        cases run
        exact ⟨rfl, (find?_eq_none_iff_plain all).mp found⟩
      | some c =>
        rw [found] at run
        cases run
    | _ => cases run
  · rintro ⟨rfl, plain⟩
    rw [checkInTurn, (find?_eq_none_iff_plain all).mpr plain]
    rfl

theorem message_partReserved (part : String) (s : Text) (c : Letter) : (Fault.partReserved part s c).message =
    part ++ " " ++ Text.quoted s ++ " contains reserved character " ++
      Text.quoted (.singleton (Fault.reservedNamed ↑(part ++ " " ++ Text.quoted s) c)) := rfl

/-- Whichever reserved character of a text is found, the same is told. -/
theorem message_partReserved_eq {c d : Letter} (plain : Plain part) (member : c ∈ s.toList)
    (reserved : isReserved c = true) (inside : d ∈ s.toList) (known : isReserved d = true) :
    (Fault.partReserved part s c).message = (Fault.partReserved part s d).message := by
  by_cases same : c = d
  · rw [same]
  · have several (e : Letter) : ¬∀ f ∈ s.toList, isReserved f = true → f = e := fun single =>
      same ((single c member reserved).trans (single d inside known).symm)
    rw [message_partReserved, message_partReserved, (Fault.reservedNamed_quoted plain member reserved).2 (several c),
      (Fault.reservedNamed_quoted plain inside known).2 (several d)]

/-- Looking for the characters in turn tells the same as going through the text. -/
theorem message_checkInTurn (all : order.Perm Fault.reservedCharacters) (plain : Plain part) (v : Value) :
    (checkPart part v).mapError Fault.message = (checkInTurn order part v).mapError Fault.message := by
  cases v with
  | text s =>
    cases found : s.toList.find? isReserved with
    | none =>
      have free : Plain s := fun c member => Bool.not_eq_true _ ▸ List.find?_eq_none.mp found c member
      rw [checkPart_text_of_plain free, (exact_checkInTurn all).eq_ok.mpr ⟨rfl, free⟩]
    | some c =>
      have member := List.mem_of_find?_eq_some found
      have reserved := List.find?_some found
      have refused : checkPart part (.text s) = .error (.partReserved part s c) := by
        rw [checkPart, found]
        rfl
      rcases (exact_checkInTurn all).isOk_or_error part (.text s) with ⟨_, ⟨⟩, free⟩ | ⟨fault, turned⟩
      · exact absurd member (free.not_mem reserved)
      · rcases checkInTurn_eq_error all turned with ⟨⟨⟩, _⟩ | ⟨_, d, ⟨⟩, inside, known, rfl⟩
        rw [refused, turned]
        exact congrArg Except.error (message_partReserved_eq plain member reserved inside known)
  | _ => rfl

/-- A fault is that of the first part that is not accepted. -/
def FirstFault (check : Check) (parts : List (String × Value)) (fault : Fault) : Prop :=
  ∃ sooner part v later, parts = sooner ++ (part, v) :: later ∧ (∀ p ∈ sooner, IsPart p.2) ∧ check part v = .error fault

theorem firstFault_cons (exact : check.Exact) {rest : List (String × Value)} :
    FirstFault check ((part, v) :: rest) fault ↔
      check part v = .error fault ∨ ∃ s, check part v = .ok s ∧ FirstFault check rest fault := by
  constructor
  · rintro ⟨sooner, offender, w, later, split, accepted, refused⟩
    cases sooner with
    | nil =>
      cases split
      exact .inl refused
    | cons p before =>
      cases split
      obtain ⟨first, others⟩ := List.forall_mem_cons.mp accepted
      obtain ⟨s, checked⟩ := exact.isOk_iff.mpr first
      exact .inr ⟨s, checked, before, offender, w, later, rfl, others, refused⟩
  · rintro (refused | ⟨s, checked, sooner, offender, w, later, rfl, accepted, refused⟩)
    · exact ⟨[], part, v, rest, rfl, List.forall_mem_nil _, refused⟩
    · refine ⟨(part, v) :: sooner, offender, w, later, rfl, List.forall_mem_cons.mpr ⟨?_, accepted⟩, refused⟩
      exact exact.isOk_iff.mp ⟨s, checked⟩

theorem gatherTags_eq_error (exact : check.Exact) :
    gatherTags check found entries = .error fault ↔ FirstFault check (partsOf entries) fault := by
  induction entries generalizing found with
  | nil =>
    refine ⟨nofun, ?_⟩
    rintro ⟨sooner, _, _, _, split, _⟩
    cases (List.append_eq_nil_iff.mp split.symm).2
  | cons entry rest ih =>
    have parts : partsOf (entry :: rest) = ("tag key", entry.1) :: ("tag value", entry.2) :: partsOf rest := rfl
    rw [parts]
    simp only [gatherTags, bind_eq_error, firstFault_cons exact, ih]

theorem plain_of_mem_partsOf (member : (part, v) ∈ partsOf entries) : Plain part := by
  obtain ⟨entry, _, called⟩ := List.mem_flatMap.mp member
  rcases List.mem_pair.mp called with same | same <;> cases same <;> decide

theorem accepted_or_firstFault (exact : check.Exact) (parts : List (String × Value)) :
    (∀ p ∈ parts, IsPart p.2) ∨ ∃ fault, FirstFault check parts fault := by
  induction parts with
  | nil => exact .inl (List.forall_mem_nil _)
  | cons p rest ih =>
    rcases exact.isOk_or_error p.1 p.2 with first | ⟨fault, refused⟩
    · refine ih.imp (fun others => List.forall_mem_cons.mpr ⟨first, others⟩) ?_
      rintro ⟨fault, later⟩
      obtain ⟨s, checked⟩ := exact.isOk_iff.mpr first
      exact ⟨fault, (firstFault_cons exact).mpr (.inr ⟨s, checked, later⟩)⟩
    · exact .inr ⟨fault, (firstFault_cons exact).mpr (.inl refused)⟩

/-- Parts that can all be embedded are the parts of tags. -/
theorem exists_given_of_accepted (accepted : ∀ p ∈ partsOf entries, IsPart p.2) :
    ∃ tags : Tags, entries = tags.given.entries ∧ PlainTags tags := by
  induction entries with
  | nil => exact ⟨.empty, rfl, List.forall_mem_nil _⟩
  | cons entry rest ih =>
    obtain ⟨⟨k, key, plainKey⟩, values⟩ := List.forall_mem_cons.mp accepted
    obtain ⟨⟨v, value, plainValue⟩, others⟩ := List.forall_mem_cons.mp values
    obtain ⟨⟨pairs⟩, rfl, plain⟩ := ih others
    refine ⟨⟨(k, v) :: pairs⟩, ?_, List.forall_mem_cons.mpr ⟨⟨plainKey, plainValue⟩, plain⟩⟩
    exact congrArg (· :: _) (Prod.ext key value)

theorem gatherTags_given (exact : check.Exact) {tags : Tags} (plain : PlainTags tags) :
    gatherTags check found tags.given.entries = .ok (found.overlay tags) := by
  obtain ⟨pairs⟩ := tags
  induction pairs generalizing found with
  | nil => rfl
  | cons pair rest ih =>
    obtain ⟨⟨plainKey, plainValue⟩, others⟩ := List.forall_mem_cons.mp plain
    have next := @ih (found.insert pair.1 pair.2) others
    simp only [Tags.given, List.map_cons, gatherTags, exact.eq_ok.mpr ⟨rfl, plainKey⟩,
      exact.eq_ok.mpr ⟨rfl, plainValue⟩] at next ⊢
    exact next

theorem gatherTags_checkPart (entries : List (Value × Value)) :
    gatherTags checkPart found entries = (checkTagEntries entries).map fun pairs => found.overlay ⟨pairs⟩ := by
  induction entries generalizing found with
  | nil => rfl
  | cons entry rest ih =>
    rw [gatherTags, checkTagEntries]
    cases checkPart "tag key" entry.1 with
    | error fault => rfl
    | ok k =>
      cases checkPart "tag value" entry.2 with
      | error fault => rfl
      | ok v =>
        change gatherTags checkPart (found.insert k v) rest = _
        rw [ih]
        cases checkTagEntries rest <;> rfl

theorem message_gatherTags (same : ∀ part : String, Plain part → ∀ v,
      (check part v).mapError Fault.message = (other part v).mapError Fault.message) :
    (gatherTags check found entries).mapError Fault.message =
      (gatherTags other found entries).mapError Fault.message := by
  induction entries generalizing found with
  | nil => rfl
  | cons entry rest ih =>
    simp only [gatherTags, mapError_bind, same "tag key" (by decide), same "tag value" (by decide), ih]

theorem overlay_empty {tags : Tags} (distinct : tags.keys.Nodup) : Table.empty.overlay tags = tags :=
  tags.ofList_entries distinct

theorem checkTags_eq_gatherTags {tags : Table Value Value} (distinct : tags.keys.Nodup) :
    checkTags tags = gatherTags checkPart .empty tags.entries := by
  rw [gatherTags_checkPart, checkTags]
  cases checked : checkTagEntries tags.entries with
  | error fault => rfl
  | ok pairs =>
    have given : tags = Tags.given ⟨pairs⟩ := congrArg Table.mk (checkTagEntries_eq_ok.mp checked).1
    rw [given, Tags.nodup_keys_given] at distinct
    exact congrArg Except.ok (overlay_empty distinct).symm

/-- Tags are accepted just if all their parts are. -/
theorem gatherTags_isOk_iff (exact : check.Exact) :
    (∃ tags, gatherTags check found entries = .ok tags) ↔ ∀ p ∈ partsOf entries, IsPart p.2 := by
  constructor
  · rintro ⟨tags, run⟩
    rcases accepted_or_firstFault exact (partsOf entries) with accepted | ⟨fault, first⟩
    · exact accepted
    · cases run.symm.trans ((gatherTags_eq_error exact).mpr first)
  · intro accepted
    obtain ⟨tags, rfl, plain⟩ := exists_given_of_accepted accepted
    exact ⟨_, gatherTags_given exact plain⟩

theorem gatherTags_empty_eq_ok (exact : check.Exact) {tags : Table Value Value} (distinct : tags.keys.Nodup) :
    gatherTags check .empty tags.entries = .ok found ↔ tags = found.given ∧ PlainTags found := by
  constructor
  · intro run
    obtain ⟨pairs, given, plain⟩ := exists_given_of_accepted ((gatherTags_isOk_iff exact).mp ⟨found, run⟩)
    have same : tags = pairs.given := congrArg Table.mk given
    rw [same, Tags.nodup_keys_given] at distinct
    rw [same, gatherTags_given exact plain, overlay_empty distinct] at run
    cases run
    exact ⟨same, plain⟩
  · rintro ⟨rfl, plain⟩
    rw [gatherTags_given exact plain, overlay_empty (Tags.nodup_keys_given.mp distinct)]

/-- Tags are accepted, pair for pair and in their order, just if every key and every value can be embedded. Otherwise
the first part that cannot be embedded, in the order of the keys with each one's value behind it, is told: if it is no
text, with its type, and else in quotes and with a reserved character that it holds. Which one of several that is
depends on the order in which they are looked for, but then none is shown. -/
theorem first_offender_told (all : order.Perm Fault.reservedCharacters) {tags : Table Value Value}
    (distinct : tags.keys.Nodup) :
    let run := gatherTags (checkInTurn order) .empty tags.entries
    (checkTags tags).mapError Fault.message = run.mapError Fault.message ∧
    (∀ found, run = .ok found ↔ tags = found.given ∧ PlainTags found) ∧
    ((∃ found, run = .ok found) ↔ ∀ p ∈ partsOf tags.entries, IsPart p.2) ∧
    ∀ fault, run = .error fault →
      ∃ sooner part v later, partsOf tags.entries = sooner ++ (part, v) :: later ∧ (∀ p ∈ sooner, IsPart p.2) ∧
        ((v.text? = none ∧ fault = .partNotText part v.typeName ∧
            fault.fullMessage = part ++ " must be a string, got " ++ v.typeName) ∨
          ∃ s c, v = .text s ∧ c ∈ s.toList ∧ isReserved c = true ∧ fault = .partReserved part s c ∧
            fault.fullMessage = part ++ " " ++ Text.quoted s ++ " contains reserved character " ++
              Text.quoted (.singleton c) ∧
            ((∀ d ∈ s.toList, isReserved d = true → d = c) → fault.message = fault.fullMessage)) := by
  intro run
  have exact := exact_checkInTurn all
  refine ⟨?_, fun found => gatherTags_empty_eq_ok exact distinct, gatherTags_isOk_iff exact, ?_⟩
  · rw [checkTags_eq_gatherTags distinct]
    exact message_gatherTags fun part plain => message_checkInTurn all plain
  · intro fault refused
    obtain ⟨sooner, part, v, later, split, accepted, checked⟩ := (gatherTags_eq_error exact).mp refused
    refine ⟨sooner, part, v, later, split, accepted, ?_⟩
    rcases checkInTurn_eq_error all checked with ⟨other, rfl⟩ | ⟨s, c, rfl, member, reserved, rfl⟩
    · exact .inl ⟨other, rfl, rfl⟩
    · refine .inr ⟨s, c, rfl, member, reserved, rfl, rfl, fun single => ?_⟩
      have called : (part, Value.text s) ∈ partsOf tags.entries :=
        split ▸ List.mem_append_right _ List.mem_cons_self
      rw [message_partReserved, (Fault.reservedNamed_quoted (plain_of_mem_partsOf called) member reserved).1 single]
      rfl

/-- A key with two reserved characters comes before a value that is no text. The comma is found first, and not shown. -/
theorem first_offender_told_mixed :
    let order : List Letter := [',', '=', '+']
    let tags : Table Value Value := ⟨[(.text "k", .text "v"), (.text "a=b,c", .int 7), (.int 1, .text "w")]⟩
    order.Perm Fault.reservedCharacters ∧ tags.keys.Nodup ∧
      gatherTags (checkInTurn order) .empty tags.entries = .error (.partReserved "tag key" "a=b,c" ',') ∧
      (Fault.partReserved "tag key" "a=b,c" ',').fullMessage = "tag key 'a=b,c' contains reserved character ','" ∧
      (checkTags tags).mapError Fault.message = .error "tag key 'a=b,c' contains reserved character '*'" := by
  intro order tags
  have all : order.Perm Fault.reservedCharacters := by decide
  have distinct : tags.keys.Nodup := by
    simp [tags, Table.keys]
  have run : gatherTags (checkInTurn order) .empty tags.entries = .error (.partReserved "tag key" "a=b,c" ',') := rfl
  obtain ⟨told, _⟩ := first_offender_told all distinct
  refine ⟨all, distinct, run, by decide, told.trans ?_⟩
  rw [run]
  exact congrArg Except.error (by decide)

end Identity

end MetricTree
