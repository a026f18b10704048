import MetricTree.Proofs.JsonNumbers

namespace MetricTree.Json

theorem escaped?_of_escapeLetter? {c letter : Char} (found : escapeLetter? c = some letter) :
    escaped? letter = some c ∧ letter ≠ 'u' := by
  unfold escapeLetter? at found
  split at found <;> cases found <;> decide

theorem hexNumber?_hexDigits {n : Nat} (small : n < 0x20) : hexNumber? ((Text.hexDigits 4 n).map .char) = some n := by
  revert n
  decide

/-- A letter as it stands in a text: control characters that have no letter of their own stand by number. -/
def unitOf : Letter → CodeUnit
  | .half n => .plain (.half n)
  | .char c => if escapeLetter? c = none ∧ c.toNat < 0x20 then .numbered c.toNat else .plain c

theorem units?_letter {c letter : Char} {rest : List Letter} (stands : escaped? letter = some c)
    (other : letter ≠ 'u') :
    units? (.char '\\' :: .char letter :: rest) = (units? rest).map fun read => (.plain c :: read.1, read.2) := by
  rw [units?, stands, Option.bind_some]
  exact fun _ _ _ _ _ same => absurd (Letter.char.inj same) other

theorem units?_plain {letter : Letter} {rest : List Letter} (quote : letter ≠ .char '"')
    (backslash : letter ≠ .char '\\') (printable : ¬letter.code < 0x20) :
    units? (letter :: rest) = (units? rest).map fun read => (.plain letter :: read.1, read.2) := by
  rw [units?, if_neg printable]
  · exact quote
  · exact fun _ _ _ _ _ same _ => backslash same
  · exact fun _ _ same _ => backslash same

theorem units?_escape (letter : Letter) (rest : List Letter) :
    units? (escape letter ++ rest) = (units? rest).map fun read => (unitOf letter :: read.1, read.2) := by
  cases letter with
  | half n => exact units?_plain nofun nofun (by rw [Letter.code]; omega)
  | char c =>
    simp only [escape, unitOf]
    split
    · next letter found =>
      obtain ⟨stands, other⟩ := escaped?_of_escapeLetter? found
      rw [if_neg (by simp [found])]
      exact units?_letter stands other
    · next plain =>
      split
      · next small =>
        obtain ⟨a, b, d, e, digits⟩ : ∃ a b d e, (Text.hexDigits 4 c.toNat).map Letter.char = [a, b, d, e] :=
          ⟨_, _, _, _, rfl⟩
        have number := hexNumber?_hexDigits small
        rw [digits] at number
        rw [if_pos ⟨plain, small⟩, List.map_cons, List.map_cons, digits]
        calc units? (.char '\\' :: .char 'u' :: a :: b :: d :: e :: rest)
          _ = (units? rest).map fun read => (.numbered c.toNat :: read.1, read.2) := by
            rw [units?, number, Option.bind_some]
      · next printable =>
        rw [if_neg fun both => printable both.2]
        refine units?_plain ?_ ?_ printable <;> rintro ⟨⟩ <;> cases plain

theorem units?_quoted (letters rest : List Letter) :
    units? (letters.flatMap escape ++ .char '"' :: rest) = some (letters.map unitOf, rest) := by
  induction letters with
  | nil => rfl
  | cons letter letters ih => rw [List.flatMap_cons, List.append_assoc, units?_escape, ih]; rfl

/-- A letter that stands by number is no half of a pair. -/
theorem unitOf_cases (letter : Letter) :
    unitOf letter = .plain letter ∨ ∃ n < 0x20, unitOf letter = .numbered n ∧ Letter.ofCode n = letter := by
  cases letter with
  | half n => exact .inl rfl
  | char c =>
    rw [unitOf]
    split
    · next control =>
      refine .inr ⟨_, control.2, rfl, ?_⟩
      rw [Letter.ofCode, dif_neg (by omega), Char.ofNat_toNat]
    · exact .inl rfl

theorem lettersOfUnits_unitOf (letters : List Letter) : lettersOfUnits (letters.map unitOf) = letters := by
  induction letters with
  | nil => rfl
  | cons letter letters ih =>
    rw [List.map_cons]
    rcases unitOf_cases letter with plain | ⟨n, small, numbered, stands⟩
    · rw [plain, lettersOfUnits, ih]
    · rw [numbered]
      cases letters with
      | nil => rw [List.map_nil, lettersOfUnits, stands]
      | cons next letters =>
        rw [List.map_cons] at ih ⊢
        rcases unitOf_cases next with plain | ⟨m, _, numbered, _⟩
        · rw [plain, lettersOfUnits] at ih
          rw [plain, lettersOfUnits, ih, stands]
        · rw [numbered] at ih ⊢
          rw [lettersOfUnits, if_neg (by omega), ih, stands]

mutual

/-- The tokens of a value's text. -/
def tokens : Json → List Token
  | .array items => .openArray :: itemTokens items ++ [.closeArray]
  | .object members => .openObject :: memberTokens members ++ [.closeObject]
  | .null => [.scalar .null]
  | .bool b => [.scalar (.bool b)]
  | .int n => [.scalar (.int n)]
  | .float x => [.scalar (.float x)]
  | .text s => [.scalar (.text s)]
termination_by structural j => j

def itemTokens : List Json → List Token
  | [] => []
  | [item] => tokens item
  | item :: rest => tokens item ++ .comma :: itemTokens rest
termination_by structural items => items

def memberTokens : List (Text × Json) → List Token
  | [] => []
  | [(name, value)] => .scalar (.text name) :: .colon :: tokens value
  | (name, value) :: rest => .scalar (.text name) :: .colon :: tokens value ++ .comma :: memberTokens rest
termination_by structural members => members

end

/-- Letters in front of which no word goes on. -/
def Ends (letters : List Letter) : Prop := ∀ letter ∈ letters.head?, isWordLetter letter = false

theorem ends_cons {letter : Letter} {letters : List Letter} (other : isWordLetter letter = false) :
    Ends (letter :: letters) := by
  intro d same
  rwa [← Option.some.inj same]

/-- Whatever stands behind, the text begins with these tokens. -/
def Reads (letters : List Letter) (first : List Token) : Prop :=
  ∀ ⦃rest : List Letter⦄, Ends rest → tokens? (letters ++ rest) = (tokens? rest).map (first ++ ·)

namespace Reads

variable {cs ds : List Letter} {first second : List Token}

theorem nil : Reads [] [] := fun _ _ => Option.map_id'.symm

theorem blank (reads : Reads cs first) : Reads (.char ' ' :: cs) first := by
  intro rest ends
  rw [List.cons_append, tokens?, if_pos (by decide)]
  exact reads ends

theorem mark {letter : Letter} {mark : Token} (reads : Reads cs first) (visible : isBlank letter = false)
    (found : Token.mark? letter = some mark) : Reads (letter :: cs) (mark :: first) := by
  intro rest ends
  rw [List.cons_append, tokens?, if_neg (by rw [visible]; decide)]
  simp only [found]
  rw [reads ends, Option.map_map]
  rfl

theorem append (reads : Reads cs first) (next : Reads ds second) (apart : ∀ rest, Ends (ds ++ rest)) :
    Reads (cs ++ ds) (first ++ second) := by
  intro rest ends
  rw [List.append_assoc, reads (apart rest), next ends, Option.map_map]
  exact congrArg (Option.map · (tokens? rest)) (funext fun tokens => (List.append_assoc ..).symm)

theorem quoted (s : Text) : Reads (quotedLetters s) [.scalar (.text s)] := by
  intro rest _
  have read : units? (s.toList.flatMap escape ++ [.char '"'] ++ rest) = some (s.toList.map unitOf, rest) := by
    rw [List.append_assoc]
    exact units?_quoted _ _
  have unmarked : Token.mark? (.char '"') = none := rfl
  rw [quotedLetters, List.cons_append, List.cons_append, tokens?, if_neg (by decide)]
  simp only [unmarked, if_true]
  split
  · next missing => cases missing.symm.trans read
  · next units found =>
    obtain rfl := Option.some.inj (found.symm.trans read)
    rw [lettersOfUnits_unitOf, Option.map_eq_bind]
    rfl

end Reads

theorem IsWord.ne_nil {cs : List Char} {j : Json} (word : IsWord cs j) : cs ≠ [] := by
  rintro rfl
  cases word.read

/-- What stands in words stands nowhere else outside texts. -/
theorem unmarked_of_isWordChar {c : Char} (inWord : isWordChar c = true) :
    isBlank c = false ∧ Token.mark? c = none ∧ c ≠ '"' := by
  have other : ∀ d, isWordChar d = false → c ≠ d := fun d outside same => by
    rw [same, outside] at inWord
    cases inWord
  refine ⟨?_, List.lookup_eq_none_iff.mpr ?_, other _ rfl⟩
  · refine Bool.eq_false_iff.mpr fun blank => ?_
    have outside : ∀ d ∈ [' ', '\n', '\r', '\t'], isWordChar d = false := fun d inside =>
      Bool.eq_false_iff.mpr (List.any_eq_false.mp (by decide) d inside)
    exact other c (outside c (List.contains_iff_mem.mp blank)) rfl
  · have outside : ∀ d ∈ ['[', ']', '\x7b', '\x7d', ',', ':'], isWordChar d = false := fun d inside =>
      Bool.eq_false_iff.mpr (List.any_eq_false.mp (by decide) d inside)
    intro entry member
    exact bne_iff_ne.mpr (other _ (outside _ (List.mem_map_of_mem member)))

theorem IsWord.reads {cs : List Char} {j : Json} (word : IsWord cs j) : Reads (cs.map .char) [.scalar j] := by
  intro rest ends
  obtain ⟨c, cs, rfl⟩ := List.exists_cons_of_ne_nil word.ne_nil
  obtain ⟨front, others⟩ := List.forall_mem_cons.mp word.chars
  obtain ⟨visible, unmarked, unquoted⟩ := unmarked_of_isWordChar front
  have unquoted : Letter.char c ≠ .char '"' := fun same => unquoted (Letter.char.inj same)
  have others : ∀ letter ∈ cs.map Letter.char, isWordLetter letter = true := List.forall_mem_map.mpr others
  have chars : (Letter.char c :: cs.map Letter.char).mapM Letter.char? = some (c :: cs) :=
    Text.mapM_char?_eq_some.mpr rfl
  rw [List.map_cons, List.cons_append, tokens?, if_neg (by rw [visible]; decide)]
  simp only [unmarked, if_neg unquoted, takeWhile_append_of_stop others ends, dropWhile_append_of_stop others ends]
  rw [chars, Option.bind_some, word.read, Option.bind_eq_bind, Option.bind_some, Option.map_eq_bind]
  rfl

mutual

theorem reads_letters : (j : Json) → Reads (letters j) (tokens j)
  | .null => (⟨rfl, List.all_eq_true.mp rfl⟩ : IsWord ['n', 'u', 'l', 'l'] .null).reads
  | .bool true => (⟨rfl, List.all_eq_true.mp rfl⟩ : IsWord ['t', 'r', 'u', 'e'] (.bool true)).reads
  | .bool false => (⟨rfl, List.all_eq_true.mp rfl⟩ : IsWord ['f', 'a', 'l', 's', 'e'] (.bool false)).reads
  | .int n => (isWord_int n).reads
  | .float x => (isWord_float x).reads
  | .text s => .quoted s
  | .array items =>
    have closing : Reads [.char ']'] [.closeArray] := Reads.nil.mark rfl rfl
    ((reads_itemLetters items).append closing fun _ => ends_cons rfl).mark rfl rfl
  | .object members =>
    have closing : Reads [.char '\x7d'] [.closeObject] := Reads.nil.mark rfl rfl
    ((reads_memberLetters members).append closing fun _ => ends_cons rfl).mark rfl rfl
termination_by structural j => j

theorem reads_itemLetters : (items : List Json) → Reads (itemLetters items) (itemTokens items)
  | [] => .nil
  | [item] => reads_letters item
  | item :: next :: items =>
    have later : Reads (.char ',' :: .char ' ' :: itemLetters (next :: items)) (.comma :: itemTokens (next :: items)) :=
      (reads_itemLetters (next :: items)).blank.mark rfl rfl
    (reads_letters item).append later fun _ => ends_cons rfl
termination_by structural items => items

theorem reads_memberLetters : (members : List (Text × Json)) → Reads (memberLetters members) (memberTokens members)
  | [] => .nil
  | [(name, value)] =>
    have named : Reads (.char ':' :: .char ' ' :: letters value) (.colon :: tokens value) :=
      (reads_letters value).blank.mark rfl rfl
    (Reads.quoted name).append named fun _ => ends_cons rfl
  | (name, value) :: next :: members =>
    have named : Reads (.char ':' :: .char ' ' :: letters value) (.colon :: tokens value) :=
      (reads_letters value).blank.mark rfl rfl
    have later : Reads (.char ',' :: .char ' ' :: memberLetters (next :: members))
        (.comma :: memberTokens (next :: members)) :=
      (reads_memberLetters (next :: members)).blank.mark rfl rfl
    ((Reads.quoted name).append named fun _ => ends_cons rfl).append later fun _ => ends_cons rfl
termination_by structural members => members

end

/-- The way that tokens lead from one place to another. -/
def Leads (first : List Token) (p q : Place) : Prop := first.foldlM Place.next? p = some q

namespace Leads

variable {first second : List Token} {token : Token} {p q r : Place}

theorem cons (enters : p.next? token = some q) (leads : Leads first q r) : Leads (token :: first) p r := by
  rw [Leads, List.foldlM_cons, enters]
  exact leads

theorem append (leads : Leads first p q) (further : Leads second q r) : Leads (first ++ second) p r := by
  rw [Leads, List.foldlM_append, leads]
  exact further

theorem single (enters : p.next? token = some q) : Leads [token] p q := cons enters rfl

end Leads

/-- No value begins with the end of an array. -/
theorem exists_tokens_eq_cons (j : Json) : ∃ token rest, tokens j = token :: rest ∧ token ≠ .closeArray := by
  cases j <;> exact ⟨_, _, rfl, nofun⟩

theorem next?_inArray {token : Token} {frames : List Frame} (other : token ≠ .closeArray) :
    (Place.inArray frames).next? token = (Place.value (.array [] :: frames)).next? token := by
  cases token with
  | closeArray => exact absurd rfl other
  | _ => rfl

theorem leads_inArray {items : List Json} {rest : List Token} {frames : List Frame} {p : Place} (filled : items ≠ [])
    (leads : Leads (itemTokens items ++ rest) (.value (.array [] :: frames)) p) :
    Leads (itemTokens items ++ rest) (.inArray frames) p := by
  obtain ⟨token, later, split, other⟩ : ∃ token later, itemTokens items = token :: later ∧ token ≠ .closeArray := by
    obtain ⟨item, items, rfl⟩ := List.exists_cons_of_ne_nil filled
    obtain ⟨token, later, split, other⟩ := exists_tokens_eq_cons item
    cases items with
    | nil => exact ⟨token, later, split, other⟩
    | cons => exact ⟨token, _, congrArg (· ++ _) split, other⟩
  rw [split] at leads ⊢
  rw [Leads, List.cons_append, List.foldlM_cons, next?_inArray other]
  exact leads

theorem leads_inObject {members : List (Text × Json)} {rest : List Token} {frames : List Frame} {p : Place}
    (filled : members ≠ []) (leads : Leads (memberTokens members ++ rest) (.member [] frames) p) :
    Leads (memberTokens members ++ rest) (.inObject frames) p := by
  obtain ⟨_, members, rfl⟩ := List.exists_cons_of_ne_nil filled
  cases members <;> exact leads

theorem leads_member {name : Text} {first : List Token} {done : List (Text × Json)} {frames : List Frame}
    {p : Place}
    (leads : Leads first (.value (.object done name :: frames)) p) :
    Leads (.scalar (.text name) :: .colon :: first) (.member done frames) p :=
  .cons rfl (.cons rfl leads)

mutual

theorem leads_tokens : (j : Json) → (frames : List Frame) → Leads (tokens j) (.value frames) (.behind j frames)
  | .null, _ => rfl
  | .bool _, _ => rfl
  | .int _, _ => rfl
  | .float _, _ => rfl
  | .text _, _ => rfl
  | .array items, frames => by
    by_cases empty : items = []
    · rw [empty]; rfl
    · exact .cons rfl (leads_inArray empty (leads_itemTokens items empty [] frames))
  | .object members, frames => by
    by_cases empty : members = []
    · rw [empty]; rfl
    · exact .cons rfl (leads_inObject empty (leads_memberTokens members empty [] frames))
termination_by structural j => j

/-- The way through items of an array behind those that are done. -/
theorem leads_itemTokens : (items : List Json) → items ≠ [] → (done : List Json) → (frames : List Frame) →
    Leads (itemTokens items ++ [.closeArray]) (.value (.array done :: frames)) (.behind (.array (done ++ items)) frames)
  | [], filled, _, _ => absurd rfl filled
  | [item], _, done, frames => (leads_tokens item _).append (.single rfl)
  | item :: next :: items, _, done, frames => by
    have later := leads_itemTokens (next :: items) (List.cons_ne_nil _ _) (done ++ [item]) frames
    rw [List.append_assoc] at later
    rw [itemTokens, List.append_assoc]
    · exact (leads_tokens item _).append (.cons rfl later)
    · exact List.cons_ne_nil _ _
termination_by structural items => items

theorem leads_memberTokens : (members : List (Text × Json)) → members ≠ [] → (done : List (Text × Json)) →
    (frames : List Frame) →
    Leads (memberTokens members ++ [.closeObject]) (.member done frames) (.behind (.object (done ++ members)) frames)
  | [], filled, _, _ => absurd rfl filled
  | [(_, value)], _, _, _ => leads_member ((leads_tokens value _).append (.single rfl))
  | (name, value) :: next :: members, _, done, frames => by
    have later := leads_memberTokens (next :: members) (List.cons_ne_nil _ _) (done ++ [(name, value)]) frames
    rw [List.append_assoc] at later
    rw [memberTokens, List.append_assoc]
    · exact leads_member ((leads_tokens value _).append (.cons rfl later))
    · exact List.cons_ne_nil _ _
termination_by structural members => members

end

/-- What is printed reads back. -/
theorem read?_print (j : Json) : read? j.print = some j := by
  have tokens : tokens? j.letters = some (tokens j) := by
    have reads : tokens? (j.letters ++ []) = (tokens? []).map (j.tokens ++ ·) := reads_letters j nofun
    rw [List.append_nil, tokens?, Option.map_some, List.append_nil] at reads
    exact reads
  rw [read?, print, tokens, Option.bind_eq_bind, Option.bind_some, leads_tokens j []]
  rfl

/-- Is there no control character below the space? -/
def Uncontrolled (letters : List Letter) : Prop := ∀ letter ∈ letters, 0x20 ≤ letter.code

instance (letters : List Letter) : Decidable (Uncontrolled letters) := List.decidableBAll _ letters

theorem uncontrolled_of_isWordChar {cs : List Char} (word : ∀ c ∈ cs, isWordChar c = true) :
    Uncontrolled (cs.map .char) := by
  refine List.forall_mem_map.mpr fun c member => Nat.le_of_not_lt fun small => ?_
  have outside : ∀ n < 0x20, isWordChar (Char.ofNat n) = false := by decide
  have control := outside _ small
  rw [Letter.code, Char.ofNat_toNat, word c member] at control
  cases control

theorem uncontrolled_append {letters others : List Letter} (first : Uncontrolled letters)
    (second : Uncontrolled others) : Uncontrolled (letters ++ others) := List.forall_mem_append.mpr ⟨first, second⟩

theorem uncontrolled_cons {letter : Letter} {letters : List Letter} (front : 0x20 ≤ letter.code)
    (others : Uncontrolled letters) : Uncontrolled (letter :: letters) := List.forall_mem_cons.mpr ⟨front, others⟩

theorem uncontrolled_escape (letter : Letter) : Uncontrolled (escape letter) := by
  cases letter with
  | half n => exact uncontrolled_cons (by rw [Letter.code]; omega) nofun
  | char c =>
    simp only [escape]
    split
    · next letter found =>
      unfold escapeLetter? at found
      split at found <;> cases found <;> decide
    · split
      · next small =>
        have digits : ∀ n < 0x20, Uncontrolled ((Text.hexDigits 4 n).map .char) := by decide
        exact uncontrolled_cons (by decide) (uncontrolled_cons (by decide) (digits _ small))
      · next printable => exact uncontrolled_cons (Nat.le_of_not_lt printable) nofun

theorem uncontrolled_quotedLetters (s : Text) : Uncontrolled (quotedLetters s) := by
  refine uncontrolled_cons (by decide) (uncontrolled_append ?_ (uncontrolled_cons (by decide) nofun))
  intro letter member
  obtain ⟨d, _, inside⟩ := List.mem_flatMap.mp member
  exact uncontrolled_escape d letter inside

mutual

/-- A value is printed on one line. -/
theorem uncontrolled_letters : (j : Json) → Uncontrolled (letters j)
  | .null => by decide
  | .bool true => by decide
  | .bool false => by decide
  | .int n => uncontrolled_of_isWordChar (isWord_int n).chars
  | .float x => uncontrolled_of_isWordChar (isWord_float x).chars
  | .text s => uncontrolled_quotedLetters s
  | .array items =>
    uncontrolled_cons (by decide) (uncontrolled_append (uncontrolled_itemLetters items)
      (uncontrolled_cons (by decide) nofun))
  | .object members =>
    uncontrolled_cons (by decide)
      (uncontrolled_append (uncontrolled_memberLetters members) (uncontrolled_cons (by decide) nofun))
termination_by structural j => j

theorem uncontrolled_itemLetters : (items : List Json) → Uncontrolled (itemLetters items)
  | [] => nofun
  | [item] => uncontrolled_letters item
  | item :: next :: items =>
    uncontrolled_append (uncontrolled_letters item)
      (uncontrolled_cons (by decide) (uncontrolled_cons (by decide) (uncontrolled_itemLetters (next :: items))))
termination_by structural items => items

theorem uncontrolled_memberLetters : (members : List (Text × Json)) → Uncontrolled (memberLetters members)
  | [] => nofun
  | [(name, value)] =>
    uncontrolled_append (uncontrolled_quotedLetters name)
      (uncontrolled_cons (by decide) (uncontrolled_cons (by decide) (uncontrolled_letters value)))
  | (name, value) :: next :: members =>
    uncontrolled_append
      (uncontrolled_append (uncontrolled_quotedLetters name)
        (uncontrolled_cons (by decide) (uncontrolled_cons (by decide) (uncontrolled_letters value))))
      (uncontrolled_cons (by decide) (uncontrolled_cons (by decide) (uncontrolled_memberLetters (next :: members))))
termination_by structural members => members

end

end MetricTree.Json
