namespace MetricTree

/-- A code point of a text. Half of a surrogate pair is one as well, though no character. -/
inductive Letter where
  | char (c : Char)
  | half (n : Fin 2048)
  deriving DecidableEq

namespace Letter

instance : Coe Char Letter := ⟨char⟩

instance : Inhabited Letter := ⟨char default⟩

def code : Letter → Nat
  | char c => c.toNat
  | half n => 0xD800 + n

/-- The letter of a code point. -/
def ofCode (n : Nat) : Letter :=
  if low : 0xD800 ≤ n ∧ n < 0xE000 then half ⟨n - 0xD800, by omega⟩ else char (Char.ofNat n)

def char? : Letter → Option Char
  | char c => some c
  | half _ => none

end Letter

/-- A row of code points, in which halves of surrogate pairs may stand alone. -/
structure Text where
  ofList ::
  toList : List Letter
  deriving DecidableEq

namespace Text

def ofChars (cs : List Char) : Text := ⟨cs.map .char⟩

def ofString (s : String) : Text := ofChars s.toList

instance : Coe String Text := ⟨ofString⟩

instance : Inhabited Text := ⟨⟨[]⟩⟩

instance : Append Text := ⟨fun s t => ⟨s.toList ++ t.toList⟩⟩

def isEmpty (t : Text) : Bool := t.toList.isEmpty

def singleton (letter : Letter) : Text := ⟨[letter]⟩

def join (ts : List Text) : Text := ⟨ts.flatMap toList⟩

/-- The texts with a separator between each two of them. -/
def intercalate (separator : Text) : List Text → Text
  | [] => ""
  | [t] => t
  | t :: rest => t ++ separator ++ intercalate separator rest

/-- The characters, if there is nothing else. -/
def chars? (t : Text) : Option (List Char) := t.toList.mapM Letter.char?

/-- The same characters as a string, if there is nothing else. -/
def string? (t : Text) : Option String := t.chars?.map String.ofList

/-- Are all letters characters? -/
def isUnicode (t : Text) : Bool := t.string?.isSome

/-- The text with three replacement characters for each half of a pair that stands alone. -/
def lossy (t : Text) : String :=
  String.ofList (t.toList.flatMap fun
    | .char c => [c]
    | .half _ => List.replicate 3 '\uFFFD')

def codes (t : Text) : List Nat := t.toList.map Letter.code

/-- Texts are in order of their code points. -/
instance : LE Text := ⟨fun s t => List.le s.codes t.codes⟩

instance (s t : Text) : Decidable (s ≤ t) := List.decidableLE s.codes t.codes

instance : LT Text := ⟨fun s t => List.lt s.codes t.codes⟩

instance (s t : Text) : Decidable (s < t) := List.decidableLT s.codes t.codes

@[simp]
theorem toList_append (s t : Text) : (s ++ t).toList = s.toList ++ t.toList := rfl

theorem toList_inj {s t : Text} : s.toList = t.toList ↔ s = t := by
  cases s
  cases t
  simp

@[simp]
theorem toList_ofString (s : String) : (ofString s).toList = s.toList.map .char := rfl

@[simp]
theorem ofString_inj {s t : String} : ofString s = ofString t ↔ s = t := by
  rw [← toList_inj, toList_ofString, toList_ofString, List.map_inj_right fun _ _ same => Letter.char.inj same,
    String.toList_inj]

theorem ofString_append (s t : String) : ofString (s ++ t) = ofString s ++ ofString t := by
  rw [← toList_inj, toList_append, toList_ofString, toList_ofString, toList_ofString, String.toList_append,
    List.map_append]

@[simp]
theorem join_nil : join [] = "" := rfl

@[simp]
theorem join_cons (t : Text) (rest : List Text) : join (t :: rest) = t ++ join rest := rfl

theorem isEmpty_iff {t : Text} : t.isEmpty = true ↔ t = "" := by
  rw [isEmpty, List.isEmpty_iff, ← toList_inj]
  rfl

theorem mapM_char?_eq_some {letters : List Letter} {cs : List Char} :
    letters.mapM Letter.char? = some cs ↔ letters = cs.map .char := by
  induction letters generalizing cs with
  | nil => cases cs <;> simp
  | cons letter rest ih =>
    cases letter with
    | half n => cases cs <;> simp [Letter.char?]
    | char c =>
      simp only [List.mapM_cons, Letter.char?, Option.bind_eq_bind, Option.bind_some, Option.pure_def,
        Option.bind_eq_some_iff, ih, Option.some.injEq]
      cases cs with
      | nil => simp
      | cons d ds =>
        simp only [List.map_cons, List.cons.injEq, Letter.char.injEq]
        exact ⟨fun ⟨_, read, same, then_same⟩ => ⟨same, then_same ▸ read⟩, fun ⟨same, read⟩ => ⟨ds, read, same, rfl⟩⟩

theorem chars?_eq_some {t : Text} {cs : List Char} : t.chars? = some cs ↔ t = ofChars cs :=
  mapM_char?_eq_some.trans toList_inj

theorem string?_eq_some {t : Text} {s : String} : t.string? = some s ↔ t = s := by
  rw [string?, Option.map_eq_some_iff]
  constructor
  · rintro ⟨cs, read, rfl⟩
    rw [chars?_eq_some.mp read, ofString, String.toList_ofList]
  · rintro rfl
    exact ⟨s.toList, chars?_eq_some.mpr rfl, String.ofList_toList⟩

@[simp]
theorem string?_ofString (s : String) : (ofString s).string? = some s := string?_eq_some.mpr rfl

theorem isUnicode_iff {t : Text} : t.isUnicode = true ↔ ∃ s : String, t = s := by
  simp only [isUnicode, Option.isSome_iff_exists, string?_eq_some]

theorem lossy_ofString (s : String) : (ofString s).lossy = s := by
  rw [lossy, toList_ofString, List.flatMap_map]
  exact (congrArg String.ofList (List.flatMap_singleton' _)).trans String.ofList_toList

/-- Nothing is lost of characters. -/
theorem lossy_of_isUnicode {t : Text} (unicode : t.isUnicode = true) : t.lossy = t := by
  obtain ⟨s, rfl⟩ := isUnicode_iff.mp unicode
  rw [lossy_ofString]

theorem append_assoc (s t u : Text) : s ++ t ++ u = s ++ (t ++ u) :=
  congrArg ofList (List.append_assoc ..)

theorem append_right_inj (s : Text) {t u : Text} : s ++ t = s ++ u ↔ t = u := by
  rw [← toList_inj, toList_append, toList_append, List.append_right_inj, toList_inj]

theorem append_eq_empty_iff {s t : Text} : s ++ t = "" ↔ s = "" ∧ t = "" := by
  rw [← toList_inj, ← toList_inj, ← toList_inj]
  exact List.append_eq_nil_iff

theorem intercalate_nil {separator : Text} : intercalate separator [] = "" := rfl

theorem intercalate_singleton {separator t : Text} : intercalate separator [t] = t := rfl

theorem intercalate_cons_cons {separator s t : Text} {rest : List Text} :
    intercalate separator (s :: t :: rest) = s ++ separator ++ intercalate separator (t :: rest) := rfl

theorem intercalate_append_of_ne_nil {separator : Text} {first second : List Text} (some : first ≠ [])
    (others : second ≠ []) :
    intercalate separator (first ++ second) =
      intercalate separator first ++ separator ++ intercalate separator second := by
  induction first with
  | nil => exact absurd rfl some
  | cons t rest ih =>
    cases rest with
    | nil =>
      obtain ⟨u, more, rfl⟩ := List.exists_cons_of_ne_nil others
      rfl
    | cons next rest =>
      rw [List.cons_append, List.cons_append, intercalate_cons_cons, ← List.cons_append, ih (List.cons_ne_nil _ _),
        intercalate_cons_cons]
      simp only [append_assoc]

theorem le_refl (t : Text) : t ≤ t := List.le_refl (α := Nat) _

theorem le_trans {s t u : Text} (first : s ≤ t) (second : t ≤ u) : s ≤ u := List.le_trans (α := Nat) first second

theorem le_total (s t : Text) : s ≤ t ∨ t ≤ s := List.le_total (α := Nat) _ _

end Text

theorem Letter.code_inj {a b : Letter} : a.code = b.code ↔ a = b := by
  refine ⟨fun same => ?_, fun same => congrArg code same⟩
  cases a with
  | char c =>
    cases b with
    | char d => exact congrArg char (Char.toNat_inj.mp same)
    | half n =>
      have valid := c.valid
      simp only [code] at same
      simp only [UInt32.isValidChar, Nat.isValidChar] at valid
      have := n.isLt
      simp only [Char.toNat] at same
      omega
  | half n =>
    cases b with
    | char d =>
      have valid := d.valid
      simp only [code] at same
      simp only [UInt32.isValidChar, Nat.isValidChar] at valid
      have := n.isLt
      simp only [Char.toNat] at same
      omega
    | half m =>
      simp only [code] at same
      exact congrArg half (Fin.ext (by omega))

theorem Text.le_antisymm {s t : Text} (lower : s ≤ t) (upper : t ≤ s) : s = t := by
  have same : s.codes = t.codes := List.le_antisymm lower upper
  exact toList_inj.mp ((List.map_inj_right fun _ _ => Letter.code_inj.mp).mp same)

end MetricTree
