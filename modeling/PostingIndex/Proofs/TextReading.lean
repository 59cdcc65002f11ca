import PostingIndex.Text.Blank
import PostingIndex.Text.Decimal
import PostingIndex.Text.Pieces

/-!
# Reading the parts of a text

Trimming a text finds the one core that blanks may stand around.  Cutting a text at a
separator finds the parts that contain no separator, and reading a number accepts the
numerals of 32-bit words and gives their value.

## Contents

Texts with blanks around them, cutting at a separator, and decimal numerals.
-/

namespace PostingIndex

namespace Text

/-!
## Blanks
-/

def Blank (text : List Char) : Prop :=
  ∀ c ∈ text, isBlank c = true

instance (text : List Char) : Decidable (Blank text) :=
  List.decidableBAll _ text

/-- A text is a core with blanks around it. -/
def Padded (core text : List Char) : Prop :=
  ∃ before after, Blank before ∧ Blank after ∧ text = before ++ core ++ after

structure Solid (core : List Char) : Prop where
  starts : ∃ c rest, core = c :: rest ∧ isBlank c = false
  ends : ∃ rest c, core = rest ++ [c] ∧ isBlank c = false

theorem Solid.append {left right : List Char} (hleft : Solid left) (middle : List Char)
    (hright : Solid right) : Solid (left ++ middle ++ right) where
  starts := by
    rcases hleft.starts with ⟨c, rest, rfl, hc⟩
    exact ⟨c, rest ++ middle ++ right, by simp, hc⟩
  ends := by
    rcases hright.ends with ⟨rest, c, rfl, hc⟩
    exact ⟨left ++ middle ++ rest, c, by simp, hc⟩

theorem Blank.append {left right : List Char} (hleft : Blank left) (hright : Blank right) :
    Blank (left ++ right) := by
  intro c hmem
  rcases List.mem_append.mp hmem with hmem | hmem
  · exact hleft c hmem
  · exact hright c hmem

theorem Blank.reverse {text : List Char} (h : Blank text) : Blank text.reverse :=
  fun c hmem => h c (List.mem_reverse.mp hmem)

theorem blank_takeWhile (text : List Char) : Blank (text.takeWhile isBlank) :=
  List.all_eq_true.mp List.all_takeWhile

theorem Padded.trans {core inner text : List Char} (h : Padded core inner)
    (hinner : Padded inner text) : Padded core text := by
  rcases h with ⟨before, after, hbefore, hafter, rfl⟩
  rcases hinner with ⟨outerBefore, outerAfter, houterBefore, houterAfter, rfl⟩
  refine ⟨outerBefore ++ before, after ++ outerAfter, houterBefore.append hbefore,
    hafter.append houterAfter, ?_⟩
  simp only [List.append_assoc]

theorem padded_trim (text : List Char) : Padded (trim text) text := by
  refine ⟨text.takeWhile isBlank, ((trimStart text).reverse.takeWhile isBlank).reverse,
    blank_takeWhile text, (blank_takeWhile _).reverse, ?_⟩
  have hstart : text.takeWhile isBlank ++ trimStart text = text :=
    List.takeWhile_append_dropWhile
  have hend : trim text ++ ((trimStart text).reverse.takeWhile isBlank).reverse =
      trimStart text := by
    rw [trim, trimEnd, ← List.reverse_append, List.takeWhile_append_dropWhile,
      List.reverse_reverse]
  rw [List.append_assoc, hend, hstart]

theorem dropWhile_isBlank_append {before text : List Char} (h : Blank before) :
    (before ++ text).dropWhile isBlank = text.dropWhile isBlank :=
  List.dropWhile_append_of_pos h

theorem trim_of_padded {core text : List Char} (hsolid : Solid core)
    (h : Padded core text) : trim text = core := by
  rcases h with ⟨before, after, hbefore, hafter, rfl⟩
  have hstart : trimStart (before ++ core ++ after) = core ++ after := by
    rcases hsolid.starts with ⟨c, rest, rfl, hc⟩
    rw [trimStart, List.append_assoc, dropWhile_isBlank_append hbefore, List.cons_append,
      List.dropWhile_cons_of_neg (by simp [hc])]
  rcases hsolid.ends with ⟨rest, c, rfl, hc⟩
  rw [trim, hstart, trimEnd, List.reverse_append, dropWhile_isBlank_append hafter.reverse,
    List.reverse_append, List.reverse_singleton, List.singleton_append,
    List.dropWhile_cons_of_neg (by simp [hc]), List.reverse_cons, List.reverse_reverse]

theorem trim_eq_nil_iff {text : List Char} : trim text = [] ↔ Blank text := by
  constructor
  · intro h
    rcases padded_trim text with ⟨before, after, hbefore, hafter, heq⟩
    rw [h, List.append_nil] at heq
    rw [heq]
    exact hbefore.append hafter
  · intro h
    have hdrop : (text ++ []).dropWhile isBlank = [] := dropWhile_isBlank_append h
    rw [List.append_nil] at hdrop
    rw [trim, trimStart, hdrop]
    rfl

/-!
## Cutting
-/

theorem pieces_eq_splitOn (separator : Char) (text : List Char) :
    pieces separator text = text.splitOn separator := by
  induction text with
  | nil =>
      rfl
  | cons c rest ih =>
      rw [List.splitOn, List.splitOnP_cons_eq_if_modifyHead, pieces, ih]
      by_cases h : c = separator
      · simp [h, List.splitOn]
      · rw [if_neg h, if_neg (by simpa using h), ← List.splitOn]
        cases hrest : rest.splitOn separator with
        | nil =>
            exact absurd hrest (List.splitOn_ne_nil _ _)
        | cons first others =>
            rfl

theorem cutAt?_eq_some_iff {separator : Char} {text before after : List Char} :
    cutAt? separator text = some (before, after) ↔
      separator ∉ before ∧ text = before ++ separator :: after := by
  induction text generalizing before with
  | nil =>
      simp [cutAt?]
  | cons c rest ih =>
      by_cases h : c = separator
      · subst h
        rw [cutAt?, if_pos rfl]
        cases before with
        | nil =>
            simp [eq_comm]
        | cons head others =>
            simp only [Option.some.injEq, Prod.mk.injEq, reduceCtorEq, false_and, List.mem_cons,
              not_or, List.cons_append, List.cons.injEq, false_iff, not_and]
            intro hne heq
            exact absurd heq hne.left
      · rw [cutAt?, if_neg h]
        cases before with
        | nil =>
            simp [h]
        | cons head others =>
            simp only [Option.map_eq_some_iff, Prod.exists, Prod.mk.injEq, List.cons.injEq,
              List.mem_cons, not_or, List.cons_append]
            constructor
            · rintro ⟨found, _, hcut, ⟨rfl, rfl⟩, rfl⟩
              rcases ih.mp hcut with ⟨hnot, hrest⟩
              exact ⟨⟨Ne.symm h, hnot⟩, rfl, hrest⟩
            · rintro ⟨⟨_, hnot⟩, rfl, hrest⟩
              exact ⟨others, after, ih.mpr ⟨hnot, hrest⟩, ⟨rfl, rfl⟩, rfl⟩

end Text

namespace Decimal

/-!
## Numerals
-/

/-- Decimal digits, with an optional plus before them, that stand for a word. -/
def Numeral (text : List Char) (value : UInt32) : Prop :=
  ∃ digits : List Char, (text = digits ∨ text = '+' :: digits) ∧ digits ≠ [] ∧
    (∀ c ∈ digits, c.isDigit = true) ∧ Nat.ofDigitChars 10 digits 0 = value.toNat

theorem digitsOnto?_eq_some_iff {start value : Nat} {text : List Char} :
    digitsOnto? start text = some value ↔
      (∀ c ∈ text, c.isDigit = true) ∧ Nat.ofDigitChars 10 text start = value := by
  induction text generalizing start with
  | nil =>
      simp [digitsOnto?]
  | cons c rest ih =>
      by_cases h : c.isDigit = true
      · simp [digitsOnto?, digit?, h, ih, Nat.ofDigitChars_cons]
      · simp [digitsOnto?, digit?, h]

theorem digits?_eq_some_iff {value : Nat} {text : List Char} :
    digits? text = some value ↔
      text ≠ [] ∧ (∀ c ∈ text, c.isDigit = true) ∧ Nat.ofDigitChars 10 text 0 = value := by
  cases text with
  | nil =>
      simp [digits?]
  | cons c rest =>
      rw [digits?, digitsOnto?_eq_some_iff]
      simp

theorem natural?_eq_some_iff {value : Nat} {text : List Char} :
    natural? text = some value ↔
      ∃ digits, (text = digits ∨ text = '+' :: digits) ∧ digits? digits = some value := by
  constructor
  · intro h
    unfold natural? at h
    split at h
    · next rest =>
        exact ⟨rest, Or.inr rfl, h⟩
    · exact ⟨text, Or.inl rfl, h⟩
  · rintro ⟨digits, rfl | rfl, h⟩
    · unfold natural?
      split
      · -- A plus is no digit, so these are not digits.
        have hplus := (digits?_eq_some_iff.mp h).right.left '+' List.mem_cons_self
        exact absurd hplus (by decide)
      · exact h
    · exact h

theorem below?_eq_some_iff {bound value : Nat} {text : List Char} :
    below? bound text = some value ↔ natural? text = some value ∧ value < bound := by
  unfold below?
  cases natural? text with
  | none =>
      simp
  | some read =>
      by_cases h : read < bound
      · simp only [h, if_true, Option.some.injEq, iff_self_and]
        rintro rfl
        exact h
      · simp only [h, if_false, reduceCtorEq, Option.some.injEq, false_iff, not_and]
        rintro rfl
        exact h

theorem numeral_iff {text : List Char} {value : UInt32} :
    Numeral text value ↔ natural? text = some value.toNat := by
  simp only [Numeral, natural?_eq_some_iff, digits?_eq_some_iff]

/-- Exactly the numerals of words are read, each as its value. -/
theorem uint32?_eq_some_iff {text : List Char} {value : UInt32} :
    uint32? text = some value ↔ Numeral text value := by
  rw [numeral_iff, uint32?, Option.map_eq_some_iff]
  constructor
  · rintro ⟨read, hread, rfl⟩
    rcases below?_eq_some_iff.mp hread with ⟨hnatural, hlt⟩
    rw [hnatural, UInt32.toNat_ofNat_of_lt' hlt]
  · intro hnatural
    exact ⟨value.toNat, below?_eq_some_iff.mpr ⟨hnatural, value.toNat_lt⟩, UInt32.ofNat_toNat⟩

theorem Numeral.isDigit_or_plus {text : List Char} {value : UInt32} (h : Numeral text value)
    {c : Char} (hmem : c ∈ text) : c.isDigit = true ∨ c = '+' := by
  rcases h with ⟨digits, rfl | rfl, _, hdigits, _⟩
  · exact Or.inl (hdigits c hmem)
  · rcases List.mem_cons.mp hmem with heq | hmem
    · exact Or.inr heq
    · exact Or.inl (hdigits c hmem)

theorem isBlank_of_isDigit {c : Char} (h : c.isDigit = true) : Text.isBlank c = false := by
  simp only [Char.isDigit, Bool.and_eq_true, decide_eq_true_eq, ge_iff_le,
    UInt32.le_iff_toNat_le] at h
  have hlow : 48 ≤ c.toNat := h.left
  have hhigh : c.toNat ≤ 57 := h.right
  simp [Text.isBlank]
  omega

theorem Numeral.isBlank {text : List Char} {value : UInt32} (h : Numeral text value)
    {c : Char} (hmem : c ∈ text) : Text.isBlank c = false := by
  rcases h.isDigit_or_plus hmem with hdigit | rfl
  · exact isBlank_of_isDigit hdigit
  · decide

theorem Numeral.ne_nil {text : List Char} {value : UInt32} (h : Numeral text value) :
    text ≠ [] := by
  rcases h with ⟨digits, rfl | rfl, hne, _, _⟩
  · exact hne
  · exact List.cons_ne_nil _ _

theorem Numeral.solid {text : List Char} {value : UInt32} (h : Numeral text value) :
    Text.Solid text where
  starts := by
    rcases List.exists_cons_of_ne_nil h.ne_nil with ⟨c, rest, rfl⟩
    exact ⟨c, rest, rfl, h.isBlank List.mem_cons_self⟩
  ends := by
    rcases List.eq_nil_or_concat text with rfl | ⟨rest, c, rfl⟩
    · exact absurd rfl h.ne_nil
    · exact ⟨rest, c, by simp, h.isBlank (by simp)⟩

theorem numeral_toDigits (value : UInt32) : Numeral (Nat.toDigits 10 value.toNat) value :=
  ⟨_, Or.inl rfl, Nat.toDigits_ne_nil,
    fun _ hmem => Nat.isDigit_of_mem_toDigits (by decide) (by decide) hmem,
    Nat.ofDigitChars_toDigits (by decide) (by decide)⟩

end Decimal

end PostingIndex
