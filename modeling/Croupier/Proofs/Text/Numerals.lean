/-
Which texts are numerals, and what they denote.

The blanks, the sign and the digits of a numeral are told from one another by their bytes. Reading
an unsigned number refuses a minus sign only where it is the first byte: behind a blank it stands
for the negation modulo the number of words.
-/

import Croupier.Proofs.Text.Tokens
import Croupier.Text.Numeral
import Mathlib.Data.Nat.Digits.Defs

namespace Croupier.Text

variable {text blanks mark digits : List UInt8} {byte : UInt8} {negative : Bool}

/-! ### Bytes -/

theorem isBlank_iff : isBlank byte = true ↔
    byte.toNat = 32 ∨ 9 ≤ byte.toNat ∧ byte.toNat ≤ 13 := by
  simp only [isBlank, Bool.or_eq_true, Bool.and_eq_true, decide_eq_true_eq,
    UInt8.le_iff_toNat_le, ← UInt8.toNat_inj]
  rfl

theorem isDigit_iff : isDigit byte = true ↔ 48 ≤ byte.toNat ∧ byte.toNat ≤ 57 := by
  simp only [isDigit, Bool.and_eq_true, decide_eq_true_eq, UInt8.le_iff_toNat_le]
  rfl

theorem isBlank_of_isDigit (digit : isDigit byte = true) : isBlank byte = false := by
  rw [isDigit_iff] at digit
  rw [Bool.eq_false_iff, ne_eq, isBlank_iff]
  omega

theorem ne_of_isDigit {other : UInt8} (digit : isDigit byte = true)
    (noDigit : isDigit other = false) : byte ≠ other := by
  rintro rfl
  rw [digit] at noDigit
  cases noDigit

/-! ### Digits -/

/-- The number that digits denote, the first one the most significant. -/
def decimal (digits : List UInt8) : Nat :=
  Nat.ofDigits 10 (digits.reverse.map fun digit => digit.toNat - 48)

theorem digitsValue_eq_decimal (digits : List UInt8) : digitsValue digits = decimal digits := by
  unfold decimal digitsValue
  rw [Nat.ofDigits_eq_foldr, List.foldr_map, List.foldr_reverse]
  congr 1
  funext value digit
  rw [Nat.cast_id, Nat.add_comm, Nat.mul_comm]

theorem digits_legal_iff : ¬(digits.isEmpty || !digits.all isDigit) = true ↔
    digits ≠ [] ∧ ∀ byte ∈ digits, isDigit byte = true := by
  rw [Bool.or_eq_true, not_or, List.isEmpty_iff, Bool.not_eq_true', Bool.not_eq_false,
    List.all_eq_true]

/-! ### Parts of numerals -/

/-- Whether a text is some blanks, a mark, and at least one digit. -/
structure IsNumeral (text blanks mark digits : List UInt8) : Prop where
  whole : text = blanks ++ (mark ++ digits)
  blank : ∀ byte ∈ blanks, isBlank byte = true
  nonempty : digits ≠ []
  digit : ∀ byte ∈ digits, isDigit byte = true

/-- Whether a number with this mark is negative: only with a minus sign, which is byte 45, not
without a mark or with a plus sign, which is byte 43. -/
inductive Marks : (negative : Bool) → (mark : List UInt8) → Prop where
  | none : Marks false []
  | plus : Marks false [43]
  | minus : Marks true [45]

theorem marks_false_iff : Marks false mark ↔ mark = [] ∨ mark = [43] := by
  constructor
  · rintro (_ | _)
    · exact .inl rfl
    · exact .inr rfl
  · rintro (rfl | rfl)
    · exact .none
    · exact .plus

theorem sign_of_unsigned {rest : List UInt8} (plus : byte ≠ 43) (minus : byte ≠ 45) :
    sign (byte :: rest) = (false, byte :: rest) := by
  unfold sign
  split
  · rename_i same
    cases same
    exact absurd rfl plus
  · rename_i same
    cases same
    exact absurd rfl minus
  · rfl

theorem sign_of_marks (marks : Marks negative mark)
    (digit : ∀ byte ∈ digits, isDigit byte = true) :
    sign (mark ++ digits) = (negative, digits) := by
  cases marks with
  | none =>
      cases digits with
      | nil => rfl
      | cons first rest =>
          have begins := digit first List.mem_cons_self
          exact sign_of_unsigned (ne_of_isDigit begins (by decide))
            (ne_of_isDigit begins (by decide))
  | plus => rfl
  | minus => rfl

theorem isBlank_of_marked (marks : Marks negative mark)
    (digit : ∀ byte ∈ digits, isDigit byte = true) (member : byte ∈ mark ++ digits) :
    isBlank byte = false := by
  rcases List.mem_append.mp member with marked | inside
  · cases marks with
    | none => cases marked
    | plus =>
        rw [List.mem_singleton.mp marked]
        rfl
    | minus =>
        rw [List.mem_singleton.mp marked]
        rfl
  · exact isBlank_of_isDigit (digit byte inside)

theorem marks_of_sign (text : List UInt8) :
    ∃ mark, text = mark ++ (sign text).2 ∧ Marks (sign text).1 mark := by
  unfold sign
  split
  · exact ⟨[43], rfl, .plus⟩
  · exact ⟨[45], rfl, .minus⟩
  · exact ⟨[], rfl, .none⟩

theorem IsNumeral.of_numeral? {magnitude : Nat}
    (read : numeral? text = some (negative, magnitude)) :
    ∃ blanks mark digits, IsNumeral text blanks mark digits ∧ Marks negative mark ∧
      decimal digits = magnitude := by
  unfold numeral? at read
  dsimp only at read
  obtain ⟨mark, behind, marks⟩ := marks_of_sign (text.dropWhile isBlank)
  split at read
  · cases read
  · rename_i legal
    obtain ⟨nonempty, digit⟩ := digits_legal_iff.mp legal
    cases read
    refine ⟨text.takeWhile isBlank, mark, (sign (text.dropWhile isBlank)).2,
      ⟨?_, fun byte => List.mem_takeWhile_imp, nonempty, digit⟩, marks,
      (digitsValue_eq_decimal _).symm⟩
    rw [← behind, List.takeWhile_append_dropWhile]

theorem IsNumeral.numeral?_eq (numeral : IsNumeral text blanks mark digits)
    (marks : Marks negative mark) : numeral? text = some (negative, decimal digits) := by
  have bare : ∀ byte ∈ (mark ++ digits).head?, isBlank byte = false := fun byte first =>
    isBlank_of_marked marks numeral.digit (List.mem_of_mem_head? first)
  have legal := digits_legal_iff.mpr ⟨numeral.nonempty, numeral.digit⟩
  unfold numeral?
  rw [numeral.whole, List.dropWhile_append_of_pos numeral.blank, dropWhile_of_head? bare,
    sign_of_marks marks numeral.digit]
  dsimp only
  rw [if_neg legal, digitsValue_eq_decimal]

/-- A numeral begins with a minus sign if this is its mark and no blank is in front. -/
theorem IsNumeral.head?_eq_minus_iff (numeral : IsNumeral text blanks mark digits)
    (marks : Marks negative mark) : text.head? = some 45 ↔ blanks = [] ∧ negative = true := by
  rw [numeral.whole]
  cases blanks with
  | cons first rest =>
      have blank := numeral.blank first List.mem_cons_self
      constructor
      · intro begins
        cases begins
        cases blank
      · exact fun none => absurd none.1 (List.cons_ne_nil first rest)
  | nil =>
      cases marks with
      | none =>
          refine iff_of_false (fun begins => ?_) (fun both => Bool.false_ne_true both.2)
          cases numeral.digit 45 (List.mem_of_mem_head? begins)
      | plus =>
          refine iff_of_false (fun begins => ?_) (fun both => Bool.false_ne_true both.2)
          cases begins
      | minus => exact iff_of_true rfl ⟨rfl, rfl⟩

/-! ### Unsigned numbers -/

theorem word?_eq_some_iff_numeral? {word : UInt64} :
    word? text = some word ↔ text.head? ≠ some 45 ∧ ∃ negative magnitude,
      numeral? text = some (negative, magnitude) ∧ magnitude < UInt64.size ∧
        word = if negative then -magnitude.toUInt64 else magnitude.toUInt64 := by
  unfold word?
  by_cases begins : text.head? = some 45
  · rw [if_pos begins]
    exact iff_of_false (fun read => by cases read) (fun both => both.1 begins)
  · rw [if_neg begins]
    cases read : numeral? text with
    | none =>
        refine iff_of_false (fun accepted => by cases accepted) ?_
        rintro ⟨_, _, _, accepted, _⟩
        cases accepted
    | some parts =>
        obtain ⟨negative, magnitude⟩ := parts
        constructor
        · intro accepted
          obtain ⟨fits, value⟩ := Option.ite_some_none_eq_some.mp accepted
          exact ⟨begins, negative, magnitude, rfl, fits, value.symm⟩
        · rintro ⟨_, _, _, same, fits, rfl⟩
          cases same
          exact if_pos fits

theorem toNat_signed {magnitude : Nat} (fits : magnitude < UInt64.size) (negative : Bool) :
    (if negative then -magnitude.toUInt64 else magnitude.toUInt64).toNat =
      if negative then (UInt64.size - magnitude) % UInt64.size else magnitude := by
  have same : magnitude.toUInt64.toNat = magnitude := UInt64.toNat_ofNat_of_lt' fits
  cases negative with
  | true => exact (UInt64.toNat_neg _).trans (by rw [same]; rfl)
  | false => exact same

/-- An unsigned number is read from a numeral of a magnitude below the number of words. Without a
minus sign it is the magnitude. With one, a blank must be in front, and it is the negation. -/
theorem word?_eq_some_iff {word : UInt64} :
    word? text = some word ↔ ∃ blanks mark digits, IsNumeral text blanks mark digits ∧
      decimal digits < 2 ^ 64 ∧
      ((mark = [] ∨ mark = [43]) ∧ word.toNat = decimal digits ∨
        mark = [45] ∧ blanks ≠ [] ∧ word.toNat = (2 ^ 64 - decimal digits) % 2 ^ 64) := by
  rw [word?_eq_some_iff_numeral?]
  constructor
  · rintro ⟨begins, negative, magnitude, read, fits, rfl⟩
    obtain ⟨blanks, mark, digits, numeral, marks, rfl⟩ := IsNumeral.of_numeral? read
    rw [ne_eq, numeral.head?_eq_minus_iff marks] at begins
    refine ⟨blanks, mark, digits, numeral, fits, ?_⟩
    rw [toNat_signed fits]
    cases negative with
    | false => exact .inl ⟨marks_false_iff.mp marks, rfl⟩
    | true =>
        cases marks
        exact .inr ⟨rfl, fun none => begins ⟨none, rfl⟩, rfl⟩
  · rintro ⟨blanks, mark, digits, numeral, fits, ⟨marks, value⟩ | ⟨rfl, some, value⟩⟩
    · have marks := marks_false_iff.mpr marks
      refine ⟨?_, false, _, numeral.numeral?_eq marks, fits, ?_⟩
      · rw [ne_eq, numeral.head?_eq_minus_iff marks]
        exact fun both => Bool.false_ne_true both.2
      · rw [← UInt64.toNat_inj, toNat_signed fits]
        exact value
    · refine ⟨?_, true, _, numeral.numeral?_eq .minus, fits, ?_⟩
      · rw [ne_eq, numeral.head?_eq_minus_iff .minus]
        exact fun both => some both.1
      · rw [← UInt64.toNat_inj, toNat_signed fits]
        exact value

theorem IsNumeral.not_minus_mem (numeral : IsNumeral text blanks mark digits)
    (unsigned : mark = [] ∨ mark = [43]) : 45 ∉ text := by
  rw [numeral.whole, List.mem_append, List.mem_append, not_or, not_or]
  refine ⟨fun inside => ?_, fun inside => ?_, fun inside => ?_⟩
  · cases numeral.blank 45 inside
  · rcases unsigned with rfl | rfl
    · cases inside
    · cases List.mem_singleton.mp inside
  · cases numeral.digit 45 inside

/-- A blank and a minus sign in front of a one are accepted, for the greatest word. -/
theorem word?_accepts_minus :
    word? [32, 45, 49] = some 0xFFFFFFFFFFFFFFFF ∧
    ¬ ∀ (text : List UInt8) (word : UInt64),
      word? text = some word ↔ ∃ blanks mark digits, IsNumeral text blanks mark digits ∧
        (mark = [] ∨ mark = [43]) ∧ decimal digits < 2 ^ 64 ∧ word.toNat = decimal digits := by
  have accepted : word? [32, 45, 49] = some 0xFFFFFFFFFFFFFFFF := by decide
  refine ⟨accepted, fun exactly => ?_⟩
  obtain ⟨blanks, mark, digits, numeral, unsigned, _⟩ := (exactly _ _).mp accepted
  exact numeral.not_minus_mem unsigned (by decide)

end Croupier.Text
