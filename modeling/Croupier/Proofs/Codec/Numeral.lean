/-
Numbers in compiled programs.

A number is written as big-endian digits in base 256, cut to a width. The digits denote the
number modulo the power of 256 that belongs to the width, so a number that the width has room
for is read back as it was: unsigned between zero and that power, signed in two's complement.
-/

import Croupier.Program.Encode
import Mathlib

namespace Croupier

theorem toNat_lowByte (value : Int) :
    ((lowByte value).toNat : Int) = value % 256 := by
  have nonneg : 0 ≤ value % 256 := Int.emod_nonneg value (by decide)
  have below : value % 256 < 256 := Int.emod_lt_of_pos value (by decide)
  simp only [lowByte, Nat.toUInt8, UInt8.toNat_ofNat']
  omega

theorem toNat_lowByte_of_lt {value : Int} (nonneg : 0 ≤ value) (below : value < 256) :
    (lowByte value).toNat = value.toNat := by
  have digit := toNat_lowByte value
  rw [Int.emod_eq_of_lt nonneg below] at digit
  omega

/-! ### Digits -/

namespace Decoder

private theorem foldl_digits (digits : List UInt8) (start : Nat) :
    digits.foldl (fun value digit => value * 256 + digit.toNat) start =
      start * Nat.pow 256 digits.length + unsigned digits := by
  unfold unsigned
  induction digits generalizing start with
  | nil => simp
  | cons digit rest ih =>
      rw [List.foldl_cons, List.foldl_cons, ih, ih (0 * 256 + digit.toNat)]
      simp only [List.length_cons, Nat.pow_eq, Nat.pow_succ]
      ring

/-- The first digit is the most significant one. -/
theorem unsigned_cons (digit : UInt8) (rest : List UInt8) :
    unsigned (digit :: rest) =
      digit.toNat * Nat.pow 256 rest.length + unsigned rest := by
  have folded := foldl_digits rest digit.toNat
  simpa [unsigned] using folded

theorem unsigned_lt (digits : List UInt8) :
    unsigned digits < Nat.pow 256 digits.length := by
  induction digits with
  | nil => decide
  | cons digit rest ih =>
      have below : digit.toNat ≤ 255 := by
        have bounded := digit.toNat_lt
        omega
      rw [unsigned_cons, List.length_cons]
      calc digit.toNat * Nat.pow 256 rest.length + unsigned rest
          < digit.toNat * Nat.pow 256 rest.length + Nat.pow 256 rest.length := by omega
        _ ≤ 255 * Nat.pow 256 rest.length + Nat.pow 256 rest.length := by gcongr
        _ = Nat.pow 256 (rest.length + 1) := by
          simp only [Nat.pow_eq, Nat.pow_succ]
          ring

end Decoder

namespace Encoder

open Decoder (unsigned unsigned_cons signed)

@[simp]
theorem length_bigEndian (value : Int) (width : Nat) :
    (bigEndian value width).length = width := by
  induction width with
  | zero => rfl
  | succ width ih => rw [bigEndian, List.length_cons, ih]

/-- A remainder modulo a factor times 256 is a digit above a remainder modulo the factor. -/
private theorem emod_factor_digit (value factor : Int) (positive : 0 < factor) :
    value % (factor * 256) = value / factor % 256 * factor + value % factor := by
  have whole := Int.mul_ediv_add_emod value factor
  have upper := Int.mul_ediv_add_emod (value / factor) 256
  have digitNonneg : 0 ≤ value / factor % 256 := Int.emod_nonneg _ (by decide)
  have digitBelow : value / factor % 256 < 256 := Int.emod_lt_of_pos _ (by decide)
  have restNonneg : 0 ≤ value % factor := Int.emod_nonneg _ (by omega)
  have restBelow : value % factor < factor := Int.emod_lt_of_pos _ positive
  have decomposed :
      value = value / factor % 256 * factor + value % factor
        + factor * 256 * (value / factor / 256) := by
    calc value = factor * (value / factor) + value % factor := whole.symm
      _ = factor * (256 * (value / factor / 256) + value / factor % 256)
            + value % factor := by rw [upper]
      _ = _ := by ring
  calc value % (factor * 256)
      = (value / factor % 256 * factor + value % factor
          + factor * 256 * (value / factor / 256)) % (factor * 256) := by
        rw [← decomposed]
    _ = (value / factor % 256 * factor + value % factor) % (factor * 256) :=
        Int.add_mul_emod_self_left _ _ _
    _ = _ := Int.emod_eq_of_lt (by positivity) (by nlinarith)

/-- The digits of a number denote it modulo the power that belongs to their width. -/
theorem unsigned_bigEndian (value : Int) (width : Nat) :
    (unsigned (bigEndian value width) : Int) = value % (Nat.pow 256 width : Nat) := by
  induction width with
  | zero => simp [bigEndian, unsigned]
  | succ width ih =>
      have positive : (0 : Int) < (Nat.pow 256 width : Nat) := by
        simp only [Nat.pow_eq]
        positivity
      have power : (Nat.pow 256 (width + 1) : Nat) = (Nat.pow 256 width : Int) * 256 := by
        simp only [Nat.pow_eq, Nat.pow_succ]
        push_cast
        ring
      rw [bigEndian, unsigned_cons, length_bigEndian, Nat.cast_add, Nat.cast_mul, ih,
        toNat_lowByte, power, emod_factor_digit value _ positive]

theorem unsigned_bigEndian_of_lt {value : Int} {width : Nat} (nonneg : 0 ≤ value)
    (fits : value < (Nat.pow 256 width : Nat)) :
    unsigned (bigEndian value width) = value.toNat := by
  have digits := unsigned_bigEndian value width
  rw [Int.emod_eq_of_lt nonneg fits] at digits
  omega

end Encoder

/-! ### Signed numbers -/

/-- One more than the largest signed number of so many bytes. -/
def signedLimit (width : Nat) : Nat :=
  128 * Nat.pow 256 (width - 1)

/-- Whether so many bytes have room for a signed number. -/
def FitsSigned (width : Nat) (value : Int) : Prop :=
  -(signedLimit width : Int) ≤ value ∧ value < signedLimit width

instance (width : Nat) (value : Int) : Decidable (FitsSigned width value) :=
  inferInstanceAs (Decidable (_ ∧ _))

private theorem signedLimit_double {width : Nat} (positive : 0 < width) :
    Nat.pow 256 width = 2 * signedLimit width := by
  obtain ⟨rest, rfl⟩ := Nat.exists_eq_add_of_lt positive
  simp only [signedLimit, Nat.zero_add, Nat.add_sub_cancel, Nat.pow_eq, Nat.pow_succ]
  ring

theorem Encoder.signed_bigEndian {value : Int} {width : Nat} (positive : 0 < width)
    (fits : FitsSigned width value) :
    Decoder.signed (bigEndian value width) = value := by
  obtain ⟨above, below⟩ := fits
  have double := signedLimit_double positive
  have digits := unsigned_bigEndian value width
  unfold Decoder.signed
  simp only [length_bigEndian]
  change (if Decoder.unsigned (bigEndian value width) < signedLimit width then _ else _) = _
  rw [double] at digits ⊢
  by_cases nonneg : 0 ≤ value
  · rw [Int.emod_eq_of_lt nonneg (by push_cast; omega)] at digits
    rw [if_pos (by omega)]
    exact digits
  · have wrapped : value % (2 * signedLimit width : Nat) =
        value + (2 * signedLimit width : Nat) := by
      rw [← Int.add_emod_right]
      exact Int.emod_eq_of_lt (by push_cast; omega) (by push_cast; omega)
    rw [wrapped] at digits
    rw [if_neg (by omega), digits]
    omega

theorem Decoder.fitsSigned_signed {digits : List UInt8} (positive : 0 < digits.length) :
    FitsSigned digits.length (Decoder.signed digits) := by
  have double := signedLimit_double positive
  have bounded := Decoder.unsigned_lt digits
  unfold FitsSigned Decoder.signed
  change -_ ≤ (if Decoder.unsigned digits < signedLimit digits.length then _ else _) ∧
    (if Decoder.unsigned digits < signedLimit digits.length then _ else _) < _
  rw [double] at bounded ⊢
  by_cases small : Decoder.unsigned digits < signedLimit digits.length
  · rw [if_pos small]
    omega
  · rw [if_neg small]
    push_cast
    omega

end Croupier
