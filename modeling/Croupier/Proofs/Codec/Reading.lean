/-
What a decoder makes of given bytes.

A decoder reads bytes as a value if it does so wherever the bytes stand and whatever follows
them, and stops right behind them. The statement is closed under everything that decoders are
put together from, so that a decoder and an encoder can be compared piece by piece.
-/

import Croupier.Proofs.Codec.Numeral

namespace Croupier.Decoder

variable {α β : Type}

/-- The decoder reads the bytes as the value and leaves what follows them. -/
def Reads (decoder : Decoder α) (bytes : List UInt8) (value : α) : Prop :=
  ∀ place offset rest,
    decoder ⟨place, offset, bytes ++ rest⟩ =
      .ok (value, ⟨place, offset + bytes.length, rest⟩)

/-! ### Composition -/

theorem reads_pure (value : α) : Reads (pure value) [] value :=
  fun _ _ _ => rfl

theorem reads_pure_of_eq {value result : α} (same : value = result) :
    Reads (pure value) [] result :=
  same ▸ reads_pure value

theorem Reads.of_eq {decoder : Decoder α} {bytes written : List UInt8} {value : α}
    (reads : Reads decoder bytes value) (same : written = bytes) :
    Reads decoder written value :=
  same ▸ reads

theorem Reads.bind {decoder : Decoder α} {next : α → Decoder β}
    {front back : List UInt8} {value : α} {result : β}
    (first : Reads decoder front value) (second : Reads (next value) back result) :
    Reads (decoder >>= next) (front ++ back) result := by
  intro place offset rest
  have opened := first place offset (back ++ rest)
  have closed := second place (offset + front.length) rest
  rw [List.append_assoc, List.length_append, ← Nat.add_assoc, ← closed]
  change (decoder _ >>= fun step => next step.1 step.2) = _
  rw [opened]
  rfl

/-- Nothing is read after the decoder. -/
theorem Reads.last {decoder : Decoder α} {next : α → Decoder β}
    {bytes : List UInt8} {value : α} {result : β}
    (first : Reads decoder bytes value) (second : Reads (next value) [] result) :
    Reads (decoder >>= next) bytes result := by
  have bound := first.bind second
  rwa [List.append_nil] at bound

/-- Nothing is read before the continuation. -/
theorem Reads.after {decoder : Decoder α} {next : α → Decoder β}
    {bytes : List UInt8} {value : α} {result : β}
    (first : Reads decoder [] value) (second : Reads (next value) bytes result) :
    Reads (decoder >>= next) bytes result :=
  first.bind second

theorem Reads.map {decoder : Decoder α} {bytes : List UInt8} {value : α}
    (change : α → β) (reads : Reads decoder bytes value) :
    Reads (change <$> decoder) bytes (change value) := by
  intro place offset rest
  change (decoder _ >>= fun step => pure (change step.1, step.2)) = _
  rw [reads]
  rfl

theorem reads_times_map {decoder : Decoder β} {encode : α → List UInt8} {value : α → β}
    {items : List α} (each : ∀ item ∈ items, Reads decoder (encode item) (value item)) :
    Reads (times decoder items.length) (items.flatMap encode) (items.map value) := by
  induction items with
  | nil => exact reads_pure []
  | cons item rest ih =>
      rw [List.length_cons, List.flatMap_cons, List.map_cons]
      have here := each item List.mem_cons_self
      have there := ih fun other member => each other (List.mem_cons_of_mem item member)
      exact here.bind (there.last (reads_pure _))

theorem reads_times {decoder : Decoder α} {encode : α → List UInt8} {items : List α}
    (each : ∀ item ∈ items, Reads decoder (encode item) item) :
    Reads (times decoder items.length) (items.flatMap encode) items := by
  have read : Reads (times decoder items.length) (items.flatMap encode)
      (items.map fun item => item) := reads_times_map each
  rwa [List.map_id'] at read

/-! ### Checks -/

theorem reads_require {condition : Bool} (cause : ParseCause) (holds : condition = true) :
    Reads (require condition cause) [] () := by
  rw [require, if_pos holds]
  exact reads_pure ()

/-- A check that enough bytes are left succeeds if what follows it takes them. -/
theorem Reads.room {next : Decoder α} {bytes : List UInt8} {value : α} {size : Nat}
    (cause : Nat → ParseCause) (reads : Reads next bytes value)
    (fits : size ≤ bytes.length) :
    Reads (do let left ← remaining; require (size ≤ left) (cause left); next)
      bytes value := by
  intro place offset rest
  have enough : size ≤ (bytes ++ rest).length := by
    rw [List.length_append]
    omega
  rw [← reads place offset rest]
  change (require (decide (size ≤ (bytes ++ rest).length)) _ >>= fun _ => next) _ = _
  rw [require, if_pos (decide_eq_true enough)]
  rfl

/-! ### Numbers -/

theorem reads_take {bytes : List UInt8} {count : Nat} (exactly : bytes.length = count) :
    Reads (take count) bytes bytes := by
  intro place offset rest
  subst exactly
  simp [take]

theorem reads_byte (digit : UInt8) : Reads byte [digit] digit := by
  have taken : Reads (take 1) [digit] [digit] := reads_take rfl
  exact taken.last (reads_pure _)

theorem reads_small (digit : UInt8) : Reads small [digit] digit.toNat :=
  (reads_byte digit).last (reads_pure _)

theorem reads_small_lowByte {value : Int} (nonneg : 0 ≤ value) (below : value < 256) :
    Reads small [lowByte value] value.toNat := by
  have read := reads_small (lowByte value)
  rwa [toNat_lowByte_of_lt nonneg below] at read

theorem reads_flag (value : Bool) : Reads flag [Encoder.flag value] value := by
  have read : Reads flag [Encoder.flag value] (decide (Encoder.flag value ≠ 0)) :=
    (reads_byte _).last (reads_pure _)
  cases value <;> exact read

theorem reads_natural {value : Int} {width : Nat} (nonneg : 0 ≤ value)
    (fits : value < (Nat.pow 256 width : Nat)) :
    Reads (natural width) (Encoder.bigEndian value width) value.toNat := by
  have taken := reads_take (Encoder.length_bigEndian value width)
  exact taken.last (reads_pure_of_eq (Encoder.unsigned_bigEndian_of_lt nonneg fits))

theorem reads_integer {value : Int} {width : Nat} (positive : 0 < width)
    (fits : FitsSigned width value) :
    Reads (integer width) (Encoder.bigEndian value width) value := by
  have taken := reads_take (Encoder.length_bigEndian value width)
  exact taken.last (reads_pure_of_eq (Encoder.signed_bigEndian positive fits))

end Croupier.Decoder
