import Cdfs.Http.UrlEncoding

/-! # The texts that decode

An encoded text is written one item for each byte it stands for: a plus sign for a space,
a percent sign with two hexadecimal digits for any byte, and a byte other than these two
signs for itself. `decode` accepts the texts with such a reading, and no text has two.
-/

namespace Cdfs

open Basis

namespace UrlUtils

/-- A hexadecimal digit, in either case, and the number it stands for. -/
def DigitOf (digit : UInt8) (number : Nat) : Prop :=
  (bytes "0123456789abcdef")[number]? = some digit ∨
    (bytes "0123456789ABCDEF")[number]? = some digit

/-- An item of an encoded text and the byte it stands for. -/
inductive Item : Bytes → UInt8 → Prop where
  | space : Item [43] 32
  | escape {first second : UInt8} {high low : Nat} (firstDigit : DigitOf first high)
      (secondDigit : DigitOf second low) : Item [37, first, second] (UInt8.ofNat (16 * high + low))
  | plain {byte : UInt8} (notPlus : byte ≠ 43) (notPercent : byte ≠ 37) : Item [byte] byte

/-- A text written as one item for each byte of the decoded text. -/
inductive Encodes : Bytes → Bytes → Prop where
  | nil : Encodes [] []
  | cons {item rest decoded : Bytes} {byte : UInt8} (front : Item item byte)
      (behind : Encodes rest decoded) : Encodes (item ++ rest) (byte :: decoded)

theorem DigitOf.lt {digit : UInt8} {number : Nat} (stands : DigitOf digit number) : number < 16 := by
  rcases stands with lower | upper
  · exact (List.getElem?_eq_some_iff.mp lower).1
  · exact (List.getElem?_eq_some_iff.mp upper).1

/-- The digits are the bytes `isxdigit` accepts, and their numbers those of `hexToVal`. -/
theorem digitOf_iff {digit : UInt8} {number : Nat} :
    DigitOf digit number ↔ isHexDigit digit = true ∧ (hexToVal digit).toNat = number := by
  have written : ∀ digits ∈ [bytes "0123456789abcdef", bytes "0123456789ABCDEF"], ∀ number < 16,
      ∀ digit ∈ digits[number]?, isHexDigit digit = true ∧ (hexToVal digit).toNat = number := by
    decide +kernel
  have read : ∀ digit : UInt8, isHexDigit digit = true → DigitOf digit (hexToVal digit).toNat :=
    forall_byte (by unfold DigitOf; decide +kernel)
  constructor
  · intro stands
    have small := stands.lt
    rcases stands with lower | upper
    · exact written _ (List.mem_cons_self ..) number small digit lower
    · exact written _ (List.mem_cons_of_mem _ (List.mem_cons_self ..)) number small digit upper
  · rintro ⟨accepted, rfl⟩
    exact read digit accepted

/-- The byte written by two digits. -/
theorem ofNat_digits {first second : UInt8} {high low : Nat} (firstDigit : DigitOf first high)
    (secondDigit : DigitOf second low) :
    UInt8.ofNat (16 * high + low) = hexToVal first * 16 + hexToVal second := by
  rw [← (digitOf_iff.mp firstDigit).2, ← (digitOf_iff.mp secondDigit).2, UInt8.ofNat_add,
    UInt8.ofNat_mul, UInt8.ofNat_toNat, UInt8.ofNat_toNat, UInt8.mul_comm]
  rfl

/-- Decoding reads an item in front as its byte. -/
theorem decode_item {item : Bytes} {byte : UInt8} (front : Item item byte) (rest : Bytes) :
    decode (item ++ rest) = (decode rest).map (byte :: ·) := by
  cases front with
  | space => rfl
  | escape firstDigit secondDigit =>
      have digits := And.intro (digitOf_iff.mp firstDigit).1 (digitOf_iff.mp secondDigit).1
      change decode (37 :: _ :: _ :: rest) = _
      rw [decode, if_pos (Bool.and_eq_true_iff.mpr digits), ofNat_digits firstDigit secondDigit]
  | plain notPlus notPercent => exact decode_plain notPlus notPercent rest

theorem Encodes.decode_eq {text decoded : Bytes} (reading : Encodes text decoded) :
    decode text = .ok decoded := by
  induction reading with
  | nil => rfl
  | cons front _ ih => rw [decode_item front, ih]; rfl

/-- A text is decoded to its reading, or it has none and decoding throws with a message
about the encoding. -/
theorem encodes_or_throws (text : Bytes) :
    (∃ decoded, decode text = .ok decoded ∧ Encodes text decoded) ∨
      ∃ detail, decode text = .error (.other (bytes "Invalid URL encode: " ++ detail)) := by
  have later {item rest : Bytes} {byte : UInt8} (front : Item item byte)
      (ih : (∃ decoded, decode rest = .ok decoded ∧ Encodes rest decoded) ∨
        ∃ detail, decode rest = .error (.other (bytes "Invalid URL encode: " ++ detail))) :
      (∃ decoded, decode (item ++ rest) = .ok decoded ∧ Encodes (item ++ rest) decoded) ∨
        ∃ detail, decode (item ++ rest) =
          .error (.other (bytes "Invalid URL encode: " ++ detail)) := by
    rw [decode_item front]
    rcases ih with ⟨decoded, read, reading⟩ | ⟨detail, thrown⟩
    · exact .inl ⟨_, by rw [read]; rfl, .cons front reading⟩
    · exact .inr ⟨detail, by rw [thrown]; rfl⟩
  induction text using decode.induct with
  | case1 => exact .inl ⟨[], rfl, .nil⟩
  | case2 rest ih => exact later .space ih
  | case3 first second rest digits ih =>
      obtain ⟨firstDigit, secondDigit⟩ := Bool.and_eq_true_iff.mp digits
      exact later (.escape (digitOf_iff.mpr ⟨firstDigit, rfl⟩) (digitOf_iff.mpr ⟨secondDigit, rfl⟩)) ih
  | case4 first second rest noDigits =>
      rw [decode, if_neg noDigits]
      exact .inr ⟨_, rfl⟩
  | case5 tail short =>
      rw [decode]
      · exact .inr ⟨bytes "incomplete % sequence (e.g. %2)", by decide +kernel⟩
      · exact short
  | case6 byte rest notPlus _ notPercent ih => exact later (.plain notPlus notPercent) ih

/-- **Percent-decoding accepts exactly its grammar.** A text is decoded to the bytes its
items stand for, and decoding throws when and only when the text is no row of items. -/
theorem decode_iff_encodes (text : Bytes) :
    (∀ decoded, decode text = .ok decoded ↔ Encodes text decoded) ∧
      ((∃ detail, decode text = .error (.other (bytes "Invalid URL encode: " ++ detail))) ↔
        ¬ ∃ decoded, Encodes text decoded) := by
  constructor
  · intro decoded
    constructor
    · intro read
      rcases encodes_or_throws text with ⟨found, same, reading⟩ | ⟨_, thrown⟩
      · rw [same] at read
        cases read
        exact reading
      · rw [thrown] at read
        cases read
    · exact Encodes.decode_eq
  · constructor
    · rintro ⟨_, thrown⟩ ⟨_, reading⟩
      rw [reading.decode_eq] at thrown
      cases thrown
    · intro unreadable
      rcases encodes_or_throws text with ⟨decoded, _, reading⟩ | thrown
      · exact absurd ⟨decoded, reading⟩ unreadable
      · exact thrown

/-- A byte above `0x7F` as its last two characters, and the same cut short. -/
example : decode (bytes "a+%e5") = .ok [97, 32, 0xe5] ∧ (decode (bytes "a+%e")).isOk = false := by
  decide +kernel

end UrlUtils

end Cdfs
