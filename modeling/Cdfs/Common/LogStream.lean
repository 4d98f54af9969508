import Cdfs.Basis.FsPath

/-! # The buffer of a log line

`common/logStream.h`: a fixed array and a pointer into it. Texts are copied when they fit
in the space left; numbers are written by `sprintf` when more than a fixed reserve is
left, with a terminating NUL. Cells are addressed by their offset from the start of the
array, and every store is recorded, so that a store outside it would be seen.
-/

namespace Cdfs

open Basis FsPath

/-- `FixedBuffer`: the memory from `buffer_` on, the pointer `current_`, and the offsets
stored to so far. -/
structure FixedBuffer (size : Nat) where
  memory : Nat → UInt8
  current : Nat := 0
  stored : List Nat := []

namespace FixedBuffer

variable {size : Nat}

/-- `avail`. -/
def avail (buffer : FixedBuffer size) : Int32 := Int32.ofInt (size - buffer.current)

/-- `length`. -/
def length (buffer : FixedBuffer size) : Int32 := Int32.ofInt buffer.current

/-- Copying bytes to the pointer. -/
def store (buffer : FixedBuffer size) (data : Bytes) : FixedBuffer size :=
  { buffer with
    memory := fun offset =>
      if buffer.current ≤ offset then (data[offset - buffer.current]?).getD (buffer.memory offset)
      else buffer.memory offset
    stored := buffer.stored ++ List.range' buffer.current data.length }

/-- `add`. -/
def add (buffer : FixedBuffer size) (len : Nat) : FixedBuffer size :=
  { buffer with current := buffer.current + len }

/-- `append`: the space left, converted to `size_t`, is compared with the length. -/
def append (buffer : FixedBuffer size) (str : Bytes) : FixedBuffer size :=
  if (UInt64.ofInt buffer.avail.toInt).toNat < str.length then buffer
  else (buffer.store str).add str.length

/-- The text in the buffer. -/
def content (buffer : FixedBuffer size) : Bytes := (List.range buffer.current).map buffer.memory

end FixedBuffer

/-- What is written to a stream: the bytes at a pointer, which may be null, a string or
a number. -/
inductive LogPiece where
  | chars (str : Option Bytes)
  | string (str : Bytes)
  | number (num : Int32)
  deriving DecidableEq, Repr

namespace LogStream

/-- `kSmallBuffer`. -/
def kSmallBuffer : Nat := 4000

/-- `kMaxNumericSize`. -/
def kMaxNumericSize : Int32 := 48

/-- `formatInteger`: the digits and the NUL behind them are stored, the digits counted. -/
def formatInteger (buffer : FixedBuffer kSmallBuffer) (num : Int32) : FixedBuffer kSmallBuffer :=
  if buffer.avail > kMaxNumericSize then
    (buffer.store (decimalInt num.toInt ++ [0])).add (decimalInt num.toInt).length
  else buffer

/-- The three insertion operators. -/
def insert (buffer : FixedBuffer kSmallBuffer) : LogPiece → FixedBuffer kSmallBuffer
  | .chars (some str) => buffer.append (cString str)
  | .chars none => buffer.append (bytes "(null)")
  | .string str => buffer.append str
  | .number num => formatInteger buffer num

/-- The buffer of a stream after some insertions, the array uninitialised before. -/
def logged (memory : Nat → UInt8) (pieces : List LogPiece) : FixedBuffer kSmallBuffer :=
  pieces.foldl insert { memory }

/-! ## What a log line holds -/

/-- The text of a piece. -/
def text : LogPiece → Bytes
  | .chars str => (str.map cString).getD (bytes "(null)")
  | .string str => str
  | .number num => decimalInt num.toInt

/-- A piece fits in the space left: a text with its length, a number with the reserve. -/
def Fits (left : Nat) : LogPiece → Prop
  | .number _ => 48 < left
  | piece => (text piece).length ≤ left

instance (left : Nat) : DecidablePred (Fits left)
  | .number _ => inferInstanceAs (Decidable (48 < left))
  | .chars str => inferInstanceAs (Decidable ((text (.chars str)).length ≤ left))
  | .string str => inferInstanceAs (Decidable (str.length ≤ left))

/-- The line with one more piece, kept whole or left out. -/
def extend (line : Bytes) (piece : LogPiece) : Bytes :=
  if Fits (kSmallBuffer - line.length) piece then line ++ text piece else line

/-- The pieces that fit, one behind the other. -/
def line (pieces : List LogPiece) : Bytes := pieces.foldl extend []

end LogStream

namespace FixedBuffer

variable {size : Nat} {buffer : FixedBuffer size}

/-- The pointer and all stores are inside the array. -/
structure Inside (buffer : FixedBuffer size) : Prop where
  current : buffer.current ≤ size
  stored : ∀ offset ∈ buffer.stored, offset < size

theorem toInt_avail (small : size < 2 ^ 31) (inside : buffer.Inside) :
    buffer.avail.toInt = (size - buffer.current : Nat) := by
  have current := inside.current
  rw [avail, Int32.toInt_ofInt_of_le (by omega) (by omega)]
  omega

theorem toInt_length (small : size < 2 ^ 31) (inside : buffer.Inside) :
    buffer.length.toInt = buffer.current := by
  have current := inside.current
  rw [length, Int32.toInt_ofInt_of_le (by omega) (by omega)]

@[simp] theorem length_content (buffer : FixedBuffer size) :
    buffer.content.length = buffer.current := by
  rw [content, List.length_map, List.length_range]

/-- Storing a text at the pointer and moving the pointer over a front part of it. -/
theorem content_store_add (buffer : FixedBuffer size) (front back : Bytes) :
    ((buffer.store (front ++ back)).add front.length).content = buffer.content ++ front := by
  change (List.range (buffer.current + front.length)).map _ = _
  rw [List.range_add, List.map_append, List.map_map]
  congr 1
  · apply List.map_congr_left
    intro offset before
    exact if_neg (Nat.not_le.mpr (List.mem_range.mp before))
  · apply List.ext_getElem
    · rw [List.length_map, List.length_range]
    · intro index below inside
      rw [List.getElem_map, List.getElem_range]
      change (if buffer.current ≤ buffer.current + index then _ else _) = _
      rw [if_pos (Nat.le_add_right ..), Nat.add_sub_cancel_left, List.getElem?_append_left inside,
        List.getElem?_eq_getElem inside]
      rfl

theorem Inside.store_add (inside : buffer.Inside) {front back : Bytes}
    (room : buffer.current + (front ++ back).length ≤ size) :
    ((buffer.store (front ++ back)).add front.length).Inside := by
  rw [List.length_append] at room
  constructor
  · change buffer.current + front.length ≤ size
    omega
  · intro offset member
    rcases List.mem_append.mp member with earlier | now
    · exact inside.stored offset earlier
    · rw [List.mem_range'_1, List.length_append] at now
      omega

/-- Appending keeps a text whole or leaves it out. -/
theorem append_spec (small : size < 2 ^ 31) (inside : buffer.Inside) (str : Bytes) :
    (buffer.append str).Inside ∧ (buffer.append str).content =
      if str.length ≤ size - buffer.current then buffer.content ++ str else buffer.content := by
  have space : (UInt64.ofInt buffer.avail.toInt).toNat = size - buffer.current := by
    have converted := toNat_uint64_ofInt buffer.avail.toInt
    rw [toInt_avail small inside] at converted ⊢
    omega
  unfold append
  rw [space]
  split
  · rename_i long
    rw [if_neg (Nat.not_le.mpr long)]
    exact ⟨inside, rfl⟩
  · rename_i short
    have current := inside.current
    rw [if_pos (Nat.not_lt.mp short)]
    have stored := content_store_add buffer str []
    have kept := @Inside.store_add _ _ inside str [] (by rw [List.append_nil]; omega)
    rw [List.append_nil] at stored kept
    exact ⟨kept, stored⟩

end FixedBuffer

namespace LogStream

open FixedBuffer

/-- A number has at most ten digits and a sign. -/
theorem length_decimalInt_le (num : Int32) : (decimalInt num.toInt).length ≤ 11 := by
  have low := num.le_toInt
  have high := num.toInt_lt
  have digits : (decimal num.toInt.natAbs).length ≤ 10 := by
    rw [decimal, List.length_map]
    exact Nat.toDigits_length 10 _ 10 (by decide) (by omega)
  unfold decimalInt
  split
  · rw [List.length_cons]
    omega
  · omega

/-- A number is written whole, with its NUL inside the array, or left out. -/
theorem formatInteger_spec {buffer : FixedBuffer kSmallBuffer} (inside : buffer.Inside)
    (num : Int32) : (formatInteger buffer num).Inside ∧ (formatInteger buffer num).content =
      if 48 < kSmallBuffer - buffer.current then buffer.content ++ decimalInt num.toInt
      else buffer.content := by
  have reserve : buffer.avail > kMaxNumericSize ↔ 48 < kSmallBuffer - buffer.current := by
    rw [gt_iff_lt, Int32.lt_iff_toInt_lt, toInt_avail (by decide) inside]
    change (48 : Int) < _ ↔ _
    omega
  unfold formatInteger
  by_cases room : 48 < kSmallBuffer - buffer.current
  · rw [if_pos (reserve.mpr room), if_pos room]
    refine ⟨inside.store_add ?_, content_store_add buffer _ _⟩
    have digits := length_decimalInt_le num
    rw [List.length_append, List.length_singleton]
    omega
  · rw [if_neg (reserve.not.mpr room), if_neg room]
    exact ⟨inside, rfl⟩

/-- An insertion stays inside the array and extends the line by the whole piece if it
fits. -/
theorem insert_spec {buffer : FixedBuffer kSmallBuffer} (inside : buffer.Inside)
    (piece : LogPiece) :
    (insert buffer piece).Inside ∧ (insert buffer piece).content = extend buffer.content piece := by
  unfold extend
  rw [length_content]
  cases piece with
  | chars str =>
      cases str with
      | none => exact append_spec (by decide) inside _
      | some str => exact append_spec (by decide) inside _
  | string str => exact append_spec (by decide) inside str
  | number num => exact formatInteger_spec inside num

theorem logged_spec (memory : Nat → UInt8) (pieces : List LogPiece) :
    (logged memory pieces).Inside ∧ (logged memory pieces).content = line pieces := by
  have run (pieces : List LogPiece) {buffer : FixedBuffer kSmallBuffer} (inside : buffer.Inside) :
      (pieces.foldl insert buffer).Inside ∧
        (pieces.foldl insert buffer).content = pieces.foldl extend buffer.content := by
    induction pieces generalizing buffer with
    | nil => exact ⟨inside, rfl⟩
    | cons piece pieces ih =>
        obtain ⟨kept, extended⟩ := insert_spec inside piece
        rw [List.foldl_cons, List.foldl_cons, ← extended]
        exact ih kept
  exact run pieces ⟨Nat.zero_le _, by simp⟩

/-- **The log buffer never overflows.** After any insertions the length is within the
array, nothing was stored outside it, and the content consists of the pieces that fitted,
each whole, in their order. -/
theorem logged_inside (memory : Nat → UInt8) (pieces : List LogPiece) :
    0 ≤ (logged memory pieces).length.toInt ∧ (logged memory pieces).length.toInt ≤ 4000 ∧
      (∀ offset ∈ (logged memory pieces).stored, offset < 4000) ∧
      (logged memory pieces).content = line pieces := by
  obtain ⟨inside, content⟩ := logged_spec memory pieces
  have current := inside.current
  rw [toInt_length (by decide) inside]
  exact ⟨Int.natCast_nonneg _, Int.ofNat_le.mpr current, inside.stored, content⟩

/-- A null pointer, a name that does not fit and a number behind it. -/
example : line [.chars none, .string (List.replicate 4001 97), .number (-7)] =
    bytes "(null)-7" := by
  decide +kernel

end LogStream

end Cdfs
