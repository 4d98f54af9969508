import Mathlib.Data.List.Lex
import Mathlib.Data.List.Infix
import Mathlib.Order.Lex
import Mathlib.Tactic

/-! # Byte strings and machine integers

Byte strings with the operations of `std::string`: comparison in byte order,
searching for a pattern from a position, cutting out a piece, and writing an
integer in decimal. A search is specified by the positions at which the pattern
occurs (`Basis.OccursAt`); the lemmas place the first occurrence behind a prefix
that cannot hold one. The conversions between fixed-width integers and the
integers are the ones the C++ code relies on.
-/

namespace Basis

/-- A byte string, as `std::string` holds it. -/
abbrev Bytes := List UInt8

/-- The bytes of an ASCII literal. -/
def bytes (text : String) : Bytes := text.toList.map Char.toUInt8

/-- Bytes are compared by their unsigned value. -/
instance linearOrderUInt8 : LinearOrder UInt8 where
  le_refl := UInt8.le_refl
  le_trans := fun _ _ _ => UInt8.le_trans
  lt_iff_le_not_ge := fun first second => by
    simp only [UInt8.lt_iff_toNat_lt, UInt8.le_iff_toNat_le]
    omega
  le_antisymm := fun _ _ => UInt8.le_antisymm
  le_total := UInt8.le_total
  toDecidableLE := inferInstance
  toDecidableLT := inferInstance
  toDecidableEq := inferInstance

/-- Line break of the HTTP text formats. -/
def crlf : Bytes := [13, 10]

section Search

variable {α : Type} [DecidableEq α]

/-- `pattern` occurs in `text` at position `index`. -/
def OccursAt (pattern text : List α) (index : Nat) : Prop :=
  index ≤ text.length ∧ pattern <+: text.drop index

instance (pattern text : List α) (index : Nat) : Decidable (OccursAt pattern text index) :=
  inferInstanceAs (Decidable (index ≤ text.length ∧ pattern <+: text.drop index))

/-- Offset of the first occurrence of a pattern. -/
def firstOccurrence (pattern : List α) : List α → Option Nat
  | [] => if pattern = [] then some 0 else none
  | head :: tail =>
      if pattern.isPrefixOf (head :: tail) then some 0
      else (firstOccurrence pattern tail).map (· + 1)

/-- `text.find(pattern, start)`: the first occurrence at or after `start`, none
standing for `npos`. -/
def find (text pattern : List α) (start : Nat) : Option Nat :=
  if start ≤ text.length then (firstOccurrence pattern (text.drop start)).map (start + ·)
  else none

omit [DecidableEq α] in
/-- An occurrence in the tail, one position further on. -/
theorem occursAt_cons_succ (pattern : List α) (head : α) (tail : List α) (index : Nat) :
    OccursAt pattern (head :: tail) (index + 1) ↔ OccursAt pattern tail index := by
  simp only [OccursAt, List.length_cons, Nat.add_le_add_iff_right, List.drop_succ_cons]

/-- The first occurrence is one with none in front of it. -/
theorem firstOccurrence_eq_some_iff (pattern text : List α) (index : Nat) :
    firstOccurrence pattern text = some index ↔
      OccursAt pattern text index ∧ ∀ earlier < index, ¬ OccursAt pattern text earlier := by
  induction text generalizing index with
  | nil =>
      simp only [firstOccurrence, OccursAt, List.length_nil, Nat.le_zero_eq, List.drop_nil,
        List.prefix_nil]
      by_cases empty : pattern = []
      · simp only [empty, ↓reduceIte, Option.some.injEq, and_true]
        constructor
        · rintro rfl
          exact ⟨rfl, fun _ below => absurd below (Nat.not_lt_zero _)⟩
        · exact fun occurs => occurs.1.symm
      · simp [empty]
  | cons head tail ih =>
      by_cases here : pattern <+: head :: tail
      · have found : pattern.isPrefixOf (head :: tail) = true := List.isPrefixOf_iff_prefix.mpr here
        simp only [firstOccurrence, found, ↓reduceIte, Option.some.injEq]
        constructor
        · rintro rfl
          exact ⟨⟨Nat.zero_le _, here⟩, fun _ below => absurd below (Nat.not_lt_zero _)⟩
        · rintro ⟨_, least⟩
          by_contra positive
          exact least 0 (by omega) ⟨Nat.zero_le _, here⟩
      · have absent : pattern.isPrefixOf (head :: tail) = false := by
          rw [← Bool.not_eq_true, List.isPrefixOf_iff_prefix]
          exact here
        simp only [firstOccurrence, absent, Bool.false_eq_true, ↓reduceIte]
        cases index with
        | zero =>
            simp only [Option.map_eq_some_iff, Nat.add_eq_zero_iff, Nat.succ_ne_self, and_false,
              exists_const, Nat.not_lt_zero, IsEmpty.forall_iff, implies_true, and_true, false_iff]
            exact fun occurs => here occurs.2
        | succ index =>
            simp only [Option.map_eq_some_iff, Nat.add_right_cancel_iff, exists_eq_right, ih,
              occursAt_cons_succ]
            refine and_congr_right fun _ => ⟨fun least earlier below => ?_,
              fun least earlier below => ?_⟩
            · cases earlier with
              | zero => exact fun occurs => here occurs.2
              | succ earlier =>
                  rw [occursAt_cons_succ]
                  exact least earlier (by omega)
            · rw [← occursAt_cons_succ pattern head]
              exact least (earlier + 1) (by omega)

/-- Without a first occurrence there is none at all. -/
theorem firstOccurrence_eq_none_iff (pattern text : List α) :
    firstOccurrence pattern text = none ↔ ∀ index, ¬ OccursAt pattern text index := by
  constructor
  · intro none index occurs
    classical
    obtain ⟨least, found⟩ : ∃ least, OccursAt pattern text least ∧
        ∀ earlier < least, ¬ OccursAt pattern text earlier :=
      ⟨Nat.find ⟨index, occurs⟩, Nat.find_spec ⟨index, occurs⟩,
        fun _ below => Nat.find_min ⟨index, occurs⟩ below⟩
    rw [← firstOccurrence_eq_some_iff, none] at found
    cases found
  · intro never
    cases found : firstOccurrence pattern text with
    | none => rfl
    | some index =>
        exact absurd ((firstOccurrence_eq_some_iff pattern text index).mp found).1 (never index)

/-- The pattern does not occur at a position below the bound. -/
def AbsentBefore (pattern text : List α) (bound : Nat) : Prop :=
  ∀ index < bound, ¬ OccursAt pattern text index

/-- A pattern is found behind a part in which none begins. -/
theorem firstOccurrence_append (before pattern after : List α)
    (absent : AbsentBefore pattern (before ++ (pattern ++ after)) before.length) :
    firstOccurrence pattern (before ++ (pattern ++ after)) = some before.length := by
  rw [firstOccurrence_eq_some_iff]
  refine ⟨⟨by simp, ?_⟩, absent⟩
  rw [List.drop_left]
  exact List.prefix_append pattern after

/-- The search from the end of a prefix, when the pattern cannot occur earlier
than where it stands. -/
theorem find_append (skipped before pattern after : List α)
    (absent : AbsentBefore pattern (before ++ (pattern ++ after)) before.length) :
    find (skipped ++ (before ++ (pattern ++ after))) pattern skipped.length =
      some (skipped.length + before.length) := by
  unfold find
  rw [if_pos (by simp), List.drop_left, firstOccurrence_append before pattern after absent]
  rfl

/-- A search ends at or after its start, with the whole pattern inside the text. -/
theorem bounds_of_find {text pattern : List α} {start found : Nat}
    (search : find text pattern start = some found) :
    start ≤ found ∧ found + pattern.length ≤ text.length := by
  unfold find at search
  split at search
  · obtain ⟨offset, first, rfl⟩ := Option.map_eq_some_iff.mp search
    obtain ⟨⟨position, occurs⟩, _⟩ := (firstOccurrence_eq_some_iff _ _ _).mp first
    have length := occurs.length_le
    simp only [List.length_drop] at length position
    exact ⟨Nat.le_add_right .., by omega⟩
  · cases search

omit [DecidableEq α] in
/-- The occurrences behind a position, counted from there. -/
theorem occursAt_drop_iff {text pattern : List α} {start : Nat} (inside : start ≤ text.length)
    (index : Nat) : OccursAt pattern (text.drop start) index ↔ OccursAt pattern text (start + index) := by
  simp only [OccursAt, List.length_drop, List.drop_drop]
  exact and_congr_left fun _ => by omega

/-- A search finds the first occurrence from its start on. -/
theorem occursAt_of_find {text pattern : List α} {start found : Nat}
    (search : find text pattern start = some found) :
    OccursAt pattern text found ∧
      ∀ index, start ≤ index → index < found → ¬ OccursAt pattern text index := by
  unfold find at search
  split at search
  · rename_i inside
    obtain ⟨offset, first, rfl⟩ := Option.map_eq_some_iff.mp search
    obtain ⟨occurs, least⟩ := (firstOccurrence_eq_some_iff _ _ _).mp first
    refine ⟨(occursAt_drop_iff inside offset).mp occurs, fun index later earlier => ?_⟩
    obtain ⟨before, rfl⟩ := Nat.exists_eq_add_of_le later
    rw [← occursAt_drop_iff inside]
    exact least before (by omega)
  · cases search

section Segments

omit [DecidableEq α]

variable {pattern before after : List α}

theorem OccursAt.isInfix {text : List α} {index : Nat} (occurs : OccursAt pattern text index) :
    pattern <:+: text := occurs.2.isInfix.trans (List.drop_suffix index text).isInfix

/-- A pattern ends within the text it occurs in. -/
theorem OccursAt.bound {text : List α} {index : Nat} (occurs : OccursAt pattern text index) :
    index + pattern.length ≤ text.length := by
  have length := occurs.2.length_le
  have starts := occurs.1
  rw [List.length_drop] at length
  omega

/-- What occurs in a piece of a text occurs in the text, in front of the end of the
piece. -/
theorem OccursAt.of_take_drop {text : List α} {start count index : Nat}
    (inside : start ≤ text.length) (occurs : OccursAt pattern ((text.drop start).take count) index) :
    OccursAt pattern text (start + index) ∧ index + pattern.length ≤ count := by
  have bound := occurs.bound
  obtain ⟨within, rest, whole⟩ := occurs
  rw [List.length_take, List.length_drop] at within bound
  refine ⟨⟨by omega, ?_⟩, by omega⟩
  rw [List.drop_take] at whole
  refine (List.prefix_append pattern rest).trans ?_
  rw [whole, List.drop_drop]
  exact List.take_prefix _ _

/-- A pattern that is a piece of a text occurs somewhere in it. -/
theorem exists_occursAt {text : List α} (piece : pattern <:+: text) :
    ∃ index, OccursAt pattern text index := by
  obtain ⟨front, rest, rfl⟩ := piece
  refine ⟨front.length, by simp, ?_⟩
  rw [List.append_assoc, List.drop_left]
  exact List.prefix_append pattern rest

/-- Whether the pattern occurs inside a text does not depend on what follows. -/
theorem occursAt_append_iff {text rest : List α} {index : Nat}
    (inside : index + pattern.length ≤ text.length) :
    OccursAt pattern (text ++ rest) index ↔ OccursAt pattern text index := by
  have starts : index ≤ text.length := by omega
  have room : pattern.length ≤ (text.drop index).length := by
    rw [List.length_drop]
    omega
  unfold OccursAt
  rw [List.drop_append_of_le_length starts]
  constructor
  · rintro ⟨_, occurs⟩
    exact ⟨starts, List.prefix_of_prefix_length_le occurs (List.prefix_append _ _) room⟩
  · rintro ⟨_, occurs⟩
    exact ⟨by rw [List.length_append]; omega, occurs.trans (List.prefix_append _ _)⟩

/-- An occurrence that starts in `before` cannot reach over an element that is
not in the pattern, so it lies inside `before`. -/
theorem OccursAt.of_append_separator {separator : α} {index : Nat} (foreign : separator ∉ pattern)
    (starts : index ≤ before.length)
    (occurs : OccursAt pattern (before ++ separator :: after) index) :
    OccursAt pattern before index := by
  obtain ⟨rest, split⟩ := occurs.2
  rw [List.drop_append_of_le_length starts] at split
  have short : pattern.length ≤ (before.drop index).length := by
    by_contra long
    have position : (pattern ++ rest)[(before.drop index).length]? = some separator := by
      rw [split, List.getElem?_append_right (Nat.le_refl _), Nat.sub_self]
      rfl
    rw [List.getElem?_append_left (by omega)] at position
    exact foreign (List.mem_of_getElem? position)
  exact ⟨starts, List.prefix_of_prefix_length_le (split ▸ List.prefix_append pattern rest)
    (List.prefix_append _ _) short⟩

/-- A pattern absent from `before` and free of `separator` does not occur up to the
separator. -/
theorem absentBefore_separator {separator : α} (foreign : separator ∉ pattern)
    (absent : ¬ pattern <:+: before) :
    AbsentBefore pattern ((before ++ [separator]) ++ after) (before ++ [separator]).length := by
  intro index below occurs
  rw [List.length_append, List.length_singleton] at below
  rw [List.append_assoc, List.singleton_append] at occurs
  exact absent (occurs.of_append_separator foreign (Nat.le_of_lt_succ below)).isInfix

/-- A pattern whose first element is not in `before` does not start there. -/
theorem absentBefore_of_head {first : α} (absent : first ∉ before) :
    AbsentBefore (first :: pattern) (before ++ after) before.length := by
  intro index below occurs
  obtain ⟨rest, split⟩ := occurs.2
  have position : (before ++ after)[index]? = some first := by
    rw [← List.head?_drop, ← split]
    rfl
  rw [List.getElem?_append_left below] at position
  exact absent (List.mem_of_getElem? position)

/-- A pattern whose first element occurs in it only once does not start earlier than
where it first stands. -/
theorem absentBefore_self {first : α} {tail : List α} (once : first ∉ tail)
    (absent : ¬ first :: tail <:+: before) :
    AbsentBefore (first :: tail) (before ++ (first :: tail ++ after)) before.length := by
  intro index below occurs
  have here : before.drop index = before[index] :: before.drop (index + 1) :=
    List.drop_eq_getElem_cons below
  have starts := occurs.2
  rw [List.drop_append_of_le_length below.le, here, List.cons_append,
    List.cons_prefix_cons] at starts
  have later : OccursAt tail (before ++ first :: (tail ++ after)) (index + 1) := by
    refine ⟨by rw [List.length_append]; omega, ?_⟩
    rw [List.drop_append_of_le_length below]
    exact starts.2
  have inside := later.of_append_separator once below
  refine absent (List.IsInfix.trans ?_ (List.drop_suffix index before).isInfix)
  rw [here, ← starts.1]
  exact ((List.prefix_cons_inj first).mpr inside.2).isInfix

/-- Absence from two adjacent segments. -/
theorem AbsentBefore.append {bound : Nat}
    (start : AbsentBefore pattern (before ++ after) before.length)
    (rest : AbsentBefore pattern after bound) :
    AbsentBefore pattern (before ++ after) (before.length + bound) := by
  intro index below occurs
  by_cases early : index < before.length
  · exact start index early occurs
  · refine rest (index - before.length) (by omega) ⟨?_, ?_⟩
    · have inside := occurs.1
      rw [List.length_append] at inside
      omega
    · have occurs := occurs.2
      rwa [List.drop_append, List.drop_eq_nil_of_le (by omega), List.nil_append] at occurs

/-- A pattern that occurs nowhere is no piece of the text. -/
theorem not_isInfix_of_absentBefore {text : List α} (nonempty : pattern ≠ [])
    (absent : AbsentBefore pattern text text.length) : ¬ pattern <:+: text := by
  rintro ⟨front, rest, rfl⟩
  have positive := List.length_pos_iff.mpr nonempty
  refine absent front.length ?_ ⟨?_, ?_⟩
  · simp only [List.length_append]
    omega
  · simp only [List.length_append]
    omega
  · rw [List.append_assoc, List.drop_left]
    exact List.prefix_append pattern rest

end Segments

end Search

/-- Decimal digits of a natural number, as `std::to_string` prints it. -/
def decimal (number : Nat) : Bytes := (Nat.toDigits 10 number).map Char.toUInt8

/-- `std::to_string` of a signed integer. -/
def decimalInt (number : Int) : Bytes :=
  if number < 0 then 45 :: decimal number.natAbs else decimal number.natAbs

/-- The byte is a decimal digit. -/
def isDigit (byte : UInt8) : Bool := 48 ≤ byte && byte ≤ 57

/-- The number a digit string denotes. -/
def decimalValue (digits : Bytes) : Nat :=
  digits.foldl (fun value digit => 10 * value + (digit.toNat - 48)) 0

/-- The character of a digit fits into a byte. -/
theorem char_toUInt8_toNat {char : Char} (digit : char.isDigit = true) :
    char.toUInt8.toNat = char.toNat := by
  simp only [Char.isDigit, Bool.and_eq_true, decide_eq_true_eq] at digit
  have bound : char.val.toNat ≤ 57 := UInt32.le_iff_toNat_le.mp digit.2
  simp only [Char.toUInt8, UInt32.toNat_toUInt8, Char.toNat]
  omega

/-- A number is printed in digits. -/
theorem isDigit_of_mem_decimal {number : Nat} {byte : UInt8} (member : byte ∈ decimal number) :
    isDigit byte = true := by
  obtain ⟨char, inside, rfl⟩ := List.mem_map.mp member
  have digit := Nat.isDigit_of_mem_toDigits (by decide) (by decide) inside
  have value := char_toUInt8_toNat digit
  simp only [Char.isDigit, Bool.and_eq_true, decide_eq_true_eq, UInt32.le_iff_toNat_le,
    ge_iff_le] at digit
  simp only [isDigit, Bool.and_eq_true, decide_eq_true_eq, UInt8.le_iff_toNat_le, value]
  exact digit

/-- An integer is printed in digits, perhaps behind a minus sign. -/
theorem minus_or_isDigit_of_mem_decimalInt {number : Int} {byte : UInt8}
    (member : byte ∈ decimalInt number) : byte = 45 ∨ isDigit byte = true := by
  unfold decimalInt at member
  split at member
  · rcases List.mem_cons.mp member with same | member
    · exact .inl same
    · exact .inr (isDigit_of_mem_decimal member)
  · exact .inr (isDigit_of_mem_decimal member)

theorem decimal_ne_nil (number : Nat) : decimal number ≠ [] := by
  simp only [decimal, ne_eq, List.map_eq_nil_iff]
  exact Nat.toDigits_ne_nil

/-- Reading back the decimal digits of a number. -/
theorem decimalValue_decimal (number : Nat) : decimalValue (decimal number) = number := by
  have fold (chars : List Char) (digits : ∀ char ∈ chars, char.isDigit = true) (start : Nat) :
      (chars.map Char.toUInt8).foldl (fun value digit => 10 * value + (digit.toNat - 48)) start =
        Nat.ofDigitChars 10 chars start := by
    induction chars generalizing start with
    | nil => simp only [List.map_nil, List.foldl_nil, Nat.ofDigitChars_nil]
    | cons char rest ih =>
        rw [List.map_cons, List.foldl_cons, Nat.ofDigitChars_cons,
          ih (fun other member => digits other (List.mem_cons_of_mem _ member)),
          char_toUInt8_toNat (digits char (List.mem_cons_self ..))]
        rfl
  have digits : ∀ char ∈ Nat.toDigits 10 number, char.isDigit = true :=
    fun char member => Nat.isDigit_of_mem_toDigits (by decide) (by decide) member
  exact (fold _ digits 0).trans Nat.ofDigitChars_ten_toDigits

/-- The byte is one of `0-9`, `a-f`, `A-F`. -/
def isHexDigit (byte : UInt8) : Bool :=
  (48 ≤ byte && byte ≤ 57) || (97 ≤ byte && byte ≤ 102) || (65 ≤ byte && byte ≤ 70)

/-- A property of bytes is checked byte by byte. -/
theorem forall_byte {property : UInt8 → Prop} (all : ∀ code : Fin 256, property (UInt8.ofNat code))
    (byte : UInt8) : property byte := by
  have same : UInt8.ofNat byte.toNat = byte := UInt8.ofNat_toNat
  rw [← same]
  exact all ⟨byte.toNat, byte.toNat_lt⟩

/-- A 32-bit number is not changed by way of an integer. -/
theorem uint32_ofInt_toNat (value : UInt32) : UInt32.ofInt (value.toNat : Int) = value := by
  have bound := value.toNat_lt
  have reduced : ((value.toNat : Int) % 2 ^ 32).toNat = value.toNat := by omega
  rw [UInt32.ofInt, reduced, UInt32.ofNat_toNat]

/-- A 64-bit number is not changed by way of an integer. -/
theorem uint64_ofInt_toNat (value : UInt64) : UInt64.ofInt (value.toNat : Int) = value := by
  have bound := value.toNat_lt
  have reduced : ((value.toNat : Int) % 2 ^ 64).toNat = value.toNat := by omega
  rw [UInt64.ofInt, reduced, UInt64.ofNat_toNat]

/-- Converting a signed to an unsigned 64-bit integer reduces it modulo 2^64. -/
theorem int64_toUInt64 (value : Int64) : value.toUInt64 = UInt64.ofInt value.toInt := by
  rw [← UInt64.toNat_inj, ← Int64.toNat_toBitVec, UInt64.ofInt, UInt64.toNat_ofNat',
    Int64.toInt, BitVec.toInt_eq_toNat_bmod]
  have bound := value.toBitVec.isLt
  have reduced : (value.toBitVec.toNat : Int).bmod (2 ^ 64) % 2 ^ 64 =
      (value.toBitVec.toNat : Int) % 2 ^ 64 := Int.bmod_emod
  rw [reduced]
  omega

/-- The unsigned 64-bit integer of an integer is its residue. -/
theorem toNat_uint64_ofInt (value : Int) :
    ((UInt64.ofInt value).toNat : Int) = value % 2 ^ 64 := by
  rw [UInt64.ofInt, UInt64.toNat_ofNat']
  omega

end Basis
