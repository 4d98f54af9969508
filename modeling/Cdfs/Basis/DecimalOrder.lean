import Cdfs.Basis.Bytes

/-! # The byte order of decimal numbers

How two decimal numbers compare as texts, when each is ended by a byte above the
digits. Texts of digits of one length compare like their values
(`Basis.lt_iff_decimalValue_lt`); a shorter number compares with the leading digits
of a longer one, and is the greater of the two when they agree
(`Basis.decimal_lt_iff`).
-/

namespace Basis

section Lex

/-- Texts with front pieces of one length are compared by these first. -/
theorem append_lt_append_iff_of_length {first second : Bytes} (rest other : Bytes)
    (length : first.length = second.length) :
    first ++ rest < second ++ other ↔ first < second ∨ first = second ∧ rest < other := by
  induction first generalizing second with
  | nil =>
      rw [List.eq_nil_of_length_eq_zero length.symm]
      simp
  | cons byte first ih =>
      cases second with
      | nil => cases length
      | cons head second =>
          have tails := ih (Nat.succ.inj length)
          simp only [List.cons_append, List.cons_lt_cons_iff, tails, List.cons.injEq]
          tauto

end Lex

section Values

/-- All bytes are digits. -/
def Digits (text : Bytes) : Prop := ∀ byte ∈ text, isDigit byte = true

theorem digits_decimal (number : Nat) : Digits (decimal number) :=
  fun _ member => isDigit_of_mem_decimal member

/-- The digits are ten bytes in a row. -/
theorem bounds_of_isDigit {byte : UInt8} (digit : isDigit byte = true) :
    48 ≤ byte.toNat ∧ byte.toNat ≤ 57 := by
  simp only [isDigit, Bool.and_eq_true, decide_eq_true_eq, UInt8.le_iff_toNat_le] at digit
  exact digit

/-- Reading on shifts what has been read. -/
theorem foldl_digits (text : Bytes) (start : Nat) :
    text.foldl (fun value digit => 10 * value + (digit.toNat - 48)) start =
      start * 10 ^ text.length + decimalValue text := by
  unfold decimalValue
  induction text generalizing start with
  | nil => simp
  | cons byte rest ih =>
      rw [List.foldl_cons, List.foldl_cons, ih, ih (10 * 0 + _), List.length_cons, Nat.pow_succ]
      ring

theorem decimalValue_cons (byte : UInt8) (rest : Bytes) :
    decimalValue (byte :: rest) = (byte.toNat - 48) * 10 ^ rest.length + decimalValue rest := by
  rw [decimalValue, List.foldl_cons, foldl_digits, Nat.mul_zero, Nat.zero_add]

/-- The value is bounded by the number of digits. -/
theorem decimalValue_lt {text : Bytes} (digits : Digits text) :
    decimalValue text < 10 ^ text.length := by
  induction text with
  | nil => exact Nat.one_pos
  | cons byte rest ih =>
      have below := ih fun other member => digits other (List.mem_cons_of_mem _ member)
      have bounds := bounds_of_isDigit (digits byte (List.mem_cons_self ..))
      have digit : byte.toNat - 48 ≤ 9 := by omega
      have scaled := Nat.mul_le_mul_right (10 ^ rest.length) digit
      rw [decimalValue_cons, List.length_cons, Nat.pow_succ]
      omega

/-- Leading digits are compared first. -/
theorem leading_lt_iff {leading other value rest base : Nat} (small : value < base)
    (otherSmall : rest < base) :
    leading * base + value < other * base + rest ↔
      leading < other ∨ leading = other ∧ value < rest := by
  rcases Nat.lt_trichotomy leading other with less | rfl | more
  · have scaled := Nat.mul_le_mul_right base (Nat.succ_le_of_lt less)
    rw [Nat.succ_mul] at scaled
    omega
  · omega
  · have scaled := Nat.mul_le_mul_right base (Nat.succ_le_of_lt more)
    rw [Nat.succ_mul] at scaled
    omega

/-- Digit texts of one length compare like their values. -/
theorem lt_iff_decimalValue_lt {first second : Bytes} (length : first.length = second.length)
    (firstDigits : Digits first) (secondDigits : Digits second) :
    first < second ↔ decimalValue first < decimalValue second := by
  induction first generalizing second with
  | nil =>
      rw [List.eq_nil_of_length_eq_zero length.symm]
      simp
  | cons byte first ih =>
      cases second with
      | nil => cases length
      | cons head second =>
          have same := Nat.succ.inj length
          have firstRest : Digits first :=
            fun other member => firstDigits other (List.mem_cons_of_mem _ member)
          have secondRest : Digits second :=
            fun other member => secondDigits other (List.mem_cons_of_mem _ member)
          have firstBound := decimalValue_lt firstRest
          have secondBound := decimalValue_lt secondRest
          have firstHead := bounds_of_isDigit (firstDigits byte (List.mem_cons_self ..))
          have secondHead := bounds_of_isDigit (secondDigits head (List.mem_cons_self ..))
          rw [List.cons_lt_cons_iff, ih same firstRest secondRest, decimalValue_cons,
            decimalValue_cons, same, UInt8.lt_iff_toNat_lt, ← UInt8.toNat_inj]
          rw [same] at firstBound
          rw [leading_lt_iff firstBound secondBound]
          omega

end Values

section Decimals

/-- The number of decimal digits of a number. -/
def digitCount (number : Nat) : Nat := (decimal number).length

/-- The numbers with at most so many digits. -/
theorem digitCount_le_iff {number count : Nat} (positive : 0 < count) :
    digitCount number ≤ count ↔ number < 10 ^ count := by
  rw [digitCount, decimal, List.length_map]
  exact Nat.length_toDigits_le_iff (by decide) positive

theorem digitCount_pos (number : Nat) : 0 < digitCount number :=
  List.length_pos_iff.mpr (decimal_ne_nil number)

/-- A greater number has at least as many digits. -/
theorem digitCount_mono {smaller larger : Nat} (ordered : smaller ≤ larger) :
    digitCount smaller ≤ digitCount larger := by
  rw [digitCount_le_iff (digitCount_pos larger)]
  exact ordered.trans_lt ((digitCount_le_iff (digitCount_pos larger)).mp (Nat.le_refl _))

/-- The last digit of a number of several digits. -/
theorem decimal_concat {number : Nat} (long : 10 ≤ number) :
    decimal number = decimal (number / 10) ++ decimal (number % 10) := by
  have last : number % 10 < 10 := Nat.mod_lt _ (by decide)
  unfold decimal
  rw [Nat.toDigits_of_base_le (by decide) long, Nat.toDigits_of_lt_base last, List.map_append]

/-- The leading digits of a number are those of its quotient by a power of ten. -/
theorem decimal_split (number : Nat) {count : Nat} (fewer : count < digitCount number) :
    ∃ rest, Digits rest ∧ rest.length = count ∧
      decimal number = decimal (number / 10 ^ count) ++ rest := by
  induction count generalizing number with
  | zero =>
      refine ⟨[], List.forall_mem_nil _, rfl, ?_⟩
      rw [Nat.pow_zero, Nat.div_one, List.append_nil]
  | succ count ih =>
      have long : 10 ≤ number := by
        by_contra short
        have single := (digitCount_le_iff Nat.one_pos).mpr (show number < 10 ^ 1 by omega)
        omega
      have last : (decimal (number % 10)).length = 1 := by
        have single := (digitCount_le_iff Nat.one_pos).mpr
          (show number % 10 < 10 ^ 1 from Nat.mod_lt _ (by decide))
        have positive := digitCount_pos (number % 10)
        unfold digitCount at single positive
        omega
      have fewer : count < digitCount (number / 10) := by
        rw [digitCount, decimal_concat long, List.length_append, last] at fewer
        exact Nat.lt_of_succ_lt_succ fewer
      obtain ⟨rest, digits, length, split⟩ := ih (number / 10) fewer
      refine ⟨rest ++ decimal (number % 10), ?_, ?_, ?_⟩
      · intro byte member
        rcases List.mem_append.mp member with early | late
        · exact digits byte early
        · exact digits_decimal _ byte late
      · rw [List.length_append, length, last]
      · rw [decimal_concat long, split, List.append_assoc, Nat.div_div_eq_div_mul, ← Nat.pow_succ']

/-- Different numbers are printed differently. -/
theorem decimal_injective {first second : Nat} (same : decimal first = decimal second) :
    first = second := by
  rw [← decimalValue_decimal first, same, decimalValue_decimal]

/-- Numbers of equally many digits compare like their texts. -/
theorem decimal_lt_iff_of_length {first second : Nat}
    (length : (decimal first).length = (decimal second).length) (rest other : Bytes) :
    decimal first ++ rest < decimal second ++ other ↔
      first < second ∨ first = second ∧ rest < other := by
  rw [append_lt_append_iff_of_length _ _ length,
    lt_iff_decimalValue_lt length (digits_decimal _) (digits_decimal _), decimalValue_decimal,
    decimalValue_decimal]
  refine or_congr_right (and_congr_left fun _ => ⟨decimal_injective, ?_⟩)
  rintro rfl
  rfl

/-- A digit comes before a colon. -/
theorem cons_lt_colon {digits : Bytes} (all : Digits digits) (nonempty : digits ≠ [])
    (rest other : Bytes) : digits ++ rest < 58 :: other := by
  cases digits with
  | nil => exact (nonempty rfl).elim
  | cons byte digits =>
      have bounds := bounds_of_isDigit (all byte (List.mem_cons_self ..))
      rw [List.cons_append, List.cons_lt_cons_iff]
      exact .inl (UInt8.lt_iff_toNat_lt.mpr (show byte.toNat < 58 by omega))

/-- How two numbers compare as decimal texts ended by a colon, which is above every
digit: the one with fewer digits is compared with the leading digits of the other. -/
theorem decimal_lt_iff {first second : Nat} (different : first ≠ second) (rest other : Bytes) :
    decimal first ++ 58 :: rest < decimal second ++ 58 :: other ↔
      if digitCount first ≤ digitCount second then
        first < second / 10 ^ (digitCount second - digitCount first)
      else first / 10 ^ (digitCount first - digitCount second) ≤ second := by
  have firstCount := digitCount_pos first
  have secondCount := digitCount_pos second
  by_cases shorter : digitCount first ≤ digitCount second
  · obtain ⟨digits, all, length, split⟩ := decimal_split second
      (show digitCount second - digitCount first < digitCount second by omega)
    have aligned : (decimal first).length =
        (decimal (second / 10 ^ (digitCount second - digitCount first))).length := by
      have total := congrArg List.length split
      rw [List.length_append, length] at total
      unfold digitCount at *
      omega
    rw [if_pos shorter, split, List.append_assoc, decimal_lt_iff_of_length aligned]
    refine or_iff_left fun tie => ?_
    by_cases more : digits = []
    · rw [more] at length
      rw [← length, List.length_nil, Nat.pow_zero, Nat.div_one] at tie
      exact different tie.1
    · exact lt_asymm tie.2 (cons_lt_colon all more _ _)
  · obtain ⟨digits, all, length, split⟩ := decimal_split first
      (show digitCount first - digitCount second < digitCount first by omega)
    have aligned : (decimal (first / 10 ^ (digitCount first - digitCount second))).length =
        (decimal second).length := by
      have total := congrArg List.length split
      rw [List.length_append, length] at total
      unfold digitCount at *
      omega
    have more : digits ≠ [] := by
      rintro rfl
      rw [List.length_nil] at length
      omega
    rw [if_neg shorter, split, List.append_assoc, decimal_lt_iff_of_length aligned]
    simp only [cons_lt_colon all more, and_true]
    exact Nat.le_iff_lt_or_eq.symm

end Decimals

section Integers

/-- Two integers, the first below the second, whose decimal texts followed by a colon
come in that order: a negative and another one; or two others, the first below the
leading digits of the second; or two negative ones, the second not below the leading
digits of the first without their signs. -/
def PrintedInOrder (earlier later : Int) : Prop :=
  if 0 ≤ earlier then
    earlier.natAbs < later.natAbs / 10 ^ (digitCount later.natAbs - digitCount earlier.natAbs)
  else
    0 ≤ later ∨
      earlier.natAbs / 10 ^ (digitCount earlier.natAbs - digitCount later.natAbs) ≤ later.natAbs

instance (earlier later : Int) : Decidable (PrintedInOrder earlier later) :=
  inferInstanceAs (Decidable (if 0 ≤ earlier then _ else _))

/-- A minus sign comes before a digit. -/
theorem minus_lt_cons {digits : Bytes} (all : Digits digits) (nonempty : digits ≠ [])
    (rest other : Bytes) : 45 :: rest < digits ++ other := by
  cases digits with
  | nil => exact (nonempty rfl).elim
  | cons byte digits =>
      have bounds := bounds_of_isDigit (all byte (List.mem_cons_self ..))
      rw [List.cons_append, List.cons_lt_cons_iff]
      exact .inl (UInt8.lt_iff_toNat_lt.mpr (show 45 < byte.toNat by omega))

/-- The byte order of two integers printed in front of a colon. -/
theorem decimalInt_lt_iff {earlier later : Int} (ordered : earlier < later) (rest other : Bytes) :
    decimalInt earlier ++ 58 :: rest < decimalInt later ++ 58 :: other ↔
      PrintedInOrder earlier later := by
  unfold decimalInt PrintedInOrder
  by_cases positive : 0 ≤ earlier
  · rw [if_neg (by omega), if_neg (by omega), if_pos positive, decimal_lt_iff (by omega),
      if_pos (digitCount_mono (by omega))]
  · rw [if_pos (by omega), if_neg positive]
    by_cases sign : 0 ≤ later
    · rw [if_neg (by omega), List.cons_append]
      exact iff_of_true (minus_lt_cons (digits_decimal _) (decimal_ne_nil _) _ _) (.inl sign)
    · have smaller : later.natAbs < earlier.natAbs := by omega
      have counts := digitCount_mono smaller.le
      rw [if_pos (by omega), List.cons_append, List.cons_append, List.cons_lt_cons_iff,
        decimal_lt_iff (by omega)]
      simp only [lt_irrefl, true_and, false_or, sign]
      by_cases longer : digitCount earlier.natAbs ≤ digitCount later.natAbs
      · have same : digitCount earlier.natAbs = digitCount later.natAbs :=
          Nat.le_antisymm longer counts
        rw [if_pos longer, same, Nat.sub_self, Nat.pow_zero, Nat.div_one, Nat.div_one]
        omega
      · rw [if_neg longer]

/-- Different integers are printed differently. -/
theorem decimalInt_injective {first second : Int} (same : decimalInt first = decimalInt second) :
    first = second := by
  have signs {negative positive : Nat} : 45 :: decimal negative ≠ decimal positive := fun equal => by
    have digit := digits_decimal positive 45 (equal ▸ List.mem_cons_self ..)
    cases digit
  unfold decimalInt at same
  split at same
  · split at same
    · have values := decimal_injective (List.cons.inj same).2
      omega
    · exact (signs same).elim
  · split at same
    · exact (signs same.symm).elim
    · have values := decimal_injective same
      omega

end Integers

end Basis
