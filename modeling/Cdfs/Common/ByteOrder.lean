import Mathlib.Data.Nat.Digits.Defs
import Mathlib.Tactic

/-! # Byte order of 64-bit numbers

The helpers of `common/util.h`. Both loops collect the eight bytes of a number, each new
byte pushed in from below: `host_to_net64` starts with the lowest byte and so reverses the
order, `net_to_host64` starts with the highest and so changes nothing.
-/

namespace Cdfs

namespace ByteOrder

/-- One turn of both loops: the result moves up, the byte found by shifting comes in. -/
def pushByte (shift : Nat → Nat) (val res : UInt64) (i : Nat) : UInt64 :=
  (res <<< 8) ||| ((val >>> UInt64.ofNat (shift i)) &&& 0xFF)

/-- The loop of both helpers. -/
def gatherBytes (shift : Nat → Nat) (val : UInt64) : UInt64 :=
  (List.range 8).foldl (pushByte shift val) 0

/-- `host_to_net64`. -/
def hostToNet64 (val : UInt64) : UInt64 := gatherBytes (fun i => i * 8) val

/-- `net_to_host64`. -/
def netToHost64 (val : UInt64) : UInt64 := gatherBytes (fun i => (7 - i) * 8) val

/-- `time_to_net`. -/
def timeToNet (val : Int64) : UInt64 := hostToNet64 val.toUInt64

/-- `net_to_time`. -/
def netToTime (val : UInt64) : Int64 := (netToHost64 val).toInt64

/-- The eight bytes of a number, the lowest first. -/
def byteList (val : UInt64) : List Nat := (List.range 8).map fun i => val.toNat >>> (i * 8) % 256

/-- The bytes read the same in both directions. -/
def Palindrome (val : UInt64) : Prop := (byteList val).reverse = byteList val

instance (val : UInt64) : Decidable (Palindrome val) :=
  inferInstanceAs (Decidable ((byteList val).reverse = byteList val))

/-- Pushing in a byte while there is room. -/
theorem toNat_pushByte {shift : Nat → Nat} {val res : UInt64} {i : Nat}
    (room : res.toNat < 2 ^ 56) (inside : shift i < 64) :
    (pushByte shift val res i).toNat = 256 * res.toNat + val.toNat >>> shift i % 256 := by
  have byte : ((val >>> UInt64.ofNat (shift i)) &&& 0xFF).toNat = val.toNat >>> shift i % 256 := by
    have amount : (UInt64.ofNat (shift i)).toNat % 64 = shift i := by
      rw [UInt64.toNat_ofNat']
      omega
    rw [UInt64.toNat_and, UInt64.toNat_shiftRight, amount]
    exact Nat.and_two_pow_sub_one_eq_mod _ 8
  have moved : (res <<< 8).toNat = res.toNat <<< 8 := by
    rw [UInt64.toNat_shiftLeft]
    apply Nat.mod_eq_of_lt
    change res.toNat <<< 8 < 2 ^ 64
    rw [Nat.shiftLeft_eq]
    omega
  rw [pushByte, UInt64.toNat_or, moved, byte,
    ← Nat.shiftLeft_add_eq_or_of_lt (Nat.mod_lt _ (by decide)), Nat.shiftLeft_eq, Nat.mul_comm]

/-- The loop writes the bytes it meets one behind the other: the first is the highest. -/
theorem toNat_foldl_pushByte {shift : Nat → Nat} {val : UInt64} {turns : List Nat}
    {res : UInt64} {count : Nat} (small : res.toNat < 256 ^ count)
    (room : count + turns.length ≤ 8) (shifts : ∀ i ∈ turns, shift i < 64) :
    (turns.foldl (pushByte shift val) res).toNat =
      256 ^ turns.length * res.toNat +
        Nat.ofDigits 256 ((turns.map fun i => val.toNat >>> shift i % 256).reverse) := by
  induction turns generalizing res count with
  | nil => simp
  | cons turn turns ih =>
      rw [List.length_cons] at room
      rw [List.forall_mem_cons] at shifts
      have power : 256 ^ count ≤ 2 ^ 56 := by
        calc 256 ^ count ≤ 256 ^ 7 := Nat.pow_le_pow_right (by decide) (by omega)
          _ = 2 ^ 56 := by decide
      have pushed := @toNat_pushByte shift val res turn (by omega) shifts.1
      have below : (pushByte shift val res turn).toNat < 256 ^ (count + 1) := by
        rw [pushed, pow_succ]
        omega
      rw [List.foldl_cons, ih below (by omega) shifts.2, pushed, List.map_cons, List.reverse_cons,
        Nat.ofDigits_append, Nat.ofDigits_singleton, List.length_reverse, List.length_map,
        List.length_cons, pow_succ]
      ring

theorem toNat_gatherBytes {shift : Nat → Nat} (shifts : ∀ i ∈ List.range 8, shift i < 64)
    (val : UInt64) : (gatherBytes shift val).toNat =
      Nat.ofDigits 256 (((List.range 8).map fun i => val.toNat >>> shift i % 256).reverse) := by
  have gathered := @toNat_foldl_pushByte shift val (List.range 8) 0 0 (by decide) (by decide) shifts
  rwa [UInt64.toNat_zero, Nat.mul_zero, Nat.zero_add] at gathered

/-- A number is written by its bytes. -/
theorem ofDigits_byteList (val : UInt64) : Nat.ofDigits 256 (byteList val) = val.toNat := by
  have bound := val.toNat_lt
  simp only [byteList, List.range_succ, List.range_zero, List.map_cons, List.map_nil,
    List.nil_append, List.cons_append, Nat.ofDigits_cons, Nat.ofDigits_nil,
    Nat.shiftRight_eq_div_pow]
  omega

/-- `host_to_net64` reverses the bytes. -/
theorem toNat_hostToNet64 (val : UInt64) :
    (hostToNet64 val).toNat = Nat.ofDigits 256 (byteList val).reverse :=
  toNat_gatherBytes (by decide) val

/-- `net_to_host64` leaves the bytes where they are. -/
theorem netToHost64_eq (val : UInt64) : netToHost64 val = val := by
  apply UInt64.toNat_inj.mp
  rw [← ofDigits_byteList val]
  exact toNat_gatherBytes (by decide) val

theorem lt_of_mem_byteList {val : UInt64} {byte : Nat} (member : byte ∈ byteList val) :
    byte < 256 := by
  obtain ⟨i, _, rfl⟩ := List.mem_map.mp member
  exact Nat.mod_lt _ (by decide)

theorem hostToNet64_eq_self_iff (val : UInt64) : hostToNet64 val = val ↔ Palindrome val := by
  rw [← UInt64.toNat_inj, toNat_hostToNet64, ← ofDigits_byteList val]
  constructor
  · exact Nat.ofDigits_inj_of_len_eq (by decide) List.length_reverse
      (fun byte member => lt_of_mem_byteList (List.mem_reverse.mp member))
      fun byte => lt_of_mem_byteList
  · exact congrArg _

/-- **The helpers are inverse only on palindromes.** Going to network order and back, in
either order and for numbers and times alike, gives the same number if and only if its
bytes read the same in both directions. -/
theorem inverse_iff_palindrome (val : UInt64) (time : Int64) :
    ((netToHost64 (hostToNet64 val) = val ∧ hostToNet64 (netToHost64 val) = val) ↔
      Palindrome val) ∧
    (netToTime (timeToNet time) = time ↔ Palindrome time.toUInt64) := by
  constructor
  · rw [netToHost64_eq, netToHost64_eq, and_self, hostToNet64_eq_self_iff]
  · unfold netToTime timeToNet
    rw [netToHost64_eq, ← hostToNet64_eq_self_iff]
    constructor
    · intro same
      rw [← UInt64.toUInt64_toInt64 (hostToNet64 time.toUInt64), same]
    · intro same
      rw [same]
      exact Int64.toInt64_toUInt64 time

/-- The number one comes back as `2 ^ 56`. -/
theorem not_inverse_one : ¬ ((∀ val : UInt64, netToHost64 (hostToNet64 val) = val ∧
    hostToNet64 (netToHost64 val) = val) ∧ ∀ time : Int64, netToTime (timeToNet time) = time) :=
  fun inverse => absurd (inverse.1 1).1 (by decide +kernel)

end ByteOrder

end Cdfs
