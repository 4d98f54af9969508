import Cdfs.Basis.FileSystem

/-! # Request targets

`server/UrlUtils.cc`: a target is cut at `#` and `?`, the query is split into pairs at
`&`, and values are percent-decoded. A value that is not properly encoded makes the
query throw.
-/

namespace Cdfs

open Basis

namespace UrlUtils

/-- `splitTarget`: path and query, the fragment cut off. -/
def splitTarget (target : Bytes) : Bytes × Bytes :=
  let target := match find target [35] 0 with
    | some fragmentPos => target.take fragmentPos
    | none => target
  match find target [63] 0 with
  | some queryPos => (target.take queryPos, target.drop (queryPos + 1))
  | none => (target, [])

/-- The value of a hexadecimal digit, zero for other bytes. -/
def hexToVal (byte : UInt8) : UInt8 :=
  if 48 ≤ byte ∧ byte ≤ 57 then byte - 48
  else if 97 ≤ byte ∧ byte ≤ 102 then 10 + (byte - 97)
  else if 65 ≤ byte ∧ byte ≤ 70 then 10 + (byte - 65)
  else 0

/-- `decode`: a plus sign is a space, a percent sign introduces two digits. -/
def decode : Bytes → Except Exn Bytes
  | [] => .ok []
  | 43 :: rest => (decode rest).map (32 :: ·)
  | 37 :: first :: second :: rest =>
      if isHexDigit first && isHexDigit second then
        (decode rest).map ((hexToVal first * 16 + hexToVal second) :: ·)
      else .error (.other (bytes "Invalid URL encode: " ++ [37, first, second]))
  | 37 :: _ => .error (.other (bytes "Invalid URL encode: incomplete % sequence (e.g. %2)"))
  | byte :: rest => (decode rest).map (byte :: ·)

/-- The key and value of one piece of a query; the key in front of an equals sign is
taken as it is. -/
def parsePair (piece : Bytes) : Except Exn (Bytes × Bytes) :=
  match find piece [61] 0 with
  | none => (decode piece).map fun key => (key, [])
  | some pos => (decode (piece.drop (pos + 1))).map fun value => (piece.take pos, value)

/-- `parseQuery`: the last value of a key counts. -/
def parseQuery (query : Bytes) : Except Exn (OrderedMap Bytes Bytes) :=
  (query.splitOn 38).foldlM (fun params piece =>
    if piece = [] then .ok params
    else (parsePair piece).map fun pair => params.put pair.1 pair.2) OrderedMap.empty

theorem find_eq_none_of_not_mem {text : Bytes} {byte : UInt8} (absent : byte ∉ text) :
    find text [byte] 0 = none := by
  rw [find, if_pos (Nat.zero_le _), List.drop_zero, Option.map_eq_none_iff,
    firstOccurrence_eq_none_iff]
  intro index occurs
  exact absent (occurs.isInfix.subset (List.mem_singleton_self byte))

/-- The first separator ends the part in front of it. -/
theorem find_separator {before after : Bytes} {byte : UInt8} (absent : byte ∉ before) :
    find (before ++ byte :: after) [byte] 0 = some before.length := by
  have located := find_append [] before [byte] after (absentBefore_of_head absent)
  simpa only [List.nil_append, List.length_nil, Nat.zero_add, List.singleton_append] using located

/-- A target without `#` and `?` is the path. -/
theorem splitTarget_of_not_mem {target : Bytes} (noFragment : (35 : UInt8) ∉ target)
    (noQuery : (63 : UInt8) ∉ target) : splitTarget target = (target, []) := by
  rw [splitTarget, find_eq_none_of_not_mem noFragment]
  dsimp only
  rw [find_eq_none_of_not_mem noQuery]

/-- Cutting at the first separator. -/
theorem take_find (text : Bytes) (byte : UInt8) :
    (match find text [byte] 0 with
      | some pos => text.take pos
      | none => text) = text.takeWhile (· ≠ byte) := by
  by_cases member : byte ∈ text
  · obtain ⟨before, after, rfl, absent⟩ := List.eq_append_cons_of_mem member
    have kept : ∀ other ∈ before, decide (other ≠ byte) = true := fun other inside =>
      decide_eq_true fun same => absent (same ▸ inside)
    rw [find_separator absent, List.takeWhile_append_of_pos kept,
      List.takeWhile_cons_of_neg (by simp), List.append_nil]
    exact List.take_left
  · have kept : ∀ other ∈ text, decide (other ≠ byte) = true := fun other inside =>
      decide_eq_true fun same => member (same ▸ inside)
    rw [find_eq_none_of_not_mem member]
    exact (List.takeWhile_eq_self_iff.mpr kept).symm

/-- The path of a target ends before the first `#` and `?`. -/
theorem splitTarget_fst (target : Bytes) :
    (splitTarget target).1 = (target.takeWhile (· ≠ 35)).takeWhile (· ≠ 63) := by
  unfold splitTarget
  rw [take_find target 35, ← take_find _ 63]
  dsimp only
  split <;> rfl

/-- Path and query of a target with all three parts. -/
theorem splitTarget_append {path query fragment : Bytes} (noQuery : (63 : UInt8) ∉ path)
    (noFragment : (35 : UInt8) ∉ path) (noFragmentInside : (35 : UInt8) ∉ query) :
    splitTarget (path ++ 63 :: query ++ 35 :: fragment) = (path, query) := by
  have absent : (35 : UInt8) ∉ path ++ 63 :: query := by
    simp [noFragment, noFragmentInside]
  rw [splitTarget, find_separator absent]
  dsimp only
  rw [List.take_left, find_separator noQuery]
  dsimp only
  rw [List.take_left, ← List.drop_drop, List.drop_left]
  rfl

theorem parseQuery_nil : parseQuery [] = .ok OrderedMap.empty := by
  rw [parseQuery, List.splitOn_nil]
  rfl

end UrlUtils

end Cdfs
