import Cdfs.Http.UrlEncoding

/-! # The loop of the query parser

`parseQuery` walks over the query with a position: it looks for the next `&`, handles the
piece up to it and goes on behind it. The positions meet the pieces of the query one after
the other, so a query cut at any `&` is parsed by parsing both sides.
-/

namespace Cdfs

open Basis

namespace UrlUtils

/-- The loop of `parseQuery` from a position. Without a further separator the position
becomes `npos`, which ends the loop. -/
def parseQueryFrom (query : Bytes) (start : Nat) (params : OrderedMap Bytes Bytes) :
    Except Exn (OrderedMap Bytes Bytes) :=
  if start < query.length then
    match found : find query [38] start with
    | none => addPiece params (query.drop start)
    | some stop =>
        (addPiece params ((query.drop start).take (stop - start))).bind
          (parseQueryFrom query (stop + 1))
  else .ok params
termination_by query.length - start
decreasing_by
  obtain ⟨ahead, _⟩ := bounds_of_find found
  omega

/-- `parseQuery` as a loop over positions. -/
def parseQueryLoop (query : Bytes) : Except Exn (OrderedMap Bytes Bytes) :=
  if query.isEmpty then .ok OrderedMap.empty else parseQueryFrom query 0 OrderedMap.empty

/-- The text from a position on, cut at the next separator. -/
theorem drop_eq_of_find {text : Bytes} {byte : UInt8} {start stop : Nat}
    (found : find text [byte] start = some stop) :
    text.drop start = (text.drop start).take (stop - start) ++ byte :: text.drop (stop + 1) ∧
      byte ∉ (text.drop start).take (stop - start) := by
  obtain ⟨ahead, inside⟩ := bounds_of_find found
  obtain ⟨⟨_, after, whole⟩, least⟩ := occursAt_of_find found
  rw [List.singleton_append] at whole
  have behind : text.drop (stop + 1) = after := by
    rw [← List.drop_drop, ← whole]
    rfl
  constructor
  · rw [behind, whole, ← Nat.add_sub_cancel' ahead, ← List.drop_drop, Nat.add_sub_cancel_left,
      List.take_append_drop]
  · intro member
    obtain ⟨offset, below, same⟩ := List.mem_iff_getElem.mp member
    rw [List.length_take, List.length_drop, lt_min_iff] at below
    rw [List.getElem_take, List.getElem_drop] at same
    refine least (start + offset) (Nat.le_add_right ..) (by omega)
      ⟨by omega, text.drop (start + offset + 1), ?_⟩
    rw [List.drop_eq_getElem_cons (by omega : start + offset < text.length), same]
    rfl

theorem not_mem_of_find_eq_none {text : Bytes} {byte : UInt8} {start : Nat}
    (inside : start ≤ text.length) (absent : find text [byte] start = none) :
    byte ∉ text.drop start := by
  rw [find, if_pos inside, Option.map_eq_none_iff, firstOccurrence_eq_none_iff] at absent
  intro member
  obtain ⟨index, occurs⟩ := exists_occursAt ((List.singleton_infix_iff _ _).mpr member)
  exact absent index occurs

/-- The loop handles the pieces of the rest of the query. -/
theorem parseQueryFrom_eq (query : Bytes) (start : Nat) (params : OrderedMap Bytes Bytes) :
    parseQueryFrom query start params =
      ((query.drop start).splitOn 38).foldlM addPiece params := by
  fun_induction parseQueryFrom query start params with
  | case1 start params inside absent =>
      rw [List.splitOn_eq_singleton (not_mem_of_find_eq_none inside.le absent),
        foldlM_addPiece_cons]
      cases addPiece params (query.drop start) <;> rfl
  | case2 start params inside stop found ih =>
      obtain ⟨cut, plain⟩ := drop_eq_of_find found
      rw [cut, List.splitOn_append_cons_self_of_not_mem plain, foldlM_addPiece_cons, ← cut]
      exact congrArg _ (funext ih)
  | case3 start params outside =>
      rw [List.drop_eq_nil_of_le (Nat.le_of_not_lt outside)]
      rfl

theorem parseQueryLoop_eq (query : Bytes) : parseQueryLoop query = parseQuery query := by
  unfold parseQueryLoop
  split
  · rename_i empty
    rw [List.isEmpty_iff.mp empty, parseQuery_nil]
  · exact parseQueryFrom_eq query 0 OrderedMap.empty

/-- A round adds to a map what it adds to the part of it that is written over the rest. -/
theorem addPiece_override (base params : OrderedMap Bytes Bytes) (piece : Bytes) :
    addPiece (base.override params) piece = (addPiece params piece).map base.override := by
  unfold addPiece
  split
  · rfl
  · cases parsePair piece with
    | error thrown => rfl
    | ok pair =>
        change Except.ok _ = Except.ok _
        rw [OrderedMap.override_put]

theorem foldlM_addPiece_override (base params : OrderedMap Bytes Bytes) (pieces : List Bytes) :
    pieces.foldlM addPiece (base.override params) =
      (pieces.foldlM addPiece params).map base.override := by
  induction pieces generalizing params with
  | nil => rfl
  | cons piece pieces ih =>
      rw [foldlM_addPiece_cons, foldlM_addPiece_cons, addPiece_override]
      cases addPiece params piece with
      | error thrown => rfl
      | ok params => exact ih params

/-- The first query is parsed, then the second over its result. -/
theorem parseQuery_append_eq (first second : Bytes) :
    parseQuery (first ++ 38 :: second) =
      (parseQuery first).bind fun base => (parseQuery second).map base.override := by
  rw [parseQuery_eq, List.splitOn_append_cons_self, List.foldlM_append, ← parseQuery_eq]
  refine congrArg _ (funext fun base => ?_)
  rw [← OrderedMap.override_empty base, foldlM_addPiece_override, OrderedMap.override_empty]
  rfl

/-- **Query parsing is compositional.** A query of two parts throws if and only if one of
them does; otherwise it gives the parameters of the first, overridden by those of the
second. -/
theorem parseQueryLoop_append (first second : Bytes) :
    ((∃ thrown, parseQueryLoop (first ++ 38 :: second) = .error thrown) ↔
      (∃ thrown, parseQueryLoop first = .error thrown) ∨
        ∃ thrown, parseQueryLoop second = .error thrown) ∧
    parseQueryLoop (first ++ 38 :: second) =
      (parseQueryLoop first).bind fun base => (parseQueryLoop second).map base.override := by
  simp only [parseQueryLoop_eq, parseQuery_append_eq, and_true]
  cases parseQuery first with
  | error thrown => exact iff_of_true ⟨thrown, rfl⟩ (.inl ⟨thrown, rfl⟩)
  | ok base =>
      cases parseQuery second with
      | error thrown => exact iff_of_true ⟨thrown, rfl⟩ (.inr ⟨thrown, rfl⟩)
      | ok params => simp [Except.bind, Except.map]

/-- Empty pieces, a pair without `=`, an empty key and a repeated key. -/
example : (parseQuery (bytes "&&a=1&b&=%32&a=3&")).toOption.map OrderedMap.entries =
    some [([], [50]), (bytes "a", [51]), (bytes "b", [])] := by
  decide +kernel

end UrlUtils

end Cdfs
