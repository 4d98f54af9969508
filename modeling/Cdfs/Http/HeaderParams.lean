import Cdfs.Http.BoundaryPosition
import Mathlib.Data.List.TakeWhile

/-! # Looking up a header parameter

`extract_value` takes the first place where the letters of the key stand and reads the
value behind it. That place may belong to another name or to a value; the lookup is right
exactly when what stands there is what the key asks for.
-/

namespace Cdfs

open Basis

namespace Multipart

/-- A letter. -/
def isLetter (byte : UInt8) : Bool := (65 ≤ byte && byte ≤ 90) || (97 ≤ byte && byte ≤ 122)

/-- A text of letters. -/
def Letters (text : Bytes) : Prop := ∀ byte ∈ text, isLetter byte = true

/-- A parameter of a part's header: a name of letters and a value that can be quoted. -/
structure HeaderParam where
  name : Bytes
  value : Bytes
  name_ne_nil : name ≠ []
  letters : Letters name
  plain : FormPart.Plain value

/-- A parameter as it stands in the header. -/
def HeaderParam.written (param : HeaderParam) : Bytes :=
  59 :: 32 :: FormPart.quoted param.name param.value

/-- The header `Content-Disposition: form-data` with parameters. -/
def disposition : Bytes := bytes "Content-Disposition: form-data"

def headerOf (params : List HeaderParam) : Bytes :=
  disposition ++ params.flatMap HeaderParam.written

/-- The lookup gives the value of the parameter with this name, and nothing if there is
none. -/
def LooksUp (params : List HeaderParam) (key : Bytes) : Prop :=
  (∀ param ∈ params, param.name = key → extractValue (headerOf params) key = param.value) ∧
    ((∀ param ∈ params, param.name ≠ key) → extractValue (headerOf params) key = [])

/-- The value a key asks for: that of its parameter, empty if there is none. -/
def asked (params : List HeaderParam) (key : Bytes) : Bytes :=
  ((params.find? fun param => decide (param.name = key)).map HeaderParam.value).getD []

/-- The value asked for, when the letters of the key come first in a value, in front of
this text. Nothing is read there without an equals sign. Otherwise it has to be the text
behind that up to a semicolon or blank in the same value; when the value ends there, the
text up to the next quote. -/
def FitsBehind (asked : Bytes) (params : List HeaderParam) : Bytes → Prop
  | 61 :: [] => asked = (params.head?.map fun next => 59 :: 32 :: (next.name ++ [61])).getD []
  | 61 :: tail => (59 ∈ tail ∨ 32 ∈ tail) ∧ asked = tail.takeWhile fun byte => byte ≠ 59 && byte ≠ 32
  | _ => asked = []

/-- The value asked for is what stands where the letters of the key come first. At the end
of a name this is the value of that parameter; elsewhere in a name it is nothing. -/
def FitsFirst (key asked : Bytes) : List HeaderParam → Prop
  | [] => asked = []
  | param :: params =>
      match firstOccurrence key param.name, firstOccurrence key param.value with
      | some index, _ =>
          asked = if index + key.length = param.name.length then param.value else []
      | none, some index => FitsBehind asked params (param.value.drop (index + key.length))
      | none, none => FitsFirst key asked params

/-- The same for the whole header: the letters may already stand in front of the
parameters. -/
def FitsHeader (params : List HeaderParam) (key : Bytes) : Prop :=
  if key <:+: disposition then asked params key = [] else FitsFirst key (asked params key) params

/-! ## Reading at the first occurrence -/

/-- What is read behind an occurrence of the key. -/
def readBehind : Bytes → Bytes
  | 61 :: 34 :: rest => if rest.contains 34 then rest.takeWhile (· ≠ 34) else []
  | 61 :: rest => rest.takeWhile fun byte => !(bytes "; \r\n").contains byte
  | _ => []

/-- Behind a quote the value goes up to the next one; without it there is none. -/
theorem readBehind_quote (rest : Bytes) : readBehind (61 :: 34 :: rest) =
    if (34 : UInt8) ∈ rest then rest.takeWhile (· ≠ 34) else [] := by
  simp only [readBehind, List.contains_iff_mem]

/-- A value without quote goes up to a separator. -/
theorem readBehind_bare {rest : Bytes} (bare : rest.head? ≠ some 34) :
    readBehind (61 :: rest) = rest.takeWhile fun byte => byte ∉ bytes "; \r\n" := by
  cases rest with
  | nil => rfl
  | cons first rest =>
      have other : first ≠ 34 := fun quote => bare (congrArg some quote)
      rw [readBehind]
      · simp only [List.contains_eq_mem, decide_not]
      · exact fun _ same => other (List.cons.inj same).1

/-- Without an equals sign there is no value. -/
theorem readBehind_other {back : Bytes} (other : back.head? ≠ some 61) : readBehind back = [] := by
  cases back with
  | nil => rfl
  | cons first rest =>
      have different : first ≠ 61 := fun equals => other (congrArg some equals)
      rw [readBehind]
      · exact fun _ same => different (List.cons.inj same).1
      · exact fun _ same => different (List.cons.inj same).1

/-- A text up to the first byte of a set. -/
theorem take_findFirstOf (text set : Bytes) (start : Nat) :
    (text.drop start).take ((findFirstOf text set start).getD text.length - start) =
      (text.drop start).takeWhile fun byte => byte ∉ set := by
  rw [List.takeWhile_eq_take_findIdx_not, List.findIdx_eq_getD_findIdx?]
  unfold findFirstOf
  simp only [decide_not, Bool.not_not]
  cases (text.drop start).findIdx? fun byte => decide (byte ∈ set) with
  | none => simp
  | some index => simp

/-- The first occurrence, described by what stands around it. -/
theorem absentBefore_of_not_isInfix {key front back : Bytes} (nonempty : key ≠ [])
    (first : ¬ key <:+: front ++ key.dropLast) :
    AbsentBefore key (front ++ (key ++ back)) front.length := by
  intro index below occurs
  obtain ⟨most, last, rfl⟩ := (List.eq_nil_or_concat' key).resolve_left nonempty
  rw [List.dropLast_concat] at first
  have split : front ++ ((most ++ [last]) ++ back) = (front ++ most) ++ (last :: back) := by
    simp only [List.append_assoc, List.singleton_append]
  have inside : index + (most ++ [last]).length ≤ (front ++ most).length := by
    simp only [List.length_append, List.length_singleton]
    omega
  rw [split, occursAt_append_iff inside] at occurs
  exact first occurs.isInfix

/-- A search for a quote behind a text. -/
theorem find_quote (front back : Bytes) :
    find (front ++ back) [34] front.length =
      if (34 : UInt8) ∈ back then some (front.length + (back.takeWhile (· ≠ 34)).length) else none := by
  split
  · rename_i member
    obtain ⟨value, rest, rfl, plain⟩ := List.eq_append_cons_of_mem member
    have kept : ∀ byte ∈ value, decide (byte ≠ 34) = true := fun byte inside =>
      decide_eq_true fun same => plain (same ▸ inside)
    rw [List.takeWhile_append_of_pos kept, List.takeWhile_cons_of_neg (by simp), List.append_nil]
    exact find_append front value [34] rest (absentBefore_of_head plain)
  · rename_i absent
    rw [find, if_pos (by simp), List.drop_left, Option.map_eq_none_iff, firstOccurrence_eq_none_iff]
    exact fun index occurs => absent (occurs.isInfix.subset (List.mem_singleton_self 34))

/-- The value read is the one behind the first occurrence of the key. -/
theorem extractValue_first {key front back : Bytes} (nonempty : key ≠ [])
    (first : ¬ key <:+: front ++ key.dropLast) :
    extractValue (front ++ (key ++ back)) key = readBehind back := by
  have found : find (front ++ (key ++ back)) key 0 = some front.length := by
    simpa using find_append [] front key back (absentBefore_of_not_isInfix nonempty first)
  have position (index : Nat) : (front ++ (key ++ back))[front.length + key.length + index]? =
      back[index]? := by
    rw [← List.append_assoc, ← List.length_append, List.getElem?_append_right (Nat.le_add_right ..),
      Nat.add_sub_cancel_left]
  have behind (index : Nat) : (front ++ (key ++ back)).drop (front.length + key.length + index) =
      back.drop index := by
    rw [← List.append_assoc, ← List.length_append, ← List.drop_drop, List.drop_left]
  have start : (front ++ (key ++ back))[front.length + key.length]? = back.head? := by
    rw [List.head?_eq_getElem?]
    exact position 0
  unfold extractValue
  rw [found]
  dsimp only
  rw [start, position 1]
  by_cases equals : back.head? = some 61
  · obtain ⟨rest, rfl⟩ := List.head?_eq_some_iff.mp equals
    rw [if_neg (not_not_intro equals), List.getElem?_cons_succ, ← List.head?_eq_getElem?]
    by_cases quote : rest.head? = some 34
    · obtain ⟨rest, rfl⟩ := List.head?_eq_some_iff.mp quote
      have split : front ++ (key ++ 61 :: 34 :: rest) = (front ++ (key ++ [61, 34])) ++ rest := by
        simp
      have length : front.length + key.length + 2 = (front ++ (key ++ [61, 34])).length := by
        simp [Nat.add_assoc]
      have closing := find_quote (front ++ (key ++ [61, 34])) rest
      rw [← split, ← length] at closing
      rw [if_pos quote, closing, behind 2]
      rw [readBehind_quote]
      by_cases member : (34 : UInt8) ∈ rest
      · rw [if_pos member, if_pos member]
        dsimp only
        rw [Nat.add_sub_cancel_left]
        exact (List.prefix_iff_eq_take.mp (List.takeWhile_prefix _)).symm
      · rw [if_neg member, if_neg member]
    · rw [if_neg quote, take_findFirstOf, behind 1, readBehind_bare quote]
      rfl
  · rw [if_pos equals, readBehind_other equals]

/-- Where a text is first found: it is not found earlier, even with its last byte missing. -/
theorem exists_first {key text : Bytes} (nonempty : key ≠ []) {index : Nat}
    (found : firstOccurrence key text = some index) :
    ∃ front back, text = front ++ (key ++ back) ∧ front.length = index ∧
      ¬ key <:+: front ++ key.dropLast := by
  obtain ⟨⟨inside, back, whole⟩, least⟩ := (firstOccurrence_eq_some_iff key text index).mp found
  have text_eq : text = text.take index ++ (key ++ back) := by
    rw [whole, List.take_append_drop]
  have length : (text.take index).length = index := List.length_take_of_le inside
  refine ⟨text.take index, back, text_eq, length, fun piece => ?_⟩
  obtain ⟨earlier, occurs⟩ := exists_occursAt piece
  have bound := occurs.bound
  have positive := List.length_pos_iff.mpr nonempty
  rw [List.length_append, length, List.length_dropLast] at bound
  refine least earlier (by omega) ?_
  obtain ⟨most, last, rfl⟩ := (List.eq_nil_or_concat' key).resolve_left nonempty
  rw [List.dropLast_concat] at occurs
  have split : text = (text.take index ++ most) ++ (last :: back) := by
    rw [List.append_assoc, ← List.singleton_append, ← List.append_assoc most]
    exact text_eq
  rw [split]
  refine (occursAt_append_iff ?_).mpr occurs
  simp only [List.length_append, length, List.length_singleton] at bound ⊢
  omega

/-- A key that is not found is not in the text. -/
theorem not_isInfix_of_firstOccurrence {key text : Bytes} (absent : firstOccurrence key text = none) :
    ¬ key <:+: text := by
  intro piece
  obtain ⟨index, occurs⟩ := exists_occursAt piece
  exact (firstOccurrence_eq_none_iff key text).mp absent index occurs

section Walk

variable {key asked : Bytes} (letters : Letters key) (nonempty : key ≠ [])

include letters

/-- Letters have no other byte among them. -/
theorem Letters.not_mem {byte : UInt8} (foreign : isLetter byte = false) : byte ∉ key := by
  intro member
  rw [letters byte member] at foreign
  cases foreign

theorem Letters.dropLast : Letters key.dropLast := fun byte member =>
  letters byte (List.mem_of_mem_dropLast member)

/-- The key is not found up to a name in which it is not found. -/
theorem not_isInfix_name {front name : Bytes} (absent : ¬ key <:+: front) (inside : ¬ key <:+: name) :
    ¬ key <:+: front ++ 59 :: 32 :: name :=
  not_isInfix_append_cons (letters.not_mem (by decide)) absent
    (@not_isInfix_append_cons key [] name 32 (letters.not_mem (by decide))
      (fun piece => absent (List.infix_nil.mp piece ▸ List.nil_infix)) inside)

/-- The key is not found up to a value in which it is not found. -/
theorem not_isInfix_value {front name value : Bytes} (absent : ¬ key <:+: front)
    (first : ¬ key <:+: name) (second : ¬ key <:+: value) :
    ¬ key <:+: front ++ 59 :: 32 :: (name ++ 61 :: 34 :: value) := by
  have empty : ¬ key <:+: [] := fun piece =>
    absent (List.infix_nil.mp piece ▸ List.nil_infix)
  have quoted : ¬ key <:+: [] ++ 34 :: value :=
    not_isInfix_append_cons (letters.not_mem (by decide)) empty second
  exact not_isInfix_name letters absent
    (not_isInfix_append_cons (letters.not_mem (by decide)) first quoted)

end Walk

/-- A parameter, letter by letter, with what follows it. -/
theorem written_append (param : HeaderParam) (rest : Bytes) :
    param.written ++ rest = 59 :: 32 :: (param.name ++ 61 :: 34 :: (param.value ++ 34 :: rest)) := by
  rw [HeaderParam.written, List.cons_append, List.cons_append, quoted_append]
  rfl

/-- Behind the end of a name the value in quotes is read. -/
theorem readBehind_quoted {value rest : Bytes} (plain : (34 : UInt8) ∉ value) :
    readBehind (61 :: 34 :: (value ++ 34 :: rest)) = value := by
  have kept : ∀ byte ∈ value, decide (byte ≠ 34) = true := fun byte inside =>
    decide_eq_true fun same => plain (same ▸ inside)
  rw [readBehind_quote, if_pos (by simp), List.takeWhile_append_of_pos kept,
    List.takeWhile_cons_of_neg (by simp), List.append_nil]

/-- Behind a key at the end of a value the text up to the next quote is read. -/
theorem readBehind_closing (params : List HeaderParam) :
    readBehind (61 :: 34 :: params.flatMap HeaderParam.written) =
      (params.head?.map fun next => 59 :: 32 :: (next.name ++ [61])).getD [] := by
  cases params with
  | nil => rfl
  | cons next params =>
      have kept : ∀ byte ∈ 59 :: 32 :: (next.name ++ [61]), decide (byte ≠ 34) = true := by
        intro byte member
        refine decide_eq_true fun same => ?_
        have quote : (34 : UInt8) ∉ next.name := next.letters.not_mem (by decide)
        rw [same] at member
        simp [quote] at member
      have split : (next :: params).flatMap HeaderParam.written =
          (59 :: 32 :: (next.name ++ [61])) ++ 34 :: (next.value ++ 34 ::
            params.flatMap HeaderParam.written) := by
        rw [List.flatMap_cons, written_append]
        simp
      rw [split, readBehind_quote, if_pos (by simp), List.takeWhile_append_of_pos kept,
        List.takeWhile_cons_of_neg (by simp), List.append_nil]
      rfl

/-- Among the bytes of a value only semicolons and blanks end an unquoted one. -/
theorem ends_iff {byte : UInt8} (feed : byte ≠ 13) (line : byte ≠ 10) :
    byte ∈ bytes "; \r\n" ↔ byte = 59 ∨ byte = 32 := by
  have listed : bytes "; \r\n" = [59, 32, 13, 10] := by decide
  rw [listed]
  simp [feed, line]

/-- Two conditions that agree on the text take the same front of it. -/
theorem takeWhile_congr_of_mem {first second : UInt8 → Bool} {text : Bytes}
    (same : ∀ byte ∈ text, first byte = second byte) :
    text.takeWhile first = text.takeWhile second := by
  induction text with
  | nil => rfl
  | cons byte text ih =>
      rw [List.forall_mem_cons] at same
      rw [List.takeWhile_cons, List.takeWhile_cons, same.1, ih same.2]

/-- Behind a key within a value the text up to a semicolon or blank is read, and beyond the
closing quote when there is none. -/
theorem readBehind_inside {tail rest : Bytes} (some : tail ≠ []) (plain : FormPart.Plain tail) :
    (59 ∈ tail ∨ 32 ∈ tail → readBehind (61 :: (tail ++ 34 :: rest)) =
      tail.takeWhile fun byte => byte ≠ 59 && byte ≠ 32) ∧
    (¬ (59 ∈ tail ∨ 32 ∈ tail) → (34 : UInt8) ∈ readBehind (61 :: (tail ++ 34 :: rest))) := by
  obtain ⟨quote, feed, line⟩ := plain
  have bare : (tail ++ 34 :: rest).head? ≠ .some 34 := by
    obtain ⟨first, tail, rfl⟩ := List.exists_cons_of_ne_nil some
    rw [List.cons_append, List.head?_cons, ne_eq, Option.some.injEq]
    exact fun same => quote (same ▸ List.mem_cons_self ..)
  have ends (byte : UInt8) (member : byte ∈ tail) : byte ∈ bytes "; \r\n" ↔ byte = 59 ∨ byte = 32 :=
    ends_iff (fun same => feed (same ▸ member)) fun same => line (same ▸ member)
  rw [readBehind_bare bare]
  constructor
  · intro separated
    have stopped :
        ((tail.takeWhile fun byte => byte ∉ bytes "; \r\n").length = tail.length) → False := by
      intro whole
      have kept := List.takeWhile_eq_self_iff.mp
        ((List.takeWhile_prefix _).eq_of_length whole)
      rcases separated with member | member
      · exact absurd (kept 59 member) (by decide)
      · exact absurd (kept 32 member) (by decide)
    rw [List.takeWhile_append, if_neg stopped]
    refine takeWhile_congr_of_mem fun byte member => ?_
    rw [Bool.eq_iff_iff, decide_eq_true_iff, ends byte member, not_or]
    simp
  · intro together
    have kept : ∀ byte ∈ tail, decide (byte ∉ bytes "; \r\n") = true := by
      intro byte member
      refine decide_eq_true fun stops => together ?_
      rcases (ends byte member).mp stops with rfl | rfl
      · exact .inl member
      · exact .inr member
    rw [List.takeWhile_append_of_pos kept, List.takeWhile_cons_of_pos (by decide)]
    simp

/-- Behind a first occurrence in a value. -/
theorem readBehind_value {asked back : Bytes} (foreign : (34 : UInt8) ∉ asked)
    (plain : FormPart.Plain back) (params : List HeaderParam) :
    readBehind (back ++ 34 :: params.flatMap HeaderParam.written) = asked ↔
      FitsBehind asked params back := by
  by_cases equals : back.head? = some 61
  · obtain ⟨tail, rfl⟩ := List.head?_eq_some_iff.mp equals
    cases tail with
    | nil =>
        rw [List.singleton_append, readBehind_closing]
        exact eq_comm
    | cons first tail =>
        have plainTail : FormPart.Plain (first :: tail) := by
          obtain ⟨quote, feed, line⟩ := plain
          simp only [List.mem_cons, not_or] at quote feed line ⊢
          exact ⟨by simp [quote.2], by simp [feed.2], by simp [line.2]⟩
        obtain ⟨stops, runs⟩ := @readBehind_inside (first :: tail)
          (params.flatMap HeaderParam.written) (List.cons_ne_nil _ _) plainTail
        change readBehind (61 :: (first :: tail ++ 34 :: _)) = asked ↔ _ ∧ _
        by_cases separated : 59 ∈ first :: tail ∨ 32 ∈ first :: tail
        · rw [stops separated, and_iff_right separated]
          exact eq_comm
        · refine iff_of_false (fun same => foreign ?_) fun both => separated both.1
          rw [← same]
          exact runs separated
  · have other : (back ++ 34 :: params.flatMap HeaderParam.written).head? ≠ some 61 := by
      cases back with
      | nil => simp
      | cons first back => exact equals
    rw [readBehind_other other, FitsBehind]
    · exact eq_comm
    · rintro rfl
      exact equals rfl
    · rintro tail rfl
      exact equals rfl

/-- The lookup is right on a row of parameters if and only if what stands at the first
occurrence of the key fits. -/
theorem extractValue_eq_iff {key asked : Bytes} (letters : Letters key) (nonempty : key ≠ [])
    (foreign : (34 : UInt8) ∉ asked) {front : Bytes} (absent : ¬ key <:+: front)
    (params : List HeaderParam) :
    extractValue (front ++ params.flatMap HeaderParam.written) key = asked ↔
      FitsFirst key asked params := by
  induction params generalizing front with
  | nil =>
      have nothing : extractValue front key = [] :=
        extractValue_eq_nil fun piece => absent ((List.prefix_append key [61]).isInfix.trans piece)
      rw [List.flatMap_nil, List.append_nil, nothing]
      exact eq_comm
  | cons param params ih =>
      rw [List.flatMap_cons, FitsFirst]
      cases inName : firstOccurrence key param.name with
      | some index =>
          obtain ⟨start, back, name, length, first⟩ := exists_first nonempty inName
          have split : front ++ (param.written ++ params.flatMap HeaderParam.written) =
              (front ++ 59 :: 32 :: start) ++ (key ++ (back ++ 61 :: 34 :: (param.value ++
                34 :: params.flatMap HeaderParam.written))) := by
            rw [written_append, name]
            simp only [List.append_assoc, List.cons_append]
          have here : ¬ key <:+: (front ++ 59 :: 32 :: start) ++ key.dropLast := by
            rw [List.append_assoc]
            exact not_isInfix_name letters absent first
          have whole : index + key.length = param.name.length ↔ back = [] := by
            rw [name, ← length, List.length_append, List.length_append, ← List.length_eq_zero_iff]
            omega
          rw [split, extractValue_first nonempty here, eq_comm]
          dsimp only
          by_cases ends : back = []
          · rw [if_pos (whole.mpr ends), ends, List.nil_append, readBehind_quoted param.plain.1]
          · obtain ⟨byte, rest, shape⟩ := List.exists_cons_of_ne_nil ends
            have letter : isLetter byte = true := param.letters byte (by rw [name, shape]; simp)
            have other : (back ++ 61 :: 34 :: (param.value ++
                34 :: params.flatMap HeaderParam.written)).head? ≠ some 61 := by
              rw [shape, List.cons_append, List.head?_cons, ne_eq, Option.some.injEq]
              rintro rfl
              cases letter
            rw [if_neg (whole.not.mpr ends), readBehind_other other]
      | none =>
          have noName := not_isInfix_of_firstOccurrence inName
          cases inValue : firstOccurrence key param.value with
          | some index =>
              obtain ⟨start, back, value, length, first⟩ := exists_first nonempty inValue
              have split : front ++ (param.written ++ params.flatMap HeaderParam.written) =
                  (front ++ 59 :: 32 :: (param.name ++ 61 :: 34 :: start)) ++
                    (key ++ (back ++ 34 :: params.flatMap HeaderParam.written)) := by
                rw [written_append, value]
                simp only [List.append_assoc, List.cons_append]
              have here : ¬ key <:+: (front ++ 59 :: 32 :: (param.name ++ 61 :: 34 :: start)) ++
                  key.dropLast := by
                simp only [List.append_assoc, List.cons_append]
                exact not_isInfix_value letters absent noName first
              have behind : param.value.drop (index + key.length) = back := by
                rw [value, ← length, ← List.length_append, ← List.append_assoc, List.drop_left]
              have plain : FormPart.Plain back := by
                obtain ⟨quote, feed, line⟩ := param.plain
                rw [value] at quote feed line
                simp only [List.mem_append, not_or] at quote feed line
                exact ⟨quote.2.2, feed.2.2, line.2.2⟩
              rw [split, extractValue_first nonempty here]
              dsimp only
              rw [behind]
              exact readBehind_value foreign plain params
          | none =>
              have later : ¬ key <:+: front ++ param.written := by
                have closed : ¬ key <:+: param.value ++ 34 :: [] :=
                  not_isInfix_append_cons (letters.not_mem (by decide))
                    (not_isInfix_of_firstOccurrence inValue) fun piece =>
                      nonempty (List.infix_nil.mp piece)
                have shape := written_append param []
                rw [List.append_nil] at shape
                rw [shape]
                exact not_isInfix_value letters absent noName closed
              rw [← List.append_assoc]
              exact ih later

/-! ## The whole header -/

/-- Letters found in front of the parameters are not followed by an equals sign. -/
theorem extractValue_of_disposition {key : Bytes} (inside : key <:+: disposition)
    (params : List HeaderParam) : extractValue (headerOf params) key = [] := by
  by_cases nonempty : key = []
  · subst nonempty
    rfl
  · cases found : firstOccurrence key disposition with
    | none => exact absurd inside (not_isInfix_of_firstOccurrence found)
    | some index =>
        obtain ⟨front, back, whole, _, first⟩ := exists_first nonempty found
        have split : headerOf params =
            front ++ (key ++ (back ++ params.flatMap HeaderParam.written)) := by
          rw [headerOf, whole]
          simp only [List.append_assoc]
        rw [split, extractValue_first nonempty first, readBehind_other]
        cases back with
        | nil =>
            cases params with
            | nil => simp
            | cons param params => simp [HeaderParam.written]
        | cons byte back =>
            have foreign : (61 : UInt8) ∉ disposition := by decide
            rw [List.cons_append, List.head?_cons, ne_eq, Option.some.injEq]
            rintro rfl
            exact foreign (by rw [whole]; simp)

/-- The values read have no quotes in them. -/
theorem quote_not_mem_asked (params : List HeaderParam) (key : Bytes) :
    (34 : UInt8) ∉ asked params key := by
  unfold asked
  cases params.find? fun param => decide (param.name = key) with
  | none => exact List.not_mem_nil
  | some param => exact param.plain.1

/-- The lookup is right when it gives the value asked for. -/
theorem looksUp_iff {params : List HeaderParam} (distinct : (params.map HeaderParam.name).Nodup)
    (key : Bytes) : LooksUp params key ↔ extractValue (headerOf params) key = asked params key := by
  unfold LooksUp asked
  cases found : params.find? fun param => decide (param.name = key) with
  | none =>
      have missing : ∀ param ∈ params, param.name ≠ key := by
        simpa using List.find?_eq_none.mp found
      constructor
      · exact fun looksUp => looksUp.2 missing
      · exact fun same => ⟨fun param member named => absurd named (missing param member),
          fun _ => same⟩
  | some param =>
      have member := List.mem_of_find?_eq_some found
      have named : param.name = key := by simpa using List.find?_some found
      constructor
      · exact fun looksUp => looksUp.1 param member named
      · intro same
        refine ⟨fun other inside sameName => ?_, fun missing => absurd named (missing param member)⟩
        rw [List.inj_on_of_nodup_map distinct inside member (sameName.trans named.symm)]
        exact same

/-- **When a header parameter is found.** The lookup is right if and only if what stands
where the letters of the key come first fits what the key asks for. -/
theorem looksUp_iff_fitsHeader {params : List HeaderParam} {key : Bytes}
    (distinct : (params.map HeaderParam.name).Nodup) (letters : Letters key) :
    LooksUp params key ↔ FitsHeader params key := by
  rw [looksUp_iff distinct]
  unfold FitsHeader
  by_cases inside : key <:+: disposition
  · rw [if_pos inside, extractValue_of_disposition inside]
    exact eq_comm
  · have nonempty : key ≠ [] := fun empty => inside (empty ▸ List.nil_infix)
    rw [if_neg inside]
    exact extractValue_eq_iff letters nonempty (quote_not_mem_asked params key) inside params

/-- The parameters of a file part, in the order of the browsers. -/
def fileName : HeaderParam where
  name := bytes "name"
  value := bytes "file"
  name_ne_nil := by decide
  letters := List.all_eq_true.mp (by decide)
  plain := by decide

def fileFilename : HeaderParam where
  name := bytes "filename"
  value := bytes "a.txt"
  name_ne_nil := by decide
  letters := List.all_eq_true.mp (by decide)
  plain := by decide

/-- The name is found in front of the file name. -/
theorem looksUp_fileName : LooksUp [fileName, fileFilename] (bytes "name") := by
  have whole : firstOccurrence (bytes "name") fileName.name = some 0 := by decide +kernel
  refine (looksUp_iff_fitsHeader (by decide) (List.all_eq_true.mp (by decide))).mpr ?_
  rw [FitsHeader, if_neg (by decide +kernel), FitsFirst, whole]
  decide +kernel

/-- In the other order the end of `filename` is taken for `name`. -/
theorem not_looksUp_filename_first : ¬ LooksUp [fileFilename, fileName] (bytes "name") := by
  intro looksUp
  have value := looksUp.1 fileName (by simp) rfl
  exact absurd value (by decide +kernel)

end Multipart

end Cdfs
