import Cdfs.Http.Multipart

/-! # Where the boundary parameter stands

`parse` takes everything behind `boundary=` as the boundary. Parameters in front of it do
not matter, nor do quotes around it; a parameter behind it becomes part of the boundary,
and no form is found any more.
-/

namespace Cdfs

open Basis

namespace Multipart

/-- A letter or a digit. -/
def isAlphanumeric (byte : UInt8) : Bool :=
  (65 ≤ byte && byte ≤ 90) || (97 ≤ byte && byte ≤ 122) || (48 ≤ byte && byte ≤ 57)

/-- The bytes of a token in a header. -/
def isTokenByte (byte : UInt8) : Bool :=
  isAlphanumeric byte || (bytes "!#$%&'*+-.^_`|~").contains byte

/-- A token: not empty, of token bytes only. -/
def IsToken (text : Bytes) : Prop := text ≠ [] ∧ ∀ byte ∈ text, isTokenByte byte = true

/-- A boundary of letters, digits and dashes. -/
structure Boundary where
  text : Bytes
  plain : ∀ byte ∈ text, (isAlphanumeric byte || byte == 45) = true

/-- Another parameter of a content type. -/
structure ContentParam where
  name : Bytes
  value : Bytes
  isToken_name : IsToken name
  isToken_value : IsToken value
  foreign : ¬ bytes "boundary=" <:+: name ++ 61 :: value

/-- A parameter as it stands in the header. -/
def ContentParam.written (param : ContentParam) : Bytes :=
  59 :: 32 :: (param.name ++ 61 :: param.value)

/-- A boundary as it stands in the header, bare or in quotes. -/
def Boundary.written (boundary : Boundary) (quoted : Bool) : Bytes :=
  if quoted then 34 :: (boundary.text ++ [34]) else boundary.text

/-- The header with parameters before and after the boundary parameter. -/
def contentTypeOf (before : List ContentParam) (boundary : Boundary) (quoted : Bool)
    (after : List ContentParam) : Bytes :=
  bytes "multipart/form-data" ++ (before.flatMap ContentParam.written ++
    (bytes "; boundary=" ++ (boundary.written quoted ++ after.flatMap ContentParam.written)))

/-- For every body, parsing with the header gives what it gives with the plain header. -/
def PositionIrrelevant (before : List ContentParam) (boundary : Boundary) (quoted : Bool)
    (after : List ContentParam) : Prop :=
  ∀ body, parse (contentTypeOf before boundary quoted after) body =
    parse (contentTypeOf [] boundary false []) body

/-- A byte of a token is no quote and no separator. -/
theorem plain_of_isTokenByte {byte : UInt8} :
    isTokenByte byte = true → byte ≠ 34 ∧ byte ≠ 59 ∧ byte ≠ 32 :=
  @forall_byte (fun byte => isTokenByte byte = true → byte ≠ 34 ∧ byte ≠ 59 ∧ byte ≠ 32)
    (by decide +kernel) byte

/-- A pattern that cannot reach over a separator is on one side of it. -/
theorem not_isInfix_append_cons {pattern front back : Bytes} {separator : UInt8}
    (foreign : separator ∉ pattern) (first : ¬ pattern <:+: front) (second : ¬ pattern <:+: back) :
    ¬ pattern <:+: front ++ separator :: back := by
  have nonempty : pattern ≠ [] := fun empty => second (empty ▸ List.nil_infix)
  have start {piece : Bytes} (early : piece <+: separator :: back) (plain : separator ∉ piece) :
      piece = [] := by
    rcases List.prefix_cons_iff.mp early with empty | ⟨rest, rfl, _⟩
    · exact empty
    · exact absurd (List.mem_cons_self ..) plain
  intro found
  rcases List.infix_append_iff.mp found with inside | behind | ⟨left, right, rfl, ends, starts⟩
  · exact first inside
  · rcases List.infix_cons_iff.mp behind with early | inside
    · exact nonempty (start early foreign)
    · exact second inside
  · rw [start starts fun member => foreign (List.mem_append_right _ member), List.append_nil] at first
    exact first ends.isInfix

variable {before after : List ContentParam} {boundary : Boundary} {quoted : Bool}

/-- Another parameter does not spell `boundary=`. -/
theorem foreign_written (param : ContentParam) {front : Bytes}
    (absent : ¬ bytes "boundary=" <:+: front) : ¬ bytes "boundary=" <:+: front ++ param.written := by
  have space : ¬ bytes "boundary=" <:+: [] ++ 32 :: (param.name ++ 61 :: param.value) :=
    not_isInfix_append_cons (by decide +kernel) (by decide +kernel) param.foreign
  exact not_isInfix_append_cons (by decide +kernel) absent space

/-- In front of the boundary parameter the header has no `boundary=`. -/
theorem foreign_before (before : List ContentParam) :
    ¬ bytes "boundary=" <:+: bytes "multipart/form-data" ++
      (before.flatMap ContentParam.written ++ bytes "; ") := by
  have params : ¬ bytes "boundary=" <:+: bytes "multipart/form-data" ++
      before.flatMap ContentParam.written := by
    induction before using List.reverseRecOn with
    | nil => decide +kernel
    | append_singleton before param ih =>
        rw [List.flatMap_append, List.flatMap_singleton, ← List.append_assoc]
        exact foreign_written param ih
  have semicolon : bytes "; " = 59 :: [32] := by decide
  rw [← List.append_assoc, semicolon]
  exact not_isInfix_append_cons (by decide +kernel) params (by decide +kernel)

/-- The header in front of and behind `boundary=`. -/
theorem contentTypeOf_eq : contentTypeOf before boundary quoted after =
    (bytes "multipart/form-data" ++ (before.flatMap ContentParam.written ++ bytes "; ")) ++
      (bytes "boundary=" ++ (boundary.written quoted ++ after.flatMap ContentParam.written)) := by
  have split : bytes "; boundary=" = bytes "; " ++ bytes "boundary=" := by decide
  simp only [contentTypeOf, split, List.append_assoc]

/-- A boundary has letters, digits and hyphens only. -/
theorem Boundary.not_mem (boundary : Boundary) {byte : UInt8}
    (foreign : (isAlphanumeric byte || byte == 45) = false) : byte ∉ boundary.text := by
  intro member
  rw [boundary.plain byte member] at foreign
  cases foreign

/-- With nothing behind it the boundary is read as it is meant. -/
theorem boundary_contentTypeOf (before : List ContentParam) (boundary : Boundary) (quoted : Bool) :
    Multipart.boundary (contentTypeOf before boundary quoted []) = some boundary.text := by
  rw [contentTypeOf_eq, List.flatMap_nil, List.append_nil]
  refine boundary_contentType (foreign_before before) (boundary.not_mem (by decide)) ?_
  unfold Boundary.written
  cases quoted with
  | true => exact .inr rfl
  | false => exact .inl rfl

/-- Everything behind `boundary=` is the boundary when it does not end in a quote. -/
theorem boundary_eq_rest {start rest : Bytes} (absent : ¬ bytes "boundary=" <:+: start)
    (last : rest.getLast? ≠ some 34) :
    Multipart.boundary (start ++ (bytes "boundary=" ++ rest)) = some rest := by
  rw [boundary_append absent, if_neg fun quotes => last quotes.2.2]

/-- A parameter behind the boundary becomes part of it. -/
theorem boundary_contentTypeOf_after (before : List ContentParam) (boundary : Boundary)
    (quoted : Bool) (some : after ≠ []) :
    Multipart.boundary (contentTypeOf before boundary quoted after) =
      .some (boundary.written quoted ++ after.flatMap ContentParam.written) := by
  rw [contentTypeOf_eq]
  apply boundary_eq_rest (foreign_before before)
  obtain ⟨front, param, rfl⟩ := (List.eq_nil_or_concat' after).resolve_left some
  obtain ⟨most, final, value⟩ := (List.eq_nil_or_concat' param.value).resolve_left
    param.isToken_value.1
  have token : isTokenByte final = true := param.isToken_value.2 final (by rw [value]; simp)
  have shape : boundary.written quoted ++ (front ++ [param]).flatMap ContentParam.written =
      (boundary.written quoted ++ (front.flatMap ContentParam.written ++
        (59 :: 32 :: (param.name ++ 61 :: most)))) ++ [final] := by
    simp [ContentParam.written, value]
  rw [shape, List.getLast?_concat, ne_eq, Option.some.injEq]
  exact (plain_of_isTokenByte token).1

/-! ## A form that is only found with the right boundary -/

/-- A form of one field. -/
def oneField : List FormPart := [.field (bytes "a") []]

/-- With the boundary last the field is found, whatever stands in front of it. -/
theorem parse_oneField (before : List ContentParam) (boundary : Boundary) (quoted : Bool) :
    ∃ form, parse (contentTypeOf before boundary quoted []) (encodeParts boundary.text oneField) =
      some form ∧ form.params.get (bytes "a") = some [] := by
  have valid : IsDelimiter (bytes "--" ++ boundary.text) :=
    ⟨_, rfl, boundary.not_mem (by decide), boundary.not_mem (by decide)⟩
  have absent : ∀ part ∈ oneField, ¬ bytes "--" ++ boundary.text <:+: part.data := by
    intro part member
    rw [List.mem_singleton.mp member]
    exact fun inside => absurd (List.infix_nil.mp inside) valid.ne_nil
  have enough := Nat.lt_succ_of_le (length_le_encodeParts boundary.text oneField)
  have read := parseParts_encodeParts valid (by decide +kernel) absent [] {} enough
  refine ⟨oneField.foldl (fun form part => part.addTo form) {}, ?_, ?_⟩
  · rw [parse, boundary_contentTypeOf, Option.map_some]
    exact congrArg some read
  · decide +kernel

/-- In the encoded form nothing like a delimiter with a semicolon occurs. -/
theorem not_isInfix_oneField (boundary : Boundary) (quoted : Bool) (rest : Bytes) :
    ¬ bytes "--" ++ (boundary.written quoted ++ 59 :: rest) <:+:
      encodeParts boundary.text oneField := by
  have plain {byte : UInt8} (foreign : (isAlphanumeric byte || byte == 45) = false)
      (quote : byte ≠ 34) : byte ∉ bytes "--" ++ boundary.written quoted := by
    have dashes : byte ∉ bytes "--" := fun member => by
      have dashes : bytes "--" = List.replicate 2 45 := by decide
      rw [dashes] at member
      rw [List.eq_of_mem_replicate member] at foreign
      cases foreign
    have text := boundary.not_mem foreign
    unfold Boundary.written
    split
    · simp [dashes, text, quote]
    · simp [dashes, text]
  -- The only semicolon of the body stands behind `form-data`.
  let front := (bytes "--" ++ boundary.text) ++ (bytes "\r\nContent-Disposition:")
  let back := bytes " name=\"a\"\r\n\r\n\r\n" ++ ((bytes "--" ++ boundary.text) ++ bytes "--\r\n")
  have whole : encodeParts boundary.text oneField =
      (front ++ 32 :: bytes "form-data") ++ 59 :: back := by
    have middle : crlf ++ ((FormPart.field (bytes "a") []).header ++ (crlf ++ crlf ++ ([] ++ crlf))) =
        bytes "\r\nContent-Disposition:" ++ (32 :: bytes "form-data" ++
          59 :: bytes " name=\"a\"\r\n\r\n\r\n") := by decide +kernel
    have closing : bytes "--" ++ crlf = bytes "--\r\n" := by decide +kernel
    rw [encodeParts, oneField, List.flatMap_singleton, FormPart.encode, FormPart.data, middle, closing]
    simp only [front, back, List.append_assoc, List.cons_append]
  have semicolon : (59 : UInt8) ∉ boundary.text := boundary.not_mem (by decide)
  have first : (59 : UInt8) ∉ front ++ 32 :: bytes "form-data" := by
    simp only [front, List.mem_append, List.mem_cons, not_or]
    exact ⟨⟨⟨by decide, semicolon⟩, by decide⟩, by decide, by decide⟩
  have second : (59 : UInt8) ∉ back := by
    simp only [back, List.mem_append, not_or]
    exact ⟨by decide, ⟨by decide, semicolon⟩, by decide⟩
  rintro ⟨start, stop, found⟩
  have cut : (start ++ (bytes "--" ++ boundary.written quoted)) ++ 59 :: (rest ++ stop) =
      (front ++ 32 :: bytes "form-data") ++ 59 :: back := by
    rw [← whole, ← found]
    simp only [List.append_assoc, List.cons_append]
  have before := (List.append_cons_inj_of_notMem first second).mp cut.symm
  have ends : bytes "--" ++ boundary.written quoted <:+ front ++ 32 :: bytes "form-data" :=
    ⟨start, before.1.symm⟩
  rcases List.suffix_or_suffix_of_suffix ends (List.suffix_append front _) with inside | outside
  · rcases List.suffix_cons_iff.mp inside with same | inside
    · exact plain (by decide) (by decide) (same ▸ List.mem_cons_self ..)
    · have dashes : bytes "--" <:+: bytes "form-data" :=
        (List.prefix_append _ _).isInfix.trans inside.isInfix
      exact absurd dashes (by decide +kernel)
  · exact plain (by decide) (by decide) (outside.subset (List.mem_cons_self ..))

/-- Without its delimiter a body is an empty form. -/
theorem parse_of_absent {contentType body text : Bytes}
    (read : Multipart.boundary contentType = some text) (absent : ¬ bytes "--" ++ text <:+: body) :
    parse contentType body = some {} := by
  have missing : find body (bytes "--" ++ text) 0 = none := by
    rw [find, if_pos (Nat.zero_le _), List.drop_zero, Option.map_eq_none_iff,
      firstOccurrence_eq_none_iff]
    exact fun index occurs => absent occurs.isInfix
  have ended : nextPart (bytes "--" ++ text) body 0 {} = none := by
    unfold nextPart
    rw [missing]
  rw [parse, read, Option.map_some, parseParts, ended]

/-- With a parameter behind the boundary the form is lost. -/
theorem parse_ne_of_after (before : List ContentParam) (boundary : Boundary) (quoted : Bool)
    (some : after ≠ []) :
    parse (contentTypeOf before boundary quoted after) (encodeParts boundary.text oneField) ≠
      parse (contentTypeOf [] boundary false []) (encodeParts boundary.text oneField) := by
  obtain ⟨param, more, rfl⟩ := List.exists_cons_of_ne_nil some
  obtain ⟨form, found, field⟩ := parse_oneField [] boundary false
  have lost := parse_of_absent (boundary_contentTypeOf_after before boundary quoted some)
    (not_isInfix_oneField boundary quoted
      (32 :: (param.name ++ 61 :: param.value) ++ more.flatMap ContentParam.written))
  rw [lost, found, ne_eq, Option.some.injEq]
  rintro rfl
  cases field

/-- **The boundary parameter has to be the last one.** Parameters in front of it and quotes
around it change nothing; the position does not matter for any body if and only if no
parameter stands behind it. -/
theorem positionIrrelevant_iff (before : List ContentParam) (boundary : Boundary) (quoted : Bool)
    (after : List ContentParam) : PositionIrrelevant before boundary quoted after ↔ after = [] := by
  constructor
  · intro irrelevant
    by_contra some
    exact parse_ne_of_after before boundary quoted some (irrelevant _)
  · rintro rfl body
    rw [parse, parse, boundary_contentTypeOf, boundary_contentTypeOf]

def sampleBoundary : Boundary := ⟨bytes "xYz", List.all_eq_true.mp (by decide)⟩

/-- The parameter of the header `multipart/form-data; boundary=xYz; charset=utf-8`. -/
def charset : ContentParam where
  name := bytes "charset"
  value := bytes "utf-8"
  isToken_name := ⟨by decide, List.all_eq_true.mp (by decide)⟩
  isToken_value := ⟨by decide, List.all_eq_true.mp (by decide)⟩
  foreign := by decide +kernel

/-- A parameter behind the boundary is taken for a part of it. -/
theorem not_positionIrrelevant_charset :
    parse (contentTypeOf [] sampleBoundary false [charset])
        (encodeParts sampleBoundary.text oneField) ≠
      parse (contentTypeOf [] sampleBoundary false [])
        (encodeParts sampleBoundary.text oneField) :=
  parse_ne_of_after [] sampleBoundary false (List.cons_ne_nil charset [])

end Multipart

end Cdfs
