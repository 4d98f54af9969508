import Cdfs.Http.Multipart

/-! # The parser of forms on any body

The loop of `MultipartParser::parse` written once more with every element access and
every `substr` checked. For each content type and body, well-formed or not, no check
fails and the loop ends (`Cdfs.Multipart.checkedParse_eq`).
-/

namespace Cdfs

open Basis

namespace Multipart

/-- An access the standard library throws at or leaves undefined, and a loop that is
still going. -/
inductive BadAccess where
  | element (position length : Nat)
  | substr (start length : Nat)
  | unending
  deriving DecidableEq, Repr

/-- Code that stops at a bad access. -/
abbrev Checked (α : Type) := Except BadAccess α

namespace Checked

/-- `text[position]`. -/
def element (text : Bytes) (position : Nat) : Checked UInt8 :=
  match text[position]? with
  | some byte => .ok byte
  | none => .error (.element position text.length)

/-- `text.substr(start, stop - start)`, the rest of the text when the length wraps. -/
def substr (text : Bytes) (start stop : Nat) : Checked Bytes :=
  if text.length < start then .error (.substr start text.length)
  else .ok (if stop < start then text.drop start else (text.drop start).take (stop - start))

/-- Two bytes are compared, the second when the first is the one. -/
def both (text : Bytes) (position other : Nat) (first second : UInt8) : Checked Bool := do
  if (← element text position) = first then
    return (← element text other) = second
  else return false

/-- There is a quote at the position. -/
def quoted (header : Bytes) (start : Nat) : Checked Bool := do
  if start < header.length then
    return (← element header start) = 34
  else return false

/-- `extract_value`. -/
def extractValue (header key : Bytes) : Checked Bytes := do
  match find header key 0 with
  | none => return []
  | some pos =>
      let start := pos + key.length
      if header.length ≤ start then return []
      else if (← element header start) ≠ 61 then return []
      else if ← quoted header (start + 1) then
        match find header [34] (start + 2) with
        | none => return []
        | some stop => substr header (start + 2) stop
      else
        substr header (start + 1)
          ((findFirstOf header (bytes "; \r\n") (start + 1)).getD header.length)

/-- The boundary of a content type. -/
def boundary (contentType : Bytes) : Checked (Option Bytes) := do
  match find contentType (bytes "boundary=") 0 with
  | none => return none
  | some pos =>
      let value ← substr contentType (pos + (bytes "boundary=").length) contentType.length
      if value.length < 2 then return some value
      else if ← both value 0 (value.length - 1) 34 34 then
        return some (← substr value 1 (value.length - 1))
      else return some value

/-- The closing delimiter stands at the position. -/
def closes (endDelimiter body : Bytes) (partStart : Nat) : Checked Bool := do
  if partStart + endDelimiter.length ≤ body.length then
    return (← substr body partStart (partStart + endDelimiter.length)) = endDelimiter
  else return false

/-- The data of a part. -/
def partData (body : Bytes) (dataStart nextBoundary : Nat) : Checked Bytes := do
  if nextBoundary < 2 then substr body dataStart nextBoundary
  else if ← both body (nextBoundary - 2) (nextBoundary - 1) 13 10 then
    substr body dataStart (nextBoundary - 2)
  else substr body dataStart nextBoundary

/-- One turn of the loop. -/
def nextPart (delimiter body : Bytes) (pos : Nat) (form : MultipartForm) :
    Checked (Option (Nat × MultipartForm)) := do
  match find body delimiter pos with
  | none => return none
  | some partStart =>
      if ← closes (delimiter ++ bytes "--") body partStart then return none
      else
        let headerStart := partStart + delimiter.length
        if body.length < headerStart + 2 then return none
        else if ← both body headerStart (headerStart + 1) 13 10 then
          match find body (crlf ++ crlf) (headerStart + 2) with
          | none => return none
          | some headerEnd =>
              let headerPart ← substr body (headerStart + 2) headerEnd
              let name ← extractValue headerPart (bytes "name")
              let filename ← extractValue headerPart (bytes "filename")
              match find body delimiter (headerEnd + 4) with
              | none => return none
              | some nextBoundary =>
                  let data ← partData body (headerEnd + 4) nextBoundary
                  return some (nextBoundary, savePart form name filename data)
        else return some (headerStart, form)

/-- The loop, which may take a number of turns. -/
def parseParts (delimiter body : Bytes) : Nat → Nat → MultipartForm → Checked MultipartForm
  | 0, _, _ => .error .unending
  | turns + 1, pos, form => do
      match ← nextPart delimiter body pos form with
      | none => return form
      | some (pos, form) => parseParts delimiter body turns pos form

/-- `MultipartParser::parse` with as many turns as the body is long and one more. -/
def parse (contentType body : Bytes) : Checked (Option MultipartForm) := do
  match ← boundary contentType with
  | none => return none
  | some boundary =>
      return some (← parseParts (bytes "--" ++ boundary) body (body.length + 1) 0 {})

section Accesses

variable {text : Bytes}

theorem element_eq {position : Nat} (inside : position < text.length) :
    element text position = .ok text[position] := by
  rw [element, List.getElem?_eq_getElem inside]

theorem substr_eq {start stop : Nat} (inside : start ≤ text.length) (forward : start ≤ stop) :
    substr text start stop = .ok ((text.drop start).take (stop - start)) := by
  rw [substr, if_neg (not_lt.mpr inside), if_neg (not_lt.mpr forward)]

/-- Within the text two elements are compared. -/
theorem both_eq {position other : Nat} (inside : position < text.length)
    (also : other < text.length) (first second : UInt8) :
    both text position other first second =
      .ok (decide (text[position] = first ∧ text[other] = second)) := by
  rw [both, element_eq inside, element_eq also]
  change (if text[position] = first then Except.ok (decide (text[other] = second))
    else Except.ok false) = _
  by_cases same : text[position] = first
  · rw [if_pos same]
    simp only [same, true_and]
  · rw [if_neg same]
    simp only [same, false_and, decide_false]

/-- Comparing two bytes in a row is comparing the piece they make. -/
theorem both_succ_eq {position : Nat} (inside : position + 2 ≤ text.length) (first second : UInt8) :
    both text position (position + 1) first second =
      .ok (decide ((text.drop position).take 2 = [first, second])) := by
  have piece : (text.drop position).take 2 = [text[position], text[position + 1]] := by
    rw [List.drop_eq_getElem_cons (by omega), List.drop_eq_getElem_cons (by omega)]
    rfl
  rw [both_eq (by omega) (by omega), piece]
  simp only [List.cons.injEq, and_true]

/-- The quote behind the key is looked for within the header. -/
theorem quoted_eq (header : Bytes) (start : Nat) :
    quoted header start = .ok (decide (header[start]? = some 34)) := by
  unfold quoted
  by_cases inside : start < header.length
  · rw [if_pos inside, element_eq inside]
    simp only [List.getElem?_eq_getElem inside, Option.some.injEq]
    rfl
  · rw [if_neg inside]
    simp only [List.getElem?_eq_none (not_lt.mp inside), reduceCtorEq, decide_false]
    rfl

/-- A search finds nothing in front of its start. -/
theorem le_of_findFirstOf {set : Bytes} {start found : Nat}
    (search : findFirstOf text set start = some found) : start ≤ found := by
  obtain ⟨offset, _, rfl⟩ := Option.map_eq_some_iff.mp search
  exact Nat.le_add_right ..

/-- No access of `extract_value` is bad. -/
theorem extractValue_eq (header key : Bytes) :
    extractValue header key = .ok (Multipart.extractValue header key) := by
  unfold extractValue Multipart.extractValue
  cases found : find header key 0 with
  | none => rfl
  | some pos =>
      dsimp only
      by_cases beyond : header.length ≤ pos + key.length
      · rw [if_pos beyond, if_pos (by rw [List.getElem?_eq_none beyond]; exact nofun)]
        rfl
      · have inside := not_le.mp beyond
        rw [if_neg beyond, element_eq inside, List.getElem?_eq_getElem inside, quoted_eq]
        change (if header[pos + key.length] ≠ 61 then _ else _) = _
        by_cases equals : header[pos + key.length] = 61
        · rw [if_neg (not_not.mpr equals), if_neg (by rw [equals]; exact not_not.mpr rfl)]
          change (if decide (header[pos + key.length + 1]? = some 34) = true then _ else _) = _
          by_cases quote : header[pos + key.length + 1]? = some 34
          · rw [if_pos (decide_eq_true quote), if_pos quote]
            obtain ⟨within, _⟩ := List.getElem?_eq_some_iff.mp quote
            cases closing : find header [34] (pos + key.length + 2) with
            | none => rfl
            | some stop =>
                obtain ⟨forward, _⟩ := bounds_of_find closing
                exact substr_eq (by omega) forward
          · rw [if_neg (by rw [decide_eq_true_eq]; exact quote), if_neg quote]
            refine substr_eq (by omega) ?_
            cases separator : findFirstOf header (bytes "; \r\n") (pos + key.length + 1) with
            | none => exact inside
            | some stop => exact le_of_findFirstOf separator
        · rw [if_pos equals, if_pos (by rwa [ne_eq, Option.some.injEq])]
          rfl

/-- No access to the content type is bad. -/
theorem boundary_eq (contentType : Bytes) :
    boundary contentType = .ok (Multipart.boundary contentType) := by
  unfold boundary Multipart.boundary
  cases found : find contentType (bytes "boundary=") 0 with
  | none => rfl
  | some pos =>
      obtain ⟨_, within⟩ := bounds_of_find found
      have value : substr contentType (pos + (bytes "boundary=").length) contentType.length =
          .ok (contentType.drop (pos + (bytes "boundary=").length)) := by
        rw [substr_eq within within, List.take_of_length_le (List.length_drop ..).le]
      dsimp only
      rw [value, Option.map_some]
      generalize contentType.drop (pos + (bytes "boundary=").length) = value
      change (if value.length < 2 then _ else _) = _
      by_cases short : value.length < 2
      · rw [if_pos short, if_neg fun quotes => absurd quotes.1 (not_le.mpr short)]
        rfl
      · have long := not_lt.mp short
        have quotes : (value[0] = 34 ∧ value[value.length - 1] = 34) ↔
            (2 ≤ value.length ∧ value.head? = some 34 ∧ value.getLast? = some 34) := by
          rw [List.head?_eq_getElem?, List.getLast?_eq_getElem?,
            List.getElem?_eq_getElem (by omega), List.getElem?_eq_getElem (by omega),
            Option.some.injEq, Option.some.injEq]
          exact (and_iff_right long).symm
        rw [if_neg short, both_eq (by omega) (by omega)]
        simp only [quotes]
        change (if decide _ = true then _ else _) = _
        by_cases quoted : 2 ≤ value.length ∧ value.head? = some 34 ∧ value.getLast? = some 34
        · rw [if_pos (decide_eq_true quoted), if_pos quoted, substr_eq (by omega) (by omega),
            Nat.sub_sub]
          rfl
        · rw [if_neg (by rw [decide_eq_true_eq]; exact quoted), if_neg quoted]
          rfl

/-- No access of the check for the end is bad. -/
theorem closes_eq (endDelimiter : Bytes) {body : Bytes} {partStart : Nat}
    (inside : partStart ≤ body.length) :
    closes endDelimiter body partStart =
      .ok (endDelimiter.isPrefixOf (body.drop partStart)) := by
  have found : endDelimiter.isPrefixOf (body.drop partStart) =
      decide ((body.drop partStart).take endDelimiter.length = endDelimiter) := by
    rw [Bool.eq_iff_iff, List.isPrefixOf_iff_prefix, decide_eq_true_eq, List.prefix_iff_eq_take,
      eq_comm]
  unfold closes
  by_cases room : partStart + endDelimiter.length ≤ body.length
  · rw [if_pos room, substr_eq inside (Nat.le_add_right ..), Nat.add_sub_cancel_left, found]
    rfl
  · rw [if_neg room, found, decide_eq_false]
    · rfl
    · intro same
      have length := congrArg List.length same
      rw [List.length_take, List.length_drop] at length
      omega

/-- No access for the data of a part is bad. -/
theorem partData_eq {body : Bytes} {dataStart nextBoundary : Nat}
    (started : dataStart ≤ body.length) (inside : nextBoundary ≤ body.length) :
    partData body dataStart nextBoundary =
      .ok (Multipart.partData body dataStart nextBoundary) := by
  have upTo {stop : Nat} (ends : (if 2 ≤ nextBoundary ∧ (body.drop (nextBoundary - 2)).take 2 = crlf
      then nextBoundary - 2 else nextBoundary) = stop) :
      substr body dataStart stop = .ok (Multipart.partData body dataStart nextBoundary) := by
    rw [substr, if_neg (not_lt.mpr started), Multipart.partData, ends]
  unfold partData
  by_cases early : nextBoundary < 2
  · rw [if_pos early, upTo (if_neg fun late => absurd late.1 (not_le.mpr early))]
  · have two : nextBoundary - 1 = nextBoundary - 2 + 1 := by omega
    rw [if_neg early, two, both_succ_eq (by omega)]
    change (if decide ((body.drop (nextBoundary - 2)).take 2 = crlf) = true then _ else _) = _
    by_cases lineBreak : (body.drop (nextBoundary - 2)).take 2 = crlf
    · rw [if_pos (decide_eq_true lineBreak), upTo (if_pos ⟨not_lt.mp early, lineBreak⟩)]
    · rw [if_neg (by rw [decide_eq_true_eq]; exact lineBreak),
        upTo (if_neg fun late => lineBreak late.2)]

/-- No access of a turn of the loop is bad. -/
theorem nextPart_eq (delimiter body : Bytes) (pos : Nat) (form : MultipartForm) :
    nextPart delimiter body pos form = .ok (Multipart.nextPart delimiter body pos form) := by
  unfold nextPart Multipart.nextPart
  cases found : find body delimiter pos with
  | none => rfl
  | some partStart =>
      obtain ⟨_, inside⟩ := bounds_of_find found
      dsimp only
      rw [closes_eq _ (by omega)]
      change (if (delimiter ++ bytes "--").isPrefixOf (body.drop partStart) = true then _ else _) = _
      split
      · rfl
      · split
        · rfl
        · rename_i room
          rw [both_succ_eq (by omega)]
          change (if decide ((body.drop (partStart + delimiter.length)).take 2 = crlf) = true
            then _ else _) = _
          by_cases lineBreak : (body.drop (partStart + delimiter.length)).take 2 = crlf
          · rw [if_pos (decide_eq_true lineBreak), if_neg (not_not.mpr lineBreak)]
            cases ends : find body (crlf ++ crlf) (partStart + delimiter.length + 2) with
            | none => rfl
            | some headerEnd =>
                obtain ⟨forward, within⟩ := bounds_of_find ends
                dsimp only
                rw [substr_eq (by omega) forward]
                change (extractValue _ _ >>= fun name => extractValue _ _ >>= _) = _
                rw [extractValue_eq]
                change (extractValue _ _ >>= _) = _
                rw [extractValue_eq]
                have four : (crlf ++ crlf).length = 4 := rfl
                cases following : find body delimiter (headerEnd + 4) with
                | none => rfl
                | some nextBoundary =>
                    obtain ⟨_, ended⟩ := bounds_of_find following
                    change (partData _ _ _ >>= _) = _
                    rw [partData_eq (by omega) (by omega)]
                    rfl
          · rw [if_neg (by rw [decide_eq_true_eq]; exact lineBreak), if_pos lineBreak]
            rfl

/-- No access of the loop is bad, and it ends when it has one turn more than the rest of
the body is long. -/
theorem parseParts_eq {delimiter body : Bytes} (nonempty : delimiter ≠ []) {turns pos : Nat}
    {form : MultipartForm} (enough : body.length ≤ pos + turns) :
    parseParts delimiter body (turns + 1) pos form =
      .ok (Multipart.parseParts delimiter body (turns + 1) pos form) := by
  induction turns generalizing pos form with
  | zero =>
      rw [parseParts, Multipart.parseParts, nextPart_eq]
      cases turn : Multipart.nextPart delimiter body pos form with
      | none => rfl
      | some result =>
          obtain ⟨next, after⟩ := result
          have forward := pos_lt_of_nextPart nonempty turn
          omega
  | succ turns ih =>
      rw [parseParts, Multipart.parseParts, nextPart_eq]
      cases turn : Multipart.nextPart delimiter body pos form with
      | none => rfl
      | some result =>
          obtain ⟨next, after⟩ := result
          have forward := pos_lt_of_nextPart nonempty turn
          exact ih (by omega)

end Accesses

end Checked

/-- **The parser is total and in bounds.** For every content type and body the checked
parser gives the result of the plain one: no element access and no `substr` is bad, and
the loop ends. Every turn that goes on moves the position forward, within the body. -/
theorem checkedParse_eq (contentType body : Bytes) :
    Checked.parse contentType body = .ok (parse contentType body) ∧
      ∀ value, boundary contentType = some value → ∀ pos form next after,
        Checked.nextPart (bytes "--" ++ value) body pos form = .ok (some (next, after)) →
          pos < next ∧ next ≤ body.length := by
  have nonempty (value : Bytes) : bytes "--" ++ value ≠ [] := List.cons_ne_nil _ _
  constructor
  · unfold Checked.parse parse
    rw [Checked.boundary_eq]
    cases boundary contentType with
    | none => rfl
    | some value =>
        change (Checked.parseParts (bytes "--" ++ value) body (body.length + 1) 0 {} >>= _) = _
        rw [Checked.parseParts_eq (nonempty value) (by omega)]
        rfl
  · intro value _ pos form next after turn
    rw [Checked.nextPart_eq, Except.ok.injEq] at turn
    exact pos_lt_of_nextPart (nonempty value) turn

/-! ## What is stored -/

/-- A part that a turn of the loop reads: its names, where its data start and where the
next delimiter stands. -/
structure PartRead where
  name : Bytes
  filename : Bytes
  dataStart : Nat
  nextBoundary : Nat
  deriving DecidableEq, Repr

/-- The part read by the turn from a position; none when the loop ends there or skips the
delimiter. -/
def readPart (delimiter body : Bytes) (pos : Nat) : Option PartRead :=
  match find body delimiter pos with
  | none => none
  | some partStart =>
      let headerStart := partStart + delimiter.length
      if (delimiter ++ bytes "--").isPrefixOf (body.drop partStart) then none
      else if body.length < headerStart + 2 then none
      else if (body.drop headerStart).take 2 ≠ crlf then none
      else
        match find body (crlf ++ crlf) (headerStart + 2) with
        | none => none
        | some headerEnd =>
            let headerPart := (body.drop (headerStart + 2)).take (headerEnd - (headerStart + 2))
            (find body delimiter (headerEnd + 4)).map fun nextBoundary =>
              { name := extractValue headerPart (bytes "name")
                filename := extractValue headerPart (bytes "filename")
                dataStart := headerEnd + 4
                nextBoundary }

/-- The parts read by the loop from a position. -/
def partsRead (delimiter body : Bytes) : Nat → Nat → List PartRead
  | 0, _ => []
  | turns + 1, pos =>
      match nextPart delimiter body pos {} with
      | none => []
      | some (next, _) => (readPart delimiter body pos).toList ++ partsRead delimiter body turns next

namespace PartRead

/-- The data stored for a part. -/
def data (body : Bytes) (part : PartRead) : Bytes := partData body part.dataStart part.nextBoundary

/-- Where the data end, as the parser computes it. -/
def dataEnd (body : Bytes) (part : PartRead) : Nat :=
  if 2 ≤ part.nextBoundary ∧ (body.drop (part.nextBoundary - 2)).take 2 = crlf
  then part.nextBoundary - 2 else part.nextBoundary

/-- The form after a part. -/
def saveIn (body : Bytes) (form : MultipartForm) (part : PartRead) : MultipartForm :=
  savePart form part.name part.filename (part.data body)

/-- A part with a name of either kind is stored. -/
def Stored (part : PartRead) : Prop := part.filename ≠ [] ∨ part.name ≠ []

instance (part : PartRead) : Decidable part.Stored :=
  inferInstanceAs (Decidable (part.filename ≠ [] ∨ part.name ≠ []))

/-- The data of a part are a piece of the body between its blank line and the next
delimiter. -/
structure Inside (delimiter body : Bytes) (part : PartRead) : Prop where
  /-- The piece starts right after a blank line. -/
  blankLine : 4 ≤ part.dataStart ∧ OccursAt (crlf ++ crlf) body (part.dataStart - 4)
  /-- The next delimiter is the first one from there on. -/
  following : find body delimiter part.dataStart = some part.nextBoundary
  /-- The length of the piece does not wrap. -/
  forward : part.dataStart ≤ part.dataEnd body
  /-- The piece ends at the latest where the delimiter starts. -/
  early : part.dataEnd body ≤ part.nextBoundary
  /-- The data are that piece. -/
  piece : part.data body =
    (body.drop part.dataStart).take (part.dataEnd body - part.dataStart)
  /-- The delimiter does not occur in them. -/
  absent : ¬ delimiter <:+: part.data body

end PartRead

section Stored

variable {delimiter body : Bytes}

/-- What a turn does: it reads a part and saves it, or leaves the form alone. -/
theorem nextPart_eq_readPart (delimiter body : Bytes) (pos : Nat) (form : MultipartForm) :
    nextPart delimiter body pos form = (nextPart delimiter body pos {}).map fun turn =>
      (turn.1, (readPart delimiter body pos).toList.foldl (PartRead.saveIn body) form) := by
  unfold nextPart readPart
  cases find body delimiter pos with
  | none => rfl
  | some partStart =>
      dsimp only
      split
      · rfl
      · split
        · rfl
        · split
          · rfl
          · cases find body (crlf ++ crlf) (partStart + delimiter.length + 2) with
            | none => rfl
            | some headerEnd =>
                dsimp only
                cases find body delimiter (headerEnd + 4) with
                | none => rfl
                | some nextBoundary => rfl

/-- The loop saves the parts it reads, one after the other. -/
theorem parseParts_eq_foldl (delimiter body : Bytes) (turns pos : Nat) (form : MultipartForm) :
    parseParts delimiter body turns pos form =
      (partsRead delimiter body turns pos).foldl (PartRead.saveIn body) form := by
  induction turns generalizing pos form with
  | zero => rfl
  | succ turns ih =>
      rw [parseParts, partsRead, nextPart_eq_readPart]
      cases nextPart delimiter body pos {} with
      | none => rfl
      | some turn =>
          simp only [Option.map_some, List.foldl_append]
          exact ih turn.1 _

/-- Where a part that is read stands. -/
theorem readPart_spec {pos : Nat} {part : PartRead}
    (read : readPart delimiter body pos = some part) :
    (4 ≤ part.dataStart ∧ OccursAt (crlf ++ crlf) body (part.dataStart - 4)) ∧
      find body delimiter part.dataStart = some part.nextBoundary := by
  unfold readPart at read
  cases found : find body delimiter pos with
  | none =>
      rw [found] at read
      cases read
  | some partStart =>
      simp only [found] at read
      split at read
      · cases read
      · split at read
        · cases read
        · split at read
          · cases read
          · split at read
            · cases read
            · rename_i headerEnd ends
              obtain ⟨nextBoundary, following, rfl⟩ := Option.map_eq_some_iff.mp read
              exact ⟨⟨Nat.le_add_left .., (occursAt_of_find ends).1⟩, following⟩

/-- Every part read is read at some position. -/
theorem readPart_of_mem {turns pos : Nat} {part : PartRead}
    (member : part ∈ partsRead delimiter body turns pos) :
    ∃ position, readPart delimiter body position = some part := by
  induction turns generalizing pos with
  | zero => cases member
  | succ turns ih =>
      rw [partsRead] at member
      split at member
      · cases member
      · rcases List.mem_append.mp member with here | later
        · exact ⟨pos, Option.mem_toList.mp here⟩
        · exact ih later

/-- In front of the data stands the line break that ends the blank line. -/
theorem lineBreak_of_blankLine {start : Nat} (late : 4 ≤ start)
    (occurs : OccursAt (crlf ++ crlf) body (start - 4)) :
    (body.drop (start - 2)).take 2 = crlf ∧ body[start - 1]? = some 10 := by
  obtain ⟨_, rest, whole⟩ := occurs
  have behind : body.drop (start - 2) = crlf ++ rest := by
    rw [show start - 2 = start - 4 + 2 by omega, ← List.drop_drop, ← whole]
    rfl
  constructor
  · rw [behind]
    rfl
  · rw [show start - 1 = start - 2 + 1 by omega, ← List.getElem?_drop, behind]
    rfl

/-- The data of a part stay inside it exactly when the next delimiter does not stand
right behind the blank line. -/
theorem inside_iff (nonempty : delimiter ≠ []) {pos : Nat} {part : PartRead}
    (read : readPart delimiter body pos = some part) :
    part.Inside delimiter body ↔ part.nextBoundary ≠ part.dataStart := by
  obtain ⟨⟨late, blank⟩, following⟩ := readPart_spec read
  obtain ⟨ahead, within⟩ := bounds_of_find following
  obtain ⟨_, least⟩ := occursAt_of_find following
  obtain ⟨lineBreak, lineFeed⟩ := lineBreak_of_blankLine late blank
  have positive := List.length_pos_iff.mpr nonempty
  constructor
  · intro inside same
    have forward := inside.forward
    rw [PartRead.dataEnd, same, if_pos ⟨by omega, lineBreak⟩] at forward
    omega
  · intro different
    have forward : part.dataStart ≤ part.dataEnd body := by
      unfold PartRead.dataEnd
      split
      · rename_i back
        by_contra beyond
        -- the line break would start with the line feed of the blank line
        have first : body[part.dataStart - 1]? = some 13 := by
          have head := congrArg List.head? back.2
          rw [List.head?_take, if_neg (by decide), List.head?_drop,
            show part.nextBoundary - 2 = part.dataStart - 1 by omega] at head
          exact head
        rw [lineFeed] at first
        cases first
      · exact ahead
    have early : part.dataEnd body ≤ part.nextBoundary := by
      unfold PartRead.dataEnd
      split
      · exact Nat.sub_le ..
      · exact le_rfl
    have piece : part.data body =
        (body.drop part.dataStart).take (part.dataEnd body - part.dataStart) := by
      unfold PartRead.data partData
      exact if_neg (not_lt.mpr forward)
    refine ⟨⟨late, blank⟩, following, forward, early, piece, fun occurs => ?_⟩
    rw [piece] at occurs
    obtain ⟨index, found⟩ := exists_occursAt occurs
    obtain ⟨there, room⟩ := found.of_take_drop (by omega)
    exact least _ (Nat.le_add_right ..) (by omega) there

end Stored

/-- All data that the parser stores stay inside their parts. -/
def DataInside (contentType body : Bytes) : Prop :=
  ∀ value, boundary contentType = some value →
    ∀ part ∈ partsRead (bytes "--" ++ value) body (body.length + 1) 0, part.Stored →
      part.Inside (bytes "--" ++ value) body

/-- The form is made of the parts read, in their order. -/
theorem parse_eq_foldl (contentType body : Bytes) :
    parse contentType body = (boundary contentType).map fun value =>
      (partsRead (bytes "--" ++ value) body (body.length + 1) 0).foldl (PartRead.saveIn body) {} :=
  congrArg (boundary contentType).map (funext fun _ => parseParts_eq_foldl _ _ _ _ _)

/-- **When extracted data stay inside their parts.** For every content type and body: if
and only if no part that is stored has the next delimiter right behind its blank line. -/
theorem dataInside_iff (contentType body : Bytes) :
    DataInside contentType body ↔ ∀ value, boundary contentType = some value →
      ∀ part ∈ partsRead (bytes "--" ++ value) body (body.length + 1) 0, part.Stored →
        part.nextBoundary ≠ part.dataStart := by
  refine forall_congr' fun value => forall_congr' fun _ => forall_congr' fun part =>
    forall_congr' fun member => forall_congr' fun _ => ?_
  obtain ⟨position, read⟩ := readPart_of_mem member
  exact inside_iff (List.cons_ne_nil _ _) read

/-- A body with a field whose blank line the closing delimiter follows at once. -/
def emptyFieldBody : Bytes :=
  bytes "--b\r\nContent-Disposition: form-data; name=\"a\"\r\n\r\n--b--\r\n"

/-- The field gets the rest of the body, delimiter included. -/
theorem not_dataInside_emptyFieldBody :
    (parse (bytes "multipart/form-data; boundary=b") emptyFieldBody).map
        (fun form => form.params.get (bytes "a")) = some (some (bytes "--b--\r\n")) ∧
      ¬ DataInside (bytes "multipart/form-data; boundary=b") emptyFieldBody := by
  refine ⟨by decide +kernel, fun inside => ?_⟩
  have value : boundary (bytes "multipart/form-data; boundary=b") = some (bytes "b") := by
    decide +kernel
  have parts : partsRead (bytes "--" ++ bytes "b") emptyFieldBody (emptyFieldBody.length + 1) 0 =
      [{ name := bytes "a", filename := [], dataStart := 49, nextBoundary := 49 }] := by
    decide +kernel
  have stored := inside _ value _ (by rw [parts]; exact List.mem_singleton_self _)
    (by decide +kernel)
  exact absurd stored.forward (by decide +kernel)

end Multipart

end Cdfs
