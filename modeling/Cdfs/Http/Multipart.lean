import Cdfs.Basis.Bytes
import Cdfs.Basis.OrderedMap

/-! # Multipart forms

The parser of `server/MultipartParser.cc` walks over the request body by searching
for the delimiter, the end of the part's headers and the next delimiter. A body
written in the format of the browsers is read back
(`Cdfs.Multipart.parse_encodeParts`): the form holds the last file part and, for
every field name, the data of the last field part with that name.
-/

namespace Cdfs

open Basis

/-- The result of parsing a form. -/
structure MultipartForm where
  filename : Bytes := []
  content : Bytes := []
  params : OrderedMap Bytes Bytes := OrderedMap.empty

/-- `get_param`. -/
def MultipartForm.getParam (form : MultipartForm) (key : Bytes) (defaultVal : Bytes := []) : Bytes :=
  (form.params.get key).getD defaultVal

namespace Multipart

/-- `text.find_first_of(set, start)`. -/
def findFirstOf (text set : Bytes) (start : Nat) : Option Nat :=
  ((text.drop start).findIdx? fun byte => decide (byte ∈ set)).map (start + ·)

/-- `extract_value`: the value after the first occurrence of the key, which must be
followed by an equals sign; in quotes or up to a separator. -/
def extractValue (header key : Bytes) : Bytes :=
  match find header key 0 with
  | none => []
  | some pos =>
      let start := pos + key.length
      if header[start]? ≠ some 61 then []
      else if header[start + 1]? = some 34 then
        match find header [34] (start + 2) with
        | none => []
        | some stop => (header.drop (start + 2)).take (stop - (start + 2))
      else
        let stop := (findFirstOf header (bytes "; \r\n") (start + 1)).getD header.length
        (header.drop (start + 1)).take (stop - (start + 1))

/-- The boundary of a content type: everything after `boundary=`, without the
quotes around it. -/
def boundary (contentType : Bytes) : Option Bytes :=
  (find contentType (bytes "boundary=") 0).map fun pos =>
    let value := contentType.drop (pos + (bytes "boundary=").length)
    if 2 ≤ value.length ∧ value.head? = some 34 ∧ value.getLast? = some 34 then
      (value.drop 1).take (value.length - 2)
    else value

/-- The form after one part: a part with a file name is the file, another part with
a name is a parameter. -/
def savePart (form : MultipartForm) (name filename data : Bytes) : MultipartForm :=
  if filename ≠ [] then { form with filename, content := data }
  else if name ≠ [] then { form with params := form.params.put name data }
  else form

/-- The data of a part: up to the next delimiter, without the line break before it.
When that line break is the one of the blank line, the length of the piece wraps and
the rest of the body is taken. -/
def partData (body : Bytes) (dataStart nextBoundary : Nat) : Bytes :=
  let dataEnd :=
    if 2 ≤ nextBoundary ∧ (body.drop (nextBoundary - 2)).take 2 = crlf then nextBoundary - 2
    else nextBoundary
  if dataEnd < dataStart then body.drop dataStart
  else (body.drop dataStart).take (dataEnd - dataStart)

/-- One turn of the parsing loop from a position; none when the loop ends. -/
def nextPart (delimiter body : Bytes) (pos : Nat) (form : MultipartForm) :
    Option (Nat × MultipartForm) :=
  match find body delimiter pos with
  | none => none
  | some partStart =>
      let headerStart := partStart + delimiter.length
      if (delimiter ++ bytes "--").isPrefixOf (body.drop partStart) then none
      else if body.length < headerStart + 2 then none
      else if (body.drop headerStart).take 2 ≠ crlf then some (headerStart, form)
      else
        match find body (crlf ++ crlf) (headerStart + 2) with
        | none => none
        | some headerEnd =>
            let headerPart := (body.drop (headerStart + 2)).take (headerEnd - (headerStart + 2))
            let name := extractValue headerPart (bytes "name")
            let filename := extractValue headerPart (bytes "filename")
            match find body delimiter (headerEnd + 4) with
            | none => none
            | some nextBoundary =>
                some (nextBoundary,
                  savePart form name filename (partData body (headerEnd + 4) nextBoundary))

/-- The parsing loop, with a bound on the number of turns. -/
def parseParts (delimiter body : Bytes) : Nat → Nat → MultipartForm → MultipartForm
  | 0, _, form => form
  | turns + 1, pos, form =>
      match nextPart delimiter body pos form with
      | none => form
      | some (pos, form) => parseParts delimiter body turns pos form

/-- `MultipartParser::parse`. Every turn moves the position forward, so the loop ends
within as many turns as the body is long. -/
def parse (contentType body : Bytes) : Option MultipartForm :=
  (boundary contentType).map fun boundary =>
    parseParts (bytes "--" ++ boundary) body (body.length + 1) 0 {}

/-! ## The loop ends -/

section Progress

variable {delimiter body : Bytes}

/-- A turn of the loop moves the position forward. -/
theorem pos_lt_of_nextPart (nonempty : delimiter ≠ []) {pos next : Nat} {form after : MultipartForm}
    (turn : nextPart delimiter body pos form = some (next, after)) :
    pos < next ∧ next ≤ body.length := by
  have positive := List.length_pos_iff.mpr nonempty
  unfold nextPart at turn
  split at turn
  · cases turn
  · rename_i partStart found
    obtain ⟨ahead, inside⟩ := bounds_of_find found
    simp only [ne_eq] at turn
    split at turn
    · cases turn
    · split at turn
      · cases turn
      · split at turn
        · cases turn
          omega
        · split at turn
          · cases turn
          · rename_i headerEnd ends
            obtain ⟨later, _⟩ := bounds_of_find ends
            split at turn
            · cases turn
            · rename_i nextBoundary following
              obtain ⟨beyond, within⟩ := bounds_of_find following
              cases turn
              omega

/-- More turns than the rest of the body is long do not matter. -/
theorem parseParts_eq_of_le (nonempty : delimiter ≠ []) {turns more pos : Nat} {form : MultipartForm}
    (enough : body.length < pos + turns) (larger : turns ≤ more) :
    parseParts delimiter body more pos form = parseParts delimiter body turns pos form := by
  induction turns generalizing more pos form with
  | zero =>
      cases more with
      | zero => rfl
      | succ more =>
          have ended : nextPart delimiter body pos form = none := by
            cases turn : nextPart delimiter body pos form with
            | none => rfl
            | some result =>
                obtain ⟨next, after⟩ := result
                have forward := pos_lt_of_nextPart nonempty turn
                omega
          simp only [parseParts, ended]
  | succ turns ih =>
      cases more with
      | zero => omega
      | succ more =>
          rw [parseParts, parseParts]
          cases turn : nextPart delimiter body pos form with
          | none => rfl
          | some result =>
              obtain ⟨next, after⟩ := result
              have forward := pos_lt_of_nextPart nonempty turn
              exact ih (by omega) (by omega)

end Progress

/-! ## Forms in the format of the browsers -/

/-- A part of a form. -/
inductive FormPart where
  | field (name data : Bytes)
  | file (name filename contentType data : Bytes)
  deriving DecidableEq, Repr

namespace FormPart

/-- A header parameter with its value in quotes. -/
def quoted (key value : Bytes) : Bytes := key ++ (bytes "=\"" ++ (value ++ bytes "\""))

/-- The start of every part header. -/
def formData : Bytes := bytes "Content-Disposition: form-data; "

/-- The header lines of a part. -/
def header : FormPart → Bytes
  | .field name _ => formData ++ quoted (bytes "name") name
  | .file name filename contentType _ =>
      formData ++ (quoted (bytes "name") name ++ (bytes "; " ++
        (quoted (bytes "filename") filename ++ (crlf ++ (bytes "Content-Type: " ++ contentType)))))

/-- The data of a part. -/
def data : FormPart → Bytes
  | .field _ data => data
  | .file _ _ _ data => data

/-- The field name of a part. -/
def name : FormPart → Bytes
  | .field name _ => name
  | .file name _ _ _ => name

/-- The file name of a part, empty for a field. -/
def filename : FormPart → Bytes
  | .field _ _ => []
  | .file _ filename _ _ => filename

/-- A text without quotes and line breaks. -/
def Plain (text : Bytes) : Prop := (34 : UInt8) ∉ text ∧ (13 : UInt8) ∉ text ∧ (10 : UInt8) ∉ text

/-- The names and the content type of a part can be written in its header, and the
parser finds the right names in it. -/
def WellFormed : FormPart → Prop
  | .field name _ => name ≠ [] ∧ Plain name ∧ ¬ bytes "filename=" <:+: name
  | .file name filename contentType _ =>
      name ≠ [] ∧ Plain name ∧ ¬ bytes "filename" <:+: name ∧ filename ≠ [] ∧ Plain filename ∧
        (13 : UInt8) ∉ contentType ∧ (10 : UInt8) ∉ contentType

instance (text : Bytes) : Decidable (Plain text) :=
  inferInstanceAs (Decidable ((34 : UInt8) ∉ text ∧ (13 : UInt8) ∉ text ∧ (10 : UInt8) ∉ text))

instance (part : FormPart) : Decidable part.WellFormed :=
  match part with
  | .field name _ =>
      inferInstanceAs (Decidable (name ≠ [] ∧ Plain name ∧ ¬ bytes "filename=" <:+: name))
  | .file name filename contentType _ =>
      inferInstanceAs (Decidable (name ≠ [] ∧ Plain name ∧ ¬ bytes "filename" <:+: name ∧
        filename ≠ [] ∧ Plain filename ∧ (13 : UInt8) ∉ contentType ∧ (10 : UInt8) ∉ contentType))

/-- A part as it stands in the body. -/
def encode (boundary : Bytes) (part : FormPart) : Bytes :=
  (bytes "--" ++ boundary) ++ (crlf ++ (part.header ++ (crlf ++ crlf ++ (part.data ++ crlf))))

end FormPart

/-- A whole body: the parts and the closing delimiter. -/
def encodeParts (boundary : Bytes) (parts : List FormPart) : Bytes :=
  parts.flatMap (FormPart.encode boundary) ++ ((bytes "--" ++ boundary) ++ (bytes "--" ++ crlf))

/-- The form after a part. -/
def FormPart.addTo (form : MultipartForm) : FormPart → MultipartForm
  | .field name data => { form with params := form.params.put name data }
  | .file _ filename _ data => { form with filename, content := data }

namespace FormPart

/-- File name and data of a file part. -/
def file? : FormPart → Option (Bytes × Bytes)
  | .field _ _ => none
  | .file _ filename _ data => some (filename, data)

/-- Name and data of a field part. -/
def field? : FormPart → Option (Bytes × Bytes)
  | .field name data => some (name, data)
  | .file _ _ _ _ => none

/-- The last file part. -/
def lastFile (parts : List FormPart) : Option (Bytes × Bytes) := (parts.filterMap file?).getLast?

/-- The data of the last field part with a name. -/
def lastField (parts : List FormPart) (name : Bytes) : Option Bytes :=
  (((parts.filterMap field?).filter fun field => decide (field.1 = name)).getLast?).map Prod.snd

/-- The last field of a name counts. -/
theorem lastField_append_field (parts : List FormPart) (name data other : Bytes) :
    lastField (parts ++ [.field name data]) other =
      if name = other then some data else lastField parts other := by
  have one : [FormPart.field name data].filterMap field? = [(name, data)] := rfl
  unfold lastField
  rw [List.filterMap_append, one, List.filter_append]
  by_cases same : name = other
  · simp only [same, decide_true, List.filter_cons_of_pos, List.filter_nil, List.getLast?_concat,
      Option.map_some, ↓reduceIte]
  · simp only [same, decide_false, Bool.false_eq_true, not_false_eq_true, List.filter_cons_of_neg,
      List.filter_nil, List.append_nil, ↓reduceIte]

/-- A file is no field. -/
theorem lastField_append_file (parts : List FormPart) (name filename contentType data other : Bytes) :
    lastField (parts ++ [.file name filename contentType data]) other = lastField parts other := by
  have one : [FormPart.file name filename contentType data].filterMap field? = [] := rfl
  unfold lastField
  rw [List.filterMap_append, one, List.append_nil]

/-- A field is no file. -/
theorem lastFile_append_field (parts : List FormPart) (name data : Bytes) :
    lastFile (parts ++ [.field name data]) = lastFile parts := by
  have one : [FormPart.field name data].filterMap file? = [] := rfl
  unfold lastFile
  rw [List.filterMap_append, one, List.append_nil]

/-- The last file counts. -/
theorem lastFile_append_file (parts : List FormPart) (name filename contentType data : Bytes) :
    lastFile (parts ++ [.file name filename contentType data]) = some (filename, data) := by
  have one : [FormPart.file name filename contentType data].filterMap file? =
      [(filename, data)] := rfl
  unfold lastFile
  rw [List.filterMap_append, one, List.getLast?_concat]

/-- Adding all parts to the empty form leaves the last file and the last value of
every field. -/
theorem foldl_addTo (parts : List FormPart) :
    let form := parts.foldl (fun form part => part.addTo form) ({} : MultipartForm)
    form.filename = ((lastFile parts).map Prod.fst).getD [] ∧
      form.content = ((lastFile parts).map Prod.snd).getD [] ∧
      ∀ name, form.params.get name = lastField parts name := by
  induction parts using List.reverseRecOn with
  | nil => exact ⟨rfl, rfl, fun _ => rfl⟩
  | append_singleton parts part ih =>
      obtain ⟨filename, content, params⟩ := ih
      simp only [List.foldl_append, List.foldl_cons, List.foldl_nil]
      cases part with
      | field name data =>
          rw [lastFile_append_field]
          refine ⟨filename, content, fun other => ?_⟩
          rw [lastField_append_field, addTo, OrderedMap.get_put, params]
      | file name filename contentType data =>
          rw [lastFile_append_file]
          refine ⟨rfl, rfl, fun other => ?_⟩
          rw [lastField_append_file]
          exact params other

end FormPart

section Header

open FormPart

/-- A parameter of a header, letter by letter. -/
theorem quoted_append (key value after : Bytes) :
    quoted key value ++ after = key ++ (bytes "=\"" ++ (value ++ ([34] ++ after))) := by
  simp only [quoted, List.append_assoc]
  rfl

/-- A quoted value is found when the key does not occur earlier. -/
theorem extractValue_quoted {before key value after : Bytes} (plain : (34 : UInt8) ∉ value)
    (absent : AbsentBefore key (before ++ (quoted key value ++ after)) before.length) :
    extractValue (before ++ (quoted key value ++ after)) key = value := by
  rw [quoted_append] at absent ⊢
  have found : find (before ++ (key ++ (bytes "=\"" ++ (value ++ ([34] ++ after))))) key 0 =
      some before.length := by
    simpa using find_append [] before key _ absent
  have equals : (before ++ (key ++ (bytes "=\"" ++ (value ++ ([34] ++ after)))))[before.length +
      key.length]? = some 61 := by
    rw [← List.append_assoc, ← List.length_append, List.getElem?_append_right le_rfl, Nat.sub_self]
    rfl
  have quote : (before ++ (key ++ (bytes "=\"" ++ (value ++ ([34] ++ after)))))[before.length +
      key.length + 1]? = some 34 := by
    rw [← List.append_assoc, ← List.length_append, List.getElem?_append_right (Nat.le_add_right ..),
      Nat.add_sub_cancel_left]
    rfl
  have split : before ++ (key ++ (bytes "=\"" ++ (value ++ ([34] ++ after)))) =
      (before ++ key ++ bytes "=\"") ++ (value ++ ([34] ++ after)) := by
    simp only [List.append_assoc]
  have length : before.length + key.length + 2 = (before ++ key ++ bytes "=\"").length := by
    simp only [List.length_append]
    rfl
  have closing := find_append (before ++ key ++ bytes "=\"") value [34] after
    (absentBefore_of_head plain)
  unfold extractValue
  rw [found]
  simp only [equals, quote, ne_eq, not_true_eq_false, ↓reduceIte]
  rw [split, length, closing]
  simp only [List.drop_left, Nat.add_sub_cancel_left, List.take_left]

/-- No value is found when the key is nowhere followed by an equals sign. -/
theorem extractValue_eq_nil {header key : Bytes} (absent : ¬ key ++ [61] <:+: header) :
    extractValue header key = [] := by
  unfold extractValue
  split
  · rfl
  · rename_i pos found
    have other : header[pos + key.length]? ≠ some 61 := by
      intro equals
      obtain ⟨⟨_, rest, split⟩, _⟩ := occursAt_of_find found
      have next : rest.head? = some 61 := by
        rw [← equals, ← List.getElem?_drop, ← split, List.getElem?_append_right le_rfl,
          Nat.sub_self, List.head?_eq_getElem?]
      obtain ⟨tail, rfl⟩ := List.head?_eq_some_iff.mp next
      refine absent (List.IsInfix.trans ?_ (List.drop_suffix pos header).isInfix)
      rw [← split]
      exact ⟨[], tail, by simp⟩
    simp only [ne_eq, other, not_false_eq_true, ↓reduceIte]

/-- The first `name` of a header is the one of the name parameter. -/
theorem absentBefore_name (value after : Bytes) :
    AbsentBefore (bytes "name") (formData ++ (quoted (bytes "name") value ++ after))
      formData.length := by
  intro index below occurs
  have split : formData ++ (quoted (bytes "name") value ++ after) =
      (formData ++ bytes "name") ++ 61 :: (34 :: (value ++ ([34] ++ after))) := by
    rw [quoted_append, List.append_assoc]
    rfl
  rw [split] at occurs
  have starts : index ≤ (formData ++ bytes "name").length := by
    rw [List.length_append]
    omega
  have inside := occurs.of_append_separator (by decide +kernel) starts
  have never : ∀ index < formData.length,
      ¬ OccursAt (bytes "name") (formData ++ bytes "name") index := by decide +kernel
  exact never index below inside

/-- The name of a part is read from its header. -/
theorem extractValue_header_name {part : FormPart} (wellFormed : part.WellFormed) :
    extractValue part.header (bytes "name") = part.name := by
  cases part with
  | field name data =>
      have absent := absentBefore_name name []
      have value := extractValue_quoted wellFormed.2.1.1 absent
      rwa [List.append_nil] at value
  | file name filename contentType data =>
      exact extractValue_quoted wellFormed.2.1.1 (absentBefore_name name _)

/-- A pattern without quotes that is not in the name does not occur up to the end of
the name parameter. -/
theorem absentBefore_nameParameter {pattern value after : Bytes} {bound : Nat}
    (foreign : (34 : UInt8) ∉ pattern) (start : ¬ pattern <:+: formData ++ bytes "name=")
    (absent : ¬ pattern <:+: value) (rest : AbsentBefore pattern after bound) :
    AbsentBefore pattern (formData ++ (quoted (bytes "name") value ++ after))
      ((formData ++ quoted (bytes "name") value).length + bound) := by
  have split : formData ++ (quoted (bytes "name") value ++ after) =
      ((formData ++ bytes "name=") ++ [34]) ++ ((value ++ [34]) ++ after) := by
    rw [quoted_append]
    simp only [List.append_assoc]
    rfl
  have length : (formData ++ quoted (bytes "name") value).length + bound =
      ((formData ++ bytes "name=") ++ [34]).length + ((value ++ [34]).length + bound) := by
    simp only [quoted, List.length_append, ← Nat.add_assoc]
    rfl
  rw [split, length]
  exact (absentBefore_separator foreign start).append
    ((absentBefore_separator foreign absent).append rest)

/-- The file name of a part is read from its header; a field has none. -/
theorem extractValue_header_filename {part : FormPart} (wellFormed : part.WellFormed) :
    extractValue part.header (bytes "filename") = part.filename := by
  cases part with
  | field name data =>
      obtain ⟨_, _, absent⟩ := wellFormed
      refine extractValue_eq_nil (not_isInfix_of_absentBefore (by decide +kernel) ?_)
      have none : AbsentBefore (bytes "filename=") [] 0 := fun _ below => absurd below (by omega)
      have whole := absentBefore_nameParameter (by decide +kernel) (by decide +kernel) absent none
      rwa [List.append_nil] at whole
  | file name filename contentType data =>
      obtain ⟨_, _, absent, _, plain, _, _⟩ := wellFormed
      have separator (after : Bytes) : AbsentBefore (bytes "filename") (bytes "; " ++ after)
          (bytes "; ").length := absentBefore_of_head (by decide +kernel)
      have whole (after : Bytes) := absentBefore_nameParameter (by decide +kernel)
        (by decide +kernel) absent (separator after)
      have split (after : Bytes) : formData ++ (quoted (bytes "name") name ++ (bytes "; " ++ after)) =
          (formData ++ quoted (bytes "name") name ++ bytes "; ") ++ after := by
        simp only [List.append_assoc]
      simp only [split, ← List.length_append] at whole
      rw [header, split]
      exact extractValue_quoted plain.1 (whole _)

/-- The header ends at its first blank line. -/
theorem absentBefore_blankLine {part : FormPart} (wellFormed : part.WellFormed) (after : Bytes) :
    AbsentBefore (crlf ++ crlf) (part.header ++ (crlf ++ crlf ++ after)) part.header.length := by
  have oneLine {line : Bytes} (rest : Bytes) (plain : (13 : UInt8) ∉ line) :
      AbsentBefore (crlf ++ crlf) (line ++ rest) line.length := absentBefore_of_head plain
  have nameLine {name : Bytes} (plain : Plain name) :
      (13 : UInt8) ∉ formData ++ quoted (bytes "name") name := by
    simp only [quoted, List.mem_append, not_or]
    exact ⟨by decide +kernel, by decide +kernel, by decide +kernel, plain.2.1, by decide +kernel⟩
  cases part with
  | field name data => exact oneLine _ (nameLine wellFormed.2.1)
  | file name filename contentType data =>
      obtain ⟨_, plainName, _, _, plain, noReturn, _⟩ := wellFormed
      have first : (13 : UInt8) ∉ formData ++ quoted (bytes "name") name ++ (bytes "; " ++
          quoted (bytes "filename") filename) := by
        refine fun member => ?_
        rcases List.mem_append.mp member with member | member
        · exact nameLine plainName member
        · revert member
          simp only [quoted, List.mem_append, imp_false, not_or]
          exact ⟨by decide +kernel, by decide +kernel, by decide +kernel, plain.2.1,
            by decide +kernel⟩
      have second : (13 : UInt8) ∉ bytes "Content-Type: " ++ contentType := by
        simp only [List.mem_append, not_or]
        exact ⟨by decide +kernel, noReturn⟩
      have lineBreak (rest : Bytes) : AbsentBefore (crlf ++ crlf)
          (crlf ++ (bytes "Content-Type: " ++ rest)) crlf.length := by
        intro index below occurs
        have starts : bytes "Content-Type: " = 67 :: bytes "ontent-Type: " := by decide +kernel
        have two : index < 2 := below
        rw [starts] at occurs
        interval_cases index
        · simp [OccursAt, crlf, List.cons_prefix_cons] at occurs
        · simp [OccursAt, crlf, List.cons_prefix_cons] at occurs
      have following : AbsentBefore (crlf ++ crlf)
          (bytes "Content-Type: " ++ (contentType ++ (crlf ++ crlf ++ after)))
            (bytes "Content-Type: " ++ contentType).length := by
        rw [← List.append_assoc]
        exact oneLine _ second
      have whole := (oneLine _ first).append ((lineBreak _).append following)
      simpa only [header, List.append_assoc, List.length_append, Nat.add_assoc] using whole

end Header

section Encoded

/-- A delimiter of a form: no line break, and the two dashes in front. -/
def IsDelimiter (delimiter : Bytes) : Prop :=
  ∃ boundary, delimiter = bytes "--" ++ boundary ∧ (13 : UInt8) ∉ boundary ∧ (10 : UInt8) ∉ boundary

variable {delimiter : Bytes}

/-- A delimiter has no carriage return in it. -/
theorem IsDelimiter.not_mem (valid : IsDelimiter delimiter) : (13 : UInt8) ∉ delimiter := by
  obtain ⟨boundary, rfl, plain, _⟩ := valid
  simp only [List.mem_append, not_or]
  exact ⟨by decide +kernel, plain⟩

theorem IsDelimiter.ne_nil (valid : IsDelimiter delimiter) : delimiter ≠ [] := by
  obtain ⟨boundary, rfl, _⟩ := valid
  exact List.cons_ne_nil _ _

/-- The first delimiter after the start of the data is the one behind its line
break. -/
theorem IsDelimiter.absentBefore_data (valid : IsDelimiter delimiter) {data : Bytes}
    (absent : ¬ delimiter <:+: data) (after : Bytes) :
    AbsentBefore delimiter ((data ++ crlf) ++ (delimiter ++ after)) (data ++ crlf).length := by
  have lineFeed : AbsentBefore delimiter ([10] ++ (delimiter ++ after)) [10].length := by
    obtain ⟨boundary, rfl, _⟩ := valid
    exact absentBefore_of_head (by decide)
  have whole := (absentBefore_separator valid.not_mem absent).append lineFeed
  simpa only [crlf, List.append_assoc, List.length_append, List.cons_append, List.nil_append,
    List.length_cons, List.length_nil] using whole

/-- The data of a part stands between two positions, without the line break at its end. -/
theorem partData_append (skipped data after : Bytes) :
    partData (skipped ++ (data ++ (crlf ++ after))) skipped.length
      (skipped.length + (data ++ crlf).length) = data := by
  have back : skipped.length + (data ++ crlf).length - 2 = (skipped ++ data).length := by
    simp only [List.length_append, crlf, List.length_cons, List.length_nil]
    omega
  have trimmed : ((skipped ++ (data ++ (crlf ++ after))).drop (skipped ++ data).length).take 2 =
      crlf := by
    rw [← List.append_assoc, List.drop_left]
    rfl
  have two : 2 ≤ skipped.length + (data ++ crlf).length := by
    simp only [List.length_append, crlf, List.length_cons, List.length_nil]
    omega
  have length : (skipped ++ data).length - skipped.length = data.length := by
    rw [List.length_append, Nat.add_sub_cancel_left]
  have forward : ¬ (skipped ++ data).length < skipped.length := by
    rw [List.length_append]
    omega
  unfold partData
  simp only [back, trimmed, two, and_self, ↓reduceIte, forward, length]
  rw [List.drop_left, List.take_left]

/-- One turn of the loop reads one part and stops at the next delimiter. -/
theorem nextPart_encode {boundary : Bytes} (valid : IsDelimiter (bytes "--" ++ boundary))
    {part : FormPart} (wellFormed : part.WellFormed)
    (absent : ¬ bytes "--" ++ boundary <:+: part.data) (skipped after : Bytes)
    (form : MultipartForm) :
    nextPart (bytes "--" ++ boundary)
        (skipped ++ (part.encode boundary ++ ((bytes "--" ++ boundary) ++ after)))
        skipped.length form =
      some ((skipped ++ part.encode boundary).length,
        savePart form part.name part.filename part.data) := by
  unfold FormPart.encode
  generalize bytes "--" ++ boundary = delimiter at *
  generalize whole : skipped ++ ((delimiter ++ (crlf ++ (part.header ++ (crlf ++ crlf ++
    (part.data ++ crlf))))) ++ (delimiter ++ after)) = body
  have atDelimiter : body = skipped ++ (delimiter ++ (crlf ++ (part.header ++ (crlf ++ crlf ++
      (part.data ++ (crlf ++ (delimiter ++ after))))))) := by
    simp only [← whole, List.append_assoc]
  have atHeader : body = (skipped ++ delimiter ++ crlf) ++ (part.header ++ (crlf ++ crlf ++
      (part.data ++ (crlf ++ (delimiter ++ after))))) := by
    simp only [← whole, List.append_assoc]
  have atData : body = (skipped ++ delimiter ++ crlf ++ part.header ++ (crlf ++ crlf)) ++
      ((part.data ++ crlf) ++ (delimiter ++ after)) := by
    simp only [← whole, List.append_assoc]
  have first : find body delimiter skipped.length = some skipped.length := by
    rw [atDelimiter]
    exact find_append skipped [] delimiter _ fun _ below => absurd below (Nat.not_lt_zero _)
  have notEnd : (delimiter ++ bytes "--").isPrefixOf (body.drop skipped.length) = false := by
    rw [atDelimiter, List.drop_left, Bool.eq_false_iff, ne_eq, List.isPrefixOf_iff_prefix,
      List.prefix_append_right_inj]
    exact fun starts => absurd (List.cons_prefix_cons.mp starts).1 (by decide)
  have lineBreak : (body.drop (skipped.length + delimiter.length)).take 2 = crlf := by
    rw [atDelimiter, ← List.append_assoc, ← List.length_append, List.drop_left]
    rfl
  have headerStart : skipped.length + delimiter.length + 2 =
      (skipped ++ delimiter ++ crlf).length := by
    simp only [List.length_append]
    rfl
  have long : ¬ body.length < (skipped ++ delimiter ++ crlf).length := by
    rw [atHeader, List.length_append]
    omega
  have headerEnd : find body (crlf ++ crlf) (skipped ++ delimiter ++ crlf).length =
      some (skipped ++ delimiter ++ crlf ++ part.header).length := by
    have found := find_append (skipped ++ delimiter ++ crlf) part.header (crlf ++ crlf) _
      (absentBefore_blankLine wellFormed (part.data ++ (crlf ++ (delimiter ++ after))))
    rwa [← atHeader, ← List.length_append] at found
  have headerPart : (body.drop (skipped ++ delimiter ++ crlf).length).take
      ((skipped ++ delimiter ++ crlf ++ part.header).length -
        (skipped ++ delimiter ++ crlf).length) = part.header := by
    have length : (skipped ++ delimiter ++ crlf ++ part.header).length -
        (skipped ++ delimiter ++ crlf).length = part.header.length := by
      rw [List.length_append, Nat.add_sub_cancel_left]
    rw [length, atHeader, List.drop_left, List.take_left]
  have dataStart : (skipped ++ delimiter ++ crlf ++ part.header).length + 4 =
      (skipped ++ delimiter ++ crlf ++ part.header ++ (crlf ++ crlf)).length := by
    simp only [List.length_append]
    rfl
  have nextBoundary : find body delimiter
      (skipped ++ delimiter ++ crlf ++ part.header ++ (crlf ++ crlf)).length =
        some ((skipped ++ delimiter ++ crlf ++ part.header ++ (crlf ++ crlf)).length +
          (part.data ++ crlf).length) := by
    rw [atData]
    exact find_append _ (part.data ++ crlf) delimiter _ (valid.absentBefore_data absent _)
  have data : partData body (skipped ++ delimiter ++ crlf ++ part.header ++ (crlf ++ crlf)).length
      ((skipped ++ delimiter ++ crlf ++ part.header ++ (crlf ++ crlf)).length +
        (part.data ++ crlf).length) = part.data := by
    rw [atData, List.append_assoc part.data]
    exact partData_append _ part.data _
  unfold nextPart
  simp only [first, notEnd, Bool.false_eq_true, ↓reduceIte, lineBreak, ne_eq, not_true_eq_false,
    headerStart, long, headerEnd, headerPart, dataStart, nextBoundary, data,
    extractValue_header_name wellFormed, extractValue_header_filename wellFormed]
  simp only [List.length_append, Nat.add_assoc]

/-- The loop ends at the closing delimiter. -/
theorem nextPart_closing (delimiter skipped after : Bytes) (form : MultipartForm) :
    nextPart delimiter (skipped ++ (delimiter ++ (bytes "--" ++ after))) skipped.length form =
      none := by
  have first : find (skipped ++ (delimiter ++ (bytes "--" ++ after))) delimiter skipped.length =
      some skipped.length :=
    find_append skipped [] delimiter _ fun _ below => absurd below (Nat.not_lt_zero _)
  have closing : (delimiter ++ bytes "--").isPrefixOf
      ((skipped ++ (delimiter ++ (bytes "--" ++ after))).drop skipped.length) = true := by
    rw [List.drop_left, List.isPrefixOf_iff_prefix, ← List.append_assoc]
    exact List.prefix_append _ _
  unfold nextPart
  simp only [first, closing, ↓reduceIte]

/-- What the parser saves of a part is what the part adds to the form. -/
theorem savePart_eq_addTo {part : FormPart} (wellFormed : part.WellFormed) (form : MultipartForm) :
    savePart form part.name part.filename part.data = part.addTo form := by
  cases part with
  | field name data =>
      have named : name ≠ [] := wellFormed.1
      simp only [savePart, FormPart.name, FormPart.filename, FormPart.data, FormPart.addTo, ne_eq,
        not_true_eq_false, ↓reduceIte, named, not_false_eq_true]
  | file name filename contentType data =>
      have named : filename ≠ [] := wellFormed.2.2.2.1
      simp only [savePart, FormPart.filename, FormPart.data, FormPart.addTo, ne_eq, named,
        not_false_eq_true, ↓reduceIte]

/-- The loop reads all parts of an encoded body. -/
theorem parseParts_encodeParts {boundary : Bytes} (valid : IsDelimiter (bytes "--" ++ boundary))
    {parts : List FormPart} (wellFormed : ∀ part ∈ parts, part.WellFormed)
    (absent : ∀ part ∈ parts, ¬ bytes "--" ++ boundary <:+: part.data) (skipped : Bytes)
    (form : MultipartForm) {turns : Nat} (enough : parts.length < turns) :
    parseParts (bytes "--" ++ boundary) (skipped ++ encodeParts boundary parts) turns
        skipped.length form = parts.foldl (fun form part => part.addTo form) form := by
  induction parts generalizing skipped form turns with
  | nil =>
      obtain ⟨turns, rfl⟩ := Nat.exists_eq_succ_of_ne_zero (Nat.ne_of_gt enough)
      have closing := nextPart_closing (bytes "--" ++ boundary) skipped crlf form
      simp only [encodeParts, List.flatMap_nil, List.nil_append, parseParts, closing,
        List.foldl_nil]
  | cons part parts ih =>
      obtain ⟨turns, rfl⟩ := Nat.exists_eq_succ_of_ne_zero (Nat.ne_of_gt (Nat.zero_lt_of_lt enough))
      have partWellFormed := wellFormed part (List.mem_cons_self ..)
      obtain ⟨after, rest⟩ : ∃ after, encodeParts boundary parts =
          (bytes "--" ++ boundary) ++ after := by
        cases parts with
        | nil => exact ⟨_, rfl⟩
        | cons next parts =>
            simp only [encodeParts, List.flatMap_cons, FormPart.encode, List.append_assoc]
            exact ⟨_, rfl⟩
      have body : skipped ++ encodeParts boundary (part :: parts) =
          skipped ++ (part.encode boundary ++ encodeParts boundary parts) := by
        simp only [encodeParts, List.flatMap_cons, List.append_assoc]
      have turn := nextPart_encode valid partWellFormed (absent part (List.mem_cons_self ..))
        skipped after form
      rw [← rest, savePart_eq_addTo partWellFormed] at turn
      have remaining := ih (fun other member => wellFormed other (List.mem_cons_of_mem _ member))
        (fun other member => absent other (List.mem_cons_of_mem _ member))
        (skipped ++ part.encode boundary) (part.addTo form) (Nat.lt_of_succ_lt_succ enough)
      rw [List.append_assoc] at remaining
      rw [body, parseParts, turn, List.foldl_cons]
      exact remaining

/-- Each part takes at least a byte, so that the fuel is enough. -/
theorem length_le_encodeParts (boundary : Bytes) (parts : List FormPart) :
    parts.length ≤ (encodeParts boundary parts).length := by
  induction parts with
  | nil => exact Nat.zero_le _
  | cons part parts ih =>
      simp only [encodeParts, List.flatMap_cons, FormPart.encode, List.length_append,
        List.length_cons] at ih ⊢
      have dashes : (bytes "--").length = 2 := by decide +kernel
      omega

/-- The boundary is what stands behind `boundary=`, without quotes around it. -/
theorem boundary_append {start written : Bytes} (absent : ¬ bytes "boundary=" <:+: start) :
    boundary (start ++ (bytes "boundary=" ++ written)) =
      some (if 2 ≤ written.length ∧ written.head? = some 34 ∧ written.getLast? = some 34 then
        (written.drop 1).take (written.length - 2) else written) := by
  have found : find (start ++ (bytes "boundary=" ++ written)) (bytes "boundary=") 0 =
      some start.length := by
    have once : AbsentBefore (bytes "boundary=") (start ++ (bytes "boundary=" ++ written))
        start.length := by
      have split : bytes "boundary=" = 98 :: bytes "oundary=" := by decide +kernel
      rw [split] at absent ⊢
      exact absentBefore_self (by decide +kernel) absent
    simpa using find_append [] start (bytes "boundary=") written once
  have value_eq : (start ++ (bytes "boundary=" ++ written)).drop
      (start.length + (bytes "boundary=").length) = written := by
    rw [← List.append_assoc, ← List.length_append, List.drop_left]
  unfold boundary
  rw [found, Option.map_some]
  simp only [value_eq]

/-- The content type gives the boundary back, bare or in quotes. -/
theorem boundary_contentType {start value : Bytes} (absent : ¬ bytes "boundary=" <:+: start)
    (plain : (34 : UInt8) ∉ value) {written : Bytes}
    (form : written = value ∨ written = [34] ++ (value ++ [34])) :
    boundary (start ++ (bytes "boundary=" ++ written)) = some value := by
  rw [boundary_append absent, Option.some.injEq]
  rcases form with rfl | rfl
  · rw [if_neg]
    rintro ⟨_, first, _⟩
    exact plain (List.mem_of_head? first)
  · rw [if_pos ⟨by simp only [List.length_append, List.length_cons, List.length_nil]; omega, rfl,
      by rw [← List.append_assoc, List.getLast?_append]; rfl⟩]
    simp

/-- **A form written by a browser is read back.** For every boundary and all parts
that fit the format, the parsed form holds the file name and content of the last file
part and the last value of every field, whatever bytes the data consist of. -/
theorem parse_encodeParts {start boundary written : Bytes} {parts : List FormPart}
    (only : ¬ bytes "boundary=" <:+: start) (plain : FormPart.Plain boundary)
    (form : written = boundary ∨ written = [34] ++ (boundary ++ [34]))
    (wellFormed : ∀ part ∈ parts, part.WellFormed)
    (absent : ∀ part ∈ parts, ¬ bytes "--" ++ boundary <:+: part.data) :
    ∃ result, parse (start ++ (bytes "boundary=" ++ written)) (encodeParts boundary parts) =
        some result ∧
      result.filename = ((FormPart.lastFile parts).map Prod.fst).getD [] ∧
      result.content = ((FormPart.lastFile parts).map Prod.snd).getD [] ∧
      ∀ name, result.params.get name = FormPart.lastField parts name := by
  refine ⟨_, ?_, FormPart.foldl_addTo parts⟩
  have valid : IsDelimiter (bytes "--" ++ boundary) := ⟨boundary, rfl, plain.2⟩
  have enough := Nat.lt_succ_of_le (length_le_encodeParts boundary parts)
  have read := parseParts_encodeParts valid wellFormed absent [] {} enough
  rw [parse, boundary_contentType only plain.1 form, Option.map_some]
  exact congrArg some read

/-- A field and a file, the file holding a blank line and ending in a line break. -/
def uploadParts : List FormPart :=
  [.field (bytes "scene") (bytes "photos"),
   .file (bytes "file") (bytes "a.txt") (bytes "text/plain") (bytes "one\r\n\r\ntwo\r\n")]

/-- The field and the file read back, the blank line in the file included. -/
theorem parse_encodeParts_uploadParts :
    ∃ result, parse (bytes "multipart/form-data; boundary=\"xYz\"")
        (encodeParts (bytes "xYz") uploadParts) = some result ∧
      result.filename = bytes "a.txt" ∧ result.content = bytes "one\r\n\r\ntwo\r\n" ∧
      result.params.get (bytes "scene") = some (bytes "photos") := by
  obtain ⟨result, read, filename, content, params⟩ := parse_encodeParts
    (by decide +kernel : ¬ bytes "boundary=" <:+: bytes "multipart/form-data; ")
    (by decide +kernel : FormPart.Plain (bytes "xYz")) (.inr rfl)
    (by decide +kernel : ∀ part ∈ uploadParts, part.WellFormed) (by decide +kernel)
  exact ⟨result, read, filename, content, params _⟩

end Encoded

end Multipart

end Cdfs
