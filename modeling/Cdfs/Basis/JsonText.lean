import Cdfs.Basis.Json

/-! # A compact JSON printer and its parser

The printer writes values without white space, escaping quotes, backslashes and
control bytes and copying every other byte. The parser reads that form.
`Basis.compactCodec` packages the two as a `Basis.JsonCodec`, so statements over
an arbitrary codec can be run.
-/

namespace Basis.Json

/-- A hexadecimal digit, in lower case. -/
def hexDigit (value : Nat) : UInt8 := if value < 10 then (48 + value).toUInt8
  else (87 + value).toUInt8

/-- The value of a lower-case hexadecimal digit. -/
def hexValue (digit : UInt8) : Nat := if digit ≤ 57 then digit.toNat - 48 else digit.toNat - 87

/-- The printed form of one byte of a string. -/
def escapeByte (byte : UInt8) : Bytes :=
  if byte = 34 then bytes "\\\""
  else if byte = 92 then bytes "\\\\"
  else if byte = 8 then bytes "\\b"
  else if byte = 9 then bytes "\\t"
  else if byte = 10 then bytes "\\n"
  else if byte = 12 then bytes "\\f"
  else if byte = 13 then bytes "\\r"
  else if byte < 32 then
    bytes "\\u00" ++ [hexDigit (byte.toNat / 16), hexDigit (byte.toNat % 16)]
  else [byte]

/-- The printed form of a string. -/
def stringText (value : Bytes) : Bytes := 34 :: (value.flatMap escapeByte ++ [34])

mutual

/-- The compact text of a value. -/
def text : Json → Bytes
  | .null => bytes "null"
  | .bool value => if value then bytes "true" else bytes "false"
  | .num value => decimalInt value
  | .str value => stringText value
  | .arr [] => bytes "[]"
  | .arr (item :: rest) => 91 :: (item.text ++ itemsText rest)
  | .obj [] => [123, 125]
  | .obj ((name, value) :: rest) =>
      123 :: (stringText name ++ 58 :: (value.text ++ membersText rest))

/-- The rest of an array after an item. -/
def itemsText : List Json → Bytes
  | [] => [93]
  | item :: rest => 44 :: (item.text ++ itemsText rest)

/-- The rest of an object after a member. -/
def membersText : List (Bytes × Json) → Bytes
  | [] => [125]
  | (name, value) :: rest => 44 :: (stringText name ++ 58 :: (value.text ++ membersText rest))

end

/-- Read a string after its opening quote. -/
def parseString : Bytes → Option (Bytes × Bytes)
  | [] => none
  | byte :: rest =>
      if byte = 34 then some ([], rest)
      else if byte = 92 then
        match rest with
        | 117 :: _ :: _ :: high :: low :: rest =>
            (parseString rest).map fun read =>
              ((16 * hexValue high + hexValue low).toUInt8 :: read.1, read.2)
        | mark :: rest =>
            (parseString rest).map fun read =>
              ((if mark = 98 then 8 else if mark = 116 then 9 else if mark = 110 then 10
                else if mark = 102 then 12 else if mark = 114 then 13 else mark) :: read.1, read.2)
        | [] => none
      else (parseString rest).map fun read => (byte :: read.1, read.2)
termination_by structural input => input

/-- Read a natural number. -/
def parseNat (input : Bytes) : Option (Nat × Bytes) :=
  match input.takeWhile isDigit with
  | [] => none
  | digits => some (decimalValue digits, input.dropWhile isDigit)

mutual

/-- Read a value; the fuel bounds the bytes read. -/
def parseValue : Nat → Bytes → Option (Json × Bytes)
  | 0, _ => none
  | _, [] => none
  | fuel + 1, byte :: rest =>
      if byte = 110 then some (.null, rest.drop 3)
      else if byte = 116 then some (.bool true, rest.drop 3)
      else if byte = 102 then some (.bool false, rest.drop 4)
      else if byte = 34 then (parseString rest).map fun read => (.str read.1, read.2)
      else if byte = 45 then (parseNat rest).map fun read => (.num (-read.1), read.2)
      else if byte = 91 then
        if rest.head? = some 93 then some (.arr [], rest.drop 1)
        else (parseValue fuel rest).bind fun first =>
          (parseItems fuel first.2).map fun others => (.arr (first.1 :: others.1), others.2)
      else if byte = 123 then
        if rest.head? = some 125 then some (.obj [], rest.drop 1)
        else (parseString (rest.drop 1)).bind fun name =>
          (parseValue fuel (name.2.drop 1)).bind fun first =>
            (parseMembers fuel first.2).map fun others =>
              (object ((name.1, first.1) :: others.1), others.2)
      else (parseNat (byte :: rest)).map fun read => (.num read.1, read.2)

/-- Read the rest of an array after an item. -/
def parseItems : Nat → Bytes → Option (List Json × Bytes)
  | 0, _ => none
  | _, [] => none
  | fuel + 1, byte :: rest =>
      if byte = 93 then some ([], rest)
      else (parseValue fuel rest).bind fun first =>
        (parseItems fuel first.2).map fun others => (first.1 :: others.1, others.2)

/-- Read the rest of an object after a member. -/
def parseMembers : Nat → Bytes → Option (List (Bytes × Json) × Bytes)
  | 0, _ => none
  | _, [] => none
  | fuel + 1, byte :: rest =>
      if byte = 125 then some ([], rest)
      else (parseString (rest.drop 1)).bind fun name =>
        (parseValue fuel (name.2.drop 1)).bind fun first =>
          (parseMembers fuel first.2).map fun others => ((name.1, first.1) :: others.1, others.2)

end

/-- An escaped byte reads back. -/
theorem parseString_escapeByte (byte : UInt8) (rest : Bytes) :
    parseString (escapeByte byte ++ rest) =
      (parseString rest).map fun read => (byte :: read.1, read.2) := by
  have hex : ∀ value < 32, 16 * hexValue (hexDigit (value / 16)) +
      hexValue (hexDigit (value % 16)) = value := by decide
  unfold escapeByte
  split_ifs with quote slash back tab line feed carriage control
  · subst quote; rfl
  · subst slash; rfl
  · subst back; rfl
  · subst tab; rfl
  · subst line; rfl
  · subst feed; rfl
  · subst carriage; rfl
  · change (parseString rest).map _ = _
    rw [hex byte.toNat (UInt8.lt_iff_toNat_lt.mp control)]
    exact congrArg (fun value => (parseString rest).map fun read => (value :: read.1, read.2))
      UInt8.ofNat_toNat
  · rw [List.singleton_append, parseString.eq_def]
    simp only [quote, slash, ↓reduceIte]

/-- An escaped string reads back up to its closing quote. -/
theorem parseString_stringText (value rest : Bytes) :
    parseString (value.flatMap escapeByte ++ 34 :: rest) = some (value, rest) := by
  induction value with
  | nil =>
      rw [List.flatMap_nil, List.nil_append, parseString.eq_def]
      rfl
  | cons byte others ih =>
      rw [List.flatMap_cons, List.append_assoc, parseString_escapeByte, ih]
      rfl

/-- What follows a printed value does not continue a number. -/
def EndsNumber (rest : Bytes) : Prop := ∀ byte ∈ rest.head?, isDigit byte = false

/-- A number reads back up to where it ends. -/
theorem parseNat_decimal (number : Nat) {rest : Bytes} (ends : EndsNumber rest) :
    parseNat (decimal number ++ rest) = some (number, rest) := by
  have digits : ∀ byte ∈ decimal number, isDigit byte = true :=
    fun byte member => isDigit_of_mem_decimal member
  have stop : rest.takeWhile isDigit = [] ∧ rest.dropWhile isDigit = rest := by
    cases rest with
    | nil => exact ⟨rfl, rfl⟩
    | cons byte others =>
        have foreign := ends byte rfl
        simp only [List.takeWhile_cons, List.dropWhile_cons, foreign, Bool.false_eq_true, ↓reduceIte,
          and_self]
  unfold parseNat
  rw [List.takeWhile_append_of_pos digits, stop.1, List.append_nil,
    List.dropWhile_append_of_pos digits, stop.2]
  split
  · rename_i none
    exact absurd none (decimal_ne_nil number)
  · rw [decimalValue_decimal]

/-- The first byte of a decimal number is a digit. -/
theorem decimal_eq_cons (number : Nat) :
    ∃ digit others, decimal number = digit :: others ∧ isDigit digit = true := by
  cases shape : decimal number with
  | nil => exact absurd shape (decimal_ne_nil number)
  | cons digit others =>
      exact ⟨digit, others, rfl, isDigit_of_mem_decimal (shape ▸ List.mem_cons_self ..)⟩

theorem isDigit_ne {digit : UInt8} (other : UInt8) (decimal : isDigit digit = true)
    (foreign : isDigit other = false) : digit ≠ other :=
  fun same => Bool.false_ne_true (foreign.symm.trans (same ▸ decimal))

/-- No value has an empty text. -/
theorem text_ne_nil (value : Json) : value.text ≠ [] := by
  cases value with
  | null => decide
  | bool value => cases value <;> decide
  | num value =>
      rw [text, decimalInt]
      split
      · exact List.cons_ne_nil _ _
      · exact decimal_ne_nil _
  | str value => exact List.cons_ne_nil _ _
  | arr items => cases items <;> rw [text] <;> exact List.cons_ne_nil _ _
  | obj members =>
      cases members with
      | nil => rw [text]; exact List.cons_ne_nil _ _
      | cons member rest => rw [text]; exact List.cons_ne_nil _ _

theorem itemsText_endsNumber (items : List Json) (rest : Bytes) :
    EndsNumber (itemsText items ++ rest) := by
  cases items <;> simp [itemsText, EndsNumber, isDigit]

theorem membersText_endsNumber (members : List (Bytes × Json)) (rest : Bytes) :
    EndsNumber (membersText members ++ rest) := by
  cases members <;> simp [membersText, EndsNumber, isDigit]

/-- The first byte of a printed value does not close an array. -/
theorem text_head?_ne (value : Json) (rest : Bytes) : (value.text ++ rest).head? ≠ some 93 := by
  cases value with
  | null => exact (by decide : some (110 : UInt8) ≠ some 93)
  | bool value =>
      cases value with
      | false => exact (by decide : some (102 : UInt8) ≠ some 93)
      | true => exact (by decide : some (116 : UInt8) ≠ some 93)
  | num value =>
      obtain ⟨digit, others, shape, isDigit⟩ := decimal_eq_cons value.natAbs
      rw [text, decimalInt]
      split
      · exact (by decide : some (45 : UInt8) ≠ some 93)
      · rw [shape]
        exact fun same => isDigit_ne 93 isDigit (by decide) (Option.some.inj same)
  | str value => exact (by decide : some (34 : UInt8) ≠ some 93)
  | arr items => cases items <;> rw [text] <;> exact (by decide : some (91 : UInt8) ≠ some 93)
  | obj members =>
      cases members <;> rw [text] <;> exact (by decide : some (123 : UInt8) ≠ some 93)

/-- Assigning members already in strict key order leaves them as they are. -/
theorem object_of_sorted {members : List (Bytes × Json)}
    (sorted : (members.map Prod.fst).Pairwise (· < ·)) : object members = .obj members := by
  have append (written rest : List (Bytes × Json))
      (sorted : ((written ++ rest).map Prod.fst).Pairwise (· < ·)) :
      rest.foldl (fun entries member => OrderedMap.insertEntry member.1 member.2 entries) written =
        written ++ rest := by
    induction rest generalizing written with
    | nil => rw [List.foldl_nil, List.append_nil]
    | cons member rest ih =>
        have last : OrderedMap.insertEntry member.1 member.2 written = written ++ [member] := by
          apply OrderedMap.insertEntry_of_lt
          rw [List.map_append, List.pairwise_append] at sorted
          exact fun name inside => sorted.2.2 name inside member.1 (List.mem_cons_self ..)
        rw [List.foldl_cons, last, ih (written ++ [member]) (by simpa using sorted),
          List.append_assoc]
        rfl
  rw [object, append [] members sorted]
  rfl

mutual

/-- Printing a value and reading it back. -/
theorem parseValue_text (value : Json) (canonical : value.canonical = true) (fuel : Nat)
    (rest : Bytes) (enough : value.text.length ≤ fuel) (ends : EndsNumber rest) :
    parseValue fuel (value.text ++ rest) = some (value, rest) := by
  cases fuel with
  | zero => exact absurd (List.length_eq_zero_iff.mp (Nat.le_zero.mp enough)) value.text_ne_nil
  | succ fuel =>
      match value with
      | .null => rfl
      | .bool true => rfl
      | .bool false => rfl
      | .num number =>
          obtain ⟨digit, others, shape, isDigit⟩ := decimal_eq_cons number.natAbs
          have read := parseNat_decimal number.natAbs ends
          rw [text, decimalInt]
          split
          · rename_i negative
            change (parseNat (decimal number.natAbs ++ rest)).map _ = _
            rw [read, Option.map_some]
            have absolute : -(number.natAbs : Int) = number := by omega
            simp only [absolute]
          · rename_i positive
            rw [shape] at read ⊢
            rw [List.cons_append] at read ⊢
            have absolute : (number.natAbs : Int) = number := by omega
            simp only [parseValue, isDigit_ne 110 isDigit (by decide),
              isDigit_ne 116 isDigit (by decide),
              isDigit_ne 102 isDigit (by decide),
              isDigit_ne 34 isDigit (by decide),
              isDigit_ne 45 isDigit (by decide),
              isDigit_ne 91 isDigit (by decide),
              isDigit_ne 123 isDigit (by decide), ↓reduceIte, read, Option.map_some,
              absolute]
      | .str string =>
          change (parseString ((string.flatMap escapeByte ++ [34]) ++ rest)).map _ = _
          rw [List.append_assoc, List.singleton_append, parseString_stringText]
          rfl
      | .arr [] => rfl
      | .arr (item :: items) =>
          rw [Json.canonical, canonicalItems, Bool.and_eq_true] at canonical
          rw [text, List.length_cons, List.length_append] at enough
          have first := parseValue_text item canonical.1 fuel (itemsText items ++ rest) (by omega)
            (itemsText_endsNumber items rest)
          have others := parseItems_itemsText items canonical.2 fuel rest (by omega)
          rw [text, List.cons_append, List.append_assoc]
          change (if (item.text ++ (itemsText items ++ rest)).head? = some 93 then _ else _) = _
          rw [if_neg (text_head?_ne item _), first, Option.bind_some, others]
          rfl
      | .obj [] => rfl
      | .obj ((name, member) :: members) =>
          rw [Json.canonical, canonicalMembers, Bool.and_eq_true, Bool.and_eq_true,
            decide_eq_true_eq] at canonical
          rw [text, List.length_cons, List.length_append, List.length_cons,
            List.length_append] at enough
          have first := parseValue_text member canonical.2.1 fuel (membersText members ++ rest)
            (by omega) (membersText_endsNumber members rest)
          have others := parseMembers_membersText members canonical.2.2 fuel rest (by omega)
          rw [text, stringText]
          simp only [List.cons_append, List.append_assoc, List.nil_append]
          change (parseString (name.flatMap escapeByte ++ 34 :: 58 ::
            (member.text ++ (membersText members ++ rest)))).bind _ = _
          rw [parseString_stringText, Option.bind_some]
          change (parseValue fuel (member.text ++ (membersText members ++ rest))).bind _ = _
          rw [first, Option.bind_some, others, Option.map_some, object_of_sorted canonical.1]

/-- Printing the rest of an array and reading it back. -/
theorem parseItems_itemsText (items : List Json) (canonical : canonicalItems items = true)
    (fuel : Nat) (rest : Bytes) (enough : (itemsText items).length ≤ fuel) :
    parseItems fuel (itemsText items ++ rest) = some (items, rest) := by
  cases fuel with
  | zero =>
      rw [Nat.le_zero, List.length_eq_zero_iff] at enough
      cases items <;> rw [itemsText] at enough <;> cases enough
  | succ fuel =>
      match items with
      | [] => rfl
      | item :: items =>
          rw [canonicalItems, Bool.and_eq_true] at canonical
          rw [itemsText, List.length_cons, List.length_append] at enough
          have first := parseValue_text item canonical.1 fuel (itemsText items ++ rest) (by omega)
            (itemsText_endsNumber items rest)
          have others := parseItems_itemsText items canonical.2 fuel rest (by omega)
          rw [itemsText, List.cons_append, List.append_assoc]
          change (parseValue fuel (item.text ++ (itemsText items ++ rest))).bind _ = _
          rw [first, Option.bind_some, others]
          rfl

/-- Printing the rest of an object and reading it back. -/
theorem parseMembers_membersText (members : List (Bytes × Json))
    (canonical : canonicalMembers members = true) (fuel : Nat) (rest : Bytes)
    (enough : (membersText members).length ≤ fuel) :
    parseMembers fuel (membersText members ++ rest) = some (members, rest) := by
  cases fuel with
  | zero =>
      rw [Nat.le_zero, List.length_eq_zero_iff] at enough
      cases members <;> rw [membersText] at enough <;> cases enough
  | succ fuel =>
      match members with
      | [] => rfl
      | (name, member) :: members =>
          rw [canonicalMembers, Bool.and_eq_true] at canonical
          rw [membersText, List.length_cons, List.length_append, List.length_cons,
            List.length_append] at enough
          have first := parseValue_text member canonical.1 fuel (membersText members ++ rest)
            (by omega) (membersText_endsNumber members rest)
          have others := parseMembers_membersText members canonical.2 fuel rest (by omega)
          rw [membersText, stringText]
          simp only [List.cons_append, List.append_assoc, List.nil_append]
          change (parseString (name.flatMap escapeByte ++ 34 :: 58 ::
            (member.text ++ (membersText members ++ rest)))).bind _ = _
          rw [parseString_stringText, Option.bind_some]
          change (parseValue fuel (member.text ++ (membersText members ++ rest))).bind _ = _
          rw [first, Option.bind_some, others]
          rfl

end

/-- Only a text that opens with a brace is read as an object. -/
theorem brace_of_parseValue {fuel : Nat} {input rest : Bytes} {members : List (Bytes × Json)}
    (read : parseValue fuel input = some (.obj members, rest)) : (123 : UInt8) ∈ input := by
  cases fuel with
  | zero => cases read
  | succ fuel =>
      cases input with
      | nil => cases read
      | cons byte others =>
          by_cases brace : byte = 123
          · exact brace ▸ List.mem_cons_self ..
          · exfalso
            simp only [parseValue, brace, ↓reduceIte] at read
            split_ifs at read <;> simp [Option.bind_eq_some_iff] at read

end Basis.Json

namespace Basis

/-- The compact printer and parser as a codec. -/
def compactCodec : JsonCodec where
  dump value := if value.isUtf8 then some value.text else none
  parse text := match Json.parseValue text.length text with
    | some (value, []) => some value
    | _ => none
  dump_isSome := by
    intro value
    split <;> simp_all
  parse_dump := by
    intro value text canonical printed
    split at printed
    · cases printed
      have read := Json.parseValue_text value canonical value.text.length [] (Nat.le_refl _)
        (by simp [Json.EndsNumber])
      rw [List.append_nil] at read
      rw [read]
    · cases printed
  brace_of_parse_obj := by
    intro text members parsed
    split at parsed
    · rename_i value read
      cases parsed
      exact Json.brace_of_parseValue read
    · cases parsed

end Basis
