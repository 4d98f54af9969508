import Cdfs.Http.UrlUtils

/-! # Building a target and reading it back

A client writes keys and values percent-encoded into the query of a target. Values are
decoded by `parseQuery`; a key in front of an equals sign is not, so a target is read back
exactly when its keys needed no escaping.
-/

namespace Cdfs

open Basis

namespace UrlUtils

/-- Every percent sign of the text is followed by two hexadecimal digits. -/
def WellEscaped (text : Bytes) : Prop :=
  ∀ before after, text = before ++ 37 :: after → ∃ first second rest,
    after = first :: second :: rest ∧ isHexDigit first = true ∧ isHexDigit second = true

theorem wellEscaped_nil : WellEscaped [] := by
  intro before after cut
  exact absurd cut.symm (by simp)

/-- A byte other than the percent sign in front changes nothing. -/
theorem wellEscaped_cons {byte : UInt8} {rest : Bytes} (plain : byte ≠ 37) :
    WellEscaped (byte :: rest) ↔ WellEscaped rest := by
  constructor
  · intro escaped before after cut
    exact escaped (byte :: before) after (by rw [cut, List.cons_append])
  · intro escaped before after cut
    rcases List.cons_eq_append_iff.mp cut with ⟨_, front⟩ | ⟨before, rfl, later⟩
    · exact absurd (List.cons.inj front).1.symm plain
    · exact escaped before after later

theorem ne_percent_of_isHexDigit {byte : UInt8} (digit : isHexDigit byte = true) : byte ≠ 37 := by
  rintro rfl
  exact absurd digit (by decide)

/-- A complete escape sequence in front changes nothing either. -/
theorem wellEscaped_escape {first second : UInt8} {rest : Bytes}
    (digits : (isHexDigit first && isHexDigit second) = true) :
    WellEscaped (37 :: first :: second :: rest) ↔ WellEscaped rest := by
  obtain ⟨firstDigit, secondDigit⟩ := Bool.and_eq_true_iff.mp digits
  have skipped : WellEscaped (first :: second :: rest) ↔ WellEscaped rest :=
    (wellEscaped_cons (ne_percent_of_isHexDigit firstDigit)).trans
      (wellEscaped_cons (ne_percent_of_isHexDigit secondDigit))
  rw [← skipped]
  constructor
  · intro escaped before after cut
    exact escaped (37 :: before) after (by rw [cut, List.cons_append])
  · intro escaped before after cut
    rcases List.cons_eq_append_iff.mp cut with ⟨_, front⟩ | ⟨before, rfl, later⟩
    · exact ⟨first, second, rest, (List.cons.inj front).2, firstDigit, secondDigit⟩
    · exact escaped before after later

theorem isOk_map {α β : Type} (result : Except Exn α) (change : α → β) :
    (result.map change).isOk = result.isOk := by
  cases result <;> rfl

/-- A byte other than plus and percent sign stands for itself. -/
theorem decode_plain {byte : UInt8} (notPlus : byte ≠ 43) (notPercent : byte ≠ 37) (rest : Bytes) :
    decode (byte :: rest) = (decode rest).map (byte :: ·) := by
  rw [decode]
  · exact notPlus
  · exact fun _ _ _ percent => absurd percent notPercent
  · exact notPercent

/-- Decoding succeeds on exactly the texts that are properly escaped. -/
theorem isOk_decode_iff (text : Bytes) : (decode text).isOk = true ↔ WellEscaped text := by
  induction text using decode.induct with
  | case1 => exact iff_of_true rfl wellEscaped_nil
  | case2 rest ih =>
      rw [decode, isOk_map, wellEscaped_cons (by decide)]
      exact ih
  | case3 first second rest digits ih =>
      rw [decode, if_pos digits, isOk_map, wellEscaped_escape digits]
      exact ih
  | case4 first second rest noDigits =>
      rw [decode, if_neg noDigits]
      refine iff_of_false Bool.false_ne_true fun escaped => ?_
      obtain ⟨_, _, _, cut, firstDigit, secondDigit⟩ := escaped [] _ rfl
      obtain ⟨rfl, rfl, _⟩ := by simpa using cut
      exact noDigits (by rw [firstDigit, secondDigit]; rfl)
  | case5 tail short =>
      rw [decode]
      · refine iff_of_false Bool.false_ne_true fun escaped => ?_
        obtain ⟨first, second, rest, cut, _⟩ := escaped [] _ rfl
        exact short first second rest cut
      · exact short
  | case6 byte rest notPlus _ notPercent ih =>
      rw [decode_plain notPlus notPercent, isOk_map, wellEscaped_cons notPercent]
      exact ih

/-- The part of a piece that is decoded: the value, or the whole piece when it has none. -/
def encodedPart (piece : Bytes) : Bytes :=
  match find piece [61] 0 with
  | none => piece
  | some pos => piece.drop (pos + 1)

/-- A piece is read if and only if its decoded part is. -/
theorem isOk_parsePair (piece : Bytes) :
    (parsePair piece).isOk = (decode (encodedPart piece)).isOk := by
  unfold parsePair encodedPart
  cases find piece [61] 0 with
  | none => exact isOk_map _ _
  | some pos => exact isOk_map _ _

/-- Every value of the query, and every piece without a value, is properly escaped. -/
def QueryWellEscaped (query : Bytes) : Prop :=
  ∀ piece ∈ query.splitOn 38, WellEscaped (encodedPart piece)

/-- One round of the loop of `parseQuery`. -/
def addPiece (params : OrderedMap Bytes Bytes) (piece : Bytes) :
    Except Exn (OrderedMap Bytes Bytes) :=
  if piece = [] then .ok params
  else (parsePair piece).map fun pair => params.put pair.1 pair.2

/-- The loop of `parseQuery` over the pieces. -/
theorem parseQuery_eq (query : Bytes) :
    parseQuery query = (query.splitOn 38).foldlM addPiece OrderedMap.empty := rfl

theorem foldlM_addPiece_cons (params : OrderedMap Bytes Bytes) (piece : Bytes)
    (pieces : List Bytes) :
    (piece :: pieces).foldlM addPiece params =
      (addPiece params piece).bind fun params => pieces.foldlM addPiece params := rfl

/-- A round throws when and only when its piece cannot be decoded. -/
theorem isOk_addPiece (params : OrderedMap Bytes Bytes) (piece : Bytes) :
    (addPiece params piece).isOk = true ↔ WellEscaped (encodedPart piece) := by
  unfold addPiece
  by_cases empty : piece = []
  · rw [if_pos empty, empty]
    exact iff_of_true rfl wellEscaped_nil
  · rw [if_neg empty, isOk_map, isOk_parsePair, isOk_decode_iff]

/-- The loop ends if and only if every piece is well escaped. -/
theorem isOk_foldlM_addPiece (params : OrderedMap Bytes Bytes) (pieces : List Bytes) :
    (pieces.foldlM addPiece params).isOk = true ↔
      ∀ piece ∈ pieces, WellEscaped (encodedPart piece) := by
  induction pieces generalizing params with
  | nil => exact iff_of_true rfl (by simp)
  | cons piece pieces ih =>
      rw [foldlM_addPiece_cons, List.forall_mem_cons, ← isOk_addPiece params piece]
      cases addPiece params piece with
      | ok params => exact (ih params).trans (and_iff_right rfl).symm
      | error thrown => exact iff_of_false Bool.false_ne_true fun both => Bool.false_ne_true both.1

/-- `parseQuery` throws on exactly the queries with an ill-formed escape sequence. -/
theorem isOk_parseQuery_iff (query : Bytes) :
    (parseQuery query).isOk = true ↔ QueryWellEscaped query :=
  isOk_foldlM_addPiece OrderedMap.empty (query.splitOn 38)

/-- The bytes a percent-encoder leaves as they are. -/
def isUnreserved (byte : UInt8) : Bool :=
  (65 ≤ byte && byte ≤ 90) || (97 ≤ byte && byte ≤ 122) || (48 ≤ byte && byte ≤ 57) ||
    byte == 45 || byte == 95 || byte == 46 || byte == 126

/-- A percent-encoder: two hexadecimal digits, of either case, for each byte. -/
structure Encoder where
  high : UInt8 → UInt8
  low : UInt8 → UInt8
  isHexDigit_high : ∀ byte, isHexDigit (high byte) = true
  isHexDigit_low : ∀ byte, isHexDigit (low byte) = true
  value : ∀ byte, hexToVal (high byte) * 16 + hexToVal (low byte) = byte

/-- The encoder with digits in upper case. -/
def Encoder.upperCase : Encoder where
  high := fun byte => if byte / 16 < 10 then 48 + byte / 16 else 55 + byte / 16
  low := fun byte => if byte % 16 < 10 then 48 + byte % 16 else 55 + byte % 16
  isHexDigit_high := forall_byte (by decide +kernel)
  isHexDigit_low := forall_byte (by decide +kernel)
  value := forall_byte (by decide +kernel)

namespace Encoder

variable (encoder : Encoder)

/-- One byte of the encoded text. -/
def encodeByte (byte : UInt8) : Bytes :=
  if isUnreserved byte then [byte] else [37, encoder.high byte, encoder.low byte]

/-- Percent-encoding of a text. -/
def encode (text : Bytes) : Bytes := text.flatMap encoder.encodeByte

/-- A pair as it stands in a query. -/
def encodePair (pair : Bytes × Bytes) : Bytes :=
  encoder.encode pair.1 ++ 61 :: encoder.encode pair.2

/-- The target a client builds of a path, query parameters and a fragment. -/
def buildTarget (path : Bytes) (pairs : List (Bytes × Bytes)) (fragment : Bytes) : Bytes :=
  path ++ 63 :: [38].intercalate (pairs.map encoder.encodePair) ++ 35 :: fragment

theorem encode_cons (byte : UInt8) (rest : Bytes) :
    encoder.encode (byte :: rest) = encoder.encodeByte byte ++ encoder.encode rest := rfl

/-- Digits need no encoding. -/
theorem isUnreserved_of_isHexDigit {byte : UInt8} :
    isHexDigit byte = true → isUnreserved byte = true :=
  @forall_byte (fun byte => isHexDigit byte = true → isUnreserved byte = true)
    (by decide +kernel) byte

/-- An encoded text has unreserved bytes and percent signs only. -/
theorem mem_encodeByte {byte found : UInt8} (member : found ∈ encoder.encodeByte byte) :
    isUnreserved found = true ∨ found = 37 := by
  unfold encodeByte at member
  split at member
  · rename_i unreserved
    exact .inl (List.mem_singleton.mp member ▸ unreserved)
  · simp only [List.mem_cons, List.not_mem_nil, or_false] at member
    rcases member with rfl | rfl | rfl
    · exact .inr rfl
    · exact .inl (isUnreserved_of_isHexDigit (encoder.isHexDigit_high byte))
    · exact .inl (isUnreserved_of_isHexDigit (encoder.isHexDigit_low byte))

/-- A reserved byte other than the percent sign does not occur in an encoded text. -/
theorem not_mem_encode {byte : UInt8} (reserved : isUnreserved byte = false) (plain : byte ≠ 37)
    (text : Bytes) : byte ∉ encoder.encode text := by
  intro member
  obtain ⟨source, _, inside⟩ := List.mem_flatMap.mp member
  rcases encoder.mem_encodeByte inside with unreserved | percent
  · rw [reserved] at unreserved
    exact Bool.false_ne_true unreserved
  · exact plain percent

/-- Decoding undoes the encoder. -/
theorem decode_encode (text : Bytes) : decode (encoder.encode text) = .ok text := by
  induction text with
  | nil => rfl
  | cons byte rest ih =>
      rw [encode_cons]
      unfold encodeByte
      by_cases unreserved : isUnreserved byte = true
      · rw [if_pos unreserved, List.singleton_append, decode_plain, ih]
        · rfl
        · rintro rfl
          exact absurd unreserved (by decide)
        · rintro rfl
          exact absurd unreserved (by decide)
      · rw [if_neg unreserved]
        change decode (37 :: encoder.high byte :: encoder.low byte :: encoder.encode rest) = _
        rw [decode, if_pos (by rw [encoder.isHexDigit_high, encoder.isHexDigit_low]; rfl), ih,
          encoder.value]
        rfl

/-- A text of unreserved bytes is its own encoding. -/
theorem encode_of_unreserved {text : Bytes} (unreserved : ∀ byte ∈ text, isUnreserved byte = true) :
    encoder.encode text = text := by
  induction text with
  | nil => rfl
  | cons byte rest ih =>
      rw [List.forall_mem_cons] at unreserved
      rw [encode_cons, ih unreserved.2, encodeByte, if_pos unreserved.1]
      rfl

/-- Encoding makes no text shorter. -/
theorem length_le_length_encode (text : Bytes) : text.length ≤ (encoder.encode text).length := by
  induction text with
  | nil => exact Nat.zero_le _
  | cons byte rest ih =>
      have single : 1 ≤ (encoder.encodeByte byte).length := by
        unfold encodeByte
        split <;> simp
      rw [encode_cons, List.length_append, List.length_cons]
      omega

/-- Escaping makes a text longer and leaves a percent sign in it. -/
theorem encode_of_reserved {text : Bytes} {byte : UInt8} (member : byte ∈ text)
    (reserved : isUnreserved byte = false) :
    text.length < (encoder.encode text).length ∧ 37 ∈ encoder.encode text := by
  obtain ⟨before, after, rfl⟩ := List.append_of_mem member
  have escaped : encoder.encode (before ++ byte :: after) = encoder.encode before ++
      37 :: encoder.high byte :: encoder.low byte :: encoder.encode after := by
    unfold encode
    rw [List.flatMap_append, List.flatMap_cons, encodeByte, reserved]
    rfl
  have front := encoder.length_le_length_encode before
  have back := encoder.length_le_length_encode after
  rw [escaped]
  constructor
  · simp only [List.length_append, List.length_cons]
    omega
  · simp

/-- The pair read back from a piece: the key is still encoded. -/
theorem parsePair_encodePair (pair : Bytes × Bytes) :
    parsePair (encoder.encodePair pair) = .ok (encoder.encode pair.1, pair.2) := by
  have position : find (encoder.encodePair pair) [61] 0 = some (encoder.encode pair.1).length :=
    find_separator (encoder.not_mem_encode (by decide) (by decide) pair.1)
  have value : (encoder.encodePair pair).drop ((encoder.encode pair.1).length + 1) =
      encoder.encode pair.2 := by
    rw [encodePair, ← List.drop_drop, List.drop_left]
    rfl
  have key : (encoder.encodePair pair).take (encoder.encode pair.1).length =
      encoder.encode pair.1 := List.take_left
  rw [parsePair, position]
  dsimp only
  rw [value, decode_encode, key]
  rfl

end Encoder

/-- The map a list of pairs stands for: the last value of a key counts. -/
def lastWins (pairs : List (Bytes × Bytes)) : OrderedMap Bytes Bytes :=
  pairs.foldl (fun params pair => params.put pair.1 pair.2) OrderedMap.empty

/-- A key is there if it has been put, or was there before. -/
theorem isSome_get_foldl_put (key : Bytes) (params : OrderedMap Bytes Bytes)
    (pairs : List (Bytes × Bytes)) :
    ((pairs.foldl (fun params pair => params.put pair.1 pair.2) params).get key).isSome = true ↔
      (params.get key).isSome = true ∨ key ∈ pairs.map Prod.fst := by
  induction pairs generalizing params with
  | nil => simp
  | cons pair pairs ih =>
      rw [List.foldl_cons, ih, OrderedMap.get_put, List.map_cons, List.mem_cons]
      by_cases same : pair.1 = key
      · simp [same]
      · simp [same, Ne.symm same]

/-- The keys of the map are those of the list. -/
theorem isSome_get_lastWins (key : Bytes) (pairs : List (Bytes × Bytes)) :
    ((lastWins pairs).get key).isSome = true ↔ key ∈ pairs.map Prod.fst :=
  (isSome_get_foldl_put key OrderedMap.empty pairs).trans (by simp)

namespace Encoder

variable (encoder : Encoder)

/-- The loop over encoded pairs puts their values under the keys as they are written. -/
theorem foldlM_addPiece_encodePair (params : OrderedMap Bytes Bytes)
    (pairs : List (Bytes × Bytes)) :
    (pairs.map encoder.encodePair).foldlM addPiece params =
      .ok ((pairs.map fun pair => (encoder.encode pair.1, pair.2)).foldl
        (fun params pair => params.put pair.1 pair.2) params) := by
  induction pairs generalizing params with
  | nil => rfl
  | cons pair pairs ih =>
      have nonempty : encoder.encodePair pair ≠ [] := by simp [encodePair]
      rw [List.map_cons, foldlM_addPiece_cons, addPiece, if_neg nonempty, parsePair_encodePair]
      exact ih _

/-- No reserved byte but the equals sign is in an encoded pair. -/
theorem not_mem_encodePair {byte : UInt8} (reserved : isUnreserved byte = false)
    (notPercent : byte ≠ 37) (notEquals : byte ≠ 61) (pair : Bytes × Bytes) :
    byte ∉ encoder.encodePair pair := by
  have absent := encoder.not_mem_encode reserved notPercent
  simp [encodePair, absent, notEquals]

/-- `parseQuery` of a built query: the values come back decoded, the keys as written. -/
theorem parseQuery_intercalate (pairs : List (Bytes × Bytes)) :
    parseQuery ([38].intercalate (pairs.map encoder.encodePair)) =
      .ok (lastWins (pairs.map fun pair => (encoder.encode pair.1, pair.2))) := by
  cases pairs with
  | nil => exact parseQuery_nil
  | cons pair pairs =>
      rw [parseQuery_eq, List.splitOn_intercalate]
      · exact encoder.foldlM_addPiece_encodePair OrderedMap.empty (pair :: pairs)
      · intro piece member
        obtain ⟨source, _, rfl⟩ := List.mem_map.mp member
        exact encoder.not_mem_encodePair (by decide) (by decide) (by decide) source
      · exact List.cons_ne_nil _ _

/-- No fragment starts inside the query. -/
theorem not_mem_intercalate (pairs : List (Bytes × Bytes)) :
    (35 : UInt8) ∉ [38].intercalate (pairs.map encoder.encodePair) := by
  have absent : ∀ pair, (35 : UInt8) ∉ encoder.encodePair pair :=
    encoder.not_mem_encodePair (by decide) (by decide) (by decide)
  induction pairs with
  | nil => simp
  | cons pair pairs ih =>
      cases pairs with
      | nil => simpa using absent pair
      | cons next pairs =>
          rw [List.map_cons] at ih
          rw [List.map_cons, List.map_cons, List.intercalate_cons_cons]
          simp only [List.mem_append, List.mem_singleton, not_or]
          exact ⟨⟨absent pair, by decide⟩, ih⟩

/-- The target is split into the path and the query it was built from. -/
theorem splitTarget_buildTarget {path : Bytes} (noQuery : (63 : UInt8) ∉ path)
    (noFragment : (35 : UInt8) ∉ path) (pairs : List (Bytes × Bytes)) (fragment : Bytes) :
    splitTarget (encoder.buildTarget path pairs fragment) =
      (path, [38].intercalate (pairs.map encoder.encodePair)) :=
  splitTarget_append noQuery noFragment (encoder.not_mem_intercalate pairs)

/-- Splitting and parsing the built target gives back the path and the parameters. -/
def ReadsBack (path : Bytes) (pairs : List (Bytes × Bytes)) (fragment : Bytes) : Prop :=
  (splitTarget (encoder.buildTarget path pairs fragment)).1 = path ∧
    parseQuery (splitTarget (encoder.buildTarget path pairs fragment)).2 = .ok (lastWins pairs)

/-- A list that contains the encoding of each of its texts has no reserved byte: the
encoding of a longest text with one would be longer. -/
theorem unreserved_of_encode_mem {keys : List Bytes}
    (closed : ∀ key ∈ keys, encoder.encode key ∈ keys) :
    ∀ key ∈ keys, ∀ byte ∈ key, isUnreserved byte = true := by
  by_contra reserved
  push Not at reserved
  obtain ⟨key, member, byte, inside, reserved⟩ := reserved
  let escaped := keys.toFinset.filter fun key => ∃ byte ∈ key, isUnreserved byte = false
  have present : key ∈ escaped := Finset.mem_filter.mpr
    ⟨List.mem_toFinset.mpr member, byte, inside, by simpa using reserved⟩
  obtain ⟨longest, chosen, maximal⟩ := escaped.exists_max_image List.length ⟨key, present⟩
  obtain ⟨chosen, byte, inside, reserved⟩ := Finset.mem_filter.mp chosen
  obtain ⟨longer, percent⟩ := encoder.encode_of_reserved inside reserved
  have found : encoder.encode longest ∈ escaped := Finset.mem_filter.mpr
    ⟨List.mem_toFinset.mpr (closed longest (List.mem_toFinset.mp chosen)), 37, percent, by decide⟩
  exact absurd (maximal _ found) (Nat.not_le.mpr longer)

/-- A built target is read back if and only if no key needed escaping. -/
theorem readsBack_iff {path : Bytes} (noQuery : (63 : UInt8) ∉ path)
    (noFragment : (35 : UInt8) ∉ path) (pairs : List (Bytes × Bytes)) (fragment : Bytes) :
    encoder.ReadsBack path pairs fragment ↔
      ∀ pair ∈ pairs, ∀ byte ∈ pair.1, isUnreserved byte = true := by
  unfold ReadsBack
  rw [encoder.splitTarget_buildTarget noQuery noFragment, encoder.parseQuery_intercalate,
    and_iff_right rfl, Except.ok.injEq]
  constructor
  · intro same pair member
    have closed : ∀ key ∈ pairs.map Prod.fst, encoder.encode key ∈ pairs.map Prod.fst := by
      intro key inside
      rw [← isSome_get_lastWins, ← same, isSome_get_lastWins, List.map_map]
      obtain ⟨source, found, rfl⟩ := List.mem_map.mp inside
      exact List.mem_map.mpr ⟨source, found, rfl⟩
    exact encoder.unreserved_of_encode_mem closed pair.1 (List.mem_map_of_mem member)
  · intro unreserved
    congr 1
    rw [List.map_congr_left (g := id), List.map_id]
    intro pair member
    rw [encoder.encode_of_unreserved (unreserved pair member)]
    rfl

/-- Values with reserved characters read back; the keys have none. -/
theorem readsBack_sample : Encoder.upperCase.ReadsBack (bytes "/api")
    [(bytes "name", bytes "a&b"), (bytes "age", bytes "18"), (bytes "name", bytes "50%")]
    (bytes "top") :=
  (readsBack_iff Encoder.upperCase (by decide) (by decide) _ _).mpr (by decide +kernel)

/-- The key `a b` comes back as `a%20b`. -/
theorem not_readsBack_of_space :
    ¬ Encoder.upperCase.ReadsBack (bytes "/api") [(bytes "a b", bytes "1")] [] := by
  rintro ⟨_, parsed⟩
  rw [Encoder.upperCase.splitTarget_buildTarget (by decide) (by decide),
    parseQuery_intercalate, Except.ok.injEq] at parsed
  have missing := congrArg (fun params => params.get (bytes "a b")) parsed
  exact absurd missing (by decide +kernel)

end Encoder

end UrlUtils

end Cdfs
