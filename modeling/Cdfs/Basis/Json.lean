import Cdfs.Basis.Bytes
import Cdfs.Basis.OrderedMap

/-! # JSON values and codecs

JSON values over byte strings, with object members in key order as an ordered
map keeps them. A codec (`Basis.JsonCodec`) is a printer that refuses exactly the
values holding a string that is not UTF-8, together with a parser that reads back
what was printed. The laws are fields, so a development over an arbitrary codec
assumes nothing else about the JSON library.
-/

namespace Basis

/-- A JSON value. Numbers are integers; object members stand in key order. -/
inductive Json where
  | null
  | bool (value : Bool)
  | num (value : Int)
  | str (value : Bytes)
  | arr (items : List Json)
  | obj (members : List (Bytes × Json))
  deriving Inhabited

/-- A continuation byte of a multi-byte character. -/
def isTail (byte : UInt8) : Bool := 0x80 ≤ byte && byte ≤ 0xBF

/-- The byte string is well-formed UTF-8: no overlong form, no surrogate and no
code point above U+10FFFF. -/
def validUtf8 : Bytes → Bool
  | [] => true
  | a :: rest =>
      if a ≤ 0x7F then validUtf8 rest
      else if 0xC2 ≤ a && a ≤ 0xDF then
        match rest with
        | b :: rest => isTail b && validUtf8 rest
        | _ => false
      else if 0xE0 ≤ a && a ≤ 0xEF then
        match rest with
        | b :: c :: rest =>
            isTail b && isTail c && (a != 0xE0 || 0xA0 ≤ b) && (a != 0xED || b ≤ 0x9F) &&
              validUtf8 rest
        | _ => false
      else if 0xF0 ≤ a && a ≤ 0xF4 then
        match rest with
        | b :: c :: d :: rest =>
            isTail b && isTail c && isTail d && (a != 0xF0 || 0x90 ≤ b) &&
              (a != 0xF4 || b ≤ 0x8F) && validUtf8 rest
        | _ => false
      else false

/-- ASCII text is UTF-8. -/
theorem validUtf8_of_ascii {text : Bytes} (ascii : ∀ byte ∈ text, byte ≤ 0x7F) :
    validUtf8 text = true := by
  induction text with
  | nil => rfl
  | cons byte rest ih =>
      unfold validUtf8
      rw [if_pos (ascii byte (List.mem_cons_self ..))]
      exact ih fun other member => ascii other (List.mem_cons_of_mem _ member)

/-- Behind UTF-8 text the rest decides. -/
theorem validUtf8_append {first : Bytes} (valid : validUtf8 first = true) (second : Bytes) :
    validUtf8 (first ++ second) = validUtf8 second := by
  induction first using validUtf8.induct with
  | case1 => rfl
  | case2 a rest one ih =>
      unfold validUtf8 at valid
      rw [if_pos one] at valid
      rw [← ih valid, List.cons_append]
      conv_lhs => unfold validUtf8
      rw [if_pos one]
  | case3 a one two b rest ih =>
      unfold validUtf8 at valid
      rw [if_neg one, if_pos two] at valid
      obtain ⟨tails, later⟩ := Bool.and_eq_true_iff.mp valid
      simp only [List.cons_append]
      conv_lhs => unfold validUtf8
      rw [if_neg one, if_pos two, ← ih later]
      dsimp only
      rw [tails, Bool.true_and]
  | case5 a one two three b c rest ih =>
      unfold validUtf8 at valid
      rw [if_neg one, if_neg two, if_pos three] at valid
      obtain ⟨tails, later⟩ := Bool.and_eq_true_iff.mp valid
      simp only [List.cons_append]
      conv_lhs => unfold validUtf8
      rw [if_neg one, if_neg two, if_pos three, ← ih later]
      dsimp only
      rw [tails, Bool.true_and]
  | case7 a one two three four b c d rest ih =>
      unfold validUtf8 at valid
      rw [if_neg one, if_neg two, if_neg three, if_pos four] at valid
      obtain ⟨tails, later⟩ := Bool.and_eq_true_iff.mp valid
      simp only [List.cons_append]
      conv_lhs => unfold validUtf8
      rw [if_neg one, if_neg two, if_neg three, if_pos four, ← ih later]
      dsimp only
      rw [tails, Bool.true_and]
  | case4 a rest one two =>
      unfold validUtf8 at valid
      simp [one, two] at valid
  | case6 a rest one two three =>
      unfold validUtf8 at valid
      simp [one, two, three] at valid
  | case8 a rest one two three four =>
      unfold validUtf8 at valid
      simp [one, two, three, four] at valid
  | case9 a rest one two three four =>
      unfold validUtf8 at valid
      simp [one, two, three, four] at valid

/-- An ASCII byte starts a character. -/
theorem validUtf8_of_append {first rest : Bytes} {byte : UInt8} (ascii : byte ≤ 0x7F)
    (valid : validUtf8 (first ++ byte :: rest) = true) : validUtf8 first = true := by
  have head : isTail byte = false := by
    unfold isTail
    rw [Bool.and_eq_false_iff, decide_eq_false_iff_not]
    exact .inl fun tail => absurd (UInt8.le_trans tail ascii) (by decide)
  induction first using validUtf8.induct with
  | case1 => rfl
  | case2 a more one ih =>
      simp only [List.cons_append] at valid
      unfold validUtf8 at valid ⊢
      rw [if_pos one] at valid ⊢
      exact ih valid
  | case3 a one two b more ih =>
      simp only [List.cons_append] at valid
      unfold validUtf8 at valid ⊢
      rw [if_neg one, if_pos two] at valid ⊢
      obtain ⟨tails, later⟩ := Bool.and_eq_true_iff.mp valid
      exact Bool.and_eq_true_iff.mpr ⟨tails, ih later⟩
  | case5 a one two three b c more ih =>
      simp only [List.cons_append] at valid
      unfold validUtf8 at valid ⊢
      rw [if_neg one, if_neg two, if_pos three] at valid ⊢
      obtain ⟨tails, later⟩ := Bool.and_eq_true_iff.mp valid
      exact Bool.and_eq_true_iff.mpr ⟨tails, ih later⟩
  | case7 a one two three four b c d more ih =>
      simp only [List.cons_append] at valid
      unfold validUtf8 at valid ⊢
      rw [if_neg one, if_neg two, if_neg three, if_pos four] at valid ⊢
      obtain ⟨tails, later⟩ := Bool.and_eq_true_iff.mp valid
      exact Bool.and_eq_true_iff.mpr ⟨tails, ih later⟩
  | case4 a more one two short =>
      simp only [List.cons_append] at valid
      unfold validUtf8 at valid
      rw [if_neg one, if_pos two] at valid
      cases more with
      | nil => simp [head] at valid
      | cons b more => exact absurd rfl (short b more)
  | case6 a more one two three short =>
      simp only [List.cons_append] at valid
      unfold validUtf8 at valid
      rw [if_neg one, if_neg two, if_pos three] at valid
      rcases more with _ | ⟨b, _ | ⟨c, more⟩⟩
      · cases rest <;> simp [head] at valid
      · simp [head] at valid
      · exact absurd rfl (short b c more)
  | case8 a more one two three four short =>
      simp only [List.cons_append] at valid
      unfold validUtf8 at valid
      rw [if_neg one, if_neg two, if_neg three, if_pos four] at valid
      rcases more with _ | ⟨b, _ | ⟨c, _ | ⟨d, more⟩⟩⟩
      · rcases rest with _ | ⟨e, _ | ⟨f, rest⟩⟩ <;> simp [head] at valid
      · cases rest <;> simp [head] at valid
      · simp [head] at valid
      · exact absurd rfl (short b c d more)
  | case9 a rest one two three four =>
      simp only [List.cons_append] at valid
      unfold validUtf8 at valid
      simp [one, two, three, four] at valid
namespace Json

mutual

/-- Every string of the value, member names included, is UTF-8. -/
def isUtf8 : Json → Bool
  | .str value => validUtf8 value
  | .arr items => isUtf8Items items
  | .obj members => isUtf8Members members
  | _ => true

/-- Every item of an array holds UTF-8 strings only. -/
def isUtf8Items : List Json → Bool
  | [] => true
  | item :: rest => item.isUtf8 && isUtf8Items rest

/-- Every member of an object holds UTF-8 strings only. -/
def isUtf8Members : List (Bytes × Json) → Bool
  | [] => true
  | (name, value) :: rest => validUtf8 name && value.isUtf8 && isUtf8Members rest

end

mutual

/-- The value is one a JSON library represents exactly: integers of 64 bits,
object members in strict key order. -/
def canonical : Json → Bool
  | .num value => decide (-2 ^ 63 ≤ value ∧ value < 2 ^ 64)
  | .arr items => canonicalItems items
  | .obj members => decide ((members.map Prod.fst).Pairwise (· < ·)) && canonicalMembers members
  | _ => true

/-- Every item of an array is canonical. -/
def canonicalItems : List Json → Bool
  | [] => true
  | item :: rest => item.canonical && canonicalItems rest

/-- Every member value of an object is canonical. -/
def canonicalMembers : List (Bytes × Json) → Bool
  | [] => true
  | (_, value) :: rest => value.canonical && canonicalMembers rest

end

/-- A number within the range of the library is canonical. -/
theorem canonical_num {value : Int} (lower : -2 ^ 63 ≤ value) (upper : value < 2 ^ 64) :
    (Json.num value).canonical = true := by
  rw [canonical, decide_eq_true_eq]
  exact ⟨lower, upper⟩

/-- Build an object by assigning its members one after the other. -/
def object (members : List (Bytes × Json)) : Json :=
  .obj (members.foldl (fun written member =>
    OrderedMap.insertEntry member.1 member.2 written) [])

/-- The member of an object, none when there is none or the value is no object. -/
def at? (name : Bytes) : Json → Option Json
  | .obj members => OrderedMap.lookupEntry name members
  | _ => none

/-- The items of an array, one by one. -/
theorem isUtf8Items_eq (items : List Json) : isUtf8Items items = items.all isUtf8 := by
  induction items with
  | nil => rfl
  | cons item rest ih => rw [isUtf8Items, List.all_cons, ih]

/-- The members of an object, one by one. -/
theorem isUtf8Members_eq (members : List (Bytes × Json)) :
    isUtf8Members members = members.all fun member => validUtf8 member.1 && member.2.isUtf8 := by
  induction members with
  | nil => rfl
  | cons member rest ih => rw [isUtf8Members, List.all_cons, ih]

/-- The items of an array, one by one. -/
theorem canonicalItems_eq (items : List Json) : canonicalItems items = items.all canonical := by
  induction items with
  | nil => rfl
  | cons item rest ih => rw [canonicalItems, List.all_cons, ih]

/-- The members of an object, one by one. -/
theorem canonicalMembers_eq (members : List (Bytes × Json)) :
    canonicalMembers members = members.all fun member => member.2.canonical := by
  induction members with
  | nil => rfl
  | cons member rest ih => rw [canonicalMembers, List.all_cons, ih]

end Json

namespace OrderedMap

variable {K V : Type} [LinearOrder K]

/-- Assigning members one after the other keeps strict key order. -/
theorem sorted_foldl_insertEntry (members : List (K × V)) {written : List (K × V)}
    (sorted : (written.map Prod.fst).Pairwise (· < ·)) :
    ((members.foldl (fun entries member => insertEntry member.1 member.2 entries) written).map
      Prod.fst).Pairwise (· < ·) := by
  induction members generalizing written with
  | nil => exact sorted
  | cons member rest ih => exact ih (sorted_insertEntry sorted)

/-- An assignment above every key is appended. -/
theorem insertEntry_of_lt {key : K} {value : V} {entries : List (K × V)}
    (above : ∀ other ∈ entries.map Prod.fst, other < key) :
    insertEntry key value entries = entries ++ [(key, value)] := by
  induction entries with
  | nil => rfl
  | cons entry rest ih =>
      have first : entry.1 < key := above entry.1 (List.mem_cons_self ..)
      rw [insertEntry, if_neg (lt_asymm first), if_neg (ne_of_lt first),
        ih fun other member => above other (List.mem_cons_of_mem _ member)]
      rfl

/-- Each entry after an assignment is the assigned one or an older one. -/
theorem mem_insertEntry {key : K} {value : V} {entry : K × V} {entries : List (K × V)}
    (member : entry ∈ insertEntry key value entries) :
    entry = (key, value) ∨ entry ∈ entries := by
  induction entries with
  | nil => exact .inl (List.mem_singleton.mp member)
  | cons first rest ih =>
      simp only [insertEntry] at member
      split at member
      · exact List.mem_cons.mp member
      · split at member
        · rcases List.mem_cons.mp member with same | older
          · exact .inl same
          · exact .inr (List.mem_cons_of_mem _ older)
        · rcases List.mem_cons.mp member with same | later
          · exact .inr (same ▸ List.mem_cons_self ..)
          · exact (ih later).imp id (List.mem_cons_of_mem _)

/-- Each entry after several assignments is one of them or an older one. -/
theorem mem_foldl_insertEntry {members written : List (K × V)} {entry : K × V}
    (member : entry ∈ members.foldl (fun entries member =>
      insertEntry member.1 member.2 entries) written) : entry ∈ members ∨ entry ∈ written := by
  induction members generalizing written with
  | nil => exact .inr member
  | cons first rest ih =>
      rcases ih member with later | now
      · exact .inl (List.mem_cons_of_mem _ later)
      · rcases mem_insertEntry now with same | older
        · exact .inl (same ▸ List.mem_cons_self ..)
        · exact .inr older

/-- Lookup after several assignments: the last one to the key, else the older
value. -/
theorem lookupEntry_foldl_insertEntry (key : K) (members written : List (K × V)) :
    lookupEntry key (members.foldl (fun entries member =>
      insertEntry member.1 member.2 entries) written) =
        (lookupEntry key members.reverse).or (lookupEntry key written) := by
  induction members generalizing written with
  | nil => simp only [List.foldl_nil, List.reverse_nil, lookupEntry, Option.none_or]
  | cons member rest ih =>
      have append (entries : List (K × V)) : lookupEntry key (entries ++ [member]) =
          (lookupEntry key entries).or (lookupEntry key [member]) := by
        induction entries with
        | nil => simp only [List.nil_append, lookupEntry, Option.none_or]
        | cons first others tail =>
            rw [List.cons_append, lookupEntry, lookupEntry, tail]
            split <;> rfl
      rw [List.foldl_cons, ih, lookupEntry_insertEntry, List.reverse_cons, append, Option.or_assoc]
      congr 1
      simp only [lookupEntry]
      split <;> rfl

end OrderedMap

namespace Json

/-- An object of UTF-8 members is UTF-8. -/
theorem isUtf8_object {members : List (Bytes × Json)}
    (valid : ∀ member ∈ members, validUtf8 member.1 = true ∧ member.2.isUtf8 = true) :
    (object members).isUtf8 = true := by
  rw [object, isUtf8, isUtf8Members_eq, List.all_eq_true]
  intro member inside
  rcases OrderedMap.mem_foldl_insertEntry inside with given | older
  · rw [Bool.and_eq_true]
    exact valid member given
  · cases older

/-- An object of canonical members is canonical. -/
theorem canonical_object {members : List (Bytes × Json)}
    (valid : ∀ member ∈ members, member.2.canonical = true) :
    (object members).canonical = true := by
  rw [object, canonical, canonicalMembers_eq, Bool.and_eq_true, List.all_eq_true, decide_eq_true_eq]
  refine ⟨OrderedMap.sorted_foldl_insertEntry members List.Pairwise.nil, fun member inside => ?_⟩
  rcases OrderedMap.mem_foldl_insertEntry inside with given | older
  · exact valid member given
  · cases older

/-- Reading a member of a built object. -/
theorem at?_object (name : Bytes) (members : List (Bytes × Json)) :
    at? name (object members) = OrderedMap.lookupEntry name members.reverse := by
  rw [object, at?, OrderedMap.lookupEntry_foldl_insertEntry]
  exact Option.or_none

/-- A member of a built object whose names are distinct is read back. -/
theorem at?_object_of_mem {members : List (Bytes × Json)} (distinct : (members.map Prod.fst).Nodup)
    {name : Bytes} {value : Json} (member : (name, value) ∈ members) :
    at? name (object members) = some value := by
  have lookup (entries : List (Bytes × Json)) (distinct : (entries.map Prod.fst).Nodup)
      (member : (name, value) ∈ entries) : OrderedMap.lookupEntry name entries = some value := by
    induction entries with
    | nil => cases member
    | cons entry rest ih =>
        rw [List.map_cons, List.nodup_cons] at distinct
        rw [OrderedMap.lookupEntry]
        rcases List.mem_cons.mp member with rfl | later
        · rw [if_pos rfl]
        · have different : entry.1 ≠ name := fun same =>
            distinct.1 (List.mem_map.mpr ⟨(name, value), later, same.symm⟩)
          rw [if_neg different]
          exact ih distinct.2 later
  rw [at?_object]
  apply lookup
  · rw [List.map_reverse]
    exact List.nodup_reverse.mpr distinct
  · exact List.mem_reverse.mpr member

/-- The members of a UTF-8 object are UTF-8. -/
theorem isUtf8_of_at? {json value : Json} {name : Bytes} (valid : json.isUtf8 = true)
    (found : at? name json = some value) : value.isUtf8 = true := by
  cases json with
  | obj members =>
      rw [isUtf8, isUtf8Members_eq, List.all_eq_true] at valid
      have lookup (entries : List (Bytes × Json))
          (found : OrderedMap.lookupEntry name entries = some value) :
          ∃ entry ∈ entries, entry.2 = value := by
        induction entries with
        | nil => cases found
        | cons entry rest ih =>
            rw [OrderedMap.lookupEntry] at found
            split at found
            · cases found
              exact ⟨entry, List.mem_cons_self, rfl⟩
            · obtain ⟨later, member, same⟩ := ih found
              exact ⟨later, List.mem_cons_of_mem _ member, same⟩
      obtain ⟨entry, member, rfl⟩ := lookup members found
      exact (Bool.and_eq_true_iff.mp (valid entry member)).2
  | _ => cases found

end Json

/-- A JSON library: a printer that throws exactly on strings that are not UTF-8,
and a parser that reads back canonical values. -/
structure JsonCodec where
  /-- The printed text, none when printing throws. -/
  dump : Json → Option Bytes
  /-- The parsed value, none when parsing throws. -/
  parse : Bytes → Option Json
  dump_isSome : ∀ value, (dump value).isSome = value.isUtf8
  parse_dump : ∀ value text, value.canonical = true → dump value = some text →
    parse text = some value
  /-- The text of an object holds an opening brace. -/
  brace_of_parse_obj : ∀ text members, parse text = some (.obj members) → (123 : UInt8) ∈ text

/-- A canonical value of UTF-8 strings has a text that is read back. -/
theorem JsonCodec.exists_dump (codec : JsonCodec) {value : Json} (utf8 : value.isUtf8 = true)
    (canonical : value.canonical = true) :
    ∃ text, codec.dump value = some text ∧ codec.parse text = some value := by
  obtain ⟨text, printed⟩ := Option.isSome_iff_exists.mp ((codec.dump_isSome value).trans utf8)
  exact ⟨text, printed, codec.parse_dump value text canonical printed⟩

end Basis
