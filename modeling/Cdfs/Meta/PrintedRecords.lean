import Cdfs.Meta.MetadataStore

/-! # Records are printed

A parser that takes UTF-8 only gives UTF-8 values, and a record read from such a value has
UTF-8 strings. So whatever stands in the database, the records the store returns are
printed (`Cdfs.MetadataStore.isUtf8_of_getMeta`).
-/

namespace Cdfs

open Basis

/-- The parser takes UTF-8 only. -/
def ParsesUtf8 (codec : JsonCodec) : Prop :=
  ∀ text value, codec.parse text = some value → value.isUtf8 = true

section Decode

variable {json : Json} {name : Bytes}

theorem validUtf8_of_getString {value : Bytes} (valid : json.isUtf8 = true)
    (read : getString json = some value) : validUtf8 value = true := by
  cases json with
  | str content =>
      cases read
      exact valid
  | _ => cases read

/-- The items of an array are read from UTF-8 values. -/
theorem forall_of_getArray {α : Type} {item : Json → Option α} {good : α → Prop} {values : List α}
    (items : ∀ json value, json.isUtf8 = true → item json = some value → good value)
    (valid : json.isUtf8 = true) (read : (json.at? name).bind (getArray item) = some values) :
    ∀ value ∈ values, good value := by
  obtain ⟨field, found, array⟩ := Option.bind_eq_some_iff.mp read
  have inside := Json.isUtf8_of_at? valid found
  clear valid read found
  cases field with
  | arr entries =>
      rw [Json.isUtf8, Json.isUtf8Items_eq, List.all_eq_true] at inside
      change entries.mapM item = some values at array
      induction entries generalizing values with
      | nil =>
          cases array
          exact List.forall_mem_nil _
      | cons entry entries ih =>
          rw [List.mapM_cons] at array
          obtain ⟨first, here, later⟩ := Option.bind_eq_some_iff.mp array
          obtain ⟨others, behind, whole⟩ := Option.bind_eq_some_iff.mp later
          cases whole
          refine List.forall_mem_cons.mpr ⟨items _ _ (inside _ List.mem_cons_self) here, ?_⟩
          exact ih (fun other member => inside other (List.mem_cons_of_mem _ member)) behind
  | _ => cases array

/-- A string field of a UTF-8 object. -/
theorem validUtf8_of_field {value : Bytes} (valid : json.isUtf8 = true)
    (read : (json.at? name).bind getString = some value) : validUtf8 value = true := by
  obtain ⟨field, found, text⟩ := Option.bind_eq_some_iff.mp read
  exact validUtf8_of_getString (Json.isUtf8_of_at? valid found) text

theorem FileShard.validUtf8_of_fromJson {json : Json} {shard : FileShard} (valid : json.isUtf8 = true)
    (read : FileShard.fromJson json = some shard) :
    validUtf8 shard.shardId = true ∧ validUtf8 shard.md5 = true := by
  unfold FileShard.fromJson at read
  obtain ⟨_, _, read⟩ := Option.bind_eq_some_iff.mp read
  obtain ⟨shardId, idRead, read⟩ := Option.bind_eq_some_iff.mp read
  obtain ⟨_, _, read⟩ := Option.bind_eq_some_iff.mp read
  obtain ⟨md5, md5Read, read⟩ := Option.bind_eq_some_iff.mp read
  cases read
  exact ⟨validUtf8_of_field valid idRead, validUtf8_of_field valid md5Read⟩

/-- A record read from a UTF-8 value has UTF-8 strings. -/
theorem MetaFile.isUtf8_of_fromJson {record : MetaFile} (valid : json.isUtf8 = true)
    (read : MetaFile.fromJson json = some record) : record.IsUtf8 := by
  unfold MetaFile.fromJson at read
  obtain ⟨md5, md5Read, read⟩ := Option.bind_eq_some_iff.mp read
  obtain ⟨path, pathRead, read⟩ := Option.bind_eq_some_iff.mp read
  obtain ⟨fileName, nameRead, read⟩ := Option.bind_eq_some_iff.mp read
  obtain ⟨domain, domainRead, read⟩ := Option.bind_eq_some_iff.mp read
  obtain ⟨scene, sceneRead, read⟩ := Option.bind_eq_some_iff.mp read
  obtain ⟨src, srcRead, read⟩ := Option.bind_eq_some_iff.mp read
  obtain ⟨_, _, read⟩ := Option.bind_eq_some_iff.mp read
  obtain ⟨_, _, read⟩ := Option.bind_eq_some_iff.mp read
  obtain ⟨_, _, read⟩ := Option.bind_eq_some_iff.mp read
  obtain ⟨_, _, read⟩ := Option.bind_eq_some_iff.mp read
  obtain ⟨_, _, read⟩ := Option.bind_eq_some_iff.mp read
  obtain ⟨_, _, read⟩ := Option.bind_eq_some_iff.mp read
  obtain ⟨shards, shardRead, read⟩ := Option.bind_eq_some_iff.mp read
  obtain ⟨_, _, read⟩ := Option.bind_eq_some_iff.mp read
  obtain ⟨_, _, read⟩ := Option.bind_eq_some_iff.mp read
  obtain ⟨peers, peerRead, read⟩ := Option.bind_eq_some_iff.mp read
  cases read
  have shardTexts : ∀ shard ∈ shards,
      validUtf8 shard.shardId = true ∧ validUtf8 shard.md5 = true :=
    forall_of_getArray (fun _ _ => FileShard.validUtf8_of_fromJson) valid shardRead
  have peerTexts : ∀ peer ∈ peers, validUtf8 peer = true :=
    forall_of_getArray (fun _ _ => validUtf8_of_getString) valid peerRead
  simp only [MetaFile.IsUtf8, MetaFile.strings, List.forall_mem_append, List.forall_mem_cons,
    List.mem_flatMap, List.not_mem_nil, IsEmpty.forall_iff, implies_true, and_true]
  refine ⟨⟨⟨validUtf8_of_field valid md5Read, validUtf8_of_field valid pathRead,
    validUtf8_of_field valid nameRead, validUtf8_of_field valid domainRead,
    validUtf8_of_field valid sceneRead, validUtf8_of_field valid srcRead⟩, ?_⟩, peerTexts⟩
  rintro text ⟨shard, member, inside⟩
  obtain ⟨shardId, shardMd5⟩ := shardTexts shard member
  rcases List.mem_cons.mp inside with rfl | inside
  · exact shardId
  · rw [List.mem_singleton.mp inside]
    exact shardMd5

/-- What the store returns is printed. -/
theorem MetadataStore.isUtf8_of_getMeta {codec : JsonCodec} (parses : ParsesUtf8 codec)
    {store : MetadataStore} {key : Bytes} {record : MetaFile}
    (found : store.getMeta codec key = some record) : record.IsUtf8 := by
  obtain ⟨text, _, read⟩ := Option.bind_eq_some_iff.mp found
  obtain ⟨value, parsed, decoded⟩ := Option.bind_eq_some_iff.mp read
  exact MetaFile.isUtf8_of_fromJson (parses text value parsed) decoded

end Decode

end Cdfs
