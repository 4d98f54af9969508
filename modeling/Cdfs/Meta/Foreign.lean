import Cdfs.Meta.Catalog

/-! # Entries that are no records

The index entries hold MD5s and the shard markers what their caller gave; neither is
the text of a record, as the text of an object starts with a brace
(`Cdfs.Unreadable.step`). Markers with texts of other kinds are exempted by their keys.
-/

namespace Cdfs

open Basis

variable {codec : JsonCodec}

/-- A record is read from an object only. -/
theorem MetaFile.exists_obj_of_fromJson {json : Json} {record : MetaFile}
    (read : MetaFile.fromJson json = some record) : ∃ members, json = .obj members := by
  cases json with
  | obj members => exact ⟨members, rfl⟩
  | _ => cases read

/-- A text without a brace is not the text of a record. -/
theorem deserialize_eq_none {text : Bytes} (braceless : (123 : UInt8) ∉ text) :
    deserialize codec text = none := by
  by_contra readable
  obtain ⟨record, read⟩ := Option.ne_none_iff_exists'.mp readable
  obtain ⟨json, parsed, decoded⟩ := Option.bind_eq_some_iff.mp read
  obtain ⟨members, rfl⟩ := MetaFile.exists_obj_of_fromJson decoded
  exact braceless (codec.brace_of_parse_obj text members parsed)

/-- An MD5 is not the text of a record. -/
theorem IsHexMd5.deserialize_eq_none {md5 : Bytes} (hex : IsHexMd5 md5) :
    deserialize codec md5 = none :=
  Cdfs.deserialize_eq_none fun brace => absurd (hex.2 _ brace) (by decide)

/-- The value written for a shard without MD5 is not the text of a record. -/
theorem deserialize_one : deserialize codec (bytes "1") = none :=
  deserialize_eq_none (by decide +kernel)

/-- No entry outside the record keys reads as a record, those at exempt keys apart. -/
def Unreadable (codec : JsonCodec) (exempt : Bytes → Prop) (db : LevelDB) : Prop :=
  ∀ key text, ¬ IsHexMd5 key → ¬ exempt key → db.get key = some text →
    deserialize codec text = none

/-- A marker the call writes has an exempt key or does not read as a record. -/
def MetaOp.Marks (codec : JsonCodec) (exempt : Bytes → Prop) : MetaOp → Prop
  | .saveMetaShard shardIndex fileMd5 shardMd5 _ => exempt (shardKey fileMd5 shardIndex) ∨
      deserialize codec (if shardMd5.isEmpty then bytes "1" else shardMd5) = none
  | _ => True

namespace Unreadable

variable {exempt : Bytes → Prop} {db : LevelDB} {store : MetadataStore}

theorem empty : Unreadable codec exempt OrderedMap.empty := by
  intro key text _ _ present
  cases present

theorem put (foreign : Unreadable codec exempt db) {key text : Bytes}
    (kept : IsHexMd5 key ∨ exempt key ∨ deserialize codec text = none) :
    Unreadable codec exempt (db.put key text) := by
  intro other found notRecord notExempt present
  rw [OrderedMap.get_put] at present
  split at present
  · rename_i same
    cases present
    rcases kept with hex | excused | unreadable
    · exact (notRecord (same ▸ hex)).elim
    · exact (notExempt (same ▸ excused)).elim
    · exact unreadable
  · exact foreign other found notRecord notExempt present

theorem saveBatch (foreign : Unreadable codec exempt db) {record : MetaFile}
    (hex : IsHexMd5 record.md5) :
    Unreadable codec exempt (db.write (MetadataStore.saveBatch codec record) true) :=
  ((foreign.put (.inl hex)).put (.inr (.inr hex.deserialize_eq_none))).put
    (.inr (.inr hex.deserialize_eq_none))

theorem deleteBatch (foreign : Unreadable codec exempt db) (md5 : Bytes) (record : MetaFile) :
    Unreadable codec exempt (db.write (MetadataStore.deleteBatch md5 record) true) := by
  intro key text notRecord notExempt present
  rw [get_deleteBatch] at present
  split at present
  · cases present
  · split at present
    · cases present
    · split at present
      · cases present
      · exact foreign key text notRecord notExempt present

/-- One call keeps the other entries unreadable. -/
theorem step (foreign : Unreadable codec exempt store.db) (readable : Readable codec store.db)
    {op : MetaOp} (wellFormed : op.WellFormed) (marks : op.Marks codec exempt) :
    Unreadable codec exempt (store.step codec op).db := by
  refine MetadataStore.invariant_step ?_ ?_ ?_ ?_ readable wellFormed foreign
  · exact fun _ _ _ foreign wellFormed _ => foreign.saveBatch wellFormed.1
  · exact fun _ md5 record foreign _ => foreign.deleteBatch md5 record
  · exact fun _ _ _ _ foreign present _ _ => foreign.put (.inl (isHexMd5_of_catalog_get present))
  · rintro shardIndex fileMd5 shardMd5 rfl
    exact foreign.put (.inr marks)

end Unreadable

end Cdfs
