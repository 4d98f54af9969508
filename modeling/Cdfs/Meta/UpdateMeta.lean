import Cdfs.Meta.Lookup

/-! # Updating a record

`update_meta` deletes the record and saves the new one, each with a write of its own,
and returns what the save returns. When the save fails the old record is gone; when the
delete fails the save finds the old record and reports success
(`Cdfs.MetadataStore.allOrNothing_iff`).
-/

namespace Cdfs

open Basis

namespace MetadataStore

variable {codec : JsonCodec} {store : MetadataStore}

variable (codec) in
/-- An update that returns true has stored the record, one that returns false has left
the store as it was. -/
def AllOrNothing (store : MetadataStore) (record : MetaFile) (deleteOk saveOk : Bool) : Prop :=
  let updated := store.updateMeta codec record deleteOk saveOk
  (updated.1 = true → updated.2.db.get record.md5 = some (serialize codec record)) ∧
    (updated.1 = false → updated.2 = store)

/-- A record that is not stored is only saved. -/
theorem updateMeta_of_fresh {record : MetaFile} (fresh : store.db.get record.md5 = none)
    (deleteOk saveOk : Bool) :
    store.updateMeta codec record deleteOk saveOk = store.saveMeta codec record saveOk := by
  unfold updateMeta deleteMeta
  rw [fresh]
  rfl

/-- A stored record that is not deleted is taken as saved. -/
theorem updateMeta_of_kept {record : MetaFile} {text : Bytes}
    (present : store.db.get record.md5 = some text) (saveOk : Bool) :
    store.updateMeta codec record false saveOk = (true, store) := by
  have kept : (store.deleteMeta codec record.md5 false).2 = store := by
    unfold deleteMeta
    split <;> rfl
  have taken : store.db.contains record.md5 = true := by
    rw [OrderedMap.contains, present]
    rfl
  unfold updateMeta saveMeta
  rw [kept, if_pos taken]

/-- A stored record that is deleted is replaced if the save succeeds, and lost if not. -/
theorem updateMeta_of_deleted {record old : MetaFile}
    (stored : (catalog codec store.db).get record.md5 = some old) (saveOk : Bool) :
    (store.updateMeta codec record true saveOk).1 = saveOk ∧
      (store.updateMeta codec record true saveOk).2.db.get record.md5 =
        if saveOk then some (serialize codec record) else none := by
  have hex := isHexMd5_of_catalog_get stored
  have deleted : (store.deleteMeta codec record.md5 true).2.db.get record.md5 = none := by
    rw [(deleteMeta_of_stored stored true).2 rfl, get_deleteBatch_of_isHexMd5 _ _ hex, if_pos rfl]
  obtain ⟨returned, after⟩ := @saveMeta_of_fresh codec _ _ deleted saveOk
  refine ⟨returned, ?_⟩
  unfold updateMeta
  cases saveOk with
  | true => rw [after rfl, get_saveBatch_of_isHexMd5 _ hex, if_pos rfl, if_pos rfl]
  | false =>
      unfold saveMeta commitMeta
      split
      · exact deleted
      · exact deleted

/-- **When an update is all or nothing.** Over a database whose indexes are exact, for
both outcomes of both writes: if and only if the record was not stored, or both writes
succeed, or the delete fails and the stored text is the new one already. -/
theorem allOrNothing_iff (indexed : IndexExact codec store.db) {record : MetaFile}
    (wellFormed : record.WellFormed) (deleteOk saveOk : Bool) :
    store.AllOrNothing codec record deleteOk saveOk ↔
      store.db.get record.md5 = none ∨ (deleteOk = true ∧ saveOk = true) ∨
        (deleteOk = false ∧ store.db.get record.md5 = some (serialize codec record)) := by
  have hex := wellFormed.1
  unfold AllOrNothing
  cases present : store.db.get record.md5 with
  | none =>
      refine iff_of_true ?_ (.inl rfl)
      obtain ⟨returned, after⟩ := @saveMeta_of_fresh codec _ _ present saveOk
      rw [updateMeta_of_fresh present]
      cases saveOk with
      | true =>
          refine ⟨fun _ => ?_, fun failed => ?_⟩
          · rw [after rfl, get_saveBatch_of_isHexMd5 _ hex, if_pos rfl]
          · exact (Bool.false_ne_true (failed.symm.trans returned)).elim
      | false =>
          refine ⟨fun succeeded => (Bool.false_ne_true (returned.symm.trans succeeded)).elim,
            fun _ => ?_⟩
          unfold saveMeta commitMeta
          split <;> rfl
  | some text =>
      cases deleteOk with
      | false =>
          rw [updateMeta_of_kept present]
          simp only [present, forall_const, reduceCtorEq, IsEmpty.forall_iff, and_true, false_and,
            true_and, false_or, Option.some.injEq]
      | true =>
          obtain ⟨old, kept, named⟩ := indexed.readable _ text hex present
          have stored := (indexed.readable.catalog_get_eq_some hex).mpr ⟨text, present, kept, named⟩
          obtain ⟨returned, after⟩ := updateMeta_of_deleted stored saveOk
          cases saveOk with
          | true =>
              refine iff_of_true ⟨fun _ => after, fun failed => ?_⟩ (.inr (.inl ⟨rfl, rfl⟩))
              exact (Bool.false_ne_true (failed.symm.trans returned)).elim
          | false =>
              refine iff_of_false (fun whole => ?_) ?_
              · rw [whole.2 returned, present] at after
                cases after
              · rintro (absent | ⟨_, saved⟩ | ⟨failed, _⟩)
                · cases absent
                · cases saved
                · cases failed

/-- The record of the sample file after its size has changed. -/
def grownMeta : MetaFile := { sampleMeta with size := 2048 }

/-- The store that holds the sample record only. -/
def sampleStore : MetadataStore :=
  ((opened OrderedMap.empty).saveMeta compactCodec sampleMeta true).2

theorem indexExact_sampleStore : IndexExact compactCodec sampleStore.db := by
  refine indexExact_saveMeta indexExact_empty wellFormed_sampleMeta ?_ true
  intro _ md5 other stored
  cases stored

theorem catalog_sampleStore :
    (catalog compactCodec sampleStore.db).get sampleMeta.md5 = some sampleMeta := by
  unfold sampleStore
  rw [catalog_saveMeta readable_empty wellFormed_sampleMeta]
  decide +kernel

/-- The update of the sample record with both writes succeeding. -/
theorem allOrNothing_grownMeta : sampleStore.AllOrNothing compactCodec grownMeta true true :=
  (allOrNothing_iff indexExact_sampleStore (by decide +kernel) true true).mpr
    (.inr (.inl ⟨rfl, rfl⟩))

/-- With the save failing the sample record is lost; with the delete failing the update
returns true and the old record is there. -/
theorem not_allOrNothing_grownMeta :
    IndexExact compactCodec sampleStore.db ∧ grownMeta.WellFormed ∧
      ¬ sampleStore.AllOrNothing compactCodec grownMeta true false ∧
      ¬ sampleStore.AllOrNothing compactCodec grownMeta false true := by
  obtain ⟨text, present, stored, _⟩ := (indexExact_sampleStore.readable.catalog_get_eq_some
    wellFormed_sampleMeta.1).mp catalog_sampleStore
  have wellFormed : grownMeta.WellFormed := by decide +kernel
  refine ⟨indexExact_sampleStore, wellFormed, fun whole => ?_, fun whole => ?_⟩
  · obtain ⟨returned, lost⟩ := @updateMeta_of_deleted _ _ grownMeta _ catalog_sampleStore false
    rw [whole.2 returned] at lost
    cases present.symm.trans lost
  · have kept := @updateMeta_of_kept compactCodec sampleStore grownMeta text present true
    have replaced := whole.1 (congrArg Prod.fst kept)
    rw [kept] at replaced
    have same : text = serialize compactCodec grownMeta :=
      Option.some.inj (present.symm.trans replaced)
    have read := stored.deserialize_eq
    rw [same, deserialize_serialize compactCodec wellFormed.2] at read
    exact absurd read (by decide +kernel)

end MetadataStore

end Cdfs
