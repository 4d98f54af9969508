import Cdfs.Basis.Cursor
import Cdfs.Meta.IndexInvariant

/-! # Listing a directory

`list_dir` of `file/MetadataStore.cpp`: a cursor over the scene index, placed at
one end of the keys that start with the directory, skips `offset` entries and then
reads the record of each further entry until `limit` records are there. When the
scene entries lead to readable records the results are the pages of one list
(`Cdfs.MetadataStore.listDir_pages`), the records of those keys in key order.
-/

namespace Cdfs

open Basis

/-- The keys listed for a directory start with this. -/
def scenePrefix (dir : Bytes) : Bytes := bytes "SCENE:" ++ (dir ++ bytes ":")

variable (codec : JsonCodec)

namespace MetadataStore

/-- The loop of `list_dir` over the entries the iterator yields. -/
def scanDir (store : MetadataStore) (keyPrefix : Bytes) (offset limit : Int) :
    List (Bytes × Bytes) → Int → Int → List MetaFile
  | [], _, _ => []
  | entry :: rest, skipped, fetched =>
      if keyPrefix.isPrefixOf entry.1 then
        if skipped < offset then scanDir store keyPrefix offset limit rest (skipped + 1) fetched
        else
          match store.getMeta codec entry.2 with
          | some record =>
              record :: if fetched + 1 ≥ limit ∧ limit > 0 then []
                else scanDir store keyPrefix offset limit rest skipped (fetched + 1)
          | none =>
              if fetched ≥ limit ∧ limit > 0 then []
              else scanDir store keyPrefix offset limit rest skipped fetched
      else []

/-- Where the iterator of `list_dir` starts: at the first key with the prefix, or,
descending, in front of the first key beyond the prefix. -/
def listStart (store : MetadataStore) (keyPrefix : Bytes) (order : Int) :
    Option (Cursor Bytes Bytes) :=
  if order = 1 then store.db.seek keyPrefix
  else match store.db.seek keyPrefix with
    | none => store.db.seekToLast
    | some _ => match store.db.seek (bumpLast keyPrefix) with
      | some cursor => cursor.prev
      | none => store.db.seekToLast

/-- `list_dir`. -/
def listDir (store : MetadataStore) (dir : Bytes) (offset limit order : Int) : List MetaFile :=
  if offset < 0 ∨ limit = 0 then []
  else
    let cursor := store.listStart (scenePrefix dir) order
    store.scanDir codec (scenePrefix dir) offset limit
      (if order = 1 then Cursor.forward cursor else Cursor.backward cursor) 0 0

end MetadataStore

/-- Every scene entry leads to a stored record that can be read. -/
def SceneReadable (db : LevelDB) : Prop :=
  ∀ key md5, bytes "SCENE:" <+: key → db.get key = some md5 →
    isMd5 md5 = true ∧ ((db.get md5).bind (deserialize codec)).isSome = true

/-- The entries listed for a directory, in key order. -/
def sceneEntries (db : LevelDB) (dir : Bytes) : List (Bytes × Bytes) :=
  db.entries.filter fun entry => (scenePrefix dir).isPrefixOf entry.1

/-- The records of the keys listed for a directory, in key order. -/
def sceneRecords (db : LevelDB) (dir : Bytes) : List MetaFile :=
  (sceneEntries db dir).filterMap fun entry => (db.get entry.2).bind (deserialize codec)

/-- The piece of a listing that starts behind `offset` records and has at most
`limit` of them, all the rest when the limit is negative. -/
def page (offset limit : Int) (records : List MetaFile) : List MetaFile :=
  if limit < 0 then records.drop offset.toNat
  else (records.drop offset.toNat).take limit.toNat

variable {codec}

/-- The scene index of a database reached by calls on the store is readable. -/
theorem SceneExact.sceneReadable {db : LevelDB} (indexed : SceneExact codec db) :
    SceneReadable codec db := by
  intro key md5 family present
  obtain ⟨record, stored, _⟩ := indexed.record_of_scene key md5 family present
  have hex := isHexMd5_of_catalog_get stored
  rw [catalog_get, if_pos hex] at stored
  exact ⟨beq_iff_eq.mpr hex.1, Option.isSome_iff_exists.mpr ⟨record, stored⟩⟩

/-- What the loop returns: the records of the entries behind those skipped, up to
the limit. -/
theorem MetadataStore.scanDir_eq (store : MetadataStore) (keyPrefix : Bytes) {offset limit : Int}
    (entries : List (Bytes × Bytes)) {skipped fetched : Int} (behind : skipped ≤ offset)
    (room : 0 < limit → fetched < limit) :
    store.scanDir codec keyPrefix offset limit entries skipped fetched =
      let found := ((entries.takeWhile fun entry => keyPrefix.isPrefixOf entry.1).drop
        (offset - skipped).toNat).filterMap fun entry => store.getMeta codec entry.2
      if 0 < limit then found.take (limit - fetched).toNat else found := by
  induction entries generalizing skipped fetched with
  | nil => simp [scanDir]
  | cons entry rest ih =>
      unfold scanDir
      by_cases under : keyPrefix.isPrefixOf entry.1 = true
      · rw [if_pos under, List.takeWhile_cons, if_pos under]
        by_cases skip : skipped < offset
        · rw [if_pos skip, ih (by omega) room,
            show (offset - skipped).toNat = (offset - (skipped + 1)).toNat + 1 by omega,
            List.drop_succ_cons]
        · rw [if_neg skip, show (offset - skipped).toNat = 0 by omega, List.drop_zero]
          cases read : store.getMeta codec entry.2 with
          | none =>
              have more : ¬ (fetched ≥ limit ∧ limit > 0) := fun full =>
                absurd (room full.2) (not_lt.mpr full.1)
              simp only [List.filterMap_cons, read]
              rw [if_neg more, ih behind room, show (offset - skipped).toNat = 0 by omega,
                List.drop_zero]
          | some record =>
              simp only [List.filterMap_cons, read]
              by_cases bounded : 0 < limit
              · rw [if_pos bounded,
                  show (limit - fetched).toNat = (limit - (fetched + 1)).toNat + 1 by
                    have := room bounded; omega, List.take_succ_cons]
                by_cases full : fetched + 1 ≥ limit
                · rw [if_pos ⟨full, bounded⟩,
                    show (limit - (fetched + 1)).toNat = 0 by omega, List.take_zero]
                · rw [if_neg fun stop => full stop.1, ih behind (by omega), if_pos bounded,
                    show (offset - skipped).toNat = 0 by omega, List.drop_zero]
              · rw [if_neg bounded, if_neg fun stop => bounded stop.2,
                  ih behind fun positive => absurd positive bounded, if_neg bounded,
                  show (offset - skipped).toNat = 0 by omega, List.drop_zero]
      · rw [if_neg under, List.takeWhile_cons, if_neg under]
        simp

/-- The entries the loop of `list_dir` sees before the prefix ends. -/
theorem MetadataStore.takeWhile_listStart (store : MetadataStore) (dir : Bytes) (order : Int) :
    (if order = 1 then Cursor.forward (store.listStart (scenePrefix dir) order)
      else Cursor.backward (store.listStart (scenePrefix dir) order)).takeWhile
        (fun entry => (scenePrefix dir).isPrefixOf entry.1) =
      if order = 1 then sceneEntries store.db dir else (sceneEntries store.db dir).reverse := by
  have split : scenePrefix dir = (bytes "SCENE:" ++ dir) ++ [58] := by
    rw [scenePrefix, List.append_assoc]
    rfl
  have room : (58 : UInt8) ≠ 255 := by decide
  unfold listStart sceneEntries
  by_cases ascending : order = 1
  · simp only [if_pos ascending]
    rw [split]
    exact takeWhile_forward_seek store.db room
  · simp only [if_neg ascending]
    -- each start is in front of the first key beyond the prefix
    have start : Cursor.backward (match store.db.seek (scenePrefix dir) with
        | none => store.db.seekToLast
        | some _ => match store.db.seek (bumpLast (scenePrefix dir)) with
          | some cursor => cursor.prev
          | none => store.db.seekToLast) =
        (store.db.below (bumpLast (scenePrefix dir))).reverse := by
      cases first : store.db.seek (scenePrefix dir) with
      | none =>
          refine OrderedMap.backward_seekToLast fun entry member => ?_
          have below := OrderedMap.seek_eq_none_iff.mp first entry member
          rw [split] at below ⊢
          rw [bumpLast_concat]
          exact below.trans ((append_lt_append_iff _).mpr (by decide))
      | some _ =>
          cases beyond : store.db.seek (bumpLast (scenePrefix dir)) with
          | none => exact OrderedMap.backward_seekToLast (OrderedMap.seek_eq_none_iff.mp beyond)
          | some cursor => exact OrderedMap.backward_prev_seek beyond
    rw [start, split, bumpLast_concat]
    exact takeWhile_reverse_below store.db room

/-- `list_dir` for every database: the pages of the readable records among the
entries of the directory, where an unreadable one is skipped like a listed one. -/
theorem MetadataStore.listDir_eq (store : MetadataStore) (dir : Bytes) {offset limit : Int}
    (order : Int) (start : 0 ≤ offset) (nonzero : limit ≠ 0) :
    store.listDir codec dir offset limit order =
      let listed := if order = 1 then sceneEntries store.db dir
        else (sceneEntries store.db dir).reverse
      let found := (listed.drop offset.toNat).filterMap fun entry => store.getMeta codec entry.2
      if 0 < limit then found.take limit.toNat else found := by
  have refused : ¬ (offset < 0 ∨ limit = 0) := by omega
  unfold listDir
  rw [if_neg refused, scanDir_eq store _ _ start id, takeWhile_listStart, Int.sub_zero,
    Int.sub_zero]

section Pages

variable {store : MetadataStore}

/-- A scene entry is read like any stored record. -/
theorem getMeta_of_mem_sceneEntries (readable : SceneReadable codec store.db) {dir : Bytes}
    {entry : Bytes × Bytes} (member : entry ∈ sceneEntries store.db dir) :
    store.getMeta codec entry.2 = (store.db.get entry.2).bind (deserialize codec) ∧
      (store.getMeta codec entry.2).isSome = true := by
  obtain ⟨present, under⟩ := List.mem_filter.mp member
  have family : bytes "SCENE:" <+: entry.1 :=
    (List.prefix_append _ _).trans (List.isPrefixOf_iff_prefix.mp under)
  obtain ⟨named, read⟩ := readable entry.1 entry.2 family (OrderedMap.mem_entries_iff.mp present)
  have found : store.getMeta codec entry.2 = (store.db.get entry.2).bind (deserialize codec) := by
    simp only [MetadataStore.getMeta, named, ↓reduceIte, Option.bind_some]
  exact ⟨found, found ▸ read⟩

/-- Dropping elements before or after they are all read. -/
theorem drop_filterMap_of_isSome {α β : Type} {read : α → Option β} (count : Nat)
    {elements : List α} (all : ∀ element ∈ elements, (read element).isSome = true) :
    (elements.drop count).filterMap read = (elements.filterMap read).drop count := by
  induction elements generalizing count with
  | nil => simp
  | cons element rest ih =>
      obtain ⟨value, found⟩ := Option.isSome_iff_exists.mp (all element (List.mem_cons_self ..))
      cases count with
      | zero => rfl
      | succ count =>
          rw [List.drop_succ_cons, List.filterMap_cons_some found, List.drop_succ_cons]
          exact ih count fun other member => all other (List.mem_cons_of_mem _ member)

/-- One call lists one page of the directory's records. -/
theorem MetadataStore.listDir_eq_page (readable : SceneReadable codec store.db) (dir : Bytes)
    {offset limit : Int} (order : Int) (start : 0 ≤ offset) (nonzero : limit ≠ 0) :
    store.listDir codec dir offset limit order = page offset limit
      (if order = 1 then sceneRecords codec store.db dir
        else (sceneRecords codec store.db dir).reverse) := by
  have read (entries : List (Bytes × Bytes)) (within : entries ⊆ sceneEntries store.db dir) :
      (entries.drop offset.toNat).filterMap (fun entry => store.getMeta codec entry.2) =
        (entries.filterMap fun entry => (store.db.get entry.2).bind (deserialize codec)).drop
          offset.toNat := by
    have same : entries.filterMap (fun entry => store.getMeta codec entry.2) =
        entries.filterMap fun entry => (store.db.get entry.2).bind (deserialize codec) :=
      List.filterMap_congr fun entry member =>
        (getMeta_of_mem_sceneEntries readable (within member)).1
    rw [← same]
    exact drop_filterMap_of_isSome _ fun entry member =>
      (getMeta_of_mem_sceneEntries readable (within member)).2
  have listed : ((if order = 1 then sceneEntries store.db dir
        else (sceneEntries store.db dir).reverse).drop offset.toNat).filterMap
          (fun entry => store.getMeta codec entry.2) =
      (if order = 1 then sceneRecords codec store.db dir
        else (sceneRecords codec store.db dir).reverse).drop offset.toNat := by
    by_cases ascending : order = 1
    · rw [if_pos ascending, if_pos ascending]
      exact read _ fun _ member => member
    · rw [if_neg ascending, if_neg ascending, read _ fun _ member => List.mem_reverse.mp member,
        List.filterMap_reverse]
      rfl
  rw [listDir_eq store dir order start nonzero]
  simp only [listed, page]
  by_cases positive : 0 < limit
  · have bounded : ¬ limit < 0 := by omega
    simp only [positive, bounded, ↓reduceIte]
  · have unbounded : limit < 0 := by omega
    simp only [positive, unbounded, ↓reduceIte]

/-- Consecutive pages put together are the whole list. -/
theorem flatMap_page (records : List MetaFile) {size : Nat} (count : Nat) :
    (List.range count).flatMap (fun number => page ((number * size : Nat) : Int) size records) =
      records.take (count * size) := by
  induction count with
  | zero => simp
  | succ count ih =>
      have bounded : ¬ (size : Int) < 0 := by omega
      rw [List.range_succ, List.flatMap_append, ih, List.flatMap_singleton, page, if_neg bounded,
        Int.toNat_natCast, Int.toNat_natCast, Nat.succ_mul, List.take_add]

end Pages

/-- **The pages of a listing tile it.** When every scene entry leads to a readable
record, each call returns the piece of the directory's records that its offset and
limit name, ascending or descending; consecutive pages put together are the whole
listing, and the descending listing is the ascending one in reverse. -/
theorem MetadataStore.listDir_pages (store : MetadataStore)
    (readable : SceneReadable codec store.db) (dir : Bytes) :
    (∀ offset limit order : Int, 0 ≤ offset → limit ≠ 0 →
      store.listDir codec dir offset limit order = page offset limit
        (if order = 1 then sceneRecords codec store.db dir
          else (sceneRecords codec store.db dir).reverse)) ∧
    (∀ (order : Int) (size count : Nat), 0 < size →
      (sceneRecords codec store.db dir).length ≤ count * size →
      (List.range count).flatMap (fun number =>
          store.listDir codec dir ((number * size : Nat) : Int) size order) =
        store.listDir codec dir 0 (-1) order) ∧
    ∀ order : Int, order ≠ 1 →
      store.listDir codec dir 0 (-1) order = (store.listDir codec dir 0 (-1) 1).reverse := by
  have whole (order : Int) : store.listDir codec dir 0 (-1) order =
      if order = 1 then sceneRecords codec store.db dir
        else (sceneRecords codec store.db dir).reverse :=
    listDir_eq_page readable dir order (Int.le_refl 0) (by decide)
  refine ⟨fun offset limit order start nonzero =>
    listDir_eq_page readable dir order start nonzero, ?_, ?_⟩
  · intro order size count positive enough
    have pages (number : Nat) : store.listDir codec dir ((number * size : Nat) : Int) size order =
        page ((number * size : Nat) : Int) size (if order = 1 then sceneRecords codec store.db dir
          else (sceneRecords codec store.db dir).reverse) :=
      listDir_eq_page readable dir order (Int.natCast_nonneg _) (by omega)
    simp only [pages, flatMap_page, whole]
    apply List.take_of_length_le
    split
    · exact enough
    · rwa [List.length_reverse]
  · intro order descending
    rw [whole, whole, if_neg descending, if_pos rfl]

/-- A record saved a second after the sample record, in the same scene. -/
def laterMeta : MetaFile :=
  { sampleMeta with
    md5 := bytes "1234567890abcdef1234567890abcde0", path := bytes "/group1/later.txt"
    mtime := 1680000001 }

/-- Both records are well formed. -/
theorem MetadataStore.wellFormed_sampleRun :
    ∀ op ∈ [MetaOp.saveMeta sampleMeta true, .saveMeta laterMeta true], op.WellFormed := by
  decide +kernel

/-- The records stored after both are saved. -/
theorem MetadataStore.catalog_sampleRun :
    catalog compactCodec (run (step compactCodec) (opened OrderedMap.empty)
      [.saveMeta sampleMeta true, .saveMeta laterMeta true]).db =
        [MetaOp.saveMeta sampleMeta true, .saveMeta laterMeta true].foldl Catalog.step
          OrderedMap.empty :=
  catalog_run readable_empty wellFormed_sampleRun

/-- The records of the scene, in the order of their keys. -/
theorem MetadataStore.sceneRecords_sampleRun :
    sceneRecords compactCodec (run (step compactCodec) (opened OrderedMap.empty)
      [.saveMeta sampleMeta true, .saveMeta laterMeta true]).db (bytes "default") =
        [sampleMeta, laterMeta] := by
  decide +kernel

/-- Two records of a scene, listed descending in pages of one record. -/
theorem MetadataStore.listDir_pages_sampleRun :
    let store := run (step compactCodec) (opened OrderedMap.empty)
      [.saveMeta sampleMeta true, .saveMeta laterMeta true]
    store.listDir compactCodec (bytes "default") 0 (-1) 2 = [laterMeta, sampleMeta] ∧
      (List.range 2).flatMap (fun number =>
          store.listDir compactCodec (bytes "default") ((number * 1 : Nat) : Int) (1 : Nat) 2) =
        store.listDir compactCodec (bytes "default") 0 (-1) 2 := by
  have indexed : SceneExact compactCodec (run (step compactCodec) (opened OrderedMap.empty)
      [.saveMeta sampleMeta true, .saveMeta laterMeta true]).db :=
    sceneExact_saveMeta (sceneExact_saveMeta sceneExact_empty
      (wellFormed_sampleRun _ (List.mem_cons_self ..)) true)
      (wellFormed_sampleRun _ (List.mem_cons_of_mem _ (List.mem_cons_self ..))) true
  obtain ⟨listed, paged, _⟩ := listDir_pages _ indexed.sceneReadable (bytes "default")
  constructor
  · rw [listed 0 (-1) 2 (by decide) (by decide), sceneRecords_sampleRun]
    rfl
  · refine paged 2 1 2 Nat.one_pos ?_
    rw [sceneRecords_sampleRun]
    decide

end Cdfs
