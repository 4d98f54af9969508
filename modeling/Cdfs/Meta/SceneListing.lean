import Cdfs.Meta.Listing

/-! # Listing one scene

The records listed for a directory are those whose scene key starts with the
directory, in the order of their keys (`Cdfs.SceneExact.mem_sceneRecords_iff`,
`Cdfs.SceneExact.sceneRecords_ordered`). The separator is not escaped, so these
need not be the records with that scene (`Cdfs.MetaFile.listedUnder_iff`);
`Cdfs.MetadataStore.listsScene_iff` says when they are.
-/

namespace Cdfs

open Basis

/-- The key under which a record is listed. -/
def MetaFile.listKey (record : MetaFile) : Bytes :=
  sceneKey record.scene record.mtime record.md5

/-- The scene key of a record starts with a directory. -/
def MetaFile.ListedUnder (record : MetaFile) (dir : Bytes) : Prop :=
  scenePrefix dir <+: record.listKey

instance (record : MetaFile) (dir : Bytes) : Decidable (record.ListedUnder dir) :=
  inferInstanceAs (Decidable (scenePrefix dir <+: record.listKey))

variable (codec : JsonCodec)

/-- The stored records of a scene. -/
def recordsOfScene (db : LevelDB) (scene : Bytes) : List MetaFile :=
  ((catalog codec db).entries.map Prod.snd).filter fun record => record.scene = scene

/-- In either order the listing has exactly the stored records of the scene, each
once. -/
def MetadataStore.ListsScene (store : MetadataStore) (dir : Bytes) : Prop :=
  ∀ order, (store.listDir codec dir 0 (-1) order).Perm (recordsOfScene codec store.db dir)

/-- No stored record of another scene reads like one of the directory: neither does
its scene go on behind the directory and a colon, nor is the directory its scene, a
colon and its time. -/
def SceneApart (db : LevelDB) (dir : Bytes) : Prop :=
  ∀ md5 record, (catalog codec db).get md5 = some record → record.scene ≠ dir →
    ¬ dir ++ bytes ":" <+: record.scene ∧
      dir ≠ record.scene ++ (bytes ":" ++ decimalInt record.mtime.toInt)

section Keys

/-- A time is printed without colon. -/
theorem colon_not_mem_decimalInt (number : Int) : (58 : UInt8) ∉ decimalInt number := by
  intro member
  rcases minus_or_isDigit_of_mem_decimalInt member with same | digit
  · cases same
  · exact Bool.false_ne_true digit

theorem IsHexMd5.colon_not_mem {md5 : Bytes} (hex : IsHexMd5 md5) : (58 : UInt8) ∉ md5 :=
  fun member => Bool.false_ne_true (hex.2 58 member)

end Keys

/-- A record is listed under its scene, under every directory in front of a colon in
it, and under its scene with its time. -/
theorem MetaFile.listedUnder_iff {record : MetaFile} (hex : IsHexMd5 record.md5) (dir : Bytes) :
    record.ListedUnder dir ↔ record.scene = dir ∨ dir ++ bytes ":" <+: record.scene ∨
      dir = record.scene ++ (bytes ":" ++ decimalInt record.mtime.toInt) := by
  have colon : bytes ":" = [58] := rfl
  unfold ListedUnder scenePrefix listKey sceneKey
  rw [List.prefix_append_right_inj, colon]
  generalize decimalTime : decimalInt record.mtime.toInt = time
  have plain : (58 : UInt8) ∉ time := decimalTime ▸ colon_not_mem_decimalInt _
  constructor
  · rintro ⟨rest, same⟩
    rw [List.append_assoc, List.singleton_append, List.singleton_append, List.singleton_append,
      ← List.cons_append, ← List.append_assoc] at same
    rcases prefix_of_append_separator hex.colon_not_mem same with timed | ⟨later, same⟩
    · exact .inr (.inr timed)
    · rw [List.append_assoc, List.singleton_append] at same
      rcases prefix_of_append_separator plain same with named | inside
      · exact .inl named.symm
      · exact .inr (.inl inside)
  · rintro (rfl | inside | rfl)
    · exact (List.prefix_append_right_inj record.scene).mpr (List.prefix_append _ _)
    · exact inside.trans (List.prefix_append _ _)
    · rw [List.append_assoc, List.append_assoc]
      simp only [List.prefix_append_right_inj]
      exact List.prefix_append _ _

section Listed

variable {codec} {db : LevelDB}

/-- What a listed entry holds: the MD5 of the stored record whose key it is. -/
theorem SceneExact.read_of_mem_sceneEntries (indexed : SceneExact codec db) {dir : Bytes}
    {entry : Bytes × Bytes} (member : entry ∈ sceneEntries db dir) {record : MetaFile}
    (read : (db.get entry.2).bind (deserialize codec) = some record) :
    (catalog codec db).get record.md5 = some record ∧ entry.1 = record.listKey ∧
      record.ListedUnder dir := by
  obtain ⟨present, under⟩ := List.mem_filter.mp member
  rw [List.isPrefixOf_iff_prefix] at under
  obtain ⟨other, stored, keyed⟩ := indexed.record_of_scene entry.1 entry.2
    ((List.prefix_append _ _).trans under) (OrderedMap.mem_entries_iff.mp present)
  have hex := isHexMd5_of_catalog_get stored
  have same : other = record := by
    rw [catalog_get, if_pos hex, read, Option.some.injEq] at stored
    exact stored.symm
  subst same
  obtain ⟨_, _, _, named⟩ := (indexed.readable.catalog_get_eq_some hex).mp stored
  rw [← named] at stored keyed
  rw [keyed] at under
  exact ⟨stored, keyed, under⟩

/-- The records listed for a directory are the stored ones whose key starts with it. -/
theorem SceneExact.mem_sceneRecords_iff (indexed : SceneExact codec db) {dir : Bytes}
    {record : MetaFile} : record ∈ sceneRecords codec db dir ↔
      (catalog codec db).get record.md5 = some record ∧ record.ListedUnder dir := by
  unfold sceneRecords
  rw [List.mem_filterMap]
  constructor
  · rintro ⟨entry, member, read⟩
    have found := indexed.read_of_mem_sceneEntries member read
    exact ⟨found.1, found.2.2⟩
  · rintro ⟨stored, listed⟩
    refine ⟨(record.listKey, record.md5), List.mem_filter.mpr ⟨?_, ?_⟩, ?_⟩
    · exact OrderedMap.mem_entries_iff.mpr (indexed.scene_of_record record.md5 record stored)
    · exact List.isPrefixOf_iff_prefix.mpr listed
    · have hex := isHexMd5_of_catalog_get stored
      rwa [catalog_get, if_pos hex] at stored

/-- The listed records come in the order of their keys. -/
theorem SceneExact.sceneRecords_ordered (indexed : SceneExact codec db) (dir : Bytes) :
    (sceneRecords codec db dir).Pairwise fun first second => first.listKey < second.listKey := by
  have strict : (sceneEntries db dir).Pairwise fun first second => first.1 < second.1 :=
    (List.pairwise_map.mp db.sorted).sublist List.filter_sublist
  unfold sceneRecords
  rw [List.pairwise_filterMap]
  refine strict.imp_of_mem fun first second ordered record read other otherRead => ?_
  have firstKey := (indexed.read_of_mem_sceneEntries first read).2.1
  have secondKey := (indexed.read_of_mem_sceneEntries second otherRead).2.1
  rw [← firstKey, ← secondKey]
  exact ordered

/-- A listing has no record twice. -/
theorem SceneExact.nodup_sceneRecords (indexed : SceneExact codec db) (dir : Bytes) :
    (sceneRecords codec db dir).Nodup := by
  refine (indexed.sceneRecords_ordered dir).imp ?_
  rintro first second below rfl
  exact lt_irrefl _ below

/-- The entries of the catalog hold their records under the records' MD5s. -/
theorem Readable.md5_of_mem_catalog (readable : Readable codec db) {entry : Bytes × MetaFile}
    (member : entry ∈ (catalog codec db).entries) : entry.2.md5 = entry.1 := by
  have stored := OrderedMap.mem_entries_iff.mp member
  obtain ⟨_, _, _, named⟩ :=
    (readable.catalog_get_eq_some (isHexMd5_of_catalog_get stored)).mp stored
  exact named

/-- The records of a scene are the stored ones with that scene. -/
theorem Readable.mem_recordsOfScene_iff (readable : Readable codec db) {scene : Bytes}
    {record : MetaFile} : record ∈ recordsOfScene codec db scene ↔
      (catalog codec db).get record.md5 = some record ∧ record.scene = scene := by
  unfold recordsOfScene
  rw [List.mem_filter, decide_eq_true_eq, List.mem_map]
  refine and_congr_left fun _ => ⟨?_, fun stored => ?_⟩
  · rintro ⟨entry, member, rfl⟩
    rw [readable.md5_of_mem_catalog member]
    exact OrderedMap.mem_entries_iff.mp member
  · exact ⟨(record.md5, record), OrderedMap.mem_entries_iff.mpr stored, rfl⟩

/-- Each of them is there once. -/
theorem Readable.nodup_recordsOfScene (readable : Readable codec db) (scene : Bytes) :
    (recordsOfScene codec db scene).Nodup := by
  have strict : (catalog codec db).entries.Pairwise fun first second => first.1 < second.1 :=
    List.pairwise_map.mp (catalog codec db).sorted
  refine List.Nodup.filter _ (List.pairwise_map.mpr ?_)
  refine strict.imp_of_mem fun first second ordered same => ?_
  rw [← readable.md5_of_mem_catalog first, ← readable.md5_of_mem_catalog second, same] at ordered
  exact lt_irrefl _ ordered

/-- The listing of a directory is the stored records of that scene, each once, if
and only if no stored record of another scene is listed under the directory. -/
theorem SceneExact.perm_recordsOfScene_iff (indexed : SceneExact codec db) (dir : Bytes) :
    (sceneRecords codec db dir).Perm (recordsOfScene codec db dir) ↔ SceneApart codec db dir := by
  have listed {record : MetaFile} (stored : (catalog codec db).get record.md5 = some record) :=
    record.listedUnder_iff (isHexMd5_of_catalog_get stored) dir
  rw [List.perm_ext_iff_of_nodup (indexed.nodup_sceneRecords dir)
    (indexed.readable.nodup_recordsOfScene dir)]
  simp only [indexed.mem_sceneRecords_iff, indexed.readable.mem_recordsOfScene_iff]
  constructor
  · intro exact md5 record stored other
    have named : record.md5 = md5 :=
      indexed.readable.md5_of_mem_catalog (OrderedMap.mem_entries_iff.mpr stored)
    rw [← named] at stored
    have unlisted : ¬ record.ListedUnder dir := fun under =>
      other ((exact record).mp ⟨stored, under⟩).2
    exact ⟨fun inside => unlisted ((listed stored).mpr (.inr (.inl inside))),
      fun timed => unlisted ((listed stored).mpr (.inr (.inr timed)))⟩
  · intro apart record
    refine and_congr_right fun stored => ?_
    rw [listed stored]
    refine ⟨fun under => ?_, .inl⟩
    by_contra other
    obtain ⟨outside, untimed⟩ := apart record.md5 record stored other
    rcases under with same | inside | timed
    · exact other same
    · exact outside inside
    · exact untimed timed

end Listed

namespace MetadataStore

variable {codec} {store : MetadataStore}

/-- The two whole listings of a directory. -/
theorem listDir_whole (indexed : SceneExact codec store.db) (dir : Bytes) (order : Int) :
    store.listDir codec dir 0 (-1) order =
      if order = 1 then sceneRecords codec store.db dir
        else (sceneRecords codec store.db dir).reverse :=
  listDir_eq_page indexed.sceneReadable dir order (Int.le_refl 0) (by decide)

/-- Every reachable state has an exact scene index. -/
theorem sceneExact_of_reachable
    (reached : Reachable (step codec) (fun _ op => op.WellFormed) (opened OrderedMap.empty) store) :
    SceneExact codec store.db :=
  reached.invariant (fun store => SceneExact codec store.db) sceneExact_empty
    fun _ _ indexed wellFormed => sceneExact_step indexed wellFormed

/-- **When a listing is that of its scene.** In every state reached by calls on the
store, listing a directory gives exactly the stored records with that scene, each
once, if and only if no stored record of another scene has a scene that goes on
behind the directory and a colon, or a scene and time that spell the directory. -/
theorem listsScene_iff
    (reached : Reachable (step codec) (fun _ op => op.WellFormed) (opened OrderedMap.empty) store)
    (dir : Bytes) : store.ListsScene codec dir ↔ SceneApart codec store.db dir := by
  have indexed := sceneExact_of_reachable reached
  rw [← indexed.perm_recordsOfScene_iff]
  constructor
  · intro lists
    have ascending := lists 1
    rwa [listDir_whole indexed, if_pos rfl] at ascending
  · intro exact order
    rw [listDir_whole indexed]
    split
    · exact exact
    · exact (List.reverse_perm _).trans exact

/-- Two records of one scene: listing the scene gives both. -/
theorem listsScene_sampleRun :
    (run (step compactCodec) (opened OrderedMap.empty)
      [.saveMeta sampleMeta true, .saveMeta laterMeta true]).ListsScene compactCodec
        (bytes "default") := by
  have permitted : Permitted (step compactCodec) (fun _ op => op.WellFormed)
      (opened OrderedMap.empty) [.saveMeta sampleMeta true, .saveMeta laterMeta true] :=
    permitted_of_forall wellFormed_sampleRun
  refine (listsScene_iff (Reachable.start.run permitted) (bytes "default")).mpr fun md5 record stored other => ?_
  rw [catalog_sampleRun] at stored
  have scenes : ∀ entry ∈ ([MetaOp.saveMeta sampleMeta true, .saveMeta laterMeta true].foldl
      Catalog.step OrderedMap.empty).entries, entry.2.scene = bytes "default" := by
    decide +kernel
  exact absurd (scenes _ (OrderedMap.mem_entries_iff.mpr stored)) other

/-- A record whose scene has a colon in it. -/
def nestedMeta : MetaFile := { sampleMeta with scene := bytes "photos:2024" }

/-- The listing of `photos` has the record of the scene `photos:2024`. -/
theorem not_listsScene_nestedMeta :
    let store := run (step compactCodec) (opened OrderedMap.empty) [.saveMeta nestedMeta true]
    (MetaOp.saveMeta nestedMeta true).WellFormed ∧
      store.listDir compactCodec (bytes "photos") 0 (-1) 1 = [nestedMeta] ∧
      ¬ store.ListsScene compactCodec (bytes "photos") := by
  intro store
  have wellFormed : ∀ op ∈ [MetaOp.saveMeta nestedMeta true], op.WellFormed := by decide +kernel
  have listed : store.listDir compactCodec (bytes "photos") 0 (-1) 1 = [nestedMeta] := by
    decide +kernel
  refine ⟨wellFormed _ (List.mem_cons_self ..), listed, fun lists => ?_⟩
  have records : catalog compactCodec store.db =
      [MetaOp.saveMeta nestedMeta true].foldl Catalog.step OrderedMap.empty :=
    catalog_run readable_empty wellFormed
  have ascending := lists 1
  rw [listed, recordsOfScene, records] at ascending
  exact absurd ascending.length_eq (by decide +kernel)

end MetadataStore

end Cdfs
