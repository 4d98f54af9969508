import Cdfs.Meta.Foreign
import Cdfs.Meta.IndexInvariant

/-! # Looking records up

`get_meta` takes a key of 32 bytes for an MD5 and any other key for a path. Every entry
of the path index names a stored record with that path (`Cdfs.PathsOwned`), but records
with one path share one entry, so deleting one of them hides the others
(`Cdfs.MetadataStore.deletesAlone_iff`), and a path of 32 bytes is not looked up in the
index at all (`Cdfs.MetadataStore.foundByBothKeys_iff`).
-/

namespace Cdfs

open Basis

/-- Every path entry names a stored record with that path. -/
def PathsOwned (codec : JsonCodec) (db : LevelDB) : Prop :=
  ∀ path md5, db.get (pathKey path) = some md5 →
    ∃ record, (catalog codec db).get md5 = some record ∧ record.path = path

/-- A record found that agrees with the saved one in the data of its file. -/
structure MetaFile.Agrees (record found : MetaFile) : Prop where
  md5 : found.md5 = record.md5
  path : found.path = record.path
  name : found.name = record.name
  scene : found.scene = record.scene
  size : found.size = record.size
  mtime : found.mtime = record.mtime
  status : found.status = record.status

/-- The calls with well-formed arguments that bring no record whose path has the length
of an MD5. -/
def MetaOp.NamesPaths (op : MetaOp) : Prop :=
  op.WellFormed ∧ op.Brings fun record => record.path.length ≠ 32

instance (op : MetaOp) : Decidable op.NamesPaths :=
  inferInstanceAs (Decidable (op.WellFormed ∧ op.Brings fun record => record.path.length ≠ 32))

section Owned

variable {codec : JsonCodec} {db : LevelDB}

theorem pathsOwned_empty : PathsOwned codec OrderedMap.empty := by
  intro path md5 present
  cases present

/-- The path entries are owned as the entries of an index. -/
theorem pathsOwned_iff :
    PathsOwned codec db ↔ pathIndex.Owned (catalog codec db) db.get := by
  constructor
  · rintro owned key md5 ⟨path, rfl⟩ entry
    obtain ⟨record, stored, rfl⟩ := owned path md5 entry
    exact ⟨record, stored, rfl⟩
  · intro owned path md5 entry
    obtain ⟨record, stored, keyed⟩ := owned (pathKey path) md5 (List.prefix_append _ _) entry
    exact ⟨record, stored, (pathKey_injective keyed).symm⟩

/-- A new record takes over the entry of its path. -/
theorem PathsOwned.saveBatch (owned : PathsOwned codec db) {record : MetaFile}
    (wellFormed : record.WellFormed) (fresh : (catalog codec db).get record.md5 = none) :
    PathsOwned codec (db.write (MetadataStore.saveBatch codec record) true) := by
  rw [pathsOwned_iff, catalog_saveBatch wellFormed]
  exact (pathsOwned_iff.mp owned).put (pathIndex_saveBatch wellFormed.1) fresh

/-- A delete takes the path entry of its record with it. -/
theorem PathsOwned.deleteBatch (owned : PathsOwned codec db) {md5 : Bytes} {record : MetaFile}
    (present : (catalog codec db).get md5 = some record) :
    PathsOwned codec (db.write (MetadataStore.deleteBatch md5 record) true) := by
  rw [pathsOwned_iff, catalog_deleteBatch]
  exact (pathsOwned_iff.mp owned).erase present
    (pathIndex_deleteBatch (isHexMd5_of_catalog_get present) record)

/-- Rewriting a record under the same path leaves the path index as it is. -/
theorem PathsOwned.putRecord (owned : PathsOwned codec db) {md5 text : Bytes}
    {record changed : MetaFile} (present : (catalog codec db).get md5 = some record)
    (stored : StoredAs codec text changed) (path : changed.path = record.path) :
    PathsOwned codec (db.put md5 text) := by
  have hex := isHexMd5_of_catalog_get present
  have keyed : pathIndex.keyOf md5 changed = pathIndex.keyOf md5 record := congrArg pathKey path
  rw [pathsOwned_iff, catalog_put_record hex stored]
  exact (pathsOwned_iff.mp owned).rewrite present keyed (pathIndex_putRecord hex text)

theorem PathsOwned.putShard (owned : PathsOwned codec db) (fileMd5 : Bytes) (shardIndex : UInt32)
    (value : Bytes) : PathsOwned codec (db.put (shardKey fileMd5 shardIndex) value) := by
  rw [pathsOwned_iff, catalog_put_other (not_isHexMd5_shardKey fileMd5 shardIndex)]
  exact (pathsOwned_iff.mp owned).congr (pathIndex_putShard fileMd5 shardIndex value)

end Owned

namespace MetadataStore

variable {codec : JsonCodec} {store : MetadataStore}

/-- One call keeps the path entries owned, whatever paths the records share. -/
theorem pathsOwned_step (readable : Readable codec store.db) (owned : PathsOwned codec store.db)
    {op : MetaOp} (wellFormed : op.WellFormed) : PathsOwned codec (store.step codec op).db := by
  refine invariant_step ?_ ?_ ?_ ?_ readable wellFormed owned
  · exact fun _ _ _ owned wellFormed fresh => owned.saveBatch wellFormed fresh
  · exact fun _ _ _ owned present => owned.deleteBatch present
  · exact fun _ _ _ _ owned present _ stored => owned.putRecord present stored rfl
  · exact fun shardIndex fileMd5 _ _ => owned.putShard fileMd5 shardIndex _

/-- A hexadecimal MD5 is looked up in the catalog. -/
theorem getMeta_of_isHexMd5 (store : MetadataStore) {key : Bytes} (hex : IsHexMd5 key) :
    store.getMeta codec key = (catalog codec store.db).get key := by
  have length : isMd5 key = true := beq_iff_eq.mpr hex.1
  unfold getMeta
  rw [catalog_get, if_pos hex, length]
  rfl

/-- A path that does not have the length of an MD5 is looked up through its entry, which
names a stored record. -/
theorem getMeta_of_path (owned : PathsOwned codec store.db) {path : Bytes}
    (length : path.length ≠ 32) :
    store.getMeta codec path =
      (store.db.get (pathKey path)).bind (catalog codec store.db).get := by
  have other : isMd5 path = false := beq_eq_false_iff_ne.mpr length
  unfold getMeta
  rw [other]
  cases entry : store.db.get (pathKey path) with
  | none =>
      simp only [Bool.false_eq_true, ↓reduceIte]
      rfl
  | some md5 =>
      obtain ⟨record, stored, _⟩ := owned path md5 entry
      simp only [Bool.false_eq_true, ↓reduceIte, Option.bind_some]
      rw [catalog_get, if_pos (isHexMd5_of_catalog_get stored)]

/-- A path is found when it has an entry. -/
theorem isSome_getMeta_of_path (owned : PathsOwned codec store.db) {path : Bytes}
    (length : path.length ≠ 32) :
    (store.getMeta codec path).isSome = (store.db.get (pathKey path)).isSome := by
  rw [getMeta_of_path owned length]
  cases entry : store.db.get (pathKey path) with
  | none => rfl
  | some md5 =>
      obtain ⟨record, stored, _⟩ := owned path md5 entry
      rw [Option.bind_some, stored]
      rfl

variable (codec) in
/-- Deleting the record under an MD5 leaves every other stored record as it is found. -/
def DeletesAlone (store : MetadataStore) (md5 : Bytes) : Prop :=
  ∀ ok, (store.deleteMeta codec md5 ok).1 = true →
    ∀ other, (catalog codec store.db).get other.md5 = some other → other.md5 ≠ md5 →
      (store.deleteMeta codec md5 ok).2.getMeta codec other.md5 = store.getMeta codec other.md5 ∧
      ((store.deleteMeta codec md5 ok).2.getMeta codec other.path).isSome =
        (store.getMeta codec other.path).isSome

/-- What a reachable state keeps when records are brought under paths of other lengths
than an MD5. -/
theorem owned_of_reachable
    (reached : Reachable (step codec) (fun _ op => op.NamesPaths) (opened OrderedMap.empty) store) :
    Readable codec store.db ∧ PathsOwned codec store.db ∧
      ∀ md5 record, (catalog codec store.db).get md5 = some record → record.path.length ≠ 32 := by
  refine reached.invariant (fun store => Readable codec store.db ∧ PathsOwned codec store.db ∧
    ∀ md5 record, (catalog codec store.db).get md5 = some record → record.path.length ≠ 32)
    ⟨readable_empty, pathsOwned_empty, by intro _ _ stored; cases stored⟩ ?_
  rintro store op ⟨readable, owned, named⟩ ⟨wellFormed, brings⟩
  refine ⟨readable_step readable wellFormed, pathsOwned_step readable owned wellFormed, ?_⟩
  rw [catalog_step readable wellFormed]
  exact Catalog.forall_step (fun _ _ named => named) (fun _ named => named) named brings

/-- The store after a successful delete. -/
theorem deleteMeta_of_stored {md5 : Bytes} {record : MetaFile}
    (stored : (catalog codec store.db).get md5 = some record) (ok : Bool) :
    (store.deleteMeta codec md5 ok).1 = ok ∧
      (ok = true → (store.deleteMeta codec md5 ok).2.db =
        store.db.write (deleteBatch md5 record) true) := by
  have hex := isHexMd5_of_catalog_get stored
  rw [catalog_get, if_pos hex] at stored
  unfold deleteMeta
  rw [stored]
  cases ok with
  | false => exact ⟨rfl, fun impossible => (Bool.false_ne_true impossible).elim⟩
  | true => exact ⟨rfl, fun _ => rfl⟩

/-- A delete takes the path of its record away and keeps every other path. -/
theorem isSome_getMeta_deleteMeta (owned : PathsOwned codec store.db) {md5 : Bytes}
    {record : MetaFile} (stored : (catalog codec store.db).get md5 = some record) {path : Bytes}
    (length : path.length ≠ 32) :
    ((store.deleteMeta codec md5 true).2.getMeta codec path).isSome =
      if record.path = path then false else (store.getMeta codec path).isSome := by
  have hex := isHexMd5_of_catalog_get stored
  have after := (deleteMeta_of_stored stored true).2 rfl
  have kept : PathsOwned codec (store.deleteMeta codec md5 true).2.db := by
    rw [after]
    exact owned.deleteBatch stored
  rw [isSome_getMeta_of_path kept length, isSome_getMeta_of_path owned length, after,
    get_deleteBatch_path hex]
  split <;> rfl

/-- A delete keeps how another record is found by its MD5. -/
theorem getMeta_deleteMeta {md5 : Bytes} {record : MetaFile}
    (stored : (catalog codec store.db).get md5 = some record) {other : Bytes}
    (hex : IsHexMd5 other) (different : other ≠ md5) :
    (store.deleteMeta codec md5 true).2.getMeta codec other = store.getMeta codec other := by
  rw [getMeta_of_isHexMd5 _ hex, getMeta_of_isHexMd5 _ hex, (deleteMeta_of_stored stored true).2 rfl,
    catalog_deleteBatch, OrderedMap.get_erase_of_ne _ (Ne.symm different)]

/-- **When a delete leaves the other records alone.** In every state reached by calls on
the store, a successful delete changes how no other record is found, by its MD5 or by
its path, if and only if no other record has the path of the deleted one or the path has
no entry anyway. -/
theorem deletesAlone_iff
    (reached : Reachable (step codec) (fun _ op => op.NamesPaths) (opened OrderedMap.empty) store)
    {md5 : Bytes} {record : MetaFile} (stored : (catalog codec store.db).get md5 = some record) :
    store.DeletesAlone codec md5 ↔
      (∀ other, (catalog codec store.db).get other.md5 = some other → other.md5 ≠ md5 →
        other.path ≠ record.path) ∨ store.db.get (pathKey record.path) = none := by
  obtain ⟨_, owned, named⟩ := owned_of_reachable reached
  constructor
  · intro alone
    by_contra neither
    obtain ⟨shared, there⟩ := not_or.mp neither
    simp only [not_forall, ne_eq, not_not, exists_prop] at shared
    obtain ⟨other, found, different, same⟩ := shared
    have length := named other.md5 other found
    have kept := (alone true (deleteMeta_of_stored stored true).1 other found different).2
    rw [isSome_getMeta_deleteMeta owned stored length, if_pos same.symm,
      isSome_getMeta_of_path owned length, same] at kept
    exact there (Option.isNone_iff_eq_none.mp (Option.isSome_eq_false_iff.mp kept.symm))
  · intro apart ok succeeds other found different
    have written : ok = true := (deleteMeta_of_stored stored ok).1.symm.trans succeeds
    subst written
    have length := named other.md5 other found
    refine ⟨getMeta_deleteMeta stored (isHexMd5_of_catalog_get found) different, ?_⟩
    rw [isSome_getMeta_deleteMeta owned stored length]
    split
    · rename_i same
      rcases apart with elsewhere | absent
      · exact (elsewhere other found different same.symm).elim
      · rw [isSome_getMeta_of_path owned length, ← same, absent]
        rfl
    · rfl

/-- A second record under the path of the sample record. -/
def twinMeta : MetaFile := { sampleMeta with md5 := bytes "fedcba0987654321fedcba0987654321" }

/-- The same record under a path of its own. -/
def apartMeta : MetaFile := { twinMeta with path := bytes "/group1/apart.txt" }

/-- The sample record and a second one are saved. -/
def savedWith (second : MetaFile) : List MetaOp := [.saveMeta sampleMeta true, .saveMeta second true]

/-- The two calls bring paths that are not read as MD5s. -/
theorem namesPaths_savedWith {second : MetaFile}
    (names : (MetaOp.saveMeta second true).NamesPaths) :
    ∀ op ∈ savedWith second, op.NamesPaths := by
  have first : (MetaOp.saveMeta sampleMeta true).NamesPaths :=
    ⟨wellFormed_sampleMeta, (by decide : sampleMeta.path.length ≠ 32)⟩
  rw [savedWith, List.forall_mem_cons, List.forall_mem_singleton]
  exact ⟨first, names⟩

/-- The store with the two records is reachable by permitted calls. -/
theorem permitted_savedWith {second : MetaFile}
    (names : (MetaOp.saveMeta second true).NamesPaths) :
    Permitted (step compactCodec) (fun _ op => op.NamesPaths) (opened OrderedMap.empty)
      (savedWith second) :=
  permitted_of_forall (namesPaths_savedWith names)

/-- The records of the store with the two records. -/
theorem catalog_savedWith {second : MetaFile}
    (names : (MetaOp.saveMeta second true).NamesPaths) :
    catalog compactCodec
      (run (step compactCodec) (opened OrderedMap.empty) (savedWith second)).db =
        (savedWith second).foldl Catalog.step OrderedMap.empty :=
  catalog_run readable_empty fun op member => (namesPaths_savedWith names op member).1

/-- A record under a path of its own is deleted alone. -/
theorem deletesAlone_apartMeta :
    (run (step compactCodec) (opened OrderedMap.empty) (savedWith apartMeta)).DeletesAlone
      compactCodec sampleMeta.md5 := by
  have names : (MetaOp.saveMeta apartMeta true).NamesPaths := by decide +kernel
  have records := catalog_savedWith names
  have stored : (catalog compactCodec (run (step compactCodec) (opened OrderedMap.empty)
      (savedWith apartMeta)).db).get sampleMeta.md5 = some sampleMeta := by
    rw [records]
    decide +kernel
  refine (deletesAlone_iff (Reachable.start.run (permitted_savedWith names)) stored).mpr (.inl ?_)
  intro other found different
  rw [records] at found
  have paths : ∀ entry ∈ ((savedWith apartMeta).foldl Catalog.step OrderedMap.empty).entries,
      entry.1 ≠ sampleMeta.md5 → entry.2.path ≠ sampleMeta.path := by decide +kernel
  exact paths _ (OrderedMap.mem_entries_iff.mpr found) different

/-- Two records under one path: deleting the first takes the path of the second away. -/
theorem not_deletesAlone_twinMeta :
    let store := run (step compactCodec) (opened OrderedMap.empty) (savedWith twinMeta)
    Permitted (step compactCodec) (fun _ op => op.NamesPaths) (opened OrderedMap.empty)
        (savedWith twinMeta) ∧
      (catalog compactCodec store.db).get sampleMeta.md5 = some sampleMeta ∧
      ¬ store.DeletesAlone compactCodec sampleMeta.md5 := by
  have names : (MetaOp.saveMeta twinMeta true).NamesPaths := by decide +kernel
  have permitted := permitted_savedWith names
  have records := catalog_savedWith names
  obtain ⟨_, owned, _⟩ := owned_of_reachable (Reachable.start.run permitted)
  have stored : (catalog compactCodec (run (step compactCodec) (opened OrderedMap.empty)
      (savedWith twinMeta)).db).get sampleMeta.md5 = some sampleMeta := by
    rw [records]
    decide +kernel
  refine ⟨permitted, stored, fun alone => ?_⟩
  have kept := (alone true (deleteMeta_of_stored stored true).1 twinMeta
    (by rw [records]; decide +kernel) (by decide +kernel)).2
  rw [isSome_getMeta_deleteMeta owned stored (by decide +kernel), if_pos (by decide +kernel),
    isSome_getMeta_of_path owned (by decide +kernel)] at kept
  exact absurd kept (by decide +kernel)

/-! ## A saved record -/

variable (codec) in
/-- A record that agrees with the saved one is found under its MD5 and under its path. -/
def FoundByBothKeys (store : MetadataStore) (record : MetaFile) : Prop :=
  ∀ key ∈ [record.md5, record.path],
    ∃ found, store.getMeta codec key = some found ∧ record.Agrees found

/-- A shard marker under the path of the record was given the text of such a record. -/
def MarkedAs (codec : JsonCodec) (store : MetadataStore) (record : MetaFile) : Prop :=
  (∃ fileMd5 shardIndex, record.path = shardKey fileMd5 shardIndex) ∧
    ∃ found, (store.db.get record.path).bind (deserialize codec) = some found ∧ record.Agrees found

/-- What every reachable state keeps: only a shard marker outside the record keys can
read as a record. -/
theorem unreadable_of_reachable
    (reached : Reachable (step codec) (fun _ op => op.WellFormed) (opened OrderedMap.empty) store) :
    Readable codec store.db ∧ PathsOwned codec store.db ∧
      Unreadable codec (fun key => ∃ fileMd5 shardIndex, key = shardKey fileMd5 shardIndex)
        store.db := by
  refine reached.invariant (fun store => Readable codec store.db ∧ PathsOwned codec store.db ∧
    Unreadable codec (fun key => ∃ fileMd5 shardIndex, key = shardKey fileMd5 shardIndex) store.db)
    ⟨readable_empty, pathsOwned_empty, Unreadable.empty⟩ ?_
  rintro store op ⟨readable, owned, foreign⟩ wellFormed
  refine ⟨readable_step readable wellFormed, pathsOwned_step readable owned wellFormed,
    foreign.step readable wellFormed ?_⟩
  cases op with
  | saveMetaShard shardIndex fileMd5 shardMd5 ok => exact .inl ⟨fileMd5, shardIndex, rfl⟩
  | _ => trivial

/-- A path of 32 bytes other than the MD5 leads where it led before the record was saved. -/
theorem getMeta_saveMeta_of_length {record : MetaFile} (hex : IsHexMd5 record.md5)
    (fresh : store.db.get record.md5 = none) (length : record.path.length = 32)
    (other : record.md5 ≠ record.path) :
    (store.saveMeta codec record true).2.getMeta codec record.path =
      (store.db.get record.path).bind (deserialize codec) := by
  have colon : (bytes ":").length = 1 := by decide +kernel
  have scene : sceneKey record.scene record.mtime record.md5 ≠ record.path := by
    intro same
    have long := congrArg List.length same
    simp only [sceneKey, List.length_append, hex.1, length, colon] at long
    omega
  have entry : pathKey record.path ≠ record.path := by
    intro same
    have long := congrArg List.length same
    rw [pathKey, List.length_append, length] at long
    exact absurd long (by decide +kernel)
  have direct : isMd5 record.path = true := beq_iff_eq.mpr length
  unfold getMeta
  rw [direct, (saveMeta_of_fresh fresh true).2 rfl]
  simp only [↓reduceIte, Option.bind_some]
  rw [get_saveBatch, if_neg scene, if_neg entry, if_neg other]

/-- **When a saved record is found by both keys.** In every reachable state, a record
that save_meta inserts is found under its MD5 and under its path if and only if the path
does not have the length of an MD5, or is the MD5 itself, or is the key of a shard
marker that was given the text of such a record. -/
theorem foundByBothKeys_iff
    (reached : Reachable (step codec) (fun _ op => op.WellFormed) (opened OrderedMap.empty) store)
    {record : MetaFile} (wellFormed : record.WellFormed) (fresh : store.db.get record.md5 = none)
    {ok : Bool} (saved : (store.saveMeta codec record ok).1 = true) :
    (store.saveMeta codec record ok).2.FoundByBothKeys codec record ↔
      record.path.length ≠ 32 ∨ record.path = record.md5 ∨ store.MarkedAs codec record := by
  obtain ⟨readable, owned, foreign⟩ := unreadable_of_reachable reached
  have hex := wellFormed.1
  have written : ok = true := (saveMeta_of_fresh fresh ok).1.symm.trans saved
  subst written
  have after := ((saveMeta_of_fresh fresh true).2 rfl :
    (store.saveMeta codec record true).2.db = _)
  have absent := (readable.catalog_get_eq_none hex).mpr fresh
  have stored : (catalog codec (store.saveMeta codec record true).2.db).get record.md5 =
      some record.asStored := by
    rw [after, catalog_saveBatch wellFormed]
    exact OrderedMap.get_put_self ..
  have agrees : record.Agrees record.asStored := ⟨rfl, rfl, rfl, rfl, rfl, rfl, rfl⟩
  have byMd5 : ∃ found, (store.saveMeta codec record true).2.getMeta codec record.md5 = some found ∧
      record.Agrees found := ⟨_, (getMeta_of_isHexMd5 _ hex).trans stored, agrees⟩
  by_cases length : record.path.length = 32
  · by_cases named : record.path = record.md5
    · refine iff_of_true ?_ (.inr (.inl named))
      intro key member
      have only : key = record.md5 := by
        simpa only [List.mem_cons, named, List.not_mem_nil, or_false, or_self] using member
      rw [only]
      exact byMd5
    · have same := @getMeta_saveMeta_of_length codec _ _ hex fresh length (Ne.symm named)
      constructor
      · intro both
        obtain ⟨found, read, matching⟩ := both record.path
          (List.mem_cons_of_mem _ (List.mem_singleton_self _))
        rw [same] at read
        refine .inr (.inr ⟨?_, found, read, matching⟩)
        obtain ⟨text, present, parsed⟩ := Option.bind_eq_some_iff.mp read
        by_contra notMarker
        by_cases pathHex : IsHexMd5 record.path
        · obtain ⟨other, kept, keyed⟩ := readable _ text pathHex present
          rw [kept.deserialize_eq] at parsed
          cases parsed
          exact named (keyed.symm.trans matching.md5)
        · rw [foreign _ text pathHex notMarker present] at parsed
          cases parsed
      · rintro (elsewhere | isMd5 | ⟨_, found, read, matching⟩)
        · exact (elsewhere length).elim
        · exact (named isMd5).elim
        · intro key member
          simp only [List.mem_cons, List.not_mem_nil, or_false] at member
          rcases member with rfl | rfl
          · exact byMd5
          · exact ⟨found, same.trans read, matching⟩
  · refine iff_of_true ?_ (.inl length)
    intro key member
    simp only [List.mem_cons, List.not_mem_nil, or_false] at member
    rcases member with rfl | rfl
    · exact byMd5
    · have kept : PathsOwned codec (store.saveMeta codec record true).2.db := by
        rw [after]
        exact owned.saveBatch wellFormed absent
      have entry : (store.saveMeta codec record true).2.db.get (pathKey record.path) =
          some record.md5 := by
        rw [after, get_saveBatch, if_neg (Ne.symm (pathKey_ne_sceneKey _ _ _ _)), if_pos rfl]
      exact ⟨_, by rw [getMeta_of_path kept length, entry, Option.bind_some, stored], agrees⟩

/-- The sample record is found by both keys. -/
theorem foundByBothKeys_sampleMeta :
    ((opened OrderedMap.empty).saveMeta compactCodec sampleMeta true).2.FoundByBothKeys compactCodec
      sampleMeta :=
  (foundByBothKeys_iff .start wellFormed_sampleMeta rfl (by decide +kernel)).mpr
    (.inl (by decide))

/-- The sample record under a path of 32 bytes. -/
def longPathMeta : MetaFile := { sampleMeta with path := bytes "/group1/default/photos/a0001.txt" }

/-- The path is taken for an MD5, and nothing is found. -/
theorem not_foundByBothKeys_longPathMeta :
    let saved := (opened OrderedMap.empty).saveMeta compactCodec longPathMeta true
    longPathMeta.WellFormed ∧ saved.1 = true ∧
      saved.2.getMeta compactCodec longPathMeta.path = none ∧
      ¬ saved.2.FoundByBothKeys compactCodec longPathMeta := by
  have nothing : ((opened OrderedMap.empty).saveMeta compactCodec longPathMeta true).2.getMeta
      compactCodec longPathMeta.path = none := by decide +kernel
  refine ⟨by decide +kernel, by decide +kernel, nothing, fun both => ?_⟩
  obtain ⟨found, read, _⟩ := both longPathMeta.path
    (List.mem_cons_of_mem _ (List.mem_singleton_self _))
  rw [nothing] at read
  cases read

end MetadataStore

end Cdfs
