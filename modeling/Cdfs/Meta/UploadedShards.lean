import Cdfs.Basis.DecimalOrder
import Cdfs.Meta.SceneListing
import Cdfs.Store.CryptoUtils

/-! # The shards received

`save_meta_shard` writes a marker under a key made of the file id and the index, and
`get_uploaded_shard` reads the indices back from the keys. Nothing else writes or removes
such keys, so the list is exactly that of the markers written
(`Cdfs.MetadataStore.getUploadedShard_exact`).
-/

namespace Cdfs

open Basis

/-- The markers of a file start with this. -/
def shardPrefix (fileId : Bytes) : Bytes := bytes "Shard:" ++ (fileId ++ bytes ":")

namespace MetadataStore

/-- The loop of `get_uploaded_shard` over the entries the iterator yields. -/
def scanShards (keyPrefix : Bytes) : List (Bytes × Bytes) → List UInt32
  | [] => []
  | entry :: rest =>
      if keyPrefix.isPrefixOf entry.1 then
        match stoul (entry.1.drop keyPrefix.length) with
        | some index => index.toUInt32 :: scanShards keyPrefix rest
        | none => scanShards keyPrefix rest
      else []

/-- `get_uploaded_shard`. -/
def getUploadedShard (store : MetadataStore) (fileId : Bytes) : List UInt32 :=
  if fileId.isEmpty then []
  else scanShards (shardPrefix fileId) (Cursor.forward (store.db.seek (shardPrefix fileId)))

end MetadataStore

section Keys

theorem shardKey_eq (fileMd5 : Bytes) (shardIndex : UInt32) :
    shardKey fileMd5 shardIndex = shardPrefix fileMd5 ++ decimal shardIndex.toNat := by
  simp only [shardKey, shardPrefix, List.append_assoc]

theorem shardKey_injective {fileMd5 : Bytes} {first second : UInt32}
    (same : shardKey fileMd5 first = shardKey fileMd5 second) : first = second := by
  rw [shardKey_eq, shardKey_eq] at same
  exact UInt32.toNat_inj.mp (decimal_injective (List.append_cancel_left same))

theorem colon_not_mem_decimal (number : Nat) : (58 : UInt8) ∉ decimal number :=
  fun member => Bool.false_ne_true (isDigit_of_mem_decimal member)

/-- A marker starts with the prefix of its own file only. -/
theorem eq_of_shardPrefix {fileId fileMd5 : Bytes} {shardIndex : UInt32}
    (plain : (58 : UInt8) ∉ fileMd5) (under : shardPrefix fileId <+: shardKey fileMd5 shardIndex) :
    fileId = fileMd5 := by
  obtain ⟨rest, same⟩ := under
  have colon : bytes ":" = [58] := rfl
  rw [shardPrefix, shardKey, List.append_assoc, List.append_cancel_left_eq, colon,
    List.append_assoc, List.singleton_append, List.singleton_append] at same
  rcases prefix_of_append_separator (colon_not_mem_decimal _) same with same | ⟨rest, inside⟩
  · exact same
  · refine (plain ?_).elim
    rw [← inside]
    exact List.mem_append_left _ (List.mem_append_right _ (List.mem_singleton_self _))

/-- The index is read back from a marker of the file. -/
theorem stoul_shardKey (fileMd5 : Bytes) (shardIndex : UInt32) :
    (stoul ((shardKey fileMd5 shardIndex).drop (shardPrefix fileMd5).length)).map
      UInt64.toUInt32 = some shardIndex := by
  have small := shardIndex.toNat_lt
  rw [shardKey_eq, List.drop_left, stoul_decimal (by omega), Option.map_some, Option.some.injEq]
  apply UInt32.toNat_inj.mp
  rw [UInt64.toNat_toUInt32, UInt64.toNat_ofNat']
  omega

end Keys

/-- The calls with well-formed arguments whose shards belong to nonempty file ids without
a colon. -/
def MetaOp.NamesShards (op : MetaOp) : Prop :=
  op.WellFormed ∧ ∀ shardIndex fileMd5 shardMd5 ok,
    op = .saveMetaShard shardIndex fileMd5 shardMd5 ok → fileMd5 ≠ [] ∧ (58 : UInt8) ∉ fileMd5

/-- The keys that start like a marker are those of the markers written. -/
def MarkersAre (db : LevelDB) (ops : List MetaOp) : Prop :=
  ∀ key, bytes "Shard:" <+: key → ((db.get key).isSome = true ↔
    ∃ shardIndex fileMd5 shardMd5, MetaOp.saveMetaShard shardIndex fileMd5 shardMd5 true ∈ ops ∧
      key = shardKey fileMd5 shardIndex)

namespace MetadataStore

variable {codec : JsonCodec} {store : MetadataStore}

/-- A call does not touch a marker it does not write. -/
theorem get_step_of_marker (readable : Readable codec store.db) {op : MetaOp}
    (wellFormed : op.WellFormed) {key : Bytes} (family : bytes "Shard:" <+: key)
    (other : ∀ shardIndex fileMd5 shardMd5, op = .saveMetaShard shardIndex fileMd5 shardMd5 true →
      shardKey fileMd5 shardIndex ≠ key) :
    (store.step codec op).db.get key = store.db.get key := by
  obtain ⟨rest, rfl⟩ := family
  have path (path : Bytes) : pathKey path ≠ bytes "Shard:" ++ rest :=
    fun same => (by decide : (80 : UInt8) ≠ 83) (List.cons.inj same).1
  have scene (scene : Bytes) (mtime : Int64) (md5 : Bytes) :
      sceneKey scene mtime md5 ≠ bytes "Shard:" ++ rest :=
    fun same => (by decide : (67 : UInt8) ≠ 104) (List.cons.inj (List.cons.inj same).2).1
  have record {md5 : Bytes} (hex : IsHexMd5 md5) : md5 ≠ bytes "Shard:" ++ rest :=
    hex.ne_cons 83 (by decide)
  refine @invariant_step codec store
    (fun db => db.get (bytes "Shard:" ++ rest) = store.db.get (bytes "Shard:" ++ rest)) op
    ?_ ?_ ?_ ?_ readable wellFormed rfl
  · intro db added _ same wellFormed _
    rw [get_saveBatch, if_neg (scene _ _ _), if_neg (path _), if_neg (record wellFormed.1), same]
  · intro db md5 gone same stored
    rw [get_deleteBatch, if_neg (scene _ _ _), if_neg (path _),
      if_neg (record (isHexMd5_of_catalog_get stored)), same]
  · intro db md5 changed status same stored _ _
    rw [OrderedMap.get_put_of_ne _ _ (record (isHexMd5_of_catalog_get stored)), same]
  · intro shardIndex fileMd5 shardMd5 marks
    exact OrderedMap.get_put_of_ne _ _ (other shardIndex fileMd5 shardMd5 marks)

/-- One call adds the marker it writes. -/
theorem markersAre_step (readable : Readable codec store.db) {ops : List MetaOp} {op : MetaOp}
    (markers : MarkersAre store.db ops) (wellFormed : op.WellFormed) :
    MarkersAre (store.step codec op).db (ops ++ [op]) := by
  intro key family
  by_cases written : ∃ shardIndex fileMd5 shardMd5,
      op = .saveMetaShard shardIndex fileMd5 shardMd5 true ∧ shardKey fileMd5 shardIndex = key
  · obtain ⟨shardIndex, fileMd5, shardMd5, rfl, rfl⟩ := written
    refine iff_of_true ?_ ⟨shardIndex, fileMd5, shardMd5, List.mem_concat_self, rfl⟩
    exact Option.isSome_iff_exists.mpr ⟨_, OrderedMap.get_put_self ..⟩
  · have other : ∀ shardIndex fileMd5 shardMd5,
        op = .saveMetaShard shardIndex fileMd5 shardMd5 true → shardKey fileMd5 shardIndex ≠ key :=
      fun shardIndex fileMd5 shardMd5 marks same =>
        written ⟨shardIndex, fileMd5, shardMd5, marks, same⟩
    rw [get_step_of_marker readable wellFormed family other, markers key family]
    constructor
    · rintro ⟨shardIndex, fileMd5, shardMd5, member, named⟩
      exact ⟨shardIndex, fileMd5, shardMd5, List.mem_append_left _ member, named⟩
    · rintro ⟨shardIndex, fileMd5, shardMd5, member, named⟩
      rcases List.mem_append.mp member with earlier | last
      · exact ⟨shardIndex, fileMd5, shardMd5, earlier, named⟩
      · exact (other shardIndex fileMd5 shardMd5 (List.mem_singleton.mp last).symm named.symm).elim

/-- After a run the keys that start like a marker are those of the markers it wrote. -/
theorem markersAre_run {ops : List MetaOp} (wellFormed : ∀ op ∈ ops, op.WellFormed) :
    Readable codec (run (step codec) (opened OrderedMap.empty) ops).db ∧
      MarkersAre (run (step codec) (opened OrderedMap.empty) ops).db ops := by
  induction ops using List.reverseRecOn with
  | nil =>
      refine ⟨readable_empty, fun key _ => iff_of_false Bool.false_ne_true ?_⟩
      rintro ⟨_, _, _, member, _⟩
      cases member
  | append_singleton ops op ih =>
      obtain ⟨readable, markers⟩ := ih fun other member =>
        wellFormed other (List.mem_append_left _ member)
      have last := wellFormed op (List.mem_append_right _ (List.mem_singleton_self op))
      rw [run_concat]
      exact ⟨readable_step readable last, markersAre_step readable markers last⟩

/-- What the loop returns: the numbers behind the prefix. -/
theorem scanShards_eq (keyPrefix : Bytes) (entries : List (Bytes × Bytes)) :
    scanShards keyPrefix entries =
      (entries.takeWhile fun entry => keyPrefix.isPrefixOf entry.1).filterMap fun entry =>
        (stoul (entry.1.drop keyPrefix.length)).map UInt64.toUInt32 := by
  induction entries with
  | nil => rfl
  | cons entry rest ih =>
      rw [scanShards, List.takeWhile_cons]
      by_cases under : keyPrefix.isPrefixOf entry.1 = true
      · rw [if_pos under, if_pos under, List.filterMap_cons]
        cases stoul (entry.1.drop keyPrefix.length) with
        | none => exact ih
        | some index => exact congrArg (index.toUInt32 :: ·) ih
      · rw [if_neg under, if_neg under]
        rfl

/-- The indices listed are those of the keys under the prefix of the file. -/
theorem map_getUploadedShard {ops : List MetaOp} (markers : MarkersAre store.db ops)
    (named : ∀ op ∈ ops, op.NamesShards) {fileId : Bytes} (nonempty : fileId ≠ []) :
    (store.getUploadedShard fileId).map (shardKey fileId) =
      (store.db.entries.filter fun entry => (shardPrefix fileId).isPrefixOf entry.1).map
        Prod.fst := by
  have split : shardPrefix fileId = (bytes "Shard:" ++ fileId) ++ [58] := by
    rw [shardPrefix, List.append_assoc]
    rfl
  have room : (58 : UInt8) ≠ 255 := by decide
  have scanned : store.getUploadedShard fileId =
      (store.db.entries.filter fun entry => (shardPrefix fileId).isPrefixOf entry.1).filterMap
        fun entry => (stoul (entry.1.drop (shardPrefix fileId).length)).map UInt64.toUInt32 := by
    have given : fileId.isEmpty = false := List.isEmpty_eq_false_iff.mpr nonempty
    unfold getUploadedShard
    rw [given, scanShards_eq, split, takeWhile_forward_seek store.db room]
    rfl
  have exact : ∀ entry ∈ store.db.entries.filter
      (fun entry => (shardPrefix fileId).isPrefixOf entry.1),
      ((stoul (entry.1.drop (shardPrefix fileId).length)).map UInt64.toUInt32).map
        (shardKey fileId) = some entry.1 := by
    rintro ⟨key, value⟩ member
    obtain ⟨inside, under⟩ := List.mem_filter.mp member
    rw [List.isPrefixOf_iff_prefix] at under
    have present := OrderedMap.mem_entries_iff.mp inside
    obtain ⟨shardIndex, fileMd5, shardMd5, written, rfl⟩ :=
      (markers key ((List.prefix_append _ _).trans under)).mp (by rw [present]; rfl)
    obtain ⟨_, plain⟩ := (named _ written).2 _ _ _ _ rfl
    have same := eq_of_shardPrefix plain under
    subst same
    rw [stoul_shardKey, Option.map_some]
  rw [scanned, List.map_filterMap, List.filterMap_congr exact, List.filterMap_eq_map']

/-- **The shards listed are those recorded.** After every run of calls, for every file
id, the list has no duplicates and holds exactly the indices whose marker a call has
written. -/
theorem getUploadedShard_exact {ops : List MetaOp} (named : ∀ op ∈ ops, op.NamesShards)
    (fileId : Bytes) :
    ((run (step codec) (opened OrderedMap.empty) ops).getUploadedShard fileId).Nodup ∧
      ∀ shardIndex,
        shardIndex ∈ (run (step codec) (opened OrderedMap.empty) ops).getUploadedShard fileId ↔
          ∃ shardMd5, MetaOp.saveMetaShard shardIndex fileId shardMd5 true ∈ ops := by
  obtain ⟨_, markers⟩ := @markersAre_run codec ops fun op member => (named op member).1
  generalize run (step codec) (opened OrderedMap.empty) ops = store at markers ⊢
  by_cases empty : fileId = []
  · subst empty
    refine ⟨List.nodup_nil, fun shardIndex => iff_of_false List.not_mem_nil ?_⟩
    rintro ⟨shardMd5, written⟩
    exact ((named _ written).2 _ _ _ _ rfl).1 rfl
  · have listed := map_getUploadedShard markers named empty
    constructor
    · refine List.Nodup.of_map (shardKey fileId) ?_
      rw [listed]
      exact (store.db.sorted.imp ne_of_lt).sublist (List.filter_sublist.map _)
    · intro shardIndex
      have family : bytes "Shard:" <+: shardKey fileId shardIndex := List.prefix_append _ _
      have inList : shardIndex ∈ store.getUploadedShard fileId ↔
          (store.db.get (shardKey fileId shardIndex)).isSome = true := by
        have injective : Function.Injective (shardKey fileId) := fun _ _ => shardKey_injective
        have under : (shardPrefix fileId).isPrefixOf (shardKey fileId shardIndex) = true := by
          rw [List.isPrefixOf_iff_prefix, shardKey_eq]
          exact List.prefix_append _ _
        rw [← List.mem_map_of_injective injective, listed, List.mem_map,
          Option.isSome_iff_exists]
        constructor
        · rintro ⟨⟨key, value⟩, member, rfl⟩
          exact ⟨value, OrderedMap.mem_entries_iff.mp (List.mem_filter.mp member).1⟩
        · rintro ⟨value, present⟩
          exact ⟨(_, value), List.mem_filter.mpr
            ⟨OrderedMap.mem_entries_iff.mpr present, under⟩, rfl⟩
      rw [inList, markers _ family]
      constructor
      · rintro ⟨otherIndex, fileMd5, shardMd5, written, same⟩
        obtain ⟨_, plain⟩ := (named _ written).2 _ _ _ _ rfl
        have under : shardPrefix fileId <+: shardKey fileMd5 otherIndex := by
          rw [← same, shardKey_eq]
          exact List.prefix_append _ _
        have file := eq_of_shardPrefix plain under
        subst file
        rw [shardKey_injective same]
        exact ⟨shardMd5, written⟩
      · rintro ⟨shardMd5, written⟩
        exact ⟨shardIndex, fileId, shardMd5, written, rfl⟩

/-- Two shards of a file, a shard of another file whose id goes on behind the first, and a
marker whose write fails. -/
def shardOps : List MetaOp :=
  [.saveMetaShard 10 (bytes "abc") [] true, .saveMeta sampleMeta true,
    .saveMetaShard 2 (bytes "abc") sampleMeta.md5 true, .saveMetaShard 7 (bytes "abcd") [] true,
    .saveMetaShard 3 (bytes "abc") [] false]

/-- The two shards of the file are listed. -/
theorem getUploadedShard_shardOps :
    let store := run (step compactCodec) (opened OrderedMap.empty) shardOps
    store.getUploadedShard (bytes "abc") = [10, 2] ∧
      (store.getUploadedShard (bytes "abc")).Nodup ∧
      2 ∈ store.getUploadedShard (bytes "abc") := by
  have named : ∀ op ∈ shardOps, op.NamesShards := by
    intro op member
    simp only [shardOps, List.mem_cons, List.not_mem_nil, or_false] at member
    rcases member with rfl | rfl | rfl | rfl | rfl
    · exact ⟨trivial, fun _ _ _ _ same => by cases same; decide +kernel⟩
    · exact ⟨wellFormed_sampleMeta, fun _ _ _ _ same => by cases same⟩
    · exact ⟨trivial, fun _ _ _ _ same => by cases same; decide +kernel⟩
    · exact ⟨trivial, fun _ _ _ _ same => by cases same; decide +kernel⟩
    · exact ⟨trivial, fun _ _ _ _ same => by cases same; decide +kernel⟩
  obtain ⟨distinct, exact⟩ := @getUploadedShard_exact compactCodec shardOps named (bytes "abc")
  exact ⟨by decide +kernel, distinct,
    (exact 2).mpr ⟨sampleMeta.md5, List.mem_cons_of_mem _ (List.mem_cons_of_mem _
      (List.mem_cons_self ..))⟩⟩

end MetadataStore

end Cdfs
