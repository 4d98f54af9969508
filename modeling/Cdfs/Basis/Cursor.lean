import Cdfs.Basis.Bytes
import Cdfs.Basis.OrderedMap

/-! # Cursors over an ordered map

The iterator of an ordered key-value store: it is sought to the first key that is
not below a target, or to the last entry, and then moves one entry at a time in
either direction until it has no entry left. What a cursor still yields in a
direction is a list (`Basis.Cursor.forward`, `Basis.Cursor.backward`), and the
lists behind each way of placing it are filters of the entries. The keys that
start with a byte string form an interval of the key order
(`Basis.isPrefix_iff_mem_interval`), so a scan that stops at the first key without
the prefix sees all of them.
-/

namespace Basis

/-- A cursor at an entry: the entries in front of it, nearest first, the entry, and
the entries behind it. -/
structure Cursor (K V : Type) where
  before : List (K × V)
  entry : K × V
  after : List (K × V)

namespace Cursor

variable {K V : Type}

/-- Move to the entry behind; none when the cursor is no longer valid. -/
def next (cursor : Cursor K V) : Option (Cursor K V) :=
  match cursor.after with
  | [] => none
  | entry :: after => some ⟨cursor.entry :: cursor.before, entry, after⟩

/-- Move to the entry in front. -/
def prev (cursor : Cursor K V) : Option (Cursor K V) :=
  match cursor.before with
  | [] => none
  | entry :: before => some ⟨before, entry, cursor.entry :: cursor.after⟩

/-- The entries a cursor yields when it only moves on. -/
def forward : Option (Cursor K V) → List (K × V)
  | none => []
  | some cursor => cursor.entry :: cursor.after

/-- The entries a cursor yields when it only moves back. -/
def backward : Option (Cursor K V) → List (K × V)
  | none => []
  | some cursor => cursor.entry :: cursor.before

theorem backward_prev (cursor : Cursor K V) :
    backward (some cursor) = cursor.entry :: backward cursor.prev := by
  obtain ⟨before, entry, after⟩ := cursor
  cases before with
  | nil => rfl
  | cons => rfl

end Cursor

namespace OrderedMap

variable {K V : Type} [LinearOrder K]

/-- The entries with a key below a bound. -/
def below (map : OrderedMap K V) (bound : K) : List (K × V) :=
  map.entries.filter fun entry => entry.1 < bound

theorem mem_below {map : OrderedMap K V} {bound : K} {entry : K × V} :
    entry ∈ map.below bound ↔ entry ∈ map.entries ∧ entry.1 < bound := by
  rw [below, List.mem_filter, decide_eq_true_eq]

/-- A filter that keeps nothing from a bound on can be taken below it. -/
theorem filter_below {map : OrderedMap K V} {bound : K} {keep : K × V → Bool}
    (kept : ∀ entry, keep entry = true → entry.1 < bound) :
    (map.below bound).filter keep = map.entries.filter keep := by
  rw [below, List.filter_filter]
  refine List.filter_congr fun entry _ => ?_
  rw [Bool.eq_iff_iff, Bool.and_eq_true, decide_eq_true_eq]
  exact and_iff_left_of_imp (kept entry)

/-- Look for the first key not below the target, collecting the entries passed. -/
def seekEntry (target : K) (before : List (K × V)) : List (K × V) → Option (Cursor K V)
  | [] => none
  | entry :: rest =>
      if target ≤ entry.1 then some ⟨before, entry, rest⟩
      else seekEntry target (entry :: before) rest

/-- `Seek`. -/
def seek (map : OrderedMap K V) (target : K) : Option (Cursor K V) :=
  seekEntry target [] map.entries

/-- `SeekToLast`. -/
def seekToLast (map : OrderedMap K V) : Option (Cursor K V) :=
  match map.entries.reverse with
  | [] => none
  | entry :: before => some ⟨before, entry, []⟩

/-- From the last entry back come all entries, whatever is above them. -/
theorem backward_seekToLast {map : OrderedMap K V} {bound : K}
    (all : ∀ entry ∈ map.entries, entry.1 < bound) :
    Cursor.backward map.seekToLast = (map.below bound).reverse := by
  have everything : map.below bound = map.entries :=
    List.filter_eq_self.mpr fun entry member => decide_eq_true (all entry member)
  rw [everything]
  unfold seekToLast
  cases map.entries.reverse with
  | nil => rfl
  | cons => rfl

/-- A search splits the entries at the target. -/
theorem seekEntry_spec (target : K) (before : List (K × V)) {entries : List (K × V)}
    (sorted : (entries.map Prod.fst).Pairwise (· < ·)) :
    Cursor.forward (seekEntry target before entries) =
        entries.filter (fun entry => target ≤ entry.1) ∧
      ∀ cursor, seekEntry target before entries = some cursor →
        cursor.before = (entries.filter fun entry => entry.1 < target).reverse ++ before := by
  induction entries generalizing before with
  | nil => exact ⟨rfl, fun cursor found => nomatch found⟩
  | cons entry rest ih =>
      simp only [List.map_cons, List.pairwise_cons] at sorted
      unfold seekEntry
      by_cases reached : target ≤ entry.1
      · have above : ∀ other ∈ rest, target ≤ other.1 := fun other member =>
          reached.trans (sorted.1 other.1 (List.mem_map_of_mem member)).le
        have none_below : (rest.filter fun other => decide (other.1 < target)) = [] :=
          List.filter_eq_nil_iff.mpr fun other member => by
            simpa only [decide_eq_true_eq, not_lt] using above other member
        rw [if_pos reached]
        constructor
        · rw [List.filter_cons_of_pos (by simpa only [decide_eq_true_eq] using reached),
            List.filter_eq_self.mpr fun other member => by
              simpa only [decide_eq_true_eq] using above other member]
          rfl
        · intro cursor found
          cases found
          rw [List.filter_cons_of_neg (by simpa only [decide_eq_true_eq, not_lt] using reached),
            none_below]
          rfl
      · obtain ⟨ahead, behind⟩ := ih (entry :: before) sorted.2
        rw [if_neg reached]
        constructor
        · rw [ahead, List.filter_cons_of_neg (by simpa only [decide_eq_true_eq] using reached)]
        · intro cursor found
          rw [behind cursor found, List.filter_cons_of_pos
            (by simpa only [decide_eq_true_eq, not_le] using reached), List.reverse_cons,
            List.append_assoc, List.singleton_append]

/-- From a sought position on come the entries that are not below the target. -/
theorem forward_seek (map : OrderedMap K V) (target : K) :
    Cursor.forward (map.seek target) = map.entries.filter fun entry => target ≤ entry.1 :=
  (seekEntry_spec target [] map.sorted).1

/-- Stepping back from a sought position leads to the entries below the target. -/
theorem backward_prev_seek {map : OrderedMap K V} {target : K} {cursor : Cursor K V}
    (found : map.seek target = some cursor) :
    Cursor.backward cursor.prev = (map.below target).reverse := by
  have behind := (seekEntry_spec target [] map.sorted).2 cursor found
  rw [List.append_nil] at behind
  rw [below, ← behind, ← (List.cons.inj (Cursor.backward_prev cursor)).2]

/-- A search without result means that every key is below the target. -/
theorem seek_eq_none_iff {map : OrderedMap K V} {target : K} :
    map.seek target = none ↔ ∀ entry ∈ map.entries, entry.1 < target := by
  have ahead := forward_seek map target
  constructor
  · intro missed
    rw [missed] at ahead
    intro entry member
    have absent := List.filter_eq_nil_iff.mp ahead.symm entry member
    simpa only [decide_eq_true_eq, not_le] using absent
  · intro below
    rw [List.filter_eq_nil_iff.mpr fun entry member => by
      simpa only [decide_eq_true_eq, not_le] using below entry member] at ahead
    cases sought : map.seek target with
    | none => rfl
    | some cursor =>
        rw [sought] at ahead
        cases ahead

end OrderedMap

section Scan

variable {α : Type}

/-- A scan that stops at the first element without a property sees all elements with
it, when none comes after an element without it. -/
theorem takeWhile_eq_filter {keep : α → Bool} {elements : List α}
    (closed : elements.Pairwise fun first second => keep second = true → keep first = true) :
    elements.takeWhile keep = elements.filter keep := by
  induction elements with
  | nil => rfl
  | cons first rest ih =>
      rw [List.pairwise_cons] at closed
      by_cases kept : keep first = true
      · rw [List.takeWhile_cons_of_pos kept, List.filter_cons_of_pos kept, ih closed.2]
      · have dropped : rest.filter keep = [] := List.filter_eq_nil_iff.mpr
          fun other member later => kept (closed.1 other member later)
        rw [List.takeWhile_cons_of_neg kept, List.filter_cons_of_neg kept, dropped]

end Scan

/-- Cutting a text at a separator that the piece behind the cut does not contain. -/
theorem prefix_of_append_separator {α : Type} {separator : α} {front rest before after : List α}
    (foreign : separator ∉ after) (same : front ++ separator :: rest = before ++ separator :: after) :
    front = before ∨ front ++ [separator] <+: before := by
  rcases List.append_eq_append_iff.mp same with ⟨gap, rfl, behind⟩ | ⟨gap, rfl, behind⟩
  · cases gap with
    | nil => exact .inl (List.append_nil front).symm
    | cons first gap =>
        cases (List.cons.inj behind).1
        exact .inr ⟨gap, by rw [List.append_assoc, List.singleton_append]⟩
  · cases gap with
    | nil => exact .inl (List.append_nil before)
    | cons first gap =>
        refine (foreign ?_).elim
        rw [(List.cons.inj behind).2]
        exact List.mem_append_right _ (List.mem_cons_self ..)

section PrefixInterval

/-- The last byte increased by one. -/
def bumpLast (text : Bytes) : Bytes :=
  match text.getLast? with
  | none => []
  | some last => text.dropLast ++ [last + 1]

theorem bumpLast_concat (front : Bytes) (last : UInt8) :
    bumpLast (front ++ [last]) = front ++ [last + 1] := by
  unfold bumpLast
  rw [List.getLast?_concat, List.dropLast_concat]

/-- A byte between one byte and its successor is that byte. -/
theorem byte_eq_iff_between {byte last : UInt8} (room : last ≠ 255) :
    last = byte ↔ last ≤ byte ∧ byte < last + 1 := by
  have top : last.toNat ≠ 255 := fun same => room (UInt8.toNat_inj.mp same)
  have bound := last.toNat_lt
  rw [UInt8.le_iff_toNat_le, UInt8.lt_iff_toNat_lt, ← UInt8.toNat_inj, UInt8.toNat_add,
    show (1 : UInt8).toNat = 1 from rfl]
  omega

/-- Comparing behind a common front. -/
theorem append_lt_append_iff (front : Bytes) {first second : Bytes} :
    front ++ first < front ++ second ↔ first < second := by
  induction front with
  | nil => rfl
  | cons byte front ih =>
      rw [List.cons_append, List.cons_append, List.cons_lt_cons_iff]
      simp only [lt_irrefl, true_and, false_or, ih]

/-- The keys starting with a byte string are an interval of the byte order. -/
theorem isPrefix_iff_mem_interval (front : Bytes) {last : UInt8} (room : last ≠ 255)
    (key : Bytes) :
    front ++ [last] <+: key ↔ front ++ [last] ≤ key ∧ key < front ++ [last + 1] := by
  induction front generalizing key with
  | nil =>
      cases key with
      | nil => simp [← not_lt]
      | cons byte rest =>
          rw [List.nil_append, List.nil_append, List.cons_prefix_cons, ← not_lt,
            List.cons_lt_cons_iff, List.cons_lt_cons_iff, byte_eq_iff_between room, ← not_lt]
          simp only [List.nil_prefix, and_true, List.not_lt_nil, and_false, or_false]
  | cons first front ih =>
      cases key with
      | nil => simp [← not_lt]
      | cons byte rest =>
          have between := ih rest
          rw [← not_lt] at between ⊢
          simp only [List.cons_append, List.cons_prefix_cons, List.cons_lt_cons_iff, between]
          constructor
          · rintro ⟨rfl, above, below⟩
            refine ⟨?_, .inr ⟨rfl, below⟩⟩
            rintro (smaller | ⟨_, smaller⟩)
            · exact lt_irrefl _ smaller
            · exact above smaller
          · rintro ⟨above, below⟩
            rcases below with larger | ⟨rfl, below⟩
            · exact (above (.inl larger)).elim
            · exact ⟨rfl, fun smaller => above (.inr ⟨rfl, smaller⟩), below⟩

variable {V : Type} {front : Bytes} {last : UInt8}

/-- Moving on from the first key that is not below a prefix, as long as the keys
start with it, yields the entries under the prefix. -/
theorem takeWhile_forward_seek (map : OrderedMap Bytes V) (room : last ≠ 255) :
    (Cursor.forward (map.seek (front ++ [last]))).takeWhile
        (fun entry => (front ++ [last]).isPrefixOf entry.1) =
      map.entries.filter fun entry => (front ++ [last]).isPrefixOf entry.1 := by
  have strict : map.entries.Pairwise fun first second => first.1 < second.1 :=
    List.pairwise_map.mp map.sorted
  rw [OrderedMap.forward_seek, takeWhile_eq_filter, List.filter_filter]
  · refine List.filter_congr fun entry _ => ?_
    rw [Bool.eq_iff_iff, Bool.and_eq_true, List.isPrefixOf_iff_prefix, decide_eq_true_eq]
    exact and_iff_left_of_imp fun under => ((isPrefix_iff_mem_interval front room _).mp under).1
  · refine ((strict.filter _).imp_of_mem fun first _ ordered under => ?_)
    rw [List.isPrefixOf_iff_prefix, isPrefix_iff_mem_interval front room] at under ⊢
    exact ⟨of_decide_eq_true (List.mem_filter.mp first).2, ordered.trans under.2⟩

/-- Moving back from the last key below the end of a prefix interval, as long as the
keys start with the prefix, yields the entries under the prefix in reverse. -/
theorem takeWhile_reverse_below (map : OrderedMap Bytes V) (room : last ≠ 255) :
    ((map.below (front ++ [last + 1])).reverse).takeWhile
        (fun entry => (front ++ [last]).isPrefixOf entry.1) =
      (map.entries.filter fun entry => (front ++ [last]).isPrefixOf entry.1).reverse := by
  have strict : map.entries.Pairwise fun first second => first.1 < second.1 :=
    List.pairwise_map.mp map.sorted
  rw [takeWhile_eq_filter, List.filter_reverse, OrderedMap.filter_below]
  · intro entry under
    exact ((isPrefix_iff_mem_interval front room _).mp (List.isPrefixOf_iff_prefix.mp under)).2
  · rw [List.pairwise_reverse]
    refine (strict.sublist List.filter_sublist).imp_of_mem fun _ second ordered under => ?_
    rw [List.isPrefixOf_iff_prefix, isPrefix_iff_mem_interval front room] at under ⊢
    exact ⟨under.1.trans ordered.le, (OrderedMap.mem_below.mp second).2⟩

end PrefixInterval

end Basis
