import Mathlib.Data.List.Lex
import Mathlib.Order.Lex
import Mathlib.Algebra.BigOperators.Group.List.Basic
import Mathlib.Tactic

/-! # Finite maps in key order

A finite map kept as the list of its entries in strictly increasing key order,
the shape in which an ordered key-value store presents itself to a scan. The
order is a field of the structure, so two maps with the same lookups are equal
(`Basis.OrderedMap.ext_get`). Totals of a weight over the entries change by the
weight of the entry written or erased (`Basis.OrderedMap.total_put`,
`Basis.OrderedMap.total_erase`).
-/

namespace Basis

variable {K V M : Type} [LinearOrder K]

/-- A finite map as its entries in strictly increasing key order. -/
structure OrderedMap (K V : Type) [LinearOrder K] where
  entries : List (K × V)
  sorted : (entries.map Prod.fst).Pairwise (· < ·)

namespace OrderedMap

/-- The value stored for a key in an entry list. -/
def lookupEntry (key : K) : List (K × V) → Option V
  | [] => none
  | entry :: rest => if entry.1 = key then some entry.2 else lookupEntry key rest

/-- Write an entry at its place in the key order, replacing an older value. -/
def insertEntry (key : K) (value : V) : List (K × V) → List (K × V)
  | [] => [(key, value)]
  | entry :: rest =>
      if key < entry.1 then (key, value) :: entry :: rest
      else if entry.1 = key then (key, value) :: rest
      else entry :: insertEntry key value rest

/-- Drop the entry of a key. -/
def eraseEntry (key : K) : List (K × V) → List (K × V)
  | [] => []
  | entry :: rest => if entry.1 = key then rest else entry :: eraseEntry key rest

/-- Inserting adds at most its own key. -/
theorem mem_keys_insertEntry {key other : K} {value : V} {entries : List (K × V)} :
    other ∈ (insertEntry key value entries).map Prod.fst ↔
      other = key ∨ other ∈ entries.map Prod.fst := by
  induction entries with
  | nil => simp [insertEntry]
  | cons entry rest ih =>
      simp only [insertEntry]
      split
      · simp
      · split
        · rename_i same
          simp [← same]
        · simp only [List.map_cons, List.mem_cons, ih]
          tauto

/-- Inserting keeps the keys in order. -/
theorem sorted_insertEntry {key : K} {value : V} {entries : List (K × V)}
    (sorted : (entries.map Prod.fst).Pairwise (· < ·)) :
    ((insertEntry key value entries).map Prod.fst).Pairwise (· < ·) := by
  induction entries with
  | nil => simp [insertEntry]
  | cons entry rest ih =>
      simp only [List.map_cons, List.pairwise_cons] at sorted
      simp only [insertEntry]
      split
      · rename_i below
        simp only [List.map_cons, List.pairwise_cons, List.mem_cons, forall_eq_or_imp]
        exact ⟨⟨below, fun other member => below.trans (sorted.1 other member)⟩, sorted⟩
      · split
        · rename_i same
          subst same
          exact List.pairwise_cons.mpr sorted
        · rename_i above different
          refine List.pairwise_cons.mpr ⟨fun other member => ?_, ih sorted.2⟩
          rcases mem_keys_insertEntry.mp member with rfl | older
          · exact lt_of_le_of_ne (not_lt.mp above) different
          · exact sorted.1 other older

/-- Erasing leaves the other entries in their order. -/
theorem eraseEntry_sublist (key : K) (entries : List (K × V)) :
    (eraseEntry key entries).Sublist entries := by
  induction entries with
  | nil => exact .slnil
  | cons entry rest ih =>
      simp only [eraseEntry]
      split
      · exact List.sublist_cons_self entry rest
      · exact ih.cons_cons entry

/-- A key below all keys of a list is not in it. -/
theorem lookupEntry_eq_none_of_lt {key : K} {entries : List (K × V)}
    (below : ∀ other ∈ entries.map Prod.fst, key < other) : lookupEntry key entries = none := by
  induction entries with
  | nil => rfl
  | cons entry rest ih =>
      have different : entry.1 ≠ key := fun same =>
        lt_irrefl key (same ▸ below entry.1 (List.mem_cons_self ..))
      simp only [lookupEntry, different, ↓reduceIte]
      exact ih fun other member => below other (List.mem_cons_of_mem _ member)

/-- What is found after inserting. -/
theorem lookupEntry_insertEntry (key other : K) (value : V) (entries : List (K × V)) :
    lookupEntry other (insertEntry key value entries) =
      if key = other then some value else lookupEntry other entries := by
  induction entries with
  | nil => simp only [insertEntry, lookupEntry]
  | cons entry rest ih =>
      simp only [insertEntry]
      split
      · simp only [lookupEntry]
      · split
        · rename_i same
          simp only [lookupEntry, same]
          by_cases equal : key = other <;> simp only [equal, ↓reduceIte]
        · rename_i different
          simp only [lookupEntry, ih]
          by_cases first : entry.1 = other
          · subst first
            simp only [↓reduceIte, Ne.symm different]
          · simp only [first, ↓reduceIte]

/-- What is found after erasing; the keys are distinct as they are in order. -/
theorem lookupEntry_eraseEntry {key other : K} {entries : List (K × V)}
    (sorted : (entries.map Prod.fst).Pairwise (· < ·)) :
    lookupEntry other (eraseEntry key entries) =
      if key = other then none else lookupEntry other entries := by
  induction entries with
  | nil => simp only [eraseEntry, lookupEntry, ite_self]
  | cons entry rest ih =>
      simp only [List.map_cons, List.pairwise_cons] at sorted
      simp only [eraseEntry]
      split
      · rename_i same
        subst same
        by_cases equal : entry.1 = other
        · subst equal
          simp only [↓reduceIte]
          exact lookupEntry_eq_none_of_lt sorted.1
        · simp only [lookupEntry, equal, ↓reduceIte]
      · rename_i different
        simp only [lookupEntry, ih sorted.2]
        by_cases first : entry.1 = other
        · subst first
          simp only [↓reduceIte, Ne.symm different]
        · simp only [first, ↓reduceIte]

/-- In an ordered list an entry is there if and only if it is found. -/
theorem mem_iff_lookupEntry {key : K} {value : V} {entries : List (K × V)}
    (sorted : (entries.map Prod.fst).Pairwise (· < ·)) :
    (key, value) ∈ entries ↔ lookupEntry key entries = some value := by
  induction entries with
  | nil => simp [lookupEntry]
  | cons entry rest ih =>
      simp only [List.map_cons, List.pairwise_cons] at sorted
      simp only [List.mem_cons, lookupEntry, ih sorted.2]
      by_cases first : entry.1 = key
      · subst first
        simp only [↓reduceIte, Option.some.injEq, Prod.ext_iff, true_and,
          lookupEntry_eq_none_of_lt sorted.1, reduceCtorEq, or_false, eq_comm]
      · have other : (key, value) ≠ entry := fun same => first (congrArg Prod.fst same).symm
        simp only [other, first, ↓reduceIte, false_or]

/-- The map without entries. -/
def empty : OrderedMap K V := ⟨[], List.Pairwise.nil⟩

instance : Inhabited (OrderedMap K V) := ⟨empty⟩

/-- The value stored for a key. -/
def get (map : OrderedMap K V) (key : K) : Option V := lookupEntry key map.entries

/-- Store a value for a key, replacing an older one. -/
def put (map : OrderedMap K V) (key : K) (value : V) : OrderedMap K V :=
  ⟨insertEntry key value map.entries, sorted_insertEntry map.sorted⟩

/-- Remove a key. -/
def erase (map : OrderedMap K V) (key : K) : OrderedMap K V :=
  ⟨eraseEntry key map.entries, map.sorted.sublist ((eraseEntry_sublist key _).map _)⟩

/-- Keep the entries whose key satisfies a predicate. -/
def filterKeys (map : OrderedMap K V) (keep : K → Bool) : OrderedMap K V :=
  ⟨map.entries.filter fun entry => keep entry.1,
    map.sorted.sublist (List.filter_sublist.map _)⟩

/-- The key has a value. -/
def contains (map : OrderedMap K V) (key : K) : Bool := (map.get key).isSome

@[simp] theorem get_empty (key : K) : (empty : OrderedMap K V).get key = none := rfl

/-- What is found after putting an entry. -/
theorem get_put (map : OrderedMap K V) (key other : K) (value : V) [Decidable (key = other)] :
    (map.put key value).get other = if key = other then some value else map.get other := by
  refine (lookupEntry_insertEntry key other value map.entries).trans ?_
  by_cases same : key = other <;> simp only [same, ↓reduceIte, get]

@[simp] theorem get_put_self (map : OrderedMap K V) (key : K) (value : V) :
    (map.put key value).get key = some value := by
  rw [get_put, if_pos rfl]

theorem get_put_of_ne (map : OrderedMap K V) {key other : K} (value : V) (different : key ≠ other) :
    (map.put key value).get other = map.get other := by
  rw [get_put, if_neg different]

/-- What is found after erasing a key. -/
theorem get_erase (map : OrderedMap K V) (key other : K) [Decidable (key = other)] :
    (map.erase key).get other = if key = other then none else map.get other := by
  refine (lookupEntry_eraseEntry map.sorted).trans ?_
  by_cases same : key = other <;> simp only [same, ↓reduceIte, get]

@[simp] theorem get_erase_self (map : OrderedMap K V) (key : K) :
    (map.erase key).get key = none := by
  rw [get_erase, if_pos rfl]

theorem get_erase_of_ne (map : OrderedMap K V) {key other : K} (different : key ≠ other) :
    (map.erase key).get other = map.get other := by
  rw [get_erase, if_neg different]

/-- The entries are exactly the stored pairs. -/
theorem mem_entries_iff {map : OrderedMap K V} {key : K} {value : V} :
    (key, value) ∈ map.entries ↔ map.get key = some value :=
  mem_iff_lookupEntry map.sorted

/-- What is found among the entries kept. -/
theorem get_filterKeys (map : OrderedMap K V) (keep : K → Bool) (key : K) :
    (map.filterKeys keep).get key = if keep key then map.get key else none := by
  apply Option.ext
  intro value
  rw [← mem_entries_iff]
  simp only [filterKeys, List.mem_filter, mem_entries_iff]
  by_cases kept : keep key = true
  · simp only [kept, and_true, ↓reduceIte]
  · simp only [kept, and_false, Bool.false_eq_true, ↓reduceIte, reduceCtorEq]

section FilterMap

variable {W : Type}

omit [LinearOrder K] in
/-- Reading the entries keeps their keys in order. -/
theorem sublist_keys_filterMap (read : K → V → Option W) (entries : List (K × V)) :
    ((entries.filterMap fun entry => (read entry.1 entry.2).map (entry.1, ·)).map Prod.fst).Sublist
      (entries.map Prod.fst) := by
  induction entries with
  | nil => exact .slnil
  | cons entry rest ih =>
      rw [List.filterMap_cons]
      cases read entry.1 entry.2 with
      | none => exact ih.cons _
      | some value => exact ih.cons_cons _

/-- Read every entry, dropping those that cannot be read. -/
def filterMap (map : OrderedMap K V) (read : K → V → Option W) : OrderedMap K W :=
  ⟨map.entries.filterMap fun entry => (read entry.1 entry.2).map (entry.1, ·),
    map.sorted.sublist (sublist_keys_filterMap read map.entries)⟩

/-- What is found among the entries read. -/
theorem get_filterMap (map : OrderedMap K V) (read : K → V → Option W) (key : K) :
    (map.filterMap read).get key = (map.get key).bind (read key) := by
  apply Option.ext
  intro value
  rw [← mem_entries_iff, Option.bind_eq_some_iff]
  simp only [filterMap, List.mem_filterMap, Option.map_eq_some_iff, Prod.mk.injEq]
  constructor
  · rintro ⟨⟨found, text⟩, member, result, readable, rfl, rfl⟩
    exact ⟨text, mem_entries_iff.mp member, readable⟩
  · rintro ⟨text, stored, readable⟩
    exact ⟨(key, text), mem_entries_iff.mpr stored, value, readable, rfl, rfl⟩

end FilterMap

/-- Two entry lists in strict key order with the same members are equal. -/
theorem entries_eq_of_mem_iff {left right : List (K × V)}
    (leftSorted : (left.map Prod.fst).Pairwise (· < ·))
    (rightSorted : (right.map Prod.fst).Pairwise (· < ·))
    (same : ∀ entry, entry ∈ left ↔ entry ∈ right) : left = right := by
  have strict {entries : List (K × V)} (sorted : (entries.map Prod.fst).Pairwise (· < ·)) :
      entries.Pairwise fun first second => first.1 < second.1 := List.pairwise_map.mp sorted
  have nodup {entries : List (K × V)} (sorted : (entries.map Prod.fst).Pairwise (· < ·)) :
      entries.Nodup := by
    refine (strict sorted).imp ?_
    rintro first second below rfl
    exact lt_irrefl _ below
  have permutation : left.Perm right :=
    (List.perm_ext_iff_of_nodup (nodup leftSorted) (nodup rightSorted)).mpr same
  exact permutation.eq_of_pairwise (fun first second _ _ below above =>
    absurd (below.trans above) (lt_irrefl _)) (strict leftSorted) (strict rightSorted)

/-- A map is determined by its lookups. -/
theorem ext_get {left right : OrderedMap K V} (same : ∀ key, left.get key = right.get key) :
    left = right := by
  have entries : left.entries = right.entries := by
    apply entries_eq_of_mem_iff left.sorted right.sorted
    rintro ⟨key, value⟩
    rw [mem_entries_iff, mem_entries_iff, same]
  cases left
  cases right
  cases entries
  rfl

section Override

/-- The entries of the second map written over the first. -/
def override (base newer : OrderedMap K V) : OrderedMap K V :=
  newer.entries.foldl (fun map entry => map.put entry.1 entry.2) base

/-- Writing a list of entries over a map. -/
theorem get_foldl_put {base : OrderedMap K V} {entries : List (K × V)}
    (sorted : (entries.map Prod.fst).Pairwise (· < ·)) (key : K) :
    (entries.foldl (fun map entry => map.put entry.1 entry.2) base).get key =
      (lookupEntry key entries).or (base.get key) := by
  induction entries generalizing base with
  | nil => rfl
  | cons entry rest ih =>
      obtain ⟨below, sorted⟩ := List.pairwise_cons.mp sorted
      rw [List.foldl_cons, ih sorted, get_put]
      by_cases same : entry.1 = key
      · rw [if_pos same, lookupEntry_eq_none_of_lt (same ▸ below), lookupEntry, if_pos same]
        rfl
      · rw [if_neg same, lookupEntry, if_neg same]

/-- The second map counts where it has a value. -/
theorem get_override (base newer : OrderedMap K V) (key : K) :
    (base.override newer).get key = (newer.get key).or (base.get key) :=
  get_foldl_put newer.sorted key

@[simp] theorem override_empty (base : OrderedMap K V) : base.override empty = base := rfl

/-- A later write goes through to the map written over. -/
theorem override_put (base newer : OrderedMap K V) (key : K) (value : V) :
    base.override (newer.put key value) = (base.override newer).put key value := by
  apply ext_get
  intro other
  rw [get_override, get_put, get_put, get_override]
  by_cases same : key = other
  · rw [if_pos same, if_pos same]
    rfl
  · rw [if_neg same, if_neg same]

end Override

section Total

variable [AddCommMonoid M]

/-- The sum of a weight over the entries. -/
def total (weight : K → V → M) (map : OrderedMap K V) : M :=
  (map.entries.map fun entry => weight entry.1 entry.2).sum

@[simp] theorem total_empty (weight : K → V → M) :
    total weight (empty : OrderedMap K V) = 0 := rfl

/-- The weight of an entry and of the others. -/
theorem sum_eraseEntry (weight : K → V → M) {key : K} {value : V} {entries : List (K × V)}
    (stored : lookupEntry key entries = some value) :
    (entries.map fun entry => weight entry.1 entry.2).sum =
      weight key value + ((eraseEntry key entries).map fun entry => weight entry.1 entry.2).sum := by
  induction entries with
  | nil => cases stored
  | cons entry rest ih =>
      simp only [lookupEntry] at stored
      by_cases first : entry.1 = key
      · simp only [first, ↓reduceIte, Option.some.injEq] at stored
        simp only [eraseEntry, first, ↓reduceIte, List.map_cons, List.sum_cons, stored]
      · simp only [first, ↓reduceIte] at stored
        simp only [eraseEntry, first, ↓reduceIte, List.map_cons, List.sum_cons, ih stored]
        rw [add_left_comm]

/-- Erasing a stored key takes its weight off the total. -/
theorem total_erase (weight : K → V → M) {map : OrderedMap K V} {key : K} {value : V}
    (stored : map.get key = some value) :
    total weight map = weight key value + total weight (map.erase key) :=
  sum_eraseEntry weight stored

/-- Erasing a key that is not stored changes nothing. -/
theorem erase_of_get_none {map : OrderedMap K V} {key : K} (absent : map.get key = none) :
    map.erase key = map := by
  apply ext_get
  intro other
  rw [get_erase]
  by_cases same : key = other
  · rw [if_pos same, ← same, absent]
  · rw [if_neg same]

/-- Writing a key that is then erased leaves the map without that key. -/
theorem erase_put (map : OrderedMap K V) (key : K) (value : V) :
    (map.put key value).erase key = map.erase key := by
  apply ext_get
  intro other
  simp only [get_erase, get_put]
  by_cases same : key = other <;> simp only [same, ↓reduceIte]

/-- Writing a key adds the weight of the new entry to what the other entries
weigh. -/
theorem total_put (weight : K → V → M) (map : OrderedMap K V) (key : K) (value : V) :
    total weight (map.put key value) = weight key value + total weight (map.erase key) := by
  rw [total_erase weight (map.get_put_self key value), erase_put]

/-- The number of entries, as the total of the weight one. -/
theorem total_one (map : OrderedMap K V) : total (fun _ _ => 1) map = map.entries.length := by
  unfold total
  rw [List.map_const', List.sum_replicate, smul_eq_mul, mul_one]

/-- An additive map commutes with the total. -/
theorem map_total {N : Type} [AddCommMonoid N] (additive : M →+ N) (weight : K → V → M)
    (map : OrderedMap K V) :
    additive (total weight map) = total (fun key value => additive (weight key value)) map := by
  unfold total
  rw [map_list_sum, List.map_map]
  rfl

end Total

end OrderedMap

end Basis
