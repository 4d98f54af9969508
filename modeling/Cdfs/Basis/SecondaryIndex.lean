import Cdfs.Basis.OrderedMap

/-! # Secondary indexes

A table stores rows under identifiers, and an index of it maps keys computed from
the rows back to the identifiers. Every row is found through the index
(`Basis.IndexKeys.Listed`), and every entry of the index is the one of a row
(`Basis.IndexKeys.Owned`). Storing, erasing and rewriting a row keep both, when the
index changes at the key of that row alone.
-/

namespace Basis

/-- The keys of an index: the key of each row, and all keys the index may use. -/
structure IndexKeys (P R K : Type) where
  keyOf : P → R → K
  isKey : K → Prop
  isKey_keyOf : ∀ id row, isKey (keyOf id row)

namespace IndexKeys

variable {P R K : Type} [LinearOrder P]

/-- Every row has its entry. -/
def Listed (index : IndexKeys P R K) (rows : OrderedMap P R) (entries : K → Option P) : Prop :=
  ∀ id row, rows.get id = some row → entries (index.keyOf id row) = some id

/-- Every entry of the index is the one of a row. -/
def Owned (index : IndexKeys P R K) (rows : OrderedMap P R) (entries : K → Option P) : Prop :=
  ∀ key id, index.isKey key → entries key = some id →
    ∃ row, rows.get id = some row ∧ key = index.keyOf id row

/-- Two states of the index have the same entries. -/
def Same (index : IndexKeys P R K) (before after : K → Option P) : Prop :=
  ∀ key, index.isKey key → after key = before key

/-- The index changes at one key alone. -/
structure SetAt (index : IndexKeys P R K) (before after : K → Option P) (key : K)
    (value : Option P) : Prop where
  self : after key = value
  others : ∀ other, index.isKey other → other ≠ key → after other = before other

variable {index : IndexKeys P R K} {rows : OrderedMap P R} {before after : K → Option P} {id : P}
  {row changed : R}

/-- A key that no row has is free. -/
theorem Owned.eq_none (owned : index.Owned rows before) {key : K} (isKey : index.isKey key)
    (unused : ∀ id row, rows.get id = some row → index.keyOf id row ≠ key) : before key = none := by
  cases entry : before key with
  | none => rfl
  | some id =>
      obtain ⟨row, stored, keyed⟩ := owned key id isKey entry
      exact (unused id row stored keyed.symm).elim

/-- A row stored under a key that no other row has is found with the others. -/
theorem Listed.put (listed : index.Listed rows before)
    (written : index.SetAt before after (index.keyOf id row) (some id))
    (free : ∀ other found, rows.get other = some found → other ≠ id →
      index.keyOf other found ≠ index.keyOf id row) :
    index.Listed (rows.put id row) after := by
  intro other found stored
  rw [OrderedMap.get_put] at stored
  split at stored
  · rename_i same
    cases stored
    rw [← same, written.self]
  · rename_i different
    rw [written.others _ (index.isKey_keyOf other found) (free other found stored (Ne.symm different))]
    exact listed other found stored

/-- A new row takes over the entry of its key. -/
theorem Owned.put (owned : index.Owned rows before)
    (written : index.SetAt before after (index.keyOf id row) (some id))
    (fresh : rows.get id = none) : index.Owned (rows.put id row) after := by
  intro key owner isKey entry
  by_cases same : key = index.keyOf id row
  · rw [same, written.self] at entry
    cases entry
    exact ⟨row, OrderedMap.get_put_self .., same⟩
  · rw [written.others key isKey same] at entry
    obtain ⟨found, stored, keyed⟩ := owned key owner isKey entry
    have different : id ≠ owner := fun same => by
      rw [← same, fresh] at stored
      cases stored
    exact ⟨found, (OrderedMap.get_put_of_ne _ _ different).trans stored, keyed⟩

/-- Erasing a row with its entry leaves the entries of the other rows: each of them
still maps to its own row, so none was the entry erased. -/
theorem Listed.erase (listed : index.Listed rows before) (present : rows.get id = some row)
    (removed : index.SetAt before after (index.keyOf id row) none) :
    index.Listed (rows.erase id) after := by
  intro other found stored
  rw [OrderedMap.get_erase] at stored
  split at stored
  · cases stored
  · rename_i different
    have entry := listed other found stored
    have elsewhere : index.keyOf other found ≠ index.keyOf id row := fun same => by
      rw [same, listed id row present] at entry
      exact different (Option.some.inj entry)
    rw [removed.others _ (index.isKey_keyOf other found) elsewhere, entry]

/-- Erasing a row with its entry leaves no entry without a row. -/
theorem Owned.erase (owned : index.Owned rows before) (present : rows.get id = some row)
    (removed : index.SetAt before after (index.keyOf id row) none) :
    index.Owned (rows.erase id) after := by
  intro key owner isKey entry
  have elsewhere : key ≠ index.keyOf id row := fun same => by
    rw [same, removed.self] at entry
    cases entry
  rw [removed.others key isKey elsewhere] at entry
  obtain ⟨found, stored, keyed⟩ := owned key owner isKey entry
  have different : id ≠ owner := fun same => by
    rw [← same, present] at stored
    cases stored
    exact elsewhere (same ▸ keyed)
  exact ⟨found, (OrderedMap.get_erase_of_ne _ different).trans stored, keyed⟩

/-- Rewriting a row under its old key keeps the rows listed. -/
theorem Listed.rewrite (listed : index.Listed rows before) (present : rows.get id = some row)
    (keyed : index.keyOf id changed = index.keyOf id row) (same : index.Same before after) :
    index.Listed (rows.put id changed) after := by
  intro other found stored
  rw [same _ (index.isKey_keyOf other found)]
  rw [OrderedMap.get_put] at stored
  split at stored
  · rename_i equal
    cases stored
    rw [← equal, keyed]
    exact listed id row present
  · exact listed other found stored

/-- Rewriting a row under its old key keeps the entries owned. -/
theorem Owned.rewrite (owned : index.Owned rows before) (present : rows.get id = some row)
    (keyed : index.keyOf id changed = index.keyOf id row) (same : index.Same before after) :
    index.Owned (rows.put id changed) after := by
  intro key owner isKey entry
  rw [same key isKey] at entry
  obtain ⟨found, stored, named⟩ := owned key owner isKey entry
  rw [OrderedMap.get_put]
  split
  · rename_i equal
    subst equal
    rw [present] at stored
    cases stored
    exact ⟨changed, rfl, named.trans keyed.symm⟩
  · exact ⟨found, stored, named⟩

theorem Listed.congr (listed : index.Listed rows before) (same : index.Same before after) :
    index.Listed rows after :=
  fun id row stored => (same _ (index.isKey_keyOf id row)).trans (listed id row stored)

theorem Owned.congr (owned : index.Owned rows before) (same : index.Same before after) :
    index.Owned rows after :=
  fun key id isKey entry => owned key id isKey ((same key isKey).symm.trans entry)

end IndexKeys

end Basis
