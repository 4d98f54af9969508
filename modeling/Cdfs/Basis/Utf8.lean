import Cdfs.Basis.Json
import Cdfs.Basis.Within

/-! # Parts of UTF-8 text

Text stays UTF-8 when ASCII characters are left out of it (`Basis.Thinned`), and what an
ASCII character starts inside it is UTF-8 again.
-/

namespace Basis

/-- The second text is the first one without some of its ASCII characters. -/
inductive Thinned : Bytes → Bytes → Prop where
  | nil : Thinned [] []
  | keep {first second : Bytes} (byte : UInt8) (thinned : Thinned first second) :
      Thinned (byte :: first) (byte :: second)
  | drop {first second : Bytes} {byte : UInt8} (ascii : byte ≤ 0x7F) (thinned : Thinned first second) :
      Thinned (byte :: first) second

namespace Thinned

/-- Nothing is taken out. -/
theorem refl (text : Bytes) : Thinned text text := by
  induction text with
  | nil => exact .nil
  | cons byte text ih => exact ih.keep byte

/-- Characters are taken out of both parts. -/
theorem append {first second left right : Bytes} (front : Thinned first left)
    (back : Thinned second right) : Thinned (first ++ second) (left ++ right) := by
  induction front with
  | nil => exact back
  | keep byte _ ih => exact ih.keep byte
  | drop ascii _ ih => exact ih.drop ascii

/-- ASCII text can be left out altogether. -/
theorem of_ascii {text : Bytes} (ascii : ∀ byte ∈ text, byte ≤ 0x7F) : Thinned text [] := by
  induction text with
  | nil => exact .nil
  | cons byte text ih =>
      exact (ih fun other member => ascii other (List.mem_cons_of_mem _ member)).drop
        (ascii byte List.mem_cons_self)

/-- Filtering drops what the filter refuses. -/
theorem filter {kept : UInt8 → Bool} (ascii : ∀ byte, kept byte = false → byte ≤ 0x7F)
    (text : Bytes) : Thinned text (text.filter kept) := by
  induction text with
  | nil => exact .nil
  | cons byte text ih =>
      cases decided : kept byte with
      | true =>
          rw [List.filter_cons_of_pos decided]
          exact ih.keep byte
      | false =>
          rw [List.filter_cons_of_neg (Bool.eq_false_iff.mp decided)]
          exact ih.drop (ascii byte decided)

/-- A byte that is not ASCII stays. -/
theorem cons_of_not_ascii {byte : UInt8} {first second : Bytes} (thinned : Thinned (byte :: first) second)
    (other : ¬ byte ≤ 0x7F) : ∃ rest, second = byte :: rest ∧ Thinned first rest := by
  cases thinned with
  | keep _ thinned => exact ⟨_, rfl, thinned⟩
  | drop ascii => exact absurd ascii other

/-- The tail of a character is not taken out without its head. -/
theorem cons_of_isTail {byte : UInt8} {first second : Bytes} (thinned : Thinned (byte :: first) second)
    (tail : isTail byte = true) : ∃ rest, second = byte :: rest ∧ Thinned first rest := by
  apply thinned.cons_of_not_ascii
  have high : 0x80 ≤ byte := of_decide_eq_true (Bool.and_eq_true_iff.mp tail).1
  exact fun ascii => absurd (UInt8.le_trans high ascii) (by decide)

end Thinned

/-- Text without some of its ASCII characters is still UTF-8: the bytes of the longer
characters stay together. -/
theorem validUtf8_thinned {first second : Bytes} (thinned : Thinned first second)
    (valid : validUtf8 first = true) : validUtf8 second = true := by
  induction first using validUtf8.induct generalizing second with
  | case1 =>
      cases thinned
      rfl
  | case2 a rest one ih =>
      unfold validUtf8 at valid
      rw [if_pos one] at valid
      cases thinned with
      | keep _ thinned =>
          unfold validUtf8
          rw [if_pos one]
          exact ih thinned valid
      | drop _ thinned => exact ih thinned valid
  | case3 a one two b rest ih =>
      unfold validUtf8 at valid
      rw [if_neg one, if_pos two] at valid
      obtain ⟨tail, later⟩ := Bool.and_eq_true_iff.mp valid
      obtain ⟨_, rfl, second⟩ := thinned.cons_of_not_ascii one
      obtain ⟨_, rfl, more⟩ := second.cons_of_isTail tail
      unfold validUtf8
      rw [if_neg one, if_pos two]
      exact Bool.and_eq_true_iff.mpr ⟨tail, ih more later⟩
  | case5 a one two three b c rest ih =>
      unfold validUtf8 at valid
      rw [if_neg one, if_neg two, if_pos three] at valid
      obtain ⟨tails, later⟩ := Bool.and_eq_true_iff.mp valid
      have both := tails
      simp only [Bool.and_eq_true] at both
      obtain ⟨_, rfl, second⟩ := thinned.cons_of_not_ascii one
      obtain ⟨_, rfl, third⟩ := second.cons_of_isTail both.1.1.1
      obtain ⟨_, rfl, more⟩ := third.cons_of_isTail both.1.1.2
      unfold validUtf8
      rw [if_neg one, if_neg two, if_pos three]
      exact Bool.and_eq_true_iff.mpr ⟨tails, ih more later⟩
  | case7 a one two three four b c d rest ih =>
      unfold validUtf8 at valid
      rw [if_neg one, if_neg two, if_neg three, if_pos four] at valid
      obtain ⟨tails, later⟩ := Bool.and_eq_true_iff.mp valid
      have all := tails
      simp only [Bool.and_eq_true] at all
      obtain ⟨_, rfl, second⟩ := thinned.cons_of_not_ascii one
      obtain ⟨_, rfl, third⟩ := second.cons_of_isTail all.1.1.1.1
      obtain ⟨_, rfl, fourth⟩ := third.cons_of_isTail all.1.1.1.2
      obtain ⟨_, rfl, more⟩ := fourth.cons_of_isTail all.1.1.2
      unfold validUtf8
      rw [if_neg one, if_neg two, if_neg three, if_pos four]
      exact Bool.and_eq_true_iff.mpr ⟨tails, ih more later⟩
  | case4 a rest one two =>
      unfold validUtf8 at valid
      simp [one, two] at valid
  | case6 a rest one two three =>
      unfold validUtf8 at valid
      simp [one, two, three] at valid
  | case8 a rest one two three four =>
      unfold validUtf8 at valid
      simp [one, two, three, four] at valid
  | case9 a rest one two three four =>
      unfold validUtf8 at valid
      simp [one, two, three, four] at valid

theorem validUtf8_behind {front rest : Bytes} {byte : UInt8} (ascii : byte ≤ 0x7F)
    (valid : validUtf8 (front ++ byte :: rest) = true) : validUtf8 (byte :: rest) = true :=
  (validUtf8_append (validUtf8_of_append ascii valid) _).symm.trans valid

namespace FsPath

/-- A path with a slash is what stands before its last slash and its file name. -/
theorem eq_filename_or (path : Bytes) :
    filename path = path ∨ ∃ front, path = front ++ 47 :: filename path := by
  by_cases slash : (47 : UInt8) ∈ path
  · right
    obtain ⟨front, last, split, plain⟩ := List.eq_append_cons_of_mem (List.mem_reverse.mpr slash)
    have parts : path = last.reverse ++ 47 :: front.reverse := by
      rw [← path.reverse_reverse, split]
      simp
    have behind : (47 : UInt8) ∉ front.reverse := fun member => plain (List.mem_reverse.mp member)
    refine ⟨last.reverse, ?_⟩
    conv_rhs => rw [parts, filename_slash _ behind]
    exact parts
  · left
    rw [filename, components_of_not_mem slash, List.getLastD_cons, List.getLastD_nil]

/-- The file name of a UTF-8 path is UTF-8. -/
theorem validUtf8_filename {path : Bytes} (valid : validUtf8 path = true) :
    validUtf8 (filename path) = true := by
  rcases eq_filename_or path with whole | ⟨front, split⟩
  · rwa [whole]
  · rw [split] at valid
    have behind := validUtf8_behind (by decide) valid
    rwa [← List.singleton_append, validUtf8_append (by decide)] at behind

/-- So is its extension. -/
theorem validUtf8_pathExtension {path : Bytes} (valid : validUtf8 path = true) :
    validUtf8 (extension path) = true := by
  have named := validUtf8_filename valid
  obtain ⟨front, split⟩ := exists_append_extension path
  rcases extension_cases path with empty | ⟨tail, dotted, _⟩
  · rw [empty]
    rfl
  · rw [split, dotted] at named
    rw [dotted]
    exact validUtf8_behind (by decide) named

/-- And its parent. -/
theorem validUtf8_parentPath {path : Bytes} (valid : validUtf8 path = true) :
    validUtf8 (parentPath path) = true := by
  obtain ⟨parent, empties, parts, _, _, text⟩ := exists_parent_components path
  rw [text]
  split_ifs
  · exact valid
  · rfl
  · cases parent with
    | nil => rfl
    | cons name above =>
        rw [← render_components path, parts, render_append (List.cons_ne_nil _ _)
          (List.append_ne_nil_of_right_ne_nil _ (List.cons_ne_nil _ _))] at valid
        exact validUtf8_of_append (by decide) valid

/-- A join of UTF-8 paths is UTF-8. -/
theorem validUtf8_join {left right : Bytes} (before : validUtf8 left = true)
    (behind : validUtf8 right = true) : validUtf8 (join left right) = true := by
  unfold join
  split
  · exact behind
  · split
    · rw [validUtf8_append before, ← List.singleton_append, validUtf8_append (by decide)]
      exact behind
    · rw [validUtf8_append before]
      exact behind

end FsPath

end Basis
