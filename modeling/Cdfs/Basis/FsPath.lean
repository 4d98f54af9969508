import Mathlib.Data.List.TakeWhile
import Cdfs.Basis.Bytes

/-! # Paths

Paths as `std::filesystem::path` holds them on POSIX: byte strings whose components
are separated by slashes. Joining, taking the parent and taking the extension work on
the text. What a path denotes lexically is a location, the list of names from the
root directory (`Basis.FsPath.location`); the operating system reads the text only up
to the first NUL byte.
-/

namespace Basis

namespace FsPath

/-- The components of a path, between the slashes. -/
def components : Bytes → List Bytes
  | [] => [[]]
  | byte :: rest =>
      if byte = 47 then [] :: components rest
      else (components rest).modifyHead (byte :: ·)

/-- The path with the given components. -/
def render : List Bytes → Bytes
  | [] => []
  | [name] => name
  | name :: next :: rest => name ++ 47 :: render (next :: rest)

/-- The path starts at the root directory. -/
def isAbsolute (path : Bytes) : Bool := path.head? == some 47

/-- `has_filename`. -/
def hasFilename (path : Bytes) : Bool := path.getLast?.any (· ≠ 47)

/-- `operator/`: an absolute right operand replaces the left one. -/
def join (left right : Bytes) : Bytes :=
  if isAbsolute right then right
  else if hasFilename left then left ++ 47 :: right
  else left ++ right

/-- `filename`. -/
def filename (path : Bytes) : Bytes := (components path).getLastD []

/-- `parent_path`: without the last component and the slashes before it. A path of slashes
only has no relative part, so it is its own parent. -/
def parentPath (path : Bytes) : Bytes :=
  if path.all (· == 47) then path
  else
    let parent := ((components path).dropLast.reverse.dropWhile (·.isEmpty)).reverse
    if parent = [] ∧ isAbsolute path then [47] else render parent

/-- `extension`: from the last dot of the file name, unless it is its first byte. -/
def extension (path : Bytes) : Bytes :=
  let name := filename path
  let tail := (name.reverse.takeWhile (· ≠ 46)).reverse
  if name = [46, 46] ∨ name.length ≤ tail.length + 1 then [] else 46 :: tail

/-- The text up to the first NUL byte, as system calls see it. -/
def cString (path : Bytes) : Bytes := path.takeWhile (· ≠ 0)

/-- The directory entry that a path ends in can be taken out of its directory: `rmdir`
refuses a path whose last name is `.` or `..`, and one without names, the root directory. -/
def removable (path : Bytes) : Bool :=
  match ((components (cString path)).filter (· ≠ [])).getLast? with
  | none => false
  | some name => name ≠ [46] ∧ name ≠ [46, 46]

/-- From a location into a component. -/
def enter (place : List Bytes) (name : Bytes) : List Bytes :=
  if name = [] ∨ name = [46] then place
  else if name = [46, 46] then place.dropLast
  else place ++ [name]

/-- The location a path denotes lexically, seen from a working directory. -/
def location (cwd : List Bytes) (path : Bytes) : List Bytes :=
  (components (cString path)).foldl enter (if isAbsolute (cString path) then [] else cwd)

/-- A component that names an entry of a directory. -/
def IsName (name : Bytes) : Prop :=
  name ≠ [] ∧ name ≠ [46] ∧ name ≠ [46, 46] ∧ (47 : UInt8) ∉ name ∧ (0 : UInt8) ∉ name

instance (name : Bytes) : Decidable (IsName name) :=
  inferInstanceAs (Decidable (name ≠ [] ∧ name ≠ [46] ∧ name ≠ [46, 46] ∧ (47 : UInt8) ∉ name ∧
    (0 : UInt8) ∉ name))

/-- A component that names no entry: it stays where it is or goes up. -/
def IsDots (name : Bytes) : Prop := name = [] ∨ name = [46] ∨ name = [46, 46]

instance (name : Bytes) : Decidable (IsDots name) :=
  inferInstanceAs (Decidable (name = [] ∨ name = [46] ∨ name = [46, 46]))

/-- A name of more than two bytes only has to be free of slashes and NUL bytes. -/
theorem isName_of_long {name : Bytes} (long : 2 < name.length) (noSlash : (47 : UInt8) ∉ name)
    (noZero : (0 : UInt8) ∉ name) : IsName name := by
  refine ⟨?_, ?_, ?_, noSlash, noZero⟩
  · exact fun same => absurd (same ▸ long) (by decide)
  · exact fun same => absurd (same ▸ long) (by decide)
  · exact fun same => absurd (same ▸ long) (by decide)

/-! ## Components -/

/-- Also the empty path has a component, an empty one. -/
theorem components_ne_nil (path : Bytes) : components path ≠ [] := by
  induction path with
  | nil => exact List.cons_ne_nil _ _
  | cons byte rest ih =>
      simp only [components]
      split
      · exact List.cons_ne_nil _ _
      · intro empty
        rw [← List.length_eq_zero_iff, List.length_modifyHead, List.length_eq_zero_iff] at empty
        exact ih empty

/-- The head of a list with more behind it. -/
theorem modifyHead_append {α : Type} (change : α → α) {first second : List α}
    (nonempty : first ≠ []) :
    (first ++ second).modifyHead change = first.modifyHead change ++ second := by
  cases first with
  | nil => exact absurd rfl nonempty
  | cons head tail => rfl

/-- A slash separates components. -/
theorem components_append (first second : Bytes) :
    components (first ++ 47 :: second) = components first ++ components second := by
  induction first with
  | nil => rfl
  | cons byte rest ih =>
      simp only [List.cons_append, components, ih]
      split
      · rfl
      · exact modifyHead_append _ (components_ne_nil rest)

/-- A text without slashes is one component. -/
theorem components_of_not_mem {name : Bytes} (plain : (47 : UInt8) ∉ name) :
    components name = [name] := by
  induction name with
  | nil => rfl
  | cons byte rest ih =>
      rw [List.mem_cons, not_or] at plain
      simp only [components, if_neg (Ne.symm plain.1), ih plain.2]
      rfl

/-- A component has no slash in it. -/
theorem not_mem_of_mem_components {path name : Bytes} (member : name ∈ components path) :
    (47 : UInt8) ∉ name := by
  induction path generalizing name with
  | nil =>
      rw [List.mem_singleton.mp member]
      exact List.not_mem_nil
  | cons byte rest ih =>
      simp only [components] at member
      split at member
      · rcases List.mem_cons.mp member with rfl | member
        · exact List.not_mem_nil
        · exact ih member
      · rename_i other
        cases split : components rest with
        | nil => exact absurd split (components_ne_nil rest)
        | cons head tail =>
            rw [split] at member ih
            rcases List.mem_cons.mp member with rfl | member
            · intro slash
              rcases List.mem_cons.mp slash with same | slash
              · exact other same.symm
              · exact ih (List.mem_cons_self ..) slash
            · exact ih (List.mem_cons_of_mem _ member)

/-- The text of a path is made of its components. -/
theorem render_components (path : Bytes) : render (components path) = path := by
  induction path with
  | nil => rfl
  | cons byte rest ih =>
      simp only [components]
      cases split : components rest with
      | nil => exact absurd split (components_ne_nil rest)
      | cons head tail =>
          rw [split] at ih
          split
          · rename_i slash
            rw [slash, render, ih]
            rfl
          · cases tail with
            | nil =>
                rw [← ih]
                rfl
            | cons next tail =>
                rw [← ih]
                rfl

/-- Components without slashes are read back from the text. -/
theorem components_render {names : List Bytes} (nonempty : names ≠ [])
    (plain : ∀ name ∈ names, (47 : UInt8) ∉ name) : components (render names) = names := by
  induction names with
  | nil => exact absurd rfl nonempty
  | cons name rest ih =>
      have first := components_of_not_mem (plain name (List.mem_cons_self ..))
      cases rest with
      | nil => exact first
      | cons next rest =>
          rw [render, components_append, first,
            ih (List.cons_ne_nil _ _) fun other member => plain other (List.mem_cons_of_mem _ member)]
          rfl

theorem filename_mem (path : Bytes) : filename path ∈ components path := by
  rw [filename, List.getLastD_eq_getLast?, List.getLast?_eq_some_getLast (components_ne_nil path)]
  exact List.getLast_mem _

/-- The file name is the last component. -/
theorem dropLast_components_append_filename (path : Bytes) :
    (components path).dropLast ++ [filename path] = components path := by
  rw [filename, List.getLastD_eq_getLast?, List.getLast?_eq_some_getLast (components_ne_nil path),
    Option.getD_some]
  exact List.dropLast_append_getLast _

/-- A text without slashes behind a path becomes part of the last component. -/
theorem components_append_of_not_mem {path last : Bytes} {front : List Bytes}
    (parts : components path = front ++ [last]) {suffix : Bytes} (plain : (47 : UInt8) ∉ suffix) :
    components (path ++ suffix) = front ++ [last ++ suffix] := by
  induction path generalizing front last with
  | nil =>
      obtain ⟨rfl, same⟩ := List.append_inj' (show [] ++ [[]] = front ++ [last] from parts) rfl
      cases same
      exact components_of_not_mem plain
  | cons byte rest ih =>
      obtain ⟨before, final, inner⟩ : ∃ before final, components rest = before ++ [final] :=
        (List.eq_nil_or_concat' _).resolve_left (components_ne_nil rest)
      simp only [List.cons_append, components, ih inner, inner] at parts ⊢
      split at parts
      · obtain ⟨rfl, same⟩ := List.append_inj' (show ([] :: before) ++ [final] = _ from parts) rfl
        cases same
        simp only [*, ↓reduceIte, List.cons_append]
      · rename_i other
        rw [if_neg other]
        cases before with
        | nil =>
            obtain ⟨rfl, same⟩ := List.append_inj' (show [] ++ [byte :: final] = _ from parts) rfl
            cases same
            rfl
        | cons head tail =>
            obtain ⟨rfl, same⟩ :=
              List.append_inj' (show ((byte :: head) :: tail) ++ [final] = _ from parts) rfl
            cases same
            rfl

/-- A slash stands behind each name but the last. -/
theorem render_cons (name : Bytes) {rest : List Bytes} (more : rest ≠ []) :
    render (name :: rest) = name ++ 47 :: render rest := by
  cases rest with
  | nil => exact absurd rfl more
  | cons next rest => rfl

/-- A slash stands between the two parts of a path. -/
theorem render_append {first second : List Bytes} (some : first ≠ []) (more : second ≠ []) :
    render (first ++ second) = render first ++ 47 :: render second := by
  induction first with
  | nil => exact absurd rfl some
  | cons name rest ih =>
      cases rest with
      | nil => exact render_cons name more
      | cons next rest =>
          have longer : render (name :: (next :: rest ++ second)) =
              name ++ 47 :: render (next :: rest ++ second) := rfl
          rw [List.cons_append, longer, ih (List.cons_ne_nil _ _),
            render_cons name (List.cons_ne_nil next rest), List.append_assoc, List.cons_append]

/-- A byte that is in none of the names is not in the path. -/
theorem not_mem_render {names : List Bytes} {byte : UInt8} (other : byte ≠ 47)
    (plain : ∀ name ∈ names, byte ∉ name) : byte ∉ render names := by
  induction names with
  | nil => exact List.not_mem_nil
  | cons name rest ih =>
      cases rest with
      | nil => exact plain name (List.mem_cons_self ..)
      | cons next rest =>
          rw [render_cons name (List.cons_ne_nil _ _)]
          simp only [List.mem_append, List.mem_cons, not_or]
          exact ⟨plain name (List.mem_cons_self ..), other,
            ih fun later member => plain later (List.mem_cons_of_mem _ member)⟩

/-- The bytes of a component are bytes of the path. -/
theorem mem_of_mem_components {path name : Bytes} {byte : UInt8} (member : name ∈ components path)
    (inside : byte ∈ name) : byte ∈ path := by
  induction path generalizing name with
  | nil =>
      rw [List.mem_singleton.mp member] at inside
      exact absurd inside List.not_mem_nil
  | cons head rest ih =>
      simp only [components] at member
      split at member
      · rcases List.mem_cons.mp member with rfl | member
        · exact absurd inside List.not_mem_nil
        · exact List.mem_cons_of_mem _ (ih member inside)
      · cases split : components rest with
        | nil => exact absurd split (components_ne_nil rest)
        | cons next tail =>
            rw [split] at member ih
            rcases List.mem_cons.mp member with rfl | member
            · rcases List.mem_cons.mp inside with rfl | inside
              · exact List.mem_cons_self ..
              · exact List.mem_cons_of_mem _ (ih (List.mem_cons_self ..) inside)
            · exact List.mem_cons_of_mem _ (ih (List.mem_cons_of_mem _ member) inside)

/-- A path of slashes only has no names. -/
theorem eq_nil_of_slashes {path name : Bytes} (slashes : path.all (· == 47) = true)
    (member : name ∈ components path) : name = [] := by
  rw [List.eq_nil_iff_forall_not_mem]
  intro byte inside
  have slash := List.all_eq_true.mp slashes byte (mem_of_mem_components member inside)
  rw [beq_iff_eq] at slash
  exact not_mem_of_mem_components member (slash ▸ inside)

/-- A path with a name at its end is not empty. -/
theorem render_concat_ne_nil (front : List Bytes) {name : Bytes} (nonempty : name ≠ []) :
    render (front ++ [name]) ≠ [] := by
  cases front with
  | nil => exact nonempty
  | cons first rest =>
      rw [List.cons_append, render_cons _ (List.append_ne_nil_of_right_ne_nil _ (List.cons_ne_nil _ _))]
      exact List.append_ne_nil_of_right_ne_nil _ (List.cons_ne_nil _ _)

/-! ## Locations -/

@[simp] theorem enter_nil (place : List Bytes) : enter place [] = place := rfl

/-- A name leads one level down. -/
theorem enter_of_isName {name : Bytes} (valid : IsName name) (place : List Bytes) :
    enter place name = place ++ [name] := by
  obtain ⟨nonempty, notDot, notDots, _⟩ := valid
  simp only [enter, nonempty, notDot, or_self, notDots, ↓reduceIte]

/-- Without a zero byte in front the path is cut in its second part. -/
theorem cString_append {first : Bytes} (plain : (0 : UInt8) ∉ first) (second : Bytes) :
    cString (first ++ second) = first ++ cString second :=
  List.takeWhile_append_of_pos fun byte member => by
    simpa only [ne_eq, decide_not, Bool.not_eq_eq_eq_not, Bool.not_true, decide_eq_false_iff_not]
      using fun zero : byte = 0 => plain (zero ▸ member)

/-- Without a zero byte the path is read as a whole. -/
theorem cString_of_not_mem {path : Bytes} (plain : (0 : UInt8) ∉ path) : cString path = path := by
  have whole := cString_append plain []
  rwa [List.append_nil, show cString [] = [] from rfl, List.append_nil] at whole

/-- The part that is read has no zero byte. -/
theorem not_mem_cString (path : Bytes) : (0 : UInt8) ∉ cString path := by
  intro member
  have kept := List.mem_takeWhile_imp member
  exact absurd kept (by decide)

/-- What follows a NUL byte does not count. -/
theorem cString_append_of_mem {first : Bytes} (zero : (0 : UInt8) ∈ first) (second : Bytes) :
    cString (first ++ second) = cString first := by
  induction first with
  | nil => exact absurd zero List.not_mem_nil
  | cons byte rest ih =>
      by_cases nul : byte = 0
      · simp only [cString, nul, List.cons_append, ne_eq, not_true_eq_false, decide_false,
          Bool.false_eq_true, not_false_eq_true, List.takeWhile_cons_of_neg]
      · have later := (List.mem_cons.mp zero).resolve_left (Ne.symm nul)
        simp only [cString, ne_eq, decide_not] at ih ⊢
        simp only [List.cons_append, List.takeWhile_cons, nul, decide_false, Bool.not_false,
          ↓reduceIte, ih later]

/-- Whether a path is absolute shows in its first byte. -/
theorem isAbsolute_append {first : Bytes} (nonempty : first ≠ []) (second : Bytes) :
    isAbsolute (first ++ second) = isAbsolute first := by
  unfold isAbsolute
  rw [List.head?_append_of_ne_nil _ nonempty]

/-- Behind a slash the location goes on from the location in front of it. -/
theorem location_slash {first : Bytes} (plain : (0 : UInt8) ∉ first) (cwd : List Bytes)
    (second : Bytes) :
    location cwd (first ++ 47 :: second) =
      (components (cString second)).foldl enter (location cwd (first ++ [47])) := by
  have slash : (0 : UInt8) ∉ first ++ [47] := by
    simpa only [List.mem_append, List.mem_singleton, not_or] using ⟨plain, by decide⟩
  have cut : cString (first ++ 47 :: second) = (first ++ [47]) ++ cString second := by
    rw [← cString_append slash, List.append_assoc]
    rfl
  have absolute (rest : Bytes) : isAbsolute ((first ++ [47]) ++ rest) = isAbsolute (first ++ [47]) :=
    isAbsolute_append (List.append_ne_nil_of_right_ne_nil _ (List.cons_ne_nil _ _)) rest
  unfold location
  rw [cut, absolute, cString_of_not_mem slash, List.append_assoc, List.singleton_append,
    components_append, components_append, List.foldl_append, List.foldl_append]
  rfl

/-- A slash at the end does not change the location. -/
theorem location_trailing_slash {first : Bytes} (nonempty : first ≠ [])
    (plain : (0 : UInt8) ∉ first) (cwd : List Bytes) :
    location cwd (first ++ [47]) = location cwd first := by
  have slash : (0 : UInt8) ∉ first ++ [47] := by
    simpa only [List.mem_append, List.mem_singleton, not_or] using ⟨plain, by decide⟩
  unfold location
  rw [cString_of_not_mem slash, cString_of_not_mem plain, components_append,
    isAbsolute_append nonempty, List.foldl_append]
  rfl

/-- A path of two parts leads from where the first one leads along the second. -/
theorem location_append {first : Bytes} (nonempty : first ≠ []) (plain : (0 : UInt8) ∉ first)
    (cwd : List Bytes) (second : Bytes) :
    location cwd (first ++ 47 :: second) =
      (components (cString second)).foldl enter (location cwd first) := by
  rw [location_slash plain, location_trailing_slash nonempty plain]

/-- A path whose last byte is a slash, or empty, has no file name. -/
theorem exists_of_hasFilename_eq_false {path : Bytes} (unnamed : hasFilename path = false)
    (nonempty : path ≠ []) : ∃ front, path = front ++ [47] := by
  rcases List.eq_nil_or_concat path with rfl | ⟨front, last, rfl⟩
  · exact absurd rfl nonempty
  · rw [List.concat_eq_append] at unnamed ⊢
    have slash : last = 47 := by
      simpa only [hasFilename, List.getLast?_concat, Option.any_some, ne_eq, decide_not,
        Bool.not_eq_eq_eq_not, Bool.not_false, decide_eq_true_eq] using unnamed
    exact ⟨front, by rw [slash]⟩

/-- The location of a join with a relative path. -/
theorem location_join {left right : Bytes} (nonempty : left ≠ []) (plain : (0 : UInt8) ∉ left)
    (relative : isAbsolute right = false) (cwd : List Bytes) :
    location cwd (join left right) =
      (components (cString right)).foldl enter (location cwd left) := by
  unfold join
  rw [relative, if_neg Bool.false_ne_true]
  cases named : hasFilename left with
  | true => exact location_append nonempty plain cwd right
  | false =>
      obtain ⟨front, rfl⟩ := exists_of_hasFilename_eq_false named nonempty
      rw [if_neg Bool.false_ne_true, List.append_assoc, List.singleton_append]
      exact location_slash (fun zero => plain (List.mem_append_left _ zero)) cwd right

/-- The location of a path that ends in a name is the location of its directory and
the name. -/
theorem location_append_isName {first name : Bytes} (nonempty : first ≠ [])
    (plain : (0 : UInt8) ∉ first) (valid : IsName name) (cwd : List Bytes) :
    location cwd (first ++ 47 :: name) = location cwd first ++ [name] := by
  rw [location_append nonempty plain, cString_of_not_mem valid.2.2.2.2,
    components_of_not_mem valid.2.2.2.1, List.foldl_cons, List.foldl_nil, enter_of_isName valid]

/-! ## Joins -/

/-- A path without slash is relative. -/
theorem isAbsolute_of_not_mem {name : Bytes} (plain : (47 : UInt8) ∉ name) :
    isAbsolute name = false := by
  cases name with
  | nil => rfl
  | cons byte rest =>
      have other : byte ≠ 47 := fun slash => plain (slash ▸ List.mem_cons_self ..)
      simpa only [isAbsolute, List.head?_cons, beq_eq_false_iff_ne, ne_eq, Option.some.injEq]
        using other

/-- A path that ends in a name has a file name. -/
theorem hasFilename_append {name : Bytes} (nonempty : name ≠ []) (plain : (47 : UInt8) ∉ name)
    (front : Bytes) : hasFilename (front ++ name) = true := by
  unfold hasFilename
  rw [List.getLast?_append_of_ne_nil _ nonempty, List.getLast?_eq_some_getLast nonempty,
    Option.any_some, decide_eq_true_eq]
  exact fun slash => plain (slash ▸ List.getLast_mem nonempty)

theorem join_named {left : Bytes} (named : hasFilename left = true) {right : Bytes}
    (relative : isAbsolute right = false) : join left right = left ++ 47 :: right := by
  rw [join, relative, if_neg Bool.false_ne_true, if_pos named]

/-- Whether a path has a file name shows in its last part. -/
theorem hasFilename_append_of_ne_nil {last : Bytes} (nonempty : last ≠ []) (front : Bytes) :
    hasFilename (front ++ last) = hasFilename last := by
  rw [hasFilename, List.getLast?_append_of_ne_nil _ nonempty]
  rfl

/-- A relative path is put behind the other one, with a slash where one is missing. -/
theorem join_of_relative {left right : Bytes} (relative : isAbsolute right = false) :
    join left right = left ++ ((if hasFilename left then [47] else []) ++ right) := by
  rw [join, relative, if_neg Bool.false_ne_true]
  cases hasFilename left <;> rfl

/-- A join with a path that is not empty is not empty. -/
theorem join_ne_nil {left : Bytes} (nonempty : left ≠ []) (right : Bytes) : join left right ≠ [] := by
  unfold join
  split
  · rename_i absolute
    rintro rfl
    cases absolute
  · split
    · exact List.append_ne_nil_of_left_ne_nil nonempty _
    · exact List.append_ne_nil_of_left_ne_nil nonempty _

/-- Joining is associative for a relative path on the right. -/
theorem join_assoc (left middle : Bytes) {right : Bytes} (relative : isAbsolute right = false) :
    join left (join middle right) = join (join left middle) right := by
  by_cases empty : middle = []
  · subst empty
    have before : join left [] = left ++ if hasFilename left then [47] else [] := by
      rw [join_of_relative rfl, List.append_nil]
    rw [join_of_relative relative, join_of_relative relative, List.nil_append,
      show hasFilename [] = false from rfl, if_neg Bool.false_ne_true, List.nil_append,
      join_of_relative relative, before]
    cases named : hasFilename left with
    | true =>
        rw [if_pos rfl, hasFilename_append_of_ne_nil (List.cons_ne_nil _ _),
          show hasFilename [47] = false from rfl, if_neg Bool.false_ne_true, List.append_assoc]
        rfl
    | false => rw [if_neg Bool.false_ne_true, List.append_nil, named, if_neg Bool.false_ne_true]
  · have inner : join middle right =
        middle ++ ((if hasFilename middle then [47] else []) ++ right) := join_of_relative relative
    have start : isAbsolute (join middle right) = isAbsolute middle := by
      rw [inner, isAbsolute_append empty]
    cases absolute : isAbsolute middle with
    | true =>
        have replaced (path : Bytes) (rooted : isAbsolute path = true) : join left path = path := by
          rw [join, rooted, if_pos rfl]
        rw [replaced _ (start.trans absolute), replaced _ absolute]
    | false =>
        rw [join_of_relative (start.trans absolute), inner, join_of_relative absolute,
          ← List.append_assoc left _ middle, join_of_relative relative,
          hasFilename_append_of_ne_nil empty]
        simp only [List.append_assoc]

/-- A text without slashes behind a path becomes part of the last component, which is
taken in the same directory. -/
theorem exists_location_enter {path suffix : Bytes} (plain : (0 : UInt8) ∉ path)
    (noSlash : (47 : UInt8) ∉ suffix) (noZero : (0 : UInt8) ∉ suffix) (cwd : List Bytes) :
    ∃ above, location cwd path = enter above (filename path) ∧
      location cwd (path ++ suffix) = enter above (filename path ++ suffix) := by
  have parts := (dropLast_components_append_filename path).symm
  have plainWhole : (0 : UInt8) ∉ path ++ suffix := by
    simpa only [List.mem_append, not_or] using ⟨plain, noZero⟩
  have absolute : isAbsolute (path ++ suffix) = isAbsolute path := by
    by_cases empty : path = []
    · rw [empty]
      exact isAbsolute_of_not_mem noSlash
    · exact isAbsolute_append empty suffix
  refine ⟨(components path).dropLast.foldl enter (if isAbsolute path then [] else cwd), ?_, ?_⟩
  · unfold location
    rw [cString_of_not_mem plain]
    nth_rewrite 1 [parts]
    rw [List.foldl_append]
    rfl
  · unfold location
    rw [cString_of_not_mem plainWhole, absolute, components_append_of_not_mem parts noSlash,
      List.foldl_append, List.foldl_cons, List.foldl_nil]

/-- A text behind a path names another entry of the directory in which the last
component is taken. -/
theorem exists_location_append {path suffix : Bytes} (plain : (0 : UInt8) ∉ path)
    (valid : ∀ last, (47 : UInt8) ∉ last → (0 : UInt8) ∉ last → IsName (last ++ suffix))
    (cwd : List Bytes) :
    ∃ above, location cwd path = enter above (filename path) ∧
      location cwd (path ++ suffix) = above ++ [filename path ++ suffix] := by
  have ordinary : IsName suffix := valid [] List.not_mem_nil List.not_mem_nil
  have name := valid (filename path) (not_mem_of_mem_components (filename_mem path))
    fun zero => plain (mem_of_mem_components (filename_mem path) zero)
  obtain ⟨above, here, behind⟩ :=
    exists_location_enter plain ordinary.2.2.2.1 ordinary.2.2.2.2 cwd
  exact ⟨above, here, behind.trans (enter_of_isName name above)⟩

/-- The components of a path in front of which further ones are put. -/
def base (path : Bytes) : List Bytes :=
  if hasFilename path then components path else (components path).dropLast

/-- The components of a join are those of its parts. -/
theorem components_join {left right : Bytes} (nonempty : left ≠ [])
    (relative : isAbsolute right = false) :
    components (join left right) = base left ++ components right := by
  rw [join_of_relative relative, base]
  cases named : hasFilename left with
  | true =>
      rw [if_pos rfl, if_pos rfl, List.singleton_append, components_append]
  | false =>
      obtain ⟨front, rfl⟩ := exists_of_hasFilename_eq_false named nonempty
      rw [if_neg Bool.false_ne_true, if_neg Bool.false_ne_true, List.nil_append, List.append_assoc,
        List.singleton_append, components_append, components_append]
      simp [components]

/-- Cutting a path at a zero byte does not change whether it is absolute. -/
theorem isAbsolute_cString (path : Bytes) : isAbsolute (cString path) = isAbsolute path := by
  cases path with
  | nil => rfl
  | cons byte rest =>
      unfold cString isAbsolute
      rw [List.takeWhile_cons]
      split
      · rfl
      · rename_i zero
        have : byte = 0 := by simpa using zero
        subst this
        rfl

/-- A join is cut where its second part is. -/
theorem cString_join {left right : Bytes} (plain : (0 : UInt8) ∉ left)
    (relative : isAbsolute right = false) :
    cString (join left right) = join left (cString right) := by
  rw [join_of_relative relative, join_of_relative ((isAbsolute_cString right).trans relative),
    cString_append plain]
  cases hasFilename left with
  | true => rfl
  | false => rfl

/-- The parent of a path that ends in a component. -/
theorem parentPath_append {path last : Bytes} (named : hasFilename path = true)
    (plain : (47 : UInt8) ∉ last) : parentPath (path ++ 47 :: last) = path := by
  obtain ⟨front, final, parts⟩ : ∃ front final, components path = front ++ [final] :=
    (List.eq_nil_or_concat' _).resolve_left (components_ne_nil path)
  have text := render_components path
  have nonempty : final ≠ [] := by
    rintro rfl
    rw [← text, parts] at named
    cases front with
    | nil => cases named
    | cons first rest =>
        rw [render_append (List.cons_ne_nil _ _) (List.cons_ne_nil _ _),
          hasFilename_append_of_ne_nil (List.cons_ne_nil _ _)] at named
        cases named
  have other : (path ++ 47 :: last).all (· == 47) = false := by
    obtain ⟨start, byte, rfl⟩ := (List.eq_nil_or_concat' path).resolve_left fun empty => by
      rw [empty] at named
      cases named
    have differs : byte ≠ 47 := by simpa [hasFilename] using named
    simp [differs]
  rw [parentPath, other, if_neg Bool.false_ne_true]
  dsimp only
  rw [components_append, components_of_not_mem plain, List.dropLast_concat, parts,
    List.reverse_append, List.reverse_singleton, List.singleton_append,
    List.dropWhile_cons_of_neg (by simpa using nonempty), List.reverse_cons, List.reverse_reverse, ← parts,
    if_neg (fun empty => components_ne_nil _ empty.1), text]

/-- The entry of a directory is removed under its own name. -/
theorem removable_slash {front name : Bytes} (plain : (0 : UInt8) ∉ front) (valid : IsName name) :
    removable (front ++ 47 :: name) = true := by
  have cut : cString (47 :: name) = 47 :: cString name := rfl
  have named : name ≠ [] ∧ name ≠ [46] ∧ name ≠ [46, 46] := ⟨valid.1, valid.2.1, valid.2.2.1⟩
  rw [removable, cString_append plain, cut, cString_of_not_mem valid.2.2.2.2, components_append,
    components_of_not_mem valid.2.2.2.1, List.filter_append]
  simp [named]

/-! ## Paths made of names -/

/-- Entering names goes down. -/
theorem foldl_enter {names : List Bytes} (valid : ∀ name ∈ names, IsName name) (place : List Bytes) :
    names.foldl enter place = place ++ names := by
  induction names generalizing place with
  | nil => exact (List.append_nil place).symm
  | cons name rest ih =>
      rw [List.foldl_cons, enter_of_isName (valid name (List.mem_cons_self ..)),
        ih fun other member => valid other (List.mem_cons_of_mem _ member), List.append_assoc,
        List.singleton_append]

theorem not_mem_render_of_isName {names : List Bytes} (valid : ∀ name ∈ names, IsName name) :
    (0 : UInt8) ∉ render names :=
  not_mem_render (by decide) fun name member => (valid name member).2.2.2.2

/-- A path of names is relative. -/
theorem isAbsolute_render {names : List Bytes} (valid : ∀ name ∈ names, IsName name) :
    isAbsolute (render names) = false := by
  cases names with
  | nil => rfl
  | cons name rest =>
      have first := valid name (List.mem_cons_self ..)
      have relative := isAbsolute_of_not_mem first.2.2.2.1
      cases rest with
      | nil => exact relative
      | cons next rest => rw [render_cons _ (List.cons_ne_nil _ _), isAbsolute_append first.1, relative]

/-- The components below a root are the names put there. -/
theorem components_join_render {root : Bytes} (nonempty : root ≠ []) {names : List Bytes}
    (valid : ∀ name ∈ names, IsName name) (some : names ≠ []) :
    components (join root (render names)) = base root ++ names := by
  rw [components_join nonempty (isAbsolute_render valid),
    components_render some fun name member => (valid name member).2.2.2.1]

/-- A path of names below a root is read as a whole. -/
theorem cString_join_render {root : Bytes} (plain : (0 : UInt8) ∉ root) {names : List Bytes}
    (valid : ∀ name ∈ names, IsName name) :
    cString (join root (render names)) = join root (render names) := by
  rw [cString_join plain (isAbsolute_render valid), cString_of_not_mem (not_mem_render_of_isName valid)]

/-- A path of names below a root leads to the names below the location of the root. -/
theorem location_join_render {root : Bytes} (nonempty : root ≠ []) (plain : (0 : UInt8) ∉ root)
    {names : List Bytes} (valid : ∀ name ∈ names, IsName name) (cwd : List Bytes) :
    location cwd (join root (render names)) = location cwd root ++ names := by
  rw [location_join nonempty plain (isAbsolute_render valid),
    cString_of_not_mem (not_mem_render_of_isName valid)]
  cases names with
  | nil => exact (List.append_nil _).symm
  | cons name rest =>
      rw [components_render (List.cons_ne_nil _ _) fun other member => (valid other member).2.2.2.1,
        foldl_enter valid]

/-- The base of a path is its text up to a slash, or all of it. -/
theorem exists_append_of_base {root : Bytes} (nonempty : root ≠ []) {front back : List Bytes}
    (some : front ≠ []) (split : base root = front ++ back) :
    root = render front ∨ ∃ rest, root = render front ++ 47 :: rest := by
  have text {path : Bytes} {more : List Bytes} (parts : components path = front ++ more) :
      path = render front ∨ ∃ rest, path = render front ++ 47 :: rest := by
    cases more with
    | nil =>
        left
        rw [← render_components path, parts, List.append_nil]
    | cons name more =>
        right
        rw [← render_components path, parts, render_append some (List.cons_ne_nil _ _)]
        exact ⟨_, rfl⟩
  unfold base at split
  split at split
  · exact text split
  · rename_i unnamed
    obtain ⟨before, rfl⟩ := exists_of_hasFilename_eq_false (Bool.not_eq_true _ ▸ unnamed) nonempty
    rw [components_append, show components [] = [[]] from rfl, List.dropLast_concat] at split
    right
    rcases text split with same | ⟨rest, same⟩
    · exact ⟨[], by rw [same]⟩
    · exact ⟨rest ++ [47], by rw [same, List.append_assoc, List.cons_append]⟩

/-- A path of names has a file name. -/
theorem hasFilename_render {names : List Bytes} (valid : ∀ name ∈ names, IsName name)
    (some : names ≠ []) : hasFilename (render names) = true := by
  obtain ⟨front, name, rfl⟩ := (List.eq_nil_or_concat' names).resolve_left some
  have last := valid name (List.mem_append_right _ (List.mem_singleton_self name))
  cases front with
  | nil => exact hasFilename_append last.1 last.2.2.2.1 []
  | cons first rest =>
      rw [render_append (List.cons_ne_nil _ _) (List.cons_ne_nil _ _), List.append_cons]
      exact hasFilename_append last.1 last.2.2.2.1 _

section Inside

variable {root last : Bytes} {names : List Bytes} (valid : ∀ name ∈ names, IsName name)
  (some : names ≠ [])

include valid some

/-- A path of names and a last component below a directory. -/
theorem join_render_append (root last : Bytes) :
    join root (render names ++ 47 :: last) = join root (render names) ++ 47 :: last := by
  have relative := isAbsolute_render valid
  have named := hasFilename_render valid some
  have start : render names ≠ [] := by
    intro empty
    rw [empty] at named
    cases named
  rw [join_of_relative relative, join_of_relative ((isAbsolute_append start _).trans relative)]
  simp only [List.append_assoc]

/-- The parent of a path below a root, whatever its last name is. -/
theorem parentPath_join_render (plainLast : (47 : UInt8) ∉ last) :
    parentPath (join root (render names ++ 47 :: last)) = join root (render names) := by
  have named := hasFilename_render valid some
  have start : render names ≠ [] := by
    intro empty
    rw [empty] at named
    cases named
  rw [join_render_append valid some]
  refine parentPath_append ?_ plainLast
  rw [join_of_relative (isAbsolute_render valid), ← List.append_assoc,
    hasFilename_append_of_ne_nil start, named]

/-- The last name may have a zero byte: the location ends in the part that is read. -/
theorem location_join_render_append (nonempty : root ≠ []) (plain : (0 : UInt8) ∉ root)
    (plainLast : (47 : UInt8) ∉ last) (validLast : IsName (cString last)) (cwd : List Bytes) :
    location cwd (join root (render names ++ 47 :: last)) =
      location cwd root ++ names ++ [cString last] := by
  have zero : (0 : UInt8) ∉ join root (render names) := by
    rw [join_of_relative (isAbsolute_render valid)]
    simp only [List.mem_append, not_or]
    refine ⟨plain, ?_, not_mem_render_of_isName valid⟩
    split <;> decide
  have start : join root (render names) ≠ [] := by
    rw [join_of_relative (isAbsolute_render valid)]
    exact List.append_ne_nil_of_left_ne_nil nonempty _
  have plainCut : (47 : UInt8) ∉ cString last :=
    fun slash => plainLast ((List.takeWhile_prefix _).subset slash)
  rw [join_render_append valid some, location_append start zero,
    components_of_not_mem plainCut, location_join_render nonempty plain valid]
  exact enter_of_isName validLast _

end Inside

/-! ## Extensions -/

/-- An extension is empty, or a dot and a text without dots and slashes. -/
theorem extension_cases (path : Bytes) :
    extension path = [] ∨
      ∃ tail, extension path = 46 :: tail ∧ (46 : UInt8) ∉ tail ∧ (47 : UInt8) ∉ tail := by
  unfold extension
  by_cases none : filename path = [46, 46] ∨ (filename path).length ≤
      ((filename path).reverse.takeWhile (· ≠ 46)).reverse.length + 1
  · left
    simp only [none, ↓reduceIte]
  · right
    simp only [none, ↓reduceIte]
    refine ⟨_, rfl, ?_, ?_⟩
    · intro member
      have kept := List.mem_takeWhile_imp (List.mem_reverse.mp member)
      exact absurd kept (by decide)
    · intro member
      have inside : (47 : UInt8) ∈ filename path :=
        List.mem_reverse.mp ((List.takeWhile_prefix _).subset (List.mem_reverse.mp member))
      exact not_mem_of_mem_components (filename_mem path) inside

/-- The extension is the end of the file name. -/
theorem exists_append_extension (path : Bytes) :
    ∃ front, filename path = front ++ extension path := by
  have split : (filename path).reverse = (filename path).reverse.takeWhile (· ≠ 46) ++
      (filename path).reverse.dropWhile (· ≠ 46) := List.takeWhile_append_dropWhile.symm
  unfold extension
  by_cases none : filename path = [46, 46] ∨ (filename path).length ≤
      ((filename path).reverse.takeWhile (· ≠ 46)).reverse.length + 1
  · simp only [none, ↓reduceIte]
    exact ⟨_, (List.append_nil _).symm⟩
  · simp only [none, ↓reduceIte]
    generalize (filename path).reverse.takeWhile (· ≠ 46) = tail at *
    cases rest : (filename path).reverse.dropWhile (· ≠ 46) with
    | nil =>
        rw [rest, List.append_nil] at split
        refine absurd (.inr ?_) none
        rw [← split, List.reverse_reverse]
        exact Nat.le_succ _
    | cons dot front =>
        have nonempty : (filename path).reverse.dropWhile (· ≠ 46) ≠ [] := by
          rw [rest]
          exact List.cons_ne_nil _ _
        have first := List.head_dropWhile_not (fun byte : UInt8 => decide (byte ≠ 46)) nonempty
        simp only [rest, List.head_cons, decide_eq_false_iff_not, not_not] at first
        refine ⟨front.reverse, ?_⟩
        rw [← List.reverse_reverse (filename path), split, rest, first, List.reverse_append,
          List.reverse_cons, List.append_assoc, List.singleton_append]
/-- An extension has no slash in it. -/
theorem slash_not_mem_extension (path : Bytes) : (47 : UInt8) ∉ extension path := by
  rcases extension_cases path with empty | ⟨tail, dotted, _, plain⟩
  · rw [empty]
    exact List.not_mem_nil
  · rw [dotted, List.mem_cons, not_or]
    exact ⟨by decide, plain⟩

/-- The file name is what stands behind the last slash. -/
theorem filename_slash (front : Bytes) {last : Bytes} (plain : (47 : UInt8) ∉ last) :
    filename (front ++ 47 :: last) = last := by
  rw [filename, components_append, components_of_not_mem plain]
  exact List.getLastD_concat

/-- An extension behind a name without dots is that of the path. -/
theorem extension_append_extension (front path : Bytes) {name : Bytes} (nonempty : name ≠ [])
    (noDot : (46 : UInt8) ∉ name) (noSlash : (47 : UInt8) ∉ name) :
    extension (front ++ 47 :: (name ++ extension path)) = extension path := by
  have plain : (47 : UInt8) ∉ name ++ extension path :=
    List.mem_append.not.mpr (not_or.mpr ⟨noSlash, slash_not_mem_extension path⟩)
  have kept {text : Bytes} (absent : (46 : UInt8) ∉ text) :
      ∀ byte ∈ text.reverse, decide (byte ≠ 46) = true := fun byte member =>
    decide_eq_true fun same => absent (same ▸ List.mem_reverse.mp member)
  rw [extension, filename_slash front plain]
  rcases extension_cases path with empty | ⟨tail, dotted, apart, _⟩
  · rw [empty, List.append_nil, List.takeWhile_eq_self_iff.mpr (kept noDot), List.reverse_reverse]
    simp only [Nat.le_add_right, or_true, ↓reduceIte]
  · have cut : (name ++ 46 :: tail).reverse.takeWhile (fun byte => decide (byte ≠ 46)) =
        tail.reverse := by
      rw [List.reverse_append, List.reverse_cons, List.append_assoc,
        List.takeWhile_append_of_pos (kept apart), List.singleton_append,
        List.takeWhile_cons_of_neg (by decide), List.append_nil]
    have dots : name ++ 46 :: tail ≠ [46, 46] := by
      intro same
      obtain ⟨first, rest, rfl⟩ := List.exists_cons_of_ne_nil nonempty
      cases (List.cons.inj same).1
      exact noDot (List.mem_cons_self ..)
    have long : ¬ (name ++ 46 :: tail).length ≤ tail.length + 1 := by
      have positive := List.length_pos_iff.mpr nonempty
      rw [List.length_append, List.length_cons]
      omega
    rw [dotted]
    simp only [cut, List.reverse_reverse, dots, long, or_self, ↓reduceIte]

end FsPath

end Basis
