import Cdfs.Basis.Accesses

/-! # Paths below an existing directory

A relative path in which two dots never stand side by side leads from a directory to
something at or below it, and so do the shorter paths that `create_directories` makes of
it. When the directory exists, nothing above it is looked at.
-/

namespace Basis

namespace FsPath

/-- A relative path without two dots side by side. -/
structure Downward (path : Bytes) : Prop where
  relative : isAbsolute path = false
  plain : ¬ [46, 46] <:+: path

/-- The front of a list of names is the front of its path. -/
theorem render_prefix {front names : List Bytes} (some : front ≠ []) (early : front <+: names) :
    render front <+: render names := by
  obtain ⟨more, rfl⟩ := early
  by_cases last : more = []
  · rw [last, List.append_nil]
  · rw [render_append some last]
    exact List.prefix_append _ _

/-- A component is a piece of the path. -/
theorem isInfix_of_mem_components {path name : Bytes} (member : name ∈ components path) :
    name <:+: path := by
  obtain ⟨front, back, parts⟩ := List.append_of_mem member
  rw [← render_components path, parts]
  have start : name <+: render (name :: back) :=
    render_prefix (List.cons_ne_nil _ _) (by simp : [name] <+: name :: back)
  by_cases first : front = []
  · rw [first]
    exact start.isInfix
  · rw [render_append first (List.cons_ne_nil _ _), List.append_cons]
    exact start.isInfix.trans (List.suffix_append _ _).isInfix

/-- No component of such a path leads up, wherever the system cuts it. -/
theorem Downward.ne_dots {path : Bytes} (down : Downward path) {name : Bytes}
    (member : name ∈ components (cString path)) : name ≠ [46, 46] := by
  rintro rfl
  exact down.plain ((isInfix_of_mem_components member).trans (List.takeWhile_prefix _).isInfix)

/-- The first components of such a path. -/
theorem Downward.render {path : Bytes} (down : Downward path) {front : List Bytes}
    (some : front ≠ []) (early : front <+: components path) : Downward (FsPath.render front) := by
  have start := render_prefix some early
  rw [render_components] at start
  refine ⟨?_, fun dots => down.plain (dots.trans start.isInfix)⟩
  obtain ⟨more, whole⟩ := start
  cases text : FsPath.render front with
  | nil => rfl
  | cons byte rest =>
      have relative := down.relative
      rw [← whole, text, List.cons_append] at relative
      exact relative

/-- Without double dots the way does not lead out. -/
theorem prefix_foldl_enter {above place : List Bytes} {names : List Bytes}
    (inside : above <+: place) (down : ∀ name ∈ names, name ≠ [46, 46]) :
    above <+: names.foldl enter place := by
  induction names generalizing place with
  | nil => exact inside
  | cons name names ih =>
      exact ih (prefix_enter inside (down name (List.mem_cons_self ..))) fun other member =>
        down other (List.mem_cons_of_mem _ member)

variable {cwd : List Bytes} {root path : Bytes}

/-- A relative path whose components do not lead up stays within the directory. -/
theorem within_join_of_ne_dots (nonempty : root ≠ []) (plain : (0 : UInt8) ∉ root)
    (relative : isAbsolute path = false)
    (down : ∀ name ∈ components (cString path), name ≠ [46, 46]) :
    Within cwd root (join root path) := by
  unfold Within
  rw [location_join nonempty plain relative]
  exact prefix_foldl_enter (List.prefix_refl _) down

theorem Downward.within (down : Downward path) (nonempty : root ≠ []) (plain : (0 : UInt8) ∉ root) :
    Within cwd root (join root path) :=
  within_join_of_ne_dots nonempty plain down.relative fun _ => down.ne_dots

/-- A suffix makes no component that leads up, although dots may meet there. -/
theorem ne_dots_append (down : ∀ name ∈ components (cString path), name ≠ [46, 46]) {suffix : Bytes}
    (long : 2 < suffix.length) (noSlash : (47 : UInt8) ∉ suffix) (noZero : (0 : UInt8) ∉ suffix) :
    ∀ name ∈ components (cString (path ++ suffix)), name ≠ [46, 46] := by
  intro name member
  by_cases zero : (0 : UInt8) ∈ path
  · rw [cString_append_of_mem zero] at member
    exact down name member
  · have parts := (dropLast_components_append_filename path).symm
    rw [cString_append zero, cString_of_not_mem noZero,
      components_append_of_not_mem parts noSlash] at member
    rcases List.mem_append.mp member with early | last
    · have whole : name ∈ components (cString path) := by
        rw [cString_of_not_mem zero]
        exact List.mem_of_mem_dropLast early
      exact down name whole
    · intro dots
      have length := congrArg List.length ((List.mem_singleton.mp last).symm.trans dots)
      rw [List.length_append, List.length_cons, List.length_singleton] at length
      omega

/-- Neither does the path with a longer suffix lead up. -/
theorem Downward.within_append (down : Downward path) (some : path ≠ []) (nonempty : root ≠ [])
    (plain : (0 : UInt8) ∉ root) {suffix : Bytes} (long : 2 < suffix.length)
    (noSlash : (47 : UInt8) ∉ suffix) (noZero : (0 : UInt8) ∉ suffix) :
    Within cwd root (join root (path ++ suffix)) := by
  have relative : isAbsolute (path ++ suffix) = false := by
    rw [isAbsolute_append some]
    exact down.relative
  exact within_join_of_ne_dots nonempty plain relative
    (ne_dots_append (fun _ => down.ne_dots) long noSlash noZero)

/-- The path of the base and further components. -/
theorem Downward.render_base {names : List Bytes} (down : Downward (FsPath.render names))
    (nonempty : root ≠ []) (some : names ≠ []) (plain : ∀ name ∈ names, (47 : UInt8) ∉ name) :
    FsPath.render (base root ++ names) = join root (FsPath.render names) := by
  rw [← render_components (join root _), components_join nonempty down.relative,
    components_render some plain]

/-- The parent of a path that goes on below a named directory. -/
theorem Downward.parentPath (down : Downward path) (nonempty : root ≠ []) {first : Bytes}
    {more : List Bytes} (parts : components path = first :: more) (firstNamed : first ≠ [])
    (some : more ≠ []) : ∃ above, Downward above ∧ FsPath.parentPath (join root path) =
      join root above := by
  obtain ⟨parent, empties, whole, empty, _, text⟩ := exists_parent_components (join root path)
  rw [components_join nonempty down.relative, parts, List.append_cons] at whole
  -- The first component is named and not the last one, so it belongs to the parent.
  obtain ⟨front, rfl, rest⟩ : ∃ front, parent = (base root ++ [first]) ++ front ∧
      more = front ++ (empties ++ [filename (join root path)]) := by
    rcases List.append_eq_append_iff.mp whole with ⟨front, behind, rest⟩ | ⟨skipped, behind, rest⟩
    · exact ⟨front, behind, rest⟩
    · rcases List.eq_nil_or_concat' skipped with rfl | ⟨start, last, rfl⟩
      · refine ⟨[], ?_, rest.symm⟩
        rw [List.append_nil] at behind ⊢
        exact behind.symm
      · rw [← List.append_assoc] at behind
        obtain ⟨_, same⟩ := List.append_inj' behind rfl
        obtain ⟨before, final, rfl⟩ := (List.eq_nil_or_concat' more).resolve_left some
        rw [← List.append_assoc] at rest
        have inside : last ∈ empties := by
          rw [(List.append_inj' rest rfl).1]
          simp
        exact absurd ((List.cons.inj same).1.trans (empty last inside)) firstNamed
  have early : first :: front <+: components path := by
    rw [parts, rest]
    exact ⟨empties ++ [filename (join root path)], by simp⟩
  have above := down.render (List.cons_ne_nil _ _) early
  have named := above.render_base nonempty (List.cons_ne_nil _ _) fun name member =>
    not_mem_of_mem_components (early.subset member)
  have other : ¬ (join root path).all (· == 47) = true := fun slashes => by
    refine firstNamed (eq_nil_of_slashes slashes ?_)
    rw [components_join nonempty down.relative, parts]
    exact List.mem_append_right _ (List.mem_cons_self ..)
  refine ⟨_, above, ?_⟩
  rw [text, if_neg other, if_neg (by simp), List.append_assoc]
  exact named

end FsPath

open FsPath

variable {disk : Disk} {root : Bytes}

/-- What climbing looks at: shorter rows of the components, then what is above them. -/
theorem Disk.mem_climbed_append {names above : List Bytes} (top : above ≠ []) {other : Bytes}
    (member : other ∈ disk.climbed (names.reverse ++ above)) :
    (∃ front, front ≠ [] ∧ front <+: names ∧ other = render (above.reverse ++ front)) ∨
      other ∈ disk.climbed above := by
  induction names using List.reverseRecOn with
  | nil => exact .inr member
  | append_singleton names name ih =>
      have later (inside : other ∈ disk.climbed (names.reverse ++ above)) :
          (∃ front, front ≠ [] ∧ front <+: names ++ [name] ∧
            other = render (above.reverse ++ front)) ∨ other ∈ disk.climbed above := by
        rcases ih inside with ⟨front, some, early, same⟩ | higher
        · exact .inl ⟨front, some, early.trans (List.prefix_append _ _), same⟩
        · exact .inr higher
      rw [List.reverse_append, List.reverse_singleton, List.singleton_append,
        List.cons_append] at member
      cases name with
      | nil =>
          rw [climbed, if_neg (List.append_ne_nil_of_right_ne_nil _ top)] at member
          exact later member
      | cons byte tail =>
          rw [climbed] at member
          · rcases List.mem_cons.mp member with here | higher
            · refine .inl ⟨names ++ [byte :: tail], by simp, List.prefix_refl _, ?_⟩
              rw [here, List.reverse_cons, List.reverse_append, List.reverse_reverse,
                List.append_assoc]
            · split at higher
              · exact later higher
              · cases higher
          · exact List.cons_ne_nil byte tail

/-- A directory is found with or without a slash behind its path. -/
theorem Disk.look_of_trailing_slash (nonempty : root ≠ []) (plain : (0 : UInt8) ∉ root)
    (found : disk.look (root ++ [47]) = some .dir) : disk.look root = some .dir := by
  unfold look at found ⊢
  rw [resolve_slash disk nonempty plain] at found
  obtain ⟨place, walked, _⟩ := Option.bind_eq_some_iff.mp found
  obtain ⟨start, resolved, walked⟩ := Option.bind_eq_some_iff.mp walked
  rw [resolved, Option.bind_some]
  change disk.walk start [[]] = _ at walked
  rw [walk] at walked
  split at walked
  · rename_i directory
    exact directory
  · cases walked

/-- Climbing from an existing directory looks at the directory only. -/
theorem Disk.location_of_mem_climbed (nonempty : root ≠ []) (plain : (0 : UInt8) ∉ root)
    (found : disk.look root = some .dir) {other : Bytes}
    (member : other ∈ disk.climbed (components root).reverse) (cwd : List Bytes) :
    location cwd other = location cwd root := by
  induction root using List.reverseRecOn with
  | nil => exact absurd rfl nonempty
  | append_singleton front byte ih =>
      by_cases slash : byte = 47
      · rw [slash] at plain found member ⊢
        have plainFront : (0 : UInt8) ∉ front := fun zero => plain (List.mem_append_left _ zero)
        rw [components_append, List.reverse_append] at member
        change other ∈ disk.climbed ([] :: (components front).reverse) at member
        rw [climbed, if_neg (List.reverse_ne_nil_iff.mpr (components_ne_nil front))] at member
        by_cases root : front = []
        · subst root
          rw [List.mem_singleton.mp member]
          rfl
        · rw [location_trailing_slash root plainFront]
          exact ih root plainFront (look_of_trailing_slash root plainFront found) member
      · have parts := components_append_of_not_mem
          (dropLast_components_append_filename front).symm
          (by simpa using Ne.symm slash : (47 : UInt8) ∉ [byte])
        have whole : render ((components front).dropLast ++ [filename front ++ [byte]]) =
            front ++ [byte] := by
          rw [← parts, render_components]
        rw [parts, List.reverse_append, List.reverse_singleton, List.singleton_append, climbed,
          List.reverse_cons, List.reverse_reverse, whole, found, if_neg (by simp)] at member
        · rw [List.mem_singleton.mp member]
        · simp

/-- The base of a path is the path itself or the path without its last slash. -/
theorem FsPath.base_eq (nonempty : root ≠ []) : base root = components root ∨
    ∃ front, root = front ++ [47] ∧ base root = components front := by
  unfold base
  cases named : hasFilename root with
  | true => exact .inl rfl
  | false =>
      obtain ⟨front, rfl⟩ := exists_of_hasFilename_eq_false named nonempty
      refine .inr ⟨front, rfl, ?_⟩
      rw [if_neg Bool.false_ne_true, components_append]
      exact List.dropLast_concat

/-- The root has components to put others behind. -/
theorem FsPath.base_ne_nil (nonempty : root ≠ []) : base root ≠ [] := by
  rcases base_eq nonempty with whole | ⟨_, _, whole⟩
  · rw [whole]
    exact components_ne_nil _
  · rw [whole]
    exact components_ne_nil _

/-- Climbing from a root that is there stops within it. -/
theorem Disk.within_of_mem_climbed_base (nonempty : root ≠ []) (plain : (0 : UInt8) ∉ root)
    (found : disk.look root = some .dir) {other : Bytes}
    (member : other ∈ disk.climbed (base root).reverse) : Within disk.cwd root other := by
  have same : location disk.cwd other = location disk.cwd root := by
    rcases base_eq nonempty with whole | ⟨front, rfl, whole⟩
    · rw [whole] at member
      exact location_of_mem_climbed nonempty plain found member _
    · rw [whole] at member
      by_cases top : front = []
      · subst top
        rw [List.mem_singleton.mp member]
        rfl
      · have plainFront : (0 : UInt8) ∉ front := fun zero => plain (List.mem_append_left _ zero)
        rw [location_trailing_slash top plainFront]
        exact location_of_mem_climbed top plainFront (look_of_trailing_slash top plainFront found)
          member _
  rw [Within, same]

/-- Below an existing directory nothing above it is looked at. -/
theorem Disk.within_of_mem_lookedAt (nonempty : root ≠ []) (plain : (0 : UInt8) ∉ root)
    (found : disk.look root = some .dir) {path : Bytes} (down : Downward path) {other : Bytes}
    (member : other ∈ disk.lookedAt (join root path)) : Within disk.cwd root other := by
  have relative : isAbsolute (cString path) = false := by
    rw [isAbsolute_cString]
    exact down.relative
  have cut : Downward (cString path) :=
    ⟨relative, fun dots => down.plain (dots.trans (List.takeWhile_prefix _).isInfix)⟩
  unfold lookedAt at member
  split at member
  · cases member
  · rw [cString_join plain down.relative, components_join nonempty relative,
      List.reverse_append] at member
    rcases mem_climbed_append (List.reverse_ne_nil_iff.mpr (base_ne_nil nonempty)) member with
      ⟨front, some, early, rfl⟩ | higher
    · have lower := cut.render some early
      rw [List.reverse_reverse, lower.render_base nonempty some fun name member =>
        not_mem_of_mem_components (early.subset member)]
      exact lower.within nonempty plain
    · exact within_of_mem_climbed_base nonempty plain found higher

end Basis
