import Cdfs.Basis.FileSystemRules

/-! # What a computation can throw

`Basis.Throws` says that every exception a computation ends with is allowed. A handler
answers for its own exceptions only: those of the computation it guards are gone. For the
calls of the file system the exceptions name the paths that the call was given.
-/

namespace Basis

variable {ε σ α β : Type}

/-- From every state the computation throws only allowed exceptions. -/
def Throws (allowed : ε → Prop) (computation : EStateM ε σ α) : Prop :=
  ∀ state, Ends computation state fun result _ => ∀ thrown, result = .error thrown → allowed thrown

/-- From every state the computation returns. -/
abbrev Returns (computation : EStateM ε σ α) : Prop := Throws (fun _ => False) computation

namespace Throws

variable {allowed : ε → Prop} {computation : EStateM ε σ α}

theorem pure (value : α) : Throws allowed (Pure.pure value : EStateM ε σ α) :=
  fun _ => Ends.pure fun _ thrown => nomatch thrown

/-- An allowed exception may be thrown. -/
theorem throw {thrown : ε} (permitted : allowed thrown) :
    Throws allowed (MonadExcept.throw thrown : EStateM ε σ α) := by
  intro state
  apply Ends.throw
  rintro other same
  cases same
  exact permitted

theorem get : Throws allowed (MonadState.get : EStateM ε σ σ) :=
  fun _ => Ends.get fun _ thrown => nomatch thrown

theorem modify (change : σ → σ) : Throws allowed (modify change : EStateM ε σ PUnit) :=
  fun _ => Ends.modify fun _ thrown => nomatch thrown

/-- Both branches, each under its condition. -/
theorem ite {condition : Prop} [Decidable condition] {other : EStateM ε σ α}
    (holds : condition → Throws allowed computation) (fails : ¬ condition → Throws allowed other) :
    Throws allowed (if condition then computation else other) :=
  fun state => Ends.ite (fun decided => holds decided state) fun decided => fails decided state

/-- The first computation, and what comes behind each of its values. -/
theorem bind {next : α → EStateM ε σ β} (first : Throws allowed computation)
    (rest : ∀ value, Throws allowed (next value)) : Throws allowed (computation >>= next) := by
  intro state
  apply Ends.bind (first state)
  · exact fun value middle _ => rest value middle
  · intro thrown middle permitted other same
    cases same
    exact permitted thrown rfl

/-- The exceptions of a guarded computation reach the handler and no further. -/
theorem tryCatch {handle : ε → EStateM ε σ α} {inner : ε → Prop} (first : Throws inner computation)
    (rest : ∀ thrown, inner thrown → Throws allowed (handle thrown)) :
    Throws allowed (tryCatch computation handle) := by
  intro state
  apply Ends.tryCatch (first state)
  · exact fun _ _ _ _ thrown => nomatch thrown
  · exact fun thrown middle guarded => rest thrown (guarded thrown rfl) middle

theorem any (computation : EStateM ε σ α) : Throws (fun _ => True) computation :=
  fun state => (Ends.any computation state).mono fun _ _ _ _ _ => trivial

end Throws

/-- What throws nothing throws only what is allowed. -/
theorem Returns.throws {allowed : ε → Prop} {computation : EStateM ε σ α}
    (returns : Returns computation) : Throws allowed computation :=
  fun state => (returns state).mono fun _ _ none thrown ended => (none thrown ended).elim

/-- A computation that ends with a value returns. -/
theorem Returns.of_ends {computation : EStateM ε σ α}
    (ends : ∀ state, Ends computation state fun result _ => ∃ value, result = .ok value) :
    Returns computation :=
  fun state => (ends state).mono fun _ _ ⟨_, returned⟩ _ thrown => by
    rw [returned] at thrown
    cases thrown

namespace Fs

variable {host : Host} {allowed : Exn → Prop} {path : Bytes}

theorem returns_begin (paths : List Bytes) : Returns (begin host paths) :=
  fun _ _ thrown => nomatch thrown

theorem returns_ask {γ : Type} (answer : Nat → γ) : Returns (ask answer) :=
  fun _ _ thrown => nomatch thrown

theorem returns_disk : Returns disk := fun _ _ thrown => nomatch thrown

theorem returns_setDisk (tree : Disk) : Returns (setDisk tree) := fun _ _ thrown => nomatch thrown

/-- `create_directories` reports a failure in its value. -/
theorem returns_createDirectories (path : Bytes) : Returns (createDirectories host path) :=
  .of_ends fun _ => (createDirectories_ends path).mono fun _ _ ⟨_, created, returned, _⟩ =>
    ⟨created, returned⟩

theorem returns_randomNumber : Returns (randomNumber host) :=
  .bind (returns_ask _) fun _ => .bind (returns_begin _) fun _ => .pure _

/-- A stream that cannot be opened for writing is in a failed state; nothing is thrown. -/
theorem returns_openTruncate (path : Bytes) : Returns (openTruncate host path) := by
  refine .bind (returns_begin _) fun outcome => ?_
  cases outcome with
  | fails written noticed => exact .pure _
  | none =>
      refine .bind returns_disk fun now => ?_
      split
      · exact .pure _
      · exact .ite (fun _ => .pure _) fun _ => .bind (returns_setDisk _) fun _ => .pure _

/-- A write that fails sets the state of the stream. -/
theorem returns_append (path data : Bytes) : Returns (append host path data) := by
  refine .bind (returns_begin _) fun outcome => .bind returns_disk fun now => ?_
  split
  · exact .pure _
  · split
    · exact .bind (returns_setDisk _) fun _ => .pure _
    · exact .bind (returns_setDisk _) fun _ => .pure _
    · exact .pure _

/-- A stream that cannot be opened for reading is in a failed state; nothing is thrown. -/
theorem returns_openRead (path : Bytes) : Returns (openRead host path) := by
  refine .bind (returns_begin _) fun outcome => ?_
  cases outcome with
  | fails written noticed => exact .pure _
  | none =>
      refine .bind returns_disk fun now => ?_
      split
      · exact .pure _
      · exact .pure _

section Named

variable (permitted : allowed (.filesystem [path]))

include permitted

/-- A query that fails throws an error with its path. -/
theorem throws_status : Throws allowed (status host path) := by
  refine .bind (returns_begin _).throws fun outcome => ?_
  cases outcome with
  | none => exact .bind returns_disk.throws fun _ => .pure _
  | fails written noticed => exact .throw permitted

theorem throws_exists : Throws allowed (exists_ host path) :=
  .bind (throws_status permitted) fun _ => .pure _

/-- `file_size` throws the same error for what is no regular file. -/
theorem throws_fileSize : Throws allowed (fileSize host path) := by
  refine .bind (throws_status permitted) fun entry => ?_
  split
  · exact .pure _
  · exact .throw permitted

/-- A removal that fails throws an error with its path. -/
theorem throws_remove : Throws allowed (remove host path) := by
  refine .bind (returns_ask _).throws fun failing => .bind (returns_begin _).throws fun _ => ?_
  refine .ite (fun _ => .throw permitted) fun _ => .bind returns_disk.throws fun now => ?_
  split
  · exact .ite (fun _ => .throw permitted) fun _ => .pure _
  · exact .ite (fun _ => .throw permitted) fun _ => (returns_setDisk _).throws

/-- `remove_all` throws an error with the path it is given, wherever below it fails. -/
theorem throws_removeAll : Throws allowed (removeAll host path) := by
  refine .bind (returns_ask _).throws fun failing => .bind (returns_ask _).throws fun first => ?_
  refine .bind (returns_begin _).throws fun _ => .bind returns_disk.throws fun now => ?_
  split
  · exact .ite (fun _ => .throw permitted) fun _ => .pure _
  · refine .ite (fun _ => .bind (returns_setDisk _).throws fun _ => .throw permitted) fun _ => ?_
    refine .bind (returns_setDisk _).throws fun _ => ?_
    split
    · exact .pure _
    · exact .ite (fun _ => (returns_setDisk _).throws) fun _ => .throw permitted

/-- Listing what is no directory throws an error with its path. -/
theorem throws_list : Throws allowed (list host path) := by
  refine .bind (returns_ask _).throws fun order => .bind (returns_begin _).throws fun outcome => ?_
  cases outcome with
  | fails written noticed => exact .throw permitted
  | none =>
      refine .bind returns_disk.throws fun now => ?_
      split
      · exact .throw permitted
      · exact .ite (fun _ => .pure _) fun _ => .throw permitted

end Named

/-- A rename that fails throws an error with both paths. -/
theorem throws_rename {source target : Bytes} (permitted : allowed (.filesystem [source, target])) :
    Throws allowed (rename host source target) := by
  refine .bind (returns_begin _).throws fun outcome => ?_
  cases outcome with
  | fails written noticed => exact .throw permitted
  | none =>
      refine .bind returns_disk.throws fun now => ?_
      split
      · split
        · exact .ite (fun _ => .throw permitted) fun _ => (returns_setDisk _).throws
        · exact .throw permitted
      · exact .throw permitted

end Fs

end Basis
