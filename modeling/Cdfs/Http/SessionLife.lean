import Cdfs.Basis.Run

/-! # Sessions and their timers

`server/HttpSession.cc`: the completion handlers of a session. A read or a write that is
outstanding keeps the session alive; its timer does not, so a completion of the timer that
is queued when the session goes finds it destroyed. The handlers of all sessions run in any
order, and the network decides how the operations complete.
-/

namespace Cdfs

open Basis

/-- An outstanding operation, with whether the socket was open when it was started. One
started on a closed socket fails; one that was started before may have completed already. -/
inductive Operation where
  | reading (opened : Bool)
  | writing (opened : Bool)
  deriving DecidableEq, Repr

/-- A session, with the numbers of its requests dispatched and answered. -/
structure Connection where
  socketOpen : Bool := true
  /-- The operation that holds the session. -/
  operation : Option Operation := some (.reading true)
  /-- The timer waits. -/
  armed : Bool := true
  /-- Completions of the timer that are queued. -/
  expired : Nat := 0
  dispatched : Nat := 0
  answered : Nat := 0
  /-- The handler of the timer has used the session after its end. -/
  touched : Bool := false
  deriving DecidableEq, Repr

/-- How a read completes; the handler of a request replies or lets an exception through. -/
inductive ReadResult where
  | message (replies : Bool)
  | endOfStream
  | failed
  deriving DecidableEq, Repr

/-- A completion handler of a session, or its timer runs out. -/
inductive SessionStep where
  | onRead (result : ReadResult)
  | onWrite (written : Bool)
  | expire
  | onTimeout
  deriving DecidableEq, Repr

namespace Connection

/-- The session is not destroyed. -/
def alive (connection : Connection) : Bool := connection.operation.isSome

/-- A request is awaited. -/
def isReading (connection : Connection) : Bool :=
  match connection.operation with
  | some (.reading _) => true
  | _ => false

/-- A reply is being written. -/
def isWriting (connection : Connection) : Bool :=
  match connection.operation with
  | some (.writing _) => true
  | _ => false

/-- A session that reads is held by its read. -/
theorem alive_of_isReading {connection : Connection} (reading : connection.isReading = true) :
    connection.alive = true := by
  unfold isReading at reading
  split at reading
  · next held => rw [alive, held, Option.isSome_some]
  · cases reading

/-- No handler holds the session any more: the socket is closed, and the timer cancelled. -/
def destroyed (connection : Connection) : Connection :=
  { connection with socketOpen := false, operation := none, armed := false }

/-- `on_read`. -/
def onRead (connection : Connection) : ReadResult → Connection
  | .message true => { connection with
      operation := some (.writing connection.socketOpen), armed := false,
      dispatched := connection.dispatched + 1 }
  | .message false => destroyed { connection with dispatched := connection.dispatched + 1 }
  | .endOfStream => destroyed connection
  | .failed => destroyed connection

/-- `on_write`: a reply written is followed by the next read, under a new timer. -/
def onWrite (connection : Connection) : Bool → Connection
  | true => { connection with
      operation := some (.reading connection.socketOpen), armed := true,
      answered := connection.answered + 1 }
  | false => destroyed connection

/-- The handler of the timer closes the socket of the session, or of what was one. -/
def onTimeout (connection : Connection) : Connection :=
  if connection.alive then
    { connection with expired := connection.expired - 1, socketOpen := false }
  else { connection with expired := connection.expired - 1, touched := true }

/-- A step of the session; what is not outstanding does not complete. -/
def step (connection : Connection) : SessionStep → Connection
  | .onRead result =>
      match connection.operation with
      | some (.reading opened) =>
          if opened ∨ result = .failed then connection.onRead result else connection
      | _ => connection
  | .onWrite written =>
      match connection.operation with
      | some (.writing opened) =>
          if opened ∨ written = false then connection.onWrite written else connection
      | _ => connection
  | .expire =>
      if connection.armed then
        { connection with armed := false, expired := connection.expired + 1 }
      else connection
  | .onTimeout => if 0 < connection.expired then connection.onTimeout else connection

end Connection

/-- All sessions there have been, and `g_active_connections`. -/
structure Sessions where
  activeConnections : Int32 := 0
  connections : List Connection := []
  deriving DecidableEq, Repr

/-- A connection is accepted, or a session takes a step. -/
inductive ServerStep where
  | accept
  | session (index : Nat) (label : SessionStep)
  deriving DecidableEq, Repr

namespace Sessions

/-- The constructor of a session counts it, the destructor takes it off. -/
def step (state : Sessions) : ServerStep → Sessions
  | .accept =>
      { activeConnections := state.activeConnections + 1
        connections := state.connections ++ [{}] }
  | .session index label =>
      match state.connections[index]? with
      | none => state
      | some connection =>
          let next := connection.step label
          { activeConnections :=
              if connection.alive ∧ next.alive = false then state.activeConnections - 1
              else state.activeConnections
            connections := state.connections.set index next }

end Sessions

namespace Connection

variable {connection : Connection}

/-- What a step can do. -/
inductive Moves (connection : Connection) : SessionStep → Connection → Prop where
  | rests {label : SessionStep} : Moves connection label connection
  | dispatches {opened : Bool} (reads : connection.operation = some (.reading opened))
      (usable : opened = true) : Moves connection (.onRead (.message true)) { connection with
        operation := some (.writing connection.socketOpen), armed := false,
        dispatched := connection.dispatched + 1 }
  | throws {opened : Bool} (reads : connection.operation = some (.reading opened))
      (usable : opened = true) : Moves connection (.onRead (.message false))
        (destroyed { connection with dispatched := connection.dispatched + 1 })
  | ends {opened : Bool} {result : ReadResult}
      (reads : connection.operation = some (.reading opened)) :
      Moves connection (.onRead result) connection.destroyed
  | answers {opened : Bool} (writes : connection.operation = some (.writing opened))
      (usable : opened = true) : Moves connection (.onWrite true) { connection with
        operation := some (.reading connection.socketOpen), armed := true,
        answered := connection.answered + 1 }
  | breaks {opened : Bool} (writes : connection.operation = some (.writing opened)) :
      Moves connection (.onWrite false) connection.destroyed
  | expires (armed : connection.armed = true) : Moves connection .expire
      { connection with armed := false, expired := connection.expired + 1 }
  | closes (queued : 0 < connection.expired) (alive : connection.alive = true) :
      Moves connection .onTimeout
        { connection with expired := connection.expired - 1, socketOpen := false }
  | touches (queued : 0 < connection.expired) (dead : connection.alive = false) :
      Moves connection .onTimeout
        { connection with expired := connection.expired - 1, touched := true }

/-- A step is one of the moves. -/
theorem moves_step (connection : Connection) (label : SessionStep) :
    Moves connection label (connection.step label) := by
  cases label with
  | onRead result =>
      unfold step
      dsimp only
      split
      · rename_i opened reads
        split
        · rename_i completes
          cases result with
          | message replies =>
              have usable : opened = true := completes.resolve_right nofun
              cases replies with
              | true => exact .dispatches reads usable
              | false => exact .throws reads usable
          | endOfStream => exact .ends reads
          | failed => exact .ends reads
        · exact .rests
      · exact .rests
  | onWrite written =>
      unfold step
      dsimp only
      split
      · rename_i opened writes
        split
        · rename_i completes
          cases written with
          | true => exact .answers writes (completes.resolve_right nofun)
          | false => exact .breaks writes
        · exact .rests
      · exact .rests
  | expire =>
      unfold step
      dsimp only
      split
      · rename_i armed
        exact .expires armed
      · exact .rests
  | onTimeout =>
      unfold step onTimeout
      dsimp only
      split
      · rename_i queued
        split
        · rename_i alive
          exact .closes queued alive
        · rename_i dead
          exact .touches queued (Bool.eq_false_iff.mpr dead)
      · exact .rests

/-! ## Requests and replies -/

/-- A reply for every request but the one at work, a timer only while a request is awaited,
and none awaited without one. -/
structure Orderly (connection : Connection) : Prop where
  replies : connection.answered ≤ connection.dispatched ∧
    connection.dispatched ≤ connection.answered + 1
  atWork : connection.alive = true →
    (connection.dispatched = connection.answered + 1 ↔ connection.isWriting = true)
  timed : connection.isReading = true →
    connection.armed = true ∨ 0 < connection.expired ∨ connection.socketOpen = false
  armed : connection.armed = true → connection.isReading = true

/-- A session starts orderly. -/
theorem orderly_start : Orderly {} where
  replies := ⟨le_rfl, Nat.le_succ 0⟩
  atWork := fun _ => iff_of_false (by decide) (by decide)
  timed := fun _ => .inl rfl
  armed := fun _ => rfl

/-- Destroying a session that nothing holds keeps it orderly. -/
theorem Orderly.destroyed (orderly : Orderly connection) : Orderly connection.destroyed where
  replies := orderly.replies
  atWork := fun alive => (by cases alive)
  timed := fun reading => (by cases reading)
  armed := fun armed => (by cases armed)

/-- A session that awaits a request has answered all of them. -/
theorem Orderly.answered_of_reading (orderly : Orderly connection) {opened : Bool}
    (reads : connection.operation = some (.reading opened)) :
    connection.dispatched = connection.answered := by
  have alive : connection.alive = true := by rw [alive, reads, Option.isSome_some]
  have quiet : connection.isWriting = false := by rw [isWriting, reads]
  have atWork := orderly.atWork alive
  rw [quiet] at atWork
  have bounds := orderly.replies
  have other : connection.dispatched ≠ connection.answered + 1 := fun same => by
    cases atWork.mp same
  omega

/-- Every step keeps a session orderly. -/
theorem Orderly.step (orderly : Orderly connection) (label : SessionStep) :
    Orderly (connection.step label) := by
  have moves := connection.moves_step label
  generalize connection.step label = next at moves
  cases moves with
  | rests => exact orderly
  | dispatches reads =>
      have same := orderly.answered_of_reading reads
      refine ⟨?_, fun _ => iff_of_true ?_ rfl, fun reading => (by cases reading),
        fun armed => (by cases armed)⟩
      · dsimp only
        omega
      · dsimp only
        omega
  | throws reads =>
      have same := orderly.answered_of_reading reads
      refine ⟨?_, fun alive => (by cases alive), fun reading => (by cases reading),
        fun armed => (by cases armed)⟩
      change connection.answered ≤ connection.dispatched + 1 ∧
        connection.dispatched + 1 ≤ connection.answered + 1
      omega
  | ends => exact orderly.destroyed
  | answers writes =>
      have alive : connection.alive = true := by rw [Connection.alive, writes, Option.isSome_some]
      have writing : connection.isWriting = true := by rw [isWriting, writes]
      have same := (orderly.atWork alive).mpr writing
      refine ⟨?_, fun _ => iff_of_false ?_ nofun, fun _ => .inl rfl, fun _ => rfl⟩
      · dsimp only
        omega
      · dsimp only
        omega
  | breaks => exact orderly.destroyed
  | expires armed =>
      exact ⟨orderly.replies, orderly.atWork, fun _ => .inr (.inl (Nat.succ_pos _)),
        fun armed => (by cases armed)⟩
  | closes =>
      exact ⟨orderly.replies, orderly.atWork, fun _ => .inr (.inr rfl), orderly.armed⟩
  | touches queued dead =>
      refine ⟨orderly.replies, orderly.atWork, fun reading => ?_, orderly.armed⟩
      unfold isReading at reading
      unfold Connection.alive at dead
      cases operation : connection.operation with
      | none => simp [operation] at reading
      | some => simp [operation] at dead

/-! ## Behind the end of the connection -/

/-- The requests a session with a closed socket may still dispatch: a read started before
may have completed. -/
def budget (connection : Connection) : Nat :=
  if connection.operation = some (.reading true) then 1 else 0

/-- Behind the closing of the socket every request dispatched is one less to come. -/
theorem dispatched_step_of_closed (closed : connection.socketOpen = false) (label : SessionStep) :
    (connection.step label).socketOpen = false ∧
      (connection.step label).dispatched + (connection.step label).budget ≤
        connection.dispatched + connection.budget := by
  have moves := connection.moves_step label
  generalize connection.step label = next at moves
  cases moves with
  | rests => exact ⟨closed, le_rfl⟩
  | dispatches reads usable =>
      refine ⟨closed, ?_⟩
      rw [budget, budget, reads, usable, closed]
      exact le_rfl
  | throws reads usable =>
      refine ⟨rfl, ?_⟩
      rw [budget, budget, reads, usable]
      exact le_rfl
  | ends => exact ⟨rfl, Nat.le_add_right _ _⟩
  | answers writes usable =>
      refine ⟨closed, ?_⟩
      rw [budget, budget, writes, usable, closed]
      exact le_rfl
  | breaks => exact ⟨rfl, Nat.le_add_right _ _⟩
  | expires => exact ⟨closed, le_rfl⟩
  | closes => exact ⟨rfl, le_rfl⟩
  | touches => exact ⟨closed, le_rfl⟩

/-- A closed session dispatches at most what it still holds. -/
theorem dispatched_run_of_closed (closed : connection.socketOpen = false)
    (labels : List SessionStep) :
    (run step connection labels).socketOpen = false ∧
      (run step connection labels).dispatched ≤ connection.dispatched + connection.budget := by
  induction labels generalizing connection with
  | nil => exact ⟨closed, Nat.le_add_right _ _⟩
  | cons label labels ih =>
      obtain ⟨stays, bound⟩ := dispatched_step_of_closed closed label
      obtain ⟨later, total⟩ := ih stays
      exact ⟨later, total.trans bound⟩

/-! ## The timer of a session that has ended -/

/-- The timer waits for a session that is there, no completion of it is queued for one that
is not, and none has found a session destroyed. -/
structure Timely (connection : Connection) : Prop where
  armed : connection.armed = true → connection.alive = true
  queued : 0 < connection.expired → connection.alive = true
  untouched : connection.touched = false

/-- From a timely session a step leads to one exactly when it does not end the session with
a completion of its timer queued. -/
theorem timely_step_iff (timely : Timely connection) (label : SessionStep) :
    Timely (connection.step label) ↔
      (0 < connection.expired → (connection.step label).alive = true ∨
        connection.alive = false) := by
  have moves := connection.moves_step label
  generalize connection.step label = next at moves
  have alive_of {operation : Operation} (held : connection.operation = some operation) :
      connection.alive = true := by rw [alive, held, Option.isSome_some]
  -- A session that ends is timely if no completion is queued.
  have ended {dispatched : Nat} (alive : connection.alive = true) :
      Timely (destroyed { connection with dispatched }) ↔
        (0 < connection.expired → (destroyed { connection with dispatched }).alive = true ∨
          connection.alive = false) := by
    constructor
    · exact fun after queued => .inl (after.queued queued)
    · intro kept
      refine ⟨fun armed => (by cases armed), fun queued => ?_, timely.untouched⟩
      rcases kept queued with still | dead
      · cases still
      · rw [alive] at dead
        cases dead
  cases moves with
  | rests =>
      exact iff_of_true timely fun queued => .inl (timely.queued queued)
  | dispatches =>
      exact iff_of_true ⟨fun _ => rfl, fun _ => rfl, timely.untouched⟩ fun _ => .inl rfl
  | throws reads => exact ended (alive_of reads)
  | ends reads => exact ended (alive_of reads)
  | answers =>
      exact iff_of_true ⟨fun _ => rfl, fun _ => rfl, timely.untouched⟩ fun _ => .inl rfl
  | breaks writes => exact ended (alive_of writes)
  | expires armed =>
      have alive := timely.armed armed
      exact iff_of_true ⟨fun armed => (by cases armed), fun _ => alive, timely.untouched⟩
        fun _ => .inl alive
  | closes _ alive =>
      exact iff_of_true ⟨timely.armed, fun _ => alive, timely.untouched⟩ fun _ => .inl alive
  | touches queued dead =>
      rw [timely.queued queued] at dead
      cases dead

/-- A session that has ended stays ended. -/
theorem dead_step (dead : connection.alive = false) (label : SessionStep) :
    (connection.step label).alive = false := by
  have moves := connection.moves_step label
  generalize connection.step label = next at moves
  cases moves with
  | dispatches reads | throws reads | ends reads =>
      rw [alive, reads] at dead
      cases dead
  | answers writes | breaks writes =>
      rw [alive, writes] at dead
      cases dead
  | rests | expires | closes | touches => exact dead

end Connection

namespace Sessions

variable {state : Sessions} {index : Nat} {connection : Connection}

/-- The steps of one session. -/
def ownSteps (index : Nat) (labels : List ServerStep) : List SessionStep :=
  labels.filterMap fun
    | .accept => none
    | .session other label => if other = index then some label else none

/-- A session goes through its own steps, whatever the others do. -/
theorem getElem?_step (found : state.connections[index]? = some connection) (label : ServerStep) :
    (state.step label).connections[index]? =
      some (run Connection.step connection (ownSteps index [label])) := by
  have inside := (List.getElem?_eq_some_iff.mp found).1
  cases label with
  | accept => exact (List.getElem?_append_left inside).trans found
  | session other label =>
      by_cases own : other = index
      · subst own
        have steps : ownSteps other [.session other label] = [label] := by simp [ownSteps]
        rw [steps, step, found]
        exact List.getElem?_set_self inside
      · have steps : ownSteps index [.session other label] = [] := by simp [ownSteps, own]
        rw [steps, step]
        split
        · exact found
        · exact (List.getElem?_set_ne own).trans found

/-- A run of the server runs each session by its own steps. -/
theorem getElem?_run (found : state.connections[index]? = some connection)
    (labels : List ServerStep) :
    (run step state labels).connections[index]? =
      some (run Connection.step connection (ownSteps index labels)) := by
  induction labels generalizing state connection with
  | nil => exact found
  | cons label labels ih =>
      have later := ih (getElem?_step found label)
      rwa [← run_append, ownSteps, ownSteps, ← List.filterMap_append] at later

/-- A predicate that new sessions have and steps keep holds of all sessions. -/
theorem forall_step {predicate : Connection → Prop} (initial : predicate {})
    (preserved : ∀ connection label, predicate connection → predicate (connection.step label))
    (kept : ∀ connection ∈ state.connections, predicate connection) (label : ServerStep) :
    ∀ connection ∈ (state.step label).connections, predicate connection := by
  intro connection member
  cases label with
  | accept =>
      rcases List.mem_append.mp member with old | new
      · exact kept connection old
      · rw [List.mem_singleton.mp new]
        exact initial
  | session index label =>
      unfold step at member
      dsimp only at member
      split at member
      · exact kept connection member
      · rename_i current found
        rcases List.mem_or_eq_of_mem_set member with old | new
        · exact kept connection old
        · rw [new]
          exact preserved _ _ (kept current (List.mem_of_getElem? found))

/-- The counter is the number of sessions that are alive. -/
def Counted (state : Sessions) : Prop :=
  state.activeConnections = Int32.ofNat (state.connections.countP Connection.alive)

/-- A step keeps the count of the sessions. -/
theorem counted_step (counted : Counted state) (label : ServerStep) : Counted (state.step label) := by
  unfold Counted at *
  cases label with
  | accept =>
      rw [step, counted, List.countP_append, Int32.ofNat_add]
      rfl
  | session index label =>
      unfold step
      dsimp only
      split
      · exact counted
      · rename_i current found
        obtain ⟨inside, here⟩ := List.getElem?_eq_some_iff.mp found
        dsimp only
        rw [List.countP_set inside, here]
        by_cases alive : current.alive = true
        · have positive : 0 < state.connections.countP Connection.alive :=
            List.countP_pos_iff.mpr ⟨current, List.mem_of_getElem? found, alive⟩
          cases after : (current.step label).alive with
          | true =>
              simp only [alive, Bool.true_eq_false, and_false, ↓reduceIte]
              rw [counted, Nat.sub_add_cancel positive]
          | false =>
              simp only [alive, and_self, ↓reduceIte, Bool.false_eq_true, Nat.add_zero]
              obtain ⟨others, total⟩ := Nat.exists_eq_succ_of_ne_zero positive.ne'
              rw [counted, total, Nat.succ_sub_one, Nat.succ_eq_add_one, Int32.ofNat_add]
              exact Int32.add_sub_cancel _ _
        · have dead := Connection.dead_step (Bool.eq_false_iff.mpr alive) label
          simp only [alive, dead, Bool.false_eq_true, false_and, ↓reduceIte, Nat.sub_zero,
            Nat.add_zero]
          exact counted

/-- What a session starts with and every step keeps holds of all sessions of a run. -/
theorem forall_run {predicate : Connection → Prop} (initial : predicate {})
    (preserved : ∀ connection label, predicate connection → predicate (connection.step label))
    (labels : List ServerStep) : ∀ connection ∈ (run step {} labels).connections, predicate connection := by
  induction labels using List.reverseRecOn with
  | nil => exact fun _ member => (by cases member)
  | append_singleton labels label ih =>
      rw [run_concat]
      exact forall_step initial preserved ih label

/-- Every session of every run is orderly. -/
theorem orderly_run (labels : List ServerStep) :
    ∀ connection ∈ (run step {} labels).connections, connection.Orderly :=
  forall_run Connection.orderly_start (fun _ label orderly => Connection.Orderly.step orderly label)
    labels

/-- **Sessions are counted and orderly in every run.** The counter is the number of sessions
alive; every session answers its requests one by one, with at most one at work; its timer
waits only while a request is awaited, and no request is awaited without a limit. -/
theorem orderly_of_run (labels : List ServerStep) :
    Counted (run step {} labels) ∧
      ∀ connection ∈ (run step {} labels).connections, connection.Orderly := by
  refine ⟨?_, orderly_run labels⟩
  induction labels using List.reverseRecOn with
  | nil => exact rfl
  | append_singleton labels label ih =>
      rw [run_concat]
      exact counted_step ih label

/-- **Behind its closing a session dispatches at most one request more**, and only one whose
read was started before. -/
theorem dispatched_of_closed (earlier later : List ServerStep)
    (found : (run step {} earlier).connections[index]? = some connection)
    (closed : connection.socketOpen = false) :
    ∃ final, (run step {} (earlier ++ later)).connections[index]? = some final ∧
      final.socketOpen = false ∧ final.dispatched ≤ connection.dispatched + 1 ∧
      (connection.operation ≠ some (.reading true) → final.dispatched ≤ connection.dispatched) := by
  refine ⟨_, by rw [run_append, getElem?_run found], ?_⟩
  obtain ⟨stays, bound⟩ := Connection.dispatched_run_of_closed closed (ownSteps index later)
  unfold Connection.budget at bound
  refine ⟨stays, ?_, fun other => ?_⟩
  · split at bound
    · exact bound
    · exact bound.trans (Nat.le_succ _)
  · rw [if_neg other] at bound
    exact bound

/-- A session whose socket the timer has closed. -/
def timedOut : Connection := { socketOpen := false, armed := false }

/-- The limit runs out when a read has completed: its request is dispatched, and the reply
fails. -/
theorem dispatched_of_lateRead :
    ∃ final, (run step {} ([.accept, .session 0 .expire, .session 0 .onTimeout] ++
        [.session 0 (.onRead (.message true)), .session 0 (.onWrite true),
          .session 0 (.onWrite false)])).connections[0]? = some final ∧
      final.socketOpen = false ∧ final.dispatched ≤ timedOut.dispatched + 1 ∧
      (timedOut.operation ≠ some (.reading true) → final.dispatched ≤ timedOut.dispatched) :=
  dispatched_of_closed [.accept, .session 0 .expire, .session 0 .onTimeout] _
    (by decide) (by decide)

/-! ## The timers -/

/-- No timer runs for a session that has ended, no completion of one is queued, and none has
used a destroyed session. -/
def Safe (state : Sessions) : Prop := ∀ connection ∈ state.connections, connection.Timely

/-- The step does not end a session while a completion of its timer is queued. -/
def KeepsTimers (state : Sessions) (label : ServerStep) : Prop :=
  ∀ index own connection, label = .session index own →
    state.connections[index]? = some connection → 0 < connection.expired →
    (connection.step own).alive = true ∨ connection.alive = false

/-- A step keeps the timers if and only if it leads to a safe state. -/
theorem keepsTimers_iff (safe : Safe state) (label : ServerStep) :
    KeepsTimers state label ↔ Safe (state.step label) := by
  cases label with
  | accept =>
      refine iff_of_true (fun _ _ _ other => (by cases other)) fun connection member => ?_
      rcases List.mem_append.mp member with old | new
      · exact safe connection old
      · rw [List.mem_singleton.mp new]
        exact ⟨fun _ => rfl, fun _ => rfl, rfl⟩
  | session index label =>
      cases found : state.connections[index]? with
      | none =>
          have same : state.step (.session index label) = state := by rw [step, found]
          rw [same]
          refine iff_of_true ?_ safe
          rintro _ _ connection ⟨⟩ here
          rw [found] at here
          cases here
      | some connection =>
          have timely := Connection.timely_step_iff (safe connection (List.mem_of_getElem? found)) label
          have inside := (List.getElem?_eq_some_iff.mp found).1
          have after : (state.step (.session index label)).connections =
              state.connections.set index (connection.step label) := by rw [step, found]
          constructor
          · intro keeps other member
            rw [after] at member
            rcases List.mem_or_eq_of_mem_set member with old | rfl
            · exact safe other old
            · exact timely.mpr (keeps index label connection rfl found)
          · rintro safely _ _ current ⟨⟩ here
            rw [found] at here
            cases here
            refine timely.mp (safely _ ?_)
            rw [after]
            exact List.mem_of_getElem? (List.getElem?_set_self inside)

/-- No handler of a timer has used a destroyed session, and none does when a completion
that is queued comes next. -/
def Unharmed (state : Sessions) : Prop :=
  ∀ index, ∀ connection ∈ (state.step (.session index .onTimeout)).connections,
    connection.touched = false

/-- As long as timers wait for sessions that are there, these are the safe states. -/
theorem safe_iff_unharmed (timers : ∀ connection ∈ state.connections,
    connection.armed = true → connection.alive = true) : Safe state ↔ Unharmed state := by
  constructor
  · intro safe index connection member
    refine ((keepsTimers_iff safe (.session index .onTimeout)).mp ?_ connection member).untouched
    rintro _ _ current ⟨⟩ found queued
    have alive := (safe current (List.mem_of_getElem? found)).queued queued
    left
    rw [Connection.step, if_pos queued, Connection.onTimeout, if_pos alive]
    exact alive
  · intro unharmed connection member
    refine ⟨timers connection member, fun queued => ?_, ?_⟩
    · obtain ⟨index, found⟩ := List.getElem?_of_mem member
      by_contra dead
      have touched : (connection.step .onTimeout).touched = true := by
        rw [Connection.step, if_pos queued, Connection.onTimeout, if_neg dead]
      have there : connection.step .onTimeout ∈
          (state.step (.session index .onTimeout)).connections := by
        rw [step, found]
        exact List.mem_of_getElem?
          (List.getElem?_set_self (List.getElem?_eq_some_iff.mp found).1)
      rw [unharmed index _ there] at touched
      cases touched
    · have none : state.connections[state.connections.length]? = none :=
        List.getElem?_eq_none (Nat.le_refl _)
      have same : state.step (.session state.connections.length .onTimeout) = state := by
        rw [step, none]
      exact unharmed state.connections.length connection (same.symm ▸ member)

/-- **When the handler of a timer can find its session destroyed.** In a run no handler of a
timer uses a destroyed session, whichever queued completion comes next, if and only if no
session ends while a completion of its timer is queued. -/
theorem unharmed_iff (labels : List ServerStep) :
    (∀ taken, taken <+: labels → Unharmed (run step {} taken)) ↔
      Permitted step KeepsTimers {} labels := by
  have safe : Permitted step KeepsTimers {} labels ↔
      ∀ taken, taken <+: labels → Safe (run step {} taken) :=
    permitted_iff_forall_run Safe (fun _ member => (by cases member))
      (fun _ label safe => keepsTimers_iff safe label) labels
  rw [safe]
  refine forall₂_congr fun taken _ => (safe_iff_unharmed fun connection member armed => ?_).symm
  exact Connection.alive_of_isReading ((orderly_run taken connection member).armed armed)

/-- The timer runs out while the client ends the stream. -/
example : (run step {} [.accept, .session 0 .expire, .session 0 (.onRead .endOfStream),
    .session 0 .onTimeout]).connections.map Connection.touched = [true] := by
  decide

end Sessions

end Cdfs
