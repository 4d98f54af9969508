import Cdfs.Basis.DecimalOrder
import Cdfs.Basis.Run
import Cdfs.Common.LogStream

/-! # The dates of log lines

`common/logger.cc`: the constructor of a `Logger` writes the date to its stream only when
the second differs from that of the previous statement of the thread, and the destructor
drops the line of a statement below the level. So most lines carry no date, and a dropped
line can take the date of its second with it. A reader gives such a line the date of the
last dated line of the thread (`Cdfs.Logger.dates`).
-/

namespace Cdfs

open Basis FsPath

/-- `Logger::LogLevel`. -/
inductive LogLevel where
  | trace
  | debug
  | info
  | warn
  | error
  | fatal
  deriving DecidableEq, Repr

namespace LogLevel

def toNat : LogLevel → Nat
  | trace => 0
  | debug => 1
  | info => 2
  | warn => 3
  | error => 4
  | fatal => 5

/-- `LogLevelName`. -/
def name : LogLevel → Bytes
  | trace => bytes "TRACE "
  | debug => bytes "DEBUG "
  | info => bytes "INFO  "
  | warn => bytes "WARN  "
  | error => bytes "ERROR "
  | fatal => bytes "FATAL "

end LogLevel

/-- What `localtime_r` fills in, the year and the month as they are printed. The assertion
behind the printing wants a year of four digits. -/
structure LocalTime where
  year : Nat
  month : Nat
  day : Nat
  hour : Nat
  minute : Nat
  second : Nat
  year_digits : 1000 ≤ year ∧ year < 10000
  month_le : month ≤ 12
  day_le : day ≤ 31
  hour_lt : hour < 24
  minute_lt : minute < 60
  second_le : second ≤ 60

/-- `%02d` and the like. -/
def padded (width : Nat) (fill : UInt8) (number : Nat) : Bytes :=
  List.replicate (width - (decimal number).length) fill ++ decimal number

/-- `%4d%02d%02d %02d:%02d:%02d`. -/
def LocalTime.text (time : LocalTime) : Bytes :=
  padded 4 32 time.year ++ (padded 2 48 time.month ++ (padded 2 48 time.day ++ 32 ::
    (padded 2 48 time.hour ++ 58 :: (padded 2 48 time.minute ++ 58 :: padded 2 48 time.second))))

/-- A log statement: its level, the time in microseconds since the epoch, the place in the
source, and what is written to the stream. -/
structure LogStatement where
  level : LogLevel
  microseconds : Nat
  file : Bytes
  line : Int32
  message : List LogPiece

/-- The second of a statement. -/
def LogStatement.seconds (statement : LogStatement) : Nat := statement.microseconds / 1000000

/-- The threads that log: `_lastSecond` of each, and what has been passed to the output
function by which thread. -/
structure Logger (Thread : Type) where
  lastSecond : Thread → Nat := fun _ => 0
  output : List (Thread × Bytes) := []

namespace Logger

section Statements

variable (localtime : Nat → LocalTime)

/-- `formatTime`. -/
def formatTime (lastSecond : Nat) (statement : LogStatement) : List LogPiece :=
  if statement.seconds ≠ lastSecond then
    [.chars (some (localtime statement.seconds).text),
      .chars (some (46 :: padded 6 48 (statement.microseconds % 1000000)))]
  else []

/-- All that is written to the stream of a statement whose line is passed on. -/
def pieces (lastSecond : Nat) (statement : LogStatement) : List LogPiece :=
  formatTime localtime lastSecond statement ++
    ([.chars (some (bytes " ")), .chars (some statement.level.name)] ++ (statement.message ++
      [.chars (some (bytes " -")), .string statement.file, .chars (some (bytes ":")),
        .number statement.line, .chars (some (bytes "\n"))]))

variable {Thread : Type} [DecidableEq Thread] (logLevel : LogLevel) (memory : Nat → UInt8)

/-- The line is dropped by the destructor. -/
def Dropped (statement : LogStatement) : Prop := statement.level.toNat < logLevel.toNat

instance (statement : LogStatement) : Decidable (Dropped logLevel statement) :=
  inferInstanceAs (Decidable (_ < _))

/-- A log statement of a thread. -/
def step (logger : Logger Thread) (log : Thread × LogStatement) : Logger Thread where
  lastSecond := fun thread =>
    if thread = log.1 then log.2.seconds else logger.lastSecond thread
  output :=
    if Dropped logLevel log.2 then logger.output
    else logger.output ++ [(log.1, (LogStream.logged memory
      (pieces localtime (logger.lastSecond log.1) log.2)).content)]

/-- The lines that a thread has passed on. -/
def linesOf (logger : Logger Thread) (thread : Thread) : List Bytes :=
  (logger.output.filter fun entry => entry.1 = thread).map Prod.snd

end Statements

/-! ## Reading the dates -/

/-- The date of a line: its own, or the one read last when it starts with a space. -/
def readDate (previous line : Bytes) : Bytes :=
  if line.head? = some 32 then previous else line.take 17

/-- The dates of the lines of a thread, one after the other. -/
def dates (previous : Bytes) : List Bytes → List Bytes
  | [] => []
  | line :: rest => readDate previous line :: dates (readDate previous line) rest

/-- Every line that is passed on stands behind the date of its second: the first statement
of the second has passed its line on as well. -/
def Covered (logLevel : LogLevel) (lastSecond : Nat) (shown : Bool) : List LogStatement → Prop
  | [] => True
  | statement :: rest =>
      let passed := decide (¬ Dropped logLevel statement)
      let covers := if statement.seconds ≠ lastSecond then passed else shown
      (passed = true → covers = true) ∧ Covered logLevel statement.seconds covers rest

instance decidableCovered (logLevel : LogLevel) (lastSecond : Nat) (shown : Bool) :
    (statements : List LogStatement) → Decidable (Covered logLevel lastSecond shown statements)
  | [] => .isTrue trivial
  | statement :: rest =>
      have := decidableCovered logLevel statement.seconds
        (if statement.seconds ≠ lastSecond then decide (¬ Dropped logLevel statement) else shown) rest
      inferInstanceAs (Decidable (_ ∧ _))

/-! ## What a line starts with -/

section Lines

variable {localtime : Nat → LocalTime} {lastSecond : Nat} {statement : LogStatement}

/-- A short number is filled up to the width. -/
theorem length_padded {width : Nat} {fill : UInt8} {number : Nat}
    (short : (decimal number).length ≤ width) : (padded width fill number).length = width := by
  rw [padded, List.length_append, List.length_replicate]
  omega

/-- A padded number has no zero byte. -/
theorem zero_not_mem_padded {fill : UInt8} (plain : fill ≠ 0) (width number : Nat) :
    (0 : UInt8) ∉ padded width fill number := by
  rw [padded, List.mem_append, not_or]
  refine ⟨fun member => plain (List.eq_of_mem_replicate member).symm, fun member => ?_⟩
  exact absurd (isDigit_of_mem_decimal member) (by decide)

/-- The date has 17 characters. -/
theorem length_text (time : LocalTime) : time.text.length = 17 := by
  have year : (padded 4 32 time.year).length = 4 :=
    length_padded ((digitCount_le_iff (by decide)).mpr time.year_digits.2)
  have two {number : Nat} (small : number < 100) : (padded 2 48 number).length = 2 :=
    length_padded ((digitCount_le_iff (by decide)).mpr small)
  have month := time.month_le
  have day := time.day_le
  have hour := time.hour_lt
  have minute := time.minute_lt
  have second := time.second_le
  simp only [LocalTime.text, List.length_append, List.length_cons, year,
    two (show time.month < 100 by omega), two (show time.day < 100 by omega),
    two (show time.hour < 100 by omega), two (show time.minute < 100 by omega),
    two (show time.second < 100 by omega)]

/-- The date is printed as a whole. -/
theorem cString_text (time : LocalTime) : cString time.text = time.text := by
  have fill : (48 : UInt8) ≠ 0 := by decide
  refine cString_of_not_mem ?_
  simp only [LocalTime.text, List.mem_append, List.mem_cons, not_or]
  exact ⟨zero_not_mem_padded (by decide) _ _, zero_not_mem_padded fill _ _,
    zero_not_mem_padded fill _ _, by decide, zero_not_mem_padded fill _ _, by decide,
    zero_not_mem_padded fill _ _, by decide, zero_not_mem_padded fill _ _⟩

/-- A date starts with a digit of the year. -/
theorem head_text (time : LocalTime) : time.text.head? ≠ some 32 := by
  have long : 4 ≤ (decimal time.year).length := by
    by_contra short
    have small := (@digitCount_le_iff time.year 3 (by decide)).mp (Nat.le_of_lt_succ (Nat.not_le.mp short))
    exact absurd time.year_digits.1 (Nat.not_le.mpr small)
  obtain ⟨first, more, digits⟩ := List.exists_cons_of_ne_nil (decimal_ne_nil time.year)
  intro space
  rw [LocalTime.text, padded, Nat.sub_eq_zero_of_le long, List.replicate_zero, List.nil_append,
    digits, List.cons_append, List.head?_cons, Option.some.injEq] at space
  have digit : isDigit first = true :=
    isDigit_of_mem_decimal (digits ▸ List.mem_cons_self .. : first ∈ decimal time.year)
  rw [space] at digit
  exact absurd digit (by decide)

/-- What has been written stays in front. -/
theorem prefix_foldl_extend (start : Bytes) (pieces : List LogPiece) :
    start <+: pieces.foldl LogStream.extend start := by
  induction pieces generalizing start with
  | nil => exact List.prefix_refl _
  | cons piece rest ih =>
      refine List.IsPrefix.trans ?_ (ih _)
      unfold LogStream.extend
      split
      · exact List.prefix_append ..
      · exact List.prefix_refl _

/-- The first text of a line stands at its front if it is not too long. -/
theorem prefix_line {str : Bytes} (short : (cString str).length ≤ 4000) (rest : List LogPiece) :
    cString str <+: LogStream.line (.chars (some str) :: rest) := by
  have fits : LogStream.Fits (LogStream.kSmallBuffer - ([] : Bytes).length) (.chars (some str)) :=
    short
  rw [LogStream.line, List.foldl_cons, LogStream.extend, if_pos fits]
  exact prefix_foldl_extend ..

/-- A line of another second than the last has its date. -/
theorem readDate_of_stamped (previous : Bytes) (changed : statement.seconds ≠ lastSecond) :
    readDate previous (LogStream.line (pieces localtime lastSecond statement)) =
      (localtime statement.seconds).text := by
  have length := length_text (localtime statement.seconds)
  have front : (localtime statement.seconds).text <+:
      LogStream.line (pieces localtime lastSecond statement) := by
    rw [pieces, formatTime, if_pos changed, List.cons_append]
    have short : (cString (localtime statement.seconds).text).length ≤ 4000 := by
      rw [cString_text, length]
      decide
    have start := prefix_line short
    rw [cString_text] at start
    exact start _
  obtain ⟨rest, line⟩ := front
  rw [← line, readDate, List.head?_append_of_ne_nil _ (List.ne_nil_of_length_pos (by omega)),
    if_neg (head_text _), ← length, List.take_left]

/-- A line of the same second has none, and is read with the date before it. -/
theorem readDate_of_unstamped (previous : Bytes) (same : statement.seconds = lastSecond) :
    readDate previous (LogStream.line (pieces localtime lastSecond statement)) = previous := by
  have front : cString (bytes " ") <+: LogStream.line (pieces localtime lastSecond statement) := by
    rw [pieces, formatTime, if_neg (not_not.mpr same), List.nil_append, List.cons_append]
    exact prefix_line (by decide) _
  obtain ⟨rest, line⟩ := front
  rw [← line, readDate]
  exact if_pos rfl

end Lines

/-! ## Runs -/

section Runs

variable (localtime : Nat → LocalTime) (logLevel : LogLevel) (memory : Nat → UInt8)

/-- The statements of a thread. -/
def statementsOf {Thread : Type} [DecidableEq Thread] (thread : Thread)
    (logs : List (Thread × LogStatement)) : List LogStatement :=
  (logs.filter fun log => log.1 = thread).map Prod.snd

/-- The lines of the statements of one thread. -/
def linesFrom (lastSecond : Nat) : List LogStatement → List Bytes
  | [] => []
  | statement :: rest =>
      if Dropped logLevel statement then linesFrom statement.seconds rest
      else LogStream.line (pieces localtime lastSecond statement) :: linesFrom statement.seconds rest

/-- What the other threads log does not matter to the lines of a thread. -/
theorem linesOf_run {Thread : Type} [DecidableEq Thread] (logger : Logger Thread)
    (thread : Thread) (logs : List (Thread × LogStatement)) :
    linesOf (run (step localtime logLevel memory) logger logs) thread = linesOf logger thread ++
      linesFrom localtime logLevel (logger.lastSecond thread) (statementsOf thread logs) := by
  induction logs generalizing logger with
  | nil => exact (List.append_nil _).symm
  | cons log logs ih =>
      have later : run (step localtime logLevel memory) logger (log :: logs) =
          run (step localtime logLevel memory) (step localtime logLevel memory logger log) logs := rfl
      rw [later, ih]
      by_cases own : log.1 = thread
      · have listed : statementsOf thread (log :: logs) = log.2 :: statementsOf thread logs := by
          rw [statementsOf, List.filter_cons_of_pos (by simpa using own)]
          rfl
        have second : (step localtime logLevel memory logger log).lastSecond thread = log.2.seconds :=
          if_pos own.symm
        rw [listed, second, linesFrom]
        unfold step linesOf
        dsimp only
        split
        · rfl
        · rw [(LogStream.logged_spec memory _).2, List.filter_append, List.map_append,
            List.append_assoc, ← own, List.filter_cons_of_pos (by simp)]
          rfl
      · have listed : statementsOf thread (log :: logs) = statementsOf thread logs := by
          rw [statementsOf, List.filter_cons_of_neg (by simpa using own)]
          rfl
        have second : (step localtime logLevel memory logger log).lastSecond thread =
            logger.lastSecond thread := if_neg fun same => own same.symm
        rw [listed, second]
        congr 1
        unfold step linesOf
        dsimp only
        split
        · rfl
        · rw [List.filter_append, List.map_append, List.filter_cons_of_neg (by simpa using own)]
          exact List.append_nil _

end Runs

section Dates

variable {localtime : Nat → LocalTime} {logLevel : LogLevel} {statements : List LogStatement}

/-- The lines that are passed on, with their own dates. -/
def datesOf (localtime : Nat → LocalTime) (logLevel : LogLevel) (statements : List LogStatement) :
    List Bytes :=
  (statements.filter fun statement => ¬ Dropped logLevel statement).map fun statement =>
    (localtime statement.seconds).text

/-- What the reader has read last, as long as it is the date of the last second. -/
theorem dates_linesFrom {lastSecond : Nat} {shown : Bool} {previous : Bytes}
    (read : shown = true → previous = (localtime lastSecond).text)
    (covered : Covered logLevel lastSecond shown statements) :
    dates previous (linesFrom localtime logLevel lastSecond statements) =
      datesOf localtime logLevel statements := by
  induction statements generalizing lastSecond shown previous with
  | nil => rfl
  | cons statement rest ih =>
      obtain ⟨here, later⟩ := covered
      unfold linesFrom datesOf
      by_cases dropped : Dropped logLevel statement
      · rw [if_pos dropped, List.filter_cons_of_neg (by simpa using dropped)]
        refine ih (fun covers => ?_) later
        by_cases changed : statement.seconds ≠ lastSecond
        · rw [if_pos changed, decide_eq_true_eq] at covers
          exact absurd dropped covers
        · rw [if_neg changed] at covers
          rw [not_not.mp changed]
          exact read covers
      · have passed : decide (¬ Dropped logLevel statement) = true := decide_eq_true dropped
        have own : readDate previous (LogStream.line (pieces localtime lastSecond statement)) =
            (localtime statement.seconds).text := by
          by_cases changed : statement.seconds ≠ lastSecond
          · exact readDate_of_stamped previous changed
          · have covers := here passed
            rw [if_neg changed] at covers
            rw [readDate_of_unstamped previous (not_not.mp changed), not_not.mp changed]
            exact read covers
        rw [if_neg dropped, List.filter_cons_of_pos (by simpa using dropped), dates, own,
          List.map_cons]
        exact congrArg _ (ih (fun _ => rfl) later)

/-- Without the date of its second in front of it a line is read with another date, as long
as the clock does not go back and each second has a date of its own. -/
theorem covered_of_dates {lastSecond : Nat} {shown : Bool} {previous : Bytes}
    (forward : statements.Pairwise fun first second => first.seconds ≤ second.seconds)
    (since : ∀ statement ∈ statements, lastSecond ≤ statement.seconds)
    (apart : ∀ first ∈ statements, ∀ second ∈ statements,
      (localtime first.seconds).text = (localtime second.seconds).text →
        first.seconds = second.seconds)
    (other : shown = true → ∀ statement ∈ statements,
      previous = (localtime statement.seconds).text → statement.seconds = lastSecond)
    (unread : shown = false → ∀ statement ∈ statements,
      previous ≠ (localtime statement.seconds).text)
    (right : dates previous (linesFrom localtime logLevel lastSecond statements) =
      datesOf localtime logLevel statements) : Covered logLevel lastSecond shown statements := by
  induction statements generalizing lastSecond shown previous with
  | nil => trivial
  | cons statement rest ih =>
      obtain ⟨ahead, forward⟩ := List.pairwise_cons.mp forward
      have restApart : ∀ first ∈ rest, ∀ second ∈ rest,
          (localtime first.seconds).text = (localtime second.seconds).text →
            first.seconds = second.seconds := fun first among second also =>
        apart first (List.mem_cons_of_mem _ among) second (List.mem_cons_of_mem _ also)
      have here := since statement (List.mem_cons_self ..)
      unfold linesFrom datesOf at right
      by_cases dropped : Dropped logLevel statement
      · have passed : decide (¬ Dropped logLevel statement) = false :=
          decide_eq_false (not_not.mpr dropped)
        rw [if_pos dropped, List.filter_cons_of_neg (by simpa using dropped)] at right
        refine ⟨fun passes => absurd (passed.symm.trans passes) Bool.false_ne_true,
          ih forward ahead restApart ?_ ?_ right⟩
        · intro covers later among same
          by_cases changed : statement.seconds ≠ lastSecond
          · rw [if_pos changed, passed] at covers
            cases covers
          · rw [if_neg changed] at covers
            rw [not_not.mp changed]
            exact other covers later (List.mem_cons_of_mem _ among) same
        · intro uncovered later among same
          by_cases changed : statement.seconds ≠ lastSecond
          · cases shown with
            | false => exact unread rfl later (List.mem_cons_of_mem _ among) same
            | true =>
                have equal := other rfl later (List.mem_cons_of_mem _ among) same
                have after := ahead later among
                omega
          · rw [if_neg changed] at uncovered
            exact unread uncovered later (List.mem_cons_of_mem _ among) same
      · have passed : decide (¬ Dropped logLevel statement) = true := decide_eq_true dropped
        rw [if_neg dropped, List.filter_cons_of_pos (by simpa using dropped), dates,
          List.map_cons] at right
        obtain ⟨own, right⟩ := List.cons.inj right
        have covers : (if statement.seconds ≠ lastSecond then
            decide (¬ Dropped logLevel statement) else shown) = true := by
          by_cases changed : statement.seconds ≠ lastSecond
          · rw [if_pos changed, passed]
          · rw [readDate_of_unstamped previous (not_not.mp changed)] at own
            rw [if_neg changed]
            cases shown with
            | true => rfl
            | false => exact absurd own (unread rfl statement (List.mem_cons_self ..))
        rw [own] at right
        refine ⟨fun _ => covers, ih forward ahead restApart ?_ ?_ right⟩
        · intro _ later among same
          exact (apart statement (List.mem_cons_self ..) later (List.mem_cons_of_mem _ among) same).symm
        · intro uncovered
          rw [covers] at uncovered
          cases uncovered

/-- **The dates of log lines.** Whatever the threads log, a reader who gives a line without
date the last date of its thread is right on every line if each line is covered by the date
of its second; and only then, as long as the clock does not go back and each second has a
date of its own. -/
theorem dates_of_run {Thread : Type} [DecidableEq Thread] (memory : Nat → UInt8)
    (logs : List (Thread × LogStatement)) (thread : Thread)
    (forward : (statementsOf thread logs).Pairwise fun first second =>
      first.seconds ≤ second.seconds)
    (apart : ∀ first ∈ statementsOf thread logs, ∀ second ∈ statementsOf thread logs,
      (localtime first.seconds).text = (localtime second.seconds).text →
        first.seconds = second.seconds) :
    dates [] (linesOf (run (step localtime logLevel memory) {} logs) thread) =
        datesOf localtime logLevel (statementsOf thread logs) ↔
      Covered logLevel 0 false (statementsOf thread logs) := by
  have lines := linesOf_run localtime logLevel memory {} thread logs
  rw [lines]
  refine ⟨fun right => ?_, fun covered => dates_linesFrom (fun read => by cases read) covered⟩
  refine covered_of_dates forward (fun _ _ => Nat.zero_le _) apart (fun read => by cases read)
    (fun _ statement _ same => ?_) right
  have length := length_text (localtime statement.seconds)
  rw [← same] at length
  cases length

end Dates

/-- Midnight, and the minute behind it. -/
def sampleTime (seconds : Nat) : LocalTime where
  year := 2024
  month := 1
  day := 2
  hour := 0
  minute := 0
  second := seconds % 60
  year_digits := by decide
  month_le := by decide
  day_le := by decide
  hour_lt := by decide
  minute_lt := by decide
  second_le := (Nat.mod_lt _ (by decide)).le

/-- A statement without text, `microseconds` behind midnight. -/
def sampleStatement (level : LogLevel) (microseconds : Nat) : LogStatement :=
  ⟨level, microseconds, bytes "Router.cc", 1, []⟩

/-- Two threads log at the level of information, the second one a trace as well. -/
def sampleLogs : List (Bool × LogStatement) :=
  [(true, sampleStatement .info 5000000), (false, sampleStatement .info 5100000),
    (true, sampleStatement .info 5200000), (false, sampleStatement .trace 6000000),
    (true, sampleStatement .warn 6100000), (false, sampleStatement .info 6200000)]

/-- Read by thread every line has its date; all threads together do not. -/
theorem dates_of_sampleLogs :
    dates [] (linesOf (run (step sampleTime .info fun _ => 0) {} sampleLogs) true) =
        [bytes "20240102 00:00:05", bytes "20240102 00:00:05", bytes "20240102 00:00:06"] ∧
      dates [] (linesOf (run (step sampleTime .info fun _ => 0) {} sampleLogs) false) ≠
        datesOf sampleTime .info (statementsOf false sampleLogs) := by
  constructor
  · have covered : Covered .info 0 false (statementsOf true sampleLogs) := by decide
    have right := (@dates_of_run sampleTime .info Bool _ (fun _ => 0) sampleLogs true
      (by decide) (by decide +kernel)).mpr covered
    rw [right]
    decide +kernel
  · have uncovered : ¬ Covered .info 0 false (statementsOf false sampleLogs) := by decide
    exact fun right => uncovered ((@dates_of_run sampleTime .info Bool _ (fun _ => 0) sampleLogs
      false (by decide) (by decide +kernel)).mp right)

end Logger

end Cdfs
