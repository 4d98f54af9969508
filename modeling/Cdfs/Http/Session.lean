import Cdfs.Basis.Bytes

/-! # The read and write loop of a connection

`server/HttpSession.cc`: a session reads one message, dispatches it, writes the reply and
reads again. Reads take whatever the network delivers, so the buffer can hold bytes of the
next message when a write completes; `on_write` throws them away. A stream of messages is
dispatched whole exactly when no read goes past the end of a message.
-/

namespace Cdfs

open Basis

/-- What the parser makes of the buffer. -/
inductive Scan where
  | incomplete
  | message (length : Nat)
  | malformed
  deriving DecidableEq, Repr

/-- The parser of the HTTP library: it recognises a well-formed message at the front of
the buffer whatever follows, and waits for the rest of one. -/
structure Framing where
  scan : Bytes → Scan
  WellFormed : Bytes → Prop
  scan_nil : scan [] = .incomplete
  length_le : ∀ {buffer length}, scan buffer = .message length → length ≤ buffer.length
  scan_append : ∀ {message}, WellFormed message → ∀ rest,
    scan (message ++ rest) = .message message.length
  scan_prefix : ∀ {message}, WellFormed message → ∀ {part}, part <+: message → part ≠ message →
    scan part = .incomplete

inductive Phase where
  | reading
  | writing
  | closed
  deriving DecidableEq, Repr

/-- A session, with the messages it has dispatched. -/
structure Session where
  buffer : Bytes := []
  phase : Phase := .reading
  dispatched : List Bytes := []

namespace Session

variable (framing : Framing)

/-- `do_read` and `on_read`: the outstanding read completes when the buffer starts with a
message, which is dispatched and answered; what follows it stays in the buffer. -/
def doRead (session : Session) : Session :=
  match framing.scan session.buffer with
  | .incomplete => { session with phase := .reading }
  | .message length =>
      { buffer := session.buffer.drop length, phase := .writing,
        dispatched := session.dispatched ++ [session.buffer.take length] }
  | .malformed => { session with phase := .closed }

/-- Bytes arrive for the outstanding read. -/
def received (session : Session) (segment : Bytes) : Session :=
  if session.phase = .reading then
    doRead framing { session with buffer := session.buffer ++ segment }
  else session

/-- `on_write`: `buffer_.consume(buffer_.size())`, then the next read. -/
def onWrite (session : Session) : Session :=
  if session.phase = .writing then doRead framing { session with buffer := [] } else session

/-- One segment of the stream. The session reads again only after its write, so a write
completes before the next segment is taken. -/
def deliver (session : Session) (segment : Bytes) : Session :=
  onWrite framing (received framing session segment)

/-- The session after the whole stream. -/
def serve (segments : List Bytes) : Session := segments.foldl (deliver framing) {}

variable {framing}

theorem onWrite_of_phase {session : Session} (notWriting : session.phase ≠ .writing) :
    onWrite framing session = session := if_neg notWriting

/-- A closed session takes no bytes. -/
theorem deliver_of_closed {session : Session} (closed : session.phase = .closed) (segment : Bytes) :
    deliver framing session segment = session := by
  have quiet : received framing session segment = session := by
    rw [received, if_neg (by simp [closed])]
  rw [deliver, quiet, onWrite_of_phase (by simp [closed])]

/-- A segment without a complete message is kept for later. -/
theorem deliver_of_incomplete {session : Session} {segment : Bytes}
    (reading : session.phase = .reading)
    (scanned : framing.scan (session.buffer ++ segment) = .incomplete) :
    deliver framing session segment = { session with buffer := session.buffer ++ segment } := by
  have kept : received framing session segment =
      { session with buffer := session.buffer ++ segment } := by
    rw [received, if_pos reading, doRead]
    dsimp only
    rw [scanned, ← reading]
  rw [deliver, kept, onWrite_of_phase (by simp [reading])]

/-- A complete message is dispatched; the write then drops what follows it. -/
theorem deliver_of_message {session : Session} {segment : Bytes} {length : Nat}
    (reading : session.phase = .reading)
    (scanned : framing.scan (session.buffer ++ segment) = .message length) :
    deliver framing session segment =
      { buffer := [], phase := .reading,
        dispatched := session.dispatched ++ [(session.buffer ++ segment).take length] } := by
  rw [deliver, received, if_pos reading, doRead]
  dsimp only
  rw [scanned]
  dsimp only
  rw [onWrite, if_pos rfl, doRead]
  dsimp only
  rw [framing.scan_nil]

/-- Bytes that start no message close the session. -/
theorem deliver_of_malformed {session : Session} {segment : Bytes}
    (reading : session.phase = .reading)
    (scanned : framing.scan (session.buffer ++ segment) = .malformed) :
    deliver framing session segment =
      { session with buffer := session.buffer ++ segment, phase := .closed } := by
  rw [deliver, received, if_pos reading, doRead]
  dsimp only
  rw [scanned, onWrite_of_phase (by simp)]

/-- Between segments a session reads or is closed. -/
def Idle (session : Session) : Prop := session.phase = .reading ∨ session.phase = .closed

/-- The bytes dispatched or still in the buffer. -/
def heldBytes (session : Session) : Nat :=
  session.dispatched.flatten.length + session.buffer.length

/-- A segment adds at most its own bytes to those held. -/
theorem heldBytes_deliver {session : Session} (idle : session.Idle) (segment : Bytes) :
    (deliver framing session segment).Idle ∧
      (deliver framing session segment).heldBytes ≤ session.heldBytes + segment.length := by
  rcases idle with reading | closed
  · cases scanned : framing.scan (session.buffer ++ segment) with
    | incomplete =>
        rw [deliver_of_incomplete reading scanned]
        refine ⟨.inl reading, ?_⟩
        simp only [heldBytes, List.length_append]
        omega
    | message length =>
        have inside := framing.length_le scanned
        rw [deliver_of_message reading scanned]
        refine ⟨.inl rfl, ?_⟩
        simp only [heldBytes, List.flatten_append, List.flatten_singleton, List.length_append,
          List.length_take, List.length_nil] at inside ⊢
        omega
    | malformed =>
        rw [deliver_of_malformed reading scanned]
        refine ⟨.inr rfl, ?_⟩
        simp only [heldBytes, List.length_append]
        omega
  · rw [deliver_of_closed closed]
    exact ⟨.inr closed, Nat.le_add_right _ _⟩

/-- A run holds no more bytes than have been sent to it. -/
theorem heldBytes_foldl_deliver {session : Session} (idle : session.Idle) (segments : List Bytes) :
    (segments.foldl (deliver framing) session).heldBytes ≤
      session.heldBytes + segments.flatten.length := by
  induction segments generalizing session with
  | nil => exact Nat.le_refl _
  | cons segment segments ih =>
      obtain ⟨idle, bound⟩ := @heldBytes_deliver framing _ idle segment
      have rest := ih idle
      rw [List.foldl_cons, List.flatten_cons, List.length_append]
      omega

/-- Where a message ends a segment ends, the buffer being the start of the first segment. -/
def AlignedFrom (buffer : Bytes) (messages segments : List Bytes) : Prop :=
  ∀ count, 0 < count → count ≤ messages.length →
    ∃ taken, buffer ++ (segments.take taken).flatten = (messages.take count).flatten

/-- The buffer is the start of the next message, and not the whole of it. -/
def Awaits (buffer : Bytes) : List Bytes → Prop
  | [] => buffer = []
  | message :: _ => buffer <+: message ∧ buffer ≠ message

theorem Awaits.length_lt {buffer message : Bytes} {messages : List Bytes}
    (awaiting : Awaits buffer (message :: messages)) : buffer.length < message.length :=
  lt_of_le_of_ne awaiting.1.length_le fun same => awaiting.2 (awaiting.1.eq_of_length same)

/-- The first message is not longer than any of them together. -/
theorem length_le_take_flatten {message : Bytes} {messages : List Bytes} {count : Nat}
    (positive : 0 < count) :
    message.length ≤ ((message :: messages).take count).flatten.length := by
  obtain ⟨count, rfl⟩ := Nat.exists_eq_succ_of_ne_zero positive.ne'
  rw [List.take_succ_cons, List.flatten_cons, List.length_append]
  exact Nat.le_add_right _ _

/-- No message ends inside the buffer, so the first segment can be counted to it. -/
theorem alignedFrom_cons {buffer message segment : Bytes} {messages segments : List Bytes}
    (awaiting : Awaits buffer (message :: messages)) :
    AlignedFrom buffer (message :: messages) (segment :: segments) ↔
      AlignedFrom (buffer ++ segment) (message :: messages) segments := by
  refine forall_congr' fun count => forall_congr' fun positive => imp_congr_right fun _ => ?_
  constructor
  · rintro ⟨taken, cut⟩
    cases taken with
    | zero =>
        have long := @length_le_take_flatten message messages count positive
        rw [← cut, List.take_zero, List.flatten_nil, List.append_nil] at long
        exact absurd long (Nat.not_le.mpr awaiting.length_lt)
    | succ taken =>
        rw [List.take_succ_cons, List.flatten_cons, ← List.append_assoc] at cut
        exact ⟨taken, cut⟩
  · rintro ⟨taken, cut⟩
    refine ⟨taken + 1, ?_⟩
    rw [List.take_succ_cons, List.flatten_cons, ← List.append_assoc]
    exact cut

/-- With the first message complete, the others must be aligned in the rest. -/
theorem alignedFrom_message {message : Bytes} {messages segments : List Bytes} :
    AlignedFrom message (message :: messages) segments ↔ AlignedFrom [] messages segments := by
  constructor
  · intro aligned count positive bound
    obtain ⟨taken, cut⟩ := aligned (count + 1) (Nat.succ_pos count) (Nat.succ_le_succ bound)
    rw [List.take_succ_cons, List.flatten_cons] at cut
    exact ⟨taken, List.append_cancel_left cut⟩
  · intro aligned count positive bound
    obtain ⟨count, rfl⟩ := Nat.exists_eq_succ_of_ne_zero positive.ne'
    rcases Nat.eq_zero_or_pos count with rfl | later
    · exact ⟨0, by simp⟩
    · obtain ⟨taken, cut⟩ := aligned count later (Nat.le_of_succ_le_succ bound)
      refine ⟨taken, ?_⟩
      rw [List.take_succ_cons, List.flatten_cons, ← cut, List.nil_append]

/-- Bytes read past the end of a message cannot be matched by any cut. -/
theorem not_alignedFrom_of_excess {message rest : Bytes} {messages segments : List Bytes}
    (excess : rest ≠ []) :
    ¬ AlignedFrom (message ++ rest) (message :: messages) segments := by
  intro aligned
  obtain ⟨taken, cut⟩ := aligned 1 Nat.one_pos (by simp)
  rw [List.take_succ_cons, List.take_zero, List.flatten_cons, List.flatten_nil,
    List.append_assoc] at cut
  exact excess (List.append_eq_nil_iff.mp (List.append_cancel_left cut)).1

/-- With an empty buffer the next message is awaited from its first byte. -/
theorem awaits_nil {messages : List Bytes}
    (wellFormed : ∀ message ∈ messages, framing.WellFormed message) : Awaits [] messages := by
  cases messages with
  | nil => rfl
  | cons message messages =>
      refine ⟨List.nil_prefix, ?_⟩
      rintro rfl
      have scanned := framing.scan_append (wellFormed _ List.mem_cons_self) []
      rw [List.append_nil, framing.scan_nil] at scanned
      cases scanned

/-- Without a message nothing has to end. -/
theorem alignedFrom_nil (buffer : Bytes) (segments : List Bytes) :
    AlignedFrom buffer [] segments := by
  intro count positive bound
  exact absurd bound (Nat.not_le.mpr positive)

/-- What is lost is missing among the messages dispatched. -/
theorem dispatched_ne_of_excess {dispatched messages segments : List Bytes} {message rest : Bytes}
    (excess : rest ≠ []) (remaining : messages.flatten = rest ++ segments.flatten) :
    (segments.foldl (deliver framing) { dispatched := dispatched ++ [message] }).dispatched ≠
      dispatched ++ message :: messages := by
  intro same
  have bound := @heldBytes_foldl_deliver framing { dispatched := dispatched ++ [message] }
    (.inl rfl) segments
  have lost := List.length_pos_iff.mpr excess
  have total := congrArg List.length remaining
  rw [heldBytes, same] at bound
  simp only [heldBytes, List.flatten_append, List.flatten_cons, List.flatten_nil, List.append_nil,
    List.length_append, List.length_nil] at bound total
  omega

/-- The rest of a stream is dispatched exactly when its messages end with segments. The
induction is on the segments; a segment leaves the next message incomplete, completes it,
or goes past its end. -/
theorem dispatched_foldl_iff {session : Session} {messages segments : List Bytes}
    (reading : session.phase = .reading)
    (wellFormed : ∀ message ∈ messages, framing.WellFormed message)
    (awaiting : Awaits session.buffer messages)
    (cut : session.buffer ++ segments.flatten = messages.flatten) :
    (segments.foldl (deliver framing) session).dispatched = session.dispatched ++ messages ↔
      AlignedFrom session.buffer messages segments := by
  induction segments generalizing session messages with
  | nil =>
      rw [List.flatten_nil, List.append_nil] at cut
      cases messages with
      | nil => exact iff_of_true (List.append_nil _).symm (alignedFrom_nil _ _)
      | cons message messages =>
          have long := awaiting.length_lt
          rw [cut, List.flatten_cons, List.length_append] at long
          omega
  | cons segment segments ih =>
      rw [List.foldl_cons]
      rw [List.flatten_cons, ← List.append_assoc] at cut
      cases messages with
      | nil =>
          obtain ⟨empty, _⟩ := List.append_eq_nil_iff.mp cut
          have scanned : framing.scan (session.buffer ++ segment) = .incomplete := by
            rw [empty, framing.scan_nil]
          rw [deliver_of_incomplete reading scanned]
          have rest := @ih { session with buffer := session.buffer ++ segment } [] reading wellFormed
            empty cut
          exact rest.trans (iff_of_true (alignedFrom_nil _ _) (alignedFrom_nil _ _))
      | cons message messages =>
          obtain ⟨formed, restFormed⟩ := List.forall_mem_cons.mp wellFormed
          rw [alignedFrom_cons awaiting]
          by_cases short : session.buffer ++ segment <+: message ∧ session.buffer ++ segment ≠ message
          · have scanned := framing.scan_prefix formed short.1 short.2
            rw [deliver_of_incomplete reading scanned]
            exact @ih { session with buffer := session.buffer ++ segment } (message :: messages)
              reading wellFormed short cut
          · obtain ⟨rest, whole, remaining⟩ : ∃ rest, session.buffer ++ segment = message ++ rest ∧
                messages.flatten = rest ++ segments.flatten := by
              rw [List.flatten_cons] at cut
              rcases List.append_eq_append_iff.mp cut with ⟨rest, whole, remaining⟩ | longer
              · have same : session.buffer ++ segment = message := by
                  by_contra different
                  exact short ⟨⟨rest, whole.symm⟩, different⟩
                rw [same, List.self_eq_append_right] at whole
                exact ⟨[], by rw [same, List.append_nil], by rw [remaining, whole]; rfl⟩
              · exact longer
            have scanned : framing.scan (session.buffer ++ segment) = .message message.length := by
              rw [whole, framing.scan_append formed]
            rw [deliver_of_message reading scanned, whole, List.take_left]
            by_cases exactly : rest = []
            · subst exactly
              rw [List.append_nil, alignedFrom_message]
              have later := @ih { dispatched := session.dispatched ++ [message] } messages rfl
                restFormed (awaits_nil restFormed) remaining.symm
              rw [List.append_assoc, List.singleton_append] at later
              exact later
            · exact iff_of_false (dispatched_ne_of_excess exactly remaining)
                (not_alignedFrom_of_excess exactly)

/-- Every message of the stream ends where a segment ends. -/
def Aligned (messages segments : List Bytes) : Prop :=
  ∀ count ≤ messages.length,
    ∃ taken, (segments.take taken).flatten = (messages.take count).flatten

/-- With an empty buffer the segments are aligned from the start. -/
theorem alignedFrom_nil_iff (messages segments : List Bytes) :
    AlignedFrom [] messages segments ↔ Aligned messages segments := by
  constructor
  · intro aligned count bound
    rcases Nat.eq_zero_or_pos count with rfl | positive
    · exact ⟨0, rfl⟩
    · exact aligned count positive bound
  · intro aligned count _ bound
    exact aligned count bound

/-- A stream of messages is dispatched, each message once and in order, if and only if
every message ends where a segment ends. -/
theorem dispatched_serve_iff (framing : Framing) {messages segments : List Bytes}
    (wellFormed : ∀ message ∈ messages, framing.WellFormed message)
    (cut : segments.flatten = messages.flatten) :
    (serve framing segments).dispatched = messages ↔ Aligned messages segments := by
  rw [← alignedFrom_nil_iff]
  exact dispatched_foldl_iff rfl wellFormed (awaits_nil wellFormed) cut

end Session

namespace Framing

/-- A message ends with the first occurrence of the pattern. -/
def scanFor (pattern buffer : Bytes) : Scan :=
  match firstOccurrence pattern buffer with
  | some position => .message (position + pattern.length)
  | none => .incomplete

theorem scanFor_of_none {pattern buffer : Bytes} (absent : firstOccurrence pattern buffer = none) :
    scanFor pattern buffer = .incomplete := by
  rw [scanFor, absent]

/-- The pattern ends the message. -/
theorem scanFor_of_some {pattern buffer : Bytes} {position : Nat}
    (found : firstOccurrence pattern buffer = some position) :
    scanFor pattern buffer = .message (position + pattern.length) := by
  rw [scanFor, found]

/-- The first occurrence of the pattern ends the message. -/
def EndsWith (pattern message : Bytes) : Prop := ∃ position,
  firstOccurrence pattern message = some position ∧ position + pattern.length = message.length

theorem scanFor_nil {pattern : Bytes} (nonempty : pattern ≠ []) :
    scanFor pattern [] = .incomplete :=
  scanFor_of_none (by rw [firstOccurrence, if_neg nonempty])

/-- A message is no longer than the buffer. -/
theorem length_le_of_scanFor (pattern : Bytes) {buffer : Bytes} {length : Nat}
    (scanned : scanFor pattern buffer = .message length) : length ≤ buffer.length := by
  cases found : firstOccurrence pattern buffer with
  | none =>
      rw [scanFor_of_none found] at scanned
      cases scanned
  | some position =>
      rw [scanFor_of_some found] at scanned
      cases scanned
      exact ((firstOccurrence_eq_some_iff ..).mp found).1.bound

/-- What follows a message does not change where it ends. -/
theorem scanFor_append (pattern : Bytes) {message : Bytes} (ends : EndsWith pattern message)
    (rest : Bytes) : scanFor pattern (message ++ rest) = .message message.length := by
  obtain ⟨position, found, ends⟩ := ends
  obtain ⟨occurs, least⟩ := (firstOccurrence_eq_some_iff ..).mp found
  have located : firstOccurrence pattern (message ++ rest) = some position := by
    rw [firstOccurrence_eq_some_iff, occursAt_append_iff ends.le]
    refine ⟨occurs, fun earlier before => ?_⟩
    rw [occursAt_append_iff (by omega)]
    exact least earlier before
  rw [scanFor_of_some located, ends]

/-- A part of a message is not complete. -/
theorem scanFor_prefix (pattern : Bytes) {message : Bytes} (ends : EndsWith pattern message)
    {part : Bytes} (front : part <+: message) (different : part ≠ message) :
    scanFor pattern part = .incomplete := by
  obtain ⟨position, found, ends⟩ := ends
  obtain ⟨rest, rfl⟩ := front
  obtain ⟨_, least⟩ := (firstOccurrence_eq_some_iff ..).mp found
  have missing : rest ≠ [] := fun empty => different (by rw [empty, List.append_nil])
  have absent : firstOccurrence pattern part = none := by
    rw [firstOccurrence_eq_none_iff]
    intro index occurs
    refine least index ?_ ((occursAt_append_iff occurs.bound).mpr occurs)
    have inside := occurs.bound
    have more := List.length_pos_iff.mpr missing
    rw [List.length_append] at ends
    omega
  exact scanFor_of_none absent

/-- Messages that end with the first occurrence of a pattern, as requests without a body
end with an empty line. -/
def endingWith (pattern : Bytes) (nonempty : pattern ≠ []) : Framing where
  scan := scanFor pattern
  WellFormed := EndsWith pattern
  scan_nil := scanFor_nil nonempty
  length_le := length_le_of_scanFor pattern
  scan_append := scanFor_append pattern
  scan_prefix := scanFor_prefix pattern

/-- Requests without a body end with an empty line. -/
def requests : Framing := endingWith (crlf ++ crlf) (by decide)

end Framing

namespace Session

def firstRequest : Bytes := bytes "GET /check HTTP/1.1" ++ crlf ++ crlf

def secondRequest : Bytes := bytes "GET /status HTTP/1.1" ++ crlf ++ crlf

/-- Both sample requests end with a blank line. -/
theorem wellFormed_sampleRequests :
    ∀ message ∈ [firstRequest, secondRequest], Framing.requests.WellFormed message := by
  rw [List.forall_mem_cons, List.forall_mem_singleton]
  exact ⟨⟨19, by decide +kernel, by decide +kernel⟩, ⟨20, by decide +kernel, by decide +kernel⟩⟩

/-- The first request arrives in two segments and the second one after it. -/
theorem dispatched_serve_separately :
    (serve Framing.requests [firstRequest.take 7, firstRequest.drop 7, secondRequest]).dispatched =
      [firstRequest, secondRequest] := by
  refine (dispatched_serve_iff Framing.requests wellFormed_sampleRequests (by decide +kernel)).mpr ?_
  intro count bound
  match count, bound with
  | 0, _ => exact ⟨0, rfl⟩
  | 1, _ => exact ⟨2, by decide +kernel⟩
  | 2, _ => exact ⟨3, by decide +kernel⟩

/-- Two requests in one segment: the second one is lost. -/
theorem dispatched_serve_pipelined :
    (∀ message ∈ [firstRequest, secondRequest], Framing.requests.WellFormed message) ∧
      [firstRequest ++ secondRequest].flatten = [firstRequest, secondRequest].flatten ∧
      (serve Framing.requests [firstRequest ++ secondRequest]).dispatched = [firstRequest] :=
  ⟨wellFormed_sampleRequests, by decide +kernel, by decide +kernel⟩

end Session

end Cdfs
