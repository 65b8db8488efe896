import IrcPlatform.Irc.Kept
import IrcPlatform.Irc.Steps
import IrcPlatform.Library.Splitting

/-!
# Receiving a byte stream in chunks

`Receiver` has the text of `receiveFromClient` over any kind of state, with the
processing of a line as one of its operations. The server is one instance of it
(`receiveFromClient_eq`). The other one is a connection that only remembers the
lines it was handed and asks an oracle after each whether to go on: what a run of
it hands over and how it ends is a function of the stream alone.
-/

namespace IrcPlatform.Irc

/-- What `receiveFromClient` uses of the state; `receiveBuffer` is missing when the client is. -/
structure Receiver (State : Type) where
  receiveBuffer : State → Option Bytes
  append : Bytes → State → State
  erase : Nat → State → State
  processLine : Bytes → State → State
  reserved : State → Bool
  /-- Queue an input error and reserve the disconnection. -/
  refuse : InputError → State → State

namespace Receiver

variable {State : Type} (receiver : Receiver State)

def loop : Nat → State → State
  | 0, state => state
  | fuel + 1, state =>
      match receiver.receiveBuffer state with
      | none => state
      | some buffer =>
          match BufferUtil.findLine buffer with
          | .incomplete => state
          | .extracted line consumed =>
              let processed := receiver.processLine line (receiver.erase consumed state)
              if receiver.reserved processed then processed else loop fuel processed
          | .tooLong consumed => receiver.refuse .lineTooLong (receiver.erase consumed state)

def receive (data : Bytes) (state : State) : State :=
  match receiver.receiveBuffer state with
  | none => state
  | some buffer =>
      let length := buffer.length + data.length
      if Server.maxReceiveBuffer < length then
        receiver.refuse .bufferLimit (receiver.append data state)
      else receiver.loop (length + 1) (receiver.append data state)

/-- The chunks of a stream, one after the other. A connection with a reservation is closed
at the end of the round and receives nothing more. -/
def receiveAll (chunks : List Bytes) (state : State) : State :=
  chunks.foldl (fun state data =>
    if receiver.reserved state then state else receiver.receive data state) state

variable {receiver} {state : State} {buffer : Bytes}

theorem loop_incomplete (found : receiver.receiveBuffer state = some buffer)
    (incomplete : BufferUtil.findLine buffer = .incomplete) (fuel : Nat) :
    receiver.loop (fuel + 1) state = state := by
  simp only [loop, found, incomplete]

theorem loop_stops {line : Bytes} {consumed : Nat}
    (found : receiver.receiveBuffer state = some buffer)
    (extracted : BufferUtil.findLine buffer = .extracted line consumed)
    (stops : receiver.reserved (receiver.processLine line (receiver.erase consumed state)) = true)
    (fuel : Nat) : receiver.loop (fuel + 1) state =
      receiver.processLine line (receiver.erase consumed state) := by
  simp only [loop, found, extracted]
  rw [if_pos stops]

theorem loop_continues {line : Bytes} {consumed : Nat}
    (found : receiver.receiveBuffer state = some buffer)
    (extracted : BufferUtil.findLine buffer = .extracted line consumed)
    (continues : ¬receiver.reserved
      (receiver.processLine line (receiver.erase consumed state)) = true)
    (fuel : Nat) : receiver.loop (fuel + 1) state =
      receiver.loop fuel (receiver.processLine line (receiver.erase consumed state)) := by
  simp only [loop, found, extracted]
  rw [if_neg continues]

theorem loop_tooLong {consumed : Nat} (found : receiver.receiveBuffer state = some buffer)
    (tooLong : BufferUtil.findLine buffer = .tooLong consumed) (fuel : Nat) :
    receiver.loop (fuel + 1) state =
      receiver.refuse .lineTooLong (receiver.erase consumed state) := by
  simp only [loop, found, tooLong]

theorem receiveAll_reserved (closed : receiver.reserved state = true) (chunks : List Bytes) :
    receiver.receiveAll chunks state = state := by
  induction chunks with
  | nil => rfl
  | cons data rest ih =>
      rw [receiveAll, List.foldl_cons, if_pos closed]
      exact ih

theorem receiveAll_cons (opened : ¬receiver.reserved state = true) (data : Bytes)
    (rest : List Bytes) : receiver.receiveAll (data :: rest) state =
      receiver.receiveAll rest (receiver.receive data state) := by
  rw [receiveAll, List.foldl_cons, if_neg opened]
  rfl

end Receiver

/-- The server as a receiver for one descriptor. -/
def serverReceiver (fd : Int) : Receiver Server where
  receiveBuffer server := (server.findClientByFd fd).map (·.receiveBuffer)
  append data server := server.updateClient fd (·.appendReceiveBuffer data)
  erase length server := server.updateClient fd (·.eraseReceivePrefix length)
  processLine line server := server.processLine fd line
  reserved server := server.pendingDisconnects.contains fd
  refuse error server := (server.queueToClient fd error.text).scheduleDisconnect fd

theorem receiveLoop_eq (fd : Int) (fuel : Nat) (server : Server) :
    Server.receiveLoop fd fuel server = (serverReceiver fd).loop fuel server := by
  induction fuel generalizing server with
  | zero => rfl
  | succ fuel ih =>
      simp only [Server.receiveLoop, Receiver.loop]
      cases found : server.findClientByFd fd with
      | none =>
          have gone : (serverReceiver fd).receiveBuffer server = none := by
            simp [serverReceiver, found]
          rw [gone]
      | some client =>
          have buffer : (serverReceiver fd).receiveBuffer server = some client.receiveBuffer := by
            simp [serverReceiver, found]
          rw [buffer]
          simp only
          cases BufferUtil.findLine client.receiveBuffer with
          | incomplete => rfl
          | extracted line consumed =>
              simp only [← ih]
              rfl
          | tooLong consumed => rfl

theorem receiveFromClient_eq (server : Server) (fd : Int) (data : Bytes) :
    server.receiveFromClient fd (some data) = (serverReceiver fd).receive data server := by
  simp only [Server.receiveFromClient, Receiver.receive, ← receiveLoop_eq]
  cases found : server.findClientByFd fd with
  | none =>
      have gone : (serverReceiver fd).receiveBuffer server = none := by
        simp [serverReceiver, found]
      rw [gone]
  | some client =>
      have buffer : (serverReceiver fd).receiveBuffer server = some client.receiveBuffer := by
        simp [serverReceiver, found]
      rw [buffer]
      rfl

/-! ## One connection and an oracle -/

/-- What a connection was handed, and what it was told at the end. -/
structure Connection where
  receiveBuffer : Bytes := []
  lines : List Bytes := []
  reserved : Bool := false
  report : Option InputError := none

/-- The receiver that processes a line by asking whether to end the connection after the
lines so far. -/
def lineReceiver (stops : List Bytes → Bool) : Receiver Connection where
  receiveBuffer connection := some connection.receiveBuffer
  append data connection :=
    { connection with receiveBuffer := connection.receiveBuffer ++ data }
  erase length connection :=
    { connection with receiveBuffer := connection.receiveBuffer.drop length }
  processLine line connection :=
    { connection with
      lines := connection.lines ++ [line]
      reserved := connection.reserved || stops (connection.lines ++ [line]) }
  reserved connection := connection.reserved
  refuse error connection := { connection with report := some error, reserved := true }

inductive Ending where
  /-- The connection waits for the rest of a line. -/
  | waiting (tail : Bytes)
  | stopped
  | refused (error : InputError)

structure Outcome where
  lines : List Bytes
  ending : Ending

def Connection.outcome (connection : Connection) : Outcome where
  lines := connection.lines
  ending :=
    match connection.report with
    | some error => .refused error
    | none => if connection.reserved then .stopped else .waiting connection.receiveBuffer

/-- What the pieces of a stream between its line feeds mean, the last piece being the
unterminated tail. -/
def judge (stops : List Bytes → Bool) : List Bytes → List Bytes → Outcome
  | lines, [] => ⟨lines, .waiting []⟩
  | lines, [tail] =>
      if IrcUtil.ircMaxLine ≤ tail.length then ⟨lines, .refused .lineTooLong⟩
      else ⟨lines, .waiting tail⟩
  | lines, piece :: next :: rest =>
      let line := BufferUtil.dropCarriageReturn piece
      if IrcUtil.ircMaxContent < line.length then ⟨lines, .refused .lineTooLong⟩
      else if stops (lines ++ [line]) then ⟨lines ++ [line], .stopped⟩
      else judge stops (lines ++ [line]) (next :: rest)

/-- The pieces of a byte string between its line feeds. -/
def linePieces (stream : Bytes) : List Bytes := stream.splitOn 10

namespace BufferUtil

theorem beforeLineFeed_eq_none_iff {buffer : Bytes} :
    beforeLineFeed buffer = none ↔ 10 ∉ buffer := by
  induction buffer with
  | nil => simp [beforeLineFeed]
  | cons c rest ih =>
      simp only [beforeLineFeed]
      split
      next same => simp [same]
      next other => simp [ih, Ne.symm other]

theorem eq_of_beforeLineFeed {buffer raw : Bytes} (found : beforeLineFeed buffer = some raw) :
    buffer = raw ++ 10 :: buffer.drop (raw.length + 1) ∧ 10 ∉ raw := by
  induction buffer generalizing raw with
  | nil => simp [beforeLineFeed] at found
  | cons c rest ih =>
      simp only [beforeLineFeed] at found
      split at found
      next same =>
        rw [Option.some.injEq] at found
        subst found same
        simp
      next other =>
        rcases Option.map_eq_some_iff.mp found with ⟨later, foundLater, rfl⟩
        rcases ih foundLater with ⟨shape, free⟩
        constructor
        · rw [List.length_cons, List.drop_succ_cons, List.cons_append, ← shape]
        · simp [free, Ne.symm other]

theorem length_le_dropCarriageReturn (raw : Bytes) :
    raw.length ≤ (dropCarriageReturn raw).length + 1 := by
  simp only [dropCarriageReturn]
  split
  · rw [List.length_dropLast]
    omega
  · omega

end BufferUtil

section Judging

variable {stops : List Bytes → Bool} {lines : List Bytes}

theorem judge_tail {tail : Bytes} (free : 10 ∉ tail) :
    judge stops lines (linePieces tail) =
      if IrcUtil.ircMaxLine ≤ tail.length then ⟨lines, .refused .lineTooLong⟩
      else ⟨lines, .waiting tail⟩ := by
  rw [linePieces, List.splitOn_eq_singleton free, judge]

theorem judge_line {raw : Bytes} (free : 10 ∉ raw) (rest : Bytes) :
    judge stops lines (linePieces (raw ++ 10 :: rest)) =
      if IrcUtil.ircMaxContent < (BufferUtil.dropCarriageReturn raw).length then
        ⟨lines, .refused .lineTooLong⟩
      else if stops (lines ++ [BufferUtil.dropCarriageReturn raw]) then
        ⟨lines ++ [BufferUtil.dropCarriageReturn raw], .stopped⟩
      else judge stops (lines ++ [BufferUtil.dropCarriageReturn raw]) (linePieces rest) := by
  have pieces : linePieces (raw ++ 10 :: rest) = raw :: linePieces rest :=
    List.splitOn_append_cons_self_of_not_mem free rest
  rcases List.exists_cons_of_ne_nil (List.splitOn_ne_nil 10 rest) with ⟨next, others, split⟩
  have later : linePieces rest = next :: others := split
  rw [pieces, later, judge]

/-- Once an unterminated line is too long, no continuation makes it acceptable. -/
theorem judge_long {front : Bytes} (free : 10 ∉ front)
    (long : IrcUtil.ircMaxLine ≤ front.length) (more : Bytes) :
    judge stops lines (linePieces (front ++ more)) = ⟨lines, .refused .lineTooLong⟩ := by
  cases found : BufferUtil.beforeLineFeed more with
  | none =>
      have freeMore := BufferUtil.beforeLineFeed_eq_none_iff.mp found
      have freeAll : 10 ∉ front ++ more := by simp [free, freeMore]
      have longAll : IrcUtil.ircMaxLine ≤ (front ++ more).length := by
        rw [List.length_append]
        omega
      rw [judge_tail freeAll, if_pos longAll]
  | some raw =>
      rcases BufferUtil.eq_of_beforeLineFeed found with ⟨shape, freeRaw⟩
      have freeAll : 10 ∉ front ++ raw := by simp [free, freeRaw]
      have content := BufferUtil.length_le_dropCarriageReturn (front ++ raw)
      have longContent : IrcUtil.ircMaxContent <
          (BufferUtil.dropCarriageReturn (front ++ raw)).length := by
        rw [List.length_append] at content
        simp only [IrcUtil.ircMaxLine] at long
        simp only [IrcUtil.ircMaxContent]
        omega
      rw [shape, ← List.append_assoc, judge_line freeAll, if_pos longContent]

end Judging

/-! ## One chunk -/

namespace Connection

/-- The connection waits for input: what it has is an unfinished line that may still
become acceptable. -/
structure Waiting (connection : Connection) : Prop where
  free : connection.reserved = false
  silent : connection.report = none
  noLineFeed : 10 ∉ connection.receiveBuffer
  short : connection.receiveBuffer.length < IrcUtil.ircMaxLine

/-- What the line loop makes of a connection, judged together with all later input. -/
inductive Loops (stops : List Bytes → Bool) (before after : Connection) : Prop where
  | ended (reserved : after.reserved = true)
      (shrunk : after.receiveBuffer.length ≤ before.receiveBuffer.length)
      (judged : ∀ more, judge stops before.lines (linePieces (before.receiveBuffer ++ more)) =
        after.outcome)
  | waits (waiting : after.Waiting)
      (judged : ∀ more, judge stops before.lines (linePieces (before.receiveBuffer ++ more)) =
        judge stops after.lines (linePieces (after.receiveBuffer ++ more)))

theorem loops (stops : List Bytes → Bool) (fuel : Nat) {connection : Connection}
    (free : connection.reserved = false) (silent : connection.report = none)
    (enough : connection.receiveBuffer.length < fuel) :
    Loops stops connection ((lineReceiver stops).loop fuel connection) := by
  induction fuel generalizing connection with
  | zero => omega
  | succ fuel ih =>
      rw [Receiver.loop]
      simp only [lineReceiver, BufferUtil.findLine]
      cases found : BufferUtil.beforeLineFeed connection.receiveBuffer with
      | none =>
          have noLineFeed := BufferUtil.beforeLineFeed_eq_none_iff.mp found
          simp only
          by_cases long : IrcUtil.ircMaxLine ≤ connection.receiveBuffer.length
          · simp only [if_pos long]
            apply Loops.ended rfl
            · simp
            · intro more
              exact judge_long noLineFeed long more
          · simp only [if_neg long]
            apply Loops.waits
            · exact ⟨free, silent, noLineFeed, Nat.not_le.mp long⟩
            · exact fun _ => rfl
      | some raw =>
          rcases BufferUtil.eq_of_beforeLineFeed found with ⟨shape, noLineFeed⟩
          have judged : ∀ more, judge stops connection.lines
              (linePieces (connection.receiveBuffer ++ more)) =
            if IrcUtil.ircMaxContent < (BufferUtil.dropCarriageReturn raw).length then
              ⟨connection.lines, .refused .lineTooLong⟩
            else if stops (connection.lines ++ [BufferUtil.dropCarriageReturn raw]) then
              ⟨connection.lines ++ [BufferUtil.dropCarriageReturn raw], .stopped⟩
            else judge stops (connection.lines ++ [BufferUtil.dropCarriageReturn raw])
              (linePieces (connection.receiveBuffer.drop (raw.length + 1) ++ more)) := by
            intro more
            rw [← judge_line noLineFeed, ← List.cons_append, ← List.append_assoc, ← shape]
          simp only
          by_cases long : IrcUtil.ircMaxContent < (BufferUtil.dropCarriageReturn raw).length
          · simp only [if_pos long] at judged ⊢
            apply Loops.ended rfl
            · simp
            · exact judged
          · simp only [if_neg long, free, Bool.false_or] at judged ⊢
            by_cases stop : stops (connection.lines ++
                [BufferUtil.dropCarriageReturn raw]) = true
            · simp only [if_pos stop] at judged ⊢
              apply Loops.ended stop
              · simp
              · intro more
                rw [judged more]
                simp [outcome, silent, stop]
            · simp only [if_neg stop] at judged ⊢
              have goesOn : stops (connection.lines ++ [BufferUtil.dropCarriageReturn raw]) =
                  false := by simpa using stop
              have shorter : (connection.receiveBuffer.drop (raw.length + 1)).length < fuel := by
                have length := congrArg List.length shape
                rw [List.length_append, List.length_cons] at length
                omega
              have rest := @ih
                { connection with
                  receiveBuffer := connection.receiveBuffer.drop (raw.length + 1)
                  lines := connection.lines ++ [BufferUtil.dropCarriageReturn raw]
                  reserved := stops (connection.lines ++ [BufferUtil.dropCarriageReturn raw]) }
                goesOn silent shorter
              cases rest with
              | ended reserved shrunk later =>
                  apply Loops.ended reserved
                  · apply Nat.le_trans shrunk
                    simp
                  · intro more
                    rw [judged more]
                    exact later more
              | waits waiting later =>
                  apply Loops.waits waiting
                  intro more
                  rw [judged more]
                  exact later more

theorem receives (stops : List Bytes → Bool) {connection : Connection}
    (waiting : connection.Waiting) {data : Bytes} (small : data.length ≤ Server.recvChunkSize) :
    Loops stops { connection with receiveBuffer := connection.receiveBuffer ++ data }
      ((lineReceiver stops).receive data connection) := by
  have short := waiting.short
  simp only [IrcUtil.ircMaxLine] at short
  simp only [Server.recvChunkSize] at small
  have room : ¬Server.maxReceiveBuffer < connection.receiveBuffer.length + data.length := by
    simp only [Server.maxReceiveBuffer]
    omega
  have enough : (connection.receiveBuffer ++ data).length <
      connection.receiveBuffer.length + data.length + 1 := by
    rw [List.length_append]
    omega
  have looped := @loops stops _
    { connection with receiveBuffer := connection.receiveBuffer ++ data } waiting.free
    waiting.silent enough
  have opened : (lineReceiver stops).receive data connection = (lineReceiver stops).loop
      (connection.receiveBuffer.length + data.length + 1)
      { connection with receiveBuffer := connection.receiveBuffer ++ data } := by
    simp only [Receiver.receive, lineReceiver, if_neg room]
  rw [opened]
  exact looped

end Connection

/-! ## All chunks -/

section Chunks

variable {stops : List Bytes → Bool}

theorem not_reserved {connection : Connection} (free : connection.reserved = false) :
    ¬(lineReceiver stops).reserved connection = true := by
  simp [lineReceiver, free]

/-- What a waiting connection makes of any chunks is what their concatenation means. -/
theorem outcome_receiveAll {connection : Connection} (waiting : connection.Waiting)
    {chunks : List Bytes} (small : ∀ data ∈ chunks, data.length ≤ Server.recvChunkSize) :
    ((lineReceiver stops).receiveAll chunks connection).outcome =
      judge stops connection.lines (linePieces (connection.receiveBuffer ++ chunks.flatten)) := by
  induction chunks generalizing connection with
  | nil =>
      have short : ¬IrcUtil.ircMaxLine ≤ connection.receiveBuffer.length :=
        Nat.not_le.mpr waiting.short
      rw [List.flatten_nil, List.append_nil, judge_tail waiting.noLineFeed, if_neg short]
      simp [Receiver.receiveAll, Connection.outcome, waiting.silent, waiting.free]
  | cons data rest ih =>
      rw [List.forall_mem_cons] at small
      rw [Receiver.receiveAll_cons (not_reserved waiting.free), List.flatten_cons,
        ← List.append_assoc]
      have received := Connection.receives stops waiting small.1
      cases received with
      | ended reserved _ judged => rw [Receiver.receiveAll_reserved reserved, judged]
      | waits waitingNext judged => rw [ih waitingNext small.2, judged]

/-- Between two chunks a connection waits or is closed, and its buffer is far below the
limit. -/
theorem receiveAll_bounded {connection : Connection} (waiting : connection.Waiting)
    {chunks : List Bytes} (small : ∀ data ∈ chunks, data.length ≤ Server.recvChunkSize) :
    ((lineReceiver stops).receiveAll chunks connection).Waiting ∨
      ((lineReceiver stops).receiveAll chunks connection).reserved = true ∧
      ((lineReceiver stops).receiveAll chunks connection).receiveBuffer.length ≤
        Server.maxReceiveBuffer := by
  induction chunks generalizing connection with
  | nil => exact Or.inl waiting
  | cons data rest ih =>
      rw [List.forall_mem_cons] at small
      rw [Receiver.receiveAll_cons (not_reserved waiting.free)]
      have received := Connection.receives stops waiting small.1
      cases received with
      | ended reserved shrunk _ =>
          right
          rw [Receiver.receiveAll_reserved reserved]
          refine ⟨reserved, Nat.le_trans shrunk ?_⟩
          have short := waiting.short
          have chunk := small.1
          simp only [IrcUtil.ircMaxLine] at short
          simp only [Server.recvChunkSize] at chunk
          simp only [List.length_append, Server.maxReceiveBuffer]
          omega
      | waits waitingNext _ => exact ih waitingNext small.2

end Chunks

/-! ## The server is such a connection -/

/-- What was handed to `processLine` for a descriptor since `start`, in order, and what
the connection was refused for. -/
inductive Handed (fd : Int) (start : Server) :
    List Bytes → Option InputError → Server → Prop where
  | start : Handed fd start [] none start
  | append {lines : List Bytes} {report : Option InputError} {server : Server} (data : Bytes)
      (before : Handed fd start lines report server) :
      Handed fd start lines report ((serverReceiver fd).append data server)
  | erase {lines : List Bytes} {report : Option InputError} {server : Server} (length : Nat)
      (before : Handed fd start lines report server) :
      Handed fd start lines report ((serverReceiver fd).erase length server)
  | line {lines : List Bytes} {report : Option InputError} {server : Server} (line : Bytes)
      (before : Handed fd start lines report server) :
      Handed fd start (lines ++ [line]) report ((serverReceiver fd).processLine line server)
  | refuse {lines : List Bytes} {report : Option InputError} {server : Server}
      (error : InputError) (before : Handed fd start lines report server) :
      Handed fd start lines (some error) ((serverReceiver fd).refuse error server)

/-- The connection shows what the server has for a descriptor. -/
structure Mirrors (fd : Int) (start server : Server) (connection : Connection) : Prop where
  handed : Handed fd start connection.lines connection.report server
  buffer : (serverReceiver fd).receiveBuffer server = some connection.receiveBuffer
  reserved : (serverReceiver fd).reserved server = connection.reserved

theorem receiveBuffer_processLine (server : Server) (fd : Int) (line : Bytes) :
    (serverReceiver fd).receiveBuffer ((serverReceiver fd).processLine line server) =
      (serverReceiver fd).receiveBuffer server := by
  simp only [serverReceiver, Server.processLine]
  split
  · rfl
  next message _ =>
    exact (Server.dispatchCommand_kept (server.record _) fd message).receiveBuffer fd

namespace Mirrors

variable {fd : Int} {start server : Server} {connection : Connection} (stops : List Bytes → Bool)

theorem append (mirrors : Mirrors fd start server connection) (data : Bytes) :
    Mirrors fd start ((serverReceiver fd).append data server)
      ((lineReceiver stops).append data connection) where
  handed := mirrors.handed.append data
  buffer := by
    have buffer := mirrors.buffer
    simp only [serverReceiver] at buffer ⊢
    rcases Option.map_eq_some_iff.mp buffer with ⟨client, found, same⟩
    rw [Server.findClientByFd_updateClient_eq, if_pos rfl, found]
    simp [lineReceiver, Client.appendReceiveBuffer, same]
  reserved := mirrors.reserved

theorem erase (mirrors : Mirrors fd start server connection) (length : Nat) :
    Mirrors fd start ((serverReceiver fd).erase length server)
      ((lineReceiver stops).erase length connection) where
  handed := mirrors.handed.erase length
  buffer := by
    have buffer := mirrors.buffer
    simp only [serverReceiver] at buffer ⊢
    rcases Option.map_eq_some_iff.mp buffer with ⟨client, found, same⟩
    rw [Server.findClientByFd_updateClient_eq, if_pos rfl, found]
    simp [lineReceiver, Client.eraseReceivePrefix, same]
  reserved := mirrors.reserved

theorem refuse (mirrors : Mirrors fd start server connection) (error : InputError) :
    Mirrors fd start ((serverReceiver fd).refuse error server)
      ((lineReceiver stops).refuse error connection) where
  handed := mirrors.handed.refuse error
  buffer := by
    have kept := (Kept.queueToClient server fd error.text).receiveBuffer fd
    exact kept.trans mirrors.buffer
  reserved := by simp [serverReceiver, lineReceiver, Server.scheduleDisconnect]

/-- The oracle answers for the line what the server did with it. -/
theorem processLine (mirrors : Mirrors fd start server connection) (line : Bytes)
    (answer : (connection.reserved || stops (connection.lines ++ [line])) =
      (serverReceiver fd).reserved ((serverReceiver fd).processLine line server)) :
    Mirrors fd start ((serverReceiver fd).processLine line server)
      ((lineReceiver stops).processLine line connection) where
  handed := mirrors.handed.line line
  buffer := (receiveBuffer_processLine server fd line).trans mirrors.buffer
  reserved := answer.symm

end Mirrors

/-- The oracle that ends a connection after its `count`-th line. -/
def stopAt (count : Nat) (lines : List Bytes) : Bool := lines.length == count

/-- A stretch of a server's run is a stretch of a connection's: it was closed in it, the
oracle's count being known, or it goes on as with every later count. -/
inductive Follows (fd : Int) (start server : Server) (count : Nat)
    (run : (List Bytes → Bool) → Connection) : Prop where
  | closed (last : Nat) (later : count < last)
      (reserved : (serverReceiver fd).reserved server = true)
      (mirrors : Mirrors fd start server (run (stopAt last)))
  | goesOn (next : Connection) (free : next.reserved = false)
      (progress : count ≤ next.lines.length) (mirrors : Mirrors fd start server next)
      (same : ∀ last, next.lines.length < last → run (stopAt last) = next)

section Following

variable {fd : Int} {start server : Server} {connection : Connection}

theorem follows_loop (fuel : Nat) (mirrors : Mirrors fd start server connection)
    (free : connection.reserved = false) :
    Follows fd start ((serverReceiver fd).loop fuel server) connection.lines.length
      (fun stops => (lineReceiver stops).loop fuel connection) := by
  induction fuel generalizing server connection with
  | zero => exact Follows.goesOn connection free (Nat.le_refl _) mirrors (fun _ _ => rfl)
  | succ fuel ih =>
      have buffer : ∀ stops, (lineReceiver stops).receiveBuffer connection =
          some connection.receiveBuffer := fun _ => rfl
      cases found : BufferUtil.findLine connection.receiveBuffer with
      | incomplete =>
          rw [Receiver.loop_incomplete mirrors.buffer found]
          apply Follows.goesOn connection free (Nat.le_refl _) mirrors
          intro last _
          exact Receiver.loop_incomplete (buffer _) found fuel
      | tooLong consumed =>
          rw [Receiver.loop_tooLong mirrors.buffer found]
          have refused : ∀ stops, Mirrors fd start
              ((serverReceiver fd).refuse .lineTooLong ((serverReceiver fd).erase consumed server))
              ((lineReceiver stops).loop (fuel + 1) connection) := by
            intro stops
            rw [Receiver.loop_tooLong (buffer _) found]
            exact (mirrors.erase stops consumed).refuse stops .lineTooLong
          apply Follows.closed _ (Nat.lt_succ_self _)
          · simp [serverReceiver, Server.scheduleDisconnect]
          · exact refused _
      | extracted line consumed =>
          let processed :=
            (serverReceiver fd).processLine line ((serverReceiver fd).erase consumed server)
          let handed : (List Bytes → Bool) → Connection := fun stops =>
            (lineReceiver stops).processLine line ((lineReceiver stops).erase consumed connection)
          have answers : ∀ stops, stops (connection.lines ++ [line]) =
              (serverReceiver fd).reserved processed →
              Mirrors fd start processed (handed stops) := by
            intro stops answer
            apply (mirrors.erase stops consumed).processLine stops line
            simp only [lineReceiver, free, Bool.false_or, answer, processed]
          have counted : (connection.lines ++ [line]).length = connection.lines.length + 1 :=
            List.length_append
          by_cases reserved : (serverReceiver fd).reserved processed = true
          · have stop : stopAt (connection.lines.length + 1) (connection.lines ++ [line]) =
                true := by
              rw [stopAt, counted, beq_self_eq_true]
            have mirrored := answers _ (stop.trans reserved.symm)
            have closes := mirrored.reserved.symm.trans reserved
            rw [Receiver.loop_stops mirrors.buffer found reserved]
            apply Follows.closed (connection.lines.length + 1) (Nat.lt_succ_self _) reserved
            rw [Receiver.loop_stops (buffer _) found closes]
            exact mirrored
          · have mirrored := answers (fun _ => false) (by simpa using reserved)
            have goesOn : (handed (fun _ => false)).reserved = false := by
              simp [handed, lineReceiver, free]
            have length : (handed (fun _ => false)).lines.length =
                connection.lines.length + 1 := counted
            -- every oracle with a later count lets this line pass in the same way
            have same : ∀ last, connection.lines.length + 1 < last →
                (lineReceiver (stopAt last)).loop (fuel + 1) connection =
                  (lineReceiver (stopAt last)).loop fuel (handed (fun _ => false)) := by
              intro last later
              have passes : stopAt last (connection.lines ++ [line]) = false := by
                rw [stopAt, counted, beq_eq_false_iff_ne]
                omega
              have next : handed (stopAt last) = handed (fun _ => false) := by
                simp only [handed, lineReceiver, passes]
              have continues : ¬(handed (stopAt last)).reserved = true := by
                rw [next, goesOn]
                exact Bool.false_ne_true
              rw [Receiver.loop_continues (buffer _) found continues]
              exact congrArg _ next
            rw [Receiver.loop_continues mirrors.buffer found reserved]
            have rest := ih mirrored goesOn
            rw [length] at rest
            cases rest with
            | closed last later closed mirroredLater =>
                apply Follows.closed last (Nat.lt_of_succ_lt later) closed
                rw [same last (by omega)]
                exact mirroredLater
            | goesOn next free progress mirroredLater sameLater =>
                apply Follows.goesOn next free (Nat.le_of_succ_le progress) mirroredLater
                intro last later
                rw [same last (Nat.lt_of_le_of_lt progress later)]
                exact sameLater last later

theorem follows_receive (data : Bytes) (mirrors : Mirrors fd start server connection)
    (free : connection.reserved = false) :
    Follows fd start ((serverReceiver fd).receive data server) connection.lines.length
      (fun stops => (lineReceiver stops).receive data connection) := by
  have appended := mirrors.append (fun _ => false) data
  simp only [Receiver.receive, mirrors.buffer]
  by_cases full : Server.maxReceiveBuffer < connection.receiveBuffer.length + data.length
  · simp only [if_pos full]
    apply Follows.closed _ (Nat.lt_succ_self _)
    · simp [serverReceiver, Server.scheduleDisconnect]
    · simp only [lineReceiver, if_pos full]
      exact appended.refuse (fun _ => false) .bufferLimit
  · simp only [if_neg full]
    simp only [lineReceiver, if_neg full]
    exact follows_loop _ appended free

/-- Receiving chunk after chunk, the server hands over, reports and keeps what a
connection does whose oracle gives the server's own answers. -/
theorem follows_receiveAll (chunks : List Bytes) (mirrors : Mirrors fd start server connection)
    (free : connection.reserved = false) :
    Follows fd start ((serverReceiver fd).receiveAll chunks server) connection.lines.length
      (fun stops => (lineReceiver stops).receiveAll chunks connection) := by
  induction chunks generalizing server connection with
  | nil => exact Follows.goesOn connection free (Nat.le_refl _) mirrors (fun _ _ => rfl)
  | cons data rest ih =>
      have opened : ¬(serverReceiver fd).reserved server = true := by
        rw [mirrors.reserved, free]
        exact Bool.false_ne_true
      have first : ∀ stops, (lineReceiver stops).receiveAll (data :: rest) connection =
          (lineReceiver stops).receiveAll rest ((lineReceiver stops).receive data connection) :=
        fun _ => Receiver.receiveAll_cons (not_reserved free) data rest
      rw [Receiver.receiveAll_cons opened]
      have received := follows_receive data mirrors free
      cases received with
      | closed last later closed mirrored =>
          have closedToo := mirrored.reserved.symm.trans closed
          rw [Receiver.receiveAll_reserved closed]
          apply Follows.closed last later closed
          rw [first, Receiver.receiveAll_reserved closedToo]
          exact mirrored
      | goesOn next goesOn progress mirrored same =>
          cases ih mirrored goesOn with
          | closed last later closed mirroredLater =>
              apply Follows.closed last (Nat.lt_of_le_of_lt progress later) closed
              rw [first, same last later]
              exact mirroredLater
          | goesOn final open_ progressLater mirroredLater sameLater =>
              apply Follows.goesOn final open_ (Nat.le_trans progress progressLater) mirroredLater
              intro last later
              rw [first, same last (Nat.lt_of_le_of_lt progressLater later)]
              exact sameLater last later

end Following

/-! ## How a stream is cut does not matter -/

theorem judge_ne_bufferLimit (stops : List Bytes → Bool) (lines pieces : List Bytes) :
    (judge stops lines pieces).ending ≠ .refused .bufferLimit := by
  fun_induction judge stops lines pieces with
  | case1 => simp
  | case2 => simp
  | case3 => simp
  | case4 => simp
  | case5 => simp
  | case6 _ _ _ _ _ _ _ ih => exact ih

theorem Connection.waiting_default : Waiting {} where
  free := rfl
  silent := rfl
  noLineFeed := by simp
  short := by decide

/-- The server, receiving a stream in chunks from a fresh connection, hands over the lines
of the stream and ends as its own answers to them say. -/
theorem server_receiveAll {server : Server} {fd : Int}
    (fresh : (serverReceiver fd).receiveBuffer server = some [])
    (opened : (serverReceiver fd).reserved server = false) {chunks : List Bytes}
    (small : ∀ data ∈ chunks, data.length ≤ Server.recvChunkSize) :
    ∃ stops final, Mirrors fd server ((serverReceiver fd).receiveAll chunks server) final ∧
      final.outcome = judge stops [] (linePieces chunks.flatten) := by
  have mirrors : Mirrors fd server server {} := ⟨Handed.start, fresh, opened⟩
  have judged : ∀ stops, ((lineReceiver stops).receiveAll chunks {}).outcome =
      judge stops [] (linePieces chunks.flatten) :=
    fun _ => outcome_receiveAll Connection.waiting_default small
  cases follows_receiveAll chunks mirrors rfl with
  | closed last later closed mirrored => exact ⟨_, _, mirrored, judged (stopAt last)⟩
  | goesOn next free progress mirrored same =>
      refine ⟨stopAt (next.lines.length + 1), next, mirrored, ?_⟩
      rw [← judged, same _ (Nat.lt_succ_self _)]

/-- However a stream is cut, a connection hands over the same lines and ends in the same
way, and its buffer stays within the limit. -/
theorem receiveAll_cut (stops : List Bytes → Bool) {chunks others : List Bytes}
    (small : ∀ data ∈ chunks, 1 ≤ data.length ∧ data.length ≤ Server.recvChunkSize)
    (smallOthers : ∀ data ∈ others, 1 ≤ data.length ∧ data.length ≤ Server.recvChunkSize)
    (stream : chunks.flatten = others.flatten) :
    ((lineReceiver stops).receiveAll chunks {}).outcome =
      ((lineReceiver stops).receiveAll others {}).outcome ∧
    ((lineReceiver stops).receiveAll chunks {}).outcome =
      judge stops [] (linePieces chunks.flatten) ∧
    ((lineReceiver stops).receiveAll chunks {}).report ≠ some .bufferLimit ∧
    ∀ early data late, chunks = early ++ data :: late →
      ((lineReceiver stops).receiveAll early {}).reserved = false →
      ((lineReceiver stops).receiveAll early {}).receiveBuffer.length + data.length ≤
        Server.maxReceiveBuffer := by
  have judged : ∀ chunks : List Bytes,
      (∀ data ∈ chunks, 1 ≤ data.length ∧ data.length ≤ Server.recvChunkSize) →
      ((lineReceiver stops).receiveAll chunks {}).outcome =
        judge stops [] (linePieces chunks.flatten) := by
    intro chunks small
    apply outcome_receiveAll Connection.waiting_default
    exact fun data listed => (small data listed).2
  refine ⟨?_, judged chunks small, ?_, ?_⟩
  · rw [judged chunks small, judged others smallOthers, stream]
  · intro reported
    apply judge_ne_bufferLimit stops [] (linePieces chunks.flatten)
    rw [← judged chunks small, Connection.outcome, reported]
  · intro early data late cut free
    have smallEarly : ∀ data ∈ early, data.length ≤ Server.recvChunkSize := by
      intro other listed
      exact (small other (by rw [cut]; exact List.mem_append_left _ listed)).2
    have smallData := (small data (by simp [cut])).2
    rcases @receiveAll_bounded stops _ Connection.waiting_default _ smallEarly with
      waiting | ⟨reserved, _⟩
    · have short := waiting.short
      simp only [IrcUtil.ircMaxLine] at short
      simp only [Server.recvChunkSize] at smallData
      simp only [Server.maxReceiveBuffer]
      omega
    · rw [free] at reserved
      contradiction

/-- A cut between CR and LF, and a connection that ends itself with its second line. -/
theorem receiveAll_cut_quit :
    ((lineReceiver (·.length == 2)).receiveAll
      [ascii "NICK a\x0d", ascii "\nQUI", ascii "T\nPING\n"] {}).outcome =
    ((lineReceiver (·.length == 2)).receiveAll
      [ascii "NICK a\x0d\nQUIT\nPING\n"] {}).outcome :=
  (receiveAll_cut (·.length == 2) (by decide) (by decide) (by decide)).1

end IrcPlatform.Irc
