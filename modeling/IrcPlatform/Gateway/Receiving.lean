import IrcPlatform.Gateway.Arrivals
import IrcPlatform.Gateway.LineReading
import IrcPlatform.Gateway.MessageLine

/-!
# Chunks that arrive at the gateway

The socket gives the bytes of the server in chunks that end anywhere, inside a character as
well. A connection does with them what it does with their lines, as long as the text of one
chunk and of the line before it stay within the limit of the receive buffer.
-/

namespace IrcPlatform.Gateway

open JsString

/-! ## Decoding by chunks -/

/-- The text that a chunk completes, and the decoder behind the chunk. -/
def decodeChunk : Utf8Decoder → Bytes → JsString × Utf8Decoder
  | decoder, [] => ([], decoder)
  | decoder, next :: rest =>
      let decoded := decodeByte decoder next
      let later := decodeChunk decoded.2 rest
      (decoded.1 ++ later.1, later.2)

variable {decoder : Utf8Decoder} {front back data rest : Bytes}

theorem decodeChunk_cons (decoder : Utf8Decoder) (next : UInt8) (rest : Bytes) :
    decodeChunk decoder (next :: rest) = ((decodeByte decoder next).1 ++
      (decodeChunk (decodeByte decoder next).2 rest).1,
        (decodeChunk (decodeByte decoder next).2 rest).2) := rfl

theorem decodeChunk_append (decoder : Utf8Decoder) (front back : Bytes) :
    decodeChunk decoder (front ++ back) = ((decodeChunk decoder front).1 ++
      (decodeChunk (decodeChunk decoder front).2 back).1,
        (decodeChunk (decodeChunk decoder front).2 back).2) := by
  induction front generalizing decoder with
  | nil => rfl
  | cons next front ih =>
      rw [List.cons_append, decodeChunk_cons, ih, decodeChunk_cons, List.append_assoc]

theorem decodeFrom_append (decoder : Utf8Decoder) (front back : Bytes) :
    decodeFrom decoder (front ++ back) =
      (decodeChunk decoder front).1 ++ decodeFrom (decodeChunk decoder front).2 back := by
  induction front generalizing decoder with
  | nil => rfl
  | cons next front ih =>
      rw [List.cons_append, decodeFrom_cons, ih, decodeChunk_cons, List.append_assoc]

theorem decodeChunk_bounded (bounded : decoder.Bounded) (data : Bytes) :
    (decodeChunk decoder data).2.Bounded := by
  induction data generalizing decoder with
  | nil => exact bounded
  | cons next rest ih => exact ih (decodeByte_bounded bounded next)

/-- A line feed ends whatever is in front of it. -/
theorem decodeChunk_feed (bounded : decoder.Bounded) (front back : Bytes) :
    decodeChunk decoder (front ++ 10 :: back) =
      (decodeFrom decoder front ++ 10 :: (decodeChunk {} back).1, (decodeChunk {} back).2) := by
  have small : (10 : UInt8) < 0x80 := by decide
  induction front generalizing decoder with
  | nil =>
      rw [List.nil_append, decodeChunk_cons, decodeByte_of_lt bounded small, List.append_assoc]
      rfl
  | cons next front ih =>
      rw [List.cons_append, decodeChunk_cons, ih (decodeByte_bounded bounded next),
        decodeFrom_cons, List.append_assoc]

theorem feed_of_mem_decodeChunk (listed : 10 ∈ (decodeChunk {} data).1) : 10 ∈ data := by
  have whole := decodeFrom_append {} data []
  rw [List.append_nil] at whole
  have inText : (10 : UInt16) ∈ decodeUtf8 data := by
    rw [decodeUtf8, whole]
    exact List.mem_append_left _ listed
  exact byte_of_mem_decodeUtf8 inText (by decide)

/-- What ends with a byte that is no ASCII character ends with no ASCII character. -/
theorem getLast?_decodeFrom (bounded : decoder.Bounded) {last : UInt8} (large : ¬last < 0x80) :
    ∀ c ∈ (decodeFrom decoder [last]).getLast?, ¬c < 0x80 := by
  rcases decodeByte_of_not_lt bounded large with ⟨_, shown, starts⟩
  intro c ends
  have listed := List.mem_of_getLast? ends
  rw [decodeFrom_cons] at listed
  rcases List.mem_append.mp listed with here | flushed
  · exact shown c here
  · rw [decodeFrom] at flushed
    split at flushed
    · cases flushed
    · rw [List.mem_singleton.mp flushed]
      decide

theorem decodeFrom_single_ne_nil (bounded : decoder.Bounded) {last : UInt8}
    (large : ¬last < 0x80) : decodeFrom decoder [last] ≠ [] := by
  rcases decodeByte_of_not_lt bounded large with ⟨_, _, starts⟩
  rw [decodeFrom_cons]
  by_cases complete : (decodeByte decoder last).2.needed = 0
  · exact List.append_ne_nil_of_left_ne_nil (starts complete) _
  · rw [decodeFrom, if_neg complete]
    exact List.append_ne_nil_of_right_ne_nil _ (List.cons_ne_nil _ _)

/-! ## Lines of the text -/

/-- `split(/\r?\n/)`: a carriage return in front of a line feed belongs to the terminator. -/
def splitTerminators : JsString → List JsString
  | [] => [[]]
  | c :: rest =>
      if c = 10 then [] :: splitTerminators rest
      else if c = 13 ∧ rest.head? = some 10 then splitTerminators rest
      else (splitTerminators rest).modifyHead (c :: ·)

/-- A line without the carriage return of its terminator. -/
def dropReturn (line : JsString) : JsString :=
  if line.getLast? = some 13 then line.dropLast else line

theorem splitTerminators_unbroken {text : JsString} (unbroken : 10 ∉ text) :
    splitTerminators text = [text] := by
  induction text with
  | nil => rfl
  | cons c rest ih =>
      rw [List.mem_cons, not_or] at unbroken
      have noFeed : ¬(c = 13 ∧ rest.head? = some 10) := fun both =>
        unbroken.2 (List.mem_of_head? both.2)
      rw [splitTerminators, if_neg (Ne.symm unbroken.1), if_neg noFeed, ih unbroken.2]
      rfl

theorem splitTerminators_line {line : JsString} (unbroken : 10 ∉ line) (rest : JsString) :
    splitTerminators (line ++ 10 :: rest) = dropReturn line :: splitTerminators rest := by
  induction line with
  | nil => rfl
  | cons c line ih =>
      rw [List.mem_cons, not_or] at unbroken
      rw [List.cons_append, splitTerminators, if_neg (Ne.symm unbroken.1), ih unbroken.2]
      cases line with
      | nil =>
          by_cases isReturn : c = 13
          · subst isReturn
            rfl
          · rw [if_neg fun both => isReturn both.1, List.modifyHead, dropReturn, dropReturn,
              List.getLast?_singleton, if_neg (fun same => isReturn (Option.some.inj same))]
            rfl
      | cons next line =>
          have other : ¬(c = 13 ∧ (next :: line ++ 10 :: rest).head? = some 10) := by
            rintro ⟨_, same⟩
            exact unbroken.2 (Option.some.inj same ▸ List.mem_cons_self)
          rw [if_neg other, List.modifyHead]
          unfold dropReturn
          rw [List.getLast?_cons_cons]
          split
          · rw [List.dropLast_cons_cons]
          · rfl

/-- The carriage return of a terminator is found alike in the bytes and in their text. -/
theorem dropReturn_decodeUtf8 (raw : Bytes) :
    dropReturn (decodeUtf8 raw) = decodeUtf8 (Irc.BufferUtil.dropCarriageReturn raw) := by
  unfold dropReturn Irc.BufferUtil.dropCarriageReturn
  rcases List.eq_nil_or_concat raw with rfl | ⟨front, last, rfl⟩
  · rfl
  · rw [List.concat_eq_append, List.getLast?_concat, List.dropLast_concat]
    by_cases ascii : last < 0x80
    · rw [decodeUtf8_append_cons ascii, show decodeUtf8 [] = [] from rfl, List.getLast?_concat,
        List.dropLast_concat]
      by_cases isReturn : last = 13
      · rw [isReturn]
        rfl
      · rw [if_neg, if_neg]
        · rw [decodeUtf8_append_cons ascii, show decodeUtf8 [] = [] from rfl]
        · simpa using isReturn
        · intro same
          apply isReturn
          rw [← toUInt8_toUInt16 last, Option.some.inj same]
          rfl
    · have bounded := decodeChunk_bounded bounded_start front
      have ends := getLast?_decodeFrom bounded ascii
      have given := decodeFrom_single_ne_nil bounded ascii
      rw [decodeUtf8, decodeFrom_append, List.getLast?_append_of_ne_nil _ given]
      rw [if_neg, if_neg]
      · rw [decodeUtf8, decodeFrom_append]
      · intro same
        rw [Option.some.inj same] at ascii
        exact ascii (by decide)
      · intro same
        exact ends 13 same (by decide)

/-! ## Lines of the bytes -/

/-- One more byte of a stream that has been cut into lines. -/
def cutByte (cut : List Bytes × Bytes) (c : UInt8) : List Bytes × Bytes :=
  if c = 10 then (cut.1 ++ [Irc.BufferUtil.dropCarriageReturn cut.2], []) else (cut.1, cut.2 ++ [c])

/-- The complete lines of a stream, and what follows the last of them. -/
def cutLines (data : Bytes) : List Bytes × Bytes := data.foldl cutByte ([], [])

theorem foldl_cutByte (lines : List Bytes) (begun data : Bytes) :
    data.foldl cutByte (lines, begun) =
      (lines ++ (data.foldl cutByte ([], begun)).1, (data.foldl cutByte ([], begun)).2) := by
  induction data generalizing lines begun with
  | nil => simp
  | cons c data ih =>
      rw [List.foldl_cons, List.foldl_cons]
      by_cases feed : c = 10
      · simp only [cutByte, if_pos feed, List.nil_append]
        rw [ih, ih [_], List.append_assoc]
      · simp only [cutByte, if_neg feed]
        exact ih lines _

theorem foldl_cutByte_unbroken (begun : Bytes) (unbroken : 10 ∉ data) :
    data.foldl cutByte ([], begun) = ([], begun ++ data) := by
  induction data generalizing begun with
  | nil => simp
  | cons c data ih =>
      rw [List.mem_cons, not_or] at unbroken
      rw [List.foldl_cons, cutByte, if_neg (Ne.symm unbroken.1), ih _ unbroken.2,
        List.append_assoc, List.singleton_append]

theorem cutLines_unbroken (unbroken : 10 ∉ data) : cutLines data = ([], data) :=
  foldl_cutByte_unbroken [] unbroken

theorem cutLines_line {raw : Bytes} (unbroken : 10 ∉ raw) (rest : Bytes) :
    cutLines (raw ++ 10 :: rest) =
      (Irc.BufferUtil.dropCarriageReturn raw :: (cutLines rest).1, (cutLines rest).2) := by
  rw [cutLines, List.foldl_append, foldl_cutByte_unbroken [] unbroken, List.foldl_cons, cutByte,
    if_pos rfl, foldl_cutByte]
  rfl

/-- Induction on the lines of a stream. -/
theorem lines_induction {property : Bytes → Prop}
    (ends : ∀ data : Bytes, 10 ∉ data → property data)
    (line : ∀ raw rest : Bytes, 10 ∉ raw → property rest → property (raw ++ 10 :: rest))
    (data : Bytes) : property data := by
  by_cases broken : 10 ∈ data
  · rcases List.eq_append_cons_of_mem broken with ⟨raw, rest, same, unbroken⟩
    have shorter : rest.length < data.length := by
      rw [same, List.length_append, List.length_cons]
      omega
    rw [same]
    exact line raw rest unbroken (lines_induction ends line rest)
  · exact ends data broken
termination_by data.length

theorem cutLines_append (front back : Bytes) : cutLines (front ++ back) =
    ((cutLines front).1 ++ (cutLines ((cutLines front).2 ++ back)).1,
      (cutLines ((cutLines front).2 ++ back)).2) := by
  induction front using lines_induction with
  | ends data unbroken => rw [cutLines_unbroken unbroken, List.nil_append]
  | line raw rest unbroken ih =>
      rw [List.append_assoc, List.cons_append, cutLines_line unbroken, ih, cutLines_line unbroken,
        List.cons_append]

theorem splitLine_line {raw : Bytes} (unbroken : 10 ∉ raw) (rest : Bytes) :
    splitLine (raw ++ 10 :: rest) = some (Irc.BufferUtil.dropCarriageReturn raw, rest) := by
  rw [splitLine, beforeLineFeed_append unbroken, Option.map_some]
  simp

/-- The text of a stream is split where its bytes are cut. -/
theorem splitTerminators_decodeChunk (data : Bytes) :
    splitTerminators (decodeChunk {} data).1 =
        (cutLines data).1.map decodeUtf8 ++ [(decodeChunk {} (cutLines data).2).1] ∧
      (decodeChunk {} data).2 = (decodeChunk {} (cutLines data).2).2 := by
  induction data using lines_induction with
  | ends data unbroken =>
      rw [cutLines_unbroken unbroken]
      exact ⟨splitTerminators_unbroken fun listed => unbroken (feed_of_mem_decodeChunk listed), rfl⟩
  | line raw rest unbroken ih =>
      have textUnbroken : 10 ∉ decodeUtf8 raw := fun listed =>
        unbroken (byte_of_mem_decodeUtf8 listed (by decide))
      rw [decodeChunk_feed bounded_start, cutLines_line unbroken]
      refine ⟨?_, ih.2⟩
      rw [← decodeUtf8, splitTerminators_line textUnbroken, dropReturn_decodeUtf8, ih.1]
      rfl

/-! ## Receiving -/

namespace Connection

/-- What `#onData` and the listener of the gateway do with a line of text. -/
def takeText (connection : Connection) (line : JsString) : Connection :=
  match connection.irc with
  | none => connection
  | some irc =>
      if line.isEmpty then connection
      else
        match parseIrcLine line with
        | none => connection
        | some message =>
            let answered :=
              if message.command == js "PING" then
                irc.send (js "PONG") message.params message.trailing
              else irc
            if message.command == js "001" then
              match connection.joinedChannel with
              | none => { connection with irc := some answered }
              | some channel => { connection with irc := some (answered.join channel) }
            else { connection with irc := some answered }

/-- What the gateway does with a line of bytes. -/
def takeLine (connection : Connection) (line : Bytes) : Connection :=
  match connection.irc with
  | none => connection
  | some irc => connection.handleLine irc line

/-- `destroy` of the `IrcConnection`. -/
def destroy (connection : Connection) : Connection :=
  { connection with irc := connection.irc.map fun irc => { irc with socket := .destroyed } }

end Connection

/-- An `IrcConnection` between two chunks. -/
structure Receiver where
  connection : Connection
  decoder : Utf8Decoder := {}
  buffer : JsString := []
  destroyed : Bool := false

def receiveLimit : Nat := 128 * 1024

/-- A destroyed socket gives no data any more. -/
def onData (receiver : Receiver) (chunk : Bytes) : Receiver :=
  if receiver.destroyed then receiver
  else
    let decoded := decodeChunk receiver.decoder chunk
    let buffer := receiver.buffer ++ decoded.1
    if receiveLimit < buffer.length then
      ⟨receiver.connection.destroy, decoded.2, buffer, true⟩
    else
      let lines := splitTerminators buffer
      ⟨lines.dropLast.foldl Connection.takeText receiver.connection, decoded.2,
        lines.getLastD [], false⟩

def receive (connection : Connection) (chunks : List Bytes) : Receiver :=
  chunks.foldl onData { connection := connection }

theorem takeText_decodeUtf8 (connection : Connection) (line : Bytes) :
    connection.takeText (decodeUtf8 line) = connection.takeLine line := by
  rcases connection with ⟨joinedChannel, recentActions, irc, isOpen⟩
  cases irc with
  | none => rfl
  | some irc =>
      simp only [Connection.takeText, Connection.takeLine, Connection.handleLine]
      split
      next empty =>
        rw [List.isEmpty_iff.mp empty]
        rfl
      · cases parseIrcLine (decodeUtf8 line) with
        | none => rfl
        | some message => rfl

theorem foldl_takeText (connection : Connection) (lines : List Bytes) :
    (lines.map decodeUtf8).foldl Connection.takeText connection =
      lines.foldl Connection.takeLine connection := by
  rw [List.foldl_map]
  simp only [takeText_decodeUtf8]

/-- The text of the unfinished line and of the chunk that follows the chunks. -/
def waiting (early : List Bytes) (chunk : Bytes) : JsString :=
  (decodeChunk {} ((cutLines early.flatten).2 ++ chunk)).1

/-- No chunk takes the receive buffer over its limit. -/
def Fits (chunks : List Bytes) : Prop :=
  ∀ early chunk late, chunks = early ++ chunk :: late →
    (waiting early chunk).length ≤ receiveLimit

/-- The state that the lines of the bytes lead to. -/
def Receiver.behind (connection : Connection) (data : Bytes) : Receiver where
  connection := (cutLines data).1.foldl Connection.takeLine connection
  decoder := (decodeChunk {} (cutLines data).2).2
  buffer := (decodeChunk {} (cutLines data).2).1

theorem onData_behind (connection : Connection) (early : List Bytes) (chunk : Bytes) :
    onData (.behind connection early.flatten) chunk =
      if receiveLimit < (waiting early chunk).length then
        ⟨(Receiver.behind connection early.flatten).connection.destroy,
          (decodeChunk {} ((cutLines early.flatten).2 ++ chunk)).2, waiting early chunk, true⟩
      else .behind connection (early ++ [chunk]).flatten := by
  have whole := decodeChunk_append {} (cutLines early.flatten).2 chunk
  have text : (Receiver.behind connection early.flatten).buffer ++
      (decodeChunk (Receiver.behind connection early.flatten).decoder chunk).1 =
        waiting early chunk := (congrArg Prod.fst whole).symm
  have decoder : (decodeChunk (Receiver.behind connection early.flatten).decoder chunk).2 =
      (decodeChunk {} ((cutLines early.flatten).2 ++ chunk)).2 := (congrArg Prod.snd whole).symm
  have code : (Receiver.behind connection early.flatten).destroyed = false := rfl
  unfold onData
  rw [code, if_neg Bool.false_ne_true]
  dsimp only
  rw [text, decoder]
  split
  · rfl
  · rcases splitTerminators_decodeChunk ((cutLines early.flatten).2 ++ chunk) with ⟨lines, same⟩
    rw [waiting, lines, same, List.dropLast_concat, List.getLastD_concat, foldl_takeText,
      List.flatten_append, List.flatten_singleton]
    unfold Receiver.behind
    rw [cutLines_append early.flatten chunk, List.foldl_append]

theorem receive_concat (connection : Connection) (chunks : List Bytes) (chunk : Bytes) :
    receive connection (chunks ++ [chunk]) = onData (receive connection chunks) chunk := by
  rw [receive, List.foldl_concat]
  rfl

theorem Fits.init {chunks : List Bytes} {chunk : Bytes} (fits : Fits (chunks ++ [chunk])) :
    Fits chunks := by
  rintro early other late rfl
  exact fits early other (late ++ [chunk]) (by simp)

theorem Fits.concat {chunks : List Bytes} {chunk : Bytes} (fits : Fits chunks)
    (small : (waiting chunks chunk).length ≤ receiveLimit) : Fits (chunks ++ [chunk]) := by
  intro early other late same
  rcases List.eq_nil_or_concat late with rfl | ⟨before, last, rfl⟩
  · rcases List.append_singleton_inj.mp same with ⟨rfl, rfl⟩
    exact small
  · rw [List.concat_eq_append, ← List.cons_append, ← List.append_assoc] at same
    exact fits early other before (List.append_singleton_inj.mp same).1

theorem receive_of_fits {connection : Connection} {chunks : List Bytes} (fits : Fits chunks) :
    receive connection chunks = .behind connection chunks.flatten := by
  induction chunks using List.reverseRecOn with
  | nil => rfl
  | append_singleton chunks chunk ih =>
      rw [receive_concat, ih fits.init, onData_behind,
        if_neg (Nat.not_lt.mpr (fits chunks chunk [] rfl))]

/-- Behind the chunk that takes the buffer over its limit nothing is read any more. -/
theorem receive_of_not_fits {connection : Connection} {chunks : List Bytes}
    (overflows : ¬Fits chunks) : ∃ early chunk late, chunks = early ++ chunk :: late ∧
      Fits early ∧ receiveLimit < (waiting early chunk).length ∧
      (receive connection chunks).connection =
        ((cutLines early.flatten).1.foldl Connection.takeLine connection).destroy ∧
      (receive connection chunks).destroyed = true := by
  induction chunks using List.reverseRecOn with
  | nil =>
      refine absurd ?_ overflows
      intro early chunk late same
      simp at same
  | append_singleton chunks chunk ih =>
      by_cases fits : Fits chunks
      · have exceeds : receiveLimit < (waiting chunks chunk).length := by
          by_contra small
          apply overflows
          apply fits.concat
          exact Nat.le_of_not_lt small
        refine ⟨chunks, chunk, [], rfl, fits, exceeds, ?_⟩
        rw [receive_concat, receive_of_fits fits, onData_behind, if_pos exceeds]
        exact ⟨rfl, rfl⟩
      · rcases ih fits with ⟨early, other, late, rfl, fitsEarly, exceeds, connection, destroyed⟩
        refine ⟨early, other, late ++ [chunk], by simp, fitsEarly, exceeds, ?_⟩
        rw [receive_concat, onData, if_pos destroyed]
        exact ⟨connection, destroyed⟩

/-! ## Short lines -/

/-- The characters that a sequence in progress may still leave behind. -/
def owed (decoder : Utf8Decoder) : Nat := if decoder.needed = 0 then 0 else 1

theorem owed_le (decoder : Utf8Decoder) : owed decoder ≤ 1 := by
  unfold owed
  split
  · exact Nat.zero_le 1
  · exact Nat.le_refl 1

theorem length_ofCodePoint (point : Nat) : (ofCodePoint point).length ≤ 2 := by
  unfold ofCodePoint
  split
  · exact Nat.le_succ 1
  · exact Nat.le_refl 2

theorem length_decodeLead (lead : UInt8) :
    (decodeLead lead).1.length + owed (decodeLead lead).2 ≤ 1 := by
  have starting (decoder : Utf8Decoder) : ([] : JsString).length + owed decoder ≤ 1 := by
    rw [List.length_nil, Nat.zero_add]
    exact owed_le decoder
  unfold decodeLead
  dsimp only
  split
  · exact Nat.le_refl 1
  · split
    · exact starting _
    · split
      · exact starting _
      · split
        · exact starting _
        · exact Nat.le_refl 1

theorem length_decodeByte (decoder : Utf8Decoder) (next : UInt8) :
    (decodeByte decoder next).1.length + owed (decodeByte decoder next).2 ≤ 1 + owed decoder := by
  have lead := length_decodeLead next
  unfold decodeByte
  split
  · omega
  next needed =>
    have one : owed decoder = 1 := if_neg needed
    rw [one]
    split
    · dsimp only
      split
      · have complete : owed {} = 0 := if_pos rfl
        have short := length_ofCodePoint (decoder.point * 0x40 + (next.toNat - 0x80))
        rw [complete]
        dsimp only
        omega
      · rw [List.length_nil, Nat.zero_add]
        exact Nat.le_trans (owed_le _) (Nat.le_succ 1)
    · dsimp only
      rw [List.length_cons]
      omega

/-- The text has at most as many code units as the bytes are. -/
theorem length_decodeChunk (decoder : Utf8Decoder) (data : Bytes) :
    (decodeChunk decoder data).1.length + owed (decodeChunk decoder data).2 ≤
      data.length + owed decoder := by
  induction data generalizing decoder with
  | nil => simp only [decodeChunk, List.length_nil, Nat.le_refl]
  | cons next rest ih =>
      have here := length_decodeByte decoder next
      have later := ih (decodeByte decoder next).2
      rw [decodeChunk_cons, List.length_append, List.length_cons]
      dsimp only
      omega

theorem fits_of_short {chunks : List Bytes}
    (short : ∀ early chunk late, chunks = early ++ chunk :: late →
      (cutLines early.flatten).2.length + chunk.length ≤ receiveLimit) : Fits chunks := by
  intro early chunk late same
  have bytes := short early chunk late same
  have units := length_decodeChunk {} ((cutLines early.flatten).2 ++ chunk)
  have nothing : owed {} = 0 := rfl
  rw [List.length_append, nothing] at units
  rw [waiting]
  omega

/-! ## Lines of the system -/

namespace Connection

/-- These bytes are on the way to the connection. -/
def expecting (connection : Connection) (data : Bytes) : Connection :=
  { connection with irc := connection.irc.map fun irc => { irc with toGateway := data } }

variable {connection : Connection} {irc : IrcConnection}

theorem expecting_self (open_ : connection.irc = some irc) :
    connection.expecting irc.toGateway = connection := by
  rcases connection with ⟨joinedChannel, recentActions, irc, isOpen⟩
  subst open_
  rfl

theorem expecting_expecting (connection : Connection) (data other : Bytes) :
    (connection.expecting data).expecting other = connection.expecting other := by
  rcases connection with ⟨joinedChannel, recentActions, irc, isOpen⟩
  cases irc with
  | none => rfl
  | some irc => rfl

theorem send_expecting (irc : IrcConnection) (command : JsString) (params : List JsString)
    (trailing : JsString) (data : Bytes) :
    ({ irc with toGateway := data } : IrcConnection).send command params trailing =
      { irc.send command params trailing with toGateway := data } := by
  simp only [IrcConnection.send, IrcConnection.write]
  have same : ({ irc with toGateway := data } : IrcConnection).reaches = irc.reaches := rfl
  rw [same]
  split
  · rfl
  · rfl

theorem handleLine_expecting (connection : Connection) (irc : IrcConnection) (line data : Bytes) :
    connection.handleLine { irc with toGateway := data } line =
      (connection.handleLine irc line).expecting data := by
  simp only [handleLine]
  cases parseIrcLine (decodeUtf8 line) with
  | none => rfl
  | some message =>
      by_cases ping : (message.command == js "PING") = true
      · simp only [if_pos ping, send_expecting]
        split
        · split
          · rfl
          · simp only [IrcConnection.join, send_expecting]
            rfl
        · rfl
      · simp only [if_neg ping]
        split
        · split
          · rfl
          · simp only [IrcConnection.join, send_expecting]
            rfl
        · rfl

theorem takeLine_expecting (connection : Connection) (line data : Bytes) :
    (connection.expecting data).takeLine line = (connection.takeLine line).expecting data := by
  rcases connection with ⟨joinedChannel, recentActions, irc, isOpen⟩
  cases irc with
  | none => rfl
  | some irc =>
      exact handleLine_expecting ⟨joinedChannel, recentActions, some irc, isOpen⟩ irc line data

theorem foldl_takeLine_expecting (connection : Connection) (lines : List Bytes) (data : Bytes) :
    lines.foldl takeLine (connection.expecting data) =
      (lines.foldl takeLine connection).expecting data := by
  induction lines generalizing connection with
  | nil => rfl
  | cons line lines ih => rw [List.foldl_cons, takeLine_expecting, ih, List.foldl_cons]

theorem socket_send (irc : IrcConnection) (command : JsString) (params : List JsString)
    (trailing : JsString) : (irc.send command params trailing).socket = irc.socket := by
  simp only [IrcConnection.send, IrcConnection.write]
  split
  · rfl
  · rfl

/-- A line leaves the connection with its socket. -/
theorem socket_takeLine (open_ : connection.irc = some irc) (line : Bytes) :
    ∃ after, (connection.takeLine line).irc = some after ∧ after.socket = irc.socket := by
  simp only [takeLine, open_, handleLine]
  cases parseIrcLine (decodeUtf8 line) with
  | none => exact ⟨irc, rfl, rfl⟩
  | some message =>
      have answered : (if message.command == js "PING" then
          irc.send (js "PONG") message.params message.trailing else irc).socket = irc.socket := by
        split
        · exact socket_send irc _ _ _
        · rfl
      dsimp only
      split
      · split
        · exact ⟨_, rfl, answered⟩
        · exact ⟨_, rfl, (socket_send _ _ _ _).trans answered⟩
      · exact ⟨_, rfl, answered⟩

end Connection

namespace State

theorem setConnection_setConnection (state : State) (id : Nat) (first second : Connection) :
    (state.setConnection id first).setConnection id second = state.setConnection id second := by
  simp only [setConnection, List.set_set]

theorem setConnection_self {state : State} {id : Nat} {connection : Connection}
    (found : state.connections[id]? = some connection) :
    state.setConnection id connection = state := by
  rcases List.getElem?_eq_some_iff.mp found with ⟨inside, rfl⟩
  simp only [setConnection, List.set_getElem_self]

/-- The lines that have come for a connection are taken one after the other. -/
theorem performAll_arrive (data : Bytes) {state : State} {id : Nat} {connection : Connection}
    {irc : IrcConnection} (found : state.connections[id]? = some connection)
    (open_ : connection.irc = some irc) (alive : irc.socket ≠ .destroyed)
    (coming : irc.toGateway = data) :
    gatewayMachine.performAll (List.replicate (cutLines data).1.length (.arrive id)) state =
      some (state.setConnection id
        (((cutLines data).1.foldl Connection.takeLine connection).expecting
          (cutLines data).2)) := by
  induction data using lines_induction generalizing state connection irc with
  | ends data unbroken =>
      rw [cutLines_unbroken unbroken]
      dsimp only [List.foldl_nil]
      rw [← coming, Connection.expecting_self open_, setConnection_self found]
      rfl
  | line raw rest unbroken ih =>
      have cut := splitLine_line unbroken rest
      rw [cutLines_line unbroken]
      generalize Irc.BufferUtil.dropCarriageReturn raw = line at cut ⊢
      have here : state.ircAt id = some irc := by
        rw [ircAt, found]
        exact open_
      have ready : gatewayMachine.enabled state (.arrive id) = true := by
        change state.enabled (.arrive id) = true
        simp [State.enabled, here, alive, coming, cut]
      have step : gatewayMachine.perform state (.arrive id) =
          state.setConnection id ((connection.takeLine line).expecting rest) := by
        change state.perform (.arrive id) = _
        simp only [State.perform, found, open_, coming, cut]
        rw [Connection.handleLine_expecting, Connection.takeLine, open_]
      rcases Connection.socket_takeLine open_ line with ⟨after, there, socket⟩
      have inside : id < state.connections.length := (List.getElem?_eq_some_iff.mp found).1
      have stored : (state.setConnection id ((connection.takeLine line).expecting
          rest)).connections[id]? = some ((connection.takeLine line).expecting rest) := by
        simp [setConnection, inside]
      have next : ((connection.takeLine line).expecting rest).irc =
          some { after with toGateway := rest } := by
        rw [Connection.expecting, there]
        rfl
      rw [List.length_cons, List.replicate_succ, Machine.performAll, if_pos ready, step,
        ih stored next (socket ▸ alive) rfl, setConnection_setConnection, List.foldl_cons,
        Connection.foldl_takeLine_expecting, Connection.expecting_expecting]

end State

/-! ## Chunks and lines -/

/-- What a connection does with chunks is what it does with their lines. -/
structure ReadsChunks (connection : Connection) (chunks : List Bytes) : Prop where
  /-- However the bytes are cut, their lines are read, and the text behind them is kept. -/
  whole : Fits chunks → receive connection chunks = .behind connection chunks.flatten
  /-- The first chunk that takes the buffer over its limit destroys the connection. -/
  destroyed : ¬Fits chunks → ∃ early chunk late, chunks = early ++ chunk :: late ∧
    Fits early ∧ receiveLimit < (waiting early chunk).length ∧
    (receive connection chunks).connection =
      ((cutLines early.flatten).1.foldl Connection.takeLine connection).destroy ∧
    (receive connection chunks).destroyed = true
  /-- No chunk does where chunks and lines are short. -/
  short : (∀ early chunk late, chunks = early ++ chunk :: late →
    (cutLines early.flatten).2.length + chunk.length ≤ receiveLimit) → Fits chunks
  /-- The system reads the lines one at a time. -/
  arrivals (state : State) (id : Nat) (irc : IrcConnection) :
    state.connections[id]? = some connection → connection.irc = some irc →
    irc.socket ≠ .destroyed → irc.toGateway = chunks.flatten → Fits chunks →
      gatewayMachine.performAll
          (List.replicate (cutLines chunks.flatten).1.length (.arrive id)) state =
        some (state.setConnection id
          ((receive connection chunks).connection.expecting (cutLines chunks.flatten).2))

theorem readsChunks (connection : Connection) (chunks : List Bytes) :
    ReadsChunks connection chunks where
  whole := receive_of_fits
  destroyed := receive_of_not_fits
  short := fits_of_short
  arrivals state id irc found open_ alive coming fits := by
    rw [receive_of_fits fits]
    exact State.performAll_arrive chunks.flatten found open_ alive coming

end IrcPlatform.Gateway
