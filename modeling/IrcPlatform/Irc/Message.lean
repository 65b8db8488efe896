import IrcPlatform.Irc.IrcUtil

/-!
# Lines and messages

`BufferUtil.findLine` cuts the first line out of a receive buffer and
`Parser.parse` turns one line into a `Message`.
-/

namespace IrcPlatform.Irc

structure Message where
  linePrefix : Bytes := []
  command : Bytes
  params : List Bytes := []

namespace BufferUtil

/-- Result of looking for a line; `consumed` is the length of the prefix to drop. -/
inductive LineStatus where
  | incomplete
  | extracted (line : Bytes) (consumed : Nat)
  | tooLong (consumed : Nat)

/-- The bytes before the first LF, or `none` when there is no LF. -/
def beforeLineFeed : Bytes → Option Bytes
  | [] => none
  | c :: rest => if c = 10 then some [] else (beforeLineFeed rest).map (c :: ·)

def dropCarriageReturn (raw : Bytes) : Bytes :=
  if raw.getLast? = some 13 then raw.dropLast else raw

def findLine (buffer : Bytes) : LineStatus :=
  match beforeLineFeed buffer with
  | none =>
      if IrcUtil.ircMaxLine ≤ buffer.length then .tooLong buffer.length else .incomplete
  | some raw =>
      let content := dropCarriageReturn raw
      if IrcUtil.ircMaxContent < content.length then .tooLong (raw.length + 1)
      else .extracted content (raw.length + 1)

end BufferUtil

namespace Parser

def maxParams : Nat := 15

def skipSpaces (line : Bytes) : Bytes := line.dropWhile (· == byte ' ')

/-- The token at the front and the rest of the line, which starts at the space. -/
def takeToken (line : Bytes) : Bytes × Bytes := line.span (· != byte ' ')

/-- The parameters of a line of which at most `room` may still be read. -/
def parseParams : Nat → Bytes → Option (List Bytes)
  | room, rest =>
      match skipSpaces rest with
      | [] => some []
      | first :: tail =>
          match room with
          | 0 => none
          | room + 1 =>
              if first = byte ':' then some [tail]
              else
                let (token, rest) := takeToken (first :: tail)
                (parseParams room rest).map (token :: ·)

def parseCommand (linePrefix rest : Bytes) : Option Message :=
  let (command, rest) := takeToken rest
  if command.isEmpty then none
  else
    (parseParams maxParams rest).map fun params =>
      { linePrefix := linePrefix, command := IrcUtil.toUpperAscii command, params := params }

/-- `none` where the function returns false and leaves its result unchanged. -/
def parse (line : Bytes) : Option Message :=
  if line.contains 0 then none
  else
    match skipSpaces line with
    | [] => none
    | first :: rest =>
        if first = byte ':' then
          let (linePrefix, rest) := takeToken rest
          if linePrefix.isEmpty then none else parseCommand linePrefix (skipSpaces rest)
        else parseCommand [] (first :: rest)

end Parser

end IrcPlatform.Irc
