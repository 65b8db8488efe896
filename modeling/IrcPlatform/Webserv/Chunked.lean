import IrcPlatform.Library.Loop
import IrcPlatform.Webserv.Text

/-!
# Chunked bodies

`parseChunked` as a loop over positions of the input. Positions and sizes are of
type `size_t`, so sums with the announced chunk size are taken modulo `2 ^ 64`.
-/

namespace IrcPlatform.Webserv

def blankLine : Bytes := crlf ++ crlf

inductive ChunkedResult where
  /-- `false` is returned. -/
  | rejected
  /-- `true` is returned, with the body decoded so far. -/
  | incomplete (body : Bytes)
  | complete (body : Bytes)
  /-- `compare` throws `std::out_of_range`. -/
  | outOfRange
  /-- The loop does not end. -/
  | spins
deriving DecidableEq

/-- The chunk size on a line, without its extension. -/
def chunkSize (line : Bytes) : Option Nat :=
  let sizeText := trim (line.takeWhile (· != byte ';'))
  if sizeText.isEmpty then none else wholeHex 64 sizeText

/-- One round of the loop over the trailer lines that end at `trailersEnd`. -/
def trailerRound (input : Bytes) (trailersEnd trailer : Nat) : Round Nat Bool :=
  if trailersEnd ≤ trailer then .done true
  else
    match findFrom crlf input trailer with
    | none => .done false
    | some trailerEnd =>
        match findFrom [byte ':'] input trailer with
        | none => .done false
        | some colon => if trailerEnd ≤ colon then .done false else .next (trailerEnd + 2)

/-- What follows the last chunk; the rounds of the trailer loop are fewer than its bytes. -/
def finishChunked (input : Bytes) (position : Nat) (body : Bytes) : ChunkedResult :=
  if substr input position 2 = crlf then .complete body
  else
    match findFrom blankLine input position with
    | none => .incomplete body
    | some trailersEnd =>
        if (Loop.run (trailerRound input trailersEnd) (trailersEnd + 1) position).getD false then
          .complete body
        else .rejected

/-- One round of the loop, at the start of a line with a chunk size. -/
def chunkRound (input : Bytes) : Nat × Bytes → Round (Nat × Bytes) ChunkedResult
  | (position, body) =>
      match findFrom crlf input position with
      | none => .done (.incomplete body)
      | some lineEnd =>
          match chunkSize (substr input position (lineEnd - position)) with
          | none => .done .rejected
          | some size =>
              let start := lineEnd + 2
              if size = 0 then .done (finishChunked input start body)
              else if input.length < (start + size + 2) % 2 ^ 64 then .done (.incomplete body)
              else
                let after := (start + size) % 2 ^ 64
                if input.length < after then .done .outOfRange
                else if substr input after 2 ≠ crlf then .done .rejected
                else .next (after + 2, body ++ substr input start size)

/-- The rounds of a loop that returns are at most the positions of the input. -/
def parseChunked (input : Bytes) : ChunkedResult :=
  (Loop.run (chunkRound input) (input.length + 1) (0, [])).getD .spins

end IrcPlatform.Webserv
