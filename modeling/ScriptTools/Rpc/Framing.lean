/-!
Lines in a stream of bytes that arrives in chunks. A line that is too long is passed over and reported
once; a last line without its end counts when it is not empty.
-/

namespace ScriptTools.Rpc

/-- The most bytes a line may have. -/
def lineLimit : Nat := 1024 * 1024

inductive Line where
  | complete (bytes : ByteArray)
  | tooLong

/-- A line that is being read: its bytes, whether it has become too long, and whether anything of it has
been seen. -/
structure PartialLine where
  bytes : ByteArray := ByteArray.empty
  tooLong : Bool := false
  seen : Bool := false
deriving Inhabited

namespace PartialLine

/-- Takes in a piece without line ends. -/
def push (p : PartialLine) (piece : ByteArray) : PartialLine :=
  if p.tooLong then { p with seen := true }
  else if lineLimit < p.bytes.size + piece.size then ⟨ByteArray.empty, true, true⟩
  else { p with bytes := p.bytes ++ piece, seen := true }

def line (p : PartialLine) : Line := if p.tooLong then .tooLong else .complete p.bytes

/-- What stands at the end of the stream. -/
def finish (p : PartialLine) : List Line := if p.seen then [p.line] else []

end PartialLine

def newline : UInt8 := 10

/-- The pieces of a chunk between its line ends; there is one more piece than line ends. -/
def splitChunk (chunk : ByteArray) : List ByteArray :=
  let cut (st : Nat × List ByteArray) (i : Nat) : Nat × List ByteArray :=
    if chunk[i]? = some newline then (i + 1, chunk.extract st.1 i :: st.2) else st
  let (start, done) := (List.range chunk.size).foldl cut (0, [])
  (chunk.extract start chunk.size :: done).reverse

/-- Takes in the pieces of a chunk: every piece but the last ends a line. -/
def takePieces (p : PartialLine) (done : List Line) : List ByteArray → PartialLine × List Line
  | [] => (p, done)
  | [last] => (if last.size = 0 then p else p.push last, done)
  | piece :: rest => takePieces {} ((p.push piece).line :: done) rest

/-- The lines of a stream. -/
def lines (chunks : List ByteArray) : List Line :=
  let step (st : PartialLine × List Line) (chunk : ByteArray) : PartialLine × List Line :=
    takePieces st.1 st.2 (splitChunk chunk)
  let (p, done) := chunks.foldl step ({}, [])
  done.reverse ++ p.finish

end ScriptTools.Rpc
