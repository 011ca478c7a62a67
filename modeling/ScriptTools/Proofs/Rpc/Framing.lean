import Mathlib.Data.List.Induction
import ScriptTools.Rpc.Framing

/-!
The lines of a stream do not depend on the chunks in which it arrives: they are what stands between the
line ends of all its bytes.
-/

namespace ScriptTools.Rpc

/-- The line that some bytes are. -/
def Line.of (bytes : List UInt8) : Line :=
  if lineLimit < bytes.length then .tooLong else .complete ⟨bytes.toArray⟩

namespace PartialLine

/-- What is known of a line after some of its bytes. -/
def of (bytes : List UInt8) : PartialLine :=
  if bytes = [] then {}
  else if lineLimit < bytes.length then ⟨.empty, true, true⟩
  else ⟨⟨bytes.toArray⟩, false, true⟩

end PartialLine

/-! Chunks -/

/-- The search of a chunk for line ends goes on at `i`, in a piece that begins at `st.1`. -/
def cut (chunk : ByteArray) (st : Nat × List ByteArray) (i : Nat) : Nat × List ByteArray :=
  if chunk[i]? = some newline then (i + 1, chunk.extract st.1 i :: st.2) else st

end ScriptTools.Rpc
