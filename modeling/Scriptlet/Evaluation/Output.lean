namespace Scriptlet

/-- The bytes written so far, for which there may be only so much room. -/
structure Output where
  written : ByteArray
  /-- How many bytes can be written in all. -/
  limit : Option Nat
  /-- Why a write for which there is no room fails. -/
  refusal : String := "sink full"

namespace Output

def empty (limit : Option Nat) : Output := { written := .empty, limit }

/-- Writes as much of the text as there is room for, and says whether that was all. -/
def write (o : Output) (text : String) : Output × Bool :=
  let bytes := text.toUTF8
  match o.limit with
  | none => ({ o with written := o.written ++ bytes }, true)
  | some n =>
    let room := n - o.written.size
    if bytes.size ≤ room then ({ o with written := o.written ++ bytes }, true)
    else ({ o with written := o.written ++ bytes.extract 0 room }, false)

end Output

end Scriptlet
