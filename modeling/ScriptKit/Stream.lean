/-! Output that may be refused, and input that is taken line by line. -/

namespace ScriptKit

def byteLimit (limit : Option Nat) (sizes : List Nat) (size : Nat) : Option String :=
  if limit.any (· < sizes.foldr (· + ·) size) then some "sink full" else none

/-- An output. `text` is what was written since it was last taken away. The writer behind it
takes a text as a whole or refuses it with an error. It knows the sizes in bytes of all texts it
ever took, the latest first, and the size of the next one. Unless told otherwise it counts bytes
up to `limit`. -/
structure Sink where
  text : String := ""
  sizes : List Nat := []
  limit : Option Nat := none
  refusal? : List Nat → Nat → Option String := byteLimit limit

namespace Sink

/-- Writes a text. An empty one never gets to the writer. -/
def write (sink : Sink) (text : String) : Except String Sink :=
  if text = "" then .ok sink
  else
    match sink.refusal? sink.sizes text.utf8ByteSize with
    | some message => .error message
    | none => .ok { sink with
        text := sink.text ++ text
        sizes := text.utf8ByteSize :: sink.sizes }

end Sink

def takeLine : List UInt8 → List UInt8 × List UInt8
  | [] => ([], [])
  | b :: bs =>
    if b = 10 then ([b], bs)
    else
      let (line, rest) := takeLine bs
      (b :: line, rest)

def dropLineEnd (line : List UInt8) : List UInt8 :=
  if line.getLast? = some 10 then
    let line := line.dropLast
    if line.getLast? = some 13 then line.dropLast else line
  else line

def decodeText? (bytes : List UInt8) : Option String :=
  String.fromUTF8? ⟨bytes.toArray⟩

def notText : String := "stream did not contain valid UTF-8"

end ScriptKit
