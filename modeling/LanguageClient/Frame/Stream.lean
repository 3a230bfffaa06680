import LanguageClient.Frame.Header
import LanguageClient.Json.Printer
import LanguageClient.Json.Reader

namespace LanguageClient.Frame

/-- What the front of a byte stream holds. `waiting` asks for more input; everything else comes
with the input behind it. -/
inductive Reading where
  | waiting
  | ended
  | frame (v : Json) (rest : Bytes)
  | failed (fault : Fault) (rest : Bytes)

/-- A body of `n` bytes at the front of `bs`. A body that is refused for its length is not
consumed. -/
def readBody (atEnd : Bool) (n : Nat) (bs : Bytes) : Reading :=
  if maxBody < n then .failed (.tooLong n) bs
  else if bs.length < n then if atEnd then .failed .bodyCutShort [] else .waiting
  else match Json.ofBytes? (bs.take n) with
    | some v => .frame v (bs.drop n)
    | none => .failed .notJson (bs.drop n)

def read (atEnd : Bool) (bs : Bytes) : Reading :=
  match readHeaders atEnd false none bs with
  | .waiting => .waiting
  | .ended => .ended
  | .failed fault rest => .failed fault rest
  | .complete none rest => .failed .noLength rest
  | .complete (some n) rest => readBody atEnd n rest

/-- One frame: its length, a blank line, and the value without white space. -/
def write (v : Json) : Bytes :=
  let body := Utf8.encode v.text
  utf8 s!"{lengthName}: {body.length}\r\n\r\n" ++ body

def writeAll (vs : List Json) : Bytes :=
  vs.flatMap write

/-- The outcomes of reading on and on, past faults too, up to the end of a complete input. -/
def readAll : Nat → Bytes → List (Except Fault (Option Json))
  | 0, _ => []
  | limit + 1, bs =>
    match read true bs with
    | .waiting | .ended => [.ok none]
    | .frame v rest => .ok (some v) :: readAll limit rest
    | .failed fault rest => .error fault :: readAll limit rest

end LanguageClient.Frame
