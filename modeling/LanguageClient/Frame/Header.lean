import LanguageClient.Text.Ascii
import LanguageClient.Text.Blank
import LanguageClient.Text.Utf8

namespace LanguageClient.Frame

/-- The longest body that is accepted, in bytes. -/
def maxBody : Nat := 4 * 1024 * 1024

inductive Fault where
  | notText (fault : Utf8.Fault)
  | bodyCutShort
  | headerCutShort
  | noLength
  | badLength (value : String)
  | tooLong (length : Nat)
  | notJson
  deriving DecidableEq, Repr

/-- What the reader of JSON says against a text. Its words for the many mistakes a text can have are
not part of the model, which has three dots in their place. -/
def jsonComplaint : String := "..."

def Fault.message : Fault → String
  | .notText fault => s!"i/o error on frame stream: {fault.message}"
  | .bodyCutShort => "i/o error on frame stream: early eof"
  | .headerCutShort => "stream ended inside a frame header"
  | .noLength => "missing Content-Length header"
  | .badLength value => s!"invalid Content-Length value `{value}`"
  | .tooLong length => s!"Content-Length {length} exceeds maximum {maxBody}"
  | .notJson => s!"frame body is not valid JSON: {jsonComplaint}"

def lengthName : String := "Content-Length"

inductive Line where
  | blank
  | length (n : Nat)
  | other
  deriving DecidableEq, Repr

/-- A line is a name, a colon and a value, with white space allowed around both. Only the length
counts; its value fits 64 bits. -/
def Line.ofText (line : List Char) : Except Fault Line :=
  let line := Text.trim line
  if line.isEmpty then .ok .blank
  else match line.dropWhile (· != ':') with
    | [] => .ok .other
    | _ :: value =>
      let name := Text.trim (line.takeWhile (· != ':'))
      if name.map Text.lowerChar != lengthName.toList.map Text.lowerChar then .ok .other
      else
        let value := Text.trim value
        match Text.natBelow? UInt64.size value with
        | some n => .ok (.length n)
        | none => .error (.badLength (String.ofList value))

def Line.ofBytes (line : Bytes) : Except Fault Line :=
  match Utf8.decode line with
  | .ok text => Line.ofText text
  | .error fault => .error (.notText fault)

def lineFeed : UInt8 := 10

/-- The first line together with its line feed, if it has one. -/
def firstLine (bs : Bytes) : Bytes :=
  bs.takeWhile (· != lineFeed) ++ (bs.dropWhile (· != lineFeed)).take 1

def afterLine (bs : Bytes) : Bytes :=
  (bs.dropWhile (· != lineFeed)).drop 1

theorem length_dropWhile_le (p : UInt8 → Bool) (bs : Bytes) :
    (bs.dropWhile p).length ≤ bs.length := by
  induction bs with
  | nil => simp
  | cons b rest ih =>
    by_cases h : p b
    · simp only [List.dropWhile_cons_of_pos h, List.length_cons]; omega
    · simp [List.dropWhile_cons_of_neg h]

theorem length_afterLine_lt {bs : Bytes} (h : bs ≠ []) : (afterLine bs).length < bs.length := by
  have hle := length_dropWhile_le (· != lineFeed) bs
  have hpos := List.length_pos_iff.mpr h
  have hdef : (afterLine bs).length = (bs.dropWhile (· != lineFeed)).length - 1 := by
    simp [afterLine]
  have hle' : (bs.dropWhile (· != lineFeed)).length ≤ bs.length := hle
  have hpos' : 0 < bs.length := hpos
  omega

/-- What reading the header lines comes to. -/
inductive Headers where
  | waiting
  | ended
  | failed (fault : Fault) (rest : Bytes)
  | complete (length : Option Nat) (rest : Bytes)

/-- Reads lines up to the blank one; of several lengths the last counts. Unless the input is at
its end, a line without a line feed may still grow. -/
def readHeaders (atEnd started : Bool) (length : Option Nat) (bs : Bytes) : Headers :=
  if _h : bs = [] then
    if !atEnd then .waiting
    else if started then .failed .headerCutShort []
    else .ended
  else if !atEnd && !bs.contains lineFeed then .waiting
  else match Line.ofBytes (firstLine bs) with
    | .error fault => .failed fault (afterLine bs)
    | .ok .blank => .complete length (afterLine bs)
    | .ok (.length n) => readHeaders atEnd true (some n) (afterLine bs)
    | .ok .other => readHeaders atEnd true length (afterLine bs)
termination_by bs.length
decreasing_by all_goals exact length_afterLine_lt _h

end LanguageClient.Frame
