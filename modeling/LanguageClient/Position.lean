import LanguageClient.Json.Decode

namespace LanguageClient

/-- A place in a text: line and offset in UTF-16 units, both from zero. -/
structure Position where
  line : UInt32
  character : UInt32
  deriving DecidableEq, Repr, Inhabited

namespace Position

/-- Earlier in the text: by line, then by character. -/
def Before (a b : Position) : Prop :=
  a.line < b.line ∨ a.line = b.line ∧ a.character < b.character

instance : LT Position := ⟨Before⟩

instance (a b : Position) : Decidable (a < b) :=
  inferInstanceAs (Decidable (_ ∨ _))

def order (a b : Position) : Ordering :=
  if a < b then .lt else if b < a then .gt else .eq

def json (p : Position) : Json :=
  .ofFields [("line", .nat p.line.toNat), ("character", .nat p.character.toNat)]

def ofJson? : Json → Option Position :=
  Json.record? 2 fun s => do
    return ⟨← s.required 0 "line" Json.uint32?, ← s.required 1 "character" Json.uint32?⟩

end Position

/-- A stretch of text; `stop` is the first place behind it. -/
structure Range where
  start : Position
  stop : Position
  deriving DecidableEq, Repr, Inhabited

namespace Range

/-- Each starts before the other stops. Ranges that only touch do not overlap. -/
def overlaps (a b : Range) : Bool :=
  a.start < b.stop && b.start < a.stop

def json (r : Range) : Json :=
  .ofFields [("start", r.start.json), ("end", r.stop.json)]

def ofJson? : Json → Option Range :=
  Json.record? 2 fun s => do
    return ⟨← s.required 0 "start" Position.ofJson?, ← s.required 1 "end" Position.ofJson?⟩

end Range
end LanguageClient
