import LanguageClient.Json.Basic

namespace LanguageClient.Json

/-- Where the fields of a record are read from: an object holds them by name, an array by
place. -/
inductive Source where
  | named (fields : List (String × Json))
  | listed (items : List Json)

def source? : Json → Option Source
  | .obj fields => some (.named fields)
  | .arr items => some (.listed items)
  | _ => none

/-- Whether all that is there is among the first `size` places. Names can always be passed over. -/
def Source.within (size : Nat) : Source → Bool
  | .named _ => true
  | .listed items => items.length ≤ size

def Source.value? (s : Source) (place : Nat) (key : String) : Option Json :=
  match s with
  | .named fields => field? key fields
  | .listed items => items[place]?

def Source.required (s : Source) (place : Nat) (key : String) (decode : Json → Option α) :
    Option α :=
  (s.value? place key).bind decode

def nullable (decode : Json → Option α) : Json → Option (Option α)
  | .null => some none
  | v => (decode v).map some

/-- A field that may be `null`, or missing from an object; from an array it is never missing. -/
def Source.optional (s : Source) (place : Nat) (key : String) (decode : Json → Option α) :
    Option (Option α) :=
  match s.value? place key, s with
  | some v, _ => nullable decode v
  | none, .named _ => some none
  | none, .listed _ => none

/-- A field with a value of its own when it is missing. -/
def Source.defaulted (s : Source) (place : Nat) (key : String) (default : α)
    (decode : Json → Option α) : Option α :=
  match s.value? place key with
  | some v => decode v
  | none => some default

/-- A record of `size` fields. An object may hold further fields, an array no further items. -/
def record? (size : Nat) (read : Source → Option α) (v : Json) : Option α :=
  ((source? v).filter (·.within size)).bind read

def list? (decode : Json → Option α) : Json → Option (List α)
  | .arr items => items.mapM decode
  | _ => none

def table? (decode : Json → Option α) : Json → Option (List (String × α))
  | .obj fields => fields.mapM fun (k, v) => (decode v).map (k, ·)
  | _ => none

def any? (v : Json) : Option Json :=
  some v

def uint32? (v : Json) : Option UInt32 := do
  let n ← v.int?
  if 0 ≤ n ∧ n < UInt32.size then some (UInt32.ofNat n.toNat) else none

def int32? (v : Json) : Option Int32 := do
  let n ← v.int?
  if -0x80000000 ≤ n ∧ n < 0x80000000 then some (Int32.ofInt n) else none

def int64? (v : Json) : Option Int := do
  let n ← v.int?
  if -0x8000000000000000 ≤ n ∧ n < 0x8000000000000000 then some n else none

end LanguageClient.Json
