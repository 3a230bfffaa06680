import LanguageClient.Table

namespace LanguageClient

/-- A JSON value. Whole numbers are kept exactly; `float` holds the bits of a double. The fields
of an object are sorted by key, and no key occurs twice. -/
inductive Json where
  | null
  | bool (b : Bool)
  | int (n : Int)
  | float (bits : UInt64)
  | str (s : String)
  | arr (items : List Json)
  | obj (fields : List (String × Json))
  deriving Inhabited

namespace Json

/-- An object from fields in any order; of a repeated key the last value stays. -/
def ofFields (fields : List (String × Json)) : Json :=
  .obj (Table.ofEntries fields)

def field? (key : String) (fields : List (String × Json)) : Option Json :=
  Table.get? key fields

/-- The value of an object's field; `none` for any other value. -/
def get? (v : Json) (key : String) : Option Json :=
  match v with
  | .obj fields => field? key fields
  | _ => none

def isNull : Json → Bool
  | .null => true
  | _ => false

def str? : Json → Option String
  | .str s => some s
  | _ => none

def arr? : Json → Option (List Json)
  | .arr items => some items
  | _ => none

def int? : Json → Option Int
  | .int n => some n
  | _ => none

def word? (v : Json) : Option UInt64 := do
  let n ← v.int?
  if 0 ≤ n ∧ n < UInt64.size then some (UInt64.ofNat n.toNat) else none

def nat (n : Nat) : Json :=
  .int n

/-- `null` in place of a missing value. -/
def optional : Option Json → Json
  | some v => v
  | none => .null

def strings (xs : List String) : Json :=
  .arr (xs.map .str)

end Json
end LanguageClient
