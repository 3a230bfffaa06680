import LanguageClient.Json.Basic
import LanguageClient.Json.Decode

namespace LanguageClient

/-- An error that the other side reports for a request. -/
structure Refusal where
  code : Int
  message : String
  deriving DecidableEq, Repr

abbrev Outcome := Except Refusal Json

namespace Message

def withParams (params : Option Json) (fields : List (String × Json)) : Json :=
  .ofFields (("jsonrpc", .str "2.0") :: fields ++ (params.map (("params", ·))).toList)

def request (id : UInt64) (method : String) (params : Option Json) : Json :=
  withParams params [("id", .nat id.toNat), ("method", .str method)]

def notification (method : String) (params : Option Json) : Json :=
  withParams params [("method", .str method)]

def answer (id result : Json) : Json :=
  withParams none [("id", id), ("result", result)]

def refusal (id : Json) (r : Refusal) : Json :=
  withParams none
    [("id", id), ("error", .ofFields [("code", .int r.code), ("message", .str r.message)])]

end Message

/-- A message of the other side, told apart by its fields. -/
inductive Incoming where
  | answer (id : UInt64) (outcome : Outcome)
  | request (id : Json) (method : String) (params : Option Json)
  | notification (method : String) (params : Option Json)

namespace Incoming

/-- The code is 0 and the message a stock one where the error does not say. -/
def refusalOf (v : Json) : Refusal where
  code := ((v.get? "code").bind Json.int64?).getD 0
  message := ((v.get? "message").bind Json.str?).getD "unknown error"

def outcomeOf (fields : List (String × Json)) : Outcome :=
  match Json.field? "error" fields with
  | some e => if e.isNull then .ok ((Json.field? "result" fields).getD .null) else .error (refusalOf e)
  | none => .ok ((Json.field? "result" fields).getD .null)

/-- A `null` id is none, and a method that is not text is none. An answer bears an id that this
side could have given. -/
def ofJson? : Json → Option Incoming
  | .obj fields =>
    let id := (Json.field? "id" fields).filter (!·.isNull)
    let method := (Json.field? "method" fields).bind Json.str?
    let params := Json.field? "params" fields
    match id, method with
    | some id, some method => some (.request id method params)
    | none, some method => some (.notification method params)
    | some id, none => id.word?.map fun n => .answer n (outcomeOf fields)
    | none, none => none
  | _ => none

end Incoming
end LanguageClient
