import LanguageClient.Message
import LanguageClient.Proofs.Table

namespace LanguageClient

namespace Json

@[simp] theorem get?_ofFields (k : String) (fields : List (String × Json)) :
    (ofFields fields).get? k = Table.get? k (Table.ofEntries fields) := rfl

@[simp] theorem isNull_int (n : Int) : (int n).isNull = false := rfl

@[simp] theorem str?_str (s : String) : (str s).str? = some s := rfl

@[simp] theorem int?_int (n : Int) : (int n).int? = some n := rfl

@[simp] theorem int?_nat (n : Nat) : (nat n).int? = some (n : Int) := rfl

theorem word?_nat (id : UInt64) : (nat id.toNat).word? = some id := by
  have h : 0 ≤ (id.toNat : Int) ∧ (id.toNat : Int) < (UInt64.size : Int) :=
    ⟨Int.natCast_nonneg _, Int.ofNat_lt.mpr id.toNat_lt_size⟩
  unfold word?
  rw [int?_nat, Option.bind_eq_bind, Option.bind_some, if_pos h, Int.toNat_natCast,
    UInt64.ofNat_toNat]

end Json

namespace Incoming

/-- What a request or notification is about; an answer does not say. -/
def method? : Incoming → Option String
  | answer _ _ => none
  | request _ method _ | notification method _ => some method

theorem ofJson?_notification (method : String) (params : Option Json) :
    ofJson? (Message.notification method params) = some (.notification method params) := by
  cases params <;>
    simp [Message.notification, Message.withParams, Json.ofFields, ofJson?, Json.field?,
      Table.ofEntries]

theorem ofJson?_request (id : UInt64) (method : String) (params : Option Json) :
    ofJson? (Message.request id method params) =
      some (.request (.nat id.toNat) method params) := by
  cases params <;>
    simp [Message.request, Message.withParams, Json.ofFields, ofJson?, Json.field?,
      Table.ofEntries, Json.nat, Option.filter]

theorem method?_ofJson?_obj {fields : List (String × Json)}
    (h : Json.field? "method" fields = none) :
    (ofJson? (.obj fields)).bind method? = none := by
  simp only [ofJson?, h, Option.bind_none]
  cases Option.filter (fun x => !x.isNull) (Json.field? "id" fields) with
  | none => rfl
  | some id => cases hw : id.word? <;> simp [hw, method?]

theorem method?_ofJson?_answer (id result : Json) :
    (ofJson? (Message.answer id result)).bind method? = none :=
  method?_ofJson?_obj (by simp [Json.field?, Table.ofEntries])

theorem method?_ofJson?_refusal (id : Json) (r : Refusal) :
    (ofJson? (Message.refusal id r)).bind method? = none :=
  method?_ofJson?_obj (by simp [Json.field?, Table.ofEntries])

/-- What names no method is an answer, if it is anything. -/
theorem answer_of_method? {i? : Option Incoming} (h : i?.bind method? = none) :
    i? = none ∨ ∃ id outcome, i? = some (.answer id outcome) := by
  cases i? with
  | none => exact .inl rfl
  | some i =>
    cases i with
    | answer id outcome => exact .inr ⟨id, outcome, rfl⟩
    | request | notification => cases h

end Incoming
end LanguageClient
