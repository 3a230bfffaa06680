import LanguageClient.Proofs.Link.Routing

namespace LanguageClient

/-- The code is one that can be read, of 64 bits. -/
def Refusal.Legible (r : Refusal) : Prop :=
  -0x8000000000000000 ≤ r.code ∧ r.code < 0x8000000000000000

namespace Incoming

theorem legible_refusalOf (v : Json) : (refusalOf v).Legible := by
  unfold Refusal.Legible refusalOf
  cases hcode : (v.get? "code").bind Json.int64? with
  | none => simp
  | some n =>
    obtain ⟨w, -, hw⟩ := Option.bind_eq_some_iff.mp hcode
    exact (Json.int64?_eq_some.mp hw).2

theorem ofJson?_answer (id : UInt64) (v : Json) :
    ofJson? (Message.answer (.nat id.toNat) v) = some (.answer id (.ok v)) := by
  have h : (Message.answer (.nat id.toNat) v).Bears (some (.answer id
      (.ok (((Message.answer (.nat id.toNat) v).get? "result").getD .null)))) :=
    .answered (by simp) (by simp) (.inl (by simp))
  rw [h.ofJson?, Link.get?_answer, if_pos rfl, Option.getD_some]

theorem refusalOf_of_legible {r : Refusal} (h : r.Legible) :
    refusalOf (.ofFields [("code", .int r.code), ("message", .str r.message)]) = r := by
  simp [refusalOf, Table.ofEntries, Json.int64?_eq_some.mpr ⟨rfl, h⟩]

theorem ofJson?_refusal (id : UInt64) {r : Refusal} (h : r.Legible) :
    ofJson? (Message.refusal (.nat id.toNat) r) = some (.answer id (.error r)) := by
  have hbears : (Message.refusal (.nat id.toNat) r).Bears (some (.answer id (.error
      (refusalOf (.ofFields [("code", .int r.code), ("message", .str r.message)]))))) :=
    .refused (by simp) (by simp) (by simp) nofun
  rw [hbears.ofJson?, refusalOf_of_legible h]

/-- The message that says this and nothing besides. There is none for a request whose id this side
could not give. -/
def rebuilt? : Incoming → Option Json
  | .request id method params => id.word?.map fun n => Message.request n method params
  | .notification method params => some (Message.notification method params)
  | .answer id (.ok v) => some (Message.answer (.nat id.toNat) v)
  | .answer id (.error r) => some (Message.refusal (.nat id.toNat) r)

theorem legible_of_ofJson? {v : Json} {id : UInt64} {r : Refusal}
    (h : ofJson? v = some (.answer id (.error r))) : r.Legible := by
  obtain ⟨i?, hbears⟩ := v.exists_bears
  rw [hbears.ofJson?] at h
  subst h
  cases hbears with
  | refused => exact legible_refusalOf _

theorem ofJson?_rebuilt {v w : Json} {i : Incoming} (h : ofJson? v = some i)
    (hw : i.rebuilt? = some w) : ofJson? w = some i := by
  cases i with
  | request id method params =>
    obtain ⟨n, hn, rfl⟩ := Option.map_eq_some_iff.mp hw
    rw [ofJson?_request, Json.word?_eq_some.mp hn]
  | notification method params =>
    cases hw
    exact ofJson?_notification method params
  | answer id outcome =>
    cases outcome with
    | ok result =>
      cases hw
      exact ofJson?_answer id result
    | error r =>
      cases hw
      exact ofJson?_refusal id (legible_of_ofJson? h)

/-- A message tells what it was built from, whether it has parameters, has `null` for parameters or
has none. What has been read as an answer or a notification can be built again, and then tells the
same. -/
theorem ofJson?_of_built :
    (∀ (id : UInt64) (method : String) (params : Option Json),
      ofJson? (Message.request id method params) =
        some (.request (.nat id.toNat) method params)) ∧
      (∀ (method : String) (params : Option Json),
        ofJson? (Message.notification method params) = some (.notification method params)) ∧
      (∀ (id : UInt64) (v : Json),
        ofJson? (Message.answer (.nat id.toNat) v) = some (.answer id (.ok v))) ∧
      (∀ (id : UInt64) (code : Int64) (message : String),
        ofJson? (Message.refusal (.nat id.toNat) ⟨code.toInt, message⟩) =
          some (.answer id (.error ⟨code.toInt, message⟩))) ∧
      ∀ (v : Json) (i : Incoming), ofJson? v = some i →
        (∀ id method params, i ≠ .request id method params) →
        ∃ w, i.rebuilt? = some w ∧ ofJson? w = some i := by
  refine ⟨ofJson?_request, ofJson?_notification, ofJson?_answer, ?_, ?_⟩
  · intro id code message
    exact ofJson?_refusal id ⟨code.le_toInt, code.toInt_lt⟩
  · intro v i hi hother
    have hrebuilt : ∃ w, i.rebuilt? = some w := by
      cases i with
      | request id method params => exact absurd rfl (hother id method params)
      | notification method params => exact ⟨_, rfl⟩
      | answer id outcome => cases outcome <;> exact ⟨_, rfl⟩
    obtain ⟨w, hw⟩ := hrebuilt
    exact ⟨w, hw, ofJson?_rebuilt hi hw⟩

/-- An error without a code and with a text that is none is read, built again and read again. -/
theorem ofJson?_of_built_vague :
    let v := Json.ofFields [("id", .nat 7), ("result", .nat 1),
      ("error", .ofFields [("message", .null), ("data", .arr [])])]
    let i := answer 7 (.error ⟨0, "unknown error"⟩)
    ofJson? v = some i ∧ (∀ id method params, i ≠ .request id method params) ∧
      ∃ w, i.rebuilt? = some w ∧ ofJson? w = some i := by
  intro v i
  have hread : ofJson? v = some i := rfl
  exact ⟨hread, nofun, ofJson?_of_built.2.2.2.2 v i hread nofun⟩

end Incoming
end LanguageClient
