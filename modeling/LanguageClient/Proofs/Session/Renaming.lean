import LanguageClient.Proofs.Answer.Edits
import LanguageClient.Proofs.Session.Answering

namespace LanguageClient.Session

/-- What a rename comes to when the server has answered with `v`: to all edits of the answer, or to
a failure for the first one that puts in something else than the new name. -/
def Renames (language newName : String) (v : Json) (result : Option (Except Failure Answer)) :
    Prop :=
  ((∀ e ∈ (WorkspaceEdit.ofAnswer v).edits, e.2.newText = newName) ∧
    result = some (.ok (.edit (WorkspaceEdit.ofAnswer v)))) ∨
  ∃ front bad back, (WorkspaceEdit.ofAnswer v).edits = front ++ bad :: back ∧
    (∀ e ∈ front, e.2.newText = newName) ∧ bad.2.newText ≠ newName ∧
    result = some (.error (.misnamed language newName bad.2.newText))

/-- The renames of a session put in nothing but the new name. -/
structure SafeRenames (s : Session) : Prop where
  /-- Once the answer has been read, and whatever comes later, the rename comes to what the answer
  tells as soon as it goes on. -/
  answered : ∀ m {i c call path at_ newName v later},
    s.work? i = some (.query path (.rename at_ newName)) → s.stage? i = some (.asking c call) →
    s.Hears c call (.ok v) → (∀ e ∈ later, Event.Spares i e) →
    Renames s.language newName v ((s.run (.read c :: later ++ [.resume m i])).result? i)
  finished : ∀ {i path at_ newName a}, s.work? i = some (.query path (.rename at_ newName)) →
    s.result? i = some (.ok a) →
    ∃ edit, a = .edit edit ∧ ∀ e ∈ edit.edits, e.2.newText = newName

theorem renames_read (language : String) (at_ : Position) (newName : String) (v : Json) :
    Renames language newName v (some ((Query.rename at_ newName).read language v)) := by
  obtain ⟨hall, hread⟩ | ⟨front, bad, back, hedits, hfront, hbad, hread⟩ :=
    Query.read_rename language at_ newName v
  · exact .inl ⟨hall, by rw [hread]⟩
  · exact .inr ⟨front, bad, back, hedits, hfront, hbad, by rw [hread]⟩

theorem Sound.safeRenames {s : Session} (h : s.Sound) : SafeRenames s where
  answered m {i c call path at_ newName v later} hwork hi hears hlater := by
    rw [(h.answered hwork hi hears hlater m).2]
    exact renames_read s.language at_ newName v
  finished {i path at_ newName a} hwork ha := by
    obtain ⟨v, hv⟩ := h.fitting hwork (result?_eq_some.mp ha)
    obtain ⟨hall, hread⟩ | ⟨front, bad, back, -, -, -, hread⟩ :=
      Query.read_rename s.language at_ newName v
    · cases hv.symm.trans hread
      exact ⟨_, rfl, hall⟩
    · cases hv.symm.trans hread

/-- In every run of a session, renames put in nothing but the new name; and of an answer that is as
the protocol has it, no edit is lost and none is made up. -/
theorem renames_are_safe (language : String) (server : Setup.Server) (timeouts : Setup.Timeouts)
    (processId : Nat) (rootUri : String) (es : List Event) :
    SafeRenames ((new language server timeouts processId rootUri).run es) ∧
      ∀ table? documents? v, WorkspaceEdit.DescribedBy table? documents? v →
        WorkspaceEdit.Tells table? documents? (WorkspaceEdit.ofAnswer v).edits :=
  ⟨((Sound.new language server timeouts processId rootUri).run es).safeRenames,
    fun _ _ _ h => WorkspaceEdit.edits_of_described h⟩

end LanguageClient.Session
