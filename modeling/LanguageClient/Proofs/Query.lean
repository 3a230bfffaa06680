import LanguageClient.Query
import Mathlib.Tactic.Common

namespace LanguageClient

/-- The server has named this provider among its capabilities, as something else than `null` and
`false`. -/
def Abilities.Names (result : Json) (key : String) : Prop :=
  ∃ capabilities provider, result.get? "capabilities" = some capabilities ∧
    capabilities.get? key = some provider ∧ provider ≠ .null ∧ provider ≠ .bool false

theorem Abilities.provided_iff (result : Json) (key : String) :
    provided result key = true ↔ Names result key := by
  unfold provided Names
  cases hcapabilities : result.get? "capabilities" with
  | none => simp
  | some capabilities =>
    rw [Option.bind_some]
    cases hprovider : capabilities.get? key with
    | none => simp [hprovider]
    | some provider =>
      cases provider with
      | bool b => cases b <;> simp [hprovider]
      | _ => simp [hprovider]

namespace Query

variable {language : String} {q : Query}

/-- The provider that a server names if it can answer the query. -/
def provider : Query → String
  | symbols => "documentSymbolProvider"
  | hover _ => "hoverProvider"
  | definition _ => "definitionProvider"
  | references _ _ => "referencesProvider"
  | rename _ _ => "renameProvider"
  | completion _ => "completionProvider"

theorem isProvided_ofHandshake (q : Query) (result : Json) :
    q.isProvided (Abilities.ofHandshake result) = true ↔ Abilities.Names result q.provider := by
  rw [← Abilities.provided_iff]
  cases q <;> rfl

theorem read_null (language : String) (q : Query) : q.read language .null = .ok q.empty := by
  cases q with
  | symbols => simp [read, empty, Symbol.ofAnswer, Symbol.children?, Symbol.sort]
  | _ => rfl

/-- Whatever a server answers, only a rename can be refused for it. -/
theorem read_eq_error {v : Json} {f : Failure} (h : q.read language v = .error f) :
    ∃ at_ newName found, q = .rename at_ newName ∧ f = .misnamed language newName found := by
  cases q with
  | rename at_ newName =>
    simp only [read] at h
    split at h
    · cases h
      exact ⟨at_, newName, _, rfl, rfl⟩
    · cases h
  | _ => cases h

theorem conclude_refused_of_empty {l method : String} {r : Refusal}
    (h : r.code ∈ [-32601, -32800, -32801]) :
    q.conclude language (.error (.refused l method r)) = .ok q.empty := by
  have hcode : isEmptyCode r.code = true := by
    simp only [List.mem_cons, List.not_mem_nil, or_false] at h
    obtain h | h | h := h <;> rw [h] <;> rfl
  simp only [conclude, hcode, if_true, read_null]

theorem conclude_refused_of_other {l method : String} {r : Refusal}
    (h : r.code ∉ [-32601, -32800, -32801]) :
    q.conclude language (.error (.refused l method r)) = .error (.refused l method r) := by
  have hcode : isEmptyCode r.code = false := by
    simp only [List.mem_cons, List.not_mem_nil, or_false, not_or] at h
    obtain ⟨hunknown, hcancelled, hmodified⟩ := h
    simp [isEmptyCode, hunknown, hcancelled, hmodified]
  simp [conclude, hcode]

theorem exists_read_of_conclude {reply : Except Failure Json} {a : Answer}
    (h : q.conclude language reply = .ok a) : ∃ v, q.read language v = .ok a := by
  unfold conclude at h
  split at h
  · exact ⟨_, h⟩
  · split at h
    · exact ⟨_, h⟩
    · cases h
  · cases h

end Query
end LanguageClient
