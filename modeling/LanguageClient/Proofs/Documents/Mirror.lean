import LanguageClient.Proofs.Documents.Mentions
import LanguageClient.Proofs.FileUri.Encoding

namespace LanguageClient

namespace OpenDocuments

variable (ds : OpenDocuments) (p q : Path) (d : OpenDocument)

theorem find?_filter_ne {α : Type} (entries : List (List Path.Step × α)) (h : q.steps ≠ p.steps) :
    (entries.filter (·.1 != p.steps)).find? (·.1 == q.steps) =
      entries.find? (·.1 == q.steps) := by
  rw [List.find?_filter]
  congr 1
  funext e
  by_cases he : e.1 = q.steps
  · simp [he, h]
  · simp [he]

theorem get?_set :
    (ds.set p d).get? q = if q.steps = p.steps then some d else ds.get? q := by
  unfold get? set
  by_cases h : q.steps = p.steps
  · simp [h]
  · have hne : (p.steps == q.steps) = false := by simpa using Ne.symm h
    rw [List.find?_cons, hne, find?_filter_ne p q _ h, if_neg h]

theorem get?_erase :
    (ds.erase p).get? q = if q.steps = p.steps then none else ds.get? q := by
  unfold get? erase
  by_cases h : q.steps = p.steps
  · simp [h]
  · rw [find?_filter_ne p q _ h, if_neg h]

/-- The table knows of the same documents as the other side, each by its path. -/
structure Mirrors (ds : OpenDocuments) (r : Replica) : Prop where
  known : ∀ {p : Path} {d : OpenDocument}, ds.get? p = some d →
    FileUri.ofPath? p = some d.uri ∧
      ∃ n text, r d.uri = some (n, text) ∧ d.version = Int32.ofNat n ∧ d.lines = lineLengths text
  unknown : ∀ {p : Path} {uri : String}, FileUri.ofPath? p = some uri → ds.get? p = none →
    r uri = none

variable {ds p d} {r : Replica} {uri text : String}

theorem Mirrors.empty : Mirrors {} fun _ => none := by
  constructor
  case known =>
    intro p d h
    cases h
  case unknown =>
    intro p uri _ _
    rfl

/-- A document gets its first text, or its next one. -/
theorem Mirrors.set (h : ds.Mirrors r) (hp : FileUri.ofPath? p = some uri) (n : Nat)
    (text : String) :
    (ds.set p ⟨uri, Int32.ofNat n, lineLengths text⟩).Mirrors
      (Function.update r uri (some (n, text))) := by
  constructor
  case known =>
    intro q d hd
    rw [get?_set] at hd
    split at hd
    · rename_i hq
      cases hd
      refine ⟨(FileUri.ofPath?_congr hq).trans hp, n, text, ?_, rfl, rfl⟩
      exact Function.update_self ..
    · rename_i hq
      obtain ⟨hquri, hknown⟩ := h.known hd
      -- another path has another URI
      have hne : d.uri ≠ uri := fun heq => hq (FileUri.steps_eq_of_ofPath? (heq ▸ hquri) hp)
      rw [Function.update_of_ne hne]
      exact ⟨hquri, hknown⟩
  case unknown =>
    intro q quri hquri hd
    rw [get?_set] at hd
    split at hd
    · cases hd
    · rename_i hq
      have hne : quri ≠ uri := fun heq => hq (FileUri.steps_eq_of_ofPath? (heq ▸ hquri) hp)
      rw [Function.update_of_ne hne]
      exact h.unknown hquri hd

theorem Mirrors.erase (h : ds.Mirrors r) (hp : FileUri.ofPath? p = some uri) :
    (ds.erase p).Mirrors (Function.update r uri none) := by
  constructor
  case known =>
    intro q d hd
    rw [get?_erase] at hd
    split at hd
    · cases hd
    · rename_i hq
      obtain ⟨hquri, hknown⟩ := h.known hd
      have hne : d.uri ≠ uri := fun heq => hq (FileUri.steps_eq_of_ofPath? (heq ▸ hquri) hp)
      rw [Function.update_of_ne hne]
      exact ⟨hquri, hknown⟩
  case unknown =>
    intro q quri hquri hd
    rw [get?_erase] at hd
    by_cases heq : quri = uri
    · rw [heq]
      exact Function.update_self ..
    · rw [Function.update_of_ne heq]
      split at hd
      · rename_i hq
        rw [FileUri.ofPath?_congr hq, hp] at hquri
        cases hquri
        exact absurd rfl heq
      · exact h.unknown hquri hd

end OpenDocuments

def Notice.message (n : Notice) : Outgoing :=
  .frame (Message.notification n.method (some n.params))

namespace OpenDocuments

/-- The notice makes sense to the other side, and tells it what has become of the table. -/
def Tells (ds : OpenDocuments) (n : Notice) (ds' : OpenDocuments) : Prop :=
  ∀ r, ds.Mirrors r →
    ∃ m, n.message.mention? = some m ∧ m.Proper r ∧ ds'.Mirrors (r.learn m)

variable {ds ds' : OpenDocuments} {p : Path} {n : Notice} {uri text : String}

theorem change?_eq_some (h : ds.change? p text = some (n, ds')) :
    ∃ d, ds.get? p = some d ∧
      n = ⟨"textDocument/didChange", Params.changed d.uri (d.version + 1) text⟩ ∧
      ds' = ds.set p ⟨d.uri, d.version + 1, lineLengths text⟩ := by
  unfold change? at h
  cases hd : ds.get? p with
  | none => simp [hd] at h
  | some d =>
    simp only [hd, Option.pure_def, Option.bind_eq_bind, Option.bind_some, Option.some.injEq,
      Prod.mk.injEq] at h
    exact ⟨d, rfl, h.1.symm, h.2.symm⟩

theorem change?_tells (h : ds.change? p text = some (n, ds')) : ds.Tells n ds' := by
  intro r hr
  obtain ⟨d, hd, rfl, rfl⟩ := change?_eq_some h
  obtain ⟨huri, k, old, hk, hversion, -⟩ := hr.known hd
  have hnext : d.version + 1 = Int32.ofNat (k + 1) := by
    rw [hversion, Int32.ofNat_add]
    rfl
  refine ⟨_, Outgoing.mention?_changed d.uri text (d.version + 1), ⟨k, old, hk, ?_⟩, ?_⟩
  · rw [hnext]
  · have hset := hr.set huri (k + 1) text
    rw [← hnext] at hset
    simpa [Replica.learn, hk] using hset

theorem open_of_get?_eq_none (h : ds.get? p = none) (uri languageId text : String) :
    ds.open p uri languageId text =
      (⟨"textDocument/didOpen", Params.opened uri languageId 1 text⟩,
        ds.set p ⟨uri, 1, lineLengths text⟩) := by
  simp [OpenDocuments.open, change?, h]

theorem open_tells (hp : FileUri.ofPath? p = some uri) (languageId : String)
    (h : ds.open p uri languageId text = (n, ds')) : ds.Tells n ds' := by
  cases hd : ds.get? p with
  | some d =>
    have hchange : ds.change? p text = some (n, ds') := by
      simpa [OpenDocuments.open, change?, hd] using h
    exact change?_tells hchange
  | none =>
    rw [open_of_get?_eq_none hd] at h
    obtain ⟨rfl, rfl⟩ := Prod.mk.inj h
    intro r hr
    refine ⟨_, Outgoing.mention?_opened uri languageId text 1, ⟨hr.unknown hp hd, rfl⟩, ?_⟩
    exact hr.set hp 1 text

theorem close?_tells (h : ds.close? p = some (n, ds')) : ds.Tells n ds' := by
  intro r hr
  unfold close? at h
  cases hd : ds.get? p with
  | none => simp [hd] at h
  | some d =>
    simp only [hd, Option.pure_def, Option.bind_eq_bind, Option.bind_some, Option.some.injEq,
      Prod.mk.injEq] at h
    obtain ⟨rfl, rfl⟩ := h
    obtain ⟨huri, k, old, hk, -⟩ := hr.known hd
    exact ⟨_, Outgoing.mention?_closed d.uri, ⟨_, hk⟩, hr.erase huri⟩

end OpenDocuments
end LanguageClient
