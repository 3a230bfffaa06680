import LanguageClient.Proofs.Session.Steps

namespace LanguageClient.Session

/-- From one connection to the other, it has aged, and it is as much in use as before. -/
structure Connection.Ages (k k' : Connection) : Prop where
  link : k.link.Ages k'.link
  established : k'.established = k.established
  released : k'.released = k.released

namespace Connection

variable {k k' : Connection}

theorem Ages.refl (k : Connection) : k.Ages k :=
  ⟨.refl _, rfl, rfl⟩

theorem Used.ages (h : k.Used k') : k.Ages k' :=
  ⟨h.link.ages, h.established, h.released⟩

theorem Left.ages (h : k.Left k') : k.Ages k' :=
  ⟨h.link.ages, h.established, h.released⟩

theorem Shut.ages (h : k.Shut k') : k.Ages k' :=
  ⟨h.link ▸ k.link.ages_close, h.established, h.released⟩

theorem Kept.ages (h : k.Kept k') : k.Ages k' :=
  ⟨h.link ▸ .refl _, h.established, h.released⟩

theorem kept_reap (k : Connection) : k.Kept k.reap := by
  unfold reap
  split
  · exact ⟨rfl, rfl, rfl⟩
  · exact ⟨rfl, rfl, rfl⟩
  · split <;> exact ⟨rfl, rfl, rfl⟩

@[simp] theorem released_release (k : Connection) : k.release.released = true := by
  unfold release
  split
  · assumption
  · rfl

@[simp] theorem established_release (k : Connection) :
    k.release.established = k.established := by
  unfold release
  split <;> rfl

end Connection

/-- All connections have aged, and none has come. -/
def Aged (s s' : Session) : Prop :=
  ∀ j, Option.Rel Connection.Ages (s.connection? j) (s'.connection? j)

section Aging

variable {s s' : Session} {c : Nat}

theorem Aged.refl (s : Session) : s.Aged s := by
  intro j
  cases s.connection? j with
  | none => exact .none
  | some k => exact .some (.refl k)

theorem Aged.of_changed {R : Connection → Connection → Prop} (hR : ∀ {k k'}, R k k' → k.Ages k')
    (h : ChangedAt R c s.connections s'.connections) : s.Aged s' := by
  intro j
  by_cases hj : j = c
  · subst hj
    cases hk : s.connection? j with
    | none =>
      have hlong : s'.connections.length ≤ j := h.length ▸ List.getElem?_eq_none_iff.mp hk
      rw [show s'.connection? j = none from List.getElem?_eq_none hlong]
      exact .none
    | some k =>
      obtain ⟨k', hk', hages⟩ := h.this k hk
      rw [show s'.connection? j = some k' from hk']
      exact .some (hR hages)
  · rw [show s'.connection? j = s.connection? j from h.others j hj]
    cases s.connection? j with
    | none => exact .none
    | some k => exact .some (.refl k)

theorem Works.aged {i : Nat} (h : Works i c s s') : s.Aged s' :=
  .of_changed Connection.Used.ages h.connections

theorem aged_of_connections {R : Connection → Connection → Prop}
    (hR : ∀ {k k'}, R k k' → k.Ages k') {ks : List Connection}
    (hks : ChangedAt R c s.connections ks) : s.Aged { s with connections := ks } :=
  .of_changed hR hks

theorem aged_of_left {stage : Stage} {ks : List Connection}
    (left : ks = s.connections ∨
      ∃ c, stage.connection? = some c ∧ ChangedAt Connection.Left c s.connections ks) :
    s.Aged { s with connections := ks } := by
  obtain rfl | ⟨c, -, hleft⟩ := left
  · exact .refl s
  · exact aged_of_connections Connection.Left.ages hleft

theorem aged_setLink {k : Connection} (hk : s.connection? c = some k) {l : Link}
    (hl : k.link.Ages l) : s.Aged (s.setLink c l) := by
  have hchanged : ChangedAt Connection.Ages c s.connections (s.setLink c l).connections := by
    apply ChangedAt.modify
    intro k' hk'
    obtain rfl : k = k' := Option.some.inj (hk.symm.trans hk')
    exact ⟨hl, rfl, rfl⟩
  exact .of_changed (fun hages => hages) hchanged

theorem Aged.fore (h : s.Aged s') {j : Nat} {k : Connection} (hk : s.connection? j = some k) :
    ∃ k', s'.connection? j = some k' ∧ k.Ages k' := by
  have hrel := h j
  rw [hk] at hrel
  cases hk' : s'.connection? j with
  | none =>
    rw [hk'] at hrel
    cases hrel
  | some k' =>
    rw [hk'] at hrel
    cases hrel with
    | some hages => exact ⟨k', rfl, hages⟩

theorem Aged.back (h : s.Aged s') {j : Nat} {k' : Connection} (hk' : s'.connection? j = some k') :
    ∃ k, s.connection? j = some k ∧ k.Ages k' := by
  have hrel := h j
  rw [hk'] at hrel
  cases hk : s.connection? j with
  | none =>
    rw [hk] at hrel
    cases hrel
  | some k =>
    rw [hk] at hrel
    cases hrel with
    | some hages => exact ⟨k, rfl, hages⟩

end Aging

/-- A connection that somebody uses: it has answered the handshake, or is to. -/
def Holds (s : Session) (c : Nat) (established : Bool) : Prop :=
  ∃ k, s.connection? c = some k ∧ k.released = false ∧ k.established = established

theorem Holds.unique {s : Session} {c : Nat} {a b : Bool} (h : s.Holds c a) (h' : s.Holds c b) :
    a = b := by
  obtain ⟨k, hk, -, rfl⟩ := h
  obtain ⟨k', hk', -, rfl⟩ := h'
  obtain rfl : k = k' := Option.some.inj (hk.symm.trans hk')
  rfl

theorem Aged.holds {s s' : Session} (h : s.Aged s') {c : Nat} {established : Bool}
    (hc : s.Holds c established) : s'.Holds c established := by
  obtain ⟨k, hk, hreleased, hestablished⟩ := hc
  obtain ⟨k', hk', hages⟩ := h.fore hk
  exact ⟨k', hk', hages.released.trans hreleased, hages.established.trans hestablished⟩

theorem isHeld_iff (s : Session) (c : Nat) : s.isHeld c = true ↔
    s.lifecycle = .ready c ∨ ∃ i stage, s.stage? i = some stage ∧ stage.connection? = some c := by
  unfold isHeld
  rw [Bool.or_eq_true, List.any_eq_true]
  refine or_congr (by simp) ⟨?_, ?_⟩
  · rintro ⟨t, ht, hc⟩
    obtain ⟨i, hi⟩ := List.mem_iff_getElem?.mp ht
    exact ⟨i, t.stage, by simp [stage?, hi], by simpa using hc⟩
  · rintro ⟨i, stage, hstage, hc⟩
    obtain ⟨t, ht, rfl⟩ := Option.map_eq_some_iff.mp hstage
    exact ⟨t, List.mem_of_getElem? ht, by simpa using hc⟩

end LanguageClient.Session
