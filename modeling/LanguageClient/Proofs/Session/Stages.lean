import LanguageClient.Proofs.Session.Steps

namespace LanguageClient.Session

section Stages

variable {R : Connection → Connection → Prop} {s s' : Session} {m : Moment} {i j c d : Nat}
  {call : Call} {r : Bool} {uri : String}

theorem exists_work {stage : Stage} (hi : s.stage? i = some stage) : ∃ w, s.work? i = some w := by
  obtain ⟨t, ht, -⟩ := Option.map_eq_some_iff.mp hi
  exact ⟨t.work, Option.map_eq_some_iff.mpr ⟨t, ht, rfl⟩⟩

theorem exists_stage {w : Work} (hwork : s.work? i = some w) : ∃ stage, s.stage? i = some stage := by
  obtain ⟨t, ht, -⟩ := Option.map_eq_some_iff.mp hwork
  exact ⟨t.stage, Option.map_eq_some_iff.mpr ⟨t, ht, rfl⟩⟩

theorem task_of_stage {stage : Stage} {w : Work} (hi : s.stage? i = some stage)
    (hwork : s.work? i = some w) : s.tasks[i]? = some ⟨w, stage⟩ := by
  obtain ⟨t, ht, rfl⟩ := Option.map_eq_some_iff.mp hi
  obtain ⟨t', ht', rfl⟩ := Option.map_eq_some_iff.mp hwork
  obtain rfl := Option.some.inj (ht.symm.trans ht')
  exact ht

theorem stage?_setStage_other (s : Session) (hj : j ≠ i) (stage : Stage) :
    (s.setStage i stage).stage? j = s.stage? j := by
  rw [stage?_setStage, if_neg hj]

theorem Handshake.stage?_other (hs : Handshake i c call s s') (hj : j ≠ i) :
    s'.stage? j = s.stage? j := by
  cases hs with
  | waits => exact stage?_setStage_other s hj _
  | fails polled => exact (stage?_setStage_other _ hj _).trans (polled.stage?_other hj)
  | succeeds polled _ serves => exact (serves.stage?_other hj).trans (polled.stage?_other hj)

theorem Reaping.stage?_other (hs : Reaping R i r c s s') (hj : j ≠ i) :
    s'.stage? j = s.stage? j := by
  cases hs <;> exact stage?_setStage_other _ hj _

theorem Stopping.stage?_other (hs : Stopping i r c s s') (hj : j ≠ i) :
    s'.stage? j = s.stage? j := by
  cases hs with
  | waits polled => exact (stage?_setStage_other _ hj _).trans (polled.stage?_other hj)
  | closes polled _ reaping => exact (reaping.stage?_other hj).trans (polled.stage?_other hj)

theorem Outcome.stage?_other (hs : Outcome m i s s') (hj : j ≠ i) :
    s'.stage? j = s.stage? j := by
  cases hs with
  | idle => rfl
  | goesOn _ _ _ serves => exact serves.stage?_other hj
  | served _ _ _ serves => exact serves.stage?_other hj
  | unlaunched | stopsNothing => exact stage?_setStage_other _ hj _
  | launches _ _ _ _ handshake => exact handshake.stage?_other hj
  | greets _ handshake => exact handshake.stage?_other hj
  | stops _ _ _ stopping => exact stopping.stage?_other hj
  | goesOnStopping _ _ stopping => exact stopping.stage?_other hj
  | goesOnReaping _ _ reaping => exact reaping.stage?_other hj

end Stages

/-- The work of operations and the time limits. -/
structure Bound (s s' : Session) : Prop where
  work : ∀ j w, s.work? j = some w → s'.work? j = some w
  timeouts : s'.timeouts = s.timeouts

section Bound

variable {R : Connection → Connection → Prop} {s s' s'' : Session} {m : Moment} {i c : Nat}
  {call : Call} {r : Bool}

theorem Bound.trans (h : s.Bound s') (h' : s'.Bound s'') : s.Bound s'' :=
  ⟨fun j w hj => h'.work j w (h.work j w hj), h'.timeouts.trans h.timeouts⟩

theorem bound_of_tasks (htasks : s'.tasks = s.tasks) (htimeouts : s'.timeouts = s.timeouts) :
    s.Bound s' :=
  ⟨fun j _ hj => (work?_of_tasks htasks j).trans hj, htimeouts⟩

theorem bound_setStage (s : Session) (i : Nat) (stage : Stage) : s.Bound (s.setStage i stage) :=
  ⟨fun j _ hj => (work?_setStage s i j stage).trans hj, rfl⟩

theorem Works.bound (h : Works i c s s') : s.Bound s' :=
  ⟨fun j _ hj => (h.work? j).trans hj, by rw [h.rest]⟩

theorem Handshake.bound (h : Handshake i c call s s') : s.Bound s' := by
  cases h with
  | waits => exact bound_setStage s i _
  | @fails f s₁ polled =>
    have hfails : s₁.Bound (s₁.failStart i c f) :=
      ⟨fun j _ hj => (work?_setStage _ i j _).trans hj, rfl⟩
    exact polled.bound.trans hfails
  | @succeeds result s₁ _ polled _ serves =>
    have hestablished : s₁.Bound ((s₁.established c result).leaveGate i) := bound_of_tasks rfl rfl
    exact polled.bound.trans (hestablished.trans serves.bound)

theorem Reaping.bound (h : Reaping R i r c s s') : s.Bound s' := by
  cases h <;> exact ⟨fun j _ hj => (work?_setStage _ i j _).trans hj, rfl⟩

theorem Stopping.bound (h : Stopping i r c s s') : s.Bound s' := by
  cases h with
  | waits polled => exact polled.bound.trans (bound_setStage _ i _)
  | closes polled _ reaping => exact polled.bound.trans reaping.bound

theorem Outcome.bound (h : Outcome m i s s') : s.Bound s' := by
  cases h with
  | idle => exact bound_of_tasks rfl rfl
  | goesOn _ _ _ serves => exact serves.bound
  | served _ _ _ serves =>
    have hleaves : s.Bound (s.leaveGate i) := bound_of_tasks rfl rfl
    exact hleaves.trans serves.bound
  | unlaunched | stopsNothing => exact ⟨fun j _ hj => (work?_setStage _ i j _).trans hj, rfl⟩
  | @launches hasProcess _ _ _ _ _ handshake =>
    have hlaunched : s.Bound (s.launched hasProcess) := bound_of_tasks rfl rfl
    exact hlaunched.trans handshake.bound
  | greets _ handshake => exact handshake.bound
  | stops _ _ _ stopping =>
    have hstopping : s.Bound { s with lifecycle := .shuttingDown } := bound_of_tasks rfl rfl
    exact hstopping.trans stopping.bound
  | goesOnStopping _ _ stopping => exact stopping.bound
  | goesOnReaping _ _ reaping => exact reaping.bound

theorem bound_added (s : Session) (w : Work) : s.Bound (s.added w) := by
  refine ⟨fun j w' hj => ?_, rfl⟩
  rw [work?_added, if_neg, hj]
  rintro rfl
  simp [work?] at hj

theorem Begins.bound {w : Work} (h : Begins m w s s') : s.Bound s' := by
  have hadded := s.bound_added w
  have hjoined (lifecycle : Lifecycle) : s.Bound (s.joined w lifecycle) :=
    ⟨hadded.work, rfl⟩
  cases h with
  | refused => exact hadded.trans (bound_setStage _ _ _)
  | served _ _ serves => exact hadded.trans serves.bound
  | queues => exact hjoined _
  | turns _ _ outcome => exact (hjoined _).trans outcome.bound

theorem Step.bound {e : Event} (h : Step s e s') : s.Bound s' := by
  have htidy (t : Session) : t.Bound t.tidy := bound_of_tasks rfl rfl
  cases h with
  | nothing | settles | tells | reads | writes | receives | endsInput | tidies =>
    exact bound_of_tasks rfl rfl
  | begins begins => exact begins.bound.trans (htidy _)
  | resumes outcome => exact outcome.bound.trans (htidy _)
  | cancels => exact ⟨fun j _ hj => (work?_setStage _ _ j _).trans hj, rfl⟩

/-- An operation stays where it waits until it goes on or is dropped. -/
theorem Step.stage?_other {e : Event} (h : Step s e s') {j : Nat} {stage : Stage}
    (hj : s.stage? j = some stage) (hresume : ∀ m, e ≠ .resume m j) (hcancel : e ≠ .cancel j) :
    s'.stage? j = some stage := by
  have hlast : j ≠ s.tasks.length := by
    rintro rfl
    simp [stage?] at hj
  have hadded {w : Work} : (s.added w).stage? j = some stage := by
    rw [stage?_added, if_neg hlast, hj]
  cases h with
  | nothing | settles | tells | reads | writes | receives | endsInput | tidies => exact hj
  | begins begins =>
    cases begins with
    | refused => exact (stage?_setStage_other _ hlast _).trans hadded
    | served _ _ serves => exact (serves.stage?_other hlast).trans hadded
    | queues => exact hadded
    | turns _ _ outcome => exact (outcome.stage?_other hlast).trans hadded
  | @resumes m i _ outcome =>
    have hne : j ≠ i := fun heq => hresume m (heq ▸ rfl)
    exact (outcome.stage?_other hne).trans hj
  | @cancels i _ ks =>
    have hne : j ≠ i := fun heq => hcancel (heq ▸ rfl)
    exact (stage?_setStage_other { s with connections := ks } hne _).trans hj

end Bound

end LanguageClient.Session
