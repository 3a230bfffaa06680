import LanguageClient.Proofs.Session.Gate

namespace LanguageClient.Session

/-- The session is on its way to another state. -/
def Lifecycle.isTransient : Lifecycle → Bool
  | starting | awaitingAnswer | shuttingDown => true
  | notStarted | ready _ | stopped | startFailed _ | crashed _ => false

/-- An operation at this stage is at work on what comes next. -/
def Stage.attends (stage : Stage) : Lifecycle → Bool
  | .awaitingAnswer => stage.isStarting
  | .shuttingDown => stage.isEnding
  | _ => false

theorem Stage.holdsGate_of_attends {stage : Stage} {lifecycle : Lifecycle}
    (h : stage.attends lifecycle = true) : stage.holdsGate = true := by
  unfold attends at h
  unfold holdsGate
  split at h
  · rw [h, Bool.true_or]
  · rw [h, Bool.or_true]
  · cases h

/-- The first in the queue is at work on what comes next. -/
def Attended (s : Session) : Prop :=
  ∃ i stage, s.gate.head? = some i ∧ s.stage? i = some stage ∧ stage.attends s.lifecycle = true

/-- From one session to the other, a transient state is attended, or it was there before and was not
attended then either. -/
def Tended (s s' : Session) : Prop :=
  s'.lifecycle.isTransient = true → s'.Attended ∨ s'.lifecycle = s.lifecycle ∧ ¬ s.Attended

namespace Tended

variable {s s' : Session} {m : Moment} {i c : Nat}

theorem of_settled (h : s'.lifecycle.isTransient = false) : s.Tended s' := by
  intro ht
  rw [h] at ht
  cases ht

theorem tidy (h : s.Tended s') : s.Tended s'.tidy :=
  h

theorem of_keeps (hlifecycle : s'.lifecycle = s.lifecycle)
    (h : ∀ j stage, s.gate.head? = some j → s.stage? j = some stage → stage.holdsGate = true →
      s'.gate.head? = some j ∧ s'.stage? j = some stage) : s.Tended s' := by
  intro _
  by_cases hs : s.Attended
  · obtain ⟨j, stage, hfirst, hstage, hattends⟩ := hs
    obtain ⟨hfirst', hstage'⟩ := h j stage hfirst hstage (Stage.holdsGate_of_attends hattends)
    exact .inl ⟨j, stage, hfirst', hstage', hlifecycle ▸ hattends⟩
  · exact .inr ⟨hlifecycle, hs⟩

theorem of_setStage {s₁ : Session} {stage stage' : Stage} {lifecycle : Lifecycle}
    (hfirst : s₁.gate.head? = some i) (hstage : s₁.stage? i = some stage)
    (hlifecycle : s₁.lifecycle = lifecycle) (h : stage'.attends lifecycle = true) :
    s.Tended (s₁.setStage i stage') := by
  refine fun _ => .inl ⟨i, stage', hfirst, ?_, hlifecycle ▸ h⟩
  rw [stage?_setStage, if_pos rfl, hstage]
  rfl

theorem works (hw : Works i c s s') (hi : i ∉ s.gate) : s.Tended s' := by
  refine of_keeps hw.lifecycle fun j stage hfirst hstage _ => ⟨hw.gate.symm ▸ hfirst, ?_⟩
  have hne : j ≠ i := fun hne => hi (hne ▸ List.mem_of_mem_head? hfirst)
  rw [hw.stage?_other hne]
  exact hstage

theorem settles {lifecycle : Lifecycle} (hs : Settles s lifecycle) : s.Tended { s with lifecycle } := by
  cases hs with
  | same => exact of_keeps rfl fun _ _ hfirst hstage _ => ⟨hfirst, hstage⟩
  | crashed => exact of_settled rfl

theorem handshake {call : Call} {s₀ : Session} (hs : Handshake i c call s s')
    (hfirst : s.gate.head? = some i) {stage : Stage} (hstage : s.stage? i = some stage)
    (hlifecycle : s.lifecycle = .awaitingAnswer) : s₀.Tended s' := by
  cases hs with
  | waits => exact of_setStage hfirst hstage hlifecycle rfl
  | fails => exact of_settled rfl
  | succeeds _ _ serves =>
    refine of_settled ?_
    rw [serves.lifecycle]
    rfl

theorem isTransient_ended (restartable : Bool) :
    (if restartable then Lifecycle.notStarted else .stopped).isTransient = false := by
  cases restartable <;> rfl

theorem reaping {R : Connection → Connection → Prop} {r : Bool} {s₀ : Session}
    (hs : Reaping R i r c s s') (hfirst : s.gate.head? = some i) {stage : Stage}
    (hstage : s.stage? i = some stage) (hlifecycle : s.lifecycle = .shuttingDown) :
    s₀.Tended s' := by
  cases hs with
  | finishes => exact of_settled (isTransient_ended r)
  | @reaps ks | @kills ks =>
    have hstays : ({ s with connections := ks } : Session).stage? i = some stage := hstage
    exact of_setStage hfirst hstays hlifecycle rfl

theorem stopping {r : Bool} {s₀ : Session} (hs : Stopping i r c s s')
    (hfirst : s.gate.head? = some i) {stage : Stage} (hstage : s.stage? i = some stage)
    (hlifecycle : s.lifecycle = .shuttingDown) : s₀.Tended s' := by
  cases hs with
  | waits polled tasks =>
    exact of_setStage (polled.gate ▸ hfirst) ((stage?_of_tasks tasks i).trans hstage)
      (polled.lifecycle.trans hlifecycle) rfl
  | closes polled tasks hreaping =>
    exact reaping hreaping (polled.gate ▸ hfirst) ((stage?_of_tasks tasks i).trans hstage)
      (polled.lifecycle.trans hlifecycle)

theorem outcome (h : s.Gated) (hs : Outcome m i s s') : s.Tended s' := by
  cases hs with
  | idle => exact of_keeps rfl fun _ _ hfirst hstage _ => ⟨hfirst, hstage⟩
  | goesOn stage_ served _ serves =>
    exact works serves.toWorks (h.not_mem_of_served stage_ served)
  | served turn work serving serves =>
    refine of_settled ?_
    rw [serves.lifecycle, show (s.leaveGate i).lifecycle = _ from serving.ready]
    rfl
  | unlaunched => exact of_settled rfl
  | launches turn _ _ _ hs => exact handshake hs turn.first turn.stage rfl
  | greets stage hs => exact handshake hs (h.first stage rfl) stage (h.starting stage rfl).1
  | @stopsNothing r => exact of_settled (isTransient_ended r)
  | stops turn _ _ hs => exact stopping hs turn.first turn.stage rfl
  | goesOnStopping stage _ hs => exact stopping hs (h.first stage rfl) stage (h.ending stage rfl)
  | goesOnReaping stage_ reaps hs =>
    obtain rfl | ⟨deadline, rfl⟩ := reaps
    · exact reaping hs (h.first stage_ rfl) stage_ (h.ending stage_ rfl)
    · exact reaping hs (h.first stage_ rfl) stage_ (h.ending stage_ rfl)

theorem begins (h : s.Gated) {w : Work} (hs : Begins m w s s') : s.Tended s' := by
  have hold {j : Nat} {stage : Stage} (hj : s.gate.head? = some j) (hstage : s.stage? j = some stage) :
      (s.added w).stage? j = some stage ∧ j ≠ s.tasks.length := by
    have hne : j ≠ s.tasks.length := fun hne =>
      h.not_mem_length (hne ▸ List.mem_of_mem_head? hj)
    refine ⟨?_, hne⟩
    rw [stage?_added, if_neg hne]
    exact hstage
  cases hs with
  | @refused r =>
    refine of_keeps rfl fun j stage hfirst hstage _ => ⟨hfirst, ?_⟩
    obtain ⟨hadded, hne⟩ := hold hfirst hstage
    exact (stage?_setStage _ _ j _).trans (by rw [if_neg hne, hadded])
  | served _ _ serves =>
    refine of_keeps serves.lifecycle fun j stage hfirst hstage _ => ⟨serves.gate ▸ hfirst, ?_⟩
    obtain ⟨hadded, hne⟩ := hold hfirst hstage
    rw [serves.stage?_other hne, hadded]
  | queues settles =>
    cases settles with
    | same =>
      refine of_keeps rfl fun j stage hfirst hstage _ => ⟨?_, (hold hfirst hstage).1⟩
      exact (List.head?_append ..).trans (by rw [hfirst]; rfl)
    | crashed => exact of_settled rfl
  | turns settles free outcome_ =>
    -- nobody was at the gate, so nobody attended the state before
    have hnone : ¬ s.Attended := by
      rintro ⟨j, -, hfirst, -⟩
      rw [free] at hfirst
      cases hfirst
    intro ht
    obtain hattended | ⟨hsame, -⟩ := outcome (h.joined settles) outcome_ ht
    · exact .inl hattended
    · rw [hsame] at ht
      cases settles with
      | same => exact .inr ⟨hsame, hnone⟩
      | crashed => cases ht

theorem cancels {stage : Stage} {ks : List Connection}
    (hi : s.stage? i = some stage) (hgate : stage.holdsGate = false) :
    s.Tended (({ s with connections := ks }.setStage i .dropped).leaveGate i) := by
  refine of_keeps rfl fun j t hfirst hstage ht => ?_
  have hne : j ≠ i := by
    rintro rfl
    obtain rfl : stage = t := Option.some.inj (hi.symm.trans hstage)
    rw [hgate] at ht
    cases ht
  refine ⟨Gated.head?_filter_ne hfirst hne, ?_⟩
  exact (stage?_setStage _ i j .dropped).trans (by rw [if_neg hne]; exact hstage)

end Tended

/-- The event drops the operation that is at work on what comes next. -/
def Drops (s : Session) (e : Event) : Prop :=
  ∃ i stage, e = .cancel i ∧ s.stage? i = some stage ∧ stage.attends s.lifecycle = true

variable {s s' : Session} {e : Event}

/-- A transient state is attended, unless whoever attended it is dropped. -/
theorem Gated.tended (h : s.Gated) (hs : Step s e s') :
    s.Tended s' ∨ s'.lifecycle = s.lifecycle ∧ s.Drops e := by
  have hkeeps : s.Tended s := .of_keeps rfl fun _ _ hfirst hstage _ => ⟨hfirst, hstage⟩
  cases hs with
  | nothing | tells | reads | writes | receives | endsInput | tidies => exact .inl hkeeps
  | begins begins => exact .inl (Tended.begins h begins).tidy
  | resumes outcome => exact .inl (Tended.outcome h outcome).tidy
  | settles settles => exact .inl (Tended.settles settles).tidy
  | @cancels i stage ks stage_ =>
    cases hgate : stage.holdsGate with
    | false =>
      have htended : s.Tended (({ s with connections := ks }.setStage i .dropped).leaveGate i) :=
        Tended.cancels stage_ hgate
      exact .inl htended.tidy
    | true =>
      refine .inr ⟨rfl, i, stage, rfl, stage_, ?_⟩
      obtain hstarting | hending := Bool.or_eq_true_iff.mp hgate
      · rw [(h.starting stage_ hstarting).1]
        exact hstarting
      · rw [h.ending stage_ hending]
        exact hending

/-- A transient state that nobody attends was left behind: the operation at work on what comes next
was dropped, and the state has stayed since. -/
structure LeftBehind (s : Session) (es : List Event) : Prop where
  state : (s.run es).lifecycle = .awaitingAnswer ∨ (s.run es).lifecycle = .shuttingDown
  dropped : ∃ front e back, es = front ++ e :: back ∧ (s.run front).Drops e ∧
    ∀ fs, fs <+: back → (s.run (front ++ e :: fs)).lifecycle = (s.run es).lifecycle

theorem Gated.attended_or_leftBehind (h : s.Gated) (hstart : s.lifecycle.isTransient = false)
    (es : List Event) (ht : (s.run es).lifecycle.isTransient = true) :
    (s.run es).Attended ∨ s.LeftBehind es := by
  induction es using List.reverseRecOn with
  | nil =>
    rw [show s.run [] = s from rfl, hstart] at ht
    cases ht
  | append_singleton es e ih =>
    have hgated := h.run es
    have htended := hgated.tended (hgated.step e).1
    rw [run_append_one] at ht ⊢
    obtain htended | ⟨hsame, i, stage, rfl, hstage, hattends⟩ := htended
    · obtain hattended | ⟨hsame, hnot⟩ := htended ht
      · exact .inl hattended
      · obtain ⟨hstate, front, f, back, rfl, hdrops, hstays⟩ := (ih (hsame ▸ ht)).resolve_left hnot
        have hsplit : front ++ f :: back ++ [e] = front ++ f :: (back ++ [e]) := by simp
        refine .inr ⟨?_, front, f, back ++ [e], hsplit, hdrops, fun fs hfs => ?_⟩
        · rwa [run_append_one, hsame]
        · obtain rfl | hfs := List.prefix_concat_iff.mp hfs
          · rw [hsplit]
          · rw [run_append_one, hsame, hstays fs hfs]
    · refine .inr ⟨?_, es, .cancel i, [], rfl, ⟨i, stage, rfl, hstage, hattends⟩, fun fs hfs => ?_⟩
      · rw [run_append_one, hsame]
        unfold Stage.attends at hattends
        split at hattends
        · rename_i hawaiting
          exact .inl hawaiting
        · rename_i hshutting
          exact .inr hshutting
        · cases hattends
      · rw [List.prefix_nil.mp hfs]

/-- A session stands in a transient state only as long as the operation at the gate is at work on
what comes next, or since that operation was dropped. -/
theorem transient_attended (language : String) (server : Setup.Server) (timeouts : Setup.Timeouts)
    (processId : Nat) (rootUri : String) (es : List Event)
    (ht : ((new language server timeouts processId rootUri).run es).lifecycle.isTransient = true) :
    ((new language server timeouts processId rootUri).run es).Attended ∨
      (new language server timeouts processId rootUri).LeftBehind es :=
  (Gated.new language server timeouts processId rootUri).attended_or_leftBehind rfl es ht

def droppedStart : List Event :=
  let m : Moment := ⟨0, .ok true, fun _ => .ok [], fun _ => false⟩
  [.begin m (.open ⟨[0x2F, 0x61]⟩ "one"), .cancel 0]

/-- A server that is ready, and a shutdown that is dropped while the server is to answer. -/
def droppedShutdown : List Event :=
  let m : Moment := ⟨0, .ok true, fun _ => .ok [], fun _ => false⟩
  [.begin m (.open ⟨[0x2F, 0x61]⟩ "one"),
    .receive 0 (Frame.write (Message.answer (.int 1) (.obj []))), .read 0, .resume m 0,
    .begin m (.shutdown true), .cancel 1]

theorem transient_attended_droppedStart :
    let s := new "lua" ⟨"luals", [], "lua", []⟩ {} 1 "file:///"
    (s.run droppedStart).lifecycle.isTransient = true ∧
      ((s.run droppedStart).Attended ∨ s.LeftBehind droppedStart) := by
  intro s
  have htransient : (s.run droppedStart).lifecycle.isTransient = true := by decide +kernel
  exact ⟨htransient, transient_attended "lua" ⟨"luals", [], "lua", []⟩ {} 1 "file:///" _ htransient⟩

/-- Nobody is at the gate, and others still see the session on its way. -/
theorem transient_unattended :
    let s := new "lua" ⟨"luals", [], "lua", []⟩ {} 1 "file:///"
    ((s.run droppedStart).gate = [] ∧ (s.run droppedStart).status = .awaitingAnswer) ∧
      (s.run droppedShutdown).gate = [] ∧ (s.run droppedShutdown).status = .shuttingDown := by
  decide +kernel

end LanguageClient.Session
