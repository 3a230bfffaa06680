import LanguageClient.Proofs.Session.Gate

namespace LanguageClient.Session

/-- The connection has not closed, and is not that of a start that was dropped. -/
structure Connection.IsUp (k : Connection) : Prop where
  opened : k.link.closing? = none
  kept : k.released = true → k.established = true

def Up (s : Session) (c : Nat) : Prop :=
  ∃ k, s.connection? c = some k ∧ k.IsUp

def Stage.Minds (c : Nat) : Stage → Prop
  | .handshaking c' _ | .stopping c' _ => c' = c
  | _ => False

/-- Every connection that is up serves, or somebody is starting or stopping it. -/
def Minded (s : Session) : Prop :=
  ∀ c, s.Up c → s.lifecycle = .ready c ∨
    ∃ i stage, s.stage? i = some stage ∧ stage.Minds c

section Stages

variable {stage : Stage} {c : Nat}

theorem Stage.Minds.holdsGate (h : stage.Minds c) : stage.holdsGate = true := by
  cases stage <;> first | rfl | cases h

end Stages

section Aging

variable {s s' : Session} {c : Nat}

theorem Connection.Ages.isUp {k k' : Connection} (h : k.Ages k') (hup : k'.IsUp) : k.IsUp := by
  refine ⟨h.link.open_of_open hup.opened, fun hreleased => ?_⟩
  rw [← h.established]
  exact hup.kept (h.released.trans hreleased)

/-- No connection comes up again. -/
theorem Aged.up (h : s.Aged s') (hup : s'.Up c) : s.Up c := by
  obtain ⟨k', hk', hup⟩ := hup
  obtain ⟨k, hk, hages⟩ := h.back hk'
  exact ⟨k, hk, hages.isUp hup⟩

theorem up_of_tidy (hup : s.tidy.Up c) : s.Up c ∧ (s.isHeld c = true ∨
    ∃ k, s.connection? c = some k ∧ k.established = true) := by
  obtain ⟨k', hk', hup⟩ := hup
  rw [connection?_tidy] at hk'
  obtain ⟨k, hk, rfl⟩ := Option.map_eq_some_iff.mp hk'
  split at hup
  · rename_i hheld
    exact ⟨⟨k, hk, k.kept_reap.ages.isUp hup⟩, .inl hheld⟩
  · have hestablished : k.established = true := by
      have hkept := hup.kept k.released_release
      rwa [Connection.established_release] at hkept
    have hopened : k.link.closing? = none := by
      have hclosing := hup.opened
      unfold Connection.release at hclosing
      split at hclosing
      · exact hclosing
      · rwa [Link.closing?_release] at hclosing
    exact ⟨⟨k, hk, hopened, fun _ => hestablished⟩, .inr ⟨k, hk, hestablished⟩⟩

theorem Connection.Shut.not_up {k k' : Connection} (h : k.Shut k') : ¬ k'.IsUp := by
  intro hup
  have hopened := hup.opened
  rw [h.link, Link.closing?_close] at hopened
  cases hopened

end Aging

section Minding

variable {s s' : Session} {m : Moment} {i c d : Nat}

theorem Minded.serving_of_turn (h : s.Minded) (hg : s.Gated) (turn : s.HasTurn i) (hup : s.Up c) :
    s.Serving c := by
  obtain hready | ⟨j, stage, hj, hminds⟩ := h c hup
  · refine ⟨hready, ?_⟩
    obtain ⟨k, hk, hup⟩ := hup
    rw [hk]
    exact hup.opened
  · -- whoever starts or stops a server has the turn, and no longer waits for it
    have hfirst := hg.first hj hminds.holdsGate
    rw [turn.first] at hfirst
    obtain rfl : i = j := Option.some.inj hfirst
    rw [turn.stage] at hj
    cases hj
    cases hminds

theorem Minded.eq_of_stage (h : s.Minded) (hg : s.Gated) {stage : Stage}
    (hi : s.stage? i = some stage) (hholds : stage.holdsGate = true) (hup : s.Up d) :
    stage.Minds d := by
  obtain hready | ⟨j, stage', hj, hminds⟩ := h d hup
  · exfalso
    cases hstarting : stage.isStarting with
    | true =>
      have hlifecycle := (hg.starting hi hstarting).1
      rw [hready] at hlifecycle
      cases hlifecycle
    | false =>
      rw [Stage.holdsGate, hstarting, Bool.false_or] at hholds
      have hlifecycle := hg.ending hi hholds
      rw [hready] at hlifecycle
      cases hlifecycle
  · have hfirst := hg.first hj hminds.holdsGate
    rw [hg.first hi hholds] at hfirst
    obtain rfl : i = j := Option.some.inj hfirst
    obtain rfl : stage = stage' := Option.some.inj (hi.symm.trans hj)
    exact hminds

theorem Stage.Minds.unique {stage : Stage} (h : stage.Minds c) (h' : stage.Minds d) : c = d := by
  cases stage with
  | handshaking | stopping => exact h.symm.trans h'
  | queued | reading | asking | reaping | killing | done | dropped => cases h

/-- No two connections are up. -/
theorem Minded.unique (h : s.Minded) (hg : s.Gated) (hc : s.Up c) (hd : s.Up d) : c = d := by
  obtain hready | ⟨i, stage, hi, hminds⟩ := h c hc
  · obtain hready' | ⟨j, stage, hj, hminds⟩ := h d hd
    · exact Lifecycle.ready.inj (hready.symm.trans hready')
    · exact (h.eq_of_stage hg hj hminds.holdsGate hc).unique hminds
  · exact hminds.unique (h.eq_of_stage hg hi hminds.holdsGate hd)

theorem Minded.of_back (h : s.Minded) (hup : ∀ c, s'.Up c → s.Up c)
    (hlifecycle : s'.lifecycle = s.lifecycle)
    (hstage : ∀ j stage c, s.stage? j = some stage → stage.Minds c → s'.stage? j = some stage) :
    s'.Minded := by
  intro c hc
  obtain hready | ⟨j, stage, hj, hminds⟩ := h c (hup c hc)
  · exact .inl (hlifecycle.trans hready)
  · exact .inr ⟨j, stage, hstage j stage c hj hminds, hminds⟩

theorem Minded.works (h : s.Minded) (hw : Works i c s s')
    (hi : ∀ stage, s.stage? i = some stage → stage.holdsGate = false) : s'.Minded := by
  refine h.of_back (fun _ => hw.aged.up) hw.lifecycle fun j stage d hj hminds => ?_
  by_cases hji : j = i
  · subst hji
    have hholds := hminds.holdsGate
    rw [hi stage hj] at hholds
    cases hholds
  · rw [hw.stage?_other hji]
    exact hj

theorem minded_of_not_up (h : ∀ c, ¬ s.Up c) : s.Minded :=
  fun c hc => absurd hc (h c)

theorem stage?_setStage_self {stage stage' : Stage} (hi : s.stage? i = some stage) :
    (s.setStage i stage').stage? i = some stage' := by
  rw [stage?_setStage, if_pos rfl, hi]
  rfl

theorem not_up_of_shut {ks : List Connection} (honly : ∀ d, s.Up d → d = c)
    (hshut : ChangedAt Connection.Shut c s.connections ks) (d : Nat) :
    ¬ Up { s with connections := ks } d := by
  intro hup
  obtain rfl : d = c := honly d ((aged_of_connections Connection.Shut.ages hshut).up hup)
  obtain ⟨k', hk', hup⟩ := hup
  obtain ⟨hne, -⟩ | ⟨-, k, -, hk⟩ := hshut.of_some hk'
  · exact hne rfl
  · exact hk.not_up hup

theorem minded_reaping {R : Connection → Connection → Prop} {restartable : Bool}
    (hdown : ∀ ks, ChangedAt R c s.connections ks → ∀ d, ¬ Up { s with connections := ks } d)
    (hs : Reaping R i restartable c s s') : s'.Minded := by
  cases hs with
  | finishes changed | reaps changed | kills changed =>
    exact minded_of_not_up fun d hd => hdown _ changed d hd

theorem minded_stopping {restartable : Bool} {stage : Stage} (hi : s.stage? i = some stage)
    (honly : ∀ d, s.Up d → d = c) (hs : Stopping i restartable c s s') : s'.Minded := by
  cases hs with
  | @waits s₁ call polled tasks =>
    intro d hd
    obtain rfl : d = c := honly d (polled.aged.up hd)
    have hi₁ : s₁.stage? i = some stage := (stage?_of_tasks tasks i).trans hi
    exact .inr ⟨i, .stopping d call, stage?_setStage_self hi₁, rfl⟩
  | closes polled tasks reaping =>
    refine minded_reaping (fun ks hshut d => ?_) reaping
    exact not_up_of_shut (fun d hd => honly d (polled.aged.up hd)) hshut d

theorem not_up_failStart {f : Failure} (honly : ∀ d, s.Up d → d = c) (d : Nat) :
    ¬ (s.failStart i c f).Up d := by
  have hshut : ChangedAt Connection.Shut c s.connections (s.connections.modify c fun k =>
      { k with link := k.link.close, killed := k.killed || k.process != .absent }) :=
    .modify fun k _ => ⟨rfl, rfl, rfl⟩
  exact not_up_of_shut honly hshut d

theorem up_established {result : Json} (hup : (s.established c result).Up d) (hd : d ≠ c) :
    s.Up d := by
  obtain ⟨k, hk, hup⟩ := hup
  refine ⟨k, ?_, hup⟩
  have hsame := connection?_updateConnection s c d fun k =>
    { k with abilities := Abilities.ofHandshake result, established := true }
  rw [if_neg hd] at hsame
  exact hsame.symm.trans hk

theorem minded_handshake {call : Call} {stage : Stage} (hi : s.stage? i = some stage)
    (honly : ∀ d, s.Up d → d = c) (hs : Handshake i c call s s') : s'.Minded := by
  cases hs with
  | waits =>
    intro d hd
    obtain rfl : d = c := honly d hd
    exact .inr ⟨i, .handshaking d call, stage?_setStage_self hi, rfl⟩
  | fails polled tasks =>
    exact minded_of_not_up (not_up_failStart fun d hd => honly d (polled.aged.up hd))
  | @succeeds result s₁ s' polled tasks serves =>
    intro d hd
    have hup : (s₁.established c result).Up d := serves.aged.up hd
    have hdc : d = c := by
      by_contra hne
      exact hne (honly d (polled.aged.up (up_established hup hne)))
    exact .inl (serves.lifecycle.trans (congrArg Lifecycle.ready hdc.symm))

theorem Minded.outcome (h : s.Minded) (hg : s.Gated) (hs : Outcome m i s s') : s'.Minded := by
  cases hs with
  | idle => exact h
  | @goesOn c stage s' stage_ served undone serves =>
    refine h.works serves.toWorks fun stage' hstage' => ?_
    obtain rfl := Option.some.inj (hstage'.symm.trans stage_)
    exact served.not_holdsGate
  | @served c s' turn work serving serves =>
    have hleft : (s.leaveGate i).Minded := h
    refine hleft.works serves.toWorks fun stage hstage => ?_
    obtain rfl := Option.some.inj (hstage.symm.trans turn.stage)
    rfl
  | unlaunched turn work alone launch =>
    exact minded_of_not_up fun d hd => alone d (h.serving_of_turn hg turn hd)
  | @launches hasProcess s' turn work alone launch handshake =>
    refine minded_handshake (s := s.launched hasProcess) turn.stage (fun d hd => ?_) handshake
    -- an older connection would serve
    obtain ⟨k, hk, hup⟩ := hd
    obtain hk | ⟨hd, -⟩ := Conversation.getElem?_append_one hk
    · exact absurd (h.serving_of_turn hg turn ⟨k, hk, hup⟩) (alone d)
    · exact hd
  | greets stage handshake =>
    exact minded_handshake stage (fun d hd => (h.eq_of_stage hg stage rfl hd).symm) handshake
  | stopsNothing turn work unready =>
    exact minded_of_not_up fun d hd => unready d (h.serving_of_turn hg turn hd).ready
  | stops turn work ready stopping =>
    refine minded_stopping (s := { s with lifecycle := .shuttingDown }) turn.stage
      (fun d hd => ?_) stopping
    exact Lifecycle.ready.inj ((h.serving_of_turn hg turn hd).ready.symm.trans ready)
  | goesOnStopping stage work stopping =>
    exact minded_stopping stage (fun d hd => (h.eq_of_stage hg stage rfl hd).symm) stopping
  | goesOnReaping stage_ reaps reaping =>
    have hnone (d : Nat) : ¬ s.Up d := by
      intro hd
      obtain rfl | ⟨deadline, rfl⟩ := reaps
      · exact h.eq_of_stage hg stage_ rfl hd
      · exact h.eq_of_stage hg stage_ rfl hd
    refine minded_reaping (fun ks hks d hd => hnone d ?_) reaping
    exact (aged_of_connections Connection.Kept.ages hks).up hd

theorem Minded.settles (h : s.Minded) {lifecycle : Lifecycle} (hs : Settles s lifecycle) :
    Minded { s with lifecycle } := by
  cases hs with
  | same => exact h
  | @crashed c reason ready closed =>
    intro d hd
    obtain hready | hstage := h d hd
    · -- a connection that is given up has closed
      obtain rfl : c = d := Lifecycle.ready.inj (ready.symm.trans hready)
      obtain ⟨k, hk, hup⟩ := hd
      rw [show s.connection? c = some k from hk] at closed
      exact absurd hup.opened (by simp [show k.link.closing? = some reason from closed])
    · exact .inr hstage

theorem Minded.added (h : s.Minded) (w : Work) : (s.added w).Minded :=
  h.of_back (fun _ => id) rfl fun _ _ _ hj _ => stage?_added_of_some w hj

theorem Minded.joined (h : s.Minded) {w : Work} {lifecycle : Lifecycle}
    (hs : Settles s lifecycle) : (s.joined w lifecycle).Minded :=
  (h.settles hs).added w

theorem Minded.begins (h : s.Minded) (hg : s.Gated) {w : Work} (hs : Begins m w s s') :
    s'.Minded := by
  cases hs with
  | refused =>
    refine (h.added w).of_back (fun _ => id) rfl fun j stage d hj hminds => ?_
    rw [finish, stage?_setStage, if_neg]
    · exact hj
    · rintro rfl
      rw [stage?_added_self] at hj
      cases hj
      cases hminds
  | served work serving serves =>
    refine (h.added w).works serves.toWorks fun stage hstage => ?_
    rw [stage?_added_self] at hstage
    cases hstage
    rfl
  | queues settles busy => exact h.joined settles
  | turns settles free outcome => exact (h.joined settles).outcome (hg.joined settles) outcome

theorem Minded.tidy (h : s.Minded) : s.tidy.Minded :=
  h.of_back (fun _ hc => (up_of_tidy hc).1) rfl fun _ _ _ hj _ => hj

theorem Minded.setLink (h : s.Minded) {k : Connection} (hk : s.connection? c = some k) {l : Link}
    (hl : k.link.Ages l) : (s.setLink c l).Minded :=
  h.of_back (fun _ => (aged_setLink hk hl).up) rfl fun _ _ _ hj _ => hj

theorem not_up_of_dropped (hg : s.Gated) {call : Call}
    (hi : s.stage? i = some (.handshaking c call)) {ks : List Connection}
    (haged : s.Aged { s with connections := ks }) :
    ¬ ((Session.setStage { s with connections := ks } i .dropped).leaveGate i).tidy.Up c := by
  intro hup
  obtain ⟨-, hheld | ⟨k', hk', hestablished⟩⟩ := up_of_tidy hup
  · obtain hready | ⟨j, stage, hj, hc⟩ := (isHeld_iff _ c).mp hheld
    · have hlifecycle := (hg.starting hi rfl).1
      rw [show s.lifecycle = .ready c from hready] at hlifecycle
      cases hlifecycle
    · -- nobody else can wait for a connection that has not answered
      have hj' : (Session.setStage { s with connections := ks } i .dropped).stage? j =
        some stage := hj
      rw [stage?_setStage] at hj'
      split at hj'
      · obtain ⟨_, -, rfl⟩ := Option.map_eq_some_iff.mp hj'
        cases hc
      · rename_i hji
        have hstarting : stage.isStarting = true := by
          simpa [Stage.isStarting] using (hg.held hj' hc).unique (hg.held hi rfl)
        have hfirst := hg.first hj' (Stage.holdsGate_of_isStarting hstarting)
        rw [hg.first hi rfl] at hfirst
        exact hji (Option.some.inj hfirst).symm
  · obtain ⟨k, hk, hages⟩ := haged.back hk'
    obtain ⟨k₀, hk₀, -, hunanswered⟩ := hg.held hi rfl
    obtain rfl := Option.some.inj (hk.symm.trans hk₀)
    rw [hages.established, hunanswered] at hestablished
    cases hestablished

/-- Every step keeps it, as long as no shutdown is dropped while the server is asked to stop. -/
theorem Minded.step (h : s.Minded) (hg : s.Gated) {e : Event}
    (hspares : ∀ i c call, e = .cancel i → s.stage? i ≠ some (.stopping c call))
    (hs : Step s e s') : s'.Minded := by
  cases hs with
  | nothing => exact h
  | begins begins => exact (h.begins hg begins).tidy
  | resumes outcome => exact (h.outcome hg outcome).tidy
  | @cancels i stage ks stage_ left =>
    have haged : s.Aged { s with connections := ks } := aged_of_left left
    intro d hd
    have hup : s.Up d := haged.up (up_of_tidy hd).1
    obtain hready | ⟨j, stage', hj, hminds⟩ := h d hup
    · exact .inl hready
    · right
      refine ⟨j, stage', ?_, hminds⟩
      have hji : j ≠ i := by
        rintro rfl
        cases stage' with
        | handshaking c call =>
          obtain rfl : c = d := hminds
          exact not_up_of_dropped hg hj haged hd
        | stopping c call => exact hspares j c call rfl hj
        | queued | reading | asking | reaping | killing | done | dropped => cases hminds
      show (Session.setStage { s with connections := ks } i .dropped).stage? j = some stage'
      rw [stage?_setStage, if_neg hji]
      exact hj
  | settles settles => exact (h.settles settles).tidy
  | @tells e c ks serving told =>
    have hold : Minded { s with connections := ks } :=
      h.of_back (fun _ => (aged_of_connections Connection.Used.ages told).up) rfl
        fun _ _ _ hj _ => hj
    exact hold.tidy
  | reads connection read => exact (h.setLink connection (Link.ages_readNext? read)).tidy
  | writes connection write => exact h.setLink connection (Link.ages_writeNext? write)
  | receives connection => exact h.setLink connection (Link.ages_of_same rfl rfl rfl)
  | endsInput connection => exact h.setLink connection (Link.ages_of_same rfl rfl rfl)
  | tidies => exact h.tidy

end Minding

end LanguageClient.Session
