import LanguageClient.Proofs.Session.Aging

namespace LanguageClient.Session

section Stages

def Stage.isStarting : Stage → Bool
  | .handshaking _ _ => true
  | _ => false

def Stage.isEnding : Stage → Bool
  | .stopping _ _ | .reaping _ _ | .killing _ => true
  | _ => false

def Stage.holdsGate (stage : Stage) : Bool :=
  stage.isStarting || stage.isEnding

theorem Stage.holdsGate_of_isStarting {stage : Stage} (h : stage.isStarting = true) :
    stage.holdsGate = true := by
  rw [holdsGate, h, Bool.true_or]

theorem Stage.holdsGate_of_isEnding {stage : Stage} (h : stage.isEnding = true) :
    stage.holdsGate = true := by
  rw [holdsGate, h, Bool.or_true]

theorem Stage.not_isStarting {stage : Stage} (h : stage.holdsGate = false) :
    stage.isStarting = false :=
  (Bool.or_eq_false_iff.mp h).1

theorem Stage.IsServedBy.not_holdsGate {stage : Stage} {c : Nat} (h : stage.IsServedBy c) :
    stage.holdsGate = false := by
  cases stage <;> first | rfl | cases h

theorem Stage.IsServedBy.connection {stage : Stage} {c d : Nat} (h : stage.IsServedBy c)
    (hd : stage.connection? = some d) : d = c := by
  cases stage with
  | reading c' uri | asking c' call => exact (Option.some.inj hd).symm.trans h
  | done => cases hd
  | queued | handshaking | stopping | reaping | killing | dropped => cases h

end Stages

section Moves

variable {s s' : Session} (htasks : s'.tasks = s.tasks) (i j : Nat) (stage : Stage)
include htasks

theorem stage?_setStage_of_tasks : (s'.setStage i stage).stage? j =
    if j = i then (s.stage? i).map fun _ => stage else s.stage? j := by
  rw [stage?_setStage, stage?_of_tasks htasks, stage?_of_tasks htasks]

theorem work?_setStage_of_tasks : (s'.setStage i stage).work? j = s.work? j := by
  rw [work?_setStage, work?_of_tasks htasks]

end Moves

/-- The order at the gate. -/
structure Gated (s : Session) : Prop where
  nodup : s.gate.Nodup
  waits : ∀ {i}, i ∈ s.gate →
    ∃ stage, s.stage? i = some stage ∧ (stage = .queued ∨ stage.holdsGate = true)
  first : ∀ {i stage}, s.stage? i = some stage → stage.holdsGate = true → s.gate.head? = some i
  starting : ∀ {i stage}, s.stage? i = some stage → stage.isStarting = true →
    s.lifecycle = .awaitingAnswer ∧ ∀ r, s.work? i ≠ some (.shutdown r)
  ending : ∀ {i stage}, s.stage? i = some stage → stage.isEnding = true →
    s.lifecycle = .shuttingDown
  held : ∀ {i stage c}, s.stage? i = some stage → stage.connection? = some c →
    s.Holds c (!stage.isStarting)
  ready : ∀ {c}, s.lifecycle = .ready c → s.Holds c true
  hale : ∀ {c k}, s.connection? c = some k → k.released = false → k.link.Hale

namespace Gated

variable {s s' : Session} {m : Moment} {i c : Nat}

theorem not_holdsGate (h : s.Gated) (hfirst : s.gate.head? = some i) {j : Nat} {stage : Stage}
    (hj : j ≠ i) (hstage : s.stage? j = some stage) : stage.holdsGate = false := by
  by_contra hgate
  have hj' := h.first hstage (by simpa using hgate)
  rw [hfirst] at hj'
  exact hj (Option.some.inj hj').symm

theorem hale_of_aged (h : s.Gated) (haged : s.Aged s') {c : Nat} {k : Connection}
    (hk : s'.connection? c = some k) (hreleased : k.released = false) : k.link.Hale := by
  obtain ⟨k₀, hk₀, hages⟩ := haged.back hk
  exact hages.link.hale (h.hale hk₀ (hages.released.symm.trans hreleased))

theorem aged (h : s.Gated) (haged : s.Aged s') (htasks : s'.tasks = s.tasks)
    (hgate : s'.gate = s.gate) (hlifecycle : s'.lifecycle = s.lifecycle) : s'.Gated := by
  have hstage (j : Nat) : s'.stage? j = s.stage? j := stage?_of_tasks htasks j
  have hwork (j : Nat) : s'.work? j = s.work? j := work?_of_tasks htasks j
  constructor
  case nodup => exact hgate ▸ h.nodup
  case waits =>
    intro j hj
    rw [hstage]
    exact h.waits (hgate ▸ hj)
  case first =>
    intro j stage hj hholds
    rw [hgate]
    exact h.first (hstage j ▸ hj) hholds
  case starting =>
    intro j stage hj hstarting
    rw [hlifecycle, hwork]
    exact h.starting (hstage j ▸ hj) hstarting
  case ending =>
    intro j stage hj hending
    rw [hlifecycle]
    exact h.ending (hstage j ▸ hj) hending
  case held =>
    intro j stage d hj hd
    exact haged.holds (h.held (hstage j ▸ hj) hd)
  case ready =>
    intro d hd
    exact haged.holds (h.ready (hlifecycle ▸ hd))
  case hale => exact fun hk hreleased => h.hale_of_aged haged hk hreleased

/-- Whoever is first comes on, and stays at the gate or leaves it. -/
theorem turn (h : s.Gated) (hfirst : s.gate.head? = some i) (stage : Stage)
    (hstage : s'.stage? i = some stage) (hothers : ∀ j, j ≠ i → s'.stage? j = s.stage? j)
    (hwork : ∀ j, s'.work? j = s.work? j)
    (hgate : s'.gate = s.gate ∧ (stage = .queued ∨ stage.holdsGate = true) ∨
      s'.gate = s.gate.filter (· != i) ∧ stage.holdsGate = false)
    (hstarting : stage.isStarting = true →
      s'.lifecycle = .awaitingAnswer ∧ ∀ r, s.work? i ≠ some (.shutdown r))
    (hending : stage.isEnding = true → s'.lifecycle = .shuttingDown)
    (hheld : ∀ d, stage.connection? = some d → s'.Holds d (!stage.isStarting))
    (hready : ∀ d, s'.lifecycle = .ready d → s'.Holds d true)
    (hkeep : ∀ d, s.Holds d true → s'.Holds d true)
    (hhale : ∀ {d k}, s'.connection? d = some k → k.released = false → k.link.Hale) :
    s'.Gated := by
  have hown {t : Stage} (ht : s'.stage? i = some t) : t = stage :=
    Option.some.inj (ht.symm.trans hstage)
  have hquiet {j : Nat} {t : Stage} (hj : s'.stage? j = some t) (hne : j ≠ i) :
      t.holdsGate = false :=
    h.not_holdsGate hfirst hne (hothers j hne ▸ hj)
  -- whoever is at the gate now is the one that has come on
  have hone {j : Nat} {t : Stage} (hj : s'.stage? j = some t) (ht : t.holdsGate = true) :
      j = i ∧ t = stage := by
    have hji : j = i := by
      by_contra hne
      rw [hquiet hj hne] at ht
      cases ht
    exact ⟨hji, hown (hji ▸ hj)⟩
  constructor
  case nodup =>
    obtain ⟨hstays, -⟩ | ⟨hleaves, -⟩ := hgate
    · exact hstays ▸ h.nodup
    · exact hleaves ▸ h.nodup.filter _
  case waits =>
    intro j hj
    obtain ⟨hstays, hat⟩ | ⟨hleaves, -⟩ := hgate
    · rw [hstays] at hj
      by_cases hne : j = i
      · exact ⟨stage, hne ▸ hstage, hat⟩
      · rw [hothers j hne]
        exact h.waits hj
    · rw [hleaves] at hj
      obtain ⟨hj, hne⟩ := List.mem_filter.mp hj
      rw [hothers j (by simpa using hne)]
      exact h.waits hj
  case first =>
    intro j t hj hholds
    obtain ⟨rfl, rfl⟩ := hone hj hholds
    obtain ⟨hstays, -⟩ | ⟨-, hgone⟩ := hgate
    · rw [hstays]
      exact hfirst
    · rw [hgone] at hholds
      cases hholds
  case starting =>
    intro j t hj ht
    obtain ⟨rfl, rfl⟩ := hone hj (Stage.holdsGate_of_isStarting ht)
    rw [hwork]
    exact hstarting ht
  case ending =>
    intro j t hj ht
    obtain ⟨-, rfl⟩ := hone hj (Stage.holdsGate_of_isEnding ht)
    exact hending ht
  case held =>
    intro j t d hj hd
    by_cases hne : j = i
    · obtain rfl := hown (hne ▸ hj)
      exact hheld d hd
    · -- nobody else is about to start a server, so its connection has answered
      have hbefore := h.held (hothers j hne ▸ hj) hd
      rw [Stage.not_isStarting (hquiet hj hne)] at hbefore ⊢
      exact hkeep d hbefore
  case ready => exact fun hd => hready _ hd
  case hale => exact hhale

theorem works (h : s.Gated) (hi : i ∉ s.gate) (hc : s.Holds c true) (hw : Works i c s s') :
    s'.Gated := by
  -- a stage at the gate is nobody's but one that was there before
  have hold {j : Nat} {stage : Stage} (hj : s'.stage? j = some stage)
      (hholds : stage.holdsGate = true) : s.stage? j = some stage := by
    by_cases hne : j = i
    · subst hne
      refine (hw.stage?_self hj).resolve_right fun hserved => ?_
      rw [hserved.not_holdsGate] at hholds
      cases hholds
    · rw [← hw.stage?_other hne]
      exact hj
  constructor
  case nodup => exact hw.gate ▸ h.nodup
  case waits =>
    intro j hj
    rw [hw.gate] at hj
    have hne : j ≠ i := fun hne => hi (hne ▸ hj)
    rw [hw.stage?_other hne]
    exact h.waits hj
  case first =>
    intro j stage hj hholds
    rw [hw.gate]
    exact h.first (hold hj hholds) hholds
  case starting =>
    intro j stage hj hstarting
    rw [hw.lifecycle, hw.work?]
    exact h.starting (hold hj (Stage.holdsGate_of_isStarting hstarting)) hstarting
  case ending =>
    intro j stage hj hending
    rw [hw.lifecycle]
    exact h.ending (hold hj (Stage.holdsGate_of_isEnding hending)) hending
  case held =>
    intro j stage d hj hd
    apply hw.aged.holds
    by_cases hne : j = i
    · subst hne
      obtain hsame | hserved := hw.stage?_self hj
      · exact h.held hsame hd
      · obtain rfl := hserved.connection hd
        rw [Stage.not_isStarting hserved.not_holdsGate]
        exact hc
    · exact h.held (hw.stage?_other hne ▸ hj) hd
  case ready =>
    intro d hd
    rw [hw.lifecycle] at hd
    exact hw.aged.holds (h.ready hd)
  case hale => exact fun hk hreleased => h.hale_of_aged hw.aged hk hreleased

theorem done (h : s.Gated) (hfirst : s.gate.head? = some i) (haged : s.Aged s') {stage : Stage}
    (hi : s.stage? i = some stage) {r : Except Failure Answer} (lifecycle : Lifecycle)
    (hready : ∀ d, lifecycle ≠ .ready d) (htasks : s'.tasks = s.tasks) (hgate : s'.gate = s.gate) :
    (Session.finish (Session.leaveGate { s' with lifecycle } i) i r).Gated := by
  have hstage (j : Nat) : (Session.finish (Session.leaveGate { s' with lifecycle } i) i r).stage? j =
      if j = i then (s.stage? i).map fun _ => .done r else s.stage? j :=
    stage?_setStage_of_tasks htasks i j (.done r)
  apply h.turn hfirst (.done r)
  case hstage =>
    rw [hstage, if_pos rfl, hi]
    rfl
  case hothers =>
    intro j hj
    rw [hstage, if_neg hj]
  case hwork => exact fun j => work?_setStage_of_tasks htasks i j _
  case hgate => exact .inr ⟨congrArg (List.filter (· != i)) hgate, rfl⟩
  case hstarting =>
    intro hstarting
    cases hstarting
  case hending =>
    intro hending
    cases hending
  case hheld =>
    intro d hd
    cases hd
  case hready => exact fun d hd => absurd hd (hready d)
  case hkeep => exact fun d hd => haged.holds hd
  case hhale => exact fun hk hreleased => h.hale_of_aged haged hk hreleased

theorem stays (h : s.Gated) (hfirst : s.gate.head? = some i) (haged : s.Aged s')
    {stage stage' : Stage} (hi : s.stage? i = some stage) (htasks : s'.tasks = s.tasks)
    (hgate : s'.gate = s.gate) (hholds : stage'.holdsGate = true)
    (hstarting : stage'.isStarting = true →
      s'.lifecycle = .awaitingAnswer ∧ ∀ r, s.work? i ≠ some (.shutdown r))
    (hending : stage'.isEnding = true → s'.lifecycle = .shuttingDown)
    (hheld : ∀ d, stage'.connection? = some d → s.Holds d (!stage'.isStarting))
    (hunready : ∀ d, s'.lifecycle ≠ .ready d) :
    (s'.setStage i stage').Gated := by
  apply h.turn hfirst stage'
  case hstage =>
    rw [stage?_setStage_of_tasks htasks, if_pos rfl, hi]
    rfl
  case hothers =>
    intro j hj
    rw [stage?_setStage_of_tasks htasks, if_neg hj]
  case hwork => exact fun j => work?_setStage_of_tasks htasks i j _
  case hgate => exact .inl ⟨hgate, .inr hholds⟩
  case hstarting => exact hstarting
  case hending => exact hending
  case hheld => exact fun d hd => haged.holds (hheld d hd)
  case hready => exact fun d hd => absurd hd (hunready d)
  case hkeep => exact fun d hd => haged.holds hd
  case hhale => exact fun hk hreleased => h.hale_of_aged haged hk hreleased

theorem failStart (h : s.Gated) (hfirst : s.gate.head? = some i) {s₁ : Session}
    (hw : Works i c s s₁) (htasks : s₁.tasks = s.tasks) {stage : Stage}
    (hi : s.stage? i = some stage) (f : Failure) : (s₁.failStart i c f).Gated := by
  have hshut : s₁.Aged (s₁.updateConnection c fun k =>
      { k with link := k.link.close, killed := k.killed || k.process != .absent }) :=
    .of_changed Connection.Shut.ages (.modify fun k _ => ⟨rfl, rfl, rfl⟩)
  have h₁ : s₁.Gated := h.aged hw.aged htasks hw.gate hw.lifecycle
  have hfirst₁ : s₁.gate.head? = some i := hw.gate ▸ hfirst
  have hi₁ : s₁.stage? i = some stage := (stage?_of_tasks htasks i).trans hi
  exact h₁.done hfirst₁ hshut hi₁ _ (by simp) rfl rfl

theorem establish (h : s.Gated) (hfirst : s.gate.head? = some i) {stage : Stage}
    (hi : s.stage? i = some stage) (hc : s.Holds c false) {result : Json}
    (hs : Serves i c ((s.established c result).leaveGate i) s') : s'.Gated := by
  obtain ⟨stage', hstage', hserved⟩ := hs.stage?_self (s := (s.established c result).leaveGate i) hi
  have hnot := hserved.not_holdsGate
  obtain ⟨hnotStarting, hnotEnding⟩ := Bool.or_eq_false_iff.mp hnot
  have hconnection (d : Nat) : ((s.established c result).leaveGate i).connection? d =
      if d = c then (s.connection? c).map fun k =>
        { k with abilities := Abilities.ofHandshake result, established := true }
      else s.connection? d := connection?_updateConnection s c d _
  have hanswered : ((s.established c result).leaveGate i).Holds c true := by
    obtain ⟨k, hk, hreleased, -⟩ := hc
    refine ⟨{ k with abilities := Abilities.ofHandshake result, established := true }, ?_,
      hreleased, rfl⟩
    rw [hconnection, if_pos rfl, hk]
    rfl
  apply h.turn hfirst stage'
  case hstage => exact hstage'
  case hothers => exact fun j hj => hs.stage?_other hj
  case hwork => exact fun j => hs.work? j
  case hgate => exact .inr ⟨hs.gate, hnot⟩
  case hstarting =>
    rw [hnotStarting]
    exact fun hstarting => by cases hstarting
  case hending =>
    rw [hnotEnding]
    exact fun hending => by cases hending
  case hheld =>
    intro d hd
    obtain rfl := hserved.connection hd
    rw [hnotStarting]
    exact hs.aged.holds hanswered
  case hready =>
    intro d hd
    rw [hs.lifecycle] at hd
    obtain rfl : c = d := Lifecycle.ready.inj hd
    exact hs.aged.holds hanswered
  case hkeep =>
    intro d hd
    apply hs.aged.holds
    -- whoever is served by this connection is served by one that has answered
    by_cases hdc : d = c
    · exact hdc ▸ hanswered
    · obtain ⟨k, hk, hkeep⟩ := hd
      refine ⟨k, ?_, hkeep⟩
      rw [hconnection, if_neg hdc, hk]
  case hhale =>
    intro d k hk hreleased
    obtain ⟨k₁, hk₁, hages⟩ := hs.aged.back hk
    rw [hconnection] at hk₁
    split at hk₁
    · obtain ⟨k₀, hk₀, rfl⟩ := Option.map_eq_some_iff.mp hk₁
      have hhale : k₀.link.Hale := h.hale hk₀ (hages.released.symm.trans hreleased)
      exact hages.link.hale hhale
    · exact hages.link.hale (h.hale hk₁ (hages.released.symm.trans hreleased))

theorem handshake (h : s.Gated) (hfirst : s.gate.head? = some i) {call : Call} {stage : Stage}
    (hi : s.stage? i = some stage) (hlifecycle : s.lifecycle = .awaitingAnswer)
    (hwork : ∀ r, s.work? i ≠ some (.shutdown r)) (hc : s.Holds c false)
    (hs : Handshake i c call s s') : s'.Gated := by
  cases hs with
  | waits =>
    apply h.stays hfirst (.refl s) hi rfl rfl rfl
    case hstarting => exact fun _ => ⟨hlifecycle, hwork⟩
    case hending =>
      intro hending
      cases hending
    case hheld =>
      intro d hd
      obtain rfl := Option.some.inj hd
      exact hc
    case hunready => simp [hlifecycle]
  | fails polled tasks => exact h.failStart hfirst polled tasks hi _
  | @succeeds result s₁ s' polled tasks serves =>
    have h₁ : s₁.Gated := h.aged polled.aged tasks polled.gate polled.lifecycle
    have hfirst₁ : s₁.gate.head? = some i := polled.gate ▸ hfirst
    have hi₁ : s₁.stage? i = some stage := (stage?_of_tasks tasks i).trans hi
    exact h₁.establish hfirst₁ hi₁ (polled.aged.holds hc) serves

theorem staysEnding (h : s.Gated) (hfirst : s.gate.head? = some i) (haged : s.Aged s')
    {stage stage' : Stage} (hi : s.stage? i = some stage) (htasks : s'.tasks = s.tasks)
    (hgate : s'.gate = s.gate) (hlifecycle : s'.lifecycle = .shuttingDown)
    (hending : stage'.isEnding = true) (hconnection : stage'.connection? = some c)
    (hc : s.Holds c true) : (s'.setStage i stage').Gated := by
  have hnot : stage'.isStarting = false := by
    cases stage' <;> first | rfl | cases hending
  apply h.stays hfirst haged hi htasks hgate
  case hholds => exact Stage.holdsGate_of_isEnding hending
  case hstarting =>
    rw [hnot]
    exact fun hstarting => by cases hstarting
  case hending => exact fun _ => hlifecycle
  case hheld =>
    intro d hd
    obtain rfl : c = d := Option.some.inj (hconnection.symm.trans hd)
    rw [hnot]
    exact hc
  case hunready => simp [hlifecycle]

theorem reaping (h : s.Gated) (hfirst : s.gate.head? = some i)
    {R : Connection → Connection → Prop} (hR : ∀ {k k'}, R k k' → k.Ages k') {stage : Stage}
    (hi : s.stage? i = some stage) (hlifecycle : s.lifecycle = .shuttingDown)
    (hc : s.Holds c true) {restartable : Bool} (hs : Reaping R i restartable c s s') :
    s'.Gated := by
  cases hs with
  | finishes changed =>
    refine h.done hfirst (aged_of_connections hR changed) hi _ (fun d => ?_) rfl rfl
    split <;> simp
  | reaps changed | kills changed =>
    exact h.staysEnding hfirst (aged_of_connections hR changed) hi rfl rfl hlifecycle rfl rfl hc

theorem stopping (h : s.Gated) (hfirst : s.gate.head? = some i) {stage : Stage}
    (hi : s.stage? i = some stage) (hlifecycle : s.lifecycle = .shuttingDown)
    (hc : s.Holds c true) {restartable : Bool} (hs : Stopping i restartable c s s') :
    s'.Gated := by
  cases hs with
  | waits polled tasks =>
    exact h.staysEnding hfirst polled.aged hi tasks polled.gate
      (polled.lifecycle.trans hlifecycle) rfl rfl hc
  | @closes s₁ s' polled tasks reaping =>
    have h₁ : s₁.Gated := h.aged polled.aged tasks polled.gate polled.lifecycle
    have hfirst₁ : s₁.gate.head? = some i := polled.gate ▸ hfirst
    have hi₁ : s₁.stage? i = some stage := (stage?_of_tasks tasks i).trans hi
    exact h₁.reaping hfirst₁ Connection.Shut.ages hi₁ (polled.lifecycle.trans hlifecycle)
      (polled.aged.holds hc) reaping

/-- Whoever has the turn, and waits for nothing else yet, comes on. -/
theorem moves (h : s.Gated) (turn : s.HasTurn i) (htasks : s'.tasks = s.tasks)
    (hgate : s'.gate = s.gate ∨ s'.gate = s.gate.filter (· != i))
    (hready : ∀ d, s'.lifecycle = .ready d → s'.Holds d true)
    (hkeep : ∀ d, s.Holds d true → s'.Holds d true)
    (hhale : ∀ {d k}, s'.connection? d = some k → k.released = false → k.link.Hale) :
    s'.Gated := by
  apply h.turn turn.first .queued
  case hstage => exact (stage?_of_tasks htasks i).trans turn.stage
  case hothers => exact fun j _ => stage?_of_tasks htasks j
  case hwork => exact work?_of_tasks htasks
  case hgate =>
    obtain hstays | hleaves := hgate
    · exact .inl ⟨hstays, .inl rfl⟩
    · exact .inr ⟨hleaves, rfl⟩
  case hstarting =>
    intro hstarting
    cases hstarting
  case hending =>
    intro hending
    cases hending
  case hheld =>
    intro d hd
    cases hd
  case hready => exact hready
  case hkeep => exact hkeep
  case hhale => exact hhale

theorem setLifecycle (h : s.Gated) (turn : s.HasTurn i) {lifecycle : Lifecycle}
    (hunready : ∀ d, lifecycle ≠ .ready d) : Gated { s with lifecycle } :=
  h.moves turn rfl (.inl rfl) (fun d hd => absurd hd (hunready d)) (fun _ hd => hd) h.hale

theorem leaves (h : s.Gated) (turn : s.HasTurn i) : (s.leaveGate i).Gated :=
  h.moves turn rfl (.inr rfl) (fun _ hd => h.ready hd) (fun _ hd => hd) h.hale

theorem launched (h : s.Gated) (turn : s.HasTurn i) (hasProcess : Bool) :
    (s.launched hasProcess).Gated := by
  have hconnection {d : Nat} {k : Connection} (hk : s.connection? d = some k) :
      (s.launched hasProcess).connection? d = some k := by
    have hd : d < s.connections.length := (List.getElem?_eq_some_iff.mp hk).1
    exact (List.getElem?_append_left hd).trans hk
  have htasks : (s.launched hasProcess).tasks = s.tasks := rfl
  apply h.moves turn htasks (.inl rfl)
  case hready =>
    intro d hd
    cases hd
  case hkeep =>
    rintro d ⟨k, hk, hkeep⟩
    exact ⟨k, hconnection hk, hkeep⟩
  case hhale =>
    intro d k hk hreleased
    obtain hk | ⟨-, rfl⟩ := Conversation.getElem?_append_one hk
    · exact h.hale hk hreleased
    · exact fun _ => ⟨rfl, by simp [greeted]⟩

theorem not_mem_of_served (h : s.Gated) {stage : Stage} (hstage : s.stage? i = some stage)
    (hserved : stage.IsServedBy c) : i ∉ s.gate := by
  intro hi
  obtain ⟨stage', hstage', hat⟩ := h.waits hi
  obtain rfl : stage = stage' := Option.some.inj (hstage.symm.trans hstage')
  obtain rfl | hholds := hat
  · exact hserved
  · rw [hserved.not_holdsGate] at hholds
    cases hholds

/-- A stretch of any operation keeps the order. -/
theorem outcome (h : s.Gated) (hs : Outcome m i s s') : s'.Gated := by
  cases hs with
  | idle => exact h
  | goesOn stage_ served undone serves =>
    have hheld := h.held stage_ undone
    rw [Stage.not_isStarting served.not_holdsGate] at hheld
    exact h.works (h.not_mem_of_served stage_ served) hheld serves.toWorks
  | served turn work serving serves =>
    apply (h.leaves turn).works _ (h.ready serving.ready) serves.toWorks
    simp [leaveGate]
  | @unlaunched f turn work alone launch =>
    have haged : s.Aged { s with launches := s.launches + 1 } := .refl s
    exact h.done turn.first haged turn.stage (.startFailed f.message) (by simp) rfl rfl
  | @launches hasProcess s' turn work alone launch handshake =>
    have hgreeted : (s.launched hasProcess).Holds s.connections.length false :=
      ⟨s.greeted hasProcess, by simp [Session.launched, connection?], rfl, rfl⟩
    exact (h.launched turn hasProcess).handshake turn.first turn.stage rfl work hgreeted handshake
  | greets stage handshake =>
    obtain ⟨hlifecycle, hwork⟩ := h.starting stage rfl
    exact h.handshake (h.first stage rfl) stage hlifecycle hwork (h.held stage rfl) handshake
  | stopsNothing turn work unready =>
    refine h.done turn.first (.refl s) turn.stage _ (fun d => ?_) rfl rfl
    split <;> simp
  | stops turn work ready stopping =>
    have hstopping : Gated { s with lifecycle := .shuttingDown } :=
      h.setLifecycle turn (by simp)
    exact hstopping.stopping turn.first turn.stage rfl (h.ready ready) stopping
  | goesOnStopping stage work stopping =>
    exact h.stopping (h.first stage rfl) stage (h.ending stage rfl) (h.held stage rfl) stopping
  | goesOnReaping stage_ reaps reaping =>
    obtain rfl | ⟨deadline, rfl⟩ := reaps
    · exact h.reaping (h.first stage_ rfl) Connection.Kept.ages stage_ (h.ending stage_ rfl)
        (h.held stage_ rfl) reaping
    · exact h.reaping (h.first stage_ rfl) Connection.Kept.ages stage_ (h.ending stage_ rfl)
        (h.held stage_ rfl) reaping

theorem settles (h : s.Gated) {lifecycle : Lifecycle} (hs : Settles s lifecycle) :
    Gated { s with lifecycle } := by
  cases hs with
  | same => exact h
  | @crashed c reason ready closed =>
    -- nobody is at the gate while the session is ready
    have hnobody {j : Nat} {stage : Stage} (hj : s.stage? j = some stage) :
        stage.isStarting = false ∧ stage.isEnding = false := by
      constructor
      · by_contra hstarting
        have hlifecycle := (h.starting hj (by simpa using hstarting)).1
        rw [ready] at hlifecycle
        cases hlifecycle
      · by_contra hending
        have hlifecycle := h.ending hj (by simpa using hending)
        rw [ready] at hlifecycle
        cases hlifecycle
    constructor
    case nodup => exact h.nodup
    case waits => exact h.waits
    case first => exact h.first
    case starting =>
      intro j stage hj hstarting
      rw [(hnobody hj).1] at hstarting
      cases hstarting
    case ending =>
      intro j stage hj hending
      rw [(hnobody hj).2] at hending
      cases hending
    case held => exact h.held
    case ready =>
      intro d hd
      cases hd
    case hale => exact h.hale

theorem not_mem_length (h : s.Gated) : s.tasks.length ∉ s.gate := by
  intro hmem
  obtain ⟨stage, hstage, -⟩ := h.waits hmem
  simp [stage?] at hstage

theorem newcomer (h : s.Gated) (w : Work) {gate : List Nat}
    (hgate : gate = s.gate ∨ gate = s.gate ++ [s.tasks.length]) :
    Gated { s with tasks := s.tasks ++ [(⟨w, .queued⟩ : Task)], gate } := by
  have hne {j : Nat} {stage : Stage} (hj : s.stage? j = some stage) : j ≠ s.tasks.length := by
    rintro rfl
    simp [stage?] at hj
  have hlast := h.not_mem_length
  constructor
  case nodup =>
    obtain rfl | rfl := hgate
    · exact h.nodup
    · rw [List.nodup_append]
      exact ⟨h.nodup, by simp, fun j hj k hk => by
        rw [List.mem_singleton.mp hk]
        exact fun heq => hlast (heq ▸ hj)⟩
  case waits =>
    intro j hj
    change ∃ stage, (s.added w).stage? j = some stage ∧ _
    rw [stage?_added]
    split
    · exact ⟨.queued, rfl, .inl rfl⟩
    · rename_i hjne
      refine h.waits ?_
      obtain rfl | rfl := hgate
      · exact hj
      · exact (List.mem_append.mp hj).resolve_right fun hmem => hjne (List.mem_singleton.mp hmem)
  case first =>
    intro j stage hj hholds
    have hfirst := h.first (stage?_of_added hj (by rintro rfl; cases hholds)) hholds
    obtain rfl | rfl := hgate
    · exact hfirst
    · rw [List.head?_append, hfirst]
      rfl
  case starting =>
    intro j stage hj hstarting
    have hj := stage?_of_added hj (by rintro rfl; cases hstarting)
    obtain ⟨hlifecycle, hwork⟩ := h.starting hj hstarting
    refine ⟨hlifecycle, fun r hr => hwork r ?_⟩
    have hr : (s.added w).work? j = some (.shutdown r) := hr
    rwa [work?_added, if_neg (hne hj)] at hr
  case ending =>
    intro j stage hj hending
    exact h.ending (stage?_of_added hj (by rintro rfl; cases hending)) hending
  case held =>
    intro j stage d hj hd
    exact h.held (stage?_of_added hj (by rintro rfl; cases hd)) hd
  case ready => exact h.ready
  case hale => exact h.hale

theorem joined (h : s.Gated) {w : Work} {lifecycle : Lifecycle} (hs : Settles s lifecycle) :
    (s.joined w lifecycle).Gated :=
  (h.settles hs).newcomer w (.inr rfl)

theorem head?_filter_ne {gate : List Nat} {j : Nat} (h : gate.head? = some j) (hj : j ≠ i) :
    (gate.filter (· != i)).head? = some j := by
  cases gate with
  | nil => cases h
  | cons k gate =>
    obtain rfl : k = j := Option.some.inj h
    simp [hj]

/-- An operation comes to its end wherever it is, and the turn passes on. -/
theorem retires (h : s.Gated) (haged : s.Aged s') (htasks : s'.tasks = s.tasks)
    (hgate : s'.gate = s.gate) (hlifecycle : s'.lifecycle = s.lifecycle) {stage : Stage}
    (hholds : stage.holdsGate = false) (hconnection : stage.connection? = none) :
    ((s'.setStage i stage).leaveGate i).Gated := by
  have hstage (j : Nat) : ((s'.setStage i stage).leaveGate i).stage? j =
      if j = i then (s.stage? i).map fun _ => stage else s.stage? j :=
    stage?_setStage_of_tasks htasks i j stage
  have hwork (j : Nat) : ((s'.setStage i stage).leaveGate i).work? j = s.work? j :=
    work?_setStage_of_tasks htasks i j stage
  -- everybody else is where it was, and the operation itself is nowhere
  have hother {j : Nat} {t : Stage} (hj : ((s'.setStage i stage).leaveGate i).stage? j = some t)
      (ht : t ≠ stage) : j ≠ i ∧ s.stage? j = some t := by
    rw [hstage] at hj
    split at hj
    · obtain ⟨_, -, hsame⟩ := Option.map_eq_some_iff.mp hj
      exact absurd hsame.symm ht
    · rename_i hne
      exact ⟨hne, hj⟩
  have hne {t : Stage} (ht : t.holdsGate = true) : t ≠ stage := by
    rintro rfl
    rw [hholds] at ht
    cases ht
  constructor
  case nodup => exact (hgate ▸ h.nodup).filter _
  case waits =>
    intro j hj
    obtain ⟨hj, hji⟩ := List.mem_filter.mp hj
    rw [hstage, if_neg (by simpa using hji)]
    exact h.waits (hgate ▸ hj)
  case first =>
    intro j t hj ht
    obtain ⟨hji, hj⟩ := hother hj (hne ht)
    exact head?_filter_ne (hgate ▸ h.first hj ht) hji
  case starting =>
    intro j t hj ht
    rw [hwork]
    have hgates := Stage.holdsGate_of_isStarting ht
    obtain ⟨hlife, hwork⟩ := h.starting (hother hj (hne hgates)).2 ht
    exact ⟨hlifecycle.trans hlife, hwork⟩
  case ending =>
    intro j t hj ht
    have hgates := Stage.holdsGate_of_isEnding ht
    exact hlifecycle.trans (h.ending (hother hj (hne hgates)).2 ht)
  case held =>
    intro j t d hj hd
    have ht : t ≠ stage := by
      rintro rfl
      rw [hconnection] at hd
      cases hd
    exact haged.holds (h.held (hother hj ht).2 hd)
  case ready =>
    intro d hd
    exact haged.holds (h.ready (hlifecycle.symm.trans hd))
  case hale => exact fun hk hreleased => h.hale_of_aged haged hk hreleased

theorem begins (h : s.Gated) {w : Work} (hs : Begins m w s s') : s'.Gated := by
  have hadded : (s.added w).Gated := h.newcomer w (.inl rfl)
  cases hs with
  | @refused r =>
    have hretired : (((s.added w).finish s.tasks.length r).leaveGate s.tasks.length).Gated :=
      hadded.retires (.refl _) rfl rfl rfl rfl rfl
    have hgate : s.gate.filter (· != s.tasks.length) = s.gate := by
      apply List.filter_eq_self.mpr
      intro j hj
      exact bne_iff_ne.mpr (ne_of_mem_of_not_mem hj h.not_mem_length)
    exact hretired.aged (.refl _) rfl hgate.symm rfl
  | served work serving serves =>
    exact hadded.works h.not_mem_length (h.ready serving.ready) serves.toWorks
  | queues settles busy => exact h.joined settles
  | turns settles free outcome => exact (h.joined settles).outcome outcome

theorem tidy (h : s.Gated) : s.tidy.Gated := by
  -- only connections that nobody holds are let go
  have hholds {c : Nat} {established : Bool} (hc : s.Holds c established)
      (hheld : s.isHeld c = true) : s.tidy.Holds c established := by
    obtain ⟨k, hk, hkeep⟩ := hc
    refine ⟨k.reap, ?_, ?_⟩
    · rw [connection?_tidy, hk, Option.map_some, if_pos hheld]
    · rw [k.kept_reap.released, k.kept_reap.established]
      exact hkeep
  constructor
  case nodup => exact h.nodup
  case waits => exact h.waits
  case first => exact h.first
  case starting => exact h.starting
  case ending => exact h.ending
  case held =>
    intro j stage d hj hd
    exact hholds (h.held hj hd) ((isHeld_iff s d).mpr (.inr ⟨j, stage, hj, hd⟩))
  case ready =>
    intro d hd
    exact hholds (h.ready hd) ((isHeld_iff s d).mpr (.inl hd))
  case hale =>
    intro c k hk hreleased
    rw [connection?_tidy] at hk
    obtain ⟨k₀, hk₀, rfl⟩ := Option.map_eq_some_iff.mp hk
    split at hreleased
    · rename_i hheld
      rw [k₀.kept_reap.released] at hreleased
      rw [if_pos hheld, k₀.kept_reap.link]
      exact h.hale hk₀ hreleased
    · rw [Connection.released_release] at hreleased
      cases hreleased

theorem setLink (h : s.Gated) {k : Connection} (hk : s.connection? c = some k) {l : Link}
    (hl : k.link.Ages l) : (s.setLink c l).Gated :=
  h.aged (aged_setLink hk hl) rfl rfl rfl

theorem step_gated (h : s.Gated) {e : Event} (hs : Step s e s') : s'.Gated := by
  cases hs with
  | nothing => exact h
  | begins begins => exact (h.begins begins).tidy
  | resumes outcome => exact (h.outcome outcome).tidy
  | @cancels i stage ks stage_ left =>
    have haged : s.Aged { s with connections := ks } := aged_of_left left
    have hretired : ((Session.setStage { s with connections := ks } i .dropped).leaveGate i).Gated :=
      h.retires haged rfl rfl rfl rfl rfl
    exact hretired.tidy
  | settles settles => exact (h.settles settles).tidy
  | tells serving told =>
    exact (h.aged (aged_of_connections Connection.Used.ages told) rfl rfl rfl).tidy
  | reads connection read => exact (h.setLink connection (Link.ages_readNext? read)).tidy
  | writes connection write => exact h.setLink connection (Link.ages_writeNext? write)
  | receives connection => exact h.setLink connection (Link.ages_of_same rfl rfl rfl)
  | endsInput connection => exact h.setLink connection (Link.ages_of_same rfl rfl rfl)
  | tidies => exact h.tidy

theorem new (language : String) (server : Setup.Server) (timeouts : Setup.Timeouts)
    (processId : Nat) (rootUri : String) :
    (new language server timeouts processId rootUri).Gated := by
  constructor <;> simp [Session.new, stage?, connection?]

theorem step (h : s.Gated) (e : Event) : Step s e (s.step e) ∧ (s.step e).Gated := by
  have hs : Step s e (s.step e) := step_step (fun i c call r hi => (h.starting hi rfl).2 r) e
  exact ⟨hs, h.step_gated hs⟩

theorem run (h : s.Gated) (es : List Event) : (s.run es).Gated := by
  induction es using List.reverseRecOn with
  | nil => exact h
  | append_singleton es e ih =>
    rw [run_append_one]
    exact (ih.step e).2

end Gated
end LanguageClient.Session
