import LanguageClient.Proofs.Session.Recovery
import LanguageClient.Proofs.Session.Trail
import LanguageClient.Proofs.Session.Transient

namespace LanguageClient

namespace Status

/-- A server can be started from here. -/
def isIdle : Status → Bool
  | notStarted | stopped | startFailed _ | crashed _ => true
  | starting | awaitingAnswer | ready | shuttingDown => false

/-- The ways that there are from one status to another. -/
def leadsTo : Status → Status → Bool
  | a, starting => a.isIdle
  | starting, awaitingAnswer | starting, startFailed _ => true
  | awaitingAnswer, ready | awaitingAnswer, startFailed _ => true
  | ready, crashed _ => true
  | a, shuttingDown => a.isIdle || a.isReady
  | shuttingDown, notStarted | shuttingDown, stopped => true
  | _, _ => false

theorem leadsTo_starting (a : Status) : a.leadsTo starting = a.isIdle := by
  cases a <;> rfl

theorem leadsTo_shuttingDown (a : Status) :
    a.leadsTo shuttingDown = (a.isIdle || a.isReady) := by
  cases a <;> rfl

end Status

namespace Session

/-- A session passes through these to the last of them, and its status changes at most once from one
to the next. -/
inductive Passing : Session → List Session → Session → Prop
  | ends {s : Session} : Passing s [] s
  | goesOn {s s₁ s' : Session} {l : List Session}
      (change : s₁.status = s.status ∨ s.status.leadsTo s₁.status = true)
      (rest : Passing s₁ l s') : Passing s (s₁ :: l) s'

namespace Passing

variable {s s₁ s' s'' : Session} {l l' : List Session}

theorem stays (h : s₁.status = s.status) (rest : Passing s₁ l s') : Passing s (s₁ :: l) s' :=
  .goesOn (.inl h) rest

theorem moves (h : s.status.leadsTo s₁.status = true) (rest : Passing s₁ l s') :
    Passing s (s₁ :: l) s' :=
  .goesOn (.inr h) rest

theorem append (h : Passing s l s') (h' : Passing s' l' s'') : Passing s (l ++ l') s'' := by
  induction h with
  | ends => exact h'
  | goesOn change _ ih => exact .goesOn change (ih h')

theorem isChain (h : Passing s l s') : (s :: l).IsChain fun a b =>
    b.status = a.status ∨ a.status.leadsTo b.status = true := by
  induction h with
  | ends => exact .singleton _
  | goesOn change _ ih => exact .cons_cons change ih

theorem getLast? (h : Passing s l s') : (s :: l).getLast? = some s' := by
  induction h with
  | ends => rfl
  | goesOn _ _ ih => rw [List.getLast?_cons_cons, ih]

end Passing

section Status

variable {s s' : Session} {m : Moment} {i c : Nat}

/-- The status hangs on the lifecycle, and on whether the connection in use has closed. -/
theorem status_congr (hlanguage : s'.language = s.language) (hlifecycle : s'.lifecycle = s.lifecycle)
    (hclosing : ∀ c, s.lifecycle = .ready c →
      (s'.connection? c).bind (·.link.closing?) = (s.connection? c).bind (·.link.closing?)) :
    s'.status = s.status := by
  unfold status
  rw [hlifecycle]
  cases hready : s.lifecycle with
  | ready c => simp only [hclosing c hready, crashReason, hlanguage]
  | notStarted | starting | awaitingAnswer | shuttingDown | stopped | startFailed | crashed => rfl

theorem status_of_unready (hlifecycle : s'.lifecycle = s.lifecycle)
    (hunready : ∀ c, s.lifecycle ≠ .ready c) : s'.status = s.status := by
  unfold status
  rw [hlifecycle]
  cases hready : s.lifecycle with
  | ready c => exact absurd hready (hunready c)
  | notStarted | starting | awaitingAnswer | shuttingDown | stopped | startFailed | crashed => rfl

theorem Works.status (h : Works i c s s') : s'.status = s.status := by
  refine status_congr (by rw [h.rest]) h.lifecycle fun d _ => ?_
  by_cases hd : d = c
  · subst hd
    cases hk : s.connection? d with
    | none =>
      have hlong : s'.connections.length ≤ d :=
        h.connections.length ▸ List.getElem?_eq_none_iff.mp hk
      rw [show s'.connection? d = none from List.getElem?_eq_none hlong]
    | some k =>
      obtain ⟨k', hk', hused⟩ := h.connections.this k hk
      rw [show s'.connection? d = some k' from hk']
      exact hused.link.closing
  · rw [show s'.connection? d = s.connection? d from h.connections.others d hd]

theorem status_tidy (s : Session) : s.tidy.status = s.status := by
  refine status_congr rfl rfl fun c hready => ?_
  cases hk : s.connection? c with
  | none => rw [connection?_tidy, hk, Option.map_none]
  | some k =>
    rw [connection?_tidy_of_ready hready hk]
    exact congrArg Link.closing? k.kept_reap.link

theorem Settles.status {lifecycle : Lifecycle} (h : Settles s lifecycle) :
    Session.status { s with lifecycle } = s.status := by
  cases h with
  | same => rfl
  | crashed ready closed => simp only [Session.status, ready, closed]

theorem serving_of_status (h : s.status = .ready) : ∃ c, s.Serving c := by
  unfold Session.status at h
  cases hready : s.lifecycle with
  | ready c =>
    cases hclosing : (s.connection? c).bind (·.link.closing?) with
    | none => exact ⟨c, hready, hclosing⟩
    | some reason => simp only [hready, hclosing, reduceCtorEq] at h
  | notStarted | starting | awaitingAnswer | shuttingDown | stopped | startFailed | crashed =>
    simp only [hready, reduceCtorEq] at h

theorem status_live? (s : Session) : s.live?.2.status = s.status := by
  obtain ⟨c, -, hlive⟩ | ⟨-, lifecycle, hsettles, hlive⟩ := s.live?_cases
  · rw [hlive]
  · rw [hlive]
    exact hsettles.status

theorem live?_eq_some_iff : s.live?.1 = some c ↔ s.Serving c := by
  constructor
  · intro h
    obtain ⟨d, hserving, hlive⟩ | ⟨-, lifecycle, -, hlive⟩ := s.live?_cases
    · rw [hlive] at h
      cases h
      exact hserving
    · rw [hlive] at h
      cases h
  · intro h
    rw [live?_of_serving h]

theorem Aged.leadsTo (h : s.Aged s') (hlanguage : s'.language = s.language)
    (hlifecycle : s'.lifecycle = s.lifecycle) :
    s'.status = s.status ∨ s.status.leadsTo s'.status = true := by
  by_cases hready : ∃ c, s.Serving c
  · obtain ⟨c, hserving⟩ := hready
    have hready' : s'.lifecycle = .ready c := hlifecycle.trans hserving.ready
    rw [status_of_serving hserving]
    cases hclosing : (s'.connection? c).bind (·.link.closing?) with
    | none => exact .inl (status_of_serving ⟨hready', hclosing⟩)
    | some reason =>
      right
      simp only [Session.status, hready', hclosing]
      rfl
  · left
    refine status_congr hlanguage hlifecycle fun c hc => ?_
    -- the connection in use has closed already, and keeps the reason that it closed with
    cases hclosing : (s.connection? c).bind (·.link.closing?) with
    | none => exact absurd ⟨c, hc, hclosing⟩ hready
    | some reason =>
      obtain ⟨k, hk, hclosed⟩ := Option.bind_eq_some_iff.mp hclosing
      obtain ⟨k', hk', hages⟩ := h.fore hk
      rw [hk', Option.bind_some]
      obtain hsame | hopen := hages.link.closing
      · exact hsame.trans hclosed
      · rw [hclosed] at hopen
        cases hopen

end Status

section Passing

variable {s : Session} {m : Moment} {i c : Nat}

theorem works_serve (s : Session) (m : Moment) (i c : Nat) : Works i c s (s.serve m i c) := by
  by_cases hshutdown : ∃ r, s.work? i = some (.shutdown r)
  · obtain ⟨r, hr⟩ := hshutdown
    unfold serve
    rw [hr]
    exact .refl i c s
  · exact (Serves.serve fun r hr => hshutdown ⟨r, hr⟩).toWorks

theorem passing_failStart (h : s.lifecycle = .awaitingAnswer) (f : Failure) :
    Passing s (s.failStartTrail i c f) (s.failStart i c f) := by
  unfold failStartTrail failStart
  extract_lets reason closed failed
  have hclosed : closed.status = s.status :=
    status_of_unready rfl (by simp [h])
  have hfailed : closed.status.leadsTo failed.status = true := by
    rw [hclosed, status, h]
    rfl
  exact .stays hclosed (.moves hfailed (.stays rfl (.stays rfl .ends)))

theorem opened_of_notify {n : Notice} {r : Unit} {told : Session}
    (h : s.notify c n = (.ok r, told)) : (told.connection? c).bind (·.link.closing?) = none := by
  cases hk : s.connection? c with
  | none =>
    unfold notify at h
    rw [hk] at h
    cases h
  | some k =>
    rw [notify_of_connection hk] at h
    obtain ⟨hok, rfl⟩ := Prod.mk.inj h
    unfold setLink
    rw [connection?_updateConnection, if_pos rfl, hk]
    refine (k.link.used_notify n.method (some n.params)).closing.trans ?_
    cases hclosing : k.link.closing? with
    | none => rfl
    | some reason =>
      unfold Link.notify at hok
      rw [hclosing] at hok
      cases hok

theorem passing_establish (h : s.lifecycle = .awaitingAnswer) (result : Json) :
    Passing s (s.establishTrail m i c result) (s.establish m i c result) := by
  have htold : Works i c s (s.notify c ⟨"initialized", .ofFields []⟩).2 := .notify _
  unfold establishTrail establish
  rcases hnotify : s.notify c ⟨"initialized", .ofFields []⟩ with ⟨f | r, told⟩
  all_goals
    rw [hnotify] at htold
    have hlifecycle : told.lifecycle = .awaitingAnswer := htold.lifecycle.trans h
  · exact .stays htold.status (passing_failStart hlifecycle f)
  · let answered := told.updateConnection c fun k =>
      { k with abilities := Abilities.ofHandshake result, established := true }
    let ready := { answered with lifecycle := .ready c }
    have hanswered : answered.status = told.status :=
      status_of_unready rfl (by simp [hlifecycle])
    have hconnection : answered.connection? c = (told.connection? c).map fun k =>
        { k with abilities := Abilities.ofHandshake result, established := true } := by
      rw [show answered = told.updateConnection c _ from rfl, connection?_updateConnection,
        if_pos rfl]
    -- the notice got through, so the connection is open when it is taken for ready
    have hopened : (ready.connection? c).bind (·.link.closing?) = none := by
      have htold := opened_of_notify hnotify
      rw [show ready.connection? c = answered.connection? c from rfl, hconnection]
      cases hk : told.connection? c with
      | none => rfl
      | some k =>
        rw [hk] at htold
        exact htold
    have hready : ready.Serving c := ⟨rfl, hopened⟩
    have hmoves : answered.status.leadsTo ready.status = true := by
      rw [hanswered, status, hlifecycle, status_of_serving hready]
      rfl
    have hserve := works_serve (ready.leaveGate i) m i c
    exact .stays htold.status
      (.stays hanswered (.moves hmoves (.stays rfl (.stays hserve.status .ends))))

theorem passing_checkHandshake (h : s.lifecycle = .awaitingAnswer) (call : Call) :
    Passing s (s.checkHandshakeTrail m i c call) (s.checkHandshake m i c call) := by
  have hpolled : Works i c s (s.pollCall m c call).2 := .pollCall call
  unfold checkHandshakeTrail checkHandshake
  rcases hpoll : s.pollCall m c call with ⟨_ | (f | result), polled⟩
  all_goals
    rw [hpoll] at hpolled
    have hlifecycle : polled.lifecycle = .awaitingAnswer := hpolled.lifecycle.trans h
  · exact .stays hpolled.status (.stays rfl .ends)
  · exact .stays hpolled.status (passing_failStart hlifecycle f)
  · exact .stays hpolled.status (passing_establish hlifecycle result)

theorem passing_greet (h : s.lifecycle = .awaitingAnswer) : Passing s (s.greetTrail m i c)
    (match s.call m c (seconds s.timeouts.handshake) "initialize"
        (some (Params.handshake s.processId s.rootUri)) with
      | (.error f, called) => called.failStart i c f
      | (.ok call, called) => called.checkHandshake m i c call) := by
  have hcalled : Works i c s (s.call m c (seconds s.timeouts.handshake) "initialize"
    (some (Params.handshake s.processId s.rootUri))).2 := .call _ _ _
  unfold greetTrail
  rcases hcall : s.call m c (seconds s.timeouts.handshake) "initialize"
    (some (Params.handshake s.processId s.rootUri)) with ⟨f | call, called⟩
  all_goals
    rw [hcall] at hcalled
    have hlifecycle : called.lifecycle = .awaitingAnswer := hcalled.lifecycle.trans h
  · exact .stays hcalled.status (passing_failStart hlifecycle f)
  · exact .stays hcalled.status (passing_checkHandshake hlifecycle call)

theorem passing_start (h : s.status.isIdle = true) :
    Passing s (s.startTrail m i) (s.start m i) := by
  unfold startTrail start
  extract_lets starting
  have hstarting : s.status.leadsTo starting.status = true :=
    (Status.leadsTo_starting _).trans h
  cases m.launch with
  | error f => exact .moves hstarting (.moves rfl (.stays rfl (.stays rfl .ends)))
  | ok hasProcess =>
    let c := s.connections.length
    let k : Connection :=
      { link := Link.start s.language, process := if hasProcess then .attached else .absent }
    let launched := { starting with connections := s.connections ++ [k] }
    let awaiting := { launched with lifecycle := .awaitingAnswer }
    have hgreet : Passing awaiting (awaiting.greetTrail m i c) _ := passing_greet rfl
    have hawaiting : Passing launched (awaiting :: awaiting.greetTrail m i c) _ :=
      .moves rfl hgreet
    have hlaunched : Passing starting (launched :: awaiting :: awaiting.greetTrail m i c) _ :=
      .stays rfl hawaiting
    exact .moves hstarting hlaunched

theorem passing_finishShutdown (h : s.lifecycle = .shuttingDown) (restartable : Bool) :
    Passing s (s.finishShutdownTrail i restartable) (s.finishShutdown i restartable) := by
  unfold finishShutdownTrail finishShutdown
  extract_lets ended
  have hended : s.status.leadsTo ended.status = true := by
    rw [status, h]
    cases restartable <;> rfl
  exact .moves hended (.stays rfl (.stays rfl .ends))

theorem passing_checkKilling (h : s.lifecycle = .shuttingDown) (restartable : Bool) :
    Passing s (s.checkKillingTrail m i restartable c) (s.checkKilling m i restartable c) := by
  unfold checkKillingTrail checkKilling
  split
  · exact passing_finishShutdown h restartable
  · exact .stays rfl .ends

theorem passing_checkReaping (h : s.lifecycle = .shuttingDown) (restartable : Bool)
    (deadline : Nat) : Passing s (s.checkReapingTrail m i restartable c deadline)
      (s.checkReaping m i restartable c deadline) := by
  unfold checkReapingTrail checkReaping
  split
  · exact passing_finishShutdown h restartable
  · split
    · exact .stays rfl .ends
    · extract_lets killed
      have hkilled : killed.lifecycle = .shuttingDown := h
      exact .stays (status_of_unready rfl (by simp [h])) (passing_checkKilling hkilled restartable)

theorem passing_closeUp (h : s.lifecycle = .shuttingDown) (restartable : Bool) :
    Passing s (s.closeUpTrail m i restartable c) (s.closeUp m i restartable c) := by
  unfold closeUpTrail closeUp
  extract_lets closed taken
  have hclosed : closed.lifecycle = .shuttingDown := h
  have htaken : taken.lifecycle = .shuttingDown := h
  refine .stays (status_of_unready rfl (by simp [h])) ?_
  rcases closed.process? c with _ | _ | _ | _
  · exact passing_finishShutdown hclosed restartable
  · exact passing_finishShutdown hclosed restartable
  · exact .stays (status_of_unready rfl (by simp [hclosed]))
      (passing_checkReaping htaken restartable _)
  · exact passing_finishShutdown hclosed restartable

theorem lifecycle_tellExit (s : Session) (c : Nat) : (s.tellExit c).lifecycle = s.lifecycle := by
  unfold tellExit
  split <;> rfl

theorem passing_checkStopping (h : s.lifecycle = .shuttingDown) (restartable : Bool)
    (call : Call) : Passing s (s.checkStoppingTrail m i restartable c call)
      (s.checkStopping m i restartable c call) := by
  have hpolled : Works i c s (s.pollCall m c call).2 := .pollCall call
  unfold checkStoppingTrail checkStopping
  rcases hpoll : s.pollCall m c call with ⟨_ | (f | result), polled⟩
  all_goals
    rw [hpoll] at hpolled
    have hlifecycle : polled.lifecycle = .shuttingDown := hpolled.lifecycle.trans h
  · exact .stays hpolled.status (.stays rfl .ends)
  · exact .stays hpolled.status (passing_closeUp hlifecycle restartable)
  · have htold : (polled.tellExit c).lifecycle = .shuttingDown :=
      (lifecycle_tellExit polled c).trans hlifecycle
    have hstatus : (polled.tellExit c).status = polled.status :=
      status_of_unready (lifecycle_tellExit polled c) (by simp [hlifecycle])
    exact .stays hpolled.status (.stays hstatus (passing_closeUp htold restartable))

theorem isIdle_or_isReady (h : s.lifecycle.isTransient = false) :
    (s.status.isIdle || s.status.isReady) = true := by
  unfold status
  cases hlifecycle : s.lifecycle with
  | ready c =>
    cases hclosing : (s.connection? c).bind (·.link.closing?) <;>
      simp only [hclosing] <;> rfl
  | notStarted | stopped | startFailed | crashed => rfl
  | starting | awaitingAnswer | shuttingDown => rw [hlifecycle] at h; cases h

theorem passing_stop (h : s.lifecycle.isTransient = false) (restartable : Bool) :
    Passing s (s.stopTrail m i restartable) (s.stop m i restartable) := by
  unfold stopTrail stop
  extract_lets stopping before
  have hlifecycle : stopping.lifecycle = .shuttingDown := rfl
  have hmoves : s.status.leadsTo stopping.status = true :=
    (Status.leadsTo_shuttingDown _).trans (isIdle_or_isReady h)
  refine .moves hmoves ?_
  cases hbefore : s.lifecycle with
  | ready c =>
    have hcalled : Works i c stopping (stopping.call m c (seconds stopping.timeouts.shutdown)
      "shutdown" none).2 := .call _ _ _
    simp only [before, hbefore]
    split
    · exact passing_closeUp hlifecycle restartable
    · rcases hcall : stopping.call m c (seconds stopping.timeouts.shutdown) "shutdown" none with
        ⟨f | call, called⟩
      all_goals
        rw [hcall] at hcalled
        have hlifecycle' : called.lifecycle = .shuttingDown := hcalled.lifecycle
      · exact .stays hcalled.status (passing_closeUp hlifecycle' restartable)
      · exact .stays hcalled.status (passing_checkStopping hlifecycle' restartable call)
  | notStarted | starting | awaitingAnswer | shuttingDown | stopped | startFailed | crashed =>
    simp only [before, hbefore]
    exact passing_finishShutdown hlifecycle restartable

theorem passing_serveOrStart (h : s.lifecycle.isTransient = false) :
    Passing s (s.serveOrStartTrail m i)
      (match s.live? with
        | (some c, live) => (live.leaveGate i).serve m i c
        | (none, settled) => settled.start m i) := by
  unfold serveOrStartTrail
  obtain ⟨c, hserving, hlive⟩ | ⟨halone, lifecycle, hsettles, hlive⟩ := s.live?_cases
  · rw [hlive]
    exact .stays rfl (.stays rfl (.stays (works_serve _ m i c).status .ends))
  · rw [hlive]
    refine .stays hsettles.status (passing_start ?_)
    rw [hsettles.status]
    have hidle := isIdle_or_isReady h
    cases hready : s.status with
    | ready =>
      obtain ⟨c, hserving⟩ := serving_of_status hready
      exact absurd hserving (halone c)
    | notStarted | stopped | startFailed | crashed => rfl
    | starting | awaitingAnswer | shuttingDown => rw [hready] at hidle; cases hidle

theorem passing_takeTurn (h : s.lifecycle.isTransient = false) :
    Passing s (s.takeTurnTrail m i) (s.takeTurn m i) := by
  unfold takeTurnTrail takeTurn
  rcases s.work? i with _ | (_ | _ | restartable)
  · exact passing_serveOrStart h
  · exact passing_serveOrStart h
  · exact passing_serveOrStart h
  · exact passing_stop h restartable

theorem passing_enterGate (h : s.gate = [] → s.lifecycle.isTransient = false) :
    Passing s (s.enterGateTrail m i) (s.enterGate m i) := by
  unfold enterGateTrail enterGate
  extract_lets entered free
  refine .stays rfl ?_
  cases hfree : s.gate.isEmpty with
  | true =>
    have hsettled : entered.lifecycle.isTransient = false := h (List.isEmpty_iff.mp hfree)
    simp only [free, hfree, if_true]
    exact passing_takeTurn hsettled
  | false =>
    simp only [free, hfree, Bool.false_eq_true, if_false]
    exact .ends

theorem passing_serveOrEnter (h : s.gate = [] → s.lifecycle.isTransient = false) :
    Passing s (s.serveOrEnterTrail m i)
      (match s.live? with
        | (some c, live) => live.serve m i c
        | (none, settled) => settled.enterGate m i) := by
  unfold serveOrEnterTrail
  obtain ⟨c, hserving, hlive⟩ | ⟨halone, lifecycle, hsettles, hlive⟩ := s.live?_cases
  · rw [hlive]
    exact .stays rfl (.stays (works_serve s m i c).status .ends)
  · rw [hlive]
    refine .stays hsettles.status (passing_enterGate fun hgate => ?_)
    cases hsettles with
    | same => exact h hgate
    | crashed => rfl

/-- The order at the gate, where nobody has been dropped. -/
structure Attentive (s : Session) : Prop where
  gated : s.Gated
  attended : s.lifecycle.isTransient = true → s.Attended

theorem Attentive.settled (h : s.Attentive) (turn : s.HasTurn i) :
    s.lifecycle.isTransient = false := by
  by_contra ht
  -- who attends a lifecycle on its way is first at the gate too, but no longer queued
  obtain ⟨j, stage, hfirst, hstage, hattends⟩ := h.attended (by simpa using ht)
  obtain rfl : i = j := Option.some.inj (turn.first.symm.trans hfirst)
  obtain rfl : stage = .queued := Option.some.inj (hstage.symm.trans turn.stage)
  have hholds := Stage.holdsGate_of_attends hattends
  cases hholds

theorem Attentive.settled_of_free (h : s.Attentive) (hgate : s.gate = []) :
    s.lifecycle.isTransient = false := by
  by_contra ht
  obtain ⟨j, -, hfirst, -⟩ := h.attended (by simpa using ht)
  rw [hgate] at hfirst
  cases hfirst

theorem passing_stretch (h : s.Attentive) :
    Passing s (s.stretchTrail m i) (s.stretch m i) := by
  unfold stretchTrail stretch
  cases ht : s.tasks[i]? with
  | none => exact .ends
  | some t =>
    obtain ⟨work, stage⟩ := t
    have hstage : s.stage? i = some stage := by simp [stage?, ht]
    cases stage with
    | queued =>
      show Passing s (if _ then _ else _) (if _ then _ else _)
      split
      · rename_i hfirst
        exact passing_takeTurn (h.settled ⟨hstage, hfirst⟩)
      · exact .ends
    | handshaking c call => exact passing_checkHandshake (h.gated.starting hstage rfl).1 call
    | reading c uri =>
      cases work with
      | query path q =>
        exact .stays (Serves.afterReading path q uri).toWorks.status .ends
      | «open» | shutdown => exact .ends
    | asking c call =>
      cases work with
      | query path q => exact .stays (Serves.checkAsking q call).toWorks.status .ends
      | «open» | shutdown => exact .ends
    | stopping c call =>
      cases work with
      | shutdown r => exact passing_checkStopping (h.gated.ending hstage rfl) r call
      | «open» | query => exact .ends
    | reaping c deadline =>
      cases work with
      | shutdown r => exact passing_checkReaping (h.gated.ending hstage rfl) r deadline
      | «open» | query => exact .ends
    | killing c =>
      cases work with
      | shutdown r => exact passing_checkKilling (h.gated.ending hstage rfl) r
      | «open» | query => exact .ends
    | done | dropped => exact .ends

theorem passing_begin (h : s.Attentive) (w : Work) :
    Passing s (s.beginTrail m w) (s.begin m w) := by
  have hfree : (s.added w).gate = [] → (s.added w).lifecycle.isTransient = false :=
    h.settled_of_free
  cases w with
  | shutdown r =>
    exact .stays rfl ((passing_enterGate hfree).append (.stays (status_tidy _) .ends))
  | «open» path text =>
    refine .stays rfl ?_
    unfold begin
    dsimp only
    split
    · exact .stays rfl (.stays (status_tidy _) .ends)
    · exact (passing_serveOrEnter hfree).append (.stays (status_tidy _) .ends)
  | query path q =>
    exact .stays rfl ((passing_serveOrEnter hfree).append (.stays (status_tidy _) .ends))

theorem passing_tell (s : Session) (c : Nat) (told : Option (Notice × OpenDocuments)) :
    Passing s (s.tellTrail c told)
      (match told with
        | none => s
        | some (notice, documents) =>
          ((s.updateConnection c fun k => { k with documents }).notify c notice).2).tidy := by
  cases told with
  | none => exact .stays rfl (.stays (status_tidy s) .ends)
  | some told =>
    obtain ⟨notice, documents⟩ := told
    have hkept : Works 0 c s (s.updateConnection c fun k => { k with documents }) :=
      .updateConnection fun k _ => ⟨.refl _, rfl, rfl, rfl, rfl, rfl⟩
    have hsent : Works 0 c (s.updateConnection c fun k => { k with documents })
        ((s.updateConnection c fun k => { k with documents }).notify c notice).2 := .notify notice
    exact .stays rfl (.stays hkept.status (.stays hsent.status (.stays (status_tidy _) .ends)))

theorem passing_change (path : Path) (text : String) :
    Passing s (s.changeTrail path text) (s.change path text).2 := by
  unfold changeTrail change
  obtain ⟨c, hserving, hlive⟩ | ⟨halone, lifecycle, hsettles, hlive⟩ := s.live?_cases
  · rw [hlive]
    dsimp only
    rcases (s.connection? c).bind (·.documents.change? path text) with _ | ⟨notice, documents⟩
    · exact passing_tell s c none
    · exact passing_tell s c (some (notice, documents))
  · rw [hlive]
    exact .stays hsettles.status (.stays (status_tidy _) .ends)

theorem passing_close (path : Path) : Passing s (s.closeTrail path) (s.close path) := by
  unfold closeTrail close
  obtain ⟨c, hserving, hlive⟩ | ⟨halone, lifecycle, hsettles, hlive⟩ := s.live?_cases
  · rw [hlive]
    dsimp only
    rcases (s.connection? c).bind (·.documents.close? path) with _ | ⟨notice, documents⟩
    · exact passing_tell s c none
    · exact passing_tell s c (some (notice, documents))
  · rw [hlive]
    exact .stays hsettles.status (.stays (status_tidy _) .ends)

theorem passing_setLink {k : Connection} {l : Link} (hk : s.connection? c = some k)
    (hl : k.link.Ages l) : Passing s [s.setLink c l] (s.setLink c l) :=
  .goesOn ((aged_setLink hk hl).leadsTo rfl rfl) .ends

theorem passing_read (s : Session) (c : Nat) :
    Passing s (s.stepTrail (.read c)) (s.step (.read c)) := by
  rw [stepTrail]
  obtain ⟨heq, hnone⟩ | ⟨k, l, p, hk, hread, heq⟩ := s.step_read_cases c
  · rw [heq, Option.bind_eq_none_iff.mpr hnone]
    exact .ends
  · rw [heq, hk, Option.bind_some, hread]
    exact (passing_setLink hk (Link.ages_readNext? hread)).append (.stays (status_tidy _) .ends)

theorem passing_write (s : Session) (c : Nat) (accepted : Bool) :
    Passing s (s.stepTrail (.write c accepted)) (s.step (.write c accepted)) := by
  rw [stepTrail]
  obtain ⟨heq, -⟩ | ⟨k, what, l, hk, hwrite, heq⟩ := s.step_write_cases c accepted
  · rw [heq]
    exact .stays rfl .ends
  · rw [heq]
    exact passing_setLink hk (Link.ages_writeNext? hwrite)

theorem passing_update {f : Link → Link} (hf : ∀ l : Link, l.Ages (f l)) :
    Passing s [s.updateConnection c fun k => { k with link := f k.link }]
      (s.updateConnection c fun k => { k with link := f k.link }) := by
  obtain ⟨k, hk, heq⟩ | heq := updateConnection_link (s := s) c f
  · rw [heq]
    exact passing_setLink hk (hf k.link)
  · rw [heq]
    exact .stays rfl .ends

theorem passing_step (h : s.Attentive) {e : Event} (he : ∀ i, e ≠ .cancel i) :
    Passing s (s.stepTrail e) (s.step e) := by
  cases e with
  | begin m w => exact passing_begin h w
  | resume m i =>
    exact (passing_stretch h).append (.stays (status_tidy _) .ends)
  | cancel i => exact absurd rfl (he i)
  | change path text => exact passing_change path text
  | close path => exact passing_close path
  | read c => exact passing_read s c
  | write c accepted => exact passing_write s c accepted
  | receive c bs =>
    exact passing_update (f := fun l => l.receive bs) fun l => Link.ages_of_same rfl rfl rfl
  | endInput c =>
    exact passing_update (f := Link.endInput) fun l => Link.ages_of_same rfl rfl rfl
  | tidy => exact .stays (status_tidy s) .ends

theorem Attentive.new (language : String) (server : Setup.Server) (timeouts : Setup.Timeouts)
    (processId : Nat) (rootUri : String) :
    (new language server timeouts processId rootUri).Attentive :=
  ⟨.new language server timeouts processId rootUri, fun ht => by cases ht⟩

/-- Only who is dropped leaves a state behind that nobody attends. -/
theorem Attentive.step (h : s.Attentive) {e : Event} (he : ∀ i, e ≠ .cancel i) :
    (s.step e).Attentive := by
  obtain ⟨hs, hgated⟩ := h.gated.step e
  refine ⟨hgated, fun ht => ?_⟩
  obtain htended | ⟨-, i, -, hcancel, -⟩ := h.gated.tended hs
  · obtain hattended | ⟨hsame, hnot⟩ := htended ht
    · exact hattended
    · exact absurd (h.attended (hsame ▸ ht)) hnot
  · exact absurd hcancel (he i)

theorem passing_run (h : s.Attentive) {es : List Event} (hes : ∀ i, .cancel i ∉ es) :
    Passing s (s.trail es) (s.run es) := by
  induction es generalizing s with
  | nil => exact .ends
  | cons e es ih =>
    have he : ∀ i, e ≠ .cancel i := fun i hi => hes i (hi ▸ List.mem_cons_self)
    have hrest : ∀ i, .cancel i ∉ es := fun i hi => hes i (List.mem_cons_of_mem e hi)
    exact (passing_step h he).append (ih (h.step he) hrest)

end Passing

end Session
end LanguageClient
