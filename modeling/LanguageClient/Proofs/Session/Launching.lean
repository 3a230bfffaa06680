import LanguageClient.Proofs.Link.FirstAnswer
import LanguageClient.Proofs.Session.Coherence
import LanguageClient.Proofs.Session.OneServer

namespace LanguageClient.Session

section Looks

variable {s : Session} {m : Moment} {i c : Nat} {k : Connection}

theorem connection?_setLink_self (hk : s.connection? c = some k) (l : Link) :
    (s.setLink c l).connection? c = some { k with link := l } := by
  unfold setLink
  rw [connection?_updateConnection, if_pos rfl, hk]
  rfl

theorem closing?_of_up_setLink {l : Link} (hk : s.connection? c = some k)
    (hup : (s.setLink c l).Up c) : l.closing? = none := by
  obtain ⟨k', hk', hup⟩ := hup
  rw [connection?_setLink_self hk l] at hk'
  cases hk'
  exact hup.opened

theorem stretch_of_handshaking {call : Call} (hi : s.stage? i = some (.handshaking c call)) :
    s.stretch m i = s.checkHandshake m i c call := by
  obtain ⟨t, ht, hstage⟩ := Option.map_eq_some_iff.mp hi
  unfold stretch
  simp only [ht, hstage]

theorem checkHandshake_of_early {call : Call} (hk : s.connection? c = some k)
    (hslot : k.link.inflight.slot call.ticket = .empty) (hnow : m.now < call.deadline) :
    s.checkHandshake m i c call = s.setStage i (.handshaking c call) := by
  unfold checkHandshake
  rw [pollCall_of_connection hk, Link.poll_of_early hslot hnow, setLink_self hk]

end Looks

/-- No other operation begins, and this one is not dropped. -/
def Event.isBeside (i : Nat) : Event → Bool
  | .begin _ _ | .change _ _ | .close _ => false
  | .cancel j => j != i
  | _ => true

/-- The next message on the connection answers its first request. -/
def Answers (s : Session) (c : Nat) (outcome : LanguageClient.Outcome) : Prop :=
  ∃ k v, s.connection? c = some k ∧ k.link.nextFrame? = some v ∧
    Incoming.ofJson? v = some (.answer 1 outcome)

/-- An operation that was begun in the session `s₀` has launched the server of a new connection, and
waits for the answer to the first request. -/
structure Launching (s₀ : Session) (m : Moment) (w : Work) (owed : List Owed) (slot : Slot)
    (s : Session) : Prop where
  stage : s.stage? s₀.tasks.length =
    some (.handshaking s₀.connections.length (s₀.handshakeCall m))
  work : s.work? s₀.tasks.length = some w
  gate : s.gate = [s₀.tasks.length]
  launches : s.launches = s₀.launches + 1
  server : s.server = s₀.server
  connection : ∃ k, s.connection? s₀.connections.length = some k ∧ k.documents = {} ∧
    k.link.Asked (Message.request 1 "initialize"
      (some (Params.handshake s₀.processId s₀.rootUri))) owed slot

namespace Launching

variable {s₀ s s' : Session} {m m' : Moment} {w : Work} {owed : List Owed} {slot : Slot} {i c : Nat}

theorem of_same (h : Launching s₀ m w owed slot s)
    (hstage : s'.stage? s₀.tasks.length = s.stage? s₀.tasks.length)
    (hwork : s'.work? s₀.tasks.length = s.work? s₀.tasks.length) (hgate : s'.gate = s.gate)
    (hlaunches : s'.launches = s.launches) (hserver : s'.server = s.server)
    (hconnection : s'.connection? s₀.connections.length = s.connection? s₀.connections.length) :
    Launching s₀ m w owed slot s' where
  stage := hstage.trans h.stage
  work := hwork.trans h.work
  gate := hgate.trans h.gate
  launches := hlaunches.trans h.launches
  server := hserver.trans h.server
  connection := hconnection ▸ h.connection

theorem tidy (h : Launching s₀ m w owed slot s) : Launching s₀ m w owed slot s.tidy := by
  refine ⟨h.stage, h.work, h.gate, h.launches, h.server, ?_⟩
  obtain ⟨k, hk, hdocuments, hasked⟩ := h.connection
  have hheld : s.isHeld s₀.connections.length = true :=
    (isHeld_iff s _).mpr (.inr ⟨_, _, h.stage, rfl⟩)
  refine ⟨k.reap, ?_, ?_, ?_⟩
  · rw [connection?_tidy, hk, Option.map_some, if_pos hheld]
  · rw [k.quiet_reap.documents, hdocuments]
  · rw [k.kept_reap.link]
    exact hasked

theorem alone (h : Launching s₀ m w owed slot s) (hg : s.Gated) {stage : Stage}
    (hi : s.stage? i = some stage) (hne : i ≠ s₀.tasks.length) :
    stage.holdsGate = false ∧ stage.connection? ≠ some s₀.connections.length := by
  have hfirst : s.gate.head? = some s₀.tasks.length := by rw [h.gate]; rfl
  have hholds := hg.not_holdsGate hfirst hne hi
  refine ⟨hholds, fun hc => ?_⟩
  have hstarting : stage.isStarting = true := by
    simpa [Stage.isStarting] using (hg.held hi hc).unique (hg.held h.stage rfl)
  rw [Stage.holdsGate, hstarting] at hholds
  cases hholds

theorem setLink {k : Connection} {l : Link} {owed' : List Owed} {slot' : Slot}
    (h : Launching s₀ m w owed slot s) (hk : s.connection? s₀.connections.length = some k)
    (hl : ∀ first, k.link.Asked first owed slot → l.Asked first owed' slot') :
    Launching s₀ m w owed' slot' (s.setLink s₀.connections.length l) := by
  refine ⟨h.stage, h.work, h.gate, h.launches, h.server, ?_⟩
  obtain ⟨k', hk', hdocuments, hasked⟩ := h.connection
  obtain rfl : k = k' := Option.some.inj (hk.symm.trans hk')
  exact ⟨_, connection?_setLink_self hk l, hdocuments, hl _ hasked⟩

theorem setLink_any {d : Nat} {k : Connection} {l : Link} (h : Launching s₀ m w owed slot s)
    (hk : s.connection? d = some k)
    (hl : d = s₀.connections.length → ∀ first, k.link.Asked first owed slot →
      l.Asked first owed slot) : Launching s₀ m w owed slot (s.setLink d l) := by
  by_cases hd : d = s₀.connections.length
  · subst hd
    exact h.setLink hk (hl rfl)
  · refine h.of_same rfl rfl rfl rfl rfl ?_
    unfold Session.setLink
    rw [connection?_updateConnection, if_neg (Ne.symm hd)]

theorem outcome (h : Launching s₀ m w owed slot s) (hg : s.Gated) (hi : i ≠ s₀.tasks.length)
    (hs : Outcome m' i s s') : Launching s₀ m w owed slot s' := by
  have hturn (turn : s.HasTurn i) : Launching s₀ m w owed slot s' := by
    have hfirst := turn.first
    rw [h.gate] at hfirst
    exact absurd (Option.some.inj hfirst).symm hi
  cases hs with
  | idle => exact h
  | @goesOn c stage s' stage_ served undone serves =>
    have hc : s₀.connections.length ≠ c := by
      rintro rfl
      exact (h.alone hg stage_ hi).2 undone
    exact h.of_same (serves.stage?_other hi.symm) (serves.work? _) serves.gate serves.launches
      (by rw [serves.rest]) (serves.connections.others _ hc)
  | served turn | unlaunched turn | launches turn | stopsNothing turn | stops turn =>
    exact hturn turn
  | greets stage | goesOnStopping stage => cases (h.alone hg stage hi).1
  | goesOnReaping stage_ reaps =>
    obtain rfl | ⟨deadline, rfl⟩ := reaps <;> cases (h.alone hg stage_ hi).1

/-- Nothing that happens beside ends the wait, as long as the server does not answer. -/
theorem step {e : Event} (h : Launching s₀ m w owed slot s) (hg : s.Gated) (hs : Step s e s')
    (he : e.isBeside s₀.tasks.length = true) (hresume : ∀ m', e ≠ .resume m' s₀.tasks.length)
    (hup : s'.Up s₀.connections.length)
    (hsilent : e = .read s₀.connections.length → ∀ k v id outcome,
      s.connection? s₀.connections.length = some k → k.link.nextFrame? = some v →
      Incoming.ofJson? v = some (.answer id outcome) → ∀ o ∈ owed, o.id ≠ id) :
    Launching s₀ m w owed slot s' := by
  cases hs with
  | nothing => exact h
  | begins => cases he
  | @resumes m' j s' outcome =>
    have hj : j ≠ s₀.tasks.length := by
      rintro rfl
      exact hresume m' rfl
    exact (h.outcome hg hj outcome).tidy
  | @cancels j stage ks stage_ left =>
    have hj : j ≠ s₀.tasks.length := by simpa [Event.isBeside] using he
    -- whoever is dropped holds on to another connection, if to any
    have hsame : ks[s₀.connections.length]? = s.connection? s₀.connections.length := by
      obtain rfl | ⟨d, hd, hleft⟩ := left
      · rfl
      · refine hleft.others _ ?_
        rintro rfl
        exact (h.alone hg stage_ hj).2 hd
    have hdropped : Launching s₀ m w owed slot
        ((Session.setStage { s with connections := ks } j .dropped).leaveGate j) := by
      refine h.of_same ?_ (work?_setStage { s with connections := ks } j _ _) ?_ rfl rfl hsame
      · show (Session.setStage { s with connections := ks } j .dropped).stage? _ = _
        rw [stage?_setStage, if_neg hj.symm]
        rfl
      · show s.gate.filter (· != j) = s.gate
        rw [h.gate]
        simp [hj.symm]
    exact hdropped.tidy
  | @settles e lifecycle settles =>
    have hsettled : Launching s₀ m w owed slot { s with lifecycle } :=
      h.of_same rfl rfl rfl rfl rfl rfl
    exact hsettled.tidy
  | tells serving =>
    -- nothing is told while a server is being started: the session is not ready
    have hlifecycle := (hg.starting h.stage rfl).1
    rw [serving.ready] at hlifecycle
    cases hlifecycle
  | @reads d k l p connection read =>
    refine Launching.tidy (h.setLink_any connection fun hd first hasked => ?_)
    subst hd
    exact hasked.read read (closing?_of_up_setLink connection (up_of_tidy hup).1)
      fun v id outcome => hsilent rfl k v id outcome connection
  | @writes d accepted k l what connection write =>
    refine h.setLink_any connection fun hd first hasked => ?_
    subst hd
    exact hasked.write write (closing?_of_up_setLink connection hup)
  | receives connection => exact h.setLink_any connection fun _ _ hasked => hasked.of_same rfl rfl rfl
  | endsInput connection => exact h.setLink_any connection fun _ _ hasked => hasked.of_same rfl rfl rfl
  | tidies => exact h.tidy

theorem resume_early (h : Launching s₀ m w owed .empty s)
    (hnow : m'.now < (s₀.handshakeCall m).deadline) :
    Launching s₀ m w owed .empty (s.resume m' s₀.tasks.length) := by
  obtain ⟨k, hk, -, hasked⟩ := h.connection
  unfold resume
  rw [stretch_of_handshaking h.stage, checkHandshake_of_early hk hasked.slot_eq hnow]
  have hstays : Launching s₀ m w owed .empty (s.setStage s₀.tasks.length
      (.handshaking s₀.connections.length (s₀.handshakeCall m))) :=
    ⟨stage?_setStage_self h.stage, (work?_setStage s _ _ _).trans h.work, h.gate, h.launches,
      h.server, h.connection⟩
  exact hstays.tidy

/-- The operation goes on waiting through all that happens beside, as long as the server does not
answer. -/
theorem run {es : List Event} (h : Launching s₀ m w owed slot s) (hg : s.Gated)
    (hbeside : ∀ e ∈ es, e.isBeside s₀.tasks.length = true)
    (hlook : ∀ m', .resume m' s₀.tasks.length ∈ es →
      slot = .empty ∧ m'.now < (s₀.handshakeCall m).deadline)
    (hsilent : ∀ before after, es = before ++ .read s₀.connections.length :: after →
      ∀ k v id outcome, (s.run before).connection? s₀.connections.length = some k →
        k.link.nextFrame? = some v → Incoming.ofJson? v = some (.answer id outcome) →
        ∀ o ∈ owed, o.id ≠ id)
    (hup : (s.run es).Up s₀.connections.length) : Launching s₀ m w owed slot (s.run es) := by
  induction es generalizing s with
  | nil => exact h
  | cons e es ih =>
    obtain ⟨hstep, hg'⟩ := hg.step e
    have hlt : s₀.connections.length < (s.step e).connections.length := by
      obtain ⟨k, hk, -⟩ := h.connection
      exact Nat.lt_of_lt_of_le (List.getElem?_eq_some_iff.mp hk).1 (hg.fades hstep).length
    have hnext : Launching s₀ m w owed slot (s.step e) := by
      by_cases hresume : ∃ m', e = .resume m' s₀.tasks.length
      · obtain ⟨m', rfl⟩ := hresume
        obtain ⟨rfl, hnow⟩ := hlook m' (List.mem_cons_self ..)
        exact h.resume_early hnow
      · refine h.step hg hstep (hbeside e (List.mem_cons_self ..))
          (fun m' he => hresume ⟨m', he⟩) ((hg'.fades_run es).up _ hlt hup) ?_
        rintro rfl
        exact hsilent [] es rfl
    refine ih hnext hg' (fun e' he' => hbeside e' (List.mem_cons_of_mem _ he'))
      (fun m' hm' => hlook m' (List.mem_cons_of_mem _ hm')) ?_ hup
    rintro before after rfl
    exact hsilent (e :: before) after rfl

theorem answered {method : String} {result : Json}
    (h : Launching s₀ m w (Link.firstOwed method) .empty s)
    (ha : s.Answers s₀.connections.length (.ok result)) :
    Launching s₀ m w [] (.filled (.ok result)) (s.step (.read s₀.connections.length)) := by
  obtain ⟨k, v, hk, hframe, hv⟩ := ha
  obtain ⟨k', hk', -, hasked⟩ := h.connection
  obtain rfl : k = k' := Option.some.inj (hk.symm.trans hk')
  obtain ⟨l, p, hread⟩ := Link.exists_read_of_nextFrame? hasked.reading hframe
  rw [step_read_of_readNext? hk hread]
  exact Launching.tidy (h.setLink hk fun first hfirst => hfirst.read_answer hread hframe hv)

end Launching

section Beginning

variable {s : Session} {m : Moment} {path : Path} {uri text : String}

theorem needsServer_open (text : String) (huri : FileUri.ofPath? path = some uri) :
    (Work.open path text).needsServer = true := by
  simp [Work.needsServer, huri]

/-- An open that finds nobody at the gate and no server launches one. -/
theorem launching_begin (text : String) (hfree : s.gate = []) (halone : ∀ c, ¬ s.Serving c)
    (huri : FileUri.ofPath? path = some uri) {hasProcess : Bool}
    (hlaunch : m.launch = .ok hasProcess) (htime : 0 < s.timeouts.handshake) :
    Launching s m (.open path text) (Link.firstOwed "initialize") .empty
      (s.begin m (.open path text)) := by
  obtain ⟨c, hc, -⟩ | ⟨-, lifecycle, -, ⟨hbusy, -⟩ | ⟨-, heq⟩⟩ :=
    begin_cases (s := s) (m := m) (needsServer_open text huri)
  · exact absurd hc (halone c)
  · exact absurd hfree hbusy
  · let launched := (s.joined (.open path text) lifecycle).launched hasProcess
    have hk : launched.connection? s.connections.length = some (s.greeted hasProcess) := by
      simp [launched, Session.launched, joined, connection?]
      rfl
    have hnow : m.now < (s.handshakeCall m).deadline := by
      simp only [handshakeCall, seconds]
      omega
    have hstage : launched.stage? s.tasks.length = some .queued :=
      s.stage?_added_self (.open path text)
    have hwork : launched.work? s.tasks.length = some (.open path text) :=
      s.work?_added_self (.open path text)
    have hstart : (s.joined (.open path text) lifecycle).start m s.tasks.length =
        launched.setStage s.tasks.length
          (.handshaking s.connections.length (s.handshakeCall m)) :=
      (start_of_ok hlaunch).trans (checkHandshake_of_early hk rfl hnow)
    rw [heq, hstart]
    apply Launching.tidy
    constructor
    case stage => exact stage?_setStage_self hstage
    case work => exact (work?_setStage launched _ _ _).trans hwork
    case gate => simp [launched, Session.launched, joined, setStage, hfree]
    case launches => rfl
    case server => rfl
    case connection =>
      refine ⟨s.greeted hasProcess, hk, rfl, rfl, ?_, rfl, rfl⟩
      simp [greeted, Link.said, Outgoing.own?_request]

/-- As soon as there is an answer, the operation can go on. -/
theorem Launching.isReady {s₀ : Session} {w : Work} {r : Reply}
    (h : Launching s₀ m w [] (.filled r) s) (m' : Moment) :
    s.isReady m' s₀.tasks.length = true := by
  obtain ⟨k, hk, -, hasked⟩ := h.connection
  have hslot : k.link.inflight.slot (s₀.handshakeCall m).ticket = .filled r := hasked.slot_eq
  simp [Session.isReady, h.stage, hk, hslot, Slot.isEmpty]

end Beginning

end LanguageClient.Session
