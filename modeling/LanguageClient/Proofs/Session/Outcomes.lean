import LanguageClient.Proofs.Session.Works

namespace LanguageClient.Session

/-- The operation waits for its turn, and has it. -/
structure HasTurn (s : Session) (i : Nat) : Prop where
  stage : s.stage? i = some .queued
  first : s.gate.head? = some i

/-- The session is ready with this connection, and it has not closed. -/
structure Serving (s : Session) (c : Nat) : Prop where
  ready : s.lifecycle = .ready c
  opened : (s.connection? c).bind (·.link.closing?) = none

/-- The lifecycle once a connection that has closed is given up. -/
inductive Settles (s : Session) : Lifecycle → Prop
  | same : Settles s s.lifecycle
  | crashed {c : Nat} {reason : Closing} (ready : s.lifecycle = .ready c)
      (closed : (s.connection? c).bind (·.link.closing?) = some reason) :
      Settles s (.crashed (s.crashReason reason))

section Live

variable {s : Session}

theorem live?_of_serving {c : Nat} (h : s.Serving c) : s.live? = (some c, s) := by
  simp [live?, h.ready, h.opened]

theorem live?_cases (s : Session) :
    (∃ c, s.Serving c ∧ s.live? = (some c, s)) ∨
      (∀ c, ¬ s.Serving c) ∧ ∃ lifecycle, Settles s lifecycle ∧
        s.live? = (none, { s with lifecycle }) := by
  by_cases hready : ∃ c, s.lifecycle = .ready c
  · obtain ⟨c, hc⟩ := hready
    cases hclosing : (s.connection? c).bind (·.link.closing?) with
    | none => exact .inl ⟨c, ⟨hc, hclosing⟩, live?_of_serving ⟨hc, hclosing⟩⟩
    | some reason =>
      refine .inr ⟨fun d hd => ?_, _, .crashed hc hclosing, by simp [live?, hc, hclosing]⟩
      obtain rfl : c = d := Lifecycle.ready.inj (hc.symm.trans hd.ready)
      rw [hd.opened] at hclosing
      cases hclosing
  · refine .inr ⟨fun c hc => hready ⟨c, hc.ready⟩, _, .same, ?_⟩
    unfold live?
    split
    · rename_i c hc
      exact absurd ⟨c, hc⟩ hready
    · rfl

end Live

def handshakeCall (s : Session) (m : Moment) : Call where
  id := 1
  method := "initialize"
  ticket := 0
  begun := m.now
  deadline := m.now + seconds s.timeouts.handshake

def greeted (s : Session) (hasProcess : Bool) : Connection where
  link := {
    inflight := { language := s.language, owed := [⟨1, "initialize", 0⟩], slots := [.empty] }
    nextId := 2
    sent := [.frame (Message.request 1 "initialize" (some (Params.handshake s.processId s.rootUri)))] }
  process := if hasProcess then .attached else .absent

def launched (s : Session) (hasProcess : Bool) : Session :=
  { s with
    lifecycle := .awaitingAnswer
    launches := s.launches + 1
    connections := s.connections ++ [s.greeted hasProcess] }

def established (s : Session) (c : Nat) (result : Json) : Session :=
  { s.updateConnection c fun k =>
      { k with abilities := Abilities.ofHandshake result, established := true } with
    lifecycle := .ready c }

/-- What a look at the handshake comes to. -/
inductive Handshake (i c : Nat) (call : Call) (s : Session) : Session → Prop
  | waits : Handshake i c call s (s.setStage i (.handshaking c call))
  | fails {f : Failure} {s₁ : Session} (polled : Works i c s s₁) (tasks : s₁.tasks = s.tasks) :
      Handshake i c call s (s₁.failStart i c f)
  | succeeds {result : Json} {s₁ s' : Session} (polled : Works i c s s₁)
      (tasks : s₁.tasks = s.tasks) (serves : Serves i c ((s₁.established c result).leaveGate i) s') :
      Handshake i c call s s'

/-- A connection closes for good; its process may be taken over or killed. -/
structure Connection.Shut (k k' : Connection) : Prop where
  link : k'.link = k.link.close
  established : k'.established = k.established
  released : k'.released = k.released

/-- A connection stays as it is; its process may be killed. -/
structure Connection.Kept (k k' : Connection) : Prop where
  link : k'.link = k.link
  established : k'.established = k.established
  released : k'.released = k.released

/-- What waiting for a process comes to, in which the connection `c` changes by `R`. -/
inductive Reaping (R : Connection → Connection → Prop) (i : Nat) (restartable : Bool) (c : Nat)
    (s : Session) : Session → Prop
  | finishes {ks : List Connection} (changed : ChangedAt R c s.connections ks) :
      Reaping R i restartable c s ({ s with connections := ks }.finishShutdown i restartable)
  | reaps {ks : List Connection} (changed : ChangedAt R c s.connections ks) (deadline : Nat) :
      Reaping R i restartable c s ({ s with connections := ks }.setStage i (.reaping c deadline))
  | kills {ks : List Connection} (changed : ChangedAt R c s.connections ks) :
      Reaping R i restartable c s ({ s with connections := ks }.setStage i (.killing c))

/-- What a look at the shutdown comes to. -/
inductive Stopping (i : Nat) (restartable : Bool) (c : Nat) (s : Session) : Session → Prop
  | waits {s₁ : Session} {call : Call} (polled : Works i c s s₁) (tasks : s₁.tasks = s.tasks) :
      Stopping i restartable c s (s₁.setStage i (.stopping c call))
  | closes {s₁ s' : Session} (polled : Works i c s s₁) (tasks : s₁.tasks = s.tasks)
      (reaping : Reaping Connection.Shut i restartable c s₁ s') :
      Stopping i restartable c s s'

/-- All that a stretch can come to. -/
inductive Outcome (m : Moment) (i : Nat) (s : Session) : Session → Prop
  | idle : Outcome m i s s
  | goesOn {c : Nat} {stage : Stage} {s' : Session} (stage_ : s.stage? i = some stage)
      (served : stage.IsServedBy c) (undone : stage.connection? = some c)
      (serves : Serves i c s s') : Outcome m i s s'
  | served {c : Nat} {s' : Session} (turn : s.HasTurn i)
      (work : ∀ r, s.work? i ≠ some (.shutdown r)) (serving : s.Serving c)
      (serves : Serves i c (s.leaveGate i) s') : Outcome m i s s'
  | unlaunched {f : Failure} (turn : s.HasTurn i)
      (work : ∀ r, s.work? i ≠ some (.shutdown r)) (alone : ∀ c, ¬ s.Serving c)
      (launch : m.launch = .error f) :
      Outcome m i s (({ s with
        lifecycle := .startFailed f.message
        launches := s.launches + 1 }.leaveGate i).finish i (.error f))
  | launches {hasProcess : Bool} {s' : Session} (turn : s.HasTurn i)
      (work : ∀ r, s.work? i ≠ some (.shutdown r)) (alone : ∀ c, ¬ s.Serving c)
      (launch : m.launch = .ok hasProcess)
      (handshake : Handshake i s.connections.length (s.handshakeCall m) (s.launched hasProcess) s') :
      Outcome m i s s'
  | greets {c : Nat} {call : Call} {s' : Session} (stage : s.stage? i = some (.handshaking c call))
      (handshake : Handshake i c call s s') : Outcome m i s s'
  | stopsNothing {r : Bool} (turn : s.HasTurn i) (work : s.work? i = some (.shutdown r))
      (unready : ∀ c, s.lifecycle ≠ .ready c) : Outcome m i s (s.finishShutdown i r)
  | stops {r : Bool} {c : Nat} {s' : Session} (turn : s.HasTurn i)
      (work : s.work? i = some (.shutdown r)) (ready : s.lifecycle = .ready c)
      (stopping : Stopping i r c { s with lifecycle := .shuttingDown } s') : Outcome m i s s'
  | goesOnStopping {r : Bool} {c : Nat} {call : Call} {s' : Session}
      (stage : s.stage? i = some (.stopping c call)) (work : s.work? i = some (.shutdown r))
      (stopping : Stopping i r c s s') : Outcome m i s s'
  | goesOnReaping {r : Bool} {c : Nat} {stage : Stage} {s' : Session}
      (stage_ : s.stage? i = some stage) (reaps : stage = .killing c ∨ ∃ d, stage = .reaping c d)
      (reaping : Reaping Connection.Kept i r c s s') : Outcome m i s s'

section Polling

variable {s s' : Session} {m : Moment} {i c : Nat}

theorem work?_of_tasks (h : s'.tasks = s.tasks) (i : Nat) : s'.work? i = s.work? i := by
  simp only [work?, h]

theorem stage?_of_tasks (h : s'.tasks = s.tasks) (i : Nat) : s'.stage? i = s.stage? i := by
  simp only [stage?, h]

theorem pollCall_of_connection {k : Connection} (hk : s.connection? c = some k) (m : Moment)
    (call : Call) : s.pollCall m c call =
      ((k.link.poll m.now call).1, s.setLink c (k.link.poll m.now call).2) := by
  simp only [pollCall, hk]

theorem call_of_connection {k : Connection} (hk : s.connection? c = some k) (m : Moment)
    (timeout : Nat) (method : String) (params : Option Json) :
    s.call m c timeout method params =
      ((k.link.call m.now timeout method params).1,
        s.setLink c (k.link.call m.now timeout method params).2) := by
  simp only [call, hk]

theorem notify_of_connection {k : Connection} (hk : s.connection? c = some k) (n : Notice) :
    s.notify c n = ((k.link.notify n.method (some n.params)).1,
      s.setLink c (k.link.notify n.method (some n.params)).2) := by
  simp only [notify, hk]

theorem tasks_pollCall (s : Session) (m : Moment) (c : Nat) (call : Call) :
    (s.pollCall m c call).2.tasks = s.tasks := by
  unfold pollCall
  split <;> rfl

theorem tasks_call (s : Session) (m : Moment) (c timeout : Nat) (method : String)
    (params : Option Json) : (s.call m c timeout method params).2.tasks = s.tasks := by
  unfold call
  split <;> rfl

theorem setLink_setLink (s : Session) (c : Nat) (l l' : Link) :
    (s.setLink c l).setLink c l' = s.setLink c l' := by
  simp [setLink, updateConnection, List.modify_modify_eq, Function.comp_def]

theorem setLink_self {k : Connection} (hk : s.connection? c = some k) :
    s.setLink c k.link = s := by
  have hsame : s.connections.modify c (fun k' => { k' with link := k.link }) =
      s.connections.modify c id := by
    apply modify_congr
    intro k' hk'
    obtain rfl : k = k' := Option.some.inj (hk.symm.trans hk')
    rfl
  unfold setLink updateConnection
  rw [hsame, List.modify_id]

theorem pollCall_of_none {call : Call} (h : s.pollCall m c call = (none, s')) : s' = s := by
  cases hk : s.connection? c with
  | none =>
    unfold pollCall at h
    rw [hk] at h
    cases h
  | some k =>
    rw [pollCall_of_connection hk] at h
    obtain ⟨hnone, rfl⟩ := Prod.mk.inj h
    rw [k.link.poll_of_none hnone, setLink_self hk]

end Polling

section Starting

variable {s s' : Session} {m : Moment} {i c : Nat}

theorem handshake_checkHandshake (hwork : ∀ r, s.work? i ≠ some (.shutdown r)) (call : Call) :
    Handshake i c call s (s.checkHandshake m i c call) := by
  have hpoll : Works i c s (s.pollCall m c call).2 := .pollCall call
  have htasks := tasks_pollCall s m c call
  unfold checkHandshake
  split
  · rename_i s₁ heq
    obtain rfl := pollCall_of_none heq
    exact .waits
  · rename_i f s₁ heq
    rw [heq] at hpoll htasks
    exact .fails hpoll htasks
  · rename_i result s₁ heq
    rw [heq] at hpoll htasks
    have hnotify : Works i c s₁ (s₁.notify c ⟨"initialized", .ofFields []⟩).2 := .notify _
    have htasks' := tasks_notify s₁ c ⟨"initialized", .ofFields []⟩
    unfold establish
    split
    · rename_i f s₂ heq₂
      rw [heq₂] at hnotify htasks'
      exact .fails (hpoll.trans hnotify) (htasks'.trans htasks)
    · rename_i s₂ heq₂
      rw [heq₂] at hnotify htasks'
      refine .succeeds (hpoll.trans hnotify) (htasks'.trans htasks) (.serve fun r hr => ?_)
      exact hwork r ((work?_of_tasks (htasks'.trans htasks) i).symm.trans hr)

theorem start_of_error {f : Failure} (h : m.launch = .error f) :
    s.start m i = ({ s with
      lifecycle := .startFailed f.message
      launches := s.launches + 1 }.leaveGate i).finish i (.error f) := by
  simp [start, h]

theorem call_start (s : Session) (m : Moment) (hasProcess : Bool) :
    (Link.start s.language).call m.now (seconds s.timeouts.handshake) "initialize"
      (some (Params.handshake s.processId s.rootUri)) =
      (.ok (s.handshakeCall m), (s.greeted hasProcess).link) := by
  rfl

theorem modify_append_one {α : Type} (xs : List α) (x : α) (f : α → α) :
    (xs ++ [x]).modify xs.length f = xs ++ [f x] := by
  induction xs with
  | nil => rfl
  | cons y xs ih => exact congrArg (y :: ·) ih

theorem start_of_ok {hasProcess : Bool} (h : m.launch = .ok hasProcess) :
    s.start m i =
      (s.launched hasProcess).checkHandshake m i s.connections.length (s.handshakeCall m) := by
  let k : Connection :=
    { link := Link.start s.language, process := if hasProcess then .attached else .absent }
  let s₁ : Session :=
    { s with
      lifecycle := .awaitingAnswer
      launches := s.launches + 1
      connections := s.connections ++ [k] }
  have hk : s₁.connection? s.connections.length = some k := by simp [s₁, connection?]
  have hlaunched : s₁.setLink s.connections.length (s.greeted hasProcess).link =
      s.launched hasProcess := by
    simp only [setLink, updateConnection, s₁, launched, modify_append_one]
    rfl
  have hcall := call_of_connection hk m (seconds s.timeouts.handshake) "initialize"
    (some (Params.handshake s.processId s.rootUri))
  rw [show k.link = Link.start s.language from rfl, call_start s m hasProcess, hlaunched] at hcall
  simp only [start, h]
  rw [show Session.call _ _ _ _ _ _ = _ from hcall]

theorem outcome_start (turn : s.HasTurn i) (work : ∀ r, s.work? i ≠ some (.shutdown r))
    (alone : ∀ c, ¬ s.Serving c) : Outcome m i s (s.start m i) := by
  cases hl : m.launch with
  | error f =>
    rw [start_of_error hl]
    exact .unlaunched turn work alone hl
  | ok hasProcess =>
    rw [start_of_ok hl]
    have hwork : ∀ r, (s.launched hasProcess).work? i ≠ some (.shutdown r) := work
    exact .launches turn work alone hl (handshake_checkHandshake hwork _)

end Starting

section Shutdown

variable {R : Connection → Connection → Prop} {s s' : Session} {m : Moment} {i c : Nat}
  {ks : List Connection}

theorem reaping_checkKilling (restartable : Bool) (h : ChangedAt R c s.connections ks) :
    Reaping R i restartable c s ({ s with connections := ks }.checkKilling m i restartable c) := by
  unfold checkKilling
  split
  · exact .finishes h
  · exact .kills h

theorem reaping_checkReaping (hR : ∀ {k k' : Connection}, R k k' → R k { k' with killed := true })
    (restartable : Bool) (deadline : Nat) (h : ChangedAt R c s.connections ks) :
    Reaping R i restartable c s
      ({ s with connections := ks }.checkReaping m i restartable c deadline) := by
  unfold checkReaping
  split
  · exact .finishes h
  · split
    · exact .reaps h deadline
    · exact reaping_checkKilling restartable (h.modified hR)

theorem reaping_closeUp (restartable : Bool) :
    Reaping Connection.Shut i restartable c s (s.closeUp m i restartable c) := by
  have hkilled {k k' : Connection} (h : k.Shut k') : k.Shut { k' with killed := true } :=
    ⟨h.link, h.established, h.released⟩
  have hclosed : ChangedAt Connection.Shut c s.connections
      (s.connections.modify c fun k => { k with link := k.link.close }) :=
    .modify fun k _ => ⟨rfl, rfl, rfl⟩
  unfold closeUp
  extract_lets closed
  split
  · exact reaping_checkReaping hkilled restartable _
      (hclosed.modified fun h => ⟨h.link, h.established, h.released⟩)
  · exact .finishes hclosed

theorem Stopping.of_works {s₁ : Session} {restartable : Bool}
    (h : Stopping i restartable c s₁ s') (hworks : Works i c s s₁) (htasks : s₁.tasks = s.tasks) :
    Stopping i restartable c s s' := by
  cases h with
  | waits polled tasks => exact .waits (hworks.trans polled) (tasks.trans htasks)
  | closes polled tasks reaping => exact .closes (hworks.trans polled) (tasks.trans htasks) reaping

theorem stopping_checkStopping (restartable : Bool) (call : Call) :
    Stopping i restartable c s (s.checkStopping m i restartable c call) := by
  have hpoll : Works i c s (s.pollCall m c call).2 := .pollCall call
  have htasks := tasks_pollCall s m c call
  unfold checkStopping
  split
  · rename_i heq
    rw [heq] at hpoll htasks
    exact .waits hpoll htasks
  · rename_i heq
    rw [heq] at hpoll htasks
    exact .closes hpoll htasks (reaping_closeUp restartable)
  · rename_i s₁ heq
    rw [heq] at hpoll htasks
    cases hk : s₁.connection? c with
    | none => exact .closes hpoll htasks (reaping_closeUp restartable)
    | some k =>
      have hexit : Works i c s₁ (s₁.setLink c (k.link.notify "exit" none).2) :=
        .setLink hk (k.link.used_notify _ _)
      exact .closes (hpoll.trans hexit) htasks (reaping_closeUp restartable)

theorem outcome_stop {restartable : Bool} (turn : s.HasTurn i)
    (work : s.work? i = some (.shutdown restartable)) :
    Outcome m i s (s.stop m i restartable) := by
  unfold stop
  extract_lets before stopping
  have hbefore : before = s.lifecycle := rfl
  clear_value before
  split
  · rename_i c
    refine .stops turn work hbefore.symm ?_
    split
    · exact .closes (.refl i c _) rfl (reaping_closeUp restartable)
    · have hcall : Works i c stopping (stopping.call m c (seconds stopping.timeouts.shutdown)
        "shutdown" none).2 := .call _ _ _
      have htasks := tasks_call stopping m c (seconds stopping.timeouts.shutdown) "shutdown" none
      split
      · rename_i heq
        rw [heq] at hcall htasks
        exact .closes hcall htasks (reaping_closeUp restartable)
      · rename_i call s₁ heq
        rw [heq] at hcall htasks
        exact (stopping_checkStopping restartable call).of_works hcall htasks
  · rename_i hunready
    exact .stopsNothing turn work fun c hc => hunready c (hbefore.trans hc)

end Shutdown

section Stretches

variable {s s' : Session} {m : Moment} {i c : Nat}

theorem outcome_takeTurn (turn : s.HasTurn i) : Outcome m i s (s.takeTurn m i) := by
  unfold takeTurn
  split
  · rename_i work
    exact outcome_stop turn work
  · rename_i work
    obtain ⟨c, hserving, hlive⟩ | ⟨halone, lifecycle, -, hlive⟩ := s.live?_cases
    · rw [hlive]
      have hwork : ∀ r, (s.leaveGate i).work? i ≠ some (.shutdown r) := fun r hr => work r hr
      exact .served turn (fun r hr => work r hr) hserving (.serve hwork)
    · rw [hlive]
      exact outcome_start turn (fun r hr => work r hr) halone

theorem outcome_stretch
    (hwork : ∀ c call r, s.stage? i = some (.handshaking c call) →
      s.work? i ≠ some (.shutdown r)) : Outcome m i s (s.stretch m i) := by
  unfold stretch
  cases ht : s.tasks[i]? with
  | none => exact .idle
  | some t =>
    have hstage : s.stage? i = some t.stage := by simp [stage?, ht]
    have hwork' : s.work? i = some t.work := by simp [work?, ht]
    simp only
    -- the cases are the stages, each with the work that it is for
    split
    · rename_i hqueued
      split
      · rename_i hfirst
        exact outcome_takeTurn ⟨hqueued ▸ hstage, hfirst⟩
      · exact .idle
    · rename_i c call hgreets
      rw [hgreets] at hstage
      exact .greets hstage (handshake_checkHandshake (fun r => hwork c call r hstage) call)
    · rename_i c uri path q hreads _
      rw [hreads] at hstage
      exact .goesOn hstage rfl rfl (.afterReading path q uri)
    · rename_i c call _ q hasks _
      rw [hasks] at hstage
      exact .goesOn hstage rfl rfl (.checkAsking q call)
    · rename_i c call r hstops hr
      rw [hstops] at hstage
      rw [hr] at hwork'
      exact .goesOnStopping hstage hwork' (stopping_checkStopping r call)
    · rename_i c deadline r hreaps hr
      rw [hreaps] at hstage
      have hkept : ChangedAt Connection.Kept c s.connections s.connections :=
        .refl (fun k => ⟨rfl, rfl, rfl⟩) c _
      refine .goesOnReaping (r := r) hstage (.inr ⟨deadline, rfl⟩) ?_
      exact reaping_checkReaping (fun h => ⟨h.link, h.established, h.released⟩) r deadline hkept
    · rename_i c r hkills hr
      rw [hkills] at hstage
      have hkept : ChangedAt Connection.Kept c s.connections s.connections :=
        .refl (fun k => ⟨rfl, rfl, rfl⟩) c _
      exact .goesOnReaping hstage (.inl rfl) (reaping_checkKilling r hkept)
    · exact .idle

end Stretches

end LanguageClient.Session
