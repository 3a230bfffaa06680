import LanguageClient.Proofs.Session.Launching

namespace LanguageClient.Session

section Looks

variable {s : Session} {m : Moment} {i c : Nat} {k : Connection}

theorem checkHandshake_of_answered {call : Call} {result : Json} (hk : s.connection? c = some k)
    (hslot : k.link.inflight.slot call.ticket = .filled (.ok result)) :
    s.checkHandshake m i c call =
      (s.setLink c { k.link with inflight := (k.link.inflight.take? call.ticket).2 }).establish m i c
        result := by
  unfold checkHandshake
  rw [pollCall_of_connection hk, Link.poll_of_filled hslot]

theorem establish_of_takes (hk : s.connection? c = some k) (htakes : k.link.takes = true)
    (result : Json) : s.establish m i c result =
      (((s.setLink c { k.link with
        sent := k.link.sent ++ [.frame (Message.notification "initialized" (some (.ofFields [])))]
      }).established c result).leaveGate i).serve m i c := by
  unfold establish
  rw [notify_of_connection hk, Link.notify_of_takes _ _ _ htakes]
  rfl

def Connection.welcoming (k : Connection) (ticket : Nat) (result : Json) : Connection :=
  { k with
    link := { k.link with
      inflight := (k.link.inflight.take? ticket).2
      sent := k.link.sent ++ [.frame (Message.notification "initialized" (some (.ofFields [])))] }
    abilities := Abilities.ofHandshake result
    established := true }

/-- From one session to the other, it has become ready with a connection. -/
structure Readied (s s' : Session) (c : Nat) (k : Connection) : Prop where
  lifecycle : s'.lifecycle = .ready c
  tasks : s'.tasks = s.tasks
  launches : s'.launches = s.launches
  server : s'.server = s.server
  connection : s'.connection? c = some k

/-- The answer is taken, the server hears of it, and the operation is served. -/
theorem resume_of_answered {call : Call} {result : Json}
    (hi : s.stage? i = some (.handshaking c call)) (hk : s.connection? c = some k)
    (hslot : k.link.inflight.slot call.ticket = .filled (.ok result))
    (htakes : k.link.takes = true) :
    ∃ s', Readied s s' c (k.welcoming call.ticket result) ∧
      s.resume m i = (s'.serve m i c).tidy := by
  let l : Link := { k.link with inflight := (k.link.inflight.take? call.ticket).2 }
  have htakes' : l.takes = true := by
    obtain ⟨hopen, hwriting⟩ := k.link.takes_iff.mp htakes
    exact l.takes_iff.mpr ⟨by simpa [l, Link.closing?] using hopen, hwriting⟩
  have hk' := connection?_setLink_self hk l
  let told : Link := { l with
    sent := l.sent ++ [.frame (Message.notification "initialized" (some (.ofFields [])))] }
  refine ⟨Session.leaveGate (((s.setLink c l).setLink c told).established c result) i,
    ⟨rfl, rfl, rfl, rfl, ?_⟩, ?_⟩
  · refine (connection?_updateConnection _ _ _ _).trans ?_
    rw [if_pos rfl, connection?_setLink_self hk' told]
    rfl
  · unfold resume
    rw [stretch_of_handshaking hi, checkHandshake_of_answered hk hslot]
    exact congrArg Session.tidy (establish_of_takes hk' htakes' result)

theorem Connection.takes_welcoming (k : Connection) (ticket : Nat) (result : Json) :
    (k.welcoming ticket result).link.takes = k.link.takes := by
  simp [Link.takes, welcoming, Link.closing?]

theorem Connection.said_welcoming (k : Connection) (ticket : Nat) (result : Json) :
    (k.welcoming ticket result).link.said =
      k.link.said ++ [Message.notification "initialized" (some (.ofFields []))] :=
  Link.said_notification k.link _ _ _

end Looks

section Opening

variable {s : Session} {m : Moment} {i c : Nat} {k : Connection} {path : Path} {uri text : String}

/-- What the server of a connection is told when a document is opened. -/
def Connection.openNotice (k : Connection) (path : Path) (uri languageId text : String) : Notice :=
  (k.documents.open path uri languageId text).1

def Connection.opening (k : Connection) (path : Path) (uri languageId text : String) : Connection :=
  { k with
    documents := (k.documents.open path uri languageId text).2
    link := { k.link with
      sent := k.link.sent ++ [(k.openNotice path uri languageId text).message] } }

theorem Connection.openNotice_of_unknown (h : k.documents.get? path = none)
    (uri languageId text : String) :
    k.openNotice path uri languageId text =
      ⟨"textDocument/didOpen", Params.opened uri languageId 1 text⟩ :=
  congrArg Prod.fst (OpenDocuments.open_of_get?_eq_none h uri languageId text)

theorem Connection.openNotice_of_known {d : OpenDocument} (h : k.documents.get? path = some d)
    (uri languageId text : String) :
    k.openNotice path uri languageId text =
      ⟨"textDocument/didChange", Params.changed d.uri (d.version + 1) text⟩ := by
  simp [openNotice, OpenDocuments.open, OpenDocuments.change?, h]

theorem Connection.said_opening (k : Connection) (path : Path) (uri languageId text : String) :
    (k.opening path uri languageId text).link.said = k.link.said ++
      [Message.notification (k.openNotice path uri languageId text).method
        (some (k.openNotice path uri languageId text).params)] :=
  Link.said_notification k.link k.link.inflight _ _

/-- What an open comes to when it is served by a connection that takes messages. -/
structure Opened (s s' : Session) (i c : Nat) (k : Connection) : Prop where
  works : Works i c s s'
  result : s'.stage? i = some (.done (.ok .nothing))
  connection : s'.connection? c = some k

theorem opened_serve (hwork : s.work? i = some (.open path text))
    (huri : FileUri.ofPath? path = some uri) (hk : s.connection? c = some k)
    (htakes : k.link.takes = true) :
    Opened s (s.serve m i c) i c (k.opening path uri s.server.languageId text) := by
  let documents := (k.documents.open path uri s.server.languageId text).2
  let notice := k.openNotice path uri s.server.languageId text
  have hupdated : (s.updateConnection c fun k => { k with documents }).connection? c =
      some { k with documents } := by
    rw [connection?_updateConnection, if_pos rfl, hk]
    rfl
  have htaken : ((s.updateConnection c fun k => { k with documents }).notify c notice).1 =
      .ok () := by
    rw [notify_of_connection hupdated, Link.notify_of_takes _ _ _ htakes]
  have htold : s.openDocument c path uri text =
      (.ok (), ((s.updateConnection c fun k => { k with documents }).notify c notice).2) := by
    simp only [openDocument, hk]
    exact Prod.ext htaken rfl
  have hserve : s.serve m i c =
      Session.finish ((s.updateConnection c fun k => { k with documents }).notify c notice).2 i
        (.ok .nothing) := by
    unfold serve
    simp only [hwork, huri, htold]
  have hneeds : s.NeedsServer i := by
    intro r hr
    rw [hwork] at hr
    cases hr
  constructor
  case works => exact (Serves.serve hneeds).toWorks
  case result =>
    obtain ⟨t, ht, -⟩ := Option.map_eq_some_iff.mp hwork
    have hstage : s.stage? i = some t.stage := by simp [stage?, ht]
    rw [hserve]
    exact stage?_setStage_self ((stage?_of_tasks (tasks_notify _ _ _) i).trans hstage)
  case connection =>
    rw [hserve]
    refine (connection?_tell s c c documents notice).trans ?_
    rw [if_pos rfl, hk, Option.map_some, Link.notify_of_takes _ _ _ htakes]
    rfl

theorem status_of_serving (h : s.Serving c) : s.status = .ready := by
  simp only [status, h.ready, h.opened]

theorem connection?_tidy_of_ready (h : s.lifecycle = .ready c) (hk : s.connection? c = some k) :
    s.tidy.connection? c = some k.reap := by
  have hheld : s.isHeld c = true := (isHeld_iff s c).mpr (.inl h)
  rw [connection?_tidy, hk, Option.map_some, if_pos hheld]

theorem Opened.tidy {s' : Session} (h : Opened s s' i c k) (hready : s.lifecycle = .ready c)
    (hopen : k.link.closing? = none) :
    s'.tidy.result? i = some (.ok .nothing) ∧ s'.tidy.Serving c ∧
      s'.tidy.connection? c = some k.reap := by
  have hready' : s'.lifecycle = .ready c := h.works.lifecycle.trans hready
  have hconnection := connection?_tidy_of_ready hready' h.connection
  have hresult : s'.tidy.stage? i = some (.done (.ok .nothing)) := h.result
  refine ⟨by rw [result?, hresult], ⟨hready', ?_⟩, hconnection⟩
  rw [hconnection]
  show k.reap.link.closing? = none
  rw [k.kept_reap.link, hopen]

theorem said_tidy {k' : Connection} (hk' : s.tidy.connection? c = some k') :
    ∃ k, s.connection? c = some k ∧ k'.link.said = k.link.said := by
  rw [connection?_tidy] at hk'
  obtain ⟨k, hk, rfl⟩ := Option.map_eq_some_iff.mp hk'
  refine ⟨k, hk, ?_⟩
  split
  · rw [k.kept_reap.link]
  · unfold Connection.release
    split
    · rfl
    · exact k.link.said_release

theorem Serving.takes (hg : s.Gated) (h : s.Serving c) :
    ∃ k, s.connection? c = some k ∧ k.link.takes = true := by
  obtain ⟨k, hk, hreleased, -⟩ := hg.ready h.ready
  have hopened := h.opened
  rw [hk] at hopened
  exact ⟨k, hk, k.link.takes_iff.mpr ⟨hopened, (hg.hale hk hreleased hopened).1⟩⟩

end Opening

/-- While the operation `i` waits, nothing else begins. The server of the connection `c` answers the
first request with this result, before the deadline, and keeps its connection up. -/
structure Obliges (s : Session) (i c deadline : Nat) (front : List Event) (result : Json)
    (middle : List Event) : Prop where
  beside : ∀ e ∈ front ++ middle, e.isBeside i = true
  inTime : ∀ m, .resume m i ∈ front → m.now < deadline
  waits : ∀ m, .resume m i ∉ middle
  silent : ∀ before after outcome, front = before ++ .read c :: after →
    ¬ (s.run before).Answers c outcome
  answer : (s.run front).Answers c (.ok result)
  up : (s.run (front ++ .read c :: middle)).Up c

/-- The server that serves is told about a document, and no other server is told anything. -/
structure Tells (s s' : Session) (c : Nat) (path : Path) (uri text : String) : Prop where
  result : s'.result? s.tasks.length = some (.ok .nothing)
  status : s'.status = .ready
  launches : s'.launches = s.launches
  told : ∃ k k' n, s.connection? c = some k ∧ s'.connection? c = some k' ∧
    k'.link.sent = k.link.sent ++ [Notice.message n] ∧
    (k.documents.get? path = none ∧
        n = ⟨"textDocument/didOpen", Params.opened uri s.server.languageId 1 text⟩ ∨
      ∃ d, k.documents.get? path = some d ∧
        n = ⟨"textDocument/didChange", Params.changed uri (d.version + 1) text⟩)
  silent : ∀ d k', d ≠ c → s'.connection? d = some k' →
    ∃ k, s.connection? d = some k ∧ k'.link.said = k.link.said

/-- One server has been launched, and has been told about a document after the handshake. -/
structure Restarts (s s' : Session) (uri text : String) : Prop where
  result : s'.result? s.tasks.length = some (.ok .nothing)
  status : s'.status = .ready
  launches : s'.launches = s.launches + 1
  told : ∃ k, s'.connection? s.connections.length = some k ∧ k.link.Hale ∧
    k.link.said =
      [Message.request 1 "initialize" (some (Params.handshake s.processId s.rootUri)),
        Message.notification "initialized" (some (.ofFields [])),
        Message.notification "textDocument/didOpen"
          (some (Params.opened uri s.server.languageId 1 text))]

/-- What becomes of an open that finds nobody at the gate. -/
structure Reopens (s : Session) (m : Moment) (path : Path) (uri text : String) : Prop where
  served : ∀ c, s.Serving c → Tells s (s.begin m (.open path text)) c path uri text
  restarted : (∀ c, ¬ s.Serving c) → ∀ hasProcess front result middle m',
    m.launch = .ok hasProcess → 0 < s.timeouts.handshake →
    (s.begin m (.open path text)).Obliges s.tasks.length s.connections.length
      (m.now + seconds s.timeouts.handshake) front result middle →
    ((s.begin m (.open path text)).run (front ++ .read s.connections.length :: middle)).isReady m'
      s.tasks.length = true ∧
    Restarts s ((s.begin m (.open path text)).run
      (front ++ .read s.connections.length :: (middle ++ [.resume m' s.tasks.length]))) uri text

section Reopening

variable {s : Session} {m : Moment} {i c : Nat} {path : Path} {uri text : String}

/-- The look that finds the answer goes on to the end, and leaves the server ready. -/
theorem Launching.restarts {s₀ : Session} {result : Json}
    (h : Launching s₀ m (.open path text) [] (.filled (.ok result)) s) (hg : s.Gated)
    (hup : s.Up s₀.connections.length) (huri : FileUri.ofPath? path = some uri) (m' : Moment) :
    Restarts s₀ (s.resume m' s₀.tasks.length) uri text := by
  obtain ⟨k, hk, hdocuments, hasked⟩ := h.connection
  obtain ⟨k', hk', hreleased, -⟩ := hg.held h.stage rfl
  obtain rfl : k = k' := Option.some.inj (hk.symm.trans hk')
  have hopen : k.link.closing? = none := by
    obtain ⟨k', hk', hup⟩ := hup
    obtain rfl : k = k' := Option.some.inj (hk.symm.trans hk')
    exact hup.opened
  have htakes : k.link.takes = true :=
    k.link.takes_iff.mpr ⟨hopen, (hg.hale hk hreleased hopen).1⟩
  -- the look takes the answer, and the document is told on the connection that this establishes
  obtain ⟨s₁, hreadied, hresume⟩ :=
    resume_of_answered (m := m') h.stage hk hasked.slot_eq htakes
  have hwork : s₁.work? s₀.tasks.length = some (.open path text) :=
    (work?_of_tasks hreadied.tasks _).trans h.work
  have htakes₁ := (k.takes_welcoming (s₀.handshakeCall m).ticket result).trans htakes
  have hopened := opened_serve (m := m') hwork huri hreadied.connection htakes₁
  obtain ⟨hresult, hserving, hconnection⟩ :=
    hopened.tidy hreadied.lifecycle (Link.takes_iff _ |>.mp htakes₁).1
  have hg' : (s.resume m' s₀.tasks.length).Gated := (hg.step (.resume m' s₀.tasks.length)).2
  rw [hresume] at hg' ⊢
  constructor
  case result => exact hresult
  case status => exact status_of_serving hserving
  case launches => exact (hopened.works.launches.trans hreadied.launches).trans h.launches
  case told =>
    refine ⟨_, hconnection, ?_, ?_⟩
    · obtain ⟨k', hk', hkept, -⟩ := hg'.ready hserving.ready
      obtain rfl := Option.some.inj (hconnection.symm.trans hk')
      exact hg'.hale hconnection hkept
    · have hunknown :
          (k.welcoming (s₀.handshakeCall m).ticket result).documents.get? path = none := by
        rw [Connection.welcoming, hdocuments]
        rfl
      rw [(Connection.kept_reap _).link, Connection.said_opening, Connection.said_welcoming,
        hasked.said, Connection.openNotice_of_unknown hunknown, hreadied.server.trans h.server]
      rfl

/-- A connection that serves is told about the document. -/
theorem Serving.tells (hg : s.Gated) (hcoherent : s.Coherent) (hc : s.Serving c)
    (huri : FileUri.ofPath? path = some uri) :
    Tells s (s.begin m (.open path text)) c path uri text := by
  obtain ⟨c', hc', heq⟩ | ⟨halone, -⟩ :=
    begin_cases (s := s) (m := m) (needsServer_open text huri)
  case inr => exact absurd hc (halone c)
  obtain rfl : c' = c := Lifecycle.ready.inj (hc'.ready.symm.trans hc.ready)
  obtain ⟨k, hk, htakes⟩ := hc.takes hg
  have hwork := s.work?_added_self (.open path text)
  have hopened := opened_serve (s := s.added (.open path text)) (m := m) hwork huri hk htakes
  obtain ⟨hresult, hserving, hconnection⟩ := hopened.tidy hc.ready (k.link.takes_iff.mp htakes).1
  rw [heq]
  constructor
  case result => exact hresult
  case status => exact status_of_serving hserving
  case launches => exact hopened.works.launches
  case told =>
    refine ⟨k, _, k.openNotice path uri s.server.languageId text, hk, hconnection, ?_, ?_⟩
    · rw [(Connection.kept_reap _).link]
      rfl
    · cases hd : k.documents.get? path with
      | none => exact .inl ⟨rfl, Connection.openNotice_of_unknown hd _ _ _⟩
      | some d =>
        have hsame := (((hcoherent.connections hk).mirrors htakes).known hd).1
        obtain rfl : uri = d.uri := Option.some.inj (huri.symm.trans hsame)
        exact .inr ⟨d, rfl, Connection.openNotice_of_known hd _ _ _⟩
  case silent =>
    intro d k' hd hk'
    obtain ⟨k₁, hk₁, hsaid⟩ := said_tidy hk'
    exact ⟨k₁, (hopened.works.connections.others d hd).symm.trans hk₁, hsaid⟩

/-- An open that finds no server launches one, and is through when that one has answered. -/
theorem restarts_of_obliges (hg : s.Gated) (hfree : s.gate = []) (halone : ∀ c, ¬ s.Serving c)
    (huri : FileUri.ofPath? path = some uri) {hasProcess : Bool}
    (hlaunch : m.launch = .ok hasProcess) (htime : 0 < s.timeouts.handshake)
    {front middle : List Event} {result : Json}
    (hobliges : (s.begin m (.open path text)).Obliges s.tasks.length s.connections.length
      (m.now + seconds s.timeouts.handshake) front result middle) (m' : Moment) :
    ((s.begin m (.open path text)).run (front ++ .read s.connections.length :: middle)).isReady m'
      s.tasks.length = true ∧
    Restarts s ((s.begin m (.open path text)).run
      (front ++ .read s.connections.length :: (middle ++ [.resume m' s.tasks.length]))) uri text := by
  have hlaunching := launching_begin text hfree halone huri hlaunch htime
  have hup := hobliges.up
  have hgated := (hg.step (.begin m (.open path text))).2
  rw [Session.step] at hgated
  have hcuts : (s.begin m (.open path text)).run
      (front ++ .read s.connections.length :: (middle ++ [.resume m' s.tasks.length])) =
      Session.resume (((((s.begin m (.open path text)).run front).step
        (.read s.connections.length))).run middle) m' s.tasks.length := by
    simp [run, Session.step]
  have hupto : (s.begin m (.open path text)).run (front ++ .read s.connections.length :: middle) =
      (((s.begin m (.open path text)).run front).step (.read s.connections.length)).run middle := by
    simp [run]
  rw [hupto] at hup
  rw [hcuts, hupto]
  -- until the server answers
  have hgated' := hgated.run front
  have hasks : Launching s m (.open path text) (Link.firstOwed "initialize") .empty
      ((s.begin m (.open path text)).run front) := by
    refine hlaunching.run hgated (fun e he => hobliges.beside e (List.mem_append_left _ he))
      (fun m₁ hm₁ => ⟨rfl, hobliges.inTime m₁ hm₁⟩) ?_ ?_
    · rintro before after rfl k v id outcome hk hv hid o ho rfl
      obtain rfl := List.mem_singleton.mp ho
      exact hobliges.silent before after outcome rfl ⟨k, v, hk, hv, hid⟩
    · obtain ⟨k, v, hk, -⟩ := hobliges.answer
      have hlt := (List.getElem?_eq_some_iff.mp hk).1
      have hstep := hgated'.step (.read s.connections.length)
      have hfades := (hgated'.fades hstep.1).trans (hstep.2.fades_run middle)
      exact hfades.up _ hlt hup
  -- and from then on
  have hanswered := hasks.answered hobliges.answer
  have hgated'' := (hgated'.step (.read s.connections.length)).2
  have hknows := hanswered.run hgated''
    (fun e he => hobliges.beside e (List.mem_append_right _ he))
    (fun m₁ hm₁ => absurd hm₁ (hobliges.waits m₁)) (fun _ _ _ _ _ _ _ _ _ _ o ho => by cases ho)
    hup
  exact ⟨hknows.isReady m', hknows.restarts (hgated''.run middle) hup huri m'⟩

end Reopening

/-- Whatever has happened to a session, if nobody is at the gate, an open comes
to its end and leaves the session ready. It goes to the server that there is, or launches one. -/
theorem exists_uri_reopens (language : String) (server : Setup.Server)
    (timeouts : Setup.Timeouts) (processId : Nat) (rootUri : String) (es : List Event)
    (hfree : ((new language server timeouts processId rootUri).run es).gate = [])
    (m : Moment) (path : Path) (habsolute : path.isAbsolute = true) (text : String) :
    ∃ uri, FileUri.ofPath? path = some uri ∧
      Reopens ((new language server timeouts processId rootUri).run es) m path uri text := by
  have hgated := (Gated.new language server timeouts processId rootUri).run es
  have hcoherent := (Coherent.new language server timeouts processId rootUri).run es
  obtain ⟨uri, huri⟩ := FileUri.exists_uri_of_isAbsolute habsolute
  refine ⟨uri, huri, ?_⟩
  constructor
  case served => exact fun c hc => hc.tells hgated hcoherent huri
  case restarted =>
    intro halone hasProcess front result middle m' hlaunch htime hobliges
    exact restarts_of_obliges hgated hfree halone huri hlaunch htime hobliges m'

/-- The message answers the first request, and its result is empty. -/
def grants : Incoming → Bool
  | .answer 1 (.ok .null) => true
  | _ => false

theorem eq_of_grants {incoming : Incoming} (h : grants incoming = true) :
    incoming = .answer 1 (.ok .null) := by
  unfold grants at h
  split at h
  · rfl
  · cases h

/-- A launch fails, a start is dropped, and a server goes away before it has answered. -/
def mishaps : List Event :=
  let m : Moment := ⟨0, .ok true, fun _ => .ok [], fun _ => false⟩
  let path : Path := ⟨[0x2F, 0x61]⟩
  [.begin { m with launch := .error (.crashed "lua") } (.open path "one"),
    .begin m (.open path "two"), .cancel 1, .begin m (.open path "three"), .endInput 1, .read 1,
    .resume m 2]

theorem exists_uri_reopens_mishaps :
    let m : Moment := ⟨0, .ok true, fun _ => .ok [], fun _ => false⟩
    let path : Path := ⟨[0x2F, 0x61]⟩
    let s := (new "lua" ⟨"luals", [], "lua", []⟩ {} 1 "file:///").run mishaps
    let answer := Frame.write (Message.answer (.nat 1) .null)
    s.gate = [] ∧ path.isAbsolute = true ∧
      Restarts s ((s.begin m (.open path "four")).run
        [.receive 2 answer, .read 2, .resume m 3]) "file:///a" "four" := by
  intro m path s answer
  have hfree : s.gate = [] := by decide +kernel
  have habsolute : path.isAbsolute = true := by decide +kernel
  refine ⟨hfree, habsolute, ?_⟩
  obtain ⟨uri, huri, hreopens⟩ := exists_uri_reopens "lua" ⟨"luals", [], "lua", []⟩ {} 1
    "file:///" mishaps hfree m path habsolute "four"
  have hpath : FileUri.ofPath? path = some "file:///a" := by decide +kernel
  obtain rfl : "file:///a" = uri := Option.some.inj (hpath.symm.trans huri)
  have halone (c : Nat) : ¬ s.Serving c := by
    intro hc
    have hnone : s.live?.1 = none := by decide +kernel
    rw [live?_of_serving hc] at hnone
    cases hnone
  have hrestarts := hreopens.restarted halone true [.receive 2 answer] .null [] m rfl
    (by decide +kernel)
  rw [show s.connections.length = 2 by decide +kernel,
    show s.tasks.length = 3 by decide +kernel] at hrestarts
  refine (hrestarts ?_).2
  constructor
  case beside => simp [Event.isBeside]
  case inTime => simp
  case waits => simp
  case silent =>
    intro before after outcome heq
    cases before <;> simp at heq
  case answer =>
    have hnext : (((s.begin m (.open path "four")).run [.receive 2 answer]).connection? 2).any
        (fun k => (k.link.nextFrame?.bind Incoming.ofJson?).any grants) = true := by
      decide +kernel
    obtain ⟨k, hk, hnext⟩ := (Option.any_eq_true _ _).mp hnext
    obtain ⟨incoming, hincoming, hanswers⟩ := (Option.any_eq_true _ _).mp hnext
    obtain ⟨v, hv, hread⟩ := Option.bind_eq_some_iff.mp hincoming
    exact ⟨k, v, hk, hv, hread.trans (congrArg some (eq_of_grants hanswers))⟩
  case up =>
    have hopen : (((s.begin m (.open path "four")).run
        ([.receive 2 answer] ++ [.read 2])).connection? 2).any
          (fun k => k.link.closing?.isNone && !k.released) = true := by decide +kernel
    obtain ⟨k, hk, hopen⟩ := (Option.any_eq_true _ _).mp hopen
    rw [Bool.and_eq_true, Option.isNone_iff_eq_none, Bool.not_eq_true'] at hopen
    exact ⟨k, hk, hopen.1, fun hreleased => by rw [hopen.2] at hreleased; cases hreleased⟩

end LanguageClient.Session