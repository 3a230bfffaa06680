import LanguageClient.Proofs.Documents.Quiet
import LanguageClient.Proofs.Session.Events

namespace LanguageClient.Session

namespace Connection

/-- From one connection to the other, the documents are the same and none is mentioned. -/
structure Quiet (k k' : Connection) : Prop where
  documents : k'.documents = k.documents
  link : k.link.Quiet k'.link

/-- The messages sent so far make sense, and those to come will. -/
structure Coherent (k : Connection) : Prop where
  orderly : Orderly k.link.sent
  mirrors : k.link.takes = true → k.documents.Mirrors (Replica.ofSent k.link.sent)

variable {k k' : Connection}

theorem Coherent.quiet (h : k.Coherent) (hquiet : k.Quiet k') : k'.Coherent := by
  obtain ⟨hd, ⟨os, hs, hos⟩, ht⟩ := hquiet
  constructor
  case orderly =>
    rw [hs]
    exact h.orderly.append_silent hos
  case mirrors =>
    intro htakes
    rw [hd, hs, Replica.ofSent_append_silent _ hos]
    exact h.mirrors (ht htakes)

/-- A connection that takes no more messages stays as it is, whatever becomes of its table. -/
theorem Coherent.deaf (h : k.Coherent) (hs : k'.link.sent = k.link.sent)
    (ht : k'.link.takes = false) : k'.Coherent := by
  constructor
  case orderly =>
    rw [hs]
    exact h.orderly
  case mirrors =>
    intro htakes
    rw [ht] at htakes
    cases htakes

theorem Coherent.tell (h : k.Coherent) {n : Notice} {ds : OpenDocuments}
    (hn : k.documents.Tells n ds) :
    Coherent { k with documents := ds, link := (k.link.notify n.method (some n.params)).2 } := by
  -- a link that takes nothing keeps its messages, and what the table holds then is of no account
  cases ht : k.link.takes with
  | false =>
    rw [k.link.notify_of_not_takes _ _ ht]
    exact h.deaf rfl ht
  | true =>
    obtain ⟨m, hm, hproper, hmirrors⟩ := hn _ (h.mirrors ht)
    rw [k.link.notify_of_takes _ _ ht]
    have hafter : (Replica.ofSent k.link.sent).receive n.message =
        (Replica.ofSent k.link.sent).learn m := by
      unfold Replica.receive
      rw [hm]
    constructor
    case orderly =>
      refine h.orderly.append_one fun m' hm' => ?_
      have heq : m = m' := Option.some.inj (hm.symm.trans hm')
      exact heq ▸ hproper
    case mirrors =>
      intro _
      show ds.Mirrors (Replica.ofSent (k.link.sent ++ [n.message]))
      rw [Replica.ofSent_append_one, hafter]
      exact hmirrors

theorem Coherent.ask (h : k.Coherent) {q : Query} {uri : String}
    (hd : k.link.takes = true → ∃ p d, k.documents.get? p = some d ∧ d.uri = uri ∧
      ∀ place, q.position? = some place → d.holds place = true) (now timeout : Nat) :
    Coherent { k with
      link := (k.link.call now timeout q.method (some (q.params uri))).2 } := by
  have hsent := k.link.sent_call now timeout q.method (some (q.params uri))
  cases ht : k.link.takes with
  | false =>
    rw [ht] at hsent
    exact h.deaf hsent ((Link.takes_call ..).trans ht)
  | true =>
    rw [ht, if_pos rfl] at hsent
    obtain ⟨p, d, hp, rfl, hplace⟩ := hd ht
    obtain ⟨-, n, text, hknown, -, hlines⟩ := (h.mirrors ht).known hp
    have hmention := Outgoing.mention?_request k.link.nextId q.method (some (q.params d.uri))
    rw [q.isAboutDocument_method, if_pos rfl, q.uriOf_params, q.placeOf_params] at hmention
    constructor
    case orderly =>
      rw [hsent]
      refine h.orderly.append_one fun m hm => ?_
      have heq := Option.some.inj (hmention.symm.trans hm)
      subst heq
      refine ⟨n, text, hknown, fun hplaced => ?_⟩
      obtain ⟨place, hq⟩ := Query.position?_of_placed hplaced
      exact ⟨place, hq, (OpenDocument.holds_iff hlines place).mp (hplace place hq)⟩
    case mirrors =>
      intro _
      have hafter (r : Replica) :
          r.receive (.frame (Message.request k.link.nextId q.method (some (q.params d.uri)))) =
            r := by
        unfold Replica.receive
        rw [hmention]
        rfl
      show k.documents.Mirrors (Replica.ofSent _)
      rw [hsent, Replica.ofSent_append_one, hafter]
      exact h.mirrors ht

theorem Coherent.start (language : String) (process : Process) :
    Coherent { link := Link.start language, process } := by
  constructor
  case orderly => exact Orderly.nil
  case mirrors => exact fun _ => OpenDocuments.Mirrors.empty

theorem quiet_reap (k : Connection) : k.Quiet k.reap := by
  unfold reap
  split
  · exact ⟨rfl, .refl _⟩
  · exact ⟨rfl, .refl _⟩
  · split <;> exact ⟨rfl, .refl _⟩

theorem quiet_release (k : Connection) : k.Quiet k.release := by
  unfold release
  split
  · exact ⟨rfl, .refl _⟩
  · exact ⟨rfl, k.link.quiet_release⟩

end Connection

/-- The connections are coherent, and whoever waits for a file knows the URI of its path. -/
structure Coherent (s : Session) : Prop where
  connections : ∀ {c : Nat} {k : Connection}, s.connection? c = some k → k.Coherent
  reading : ∀ {i c : Nat} {uri : String} {path : Path} {q : Query},
    s.stage? i = some (.reading c uri) → s.work? i = some (.query path q) →
    FileUri.ofPath? path = some uri

/-- A query is either answered at once with nothing, or sent about a place that the document holds. -/
theorem ask_cases (s : Session) (m : Moment) (i : Nat) (path : Path) (q : Query) (c : Nat)
    (uri : String) :
    s.ask m i path q c uri = s.finish i (.ok q.empty) ∨
      (∀ {k d place}, s.connection? c = some k → k.documents.get? path = some d →
        q.position? = some place → d.holds place = true) ∧
      ((∃ f s', s.call m c (seconds s.timeouts.request) q.method (some (q.params uri)) =
          (.error f, s') ∧ s.ask m i path q c uri = s'.finish i (.error f)) ∨
        ∃ call s', s.call m c (seconds s.timeouts.request) q.method (some (q.params uri)) =
          (.ok call, s') ∧ s.ask m i path q c uri = s'.checkAsking m i q c call) := by
  unfold ask
  extract_lets k inside provided
  by_cases hcond : (inside && provided) = true
  · right
    rw [if_pos hcond]
    refine ⟨fun {k' d place} hk hd hq => ?_, ?_⟩
    · have hinside : inside = true := ((Bool.and_eq_true _ _).mp hcond).1
      simpa [inside, k, hk, hd, hq] using hinside
    · cases heq : s.call m c (seconds s.timeouts.request) q.method (some (q.params uri)) with
      | mk r s' =>
        cases r with
        | error f => exact .inl ⟨f, s', rfl, rfl⟩
        | ok call => exact .inr ⟨call, s', rfl, rfl⟩
  · left
    rw [if_neg hcond]

namespace Coherent

variable {s s' : Session} {m : Moment} {i c : Nat}

theorem of_eq (h : s.Coherent) (hc : s'.connections = s.connections) (ht : s'.tasks = s.tasks) :
    s'.Coherent := by
  constructor
  case connections =>
    intro c k hk
    unfold connection? at hk
    rw [hc] at hk
    exact h.connections hk
  case reading =>
    intro i c uri path q hstage hwork
    unfold stage? at hstage
    unfold work? at hwork
    rw [ht] at hstage hwork
    exact h.reading hstage hwork

theorem updateConnection (h : s.Coherent) {f : Connection → Connection}
    (hf : ∀ k, s.connection? c = some k → (f k).Coherent) : (s.updateConnection c f).Coherent := by
  constructor
  case connections =>
    intro j k hk
    rw [connection?_updateConnection] at hk
    split at hk
    · obtain ⟨k', hk', rfl⟩ := Option.map_eq_some_iff.mp hk
      exact hf k' hk'
    · exact h.connections hk
  case reading => exact h.reading

theorem updateQuiet (h : s.Coherent) {f : Connection → Connection}
    (hf : ∀ k : Connection, k.Quiet (f k)) : (s.updateConnection c f).Coherent :=
  h.updateConnection fun k hk => (h.connections hk).quiet (hf k)

theorem setStage (h : s.Coherent) {stage : Stage}
    (hs : ∀ c uri path q, stage = .reading c uri → s.work? i = some (.query path q) →
      FileUri.ofPath? path = some uri) : (s.setStage i stage).Coherent := by
  constructor
  case connections => exact h.connections
  case reading =>
    intro j c uri path q hstage hwork
    rw [stage?_setStage] at hstage
    rw [work?_setStage] at hwork
    split at hstage
    · rename_i hj
      obtain ⟨_, -, hstage⟩ := Option.map_eq_some_iff.mp hstage
      exact hs c uri path q hstage (hj ▸ hwork)
    · exact h.reading hstage hwork

theorem setOther (h : s.Coherent) {stage : Stage} (hs : ∀ c uri, stage ≠ .reading c uri) :
    (s.setStage i stage).Coherent :=
  h.setStage fun c uri _ _ heq => absurd heq (hs c uri)

theorem finish (h : s.Coherent) (r : Except Failure Answer) : (s.finish i r).Coherent :=
  h.setOther (by simp)

theorem leaveGate (h : s.Coherent) : (s.leaveGate i).Coherent :=
  h.of_eq rfl rfl

theorem setLifecycle (h : s.Coherent) (lifecycle : Lifecycle) :
    Coherent { s with lifecycle } :=
  h.of_eq rfl rfl

theorem setLink (h : s.Coherent) {k : Connection} (hk : s.connection? c = some k) {l : Link}
    (hl : k.link.Quiet l) : (s.setLink c l).Coherent := by
  refine h.updateConnection fun k' hk' => ?_
  have heq : k = k' := Option.some.inj (hk.symm.trans hk')
  subst heq
  exact (h.connections hk).quiet ⟨rfl, hl⟩

theorem tidy (h : s.Coherent) : s.tidy.Coherent := by
  constructor
  case connections =>
    intro c k hk
    rw [connection?_tidy] at hk
    obtain ⟨k', hk', rfl⟩ := Option.map_eq_some_iff.mp hk
    split
    · exact (h.connections hk').quiet k'.quiet_reap
    · exact (h.connections hk').quiet k'.quiet_release
  case reading => exact h.reading

theorem live? (h : s.Coherent) : s.live?.2.Coherent := by
  unfold Session.live?
  split
  · split
    · exact h
    · exact h.setLifecycle _
  · exact h

theorem pollCall (h : s.Coherent) (call : Call) : (s.pollCall m c call).2.Coherent := by
  unfold Session.pollCall
  cases hk : s.connection? c with
  | none => exact h
  | some k => exact h.setLink hk (k.link.quiet_poll m.now call)

theorem notify (h : s.Coherent) {n : Notice}
    (hn : Mention.ofIncoming? (.notification n.method (some n.params)) = none) :
    (s.notify c n).2.Coherent := by
  unfold Session.notify
  cases hk : s.connection? c with
  | none => exact h
  | some k => exact h.setLink hk (k.link.quiet_notify hn)

theorem call (h : s.Coherent) {method : String} (hm : Mention.isAboutDocument method = false)
    (timeout : Nat) (params : Option Json) : (s.call m c timeout method params).2.Coherent := by
  unfold Session.call
  cases hk : s.connection? c with
  | none => exact h
  | some k => exact h.setLink hk (k.link.quiet_call hm m.now timeout params)

theorem abandonCall (h : s.Coherent) (call : Call) : (s.abandonCall c call).Coherent := by
  exact h.updateQuiet fun k => ⟨rfl, k.link.quiet_abandon call⟩

theorem tell (h : s.Coherent) {k : Connection} (hk : s.connection? c = some k) {n : Notice}
    {documents : OpenDocuments} (hn : k.documents.Tells n documents) :
    ((s.updateConnection c fun k => { k with documents }).notify c n).2.Coherent := by
  have htasks : ((s.updateConnection c fun k => { k with documents }).notify c n).2.tasks =
      s.tasks := tasks_notify ..
  constructor
  case connections =>
    intro j k' hk'
    rw [connection?_tell] at hk'
    split at hk'
    · rw [hk] at hk'
      cases hk'
      exact (h.connections hk).tell hn
    · exact h.connections hk'
  case reading =>
    intro i c uri path q hstage hwork
    unfold stage? at hstage
    unfold work? at hwork
    rw [htasks] at hstage hwork
    exact h.reading hstage hwork

theorem checkAsking (h : s.Coherent) (q : Query) (call : Call) :
    (s.checkAsking m i q c call).Coherent := by
  have hpoll := h.pollCall (m := m) (c := c) call
  unfold Session.checkAsking
  split
  · rename_i heq
    rw [heq] at hpoll
    exact hpoll.setOther (by simp)
  · rename_i heq
    rw [heq] at hpoll
    exact hpoll.finish _

theorem ask (h : s.Coherent) {path : Path} {q : Query} {uri : String}
    (hd : ∀ k, s.connection? c = some k → k.link.takes = true →
      ∃ d, k.documents.get? path = some d ∧ d.uri = uri) :
    (s.ask m i path q c uri).Coherent := by
  obtain heq | ⟨hplace, hask⟩ := s.ask_cases m i path q c uri
  · rw [heq]
    exact h.finish _
  · have hcall : (s.call m c (seconds s.timeouts.request) q.method
        (some (q.params uri))).2.Coherent := by
      unfold Session.call
      cases hk : s.connection? c with
      | none => exact h
      | some k =>
        refine h.updateConnection fun k' hk' => ?_
        have heq : k = k' := Option.some.inj (hk.symm.trans hk')
        subst heq
        refine (h.connections hk).ask (fun ht => ?_) _ _
        obtain ⟨d, hget, huri⟩ := hd k hk ht
        exact ⟨path, d, hget, huri, fun place hq => hplace hk hget hq⟩
    obtain ⟨f, s', heq, hask⟩ | ⟨call, s', heq, hask⟩ := hask
    · rw [heq] at hcall
      rw [hask]
      exact hcall.finish _
    · rw [heq] at hcall
      rw [hask]
      exact hcall.checkAsking q call

theorem openDocument (h : s.Coherent) {path : Path} {uri : String}
    (hp : FileUri.ofPath? path = some uri) (text : String) :
    (s.openDocument c path uri text).2.Coherent := by
  unfold Session.openDocument
  cases hk : s.connection? c with
  | none => exact h
  | some k => exact h.tell hk (OpenDocuments.open_tells hp s.server.languageId rfl)

end Coherent

theorem connection?_openDocument (s : Session) (c j : Nat) (path : Path) (uri text : String) :
    (s.openDocument c path uri text).2.connection? j =
      if j = c then (s.connection? c).map fun k =>
        { k with
          documents := (k.documents.open path uri s.server.languageId text).2
          link := (k.link.notify (k.documents.open path uri s.server.languageId text).1.method
            (some (k.documents.open path uri s.server.languageId text).1.params)).2 }
      else s.connection? j := by
  unfold openDocument
  cases hk : s.connection? c with
  | none =>
    show s.connection? j = _
    split
    · rename_i hj
      rw [hj, hk]
      rfl
    · rfl
  | some k =>
    show ((s.updateConnection c _).notify c _).2.connection? j = _
    rw [connection?_tell, hk]
    rfl

theorem get?_openDocument {s : Session} {c : Nat} {path : Path} {uri text : String}
    (hclosed : (s.connection? c).bind (·.documents.get? path) = none) {k : Connection}
    (hk : (s.openDocument c path uri text).2.connection? c = some k) :
    ∃ d, k.documents.get? path = some d ∧ d.uri = uri := by
  rw [connection?_openDocument, if_pos rfl] at hk
  obtain ⟨k', hk', rfl⟩ := Option.map_eq_some_iff.mp hk
  rw [hk', Option.bind_some] at hclosed
  have hopen := OpenDocuments.open_of_get?_eq_none hclosed uri s.server.languageId text
  refine ⟨⟨uri, 1, lineLengths text⟩, ?_, rfl⟩
  show (k'.documents.open path uri s.server.languageId text).2.get? path = _
  rw [hopen, OpenDocuments.get?_set, if_pos rfl]

namespace Coherent

variable {s : Session} {m : Moment} {i c : Nat}

theorem afterReading (h : s.Coherent) {path : Path} {q : Query} {uri : String}
    (hp : FileUri.ofPath? path = some uri) : (s.afterReading m i path q c uri).Coherent := by
  unfold Session.afterReading
  cases hdisk : m.disk path with
  | error e => exact h.finish _
  | ok bytes =>
    simp only
    split
    · rename_i hopen
      refine h.ask fun k hk ht => ?_
      rw [hk, Option.bind_some] at hopen
      obtain ⟨d, hd⟩ := Option.isSome_iff_exists.mp hopen
      obtain ⟨huri, -⟩ := ((h.connections hk).mirrors ht).known hd
      exact ⟨d, hd, Option.some.inj (huri.symm.trans hp)⟩
    · -- nobody has opened the document while the file was read
      rename_i hclosed
      have hclosed : (s.connection? c).bind (·.documents.get? path) = none := by
        simpa using hclosed
      have hafter := h.openDocument (c := c) hp (String.ofList (Utf8.lossy bytes))
      split
      · rename_i heq
        rw [heq] at hafter
        exact hafter.finish _
      · rename_i heq
        rw [heq] at hafter
        refine hafter.ask fun k hk _ => get?_openDocument hclosed (by rw [heq]; exact hk)

theorem serve (h : s.Coherent) : (s.serve m i c).Coherent := by
  unfold Session.serve
  split
  · split
    · exact h.finish _
    · rename_i path text _ _ uri hp
      have hafter := h.openDocument (c := c) hp text
      split
      · rename_i heq
        rw [heq] at hafter
        exact hafter.finish _
      · rename_i heq
        rw [heq] at hafter
        exact hafter.finish _
  · rename_i path q hwork
    split
    · rename_i d hd
      refine h.ask fun k hk _ => ⟨d, ?_, rfl⟩
      rwa [hk, Option.bind_some] at hd
    · split
      · exact h.finish _
      · rename_i uri hp
        refine h.setStage ?_
        intro c' uri' path' q' hstage hwork'
        rw [hwork] at hwork'
        cases hstage
        cases hwork'
        exact hp
  · exact h

theorem failStart (h : s.Coherent) (f : Failure) : (s.failStart i c f).Coherent := by
  have hclosed : (s.updateConnection c fun k =>
      { k with link := k.link.close, killed := k.killed || k.process != .absent }).Coherent :=
    h.updateQuiet fun k => ⟨rfl, k.link.quiet_close⟩
  exact (hclosed.setLifecycle _).leaveGate.finish _

theorem isAboutDocument_initialize : Mention.isAboutDocument "initialize" = false := by
  decide

theorem isAboutDocument_shutdown : Mention.isAboutDocument "shutdown" = false := by
  decide

theorem establish (h : s.Coherent) (result : Json) : (s.establish m i c result).Coherent := by
  have hnotify := h.notify (c := c) (n := ⟨"initialized", .ofFields []⟩) rfl
  unfold Session.establish
  split
  · rename_i heq
    rw [heq] at hnotify
    exact hnotify.failStart _
  · rename_i s' heq
    rw [heq] at hnotify
    have hready : (s'.updateConnection c fun k =>
        { k with abilities := Abilities.ofHandshake result, established := true }).Coherent :=
      hnotify.updateQuiet fun k => ⟨rfl, .refl k.link⟩
    exact (hready.setLifecycle _).leaveGate.serve

theorem checkHandshake (h : s.Coherent) (call : Call) :
    (s.checkHandshake m i c call).Coherent := by
  have hpoll := h.pollCall (m := m) (c := c) call
  unfold Session.checkHandshake
  split
  · rename_i heq
    rw [heq] at hpoll
    exact hpoll.setOther (by simp)
  · rename_i heq
    rw [heq] at hpoll
    exact hpoll.failStart _
  · rename_i heq
    rw [heq] at hpoll
    exact hpoll.establish _

theorem addConnection (h : s.Coherent) {k : Connection} (hk : k.Coherent) :
    Coherent { s with connections := s.connections ++ [k] } := by
  constructor
  case connections =>
    intro j k' hk'
    have hk' : (s.connections ++ [k])[j]? = some k' := hk'
    rw [List.getElem?_append] at hk'
    split at hk'
    · exact h.connections hk'
    · obtain rfl := List.mem_singleton.mp (List.mem_of_getElem? hk')
      exact hk
  case reading => exact h.reading

theorem start (h : s.Coherent) : (s.start m i).Coherent := by
  unfold Session.start
  extract_lets starting fresh
  have hstarting : starting.Coherent := h.of_eq rfl rfl
  split
  · exact (hstarting.setLifecycle _).leaveGate.finish _
  · rename_i hasProcess _
    extract_lets k waiting
    have hk : k.Coherent := Connection.Coherent.start _ _
    have hwaiting : waiting.Coherent := (hstarting.addConnection hk).setLifecycle _
    have hcall := hwaiting.call (m := m) (c := fresh) isAboutDocument_initialize
      (seconds waiting.timeouts.handshake)
      (some (Params.handshake waiting.processId waiting.rootUri))
    split
    · rename_i heq
      rw [heq] at hcall
      exact hcall.failStart _
    · rename_i heq
      rw [heq] at hcall
      exact hcall.checkHandshake _

theorem finishShutdown (h : s.Coherent) (restartable : Bool) :
    (s.finishShutdown i restartable).Coherent :=
  (h.setLifecycle _).leaveGate.finish _

theorem checkKilling (h : s.Coherent) (restartable : Bool) :
    (s.checkKilling m i restartable c).Coherent := by
  unfold Session.checkKilling
  split
  · exact h.finishShutdown _
  · exact h.setOther (by simp)

theorem checkReaping (h : s.Coherent) (restartable : Bool) (deadline : Nat) :
    (s.checkReaping m i restartable c deadline).Coherent := by
  unfold Session.checkReaping
  split
  · exact h.finishShutdown _
  · split
    · exact h.setOther (by simp)
    · have hkilled : (s.updateConnection c fun k => { k with killed := true }).Coherent :=
        h.updateQuiet fun k => ⟨rfl, .refl k.link⟩
      exact hkilled.checkKilling _

theorem closeUp (h : s.Coherent) (restartable : Bool) :
    (s.closeUp m i restartable c).Coherent := by
  have hclosed : (s.updateConnection c fun k => { k with link := k.link.close }).Coherent :=
    h.updateQuiet fun k => ⟨rfl, k.link.quiet_close⟩
  unfold Session.closeUp
  extract_lets closed
  split
  · have htaken : (closed.updateConnection c fun k => { k with process := .taken }).Coherent :=
      hclosed.updateQuiet fun k => ⟨rfl, .refl k.link⟩
    exact htaken.checkReaping _ _
  · exact hclosed.finishShutdown _

theorem checkStopping (h : s.Coherent) (restartable : Bool) (call : Call) :
    (s.checkStopping m i restartable c call).Coherent := by
  have hpoll := h.pollCall (m := m) (c := c) call
  unfold Session.checkStopping
  split
  · rename_i heq
    rw [heq] at hpoll
    exact hpoll.setOther (by simp)
  · rename_i heq
    rw [heq] at hpoll
    exact hpoll.closeUp _
  · rename_i s' heq
    rw [heq] at hpoll
    cases hk : s'.connection? c with
    | none => exact hpoll.closeUp _
    | some k => exact (hpoll.setLink hk (k.link.quiet_notify rfl)).closeUp _

theorem stop (h : s.Coherent) (restartable : Bool) : (s.stop m i restartable).Coherent := by
  unfold Session.stop
  extract_lets before stopping
  have hstopping : stopping.Coherent := h.setLifecycle _
  clear_value before
  split
  · rename_i _ c
    split
    · exact hstopping.closeUp _
    · have hcall := hstopping.call (m := m) (c := c) isAboutDocument_shutdown
        (seconds stopping.timeouts.shutdown) none
      split
      · rename_i heq
        rw [heq] at hcall
        exact hcall.closeUp _
      · rename_i heq
        rw [heq] at hcall
        exact hcall.checkStopping _ _
  · exact hstopping.finishShutdown _

theorem takeTurn (h : s.Coherent) : (s.takeTurn m i).Coherent := by
  have hlive := h.live?
  unfold Session.takeTurn
  split
  · exact h.stop _
  · split
    · rename_i heq
      rw [heq] at hlive
      exact hlive.leaveGate.serve
    · rename_i heq
      rw [heq] at hlive
      exact hlive.start

theorem enterGate (h : s.Coherent) : (s.enterGate m i).Coherent := by
  unfold Session.enterGate
  extract_lets free queued
  have hqueued : queued.Coherent := h.of_eq rfl rfl
  split
  · exact hqueued.takeTurn
  · exact hqueued

theorem stretch (h : s.Coherent) : (s.stretch m i).Coherent := by
  unfold Session.stretch
  cases ht : s.tasks[i]? with
  | none => exact h
  | some t =>
    simp only
    split
    · split
      · exact h.takeTurn
      · exact h
    · exact h.checkHandshake _
    · rename_i c uri path q hstage hwork
      refine h.afterReading (h.reading (i := i) (c := c) (q := q) ?_ ?_)
      · simp [stage?, ht, hstage]
      · simp [work?, ht, hwork]
    · exact h.checkAsking _ _
    · exact h.checkStopping _ _
    · exact h.checkReaping _ _
    · exact h.checkKilling _
    · exact h

theorem resume (h : s.Coherent) : (s.resume m i).Coherent :=
  h.stretch.tidy

theorem addTask (h : s.Coherent) (w : Work) :
    Coherent { s with tasks := s.tasks ++ [(⟨w, .queued⟩ : Task)] } := by
  constructor
  case connections => exact h.connections
  case reading =>
    intro j c uri path q hstage hwork
    have hstage : ((s.tasks ++ [(⟨w, .queued⟩ : Task)])[j]?).map (·.stage) =
      some (.reading c uri) := hstage
    have hwork : ((s.tasks ++ [(⟨w, .queued⟩ : Task)])[j]?).map (·.work) =
      some (.query path q) := hwork
    by_cases hj : j < s.tasks.length
    · rw [List.getElem?_append_left hj] at hstage hwork
      exact h.reading hstage hwork
    · rw [List.getElem?_append_right (by omega)] at hstage
      obtain ⟨t, ht, hstage⟩ := Option.map_eq_some_iff.mp hstage
      obtain rfl := List.mem_singleton.mp (List.mem_of_getElem? ht)
      cases hstage

theorem begin (h : s.Coherent) (w : Work) : (s.begin m w).Coherent := by
  have hadded := h.addTask w
  have hlive := hadded.live?
  unfold Session.begin
  extract_lets i added done
  refine Coherent.tidy ?_
  cases w with
  | shutdown restartable => exact hadded.enterGate
  | «open» path text =>
    simp only [done]
    split
    · exact hadded.finish _
    · split
      · rename_i heq
        rw [heq] at hlive
        exact hlive.serve
      · rename_i heq
        rw [heq] at hlive
        exact hlive.enterGate
  | query path q =>
    simp only [done]
    split
    · rename_i heq
      rw [heq] at hlive
      exact hlive.serve
    · rename_i heq
      rw [heq] at hlive
      exact hlive.enterGate

theorem cancel (h : s.Coherent) : (s.cancel i).Coherent := by
  unfold Session.cancel
  split
  · exact h
  · exact h
  · exact h
  · rename_i stage _ _ _
    extract_lets given
    have hgiven : given.Coherent := by
      simp only [given]
      split
      · exact h.abandonCall _
      · exact h.abandonCall _
      · exact h.abandonCall _
      · exact h.updateQuiet fun k => ⟨rfl, .refl k.link⟩
      · exact h
    exact (hgiven.setOther (by simp)).leaveGate.tidy

theorem change (h : s.Coherent) (path : Path) (text : String) :
    (s.change path text).2.Coherent := by
  have hlive := h.live?
  unfold Session.change
  cases hl : s.live? with
  | mk c? s' =>
    rw [hl] at hlive
    cases c? with
    | none => exact hlive.tidy
    | some c =>
      cases hchange : (s'.connection? c).bind (·.documents.change? path text) with
      | none =>
        simp only [hchange]
        exact hlive.tidy
      | some told =>
        obtain ⟨notice, documents⟩ := told
        simp only [hchange]
        obtain ⟨k, hk, hchange⟩ := Option.bind_eq_some_iff.mp hchange
        exact (hlive.tell hk (OpenDocuments.change?_tells hchange)).tidy

theorem close (h : s.Coherent) (path : Path) : (s.close path).Coherent := by
  have hlive := h.live?
  unfold Session.close
  refine Coherent.tidy ?_
  split
  · rename_i heq
    rw [heq] at hlive
    exact hlive
  · rename_i c s' heq
    rw [heq] at hlive
    split
    · exact hlive
    · rename_i notice documents hclose
      obtain ⟨k, hk, hclose⟩ := Option.bind_eq_some_iff.mp hclose
      exact hlive.tell hk (OpenDocuments.close?_tells hclose)

theorem step (h : s.Coherent) (e : Event) : (s.step e).Coherent := by
  cases e with
  | begin m w => exact h.begin w
  | resume m i => exact h.resume
  | cancel i => exact h.cancel
  | change path text => exact h.change path text
  | close path => exact h.close path
  | read c =>
    obtain ⟨heq, -⟩ | ⟨k, l, p, hk, hread, heq⟩ := s.step_read_cases c
    · rw [heq]
      exact h
    · rw [heq]
      exact (h.setLink hk (Link.quiet_readNext? hread)).tidy
  | write c accepted =>
    obtain ⟨heq, -⟩ | ⟨k, what, l, hk, hwrite, heq⟩ := s.step_write_cases c accepted
    · rw [heq]
      exact h
    · rw [heq]
      exact h.setLink hk (Link.quiet_writeNext? hwrite)
  | receive c bs => exact h.updateQuiet fun k => ⟨rfl, .refl k.link⟩
  | endInput c => exact h.updateQuiet fun k => ⟨rfl, .refl k.link⟩
  | tidy => exact h.tidy

theorem new (language : String) (server : Setup.Server) (timeouts : Setup.Timeouts)
    (processId : Nat) (rootUri : String) :
    (new language server timeouts processId rootUri).Coherent := by
  constructor
  case connections =>
    intro c k hk
    cases hk
  case reading =>
    intro i c uri path q hstage
    cases hstage

theorem run (h : s.Coherent) (es : List Event) : (s.run es).Coherent := by
  induction es using List.reverseRecOn with
  | nil => exact h
  | append_singleton es e ih =>
    rw [run_append_one]
    exact ih.step e

end Coherent
end LanguageClient.Session
