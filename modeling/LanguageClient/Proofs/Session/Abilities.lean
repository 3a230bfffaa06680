import LanguageClient.Proofs.Session.Answering

namespace LanguageClient.Session

variable {s s' s₀ : Session} {m : Moment} {i c : Nat} {call : Call} {path : Path} {q : Query}
  {e : Event} {es : List Event} {k : Connection} {result : Json}

/-- The reader comes to this answer to the handshake, for which somebody waits. -/
def Introduces (c : Nat) (result : Json) (s : Session) (e : Event) : Prop :=
  e = .read c ∧ ∃ i call, s.Greets i c call ∧ s.Hears c call (.ok result)

/-- The server of the connection is known by this answer to the handshake, or will be as soon as
whoever waits for the answer looks at it. -/
def Knows (s : Session) (c : Nat) (result : Json) : Prop :=
  ∀ k, s.connection? c = some k → k.Able (Abilities.ofHandshake result) ∨
    k.established = false ∧ ∀ i call, s.Greets i c call → k.HasReply call.ticket (.ok result)

section Knowing

theorem lasting_unestablished :
    Lasting (fun k : Connection => k.established = false) fun _ => True where
  link h _ := h
  rest h _ _ hestablished := hestablished.trans h
  fresh _ _ := trivial

theorem call?_of_greets (h : s.Greets i c call) :
    ∃ stage, s.stage? i = some stage ∧ stage.call? c = some call :=
  ⟨_, h, if_pos rfl⟩

/-- Nobody begins to wait for the handshake on a connection that is there already. -/
theorem Gated.greets_of_greets (hg : s.Gated) (hgreeting : s.Greeting)
    (hk : s.connection? c = some k) (h : (s.step e).Greets i c call) : s.Greets i c call := by
  obtain ⟨k', hk'⟩ := hg.connection_run hk [e]
  cases hg.turns hgreeting e hk' with
  | beside _ _ greets => exact (greets i call).mp h
  | comes _ _ greets => exact (greets i call).mp h
  | launched new => cases new.symm.trans hk
  | failed _ fails => exact absurd h (fails.nobody i call)
  | succeeded _ _ _ _ nobody => exact absurd h (nobody i call)
  | dropped _ _ _ _ nobody => exact absurd h (nobody i call)

theorem not_greets_cancel (h : s.Greets i c call) {call' : Call} :
    ¬ (s.cancel i).Greets i c call' := by
  intro h'
  have hcancel : s.cancel i = Session.tidy
      (((s.abandonCall c call).setStage i .dropped).leaveGate i) := by
    unfold cancel
    rw [show s.stage? i = some (.handshaking c call) from h]
  rw [hcancel] at h'
  have hdropped : ((s.abandonCall c call).setStage i .dropped).stage? i =
      some (.handshaking c call') := h'
  rw [stage?_setStage, if_pos rfl, Option.map_eq_some_iff] at hdropped
  obtain ⟨-, -, hstage⟩ := hdropped
  cases hstage

theorem Introduces.knows (hg : s.Gated) (hh : s.Heeded) (hgreeting : s.Greeting)
    (hspeaks : s.Has c (Connection.Speaks s.language)) (h : Introduces c result s e) :
    (s.step e).Knows c result := by
  obtain ⟨rfl, i, call, hi, hears⟩ := h
  obtain ⟨k, hk, hunestablished⟩ := hg.connection_of_greets hi
  obtain ⟨stage, hstage, hcall⟩ := call?_of_greets hi
  have hwaits : s.waits c i = some call := by rw [waits, hstage, Option.bind_some, hcall]
  have hread := hh.hasReply_read hwaits hspeaks hears
  have hrests : (s.step (.read c)).Has c fun k => k.established = false := by
    refine lasting_unestablished.step ?_ (innate_of_connection hk) (.read c)
      (fun _ _ _ _ => trivial) ?_
    · intro k' hk'
      exact Option.some.inj (hk.symm.trans hk') ▸ hunestablished
    · rintro ⟨m, j, call', hread, -⟩
      cases hread
  intro k' hk'
  refine .inr ⟨hrests k' hk', fun j call' hj => ?_⟩
  have hj := hg.greets_of_greets hgreeting hk hj
  obtain rfl := hg.greets_unique hi hj
  obtain ⟨-, rfl⟩ := Stage.handshaking.inj (Option.some.inj (hi.symm.trans hj))
  exact hread k' hk'

theorem Gated.knows_resume (hg : s.Gated) (hi : s.Greets i c call) (hk : s.connection? c = some k)
    (h : k.HasReply call.ticket (.ok result)) : (s.resume m i).Knows c result := by
  obtain ⟨k₀, hk₀, hunestablished⟩ := hg.connection_of_greets hi
  obtain rfl : k₀ = k := Option.some.inj (hk₀.symm.trans hk)
  let l : Link := { k₀.link with inflight := (k₀.link.inflight.take? call.ticket).2 }
  have hk₁ := connection?_setLink_self hk l
  rw [resume, stretch_of_handshaking hi, checkHandshake_of_answered hk h]
  cases htakes : l.takes with
  | true =>
    rw [establish_of_takes hk₁ htakes]
    have hable := lasting_able (Abilities.ofHandshake result)
    refine fun k' hk' => .inl (hable.tidy (hable.serve ?_) k' hk')
    intro k₂ hk₂
    have hk₂ := (connection?_updateConnection ((s.setLink c l).setLink c _) c c _).symm.trans hk₂
    rw [if_pos rfl, Option.map_eq_some_iff] at hk₂
    obtain ⟨k₃, -, rfl⟩ := hk₂
    exact ⟨rfl, rfl⟩
  | false =>
    unfold Session.establish
    rw [notify_of_connection hk₁, Link.notify_of_not_takes _ _ _ htakes, setLink_setLink]
    have hbefore : (s.setLink c l).Has c fun k => k.established = false := by
      intro k' hk'
      obtain rfl := Option.some.inj (hk₁.symm.trans hk')
      exact hunestablished
    refine fun k' hk' => .inr ⟨?_, fun j call' hj => ?_⟩
    · exact lasting_unestablished.tidy (lasting_unestablished.failStart hbefore _) k' hk'
    · -- it was the only one who waited
      have hj : ((s.setLink c l).failStart i c _).stage? j = _ := hj
      rw [stage?_failStart] at hj
      split at hj
      · obtain ⟨-, -, hdone⟩ := Option.map_eq_some_iff.mp hj
        cases hdone
      · rename_i hne
        exact absurd (hg.greets_unique hi hj) hne

theorem Gated.knows_step (hg : s.Gated) (hh : s.Heeded) (hgreeting : s.Greeting)
    (hk : s.connection? c = some k) (h : s.Knows c result) (e : Event) :
    (s.step e).Knows c result := by
  obtain hable | ⟨hunestablished, hreply⟩ := h k hk
  · exact fun k' hk' => .inl (hg.able_run hk hable [e] k' hk')
  by_cases hlooks : ∃ m i call, e = .resume m i ∧ s.Greets i c call
  · obtain ⟨m, i, call, rfl, hi⟩ := hlooks
    exact hg.knows_resume hi hk (hreply i call hi)
  · have hrests : (s.step e).Has c fun k => k.established = false := by
      refine lasting_unestablished.step ?_ (innate_of_connection hk) e (fun _ _ _ _ => trivial) ?_
      · intro k' hk'
        exact Option.some.inj (hk.symm.trans hk') ▸ hunestablished
      · rintro ⟨m, i, call, he, hi⟩
        exact absurd ⟨m, i, call, he, hi⟩ hlooks
    refine fun k' hk' => .inr ⟨hrests k' hk', fun i call hi' => ?_⟩
    have hi := hg.greets_of_greets hgreeting hk hi'
    obtain ⟨stage, hstage, hcall⟩ := call?_of_greets hi
    have hspares : ∀ e' ∈ [e], e'.Spares i := by
      intro e' he'
      obtain rfl := List.mem_singleton.mp he'
      refine ⟨fun m he => hlooks ⟨m, i, call, he, hi⟩, fun he => ?_⟩
      subst he
      exact not_greets_cancel hi hi'
    exact hh.hasReply_run hg hstage hcall hk (hreply i call hi) hspares k' hk'

/-- Once its server has answered the handshake, a connection is known by the answer. -/
theorem Sound.knows_run (h : s₀.Sound) (hnew : ∀ c, s₀.connection? c = none)
    (hintroduced : s₀.Once es (Introduces c result)) :
    (∃ k, (s₀.run es).connection? c = some k) ∧ (s₀.run es).Knows c result := by
  induction es using List.reverseRecOn with
  | nil =>
    obtain ⟨front, e, back, heq, -⟩ := hintroduced
    simp at heq
  | append_singleton es e ih =>
    have hsound := h.run es
    have hgreeting : (s₀.run es).Greeting := (h.gated.orderly hnew es).greeting h.gated
    rw [run_append_one]
    obtain hbefore | hnow := once_append_one.mp hintroduced
    · obtain ⟨⟨k, hk⟩, hknows⟩ := ih hbefore
      exact ⟨hsound.gated.connection_run hk [e],
        hsound.gated.knows_step hsound.heeded hgreeting hk hknows e⟩
    · obtain ⟨-, i, call, -, k, v, hk, -⟩ := id hnow
      exact ⟨hsound.gated.connection_run hk [e],
        hnow.knows hsound.gated hsound.heeded hgreeting (hsound.speaks c)⟩

/-- A server that serves can do what its answer to the handshake says. -/
theorem Knows.able (h : s.Knows c result) (hg : s.Gated) (hserving : s.Serving c)
    (hk : s.connection? c = some k) : k.abilities = Abilities.ofHandshake result := by
  obtain ⟨k₀, hk₀, -, hestablished⟩ := hg.ready hserving.ready
  obtain rfl : k₀ = k := Option.some.inj (hk₀.symm.trans hk)
  obtain hable | ⟨hunestablished, -⟩ := h k₀ hk
  · exact hable.2
  · cases hestablished.symm.trans hunestablished

end Knowing

/-- In this step the operation comes to ask the query of a server that serves: it has just begun,
its turn has come, or it has read the file. -/
inductive ComesToAsk (s : Session) (c : Nat) (path : Path) (q : Query) : Event → Nat → Prop
  | begins {m : Moment} : ComesToAsk s c path q (.begin m (.query path q)) s.tasks.length
  | turns {m : Moment} {i : Nat} (work : s.work? i = some (.query path q)) (turn : s.HasTurn i) :
      ComesToAsk s c path q (.resume m i) i
  | reads {m : Moment} {i : Nat} {uri : String} {bytes : Bytes}
      (work : s.work? i = some (.query path q)) (stage : s.stage? i = some (.reading c uri))
      (disk : m.disk path = .ok bytes) : ComesToAsk s c path q (.resume m i) i

section Asking

variable {d : OpenDocument} {uri : String}

theorem serve_of_open (hwork : s.work? i = some (.query path q)) (hk : s.connection? c = some k)
    (hd : k.documents.get? path = some d) : s.serve m i c = s.ask m i path q c d.uri := by
  unfold serve
  rw [hwork]
  simp [hk, hd]

/-- Whichever way the operation has come, it asks about the document that is open. -/
theorem ComesToAsk.step (h : s.ComesToAsk c path q e i) (hcoherent : s.Coherent)
    (hserving : s.Serving c) (hk : s.connection? c = some k) (htakes : k.link.takes = true)
    (hd : k.documents.get? path = some d) :
    ∃ (s₁ : Session) (m : Moment) (stage : Stage), s.step e = (s₁.ask m i path q c d.uri).tidy ∧
      s₁.connections = s.connections ∧ s₁.lifecycle = s.lifecycle ∧ s₁.timeouts = s.timeouts ∧
      s₁.stage? i = some stage := by
  cases h with
  | @begins m =>
    have hwork := s.work?_added_self (.query path q)
    have hqueued := s.stage?_added_self (.query path q)
    have hlive := live?_of_serving (s := s.added (.query path q)) ⟨hserving.ready, hserving.opened⟩
    refine ⟨s.added (.query path q), m, _, ?_, rfl, rfl, rfl, hqueued⟩
    rw [Session.step, begin_of_needsServer rfl, hlive]
    exact congrArg tidy (serve_of_open hwork hk hd)
  | @turns m _ work turn =>
    have hneeds : s.NeedsServer i := fun r hr => by cases work.symm.trans hr
    refine ⟨s.leaveGate i, m, _, ?_, rfl, rfl, rfl, turn.stage⟩
    rw [Session.step, resume, stretch_of_turn turn, takeTurn_of_serving hneeds hserving]
    exact congrArg tidy (serve_of_open (s := s.leaveGate i) work hk hd)
  | @reads m _ uri bytes work stage disk =>
    have huri : uri = d.uri := by
      obtain ⟨hknown, -⟩ := ((hcoherent.connections hk).mirrors htakes).known hd
      exact Option.some.inj ((hcoherent.reading stage work).symm.trans hknown)
    refine ⟨s, m, _, ?_, rfl, rfl, rfl, stage⟩
    rw [Session.step, resume, stretch, task_of_stage stage work]
    simp only
    unfold afterReading
    simp only [disk, hk, Option.bind_some, hd, Option.isSome_some, if_true, huri]

theorem ask_of_not_provided (hk : s.connection? c = some k)
    (h : q.isProvided k.abilities = false) :
    s.ask m i path q c uri = s.finish i (.ok q.empty) := by
  unfold ask
  simp [hk, h]

/-- The request of a query is under way on a connection, and waits for its answer. -/
structure UnderWay (k : Connection) (timeout : Nat) (uri : String) (q : Query) (m : Moment)
    (call : Call) (l : Link) : Prop where
  sent : l.sent = k.link.sent ++
    [.frame (Message.request k.link.nextId q.method (some (q.params uri)))]
  id : call.id = k.link.nextId
  deadline : call.deadline = m.now + timeout
  empty : l.inflight.slot call.ticket = .empty

theorem ask_of_provided (m : Moment) (i : Nat) (uri : String) (hk : s.connection? c = some k)
    (htakes : k.link.takes = true) (hd : k.documents.get? path = some d)
    (hinside : ∀ p, q.position? = some p → d.holds p = true)
    (h : q.isProvided k.abilities = true) :
    ∃ call l, s.ask m i path q c uri = (s.setLink c l).checkAsking m i q c call ∧
      UnderWay k (seconds s.timeouts.request) uri q m call l := by
  have hcall := call_of_connection hk m (seconds s.timeouts.request) q.method
    (some (q.params uri))
  rw [Link.call_of_takes _ _ _ _ _ htakes] at hcall
  refine ⟨k.link.nextCall m.now (seconds s.timeouts.request) q.method, { k.link with
    nextId := k.link.nextId + 1
    inflight := k.link.enrolled q.method
    sent := k.link.sent ++
      [.frame (Message.request k.link.nextId q.method (some (q.params uri)))] }, ?_, ?_⟩
  · unfold ask
    extract_lets k' inside provided
    have hheld : inside = true := by
      simp only [inside, k']
      cases hp : q.position? with
      | none => rfl
      | some p => simp [hk, hd, hinside p hp]
    have hprovided : provided = true := by simp [provided, k', hk, h]
    rw [hheld, hprovided, Bool.and_self, if_pos rfl, hcall]
  · exact ⟨rfl, rfl, rfl, k.link.slot_nextCall _ _ _⟩

theorem checkAsking_of_early (hk : s.connection? c = some k)
    (hslot : k.link.inflight.slot call.ticket = .empty) (hnow : m.now < call.deadline) :
    s.checkAsking m i q c call = s.setStage i (.asking c call) := by
  unfold checkAsking
  rw [pollCall_of_connection hk, Link.poll_of_early hslot hnow, setLink_self hk]

end Asking

/-- Where a query about a place in the open document stands after the step in which it came to ask a
server that is known by this answer to the handshake. -/
structure AsksIfAble (s : Session) (result : Json) (q : Query) (d : OpenDocument) (i c : Nat)
    (k : Connection) (s' : Session) (k' : Connection) : Prop where
  sent : (∃ rest, k'.link.sent = k.link.sent ++
      .frame (Message.request k.link.nextId q.method (some (q.params d.uri))) :: rest) ↔
    Abilities.Names result q.provider
  waits : Abilities.Names result q.provider → 0 < s.timeouts.request →
    ∃ call, call.id = k.link.nextId ∧ s'.stage? i = some (.asking c call) ∧
      k'.link.inflight.slot call.ticket = .empty
  nothing : ¬ Abilities.Names result q.provider →
    k'.link = k.link ∧ s'.result? i = some (.ok q.empty)

section Asking

variable {d : OpenDocument}

theorem asksIfAble_of_provided (m : Moment) {s₁ : Session} {stage : Stage}
    (hk : s₁.connection? c = some k) (hready : s₁.lifecycle = .ready c)
    (htimeouts : s₁.timeouts = s.timeouts) (hstage : s₁.stage? i = some stage)
    (htakes : k.link.takes = true) (hd : k.documents.get? path = some d)
    (hinside : ∀ p, q.position? = some p → d.holds p = true)
    (hprovided : q.isProvided k.abilities = true) (hnames : Abilities.Names result q.provider) :
    ∃ k', (s₁.ask m i path q c d.uri).tidy.connection? c = some k' ∧
      AsksIfAble s result q d i c k (s₁.ask m i path q c d.uri).tidy k' := by
  obtain ⟨call, l, hask, hasked⟩ := ask_of_provided m i d.uri hk htakes hd hinside hprovided
  have hk₂ := connection?_setLink_self hk l
  have hlooks : Serves i c (s₁.setLink c l) ((s₁.setLink c l).checkAsking m i q c call) :=
    .checkAsking q call
  obtain ⟨k₃, hk₃, hused⟩ := hlooks.connections.this _ hk₂
  have hk' := connection?_tidy_of_ready (hlooks.lifecycle.trans hready) hk₃
  rw [hask]
  refine ⟨_, hk', ?_⟩
  constructor
  case sent =>
    obtain ⟨vs, hvs⟩ := hused.link.sent
    refine iff_of_true ⟨vs.map .frame, ?_⟩ hnames
    rw [k₃.kept_reap.link, hvs, hasked.sent, List.append_assoc, List.singleton_append]
  case waits =>
    intro _ hpositive
    -- with time to wait, the first look comes before the deadline and finds nothing
    have hearly : m.now < call.deadline := by
      rw [hasked.deadline, htimeouts]
      unfold seconds
      omega
    have hlook := checkAsking_of_early (i := i) (q := q) hk₂ hasked.empty hearly
    rw [hlook] at hk₃ ⊢
    obtain rfl := Option.some.inj (hk₂.symm.trans hk₃)
    refine ⟨call, hasked.id, stage?_setStage_self (s := s₁.setLink c l) hstage, ?_⟩
    rw [(Connection.kept_reap _).link]
    exact hasked.empty
  case nothing => exact fun hnot => absurd hnames hnot

theorem asksIfAble_of_not_provided (m : Moment) {s₁ : Session} {stage : Stage}
    (hk : s₁.connection? c = some k) (hready : s₁.lifecycle = .ready c)
    (hstage : s₁.stage? i = some stage) (hprovided : q.isProvided k.abilities = false)
    (hnames : ¬ Abilities.Names result q.provider) :
    ∃ k', (s₁.ask m i path q c d.uri).tidy.connection? c = some k' ∧
      AsksIfAble s result q d i c k (s₁.ask m i path q c d.uri).tidy k' := by
  rw [ask_of_not_provided hk hprovided]
  have hk' := connection?_tidy_of_ready (s := s₁.finish i (.ok q.empty)) hready hk
  refine ⟨_, hk', ?_⟩
  constructor
  case sent =>
    refine iff_of_false ?_ hnames
    rintro ⟨rest, hsent⟩
    rw [k.kept_reap.link] at hsent
    simp at hsent
  case waits => exact fun h => absurd h hnames
  case nothing =>
    intro _
    refine ⟨k.kept_reap.link, result?_eq_some.mpr ?_⟩
    exact stage?_setStage_self hstage

theorem ComesToAsk.asksIfAble (h : s.ComesToAsk c path q e i) (hcoherent : s.Coherent)
    (hserving : s.Serving c) (hk : s.connection? c = some k) (htakes : k.link.takes = true)
    (hable : k.abilities = Abilities.ofHandshake result)
    (hd : k.documents.get? path = some d)
    (hinside : ∀ p, q.position? = some p → d.holds p = true) :
    ∃ k', (s.step e).connection? c = some k' ∧ AsksIfAble s result q d i c k (s.step e) k' := by
  obtain ⟨s₁, m, stage, hstep, hconnections, hready, htimeouts, hstage⟩ :=
    h.step hcoherent hserving hk htakes hd
  have hk₁ : s₁.connection? c = some k := by rwa [connection?, hconnections]
  have hready₁ : s₁.lifecycle = .ready c := hready.trans hserving.ready
  rw [hstep]
  by_cases hnames : Abilities.Names result q.provider
  · have hprovided : q.isProvided k.abilities = true :=
      hable ▸ (q.isProvided_ofHandshake result).mpr hnames
    exact asksIfAble_of_provided m hk₁ hready₁ htimeouts hstage htakes hd hinside hprovided hnames
  · have hprovided : q.isProvided k.abilities = false := by
      rw [← Bool.not_eq_true, hable, q.isProvided_ofHandshake]
      exact hnames
    exact asksIfAble_of_not_provided m hk₁ hready₁ hstage hprovided hnames

end Asking

/-- What the answer of a server to a query comes to: no result is a failure, unless it is that of a
rename; an error that says that there is nothing to tell comes to the same as the result `null`; and
any other is handed on. -/
def Concludes (language : String) (q : Query) (result : Option (Except Failure Answer)) :
    LanguageClient.Outcome → Prop
  | .ok v => (v = .null → result = some (.ok q.empty)) ∧
      ((∃ a, result = some (.ok a)) ∨ ∃ at_ newName found, q = .rename at_ newName ∧
        result = some (.error (.misnamed language newName found)))
  | .error r => result = if r.code ∈ [-32601, -32800, -32801] then some (.ok q.empty)
      else some (.error (.refused language q.method r))

theorem concludes_conclude (language : String) (q : Query) (outcome : LanguageClient.Outcome) :
    Concludes language q (some (q.conclude language (outcomeReply language q.method outcome)))
      outcome := by
  cases outcome with
  | ok v =>
    have hconclude : q.conclude language (outcomeReply language q.method (.ok v)) =
        q.read language v := rfl
    rw [hconclude]
    refine ⟨fun hnull => by rw [hnull, q.read_null], ?_⟩
    cases hread : q.read language v with
    | ok a => exact .inl ⟨a, rfl⟩
    | error f =>
      obtain ⟨at_, newName, found, hq, rfl⟩ := Query.read_eq_error hread
      exact .inr ⟨at_, newName, found, hq, rfl⟩
  | error r =>
    show some (q.conclude language (.error (.refused language q.method r))) = _
    split
    · rename_i hcode
      rw [Query.conclude_refused_of_empty hcode]
    · rename_i hcode
      rw [Query.conclude_refused_of_other hcode]

/-- How queries fare with a server that is known by this answer to the handshake. -/
structure FollowsAbilities (s : Session) (c : Nat) (result : Json) : Prop where
  /-- A query about a place in an open document is sent if the server has named its provider, and
  has nothing to tell at once if it has not. -/
  asks : ∀ {e i path q k d}, s.ComesToAsk c path q e i → s.connection? c = some k →
    k.documents.get? path = some d → (∀ p, q.position? = some p → d.holds p = true) →
    ∃ k', (s.step e).connection? c = some k' ∧ AsksIfAble s result q d i c k (s.step e) k'
  /-- Once the answer to a query has been read, and whatever comes later, it settles what the query
  comes to. -/
  settles : ∀ m {i path q call outcome later}, s.work? i = some (.query path q) →
    s.stage? i = some (.asking c call) → s.Hears c call outcome →
    (∀ e ∈ later, Event.Spares i e) →
    Concludes s.language q ((s.run (.read c :: later ++ [.resume m i])).result? i) outcome

/-- In every run of a session, a query is sent if the answer to the handshake has named its provider,
comes to nothing at once if not, and is settled by the reply to it, whatever that is. -/
theorem queries_follow_abilities (language : String) (server : Setup.Server) (timeouts : Setup.Timeouts)
    (processId : Nat) (rootUri : String) (es : List Event) {c : Nat} {result : Json}
    (hintroduced : (new language server timeouts processId rootUri).Once es (Introduces c result))
    (hserving : ((new language server timeouts processId rootUri).run es).Serving c) :
    FollowsAbilities ((new language server timeouts processId rootUri).run es) c result := by
  have hsound₀ := Sound.new language server timeouts processId rootUri
  have hsound := hsound₀.run es
  have hcoherent := (Coherent.new language server timeouts processId rootUri).run es
  obtain ⟨-, hknows⟩ := hsound₀.knows_run (fun _ => rfl) hintroduced
  constructor
  case asks =>
    intro e i path q k d hasks hk hd hinside
    obtain ⟨k₀, hk₀, hreleased, -⟩ := hsound.gated.ready hserving.ready
    obtain rfl : k = k₀ := Option.some.inj (hk.symm.trans hk₀)
    have hopen : k.link.closing? = none := by simpa [hk] using hserving.opened
    have htakes : k.link.takes = true :=
      k.link.takes_iff.mpr ⟨hopen, (hsound.gated.hale hk hreleased hopen).1⟩
    exact hasks.asksIfAble hcoherent hserving hk htakes (hknows.able hsound.gated hserving hk) hd
      hinside
  case settles =>
    intro m i path q call outcome later hwork hi hears hlater
    rw [(hsound.answered hwork hi hears hlater m).2]
    exact concludes_conclude _ q outcome

/-- The message answers the first request, and tells of a server that can tell what stands at a
place, but not where it is defined. -/
def describesPlaces : Incoming → Bool
  | .answer 1 (.ok result) =>
    Abilities.provided result "hoverProvider" && !Abilities.provided result "definitionProvider"
  | _ => false

theorem exists_of_describesPlaces {incoming : Incoming} (h : describesPlaces incoming = true) :
    ∃ result, incoming = .answer 1 (.ok result) ∧ Abilities.Names result "hoverProvider" ∧
      ¬ Abilities.Names result "definitionProvider" := by
  unfold describesPlaces at h
  split at h
  · rename_i result
    rw [Bool.and_eq_true, Bool.not_eq_true', ← Bool.not_eq_true, Abilities.provided_iff,
      Abilities.provided_iff] at h
    exact ⟨result, rfl, h⟩
  · cases h

/-- A document is open on such a server. -/
def describer : List Event :=
  let m : Moment := ⟨0, .ok true, fun _ => .ok [], fun _ => false⟩
  let abilities : Json :=
    .ofFields [("definitionProvider", .bool false), ("hoverProvider", .bool true)]
  [.begin m (.open ⟨[0x2F, 0x61]⟩ "one"),
    .receive 0 (Frame.write (Message.answer (.nat 1) (.ofFields [("capabilities", abilities)]))),
    .read 0, .resume m 0]

theorem queries_follow_abilities_describer :
    let s₀ := new "lua" ⟨"luals", [], "lua", []⟩ {} 1 "file:///"
    let m : Moment := ⟨0, .ok true, fun _ => .ok [], fun _ => false⟩
    let path : Path := ⟨[0x2F, 0x61]⟩
    let s := s₀.run describer
    ∃ result k d, s₀.Once describer (Introduces 0 result) ∧ s.Serving 0 ∧
      s.connection? 0 = some k ∧ k.documents.get? path = some d ∧
      (s.step (.begin m (.query path (.definition ⟨0, 3⟩)))).result? 1 = some (.ok (.locations [])) ∧
      ∃ k' rest, (s.step (.begin m (.query path (.hover ⟨0, 3⟩)))).connection? 0 = some k' ∧
        k'.link.sent = k.link.sent ++ .frame (Message.request k.link.nextId "textDocument/hover"
          (some (Params.position d.uri ⟨0, 3⟩))) :: rest := by
  intro s₀ m path s
  have hgreets : (s₀.run (describer.take 2)).Greets 0 0 (s₀.handshakeCall m) := by rfl
  have hreads : ((s₀.run (describer.take 2)).connection? 0).any (fun k =>
      k.link.reading && (k.link.inflight.slot 0).isEmpty &&
        (k.link.nextFrame?.bind Incoming.ofJson?).any describesPlaces) = true := by
    decide +kernel
  have hready : s.lifecycle = .ready 0 := by decide +kernel
  have hopens : (s.connection? 0).any (fun k => k.link.closing?.isNone &&
      (k.documents.get? path).any fun d => d.holds ⟨0, 3⟩) = true := by decide +kernel
  obtain ⟨k₀, hk₀, hreads⟩ := (Option.any_eq_true _ _).mp hreads
  simp only [Bool.and_eq_true] at hreads
  obtain ⟨⟨hreading, hslot⟩, hdescribes⟩ := hreads
  obtain ⟨incoming, hframe, hdescribes⟩ := (Option.any_eq_true _ _).mp hdescribes
  obtain ⟨v, hnext, hanswer⟩ := Option.bind_eq_some_iff.mp hframe
  obtain ⟨result, rfl, hhover, hdefinition⟩ := exists_of_describesPlaces hdescribes
  have hhears : (s₀.run (describer.take 2)).Hears 0 (s₀.handshakeCall m) (.ok result) :=
    ⟨k₀, v, hk₀, (Slot.isEmpty_iff _).mp hslot, hreading, hnext, hanswer⟩
  have hintroduced : s₀.Once describer (Introduces 0 result) :=
    ⟨describer.take 2, .read 0, [.resume m 0], rfl, rfl, 0, _, hgreets, hhears⟩
  obtain ⟨k, hk, hopens⟩ := (Option.any_eq_true _ _).mp hopens
  simp only [Bool.and_eq_true] at hopens
  obtain ⟨hopened, hdocument⟩ := hopens
  obtain ⟨d, hd, hinside⟩ := (Option.any_eq_true _ _).mp hdocument
  have hserving : s.Serving 0 := ⟨hready, by simpa [hk] using hopened⟩
  have hfollows := queries_follow_abilities "lua" ⟨"luals", [], "lua", []⟩ {} 1 "file:///" describer
    hintroduced hserving
  have hone : s.tasks.length = 1 := by decide +kernel
  obtain ⟨_, -, hnowhere⟩ := hfollows.asks (q := .definition ⟨0, 3⟩) .begins hk hd
    (by simpa [Query.position?] using hinside)
  obtain ⟨-, hdone⟩ := hnowhere.nothing hdefinition
  rw [hone] at hdone
  obtain ⟨k', hk', hsent⟩ := hfollows.asks (q := .hover ⟨0, 3⟩) .begins hk hd
    (by simpa [Query.position?] using hinside)
  obtain ⟨rest, hrest⟩ := hsent.sent.mpr hhover
  exact ⟨result, k, d, hintroduced, hserving, hk, hd, hdone, k', rest, hk', hrest⟩

end LanguageClient.Session
