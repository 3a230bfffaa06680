import LanguageClient.Proofs.Session.Minding

namespace LanguageClient.Session

/-- A shutdown is dropped while the server is asked to stop. -/
def dropsShutdown (s : Session) : Event → Bool
  | .cancel i =>
    match s.stage? i with
    | some (.stopping _ _) => true
    | _ => false
  | _ => false

/-- No shutdown is dropped midway. -/
def sparesShutdowns (s : Session) : List Event → Bool
  | [] => true
  | e :: es => !s.dropsShutdown e && (s.step e).sparesShutdowns es

/-- The operation is not one that shuts the server down. -/
def NeedsServer (s : Session) (i : Nat) : Prop :=
  ∀ r, s.work? i ≠ some (.shutdown r)

/-- What cannot be done without a server. -/
def Work.needsServer : Work → Bool
  | .open path _ => (FileUri.ofPath? path).isSome
  | .query _ _ => true
  | .shutdown _ => false

/-- In this step an operation goes on that has the turn, or gets it because nobody queues. -/
inductive TakesTurn (s : Session) : Event → Prop
  | resumes {m : Moment} {i : Nat} (turn : s.HasTurn i) (needs : s.NeedsServer i) :
      TakesTurn s (.resume m i)
  | begins {m : Moment} {w : Work} (free : s.gate = []) (needs : ∀ r, w ≠ .shutdown r) :
      TakesTurn s (.begin m w)

/-- An operation at this stage waits for this connection or for none. -/
def Stage.IsOn (c : Nat) (stage : Stage) : Prop :=
  ∀ d, stage.connection? = some d → d = c

/-- The operation, if there is one, waits for this connection or for none. -/
def IsOn (s : Session) (i c : Nat) : Prop :=
  ∀ stage, s.stage? i = some stage → stage.IsOn c

/-- Who needs a server shares one with all others, from here on. -/
structure OneServer (s : Session) : Prop where
  unique : ∀ {c d}, s.Up c → s.Up d → c = d
  /-- A launch takes the turn, and there is no server. -/
  launch : ∀ e, (s.step e).launches ≠ s.launches →
    (s.step e).launches = s.launches + 1 ∧ s.TakesTurn e ∧ ∀ c, ¬ s.Up c
  /-- Whoever has the turn is served by the server that is up, or launches one. -/
  turn : ∀ m i, s.HasTurn i → s.NeedsServer i →
    (∃ c, s.Up c ∧ s.resume m i = ((s.leaveGate i).serve m i c).tidy) ∨
      (∀ c, ¬ s.Up c) ∧ (s.resume m i).launches = s.launches + 1
  /-- Whoever comes is served at once, queues, or launches a server if nobody is at it. -/
  arrival : ∀ m w, w.needsServer = true →
    (∃ c, s.Up c ∧ s.begin m w = ((s.added w).serve m s.tasks.length c).tidy) ∨
      (s.gate ≠ [] ∧ (∀ c, ¬ s.Serving c) ∧
        (s.begin m w).stage? s.tasks.length = some .queued ∧
        (s.begin m w).launches = s.launches) ∨
      (s.gate = [] ∧ (∀ c, ¬ s.Up c) ∧ (s.begin m w).launches = s.launches + 1)
  /-- As long as a server is up there is no other launch, and nobody who waited for this one or for
  none, or is yet to come, turns to another. -/
  shared : ∀ {c} es, s.sparesShutdowns es = true → s.Up c → (s.run es).Up c →
    (s.run es).launches = s.launches ∧ ∀ j, s.IsOn j c → (s.run es).IsOn j c

/-- Between the two sessions no server has been launched, and nobody has turned to another connection. -/
structure Keeps (c : Nat) (s s' : Session) : Prop where
  launches : s'.launches = s.launches
  on : ∀ j, s.IsOn j c → s'.IsOn j c

section Keeping

variable {s s' s'' : Session} {m : Moment} {i c : Nat}

theorem Keeps.refl (c : Nat) (s : Session) : Keeps c s s :=
  ⟨rfl, fun _ hj => hj⟩

theorem Keeps.trans (h : Keeps c s s') (h' : Keeps c s' s'') : Keeps c s s'' :=
  ⟨h'.launches.trans h.launches, fun j hj => h'.on j (h.on j hj)⟩

theorem Keeps.of_tasks (hlaunches : s'.launches = s.launches) (htasks : s'.tasks = s.tasks) :
    Keeps c s s' :=
  ⟨hlaunches, fun j hj stage hstage => hj stage ((stage?_of_tasks htasks j).symm.trans hstage)⟩

theorem keeps_setStage {stage : Stage} (hstage : stage.IsOn c) :
    Keeps c s (s.setStage i stage) := by
  refine ⟨rfl, fun j hj t ht => ?_⟩
  rw [stage?_setStage] at ht
  split at ht
  · obtain ⟨_, -, rfl⟩ := Option.map_eq_some_iff.mp ht
    exact hstage
  · exact hj t ht

theorem Works.keeps (h : Works i c s s') : Keeps c s s' := by
  refine ⟨h.launches, fun j hj stage hstage => ?_⟩
  by_cases hji : j = i
  · subst hji
    obtain hsame | hserved := h.stage?_self hstage
    · exact hj stage hsame
    · exact fun _ hd => hserved.connection hd
  · rw [h.stage?_other hji] at hstage
    exact hj stage hstage

theorem keeps_finish (r : Except Failure Answer) : Keeps c s (s.finish i r) :=
  keeps_setStage fun _ hd => by cases hd

theorem isOn_self {stage : Stage} (h : stage.connection? = some c) : stage.IsOn c :=
  fun _ hd => Option.some.inj (hd.symm.trans h)

theorem Handshake.keeps {call : Call} (h : Handshake i c call s s') : Keeps c s s' := by
  cases h with
  | waits => exact keeps_setStage (isOn_self rfl)
  | @fails f s₁ polled tasks =>
    have hleft : Keeps c s₁ (Session.leaveGate { s₁.updateConnection c (fun k =>
        { k with link := k.link.close, killed := k.killed || k.process != .absent }) with
        lifecycle := .startFailed s!"initialize failed: {f.message}" } i) := .of_tasks rfl rfl
    exact (polled.keeps.trans hleft).trans (keeps_finish _)
  | @succeeds result s₁ s' polled tasks serves =>
    have hestablished : Keeps c s₁ ((s₁.established c result).leaveGate i) := .of_tasks rfl rfl
    exact (polled.keeps.trans hestablished).trans serves.keeps

theorem keeps_finishShutdown (restartable : Bool) :
    Keeps c s (s.finishShutdown i restartable) := by
  have hleft : Keeps c s (Session.leaveGate { s with
      lifecycle := if restartable then .notStarted else .stopped } i) := .of_tasks rfl rfl
  exact hleft.trans (keeps_finish _)

theorem Reaping.keeps {R : Connection → Connection → Prop} {restartable : Bool}
    (h : Reaping R i restartable c s s') : Keeps c s s' := by
  have hchanged (ks : List Connection) : Keeps c s { s with connections := ks } := .of_tasks rfl rfl
  cases h with
  | finishes => exact (hchanged _).trans (keeps_finishShutdown restartable)
  | reaps => exact (hchanged _).trans (keeps_setStage (isOn_self rfl))
  | kills => exact (hchanged _).trans (keeps_setStage (isOn_self rfl))

theorem Stopping.keeps {restartable : Bool} (h : Stopping i restartable c s s') :
    Keeps c s s' := by
  cases h with
  | waits polled tasks => exact polled.keeps.trans (keeps_setStage (isOn_self rfl))
  | closes polled tasks reaping => exact polled.keeps.trans reaping.keeps

theorem Serving.up (hg : s.Gated) (h : s.Serving c) : s.Up c := by
  obtain ⟨k, hk, hreleased, -⟩ := hg.ready h.ready
  have hopened := h.opened
  rw [hk] at hopened
  exact ⟨k, hk, hopened, fun hr => by rw [hreleased] at hr; cases hr⟩

theorem Minded.keeps_outcome (h : s.Minded) (hg : s.Gated) (hup : s.Up c)
    (hs : Outcome m i s s') : Keeps c s s' := by
  cases hs with
  | idle => exact .refl c s
  | @goesOn c' stage s' stage_ served undone serves =>
    refine ⟨serves.launches, fun j hj => ?_⟩
    by_cases hji : j = i
    · subst hji
      obtain rfl : c' = c := hj stage stage_ c' undone
      exact serves.keeps.on j hj
    · intro t ht
      rw [serves.stage?_other hji] at ht
      exact hj t ht
  | @served c' s' turn work serving serves =>
    obtain rfl : c' = c := h.unique hg (serving.up hg) hup
    have hleft : Keeps c' s (s.leaveGate i) := .of_tasks rfl rfl
    exact hleft.trans serves.keeps
  -- whoever has the turn finds the connection serving, so nobody launches another server
  | unlaunched turn work alone launch => exact absurd (h.serving_of_turn hg turn hup) (alone c)
  | launches turn work alone launch handshake =>
    exact absurd (h.serving_of_turn hg turn hup) (alone c)
  | @greets c' call s' stage handshake =>
    obtain rfl : c' = c := h.eq_of_stage hg stage rfl hup
    exact handshake.keeps
  | stopsNothing turn work unready =>
    exact absurd (h.serving_of_turn hg turn hup).ready (unready c)
  | @stops r c' s' turn work ready stopping =>
    obtain rfl : c' = c := Lifecycle.ready.inj (ready.symm.trans (h.serving_of_turn hg turn hup).ready)
    have hending : Keeps c' s { s with lifecycle := .shuttingDown } := .of_tasks rfl rfl
    exact hending.trans stopping.keeps
  | @goesOnStopping r c' call s' stage work stopping =>
    obtain rfl : c' = c := h.eq_of_stage hg stage rfl hup
    exact stopping.keeps
  | goesOnReaping stage_ reaps reaping =>
    obtain rfl | ⟨deadline, rfl⟩ := reaps
    · exact absurd (h.eq_of_stage hg stage_ rfl hup) id
    · exact absurd (h.eq_of_stage hg stage_ rfl hup) id

theorem keeps_added (w : Work) : Keeps c s (s.added w) := by
  refine ⟨rfl, fun j hj stage hstage => ?_⟩
  rw [stage?_added] at hstage
  split at hstage
  · cases hstage
    exact fun _ hd => by cases hd
  · exact hj stage hstage

theorem Minded.keeps_begins (h : s.Minded) (hg : s.Gated) (hup : s.Up c) {w : Work}
    (hs : Begins m w s s') : Keeps c s s' := by
  have hjoined (lifecycle : Lifecycle) : Keeps c s (s.joined w lifecycle) := by
    have hadded : Keeps c { s with lifecycle } (Session.added { s with lifecycle } w) :=
      keeps_added w
    exact ⟨rfl, hadded.on⟩
  cases hs with
  | refused => exact (keeps_added w).trans (keeps_finish _)
  | @served c' s' work serving serves =>
    obtain rfl : c' = c := h.unique hg (serving.up hg) hup
    exact (keeps_added w).trans serves.keeps
  | queues settles busy => exact hjoined _
  | turns settles free outcome =>
    have hrest := (h.joined settles).keeps_outcome (hg.joined settles) hup outcome
    exact (hjoined _).trans hrest

/-- As long as a connection is up, a step launches nothing, and nobody turns to another one. -/
theorem Minded.keeps (h : s.Minded) (hg : s.Gated) (hup : s.Up c) {e : Event}
    (hs : Step s e s') : Keeps c s s' := by
  have htidy (t : Session) : Keeps c t t.tidy := .of_tasks rfl rfl
  cases hs with
  | nothing => exact .refl c s
  | begins begins => exact (h.keeps_begins hg hup begins).trans (htidy _)
  | resumes outcome => exact (h.keeps_outcome hg hup outcome).trans (htidy _)
  | @cancels i stage ks stage_ left =>
    have hchanged : Keeps c s { s with connections := ks } := .of_tasks rfl rfl
    have hdropped : Keeps c { s with connections := ks }
        (Session.setStage { s with connections := ks } i .dropped) :=
      keeps_setStage fun _ hd => by cases hd
    exact ⟨rfl, fun j hj => hdropped.on j (hchanged.on j hj)⟩
  | settles | tells | reads | writes | receives | endsInput | tidies => exact .of_tasks rfl rfl

end Keeping

section Rising

variable {s s' : Session} {m : Moment} {i c d : Nat}

/-- The connections that there are stay, and none of them comes up again. -/
structure Fades (s s' : Session) : Prop where
  length : s.connections.length ≤ s'.connections.length
  up : ∀ c, c < s.connections.length → s'.Up c → s.Up c

theorem Fades.trans {s'' : Session} (h : s.Fades s') (h' : s'.Fades s'') : s.Fades s'' :=
  ⟨Nat.le_trans h.length h'.length,
    fun c hc hup => h.up c hc (h'.up c (Nat.lt_of_lt_of_le hc h.length) hup)⟩

theorem fades_of_same (h : s'.connections = s.connections) : s.Fades s' := by
  refine ⟨Nat.le_of_eq (by rw [h]), fun c _ hup => ?_⟩
  obtain ⟨k, hk, hup⟩ := hup
  exact ⟨k, by rwa [connection?, ← h], hup⟩

theorem fades_of_changed {R : Connection → Connection → Prop} (hR : ∀ {k k'}, R k k' → k.Ages k')
    {s' : Session} (h : ChangedAt R c s.connections s'.connections) : s.Fades s' :=
  ⟨Nat.le_of_eq h.length.symm, fun _ _ => (Aged.of_changed hR h).up⟩

theorem Works.fades (h : Works i c s s') : s.Fades s' :=
  fades_of_changed Connection.Used.ages h.connections

theorem fades_tidy (s : Session) : s.Fades s.tidy :=
  ⟨by simp [tidy], fun _ _ hup => (up_of_tidy hup).1⟩

theorem Handshake.fades {call : Call} (hc : s.Holds c false) (h : Handshake i c call s s') :
    s.Fades s' := by
  cases h with
  | waits => exact fades_of_same rfl
  | @fails f s₁ polled tasks =>
    have hshut : ChangedAt Connection.Shut c s₁.connections (s₁.failStart i c f).connections :=
      .modify fun k _ => ⟨rfl, rfl, rfl⟩
    exact polled.fades.trans (fades_of_changed Connection.Shut.ages hshut)
  | @succeeds result s₁ s' polled tasks serves =>
    have hestablished : s₁.Fades ((s₁.established c result).leaveGate i) := by
      refine ⟨by simp [Session.established, updateConnection, leaveGate], fun d _ hup => ?_⟩
      by_cases hdc : d = c
      · -- whoever was greeted is in use, so it was up if it has not closed
        subst hdc
        obtain ⟨k, hk, hreleased, -⟩ := polled.aged.holds hc
        obtain ⟨k', hk', hup⟩ := hup
        have hsame := connection?_updateConnection s₁ d d fun k =>
          { k with abilities := Abilities.ofHandshake result, established := true }
        rw [if_pos rfl, hk] at hsame
        obtain rfl := Option.some.inj (hk'.symm.trans hsame)
        exact ⟨k, hk, hup.opened, fun hr => by rw [hreleased] at hr; cases hr⟩
      · exact up_established hup hdc
    exact (polled.fades.trans hestablished).trans serves.fades

theorem Reaping.fades {R : Connection → Connection → Prop} (hR : ∀ {k k'}, R k k' → k.Ages k')
    {restartable : Bool} (h : Reaping R i restartable c s s') : s.Fades s' := by
  cases h with
  | finishes changed | reaps changed | kills changed => exact fades_of_changed hR changed

theorem Stopping.fades {restartable : Bool} (h : Stopping i restartable c s s') : s.Fades s' := by
  cases h with
  | waits polled tasks => exact polled.fades.trans (fades_of_same rfl)
  | closes polled tasks reaping => exact polled.fades.trans (reaping.fades Connection.Shut.ages)

theorem fades_launched (s : Session) (hasProcess : Bool) : s.Fades (s.launched hasProcess) := by
  refine ⟨by simp [launched], fun c hc hup => ?_⟩
  obtain ⟨k, hk, hup⟩ := hup
  obtain hk | ⟨heq, -⟩ := Conversation.getElem?_append_one hk
  · exact ⟨k, hk, hup⟩
  · exact absurd heq (Nat.ne_of_lt hc)

theorem holds_launched (s : Session) (hasProcess : Bool) :
    (s.launched hasProcess).Holds s.connections.length false :=
  ⟨s.greeted hasProcess, by simp [launched, connection?], rfl, rfl⟩

theorem Gated.fades_outcome (hg : s.Gated) (hs : Outcome m i s s') : s.Fades s' := by
  cases hs with
  | idle => exact fades_of_same rfl
  | goesOn stage_ served undone serves => exact serves.fades
  | served turn work serving serves =>
    have hleft : s.Fades (s.leaveGate i) := fades_of_same rfl
    exact hleft.trans serves.fades
  | unlaunched => exact fades_of_same rfl
  | @launches hasProcess s' turn work alone launch handshake =>
    exact (fades_launched s hasProcess).trans (handshake.fades (holds_launched s hasProcess))
  | greets stage handshake => exact handshake.fades (hg.held stage rfl)
  | stopsNothing => exact fades_of_same rfl
  | stops turn work ready stopping =>
    have hending : s.Fades { s with lifecycle := .shuttingDown } := fades_of_same rfl
    exact hending.trans stopping.fades
  | goesOnStopping stage work stopping => exact stopping.fades
  | goesOnReaping stage_ reaps reaping => exact reaping.fades Connection.Kept.ages

theorem Gated.fades_begins (hg : s.Gated) {w : Work} (hs : Begins m w s s') : s.Fades s' := by
  have hadded : s.Fades (s.added w) := fades_of_same rfl
  cases hs with
  | refused => exact fades_of_same rfl
  | served work serving serves => exact hadded.trans serves.fades
  | queues => exact fades_of_same rfl
  | @turns lifecycle s' settles free outcome =>
    have hjoined : s.Fades (s.joined w lifecycle) := fades_of_same rfl
    exact hjoined.trans ((hg.joined settles).fades_outcome outcome)

theorem Gated.fades (hg : s.Gated) {e : Event} (hs : Step s e s') : s.Fades s' := by
  have hlink {c : Nat} {k : Connection} (hk : s.connection? c = some k) {l : Link}
      (hl : k.link.Ages l) : s.Fades (s.setLink c l) :=
    ⟨by simp [Session.setLink, updateConnection], fun _ _ => (aged_setLink hk hl).up⟩
  cases hs with
  | nothing => exact fades_of_same rfl
  | begins begins => exact (hg.fades_begins begins).trans (fades_tidy _)
  | resumes outcome => exact (hg.fades_outcome outcome).trans (fades_tidy _)
  | @cancels i stage ks stage_ left =>
    have hchanged : s.Fades { s with connections := ks } := by
      obtain rfl | ⟨c, -, hleft⟩ := left
      · exact fades_of_same rfl
      · exact fades_of_changed Connection.Left.ages hleft
    have hdropped : Fades { s with connections := ks }
        ((Session.setStage { s with connections := ks } i .dropped).leaveGate i) :=
      fades_of_same rfl
    exact (hchanged.trans hdropped).trans (fades_tidy _)
  | @settles e lifecycle settles =>
    have hsettled : s.Fades { s with lifecycle } := fades_of_same rfl
    exact hsettled.trans (fades_tidy _)
  | tells serving told => exact (fades_of_changed Connection.Used.ages told).trans (fades_tidy _)
  | reads connection read => exact (hlink connection (Link.ages_readNext? read)).trans (fades_tidy _)
  | writes connection write => exact hlink connection (Link.ages_writeNext? write)
  | receives connection => exact hlink connection (Link.ages_of_same rfl rfl rfl)
  | endsInput connection => exact hlink connection (Link.ages_of_same rfl rfl rfl)
  | tidies => exact fades_tidy s

theorem Gated.fades_run (hg : s.Gated) (es : List Event) : s.Fades (s.run es) := by
  induction es using List.reverseRecOn with
  | nil => exact fades_of_same rfl
  | append_singleton es e ih =>
    rw [run_append_one]
    exact ih.trans ((hg.run es).fades ((hg.run es).step e).1)

end Rising

section Launching

variable {s s' : Session} {m : Moment} {i c : Nat} {w : Work}

theorem launches_start (needs : s.NeedsServer i) : (s.start m i).launches = s.launches + 1 := by
  cases hl : m.launch with
  | error f =>
    rw [start_of_error hl]
    rfl
  | ok hasProcess =>
    rw [start_of_ok hl]
    have hneeds : (s.launched hasProcess).NeedsServer i := needs
    exact (handshake_checkHandshake hneeds (s.handshakeCall m)).keeps.launches

theorem takeTurn_of_serving (needs : s.NeedsServer i) (h : s.Serving c) :
    s.takeTurn m i = (s.leaveGate i).serve m i c := by
  unfold takeTurn
  split
  · exact absurd ‹_› (needs _)
  · rw [live?_of_serving h]

theorem takeTurn_of_alone (needs : s.NeedsServer i) (h : ∀ c, ¬ s.Serving c) :
    s.takeTurn m i = s.start m i := by
  unfold takeTurn
  split
  · exact absurd ‹_› (needs _)
  · obtain ⟨c, hc, -⟩ | ⟨-, lifecycle, -, hlive⟩ := s.live?_cases
    · exact absurd hc (h c)
    · rw [hlive]
      rfl

theorem stretch_of_turn (turn : s.HasTurn i) : s.stretch m i = s.takeTurn m i := by
  obtain ⟨t, ht, hstage⟩ := Option.map_eq_some_iff.mp turn.stage
  unfold stretch
  simp only [ht, hstage, turn.first, if_true]

theorem begin_of_needsServer (needs : w.needsServer = true) :
    s.begin m w = Session.tidy (match (s.added w).live? with
      | (some c, s₁) => s₁.serve m s.tasks.length c
      | (none, s₁) => s₁.enterGate m s.tasks.length) := by
  unfold begin
  extract_lets i added' done
  cases w with
  | shutdown r => cases needs
  | query path q => rfl
  | «open» path text =>
    have hsome : (FileUri.ofPath? path).isNone = false := by
      simpa [Work.needsServer, Option.isSome_iff_ne_none] using needs
    simp only [done, hsome, Bool.false_eq_true, if_false]
    rfl

theorem not_serving_of_settles {lifecycle : Lifecycle} (hs : Settles s lifecycle)
    (h : ∀ c, ¬ s.Serving c) (c : Nat) : ¬ Serving { s with lifecycle } c := by
  cases hs with
  | same => exact h c
  | crashed ready closed =>
    intro hc
    cases hc.ready

theorem needsServer_joined (needs : w.needsServer = true) (lifecycle : Lifecycle) :
    (s.joined w lifecycle).NeedsServer s.tasks.length := by
  intro r hr
  have hw : (s.added w).work? s.tasks.length = some (.shutdown r) := hr
  rw [work?_added_self] at hw
  cases hw
  cases needs

theorem begin_cases (needs : w.needsServer = true) :
    (∃ c, s.Serving c ∧ s.begin m w = ((s.added w).serve m s.tasks.length c).tidy) ∨
      (∀ c, ¬ s.Serving c) ∧ ∃ lifecycle, Settles s lifecycle ∧
        (s.gate ≠ [] ∧ s.begin m w = (s.joined w lifecycle).tidy ∨
          s.gate = [] ∧
            s.begin m w = ((s.joined w lifecycle).start m s.tasks.length).tidy) := by
  rw [begin_of_needsServer needs]
  obtain ⟨c, hc, hlive⟩ | ⟨halone, lifecycle, hs, hlive⟩ := (s.added w).live?_cases
  · rw [hlive]
    exact .inl ⟨c, ⟨hc.ready, hc.opened⟩, rfl⟩
  · have hsettles : Settles s lifecycle := by
      cases hs with
      | same => exact .same
      | crashed ready closed => exact .crashed ready closed
    have hnobody (c : Nat) : ¬ s.Serving c := fun hc => halone c ⟨hc.ready, hc.opened⟩
    rw [hlive]
    refine .inr ⟨hnobody, lifecycle, hsettles, ?_⟩
    unfold enterGate
    -- whoever is alone at the gate has the turn at once
    by_cases hgate : s.gate = []
    · have hfree : s.gate.isEmpty = true := List.isEmpty_iff.mpr hgate
      have halone' (c : Nat) : ¬ (s.joined w lifecycle).Serving c := fun hc =>
        not_serving_of_settles hsettles hnobody c ⟨hc.ready, hc.opened⟩
      have hstart : (s.joined w lifecycle).takeTurn m s.tasks.length = _ :=
        takeTurn_of_alone (needsServer_joined needs lifecycle) halone'
      rw [← hstart]
      refine .inr ⟨hgate, ?_⟩
      show Session.tidy (if s.gate.isEmpty then _ else _) = _
      rw [if_pos hfree]
      rfl
    · have hbusy : s.gate.isEmpty = false := by simpa using hgate
      refine .inl ⟨hgate, ?_⟩
      show Session.tidy (if s.gate.isEmpty then _ else _) = _
      rw [hbusy]
      rfl

/-- A stretch launches a server only if it has the turn and none serves. -/
theorem Outcome.launches_cases (h : Outcome m i s s') :
    s'.launches = s.launches ∨
      s'.launches = s.launches + 1 ∧ s.HasTurn i ∧ s.NeedsServer i ∧ ∀ c, ¬ s.Serving c := by
  cases h with
  | idle => exact .inl rfl
  | goesOn stage_ served undone serves => exact .inl serves.launches
  | served turn work serving serves => exact .inl serves.launches
  | unlaunched turn work alone launch => exact .inr ⟨rfl, turn, work, alone⟩
  | launches turn work alone launch handshake =>
    exact .inr ⟨handshake.keeps.launches, turn, work, alone⟩
  | greets stage handshake => exact .inl handshake.keeps.launches
  | stopsNothing => exact .inl rfl
  | stops turn work ready stopping => exact .inl stopping.keeps.launches
  | goesOnStopping stage work stopping => exact .inl stopping.keeps.launches
  | goesOnReaping stage_ reaps reaping => exact .inl reaping.keeps.launches

theorem Serving.of_settles {lifecycle : Lifecycle} (h : s.Serving c) (hs : Settles s lifecycle) :
    Serving { s with lifecycle } c := by
  cases hs with
  | same => exact h
  | crashed ready closed =>
    obtain rfl := Lifecycle.ready.inj (ready.symm.trans h.ready)
    rw [h.opened] at closed
    cases closed

theorem Begins.launches_cases (h : Begins m w s s') :
    s'.launches = s.launches ∨
      s'.launches = s.launches + 1 ∧ s.gate = [] ∧ (∀ r, w ≠ .shutdown r) ∧
        ∀ c, ¬ s.Serving c := by
  cases h with
  | refused => exact .inl rfl
  | served work serving serves => exact .inl serves.launches
  | queues => exact .inl rfl
  | @turns lifecycle s' settles free outcome =>
    obtain hsame | ⟨hmore, -, hneeds, halone⟩ := outcome.launches_cases
    · exact .inl hsame
    · refine .inr ⟨hmore, free, fun r hr => hneeds r ?_, fun c hc => halone c ?_⟩
      · show (s.added w).work? s.tasks.length = _
        rw [work?_added_self, hr]
      · obtain ⟨hready, hopened⟩ := hc.of_settles settles
        exact ⟨hready, hopened⟩

end Launching

section Sharing

variable {s s' : Session} {m : Moment} {i c : Nat} {w : Work}

theorem Minded.serving_of_free (h : s.Minded) (hg : s.Gated) (free : s.gate = [])
    (hup : s.Up c) : s.Serving c := by
  obtain hready | ⟨j, stage, hj, hminds⟩ := h c hup
  · obtain ⟨k, hk, hup⟩ := hup
    refine ⟨hready, ?_⟩
    rw [hk]
    exact hup.opened
  · have hfirst := hg.first hj hminds.holdsGate
    rw [free] at hfirst
    cases hfirst

/-- Whoever launches a server has the turn, and there is none. -/
theorem Minded.launch (h : s.Minded) (hg : s.Gated) {e : Event} (hs : Step s e s')
    (hne : s'.launches ≠ s.launches) :
    s'.launches = s.launches + 1 ∧ s.TakesTurn e ∧ ∀ c, ¬ s.Up c := by
  cases hs with
  | nothing | cancels | settles | tells | reads | writes | receives | endsInput | tidies =>
    exact absurd rfl hne
  | resumes outcome =>
    obtain hsame | ⟨hmore, turn, needs, halone⟩ := outcome.launches_cases
    · exact absurd hsame hne
    · exact ⟨hmore, .resumes turn needs, fun c hc => halone c (h.serving_of_turn hg turn hc)⟩
  | begins begins =>
    obtain hsame | ⟨hmore, free, needs, halone⟩ := begins.launches_cases
    · exact absurd hsame hne
    · exact ⟨hmore, .begins free needs, fun c hc => halone c (h.serving_of_free hg free hc)⟩

theorem Minded.resume_cases (h : s.Minded) (hg : s.Gated) (m : Moment) (turn : s.HasTurn i)
    (needs : s.NeedsServer i) :
    (∃ c, s.Up c ∧ s.resume m i = ((s.leaveGate i).serve m i c).tidy) ∨
      (∀ c, ¬ s.Up c) ∧ (s.resume m i).launches = s.launches + 1 := by
  unfold resume
  rw [stretch_of_turn turn]
  by_cases hserving : ∃ c, s.Serving c
  · obtain ⟨c, hc⟩ := hserving
    rw [takeTurn_of_serving needs hc]
    exact .inl ⟨c, hc.up hg, rfl⟩
  · have halone (c : Nat) : ¬ s.Serving c := fun hc => hserving ⟨c, hc⟩
    rw [takeTurn_of_alone needs halone]
    exact .inr ⟨fun c hc => halone c (h.serving_of_turn hg turn hc), launches_start needs⟩

theorem Minded.arrival (h : s.Minded) (hg : s.Gated) (m : Moment) (needs : w.needsServer = true) :
    (∃ c, s.Up c ∧ s.begin m w = ((s.added w).serve m s.tasks.length c).tidy) ∨
      (s.gate ≠ [] ∧ (∀ c, ¬ s.Serving c) ∧
        (s.begin m w).stage? s.tasks.length = some .queued ∧
        (s.begin m w).launches = s.launches) ∨
      (s.gate = [] ∧ (∀ c, ¬ s.Up c) ∧ (s.begin m w).launches = s.launches + 1) := by
  obtain ⟨c, hc, heq⟩ | ⟨halone, lifecycle, -, ⟨busy, heq⟩ | ⟨free, heq⟩⟩ :=
    begin_cases (s := s) (m := m) needs
  · exact .inl ⟨c, hc.up hg, heq⟩
  · rw [heq]
    exact .inr (.inl ⟨busy, halone, s.stage?_added_self w, rfl⟩)
  · rw [heq]
    exact .inr (.inr ⟨free, fun c hc => halone c (h.serving_of_free hg free hc),
      launches_start (needsServer_joined needs lifecycle)⟩)

theorem not_stopping_of_spares {e : Event} (h : s.dropsShutdown e = false) (i c : Nat)
    (call : Call) (he : e = .cancel i) : s.stage? i ≠ some (.stopping c call) := by
  rintro hstage
  subst he
  simp [dropsShutdown, hstage] at h

theorem Minded.run (h : s.Minded) (hg : s.Gated) {es : List Event}
    (hes : s.sparesShutdowns es = true) : (s.run es).Minded := by
  induction es generalizing s with
  | nil => exact h
  | cons e es ih =>
    rw [sparesShutdowns, Bool.and_eq_true, Bool.not_eq_true'] at hes
    obtain ⟨hstep, hg'⟩ := hg.step e
    exact ih (h.step hg (not_stopping_of_spares hes.1) hstep) hg' hes.2

/-- As long as a connection is up, a run launches nothing, and nobody turns to another one. -/
theorem Minded.keeps_run (h : s.Minded) (hg : s.Gated) {es : List Event}
    (hes : s.sparesShutdowns es = true) (hup : s.Up c) (hlast : (s.run es).Up c) :
    Keeps c s (s.run es) := by
  induction es generalizing s with
  | nil => exact .refl c s
  | cons e es ih =>
    rw [sparesShutdowns, Bool.and_eq_true, Bool.not_eq_true'] at hes
    obtain ⟨hstep, hg'⟩ := hg.step e
    have h' : (s.step e).Minded := h.step hg (not_stopping_of_spares hes.1) hstep
    -- what is up in the end has been up all the time
    have hlt : c < (s.step e).connections.length := by
      obtain ⟨k, hk, -⟩ := hup
      exact Nat.lt_of_lt_of_le (List.getElem?_eq_some_iff.mp hk).1 (hg.fades hstep).length
    have hup' : (s.step e).Up c := (hg'.fades_run es).up c hlt hlast
    exact (h.keeps hg hup hstep).trans (ih h' hg' hes.2 hup' hlast)

theorem minded_new (language : String) (server : Setup.Server) (timeouts : Setup.Timeouts)
    (processId : Nat) (rootUri : String) :
    (new language server timeouts processId rootUri).Minded := by
  rintro c ⟨k, hk, -⟩
  simp [new, connection?] at hk

/-- However operations go on beside each other, and whatever the launcher and the servers do: as long
as no shutdown is dropped midway, there is one server at a time. -/
theorem one_server_at_a_time (language : String) (server : Setup.Server)
    (timeouts : Setup.Timeouts) (processId : Nat) (rootUri : String) (es : List Event)
    (hes : (new language server timeouts processId rootUri).sparesShutdowns es = true) :
    OneServer ((new language server timeouts processId rootUri).run es) := by
  have hgated := (Gated.new language server timeouts processId rootUri).run es
  have hminded := (minded_new language server timeouts processId rootUri).run
    (Gated.new language server timeouts processId rootUri) hes
  constructor
  case unique => exact fun hc hd => hminded.unique hgated hc hd
  case launch => exact fun e => hminded.launch hgated (hgated.step e).1
  case turn => exact fun m i turn needs => hminded.resume_cases hgated m turn needs
  case arrival => exact fun m w needs => hminded.arrival hgated m needs
  case shared =>
    intro c fs hfs hup hlast
    have hkeeps := hminded.keeps_run hgated hfs hup hlast
    exact ⟨hkeeps.launches, hkeeps.on⟩

end Sharing

/-- Three race for a server. The first is dropped while it starts one, the second starts another, and
the third finds that one. -/
def racing : List Event :=
  let m : Moment := ⟨0, .ok true, fun _ => .ok [], fun _ => false⟩
  [.begin m (.open ⟨[0x2F, 0x61]⟩ "one"), .begin m (.open ⟨[0x2F, 0x62]⟩ "two"), .cancel 0,
    .resume m 1, .begin m (.open ⟨[0x2F, 0x63]⟩ "three"),
    .receive 1 (Frame.write (Message.answer (.nat 1) .null)), .read 1, .resume m 1, .resume m 2]

theorem one_server_at_a_time_racing :
    (new "lua" ⟨"luals", [], "lua", []⟩ {} 1 "file:///").sparesShutdowns racing = true ∧
      ((new "lua" ⟨"luals", [], "lua", []⟩ {} 1 "file:///").run racing).launches = 2 ∧
      OneServer ((new "lua" ⟨"luals", [], "lua", []⟩ {} 1 "file:///").run racing) := by
  have hspares : (new "lua" ⟨"luals", [], "lua", []⟩ {} 1 "file:///").sparesShutdowns racing =
      true := by decide +kernel
  exact ⟨hspares, by decide +kernel, one_server_at_a_time _ _ _ _ _ _ hspares⟩

end LanguageClient.Session
