import LanguageClient.Proofs.Link.Greeting
import LanguageClient.Proofs.Session.Launching

namespace LanguageClient

namespace Link

theorem Used.said {l l' : Link} (h : l.Used l') : ∃ vs, l'.said = l.said ++ vs := by
  obtain ⟨vs, hvs⟩ := h.sent
  refine ⟨(vs.map Outgoing.frame).filterMap Outgoing.own?, ?_⟩
  rw [Link.said, hvs, List.filterMap_append, Link.said]

theorem said_close (l : Link) : l.close.said = l.said := by
  unfold said
  obtain heq | heq := l.sent_close_cases
  · rw [heq, List.filterMap_append]
    simp [Outgoing.own?]
  · rw [heq]

end Link

namespace Session

/-- From one connection to the other, more may have been said; on one whose server has not answered
the handshake, nothing has. -/
structure Connection.Beside (k k' : Connection) : Prop where
  established : k'.established = k.established
  adds : ∃ vs, k'.link.said = k.link.said ++ vs
  rests : k.established = false → k.link.Rests k'.link

namespace Connection

variable {k k' k'' : Connection}

theorem Beside.refl (k : Connection) : k.Beside k :=
  ⟨rfl, ⟨[], by simp⟩, fun _ => .refl _⟩

theorem Beside.trans (h : k.Beside k') (h' : k'.Beside k'') : k.Beside k'' := by
  refine ⟨h'.established.trans h.established, ?_, fun hnot => ?_⟩
  · obtain ⟨vs, hvs⟩ := h.adds
    obtain ⟨ws, hws⟩ := h'.adds
    exact ⟨vs ++ ws, by rw [hws, hvs, List.append_assoc]⟩
  · have hrests := h.rests hnot
    have hrests' := h'.rests (h.established.trans hnot)
    exact ⟨hrests'.said.trans hrests.said, fun hclosed => hrests'.closed (hrests.closed hclosed)⟩

theorem Beside.of_rests (hestablished : k'.established = k.established)
    (hlink : k.link.Rests k'.link) : k.Beside k' :=
  ⟨hestablished, ⟨[], by rw [hlink.said, List.append_nil]⟩, fun _ => hlink⟩

theorem Beside.of_link (hestablished : k'.established = k.established)
    (hlink : k'.link = k.link) : k.Beside k' :=
  .of_rests hestablished (hlink ▸ .refl _)

theorem Used.beside (h : k.Used k') (hk : k.established = true) : k.Beside k' :=
  ⟨h.established, h.link.said, fun hnot => by rw [hk] at hnot; cases hnot⟩

theorem Left.beside (h : k.Left k') (hk : k.established = true) : k.Beside k' :=
  ⟨h.established, h.link.said, fun hnot => by rw [hk] at hnot; cases hnot⟩

theorem Shut.beside (h : k.Shut k') (hk : k.established = true) : k.Beside k' := by
  refine ⟨h.established, ⟨[], ?_⟩, fun hnot => by rw [hk] at hnot; cases hnot⟩
  rw [h.link, Link.said_close, List.append_nil]

theorem Kept.beside (h : k.Kept k') : k.Beside k' :=
  .of_link h.established h.link

theorem rests_release (k : Connection) : k.link.Rests k.release.link := by
  unfold release
  split
  · exact .refl _
  · exact k.link.rests_release

end Connection

/-- The operation waits for the handshake on a connection. -/
def Greets (s : Session) (i c : Nat) (call : Call) : Prop :=
  s.stage? i = some (.handshaking c call)

/-- From one session to the other, something has happened beside all starts. -/
structure Aside (s s' : Session) : Prop where
  greets : ∀ i c call, s'.Greets i c call ↔ s.Greets i c call
  back : ∀ c k', s'.connection? c = some k' → ∃ k, s.connection? c = some k ∧ k.Beside k' ∧
    ∀ i call, s.Greets i c call → k'.link = k.link

section Relation

variable {s s' s'' : Session} {i c : Nat}

theorem Aside.trans (h : s.Aside s') (h' : s'.Aside s'') : s.Aside s'' := by
  constructor
  case greets => exact fun i c call => (h'.greets i c call).trans (h.greets i c call)
  case back =>
    intro c k'' hk''
    obtain ⟨k', hk', hbeside', hsame'⟩ := h'.back c k'' hk''
    obtain ⟨k, hk, hbeside, hsame⟩ := h.back c k' hk'
    refine ⟨k, hk, hbeside.trans hbeside', fun i call hi => ?_⟩
    rw [hsame' i call ((h.greets i c call).mpr hi), hsame i call hi]

theorem aside_of_connections (hgreets : ∀ i c call, s'.Greets i c call ↔ s.Greets i c call)
    (hconnections : s'.connections = s.connections) : s.Aside s' := by
  refine ⟨hgreets, fun c k hk => ⟨k, ?_, .refl k, fun _ _ _ => rfl⟩⟩
  rwa [connection?, ← hconnections]

theorem greets_of_tasks (h : s'.tasks = s.tasks) (i c : Nat) (call : Call) :
    s'.Greets i c call ↔ s.Greets i c call := by
  unfold Greets
  rw [stage?_of_tasks h]

theorem Aside.refl (s : Session) : s.Aside s :=
  aside_of_connections (fun _ _ _ => .rfl) rfl

theorem greets_setStage {stage : Stage} (hi : ∀ c call, ¬ s.Greets i c call)
    (hstage : ∀ c call, stage ≠ .handshaking c call) (j c : Nat) (call : Call) :
    (s.setStage i stage).Greets j c call ↔ s.Greets j c call := by
  unfold Greets
  rw [stage?_setStage]
  split
  · rename_i hj
    subst hj
    refine ⟨fun hmapped => ?_, fun hsame => absurd hsame (hi c call)⟩
    obtain ⟨-, -, heq⟩ := Option.map_eq_some_iff.mp hmapped
    exact absurd heq (hstage c call)
  · rfl

theorem aside_setStage {stage : Stage} (hi : ∀ c call, ¬ s.Greets i c call)
    (hstage : ∀ c call, stage ≠ .handshaking c call) : s.Aside (s.setStage i stage) :=
  aside_of_connections (greets_setStage hi hstage) rfl

theorem aside_finish {r : Except Failure Answer} (hi : ∀ c call, ¬ s.Greets i c call) :
    s.Aside (s.finish i r) :=
  aside_setStage hi (by simp)

theorem greets_iff_of_others (hothers : ∀ j, j ≠ i → s'.stage? j = s.stage? j)
    (hi : ∀ c call, ¬ s.Greets i c call) (hi' : ∀ c call, ¬ s'.Greets i c call) (j c : Nat)
    (call : Call) : s'.Greets j c call ↔ s.Greets j c call := by
  by_cases hj : j = i
  · subst hj
    exact iff_of_false (hi' c call) (hi c call)
  · unfold Greets
    rw [hothers j hj]

/-- Nobody waits for the handshake on a connection whose server has answered it. -/
theorem Gated.not_greets (h : s.Gated) (hc : s.Holds c true) (i : Nat) (call : Call) :
    ¬ s.Greets i c call := by
  intro hi
  cases hc.unique (h.held hi rfl)

/-- Only a connection changes whose server has answered the handshake. -/
theorem Gated.aside_of_changed (h : s.Gated) (hc : s.Holds c true)
    {R : Connection → Connection → Prop}
    (hR : ∀ {k k' : Connection}, R k k' → k.established = true → k.Beside k')
    (hgreets : ∀ i c call, s'.Greets i c call ↔ s.Greets i c call)
    (hks : ChangedAt R c s.connections s'.connections) : s.Aside s' := by
  refine ⟨hgreets, fun d k' hk' => ?_⟩
  obtain ⟨-, hk⟩ | ⟨rfl, k, hk, hchanged⟩ := hks.of_some hk'
  · exact ⟨k', hk, .refl k', fun _ _ _ => rfl⟩
  · have hestablished : k.established = true := by
      obtain ⟨k₀, hk₀, -, hestablished⟩ := hc
      obtain rfl : k₀ = k := Option.some.inj (hk₀.symm.trans hk)
      exact hestablished
    exact ⟨k, hk, hR hchanged hestablished, fun i call hi => absurd hi (h.not_greets hc i call)⟩

theorem Gated.aside_of_works (h : s.Gated) (hc : s.Holds c true) (hi : ∀ c call, ¬ s.Greets i c call)
    (hw : Works i c s s') : s.Aside s' := by
  refine h.aside_of_changed hc Connection.Used.beside ?_ hw.connections
  refine greets_iff_of_others (fun j hj => hw.stage?_other hj) hi fun d call hd => ?_
  obtain hsame | hserved := hw.stage?_self hd
  · exact hi d call hsame
  · exact hserved

theorem aside_tidy (s : Session) : s.Aside s.tidy := by
  refine ⟨fun _ _ _ => .rfl, fun c k' hk' => ?_⟩
  rw [connection?_tidy] at hk'
  obtain ⟨k, hk, rfl⟩ := Option.map_eq_some_iff.mp hk'
  refine ⟨k, hk, ?_, fun i call hi => ?_⟩
  · split
    · exact k.kept_reap.beside
    · exact .of_rests k.established_release k.rests_release
  · have hheld : s.isHeld c = true := (isHeld_iff s c).mpr (.inr ⟨i, _, hi, rfl⟩)
    rw [if_pos hheld, k.kept_reap.link]

end Relation

section Stretches

variable {s s' : Session} {m : Moment} {i c : Nat}

theorem HasTurn.not_greets (turn : s.HasTurn i) (c : Nat) (call : Call) : ¬ s.Greets i c call := by
  intro hi
  cases turn.stage.symm.trans hi

theorem not_greets_of_stage {stage : Stage} (hi : s.stage? i = some stage)
    (hstage : stage.isStarting = false) (c : Nat) (call : Call) : ¬ s.Greets i c call := by
  intro hgreets
  obtain rfl := Option.some.inj (hi.symm.trans hgreets)
  cases hstage

theorem Gated.aside_reaping (h : s.Gated) (hc : s.Holds c true)
    (hi : ∀ c call, ¬ s.Greets i c call) {R : Connection → Connection → Prop}
    (hR : ∀ {k k' : Connection}, R k k' → k.established = true → k.Beside k')
    {restartable : Bool} (hs : Reaping R i restartable c s s') : s.Aside s' := by
  cases hs with
  | @finishes ks changed =>
    have hkept : s.Aside { s with connections := ks } :=
      h.aside_of_changed hc hR (fun _ _ _ => .rfl) changed
    exact hkept.trans (aside_of_connections (greets_setStage hi (by simp)) rfl)
  | @reaps ks changed | @kills ks changed =>
    have hkept : s.Aside { s with connections := ks } :=
      h.aside_of_changed hc hR (fun _ _ _ => .rfl) changed
    exact hkept.trans (aside_setStage hi (by simp))

theorem Gated.aside_stopping (h : s.Gated) (hc : s.Holds c true)
    (hi : ∀ c call, ¬ s.Greets i c call) {restartable : Bool}
    (hs : Stopping i restartable c s s') : s.Aside s' := by
  cases hs with
  | @waits s₁ call polled tasks =>
    have hi₁ : ∀ c call, ¬ s₁.Greets i c call := fun c call =>
      (greets_of_tasks tasks i c call).not.mpr (hi c call)
    exact (h.aside_of_works hc hi polled).trans (aside_setStage hi₁ (by simp))
  | @closes s₁ _ polled tasks reaping =>
    have hi₁ : ∀ c call, ¬ s₁.Greets i c call := fun c call =>
      (greets_of_tasks tasks i c call).not.mpr (hi c call)
    have h₁ : s₁.Gated := h.aged polled.aged tasks polled.gate polled.lifecycle
    have hreaped := h₁.aside_reaping (polled.aged.holds hc) hi₁ Connection.Shut.beside reaping
    exact (h.aside_of_works hc hi polled).trans hreaped

/-- What a stretch comes to happens beside all starts, unless the operation waits for a handshake or
launches a server. -/
theorem Gated.outcome_cases (h : s.Gated) (hs : Outcome m i s s') :
    s.Aside s' ∨ (∃ c call, s.Greets i c call) ∨
      ∃ hasProcess, s.HasTurn i ∧ s.NeedsServer i ∧ (∀ c, ¬ s.Serving c) ∧
        m.launch = .ok hasProcess := by
  cases hs with
  | idle => exact .inl (.refl s)
  | @goesOn c stage s' stage_ served undone serves =>
    have hstarting : stage.isStarting = false := (Bool.or_eq_false_iff.mp served.not_holdsGate).1
    have hc := h.held stage_ undone
    rw [hstarting] at hc
    exact .inl (h.aside_of_works hc (not_greets_of_stage stage_ hstarting) serves.toWorks)
  | served turn work serving serves =>
    have hleft : s.Aside (s.leaveGate i) := aside_of_connections (fun _ _ _ => .rfl) rfl
    have hworks := (h.leaves turn).aside_of_works (h.ready serving.ready) turn.not_greets
      serves.toWorks
    exact .inl (hleft.trans hworks)
  | unlaunched turn =>
    exact .inl (aside_of_connections (greets_setStage turn.not_greets (by simp)) rfl)
  | @launches hasProcess s' turn work alone launch =>
    exact .inr (.inr ⟨hasProcess, turn, work, alone, launch⟩)
  | greets stage => exact .inr (.inl ⟨_, _, stage⟩)
  | stopsNothing turn =>
    exact .inl (aside_of_connections (greets_setStage turn.not_greets (by simp)) rfl)
  | stops turn work ready stopping =>
    have hending : Gated { s with lifecycle := .shuttingDown } := h.setLifecycle turn (by simp)
    have hstopped := hending.aside_stopping (h.ready ready) turn.not_greets stopping
    have hsame : s.Aside { s with lifecycle := .shuttingDown } :=
      aside_of_connections (fun _ _ _ => .rfl) rfl
    exact .inl (hsame.trans hstopped)
  | goesOnStopping stage work stopping =>
    exact .inl (h.aside_stopping (h.held stage rfl) (not_greets_of_stage stage rfl) stopping)
  | goesOnReaping stage_ reaps reaping =>
    have hkept {k k' : Connection} (hk : k.Kept k') (_ : k.established = true) : k.Beside k' :=
      hk.beside
    obtain rfl | ⟨deadline, rfl⟩ := reaps
    · exact .inl (h.aside_reaping (h.held stage_ rfl) (not_greets_of_stage stage_ rfl) hkept
        reaping)
    · exact .inl (h.aside_reaping (h.held stage_ rfl) (not_greets_of_stage stage_ rfl) hkept
        reaping)

/-- An operation that goes on does so beside all starts, or it looks at a handshake, on a connection
that was there or on a new one. -/
theorem Gated.stretch_cases (h : s.Gated) (m : Moment) (i : Nat) :
    s.Aside (s.stretch m i) ∨
      (∃ c call, s.Greets i c call ∧ s.stretch m i = s.checkHandshake m i c call) ∨
      ∃ hasProcess, s.HasTurn i ∧ s.NeedsServer i ∧
        s.stretch m i = (s.launched hasProcess).checkHandshake m i s.connections.length
          (s.handshakeCall m) := by
  have hs : Outcome m i s (s.stretch m i) :=
    outcome_stretch fun c call r hi => (h.starting hi rfl).2 r
  obtain haside | ⟨c, call, hi⟩ | ⟨hasProcess, turn, needs, alone, launch⟩ := h.outcome_cases hs
  · exact .inl haside
  · exact .inr (.inl ⟨c, call, hi, stretch_of_handshaking hi⟩)
  · refine .inr (.inr ⟨hasProcess, turn, needs, ?_⟩)
    rw [stretch_of_turn turn, takeTurn_of_alone needs alone, start_of_ok launch]

end Stretches

section Beginning

variable {s s' : Session} {m : Moment} {i c : Nat} {w : Work}

theorem stage?_length (s : Session) : s.stage? s.tasks.length = none := by
  simp [stage?]

theorem greets_added (s : Session) (w : Work) (j c : Nat) (call : Call) :
    (s.added w).Greets j c call ↔ s.Greets j c call := by
  unfold Greets
  rw [stage?_added]
  split
  · rename_i hj
    subst hj
    simp [stage?_length]
  · rfl

theorem not_greets_added (s : Session) (w : Work) (c : Nat) (call : Call) :
    ¬ (s.added w).Greets s.tasks.length c call := by
  rw [greets_added]
  intro hgreets
  rw [Greets, stage?_length] at hgreets
  cases hgreets

theorem aside_added (s : Session) (w : Work) : s.Aside (s.added w) :=
  aside_of_connections (greets_added s w) rfl

theorem aside_joined (s : Session) (w : Work) (lifecycle : Lifecycle) :
    s.Aside (s.joined w lifecycle) :=
  aside_of_connections (greets_added s w) rfl

theorem aside_refused (s : Session) (w : Work) (r : Except Failure Answer) :
    s.Aside ((s.added w).finish s.tasks.length r) :=
  (aside_added s w).trans (aside_finish (not_greets_added s w))

theorem Gated.aside_of_shutdown (h : s.Gated) {r : Bool} (hs : Begins m (.shutdown r) s s') :
    s.Aside s' := by
  cases hs with
  | refused => exact aside_refused s _ _
  | served work => exact absurd rfl (work r)
  | queues => exact aside_joined s _ _
  | @turns lifecycle s' settles free outcome =>
    obtain haside | ⟨c, call, hi⟩ | ⟨-, -, needs, -⟩ := (h.joined settles).outcome_cases outcome
    · exact (aside_joined s _ _).trans haside
    · exact absurd hi (not_greets_added s _ c call)
    · exact absurd (s.work?_added_self (.shutdown r)) (needs r)

/-- An operation begins beside all starts, or it launches a server itself. -/
theorem Gated.begin_cases (h : s.Gated) (m : Moment) (w : Work) :
    ∃ s₁, s.begin m w = s₁.tidy ∧
      (s.Aside s₁ ∨ ∃ lifecycle hasProcess, Settles s lifecycle ∧ s.gate = [] ∧
        w.needsServer = true ∧
        s₁ = ((s.joined w lifecycle).launched hasProcess).checkHandshake m s.tasks.length
          s.connections.length ((s.joined w lifecycle).handshakeCall m)) := by
  by_cases needs : w.needsServer = true
  · obtain ⟨c, hc, heq⟩ | ⟨halone, lifecycle, hsettles, ⟨-, heq⟩ | ⟨hfree, heq⟩⟩ :=
      Session.begin_cases (s := s) (m := m) needs
    · have hadded : (s.added w).Gated := h.newcomer w (.inl rfl)
      have hwork : ∀ r, (s.added w).work? s.tasks.length ≠ some (.shutdown r) :=
        needsServer_joined needs s.lifecycle
      have hserves : Serves s.tasks.length c (s.added w)
        ((s.added w).serve m s.tasks.length c) := .serve hwork
      have hworks := hadded.aside_of_works (h.ready hc.ready) (not_greets_added s w)
        hserves.toWorks
      exact ⟨_, heq, .inl ((aside_added s w).trans hworks)⟩
    · exact ⟨_, heq, .inl (aside_joined s w lifecycle)⟩
    · refine ⟨_, heq, ?_⟩
      cases hlaunch : m.launch with
      | error f =>
        rw [start_of_error hlaunch]
        refine .inl ((aside_joined s w lifecycle).trans ?_)
        exact aside_of_connections (greets_setStage (not_greets_added s w) (by simp)) rfl
      | ok hasProcess =>
        rw [start_of_ok hlaunch]
        exact .inr ⟨lifecycle, hasProcess, hsettles, hfree, needs, rfl⟩
  · -- what needs no server launches none
    cases w with
    | query => exact absurd rfl needs
    | «open» path text =>
      have hnone : (FileUri.ofPath? path).isNone = true := by
        simpa [Work.needsServer] using needs
      have heq : s.begin m (.open path text) = Session.tidy
          ((s.added (.open path text)).finish s.tasks.length (.error (.noUri path))) := by
        unfold begin
        extract_lets i added' done
        simp only [done, hnone, if_true]
        rfl
      exact ⟨_, heq, .inl (aside_refused s _ _)⟩
    | shutdown r =>
      have hs : Begins m (.shutdown r) s ((s.added (.shutdown r)).enterGate m s.tasks.length) :=
        begins_enterGate .same
      exact ⟨_, rfl, .inl (h.aside_of_shutdown hs)⟩

end Beginning

section Steps

variable {s s' : Session} {c : Nat}

/-- Changes of documents, and the dropping of an operation that does not wait for a handshake, happen
beside all starts. -/
theorem Gated.aside_of_step (h : s.Gated) {e : Event} (hs : Step s e s')
    (he : match e with
      | .cancel i => ∀ c call, ¬ s.Greets i c call
      | .change _ _ | .close _ | .tidy => True
      | .begin _ _ | .resume _ _ | .read _ | .write _ _ | .receive _ _ | .endInput _ => False) :
    s.Aside s' := by
  cases hs with
  | nothing => exact .refl s
  | begins | resumes | reads | writes | receives | endsInput => exact he.elim
  | @cancels i stage ks stage_ left =>
    have hleft : s.Aside { s with connections := ks } := by
      obtain rfl | ⟨d, hd, hchanged⟩ := left
      · exact .refl s
      · have hholds := h.held stage_ hd
        have hstarting : stage.isStarting = false := by
          cases stage with
          | handshaking c call => exact absurd stage_ (he c call)
          | _ => rfl
        rw [hstarting] at hholds
        exact h.aside_of_changed hholds Connection.Left.beside (fun _ _ _ => .rfl) hchanged
    have hdropped : Session.Aside { s with connections := ks }
        ((Session.setStage { s with connections := ks } i .dropped).leaveGate i) :=
      aside_of_connections (greets_setStage he (by simp)) rfl
    exact (hleft.trans hdropped).trans (aside_tidy _)
  | @settles e lifecycle settles =>
    have hsettled : s.Aside { s with lifecycle } :=
      aside_of_connections (fun _ _ _ => .rfl) rfl
    exact hsettled.trans (aside_tidy _)
  | @tells e d ks serving told =>
    have htold : s.Aside { s with connections := ks } :=
      h.aside_of_changed (h.ready serving.ready) Connection.Used.beside (fun _ _ _ => .rfl) told
    exact htold.trans (aside_tidy _)
  | tidies => exact aside_tidy s

end Steps

end Session
end LanguageClient
