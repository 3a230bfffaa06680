import LanguageClient.Proofs.Session.Launching
import LanguageClient.Proofs.Session.Stages

namespace LanguageClient

/-- What belongs to a parting: the last notification, that a call is given up, an answer to the
server, and the end of the stream. -/
inductive Outgoing.IsParting : Outgoing → Prop
  | exit : IsParting (.frame (Message.notification "exit" none))
  | cancel (c : Call) :
      IsParting (.frame (Message.notification "$/cancelRequest" (some (Link.cancelParams c))))
  | reply (id : Json) (method : String) (params : Option Json) :
      IsParting (.frame (Link.replyTo id method params))
  | finish : IsParting .finish

namespace Link

/-- From one link to the other, nothing but a parting is queued. -/
def Parts (l l' : Link) : Prop :=
  ∃ os, l'.sent = l.sent ++ os ∧ ∀ o ∈ os, o.IsParting

variable {l l' l'' : Link}

theorem Parts.of_eq (h : l'.sent = l.sent) : l.Parts l' :=
  ⟨[], by simp [h], by simp⟩

theorem Parts.refl (l : Link) : l.Parts l :=
  .of_eq rfl

theorem Parts.trans (h : l.Parts l') (h' : l'.Parts l'') : l.Parts l'' := by
  obtain ⟨os, hs, hos⟩ := h
  obtain ⟨os', hs', hos'⟩ := h'
  refine ⟨os ++ os', by rw [hs', hs, List.append_assoc], fun o ho => ?_⟩
  exact (List.mem_append.mp ho).elim (hos o) (hos' o)

theorem Parts.of_cases {o : Outgoing} (ho : o.IsParting)
    (h : l'.sent = l.sent ++ [o] ∨ l'.sent = l.sent) : l.Parts l' := by
  obtain h | h := h
  · exact ⟨[o], h, by simpa using ho⟩
  · exact .of_eq h

variable (l)

theorem parts_exit : l.Parts (l.notify "exit" none).2 :=
  .of_cases .exit (l.sent_notify_cases "exit" none)

theorem parts_close : l.Parts l.close :=
  .of_cases .finish l.sent_close_cases

theorem parts_release : l.Parts l.release := by
  refine .of_cases .finish ?_
  rw [sent_release]
  cases l.writing <;> simp

theorem parts_poll (now : Nat) (c : Call) : l.Parts (l.poll now c).2 := by
  cases hs : l.inflight.slot c.ticket with
  | filled r =>
    rw [poll_of_filled hs]
    exact .of_eq rfl
  | spent =>
    rw [poll_of_spent hs]
    exact .of_eq rfl
  | deserted =>
    rw [poll_of_deserted hs]
    exact .refl l
  | empty =>
    by_cases ht : now < c.deadline
    · rw [poll_of_early hs ht]
      exact .refl l
    · rw [poll_of_late hs (Nat.le_of_not_lt ht)]
      exact .of_cases (.cancel c) ((l.abandon c).sent_notify_cases _ _)

variable {l}

theorem parts_readNext? {p : Option Publication} (h : l.readNext? = some (l', p)) :
    l.Parts l' := by
  obtain ⟨reason, rest, -, rfl⟩ | ⟨v, rest, -, rfl⟩ := readNext?_cases h
  · exact .of_eq rfl
  · obtain hs | ⟨id, method, params, hs⟩ := sent_route { l with input := rest } v
    · exact .of_eq hs
    · exact .of_cases (.reply id method params) (.inl hs)

theorem parts_writeNext? {accepted : Bool} {what : Written}
    (h : l.writeNext? accepted = some (what, l')) : l.Parts l' := by
  obtain ⟨n, writing, -, -, rfl⟩ | rfl := writeNext?_cases h <;> exact .of_eq rfl

end Link

namespace Session

section Reading

variable {R : Connection → Connection → Prop} {s s' : Session} {m : Moment} {i j c d : Nat}
  {call : Call} {r : Bool} {uri : String}

theorem stage?_setStage_ne (s : Session) (i : Nat) {stage stage' : Stage} (h : stage ≠ stage') :
    (s.setStage i stage).stage? i ≠ some stage' := by
  rw [stage?_setStage, if_pos rfl]
  intro heq
  obtain ⟨-, -, rfl⟩ := Option.map_eq_some_iff.mp heq
  exact h rfl

theorem Handshake.reading (hs : Handshake i d call s s') (hi : (s.stage? i).isSome)
    (hreading : s'.stage? i = some (.reading c uri)) : d = c := by
  cases hs with
  | waits => exact absurd hreading (stage?_setStage_ne s i Stage.noConfusion)
  | fails => exact absurd hreading (stage?_setStage_ne _ i Stage.noConfusion)
  | succeeds polled tasks serves =>
    obtain ⟨stage, hstage⟩ := Option.isSome_iff_exists.mp hi
    obtain ⟨stage', hstage', hserved⟩ :=
      serves.stage?_self ((stage?_of_tasks tasks i).trans hstage)
    obtain rfl := Option.some.inj (hstage'.symm.trans hreading)
    exact hserved.symm

theorem Reaping.not_reading (hs : Reaping R i r d s s') : s'.stage? i ≠ some (.reading c uri) := by
  cases hs <;> exact stage?_setStage_ne _ i Stage.noConfusion

theorem Stopping.not_reading (hs : Stopping i r d s s') :
    s'.stage? i ≠ some (.reading c uri) := by
  cases hs with
  | waits => exact stage?_setStage_ne _ i Stage.noConfusion
  | closes _ _ reaping => exact reaping.not_reading

theorem checkAsking_not_reading (q : Query) :
    (s.checkAsking m i q d call).stage? i ≠ some (.reading c uri) := by
  unfold checkAsking
  split <;> exact stage?_setStage_ne _ i Stage.noConfusion

theorem ask_not_reading (path : Path) (q : Query) (uri' : String) :
    (s.ask m i path q d uri').stage? i ≠ some (.reading c uri) := by
  unfold ask
  extract_lets k inside provided
  split
  · split
    · exact stage?_setStage_ne _ i Stage.noConfusion
    · exact checkAsking_not_reading q
  · exact stage?_setStage_ne _ i Stage.noConfusion

theorem afterReading_not_reading (path : Path) (q : Query) (uri' : String) :
    (s.afterReading m i path q d uri').stage? i ≠ some (.reading c uri) := by
  unfold afterReading
  split
  · exact stage?_setStage_ne _ i Stage.noConfusion
  · split
    · exact ask_not_reading path q uri'
    · split
      · exact stage?_setStage_ne _ i Stage.noConfusion
      · exact ask_not_reading path q uri'

end Reading

theorem Connection.parts_release (k : Connection) : k.link.Parts k.release.link := by
  unfold release
  split
  · exact .refl k.link
  · exact k.link.parts_release

theorem Connection.Shut.parts {k k' : Connection} (h : k.Shut k') : k.link.Parts k'.link :=
  h.link ▸ k.link.parts_close

/-- On this connection nothing but a parting is queued. -/
def PartsAt (c : Nat) (s s' : Session) : Prop :=
  ∀ k, s.connection? c = some k → ∃ k', s'.connection? c = some k' ∧ k.link.Parts k'.link

namespace PartsAt

variable {s s' s'' : Session} {m : Moment} {i c d : Nat}

theorem of_same (h : s'.connection? c = s.connection? c) : PartsAt c s s' :=
  fun k hk => ⟨k, h.trans hk, .refl k.link⟩

theorem trans (h : PartsAt c s s') (h' : PartsAt c s' s'') : PartsAt c s s'' := by
  intro k hk
  obtain ⟨k', hk', hparts⟩ := h k hk
  obtain ⟨k'', hk'', hparts'⟩ := h' k' hk'
  exact ⟨k'', hk'', hparts.trans hparts'⟩

theorem of_changed {R : Connection → Connection → Prop}
    (hR : ∀ {k k'}, R k k' → k.link.Parts k'.link)
    (h : ChangedAt R c s.connections s'.connections) : PartsAt c s s' := by
  intro k hk
  obtain ⟨k', hk', hchanged⟩ := h.this k hk
  exact ⟨k', hk', hR hchanged⟩

theorem of_other {R : Connection → Connection → Prop} (hd : d ≠ c)
    (h : ChangedAt R d s.connections s'.connections) : PartsAt c s s' :=
  of_same (h.others c hd.symm)

theorem updateConnection {f : Connection → Connection}
    (hf : ∀ k : Connection, k.link.Parts (f k).link) :
    PartsAt c s (s.updateConnection d f) := by
  intro k hk
  rw [connection?_updateConnection]
  split
  · rename_i heq
    subst heq
    exact ⟨f k, by rw [hk]; rfl, hf k⟩
  · exact ⟨k, hk, .refl k.link⟩

theorem setLink {k : Connection} (hk : s.connection? d = some k) {l : Link}
    (hl : k.link.Parts l) : PartsAt c s (s.setLink d l) := by
  by_cases hd : d = c
  · subst hd
    intro k' hk'
    obtain rfl : k = k' := Option.some.inj (hk.symm.trans hk')
    exact ⟨_, connection?_setLink_self hk l, hl⟩
  · refine of_same ?_
    unfold Session.setLink
    rw [connection?_updateConnection, if_neg (Ne.symm hd)]

theorem tidy (h : PartsAt c s s') : PartsAt c s s'.tidy := by
  refine h.trans fun k hk => ?_
  rw [connection?_tidy, hk]
  refine ⟨_, rfl, ?_⟩
  split
  · exact .of_eq (by rw [k.kept_reap.link])
  · exact k.parts_release

theorem pollCall (call : Call) : PartsAt c s (s.pollCall m d call).2 := by
  cases hk : s.connection? d with
  | none =>
    unfold Session.pollCall
    rw [hk]
    exact of_same rfl
  | some k =>
    rw [pollCall_of_connection hk]
    exact setLink hk (k.link.parts_poll m.now call)

theorem checkAsking (q : Query) (call : Call) : PartsAt c s (s.checkAsking m i q d call) := by
  have hpoll : PartsAt c s (s.pollCall m d call).2 := pollCall call
  unfold Session.checkAsking
  split <;> · rename_i heq
              rw [heq] at hpoll
              exact hpoll

end PartsAt

section Stopping

variable {s s' : Session} {m : Moment} {i c d : Nat} {k : Connection} {call : Call} {r : Bool}

theorem Reaping.changed {R : Connection → Connection → Prop} (h : Reaping R i r c s s') :
    ChangedAt R c s.connections s'.connections := by
  cases h with
  | finishes changed | reaps changed | kills changed => exact changed

theorem checkStopping_of_none (hk : s.connection? c = some k)
    (h : (k.link.poll m.now call).1 = none) :
    s.checkStopping m i r c call = s.setStage i (.stopping c call) := by
  unfold checkStopping
  rw [pollCall_of_connection hk, h, k.link.poll_of_none h, setLink_self hk]

theorem checkStopping_of_error (hk : s.connection? c = some k) {f : Failure} {l : Link}
    (h : k.link.poll m.now call = (some (.error f), l)) :
    s.checkStopping m i r c call = (s.setLink c l).closeUp m i r c := by
  unfold checkStopping
  rw [pollCall_of_connection hk, h]

theorem checkStopping_of_ok (hk : s.connection? c = some k) {v : Json} {l : Link}
    (h : k.link.poll m.now call = (some (.ok v), l)) :
    s.checkStopping m i r c call =
      (s.setLink c (l.notify "exit" none).2).closeUp m i r c := by
  unfold checkStopping
  rw [pollCall_of_connection hk, h]
  simp only [connection?_setLink_self hk, Option.map_some, setLink_setLink]

theorem PartsAt.closeUp : PartsAt c s (s.closeUp m i r d) := by
  have hchanged := (reaping_closeUp (s := s) (m := m) (i := i) (c := d) r).changed
  by_cases hd : d = c
  · subst hd
    exact .of_changed Connection.Shut.parts hchanged
  · exact .of_other hd hchanged

theorem PartsAt.checkStopping : PartsAt c s (s.checkStopping m i r d call) := by
  cases hk : s.connection? d with
  | none =>
    -- without a connection there is nothing to say
    have hpoll : s.pollCall m d call = (some (.error (.crashed s.language)), s) := by
      simp only [Session.pollCall, hk]
    unfold Session.checkStopping
    rw [hpoll]
    exact closeUp
  | some k =>
    have hparts := k.link.parts_poll m.now call
    cases hpoll : k.link.poll m.now call with
    | mk reply l =>
      rw [hpoll] at hparts
      cases reply with
      | none =>
        rw [checkStopping_of_none hk (by rw [hpoll])]
        exact of_same rfl
      | some reply =>
        cases reply with
        | error f =>
          rw [checkStopping_of_error hk hpoll]
          exact (setLink hk hparts).trans closeUp
        | ok v =>
          rw [checkStopping_of_ok hk hpoll]
          exact (setLink hk (hparts.trans l.parts_exit)).trans closeUp

end Stopping

/-- The server of this connection has answered the handshake, and the session is not ready with it. -/
structure Retiring (c : Nat) (s : Session) : Prop where
  unready : s.lifecycle ≠ .ready c
  answered : ∃ k, s.connection? c = some k ∧ k.established = true

namespace Retiring

variable {s s' : Session} {m : Moment} {i c d : Nat} {call : Call} {r : Bool}

theorem of_aged (h : Retiring c s) (hlifecycle : s'.lifecycle ≠ .ready c) (haged : s.Aged s') :
    Retiring c s' := by
  obtain ⟨k, hk, hestablished⟩ := h.answered
  obtain ⟨k', hk', hages⟩ := haged.fore hk
  exact ⟨hlifecycle, k', hk', hages.established.trans hestablished⟩

theorem of_same (h : Retiring c s) (hlifecycle : s'.lifecycle ≠ .ready c)
    (hconnection : s'.connection? c = s.connection? c) : Retiring c s' :=
  ⟨hlifecycle, hconnection ▸ h.answered⟩

theorem tidy (h : Retiring c s) : Retiring c s.tidy := by
  obtain ⟨k, hk, hestablished⟩ := h.answered
  refine ⟨h.unready, _, by rw [connection?_tidy, hk]; rfl, ?_⟩
  split
  · rw [k.kept_reap.established, hestablished]
  · rw [Connection.established_release, hestablished]

theorem ne_of_holds (h : Retiring c s) (hd : s.Holds d false) : d ≠ c := by
  rintro rfl
  obtain ⟨k, hk, hestablished⟩ := h.answered
  obtain ⟨k', hk', -, hnot⟩ := hd
  obtain rfl : k = k' := Option.some.inj (hk.symm.trans hk')
  rw [hestablished] at hnot
  cases hnot

theorem handshake_others (hd : d ≠ c) (hs : Handshake i d call s s') :
    s'.connection? c = s.connection? c := by
  have hothers {t : Session} {f : Connection → Connection} :
      (t.updateConnection d f).connection? c = t.connection? c := by
    rw [connection?_updateConnection, if_neg hd.symm]
  cases hs with
  | waits => rfl
  | fails polled => exact hothers.trans (polled.connections.others c hd.symm)
  | succeeds polled _ serves =>
    exact (serves.connections.others c hd.symm).trans
      (hothers.trans (polled.connections.others c hd.symm))

theorem handshake (h : Retiring c s) (hd : d ≠ c) (hs : Handshake i d call s s') :
    Retiring c s' := by
  refine h.of_same ?_ (handshake_others hd hs)
  cases hs with
  | waits => exact h.unready
  | fails => exact Lifecycle.noConfusion
  | succeeds _ _ serves =>
    rw [serves.lifecycle]
    exact fun heq => hd (Lifecycle.ready.inj heq)

theorem ne_ended (restartable : Bool) :
    (if restartable then Lifecycle.notStarted else .stopped) ≠ .ready c := by
  cases restartable <;> exact Lifecycle.noConfusion

theorem reaping {R : Connection → Connection → Prop} (hR : ∀ {k k'}, R k k' → k.Ages k')
    (h : Retiring c s) (hs : Reaping R i r d s s') : Retiring c s' := by
  refine h.of_aged ?_ (.of_changed hR hs.changed)
  cases hs with
  | finishes => exact ne_ended r
  | reaps | kills => exact h.unready

theorem stopping (h : Retiring c s) (hs : Stopping i r d s s') : Retiring c s' := by
  cases hs with
  | waits polled => exact h.of_aged (polled.lifecycle ▸ h.unready) polled.aged
  | closes polled _ hreaping =>
    have hpolled := h.of_aged (polled.lifecycle ▸ h.unready) polled.aged
    exact hpolled.reaping Connection.Shut.ages hreaping

theorem stopping_others (hd : d ≠ c) (hs : Stopping i r d s s') :
    s'.connection? c = s.connection? c := by
  cases hs with
  | waits polled => exact polled.connections.others c hd.symm
  | closes polled _ hreaping =>
    exact (hreaping.changed.others c hd.symm).trans (polled.connections.others c hd.symm)

theorem launched (h : Retiring c s) (hasProcess : Bool) :
    s.connections.length ≠ c ∧ (s.launched hasProcess).connection? c = s.connection? c := by
  obtain ⟨k, hk, -⟩ := h.answered
  have hlt : c < s.connections.length := (List.getElem?_eq_some_iff.mp hk).1
  exact ⟨Nat.ne_of_gt hlt, List.getElem?_append_left hlt⟩

theorem outcome (h : Retiring c s) (hg : s.Gated) (hs : Outcome m i s s') : Retiring c s' := by
  cases hs with
  | idle => exact h
  | goesOn _ _ _ serves => exact h.of_aged (serves.lifecycle ▸ h.unready) serves.aged
  | served _ _ _ serves =>
    have hleft : Retiring c (s.leaveGate i) := h.of_same h.unready rfl
    exact hleft.of_aged (serves.lifecycle ▸ h.unready) serves.aged
  | unlaunched => exact ⟨Lifecycle.noConfusion, h.answered⟩
  | @launches hasProcess _ _ _ _ _ hs =>
    obtain ⟨hne, hsame⟩ := h.launched hasProcess
    have hlaunched : Retiring c (s.launched hasProcess) := h.of_same Lifecycle.noConfusion hsame
    exact hlaunched.handshake hne hs
  | greets stage hs => exact h.handshake (h.ne_of_holds (hg.held stage rfl)) hs
  | @stopsNothing r => exact ⟨ne_ended r, h.answered⟩
  | stops _ _ _ hs =>
    have hstopping : Retiring c { s with lifecycle := .shuttingDown } :=
      ⟨Lifecycle.noConfusion, h.answered⟩
    exact hstopping.stopping hs
  | goesOnStopping _ _ hs => exact h.stopping hs
  | goesOnReaping _ _ hs => exact h.reaping Connection.Kept.ages hs

theorem joined (h : Retiring c s) {w : Work} {lifecycle : Lifecycle} (hs : Settles s lifecycle) :
    Retiring c (s.joined w lifecycle) := by
  refine ⟨?_, h.answered⟩
  cases hs with
  | same => exact h.unready
  | crashed => exact Lifecycle.noConfusion

theorem step (h : Retiring c s) (hg : s.Gated) {e : Event} (hs : Step s e s') : Retiring c s' := by
  cases hs with
  | nothing => exact h
  | @begins m w s' hs =>
    refine tidy ?_
    cases hs with
    | refused => exact h.of_same h.unready rfl
    | served _ _ serves =>
      have hadded : Retiring c (s.added w) := h.of_same h.unready rfl
      exact hadded.of_aged (serves.lifecycle ▸ h.unready) serves.aged
    | queues settles => exact h.joined settles
    | turns settles _ outcome_ => exact (h.joined settles).outcome (hg.joined settles) outcome_
  | resumes outcome_ => exact (h.outcome hg outcome_).tidy
  | @cancels j stage ks _ left =>
    have hleft : Retiring c { s with connections := ks } :=
      h.of_aged h.unready (aged_of_left left)
    have hdropped : Retiring c
        ((Session.setStage { s with connections := ks } j .dropped).leaveGate j) :=
      hleft.of_same h.unready rfl
    exact hdropped.tidy
  -- giving up a closed connection is what a newcomer does first, whatever it comes for
  | settles settles =>
    have hjoined := h.joined (w := .shutdown true) settles
    exact Retiring.tidy ⟨hjoined.unready, hjoined.answered⟩
  | @tells _ d ks _ told =>
    have htold : Retiring c { s with connections := ks } :=
      h.of_aged h.unready (aged_of_connections Connection.Used.ages told)
    exact htold.tidy
  | reads connection read =>
    have hread : Retiring c (s.setLink _ _) :=
      h.of_aged h.unready (aged_setLink connection (Link.ages_readNext? read))
    exact hread.tidy
  | writes connection write =>
    exact h.of_aged h.unready (aged_setLink connection (Link.ages_writeNext? write))
  | receives connection | endsInput connection =>
    exact h.of_aged h.unready (aged_setLink connection (Link.ages_of_same rfl rfl rfl))
  | tidies => exact h.tidy

end Retiring

section Steps

variable {s s' : Session} {m : Moment} {i c : Nat}

theorem Retiring.parts_outcome (h : Retiring c s) (hg : s.Gated) (hs : Outcome m i s s')
    (hreading : ∀ uri, s.stage? i ≠ some (.reading c uri))
    (hasking : ∀ call, s.stage? i ≠ some (.asking c call))
    (hstopping : ∀ call, s.stage? i ≠ some (.stopping c call)) : PartsAt c s s' := by
  -- whoever is served by the session is served by another connection
  have hserving {d : Nat} (hd : s.lifecycle = .ready d) : d ≠ c := fun heq =>
    h.unready (heq ▸ hd)
  cases hs with
  | idle => exact .of_same rfl
  | @goesOn d stage s' stage_ served undone serves =>
    refine .of_other (fun heq => ?_) serves.connections
    subst heq
    cases stage with
    | reading d uri =>
      obtain rfl := Option.some.inj undone
      exact hreading uri stage_
    | asking d call =>
      obtain rfl := Option.some.inj undone
      exact hasking call stage_
    | _ => cases served <;> cases undone
  | served _ _ serving serves =>
    exact .of_same (serves.connections.others c (hserving serving.ready).symm)
  | unlaunched | stopsNothing => exact .of_same rfl
  | @launches hasProcess _ _ _ _ _ hs =>
    obtain ⟨hne, hsame⟩ := h.launched hasProcess
    exact .of_same ((Retiring.handshake_others hne hs).trans hsame)
  | greets stage hs =>
    exact .of_same (Retiring.handshake_others (h.ne_of_holds (hg.held stage rfl)) hs)
  | stops _ _ ready hs =>
    have hothers := Retiring.stopping_others (hserving ready) hs
    exact .of_same hothers
  | @goesOnStopping r d call s' stage _ hs =>
    exact .of_same (Retiring.stopping_others (fun heq => hstopping call (heq ▸ stage)) hs)
  | @goesOnReaping r d stage s' stage_ reaps hs =>
    by_cases hd : d = c
    · subst hd
      exact .of_changed (fun hkept => .of_eq (by rw [hkept.link])) hs.changed
    · exact .of_other hd hs.changed

theorem stretch_reading_cases {uri : String} (hi : s.stage? i = some (.reading c uri)) :
    s.stretch m i = s ∨ ∃ path q, s.stretch m i = s.afterReading m i path q c uri := by
  obtain ⟨w, hwork⟩ := exists_work hi
  unfold stretch
  simp only [task_of_stage hi hwork]
  cases w with
  | query path q => exact .inr ⟨path, q, rfl⟩
  | «open» | shutdown => exact .inl rfl

theorem stretch_asking_cases {call : Call} (hi : s.stage? i = some (.asking c call)) :
    s.stretch m i = s ∨ ∃ q, s.stretch m i = s.checkAsking m i q c call := by
  obtain ⟨w, hwork⟩ := exists_work hi
  unfold stretch
  simp only [task_of_stage hi hwork]
  cases w with
  | query path q => exact .inr ⟨q, rfl⟩
  | «open» | shutdown => exact .inl rfl

theorem stretch_stopping_cases {call : Call} (hi : s.stage? i = some (.stopping c call)) :
    s.stretch m i = s ∨ ∃ r, s.stretch m i = s.checkStopping m i r c call := by
  obtain ⟨w, hwork⟩ := exists_work hi
  unfold stretch
  simp only [task_of_stage hi hwork]
  cases w with
  | shutdown r => exact .inr ⟨r, rfl⟩
  | «open» | query => exact .inl rfl

theorem Retiring.parts_stretch (h : Retiring c s) (hg : s.Gated)
    (hreading : ∀ uri, s.stage? i ≠ some (.reading c uri)) : PartsAt c s (s.stretch m i) := by
  have hs : Outcome m i s (s.stretch m i) :=
    outcome_stretch fun d call r hi => (hg.starting hi rfl).2 r
  by_cases hasking : ∃ call, s.stage? i = some (.asking c call)
  · obtain ⟨call, hi⟩ := hasking
    obtain heq | ⟨q, heq⟩ := stretch_asking_cases (m := m) hi
    · rw [heq]
      exact .of_same rfl
    · rw [heq]
      exact .checkAsking q call
  · by_cases hstopping : ∃ call, s.stage? i = some (.stopping c call)
    · obtain ⟨call, hi⟩ := hstopping
      obtain heq | ⟨r, heq⟩ := stretch_stopping_cases (m := m) hi
      · rw [heq]
        exact .of_same rfl
      · rw [heq]
        exact .checkStopping
    · exact h.parts_outcome hg hs hreading (not_exists.mp hasking) (not_exists.mp hstopping)

theorem Retiring.parts_begins (h : Retiring c s) (hg : s.Gated) {w : Work}
    (hs : Begins m w s s') : PartsAt c s s' := by
  cases hs with
  | refused | queues => exact .of_same rfl
  | served _ serving serves =>
    have hne : _ ≠ c := fun heq => h.unready (heq ▸ serving.ready)
    exact .of_same (serves.connections.others c hne.symm)
  | @turns lifecycle s' settles _ outcome =>
    have hnew (stage : Stage) (hstage : stage ≠ .queued) :
        (s.joined w lifecycle).stage? s.tasks.length ≠ some stage := by
      have hqueued := s.stage?_added_self w
      exact fun heq => hstage (Option.some.inj (heq.symm.trans hqueued))
    have hparts := (h.joined settles).parts_outcome (hg.joined settles) outcome
      (fun _ => hnew _ Stage.noConfusion) (fun _ => hnew _ Stage.noConfusion)
      (fun _ => hnew _ Stage.noConfusion)
    exact hparts

theorem PartsAt.cancel : PartsAt c s (s.cancel i) := by
  have habandon (d : Nat) (call : Call) : PartsAt c s (s.abandonCall d call) :=
    .updateConnection fun k => .of_eq rfl
  unfold Session.cancel
  split
  · exact .of_same rfl
  · exact .of_same rfl
  · exact .of_same rfl
  · extract_lets left
    have hleft : PartsAt c s left := by
      simp only [left]
      split
      · exact habandon _ _
      · exact habandon _ _
      · exact habandon _ _
      · exact .updateConnection fun k => .refl k.link
      · exact .of_same rfl
    have hdropped : PartsAt c s ((left.setStage i .dropped).leaveGate i) := hleft
    exact hdropped.tidy

theorem Retiring.outcome_not_reading (h : Retiring c s) (hg : s.Gated) (hs : Outcome m i s s')
    (hi : (s.stage? i).isSome) (hreading : ∀ uri, s.stage? i ≠ some (.reading c uri))
    (hasking : ∀ call, s.stage? i ≠ some (.asking c call)) (uri : String) :
    s'.stage? i ≠ some (.reading c uri) := by
  have hserves {d : Nat} {t : Session} (hd : d ≠ c) (hserves : Serves i d t s')
      (ht : t.stage? i = s.stage? i) : s'.stage? i ≠ some (.reading c uri) := by
    obtain ⟨stage, hstage⟩ := Option.isSome_iff_exists.mp hi
    obtain ⟨stage', hstage', hserved⟩ := hserves.stage?_self (ht.trans hstage)
    intro heq
    obtain rfl := Option.some.inj (hstage'.symm.trans heq)
    exact hd hserved.symm
  cases hs with
  | idle => exact hreading uri
  | @goesOn d stage s' stage_ served undone serves =>
    refine hserves (fun heq => ?_) serves rfl
    subst heq
    cases stage with
    | reading d uri =>
      obtain rfl := Option.some.inj undone
      exact hreading uri stage_
    | asking d call =>
      obtain rfl := Option.some.inj undone
      exact hasking call stage_
    | _ => cases served <;> cases undone
  | served _ _ serving serves => exact hserves (fun heq => h.unready (heq ▸ serving.ready)) serves rfl
  | unlaunched | stopsNothing => exact stage?_setStage_ne _ i Stage.noConfusion
  | @launches hasProcess _ _ _ _ _ hs =>
    exact fun heq => (h.launched hasProcess).1 (hs.reading hi heq)
  | greets stage hs => exact fun heq => h.ne_of_holds (hg.held stage rfl) (hs.reading hi heq)
  | stops _ _ _ hs | goesOnStopping _ _ hs => exact hs.not_reading
  | goesOnReaping _ _ hs => exact hs.not_reading

theorem Retiring.stretch_not_reading (h : Retiring c s) (hg : s.Gated) (uri : String) :
    s.stretch m i = s ∨ (s.stretch m i).stage? i ≠ some (.reading c uri) := by
  have hs : Outcome m i s (s.stretch m i) :=
    outcome_stretch fun d call r hi => (hg.starting hi rfl).2 r
  cases hi : s.stage? i with
  | none =>
    left
    unfold stretch
    rw [Option.map_eq_none_iff.mp hi]
  | some stage =>
    cases stage with
    | reading d uri' =>
      obtain hsame | ⟨path, q, heq⟩ := stretch_reading_cases (m := m) hi
      · exact .inl hsame
      · exact .inr (heq ▸ afterReading_not_reading path q uri')
    | asking d call =>
      obtain hsame | ⟨q, heq⟩ := stretch_asking_cases (m := m) hi
      · exact .inl hsame
      · exact .inr (heq ▸ checkAsking_not_reading q)
    | _ => exact .inr (h.outcome_not_reading hg hs (by simp [hi]) (by simp [hi]) (by simp [hi]) uri)

theorem Retiring.reading_begins (h : Retiring c s) (hg : s.Gated) {w : Work}
    (hb : Begins m w s s') {j : Nat} {uri : String} (hj : s'.stage? j = some (.reading c uri)) :
    s.stage? j = some (.reading c uri) := by
  have hqueued := s.stage?_added_self w
  have hold (hj : (s.added w).stage? j = some (.reading c uri)) :
      s.stage? j = some (.reading c uri) := stage?_of_added hj Stage.noConfusion
  by_cases hne : j = s.tasks.length
  · subst hne
    cases hb with
    | refused => exact absurd hj (stage?_setStage_ne _ _ Stage.noConfusion)
    | served _ serving serves =>
      obtain ⟨stage, hstage, hserved⟩ := serves.stage?_self hqueued
      obtain rfl := Option.some.inj (hstage.symm.trans hj)
      have heq : c = _ := hserved
      exact absurd (heq ▸ serving.ready) h.unready
    | queues => exact hold hj
    | @turns lifecycle s' settles _ outcome =>
      have hqueued : (s.joined w lifecycle).stage? s.tasks.length = some .queued := hqueued
      exact absurd hj ((h.joined settles).outcome_not_reading (hg.joined settles) outcome
        (by simp [hqueued]) (by simp [hqueued]) (by simp [hqueued]) uri)
  · cases hb with
    | refused => exact hold ((stage?_setStage_other _ hne _).symm.trans hj)
    | served _ _ serves => exact hold ((serves.stage?_other hne).symm.trans hj)
    | queues => exact hold hj
    | turns _ _ outcome => exact hold ((outcome.stage?_other hne).symm.trans hj)

theorem Retiring.reading_step (h : Retiring c s) (hg : s.Gated) {e : Event} {j : Nat}
    {uri : String} (hj : (s.step e).stage? j = some (.reading c uri)) :
    s.stage? j = some (.reading c uri) := by
  have hs := (hg.step e).1
  generalize hs' : s.step e = s' at hs hj
  cases hs with
  | nothing | settles | tells | reads | writes | receives | endsInput | tidies => exact hj
  | @begins m w s' begins =>
    have hj : s'.stage? j = some (.reading c uri) := hj
    exact h.reading_begins hg begins hj
  | @resumes m i s' outcome =>
    have hj : s'.stage? j = some (.reading c uri) := hj
    by_cases hne : j = i
    · subst hne
      have hstretch : (s.stretch m j).stage? j = some (.reading c uri) := by
        have hresume : (s.step (.resume m j)).stage? j = some (.reading c uri) := hs' ▸ hj
        exact hresume
      obtain hsame | hnot := h.stretch_not_reading (m := m) (i := j) hg uri
      · exact hsame ▸ hstretch
      · exact absurd hstretch hnot
    · exact (outcome.stage?_other hne).symm.trans hj
  | @cancels i stage ks _ left =>
    by_cases hne : j = i
    · subst hne
      exact absurd hj (stage?_setStage_ne { s with connections := ks } j Stage.noConfusion)
    · exact (stage?_setStage_other { s with connections := ks } hne _).symm.trans hj

/-- Whatever happens beside a query that waits for its file, it only parts from the server. -/
theorem Retiring.parts (h : Retiring c s) (hg : s.Gated) {e : Event}
    (he : ∀ m i uri, e = .resume m i → s.stage? i ≠ some (.reading c uri)) :
    PartsAt c s (s.step e) := by
  have hs := (hg.step e).1
  generalize hs' : s.step e = s' at hs
  cases hs with
  | nothing => exact .of_same rfl
  | begins begins => exact (h.parts_begins hg begins).tidy
  | @resumes m i =>
    have hstretch : PartsAt c s (s.resume m i) := (h.parts_stretch hg (he m i · rfl)).tidy
    exact hs' ▸ hstretch
  | @cancels i =>
    have hcancel : PartsAt c s (s.cancel i) := .cancel
    exact hs' ▸ hcancel
  | settles => exact PartsAt.tidy (.of_same rfl)
  | tells serving told =>
    exact PartsAt.tidy (.of_other (fun heq => h.unready (heq ▸ serving.ready)) told)
  | reads connection read => exact (PartsAt.setLink connection (Link.parts_readNext? read)).tidy
  | writes connection write => exact .setLink connection (Link.parts_writeNext? write)
  | receives connection => exact .setLink connection (.of_eq rfl)
  | endsInput connection => exact .setLink connection (.of_eq rfl)
  | tidies => exact (PartsAt.of_same rfl).tidy

end Steps

section Turn

/-- In this step an operation that shuts down gets the turn. -/
inductive StopsAt (s : Session) : Event → Nat → Bool → Moment → Prop
  | begins {m : Moment} {r : Bool} (free : s.gate = []) :
      StopsAt s (.begin m (.shutdown r)) s.tasks.length r m
  | resumes {m : Moment} {i : Nat} {r : Bool} (turn : s.HasTurn i)
      (work : s.work? i = some (.shutdown r)) : StopsAt s (.resume m i) i r m

/-- An operation that shuts down has the turn, and everybody else is as in the session before. -/
structure AtTurn (s : Session) (i : Nat) (r : Bool) (s₁ : Session) : Prop where
  turn : s₁.HasTurn i
  work : s₁.work? i = some (.shutdown r)
  lifecycle : s₁.lifecycle = s.lifecycle
  connections : s₁.connections = s.connections
  timeouts : s₁.timeouts = s.timeouts
  others : ∀ j, j ≠ i → s₁.stage? j = s.stage? j
  gated : s.Gated → s₁.Gated

variable {s s₁ : Session} {e : Event} {m : Moment} {i c : Nat} {r : Bool} {k : Connection}

theorem AtTurn.connection? (h : s.AtTurn i r s₁) (c : Nat) : s₁.connection? c = s.connection? c := by
  simp only [Session.connection?, h.connections]

theorem StopsAt.atTurn (h : s.StopsAt e i r m) :
    ∃ s₁, s.AtTurn i r s₁ ∧ s.step e = (s₁.stop m i r).tidy := by
  have hstop {t : Session} (hwork : t.work? i = some (.shutdown r)) :
      t.takeTurn m i = t.stop m i r := by
    unfold takeTurn
    simp only [hwork]
  cases h with
  | begins free =>
    have hstage := s.stage?_added_self (.shutdown r)
    have hwork := s.work?_added_self (.shutdown r)
    refine ⟨s.joined (.shutdown r) s.lifecycle, ?_, ?_⟩
    · constructor
      case turn => exact ⟨hstage, by simp [joined, free]⟩
      case work => exact hwork
      case lifecycle | connections | timeouts => rfl
      case others =>
        intro j hj
        exact (stage?_added (s := s) (.shutdown r) j).trans (by rw [if_neg hj])
      case gated => exact fun hg => hg.joined .same
    · have hturn : (s.joined (.shutdown r) s.lifecycle).takeTurn m s.tasks.length =
          (s.joined (.shutdown r) s.lifecycle).stop m s.tasks.length r := hstop hwork
      rw [← hturn, joined, free]
      simp only [step, begin, enterGate, free, List.isEmpty_nil, if_true]
  | resumes turn work =>
    refine ⟨s, ⟨turn, work, rfl, rfl, rfl, fun _ _ => rfl, id⟩, ?_⟩
    rw [step, resume, stretch_of_turn turn, hstop work]

def ending (s : Session) : Session :=
  { s with lifecycle := .shuttingDown }

theorem stop_of_unready (h : ∀ c, s.lifecycle ≠ .ready c) :
    s.stop m i r = s.ending.finishShutdown i r := by
  unfold stop
  cases hs : s.lifecycle with
  | ready c => exact absurd hs (h c)
  | _ => rfl

theorem connection?_ending (s : Session) (c : Nat) : s.ending.connection? c = s.connection? c :=
  rfl

theorem stop_of_ready (hc : s.lifecycle = .ready c) (hk : s.connection? c = some k) :
    s.stop m i r =
      if k.link.isClosed then s.ending.closeUp m i r c
      else match s.ending.call m c (seconds s.timeouts.shutdown) "shutdown" none with
        | (.error _, s₁) => s₁.closeUp m i r c
        | (.ok call, s₁) => s₁.checkStopping m i r c call := by
  have hstop : s.stop m i r =
      if ((s.ending.connection? c).map (·.link.isClosed)).getD true then s.ending.closeUp m i r c
      else match s.ending.call m c (seconds s.timeouts.shutdown) "shutdown" none with
        | (.error _, s₁) => s₁.closeUp m i r c
        | (.ok call, s₁) => s₁.checkStopping m i r c call := by
    unfold stop
    rw [hc]
    rfl
  rw [hstop, connection?_ending, hk]
  rfl

/-- A connection that has closed is only closed up. -/
theorem stop_of_closed (hc : s.lifecycle = .ready c) (hk : s.connection? c = some k)
    (h : k.link.closing? ≠ none) : s.stop m i r = s.ending.closeUp m i r c := by
  have hclosed : k.link.isClosed = true := Option.isSome_iff_ne_none.mpr h
  rw [stop_of_ready hc hk, if_pos hclosed]

/-- The request to shut down, and the link on which it has been sent. -/
def Connection.stopCall (k : Connection) (m : Moment) (timeout : Nat) : Call :=
  k.link.nextCall m.now timeout "shutdown"

def Connection.stopLink (k : Connection) (m : Moment) (timeout : Nat) : Link :=
  (k.link.call m.now timeout "shutdown" none).2

/-- A connection that is open is asked to shut down, and at once the client looks for the reply. -/
theorem stop_of_takes (hc : s.lifecycle = .ready c) (hk : s.connection? c = some k)
    (h : k.link.takes = true) :
    s.stop m i r = (s.ending.setLink c (k.stopLink m (seconds s.timeouts.shutdown))).checkStopping
      m i r c (k.stopCall m (seconds s.timeouts.shutdown)) := by
  have hopen : k.link.isClosed = false := by
    rw [Link.isClosed, (k.link.takes_iff.mp h).1]
    rfl
  have hcall : s.ending.call m c (seconds s.timeouts.shutdown) "shutdown" none =
      (.ok (k.stopCall m (seconds s.timeouts.shutdown)),
        s.ending.setLink c (k.stopLink m (seconds s.timeouts.shutdown))) := by
    rw [call_of_connection (show s.ending.connection? c = some k from hk), Connection.stopLink,
      k.link.call_of_takes _ _ _ _ h]
    rfl
  rw [stop_of_ready hc hk, if_neg (by simp [hopen]), hcall]

theorem sent_stopLink (h : k.link.takes = true) (timeout : Nat) :
    (k.stopLink m timeout).sent =
      k.link.sent ++ [.frame (Message.request k.link.nextId "shutdown" none)] := by
  rw [Connection.stopLink, Link.sent_call, if_pos h]

/-- A connection with which a session is ready is there, and fit for use if it has not closed. -/
theorem Gated.takes_of_ready (hg : s.Gated) (hc : s.lifecycle = .ready c) :
    ∃ k, s.connection? c = some k ∧ k.established = true ∧
      (k.link.closing? = none → k.link.takes = true) := by
  obtain ⟨k, hk, hreleased, hestablished⟩ := hg.ready hc
  refine ⟨k, hk, hestablished, fun hopen => ?_⟩
  exact k.link.takes_iff.mpr ⟨hopen, (hg.hale hk hreleased hopen).1⟩

theorem Retiring.of_stop (hg : s.Gated) (hc : s.lifecycle = .ready c) :
    Retiring c (s.stop m i r) := by
  obtain ⟨k, hk, hestablished, htakes⟩ := hg.takes_of_ready hc
  have hending : Retiring c s.ending := ⟨Lifecycle.noConfusion, k, hk, hestablished⟩
  cases hclosing : k.link.closing? with
  | some reason =>
    rw [stop_of_closed hc hk (by simp [hclosing])]
    exact hending.reaping Connection.Shut.ages (reaping_closeUp r)
  | none =>
    rw [stop_of_takes hc hk (htakes hclosing)]
    have hasked : Retiring c (s.ending.setLink c (k.stopLink m (seconds s.timeouts.shutdown))) :=
      hending.of_aged Lifecycle.noConfusion
        (aged_setLink (show s.ending.connection? c = some k from hk)
          (k.link.used_call _ _ _ _).ages)
    exact hasked.stopping (stopping_checkStopping r _)

theorem stop_not_reading (hg : s.Gated) (uri : String) :
    (s.stop m i r).stage? i ≠ some (.reading c uri) := by
  by_cases hready : ∃ d, s.lifecycle = .ready d
  · obtain ⟨d, hd⟩ := hready
    obtain ⟨k, hk, -, htakes⟩ := hg.takes_of_ready hd
    cases hclosing : k.link.closing? with
    | some reason =>
      rw [stop_of_closed hd hk (by simp [hclosing])]
      exact (reaping_closeUp r).not_reading
    | none =>
      rw [stop_of_takes hd hk (htakes hclosing)]
      exact (stopping_checkStopping r _).not_reading
  · rw [stop_of_unready (not_exists.mp hready)]
    exact stage?_setStage_ne _ i Stage.noConfusion

theorem AtTurn.stop_others (h : s.AtTurn i r s₁) {j : Nat} (hj : j ≠ i) :
    (s₁.stop m i r).stage? j = s.stage? j :=
  ((outcome_stop (m := m) h.turn h.work).stage?_other hj).trans (h.others j hj)

end Turn

section Runs

variable {s : Session} {c j : Nat} {uri : String}

theorem Retiring.run (h : Retiring c s) (hg : s.Gated) (es : List Event) :
    Retiring c (s.run es) := by
  induction es generalizing s with
  | nil => exact h
  | cons e es ih =>
    obtain ⟨hs, hg'⟩ := hg.step e
    exact ih (h.step hg hs) hg'

theorem Retiring.reading_run (h : Retiring c s) (hg : s.Gated) (es : List Event)
    (hj : (s.run es).stage? j = some (.reading c uri)) : s.stage? j = some (.reading c uri) := by
  induction es generalizing s with
  | nil => exact hj
  | cons e es ih =>
    obtain ⟨hs, hg'⟩ := hg.step e
    exact h.reading_step hg (ih (h.step hg hs) hg' hj)

end Runs

/-- What the server of this connection is told from the step on in which the session begins to stop:
it is asked to shut down, and then only parted from. It hears otherwise from a query alone that has
been waiting for its file all the while. -/
structure SentAfterStop (c : Nat) (s : Session) (e : Event) : Prop where
  asked : ∀ k, s.connection? c = some k → k.link.closing? = none →
    ∃ k' os, (s.step e).connection? c = some k' ∧ (∀ o ∈ os, o.IsParting) ∧
      k'.link.sent = k.link.sent ++ .frame (Message.request k.link.nextId "shutdown" none) :: os
  parts : ∀ fs f, PartsAt c ((s.step e).run fs) (((s.step e).run fs).step f) ∨
    ∃ m j uri, f = .resume m j ∧ s.stage? j = some (.reading c uri) ∧
      ((s.step e).run fs).stage? j = some (.reading c uri)

theorem Gated.sentAfterStop {s : Session} (hg : s.Gated) {e : Event} {m : Moment} {i c : Nat} {r : Bool}
    (hstops : s.StopsAt e i r m) (hready : s.lifecycle = .ready c) : SentAfterStop c s e := by
  obtain ⟨s₁, hturn, heq⟩ := hstops.atTurn
  have hg₁ := hturn.gated hg
  have hready₁ : s₁.lifecycle = .ready c := hturn.lifecycle.trans hready
  have hretiring : Retiring c (s.step e) := heq ▸ (Retiring.of_stop hg₁ hready₁).tidy
  have hg' := (hg.step e).2
  constructor
  case asked =>
    intro k hk hopen
    have hk₁ : s₁.connection? c = some k := (hturn.connection? c).trans hk
    obtain ⟨k₀, hk₀, -, htakes⟩ := hg₁.takes_of_ready hready₁
    obtain rfl : k = k₀ := Option.some.inj (hk₁.symm.trans hk₀)
    -- behind the request stands what the first look for the reply has queued
    have hparts : PartsAt c
        (s₁.ending.setLink c (k.stopLink m (seconds s₁.timeouts.shutdown))) (s.step e) := by
      rw [heq, stop_of_takes hready₁ hk₁ (htakes hopen)]
      exact PartsAt.checkStopping.tidy
    obtain ⟨k', hk', os, hsent, hos⟩ :=
      hparts _ (connection?_setLink_self (show s₁.ending.connection? c = some k from hk₁) _)
    refine ⟨k', os, hk', hos, ?_⟩
    rw [hsent, sent_stopLink (htakes hopen), List.append_assoc]
    rfl
  case parts =>
    intro fs f
    have hretired := hretiring.run hg' fs
    by_cases hreads : ∃ m j uri, f = .resume m j ∧
        ((s.step e).run fs).stage? j = some (.reading c uri)
    · -- it has been reading since before the turn, and is not the one that stops
      obtain ⟨m', j, uri, rfl, hj⟩ := hreads
      have hbefore := hretiring.reading_run hg' fs hj
      have hstop : (s₁.stop m i r).stage? j = some (.reading c uri) := by
        rw [heq] at hbefore
        exact hbefore
      have hne : j ≠ i := by
        rintro rfl
        exact stop_not_reading hg₁ uri hstop
      exact .inr ⟨m', j, uri, rfl, (hturn.stop_others hne).symm.trans hstop, hj⟩
    · exact .inl (hretired.parts (hg'.run fs) fun m' j uri hf hj => hreads ⟨m', j, uri, hf, hj⟩)

/-- From the request to shut down on, a server hears only how the client parts from it, unless a
query was waiting for its file. -/
theorem sentAfterStop_of_stopsAt (language : String) (server : Setup.Server) (timeouts : Setup.Timeouts)
    (processId : Nat) (rootUri : String) (es : List Event) {e : Event} {m : Moment} {i c : Nat}
    {r : Bool}
    (hstops : ((new language server timeouts processId rootUri).run es).StopsAt e i r m)
    (hready : ((new language server timeouts processId rootUri).run es).lifecycle = .ready c) :
    SentAfterStop c ((new language server timeouts processId rootUri).run es) e :=
  ((Gated.new language server timeouts processId rootUri).run es).sentAfterStop hstops hready

/-- A query has started the server, and waits for its file. -/
def lateReader : List Event :=
  let m : Moment := ⟨0, .ok true, fun _ => .ok [], fun _ => false⟩
  let abilities : Json := .ofFields [("documentSymbolProvider", .bool true)]
  [.begin m (.query ⟨[0x2F, 0x61]⟩ .symbols),
    .receive 0 (Frame.write (Message.answer (.int 1) (.ofFields [("capabilities", abilities)]))),
    .read 0, .resume m 0]

theorem sentAfterStop_of_stopsAt_lateReader :
    let s := (new "lua" ⟨"luals", [], "lua", []⟩ {} 1 "file:///").run lateReader
    let m : Moment := ⟨0, .ok true, fun _ => .ok [], fun _ => false⟩
    s.gate = [] ∧ s.lifecycle = .ready 0 ∧ SentAfterStop 0 s (.begin m (.shutdown true)) := by
  intro s m
  have hfree : s.gate = [] := by decide +kernel
  have hready : s.lifecycle = .ready 0 := by decide +kernel
  exact ⟨hfree, hready, sentAfterStop_of_stopsAt "lua" ⟨"luals", [], "lua", []⟩ {} 1 "file:///" lateReader
    (.begins hfree) hready⟩

/-- The query goes on while the server is shutting down: it opens the document and asks. -/
theorem query_sent_after_stop :
    let s := (new "lua" ⟨"luals", [], "lua", []⟩ {} 1 "file:///").run lateReader
    let m : Moment := ⟨0, .ok true, fun _ => .ok [], fun _ => false⟩
    ((s.run [.begin m (.shutdown true), .resume m 0]).connection? 0).map
        (fun k => k.link.said.map fun v => (Incoming.ofJson? v).bind Incoming.method?) =
      some [some "initialize", some "initialized", some "shutdown", some "textDocument/didOpen",
        some "textDocument/documentSymbol"] := by
  decide +kernel

end Session
end LanguageClient
