import LanguageClient.Proofs.Session.Fatality
import LanguageClient.Proofs.Session.Lasting

namespace LanguageClient

namespace Link

variable {l : Link} {now timeout : Nat} {method : String} {params : Option Json} {f : Failure}

theorem exists_reason_of_notify (h : (l.notify method params).1 = .error f) :
    ∃ reason : Closing, f = reason.failure l.language := by
  cases ht : l.takes with
  | true =>
    rw [l.notify_of_takes method params ht] at h
    cases h
  | false =>
    rw [l.notify_of_not_takes method params ht] at h
    cases h
    exact ⟨_, rfl⟩

theorem exists_reason_of_call (h : (l.call now timeout method params).1 = .error f) :
    ∃ reason : Closing, f = reason.failure l.language := by
  obtain ⟨reason, hclosed⟩ | htakes | ⟨hopen, hwriting⟩ := l.call_cases
  · rw [l.call_of_closed now timeout method params hclosed] at h
    cases h
    exact ⟨reason, rfl⟩
  · rw [l.call_of_takes now timeout method params htakes] at h
    cases h
  · rw [l.call_of_not_writing now timeout method params hopen hwriting] at h
    cases h
    exact ⟨_, rfl⟩

end Link

namespace Session

variable {P : Connection → Prop} {s s' : Session} {m : Moment} {i c : Nat} {stage : Stage}
  {f : Failure} {path : Path} {q : Query} {uri text : String} {r : Bool}

section Reasons

theorem exists_reason_of_notify {n : Notice} (h : (s.notify c n).1 = .error f) :
    ∃ (reason : Closing) (spoken : String), f = reason.failure spoken := by
  unfold notify at h
  split at h
  · cases h
    exact ⟨.exited, s.language, rfl⟩
  · obtain ⟨reason, hf⟩ := Link.exists_reason_of_notify h
    exact ⟨reason, _, hf⟩

theorem exists_reason_of_call {timeout : Nat} {method : String} {params : Option Json}
    (h : (s.call m c timeout method params).1 = .error f) :
    ∃ (reason : Closing) (spoken : String), f = reason.failure spoken := by
  unfold Session.call at h
  split at h
  · cases h
    exact ⟨.exited, s.language, rfl⟩
  · obtain ⟨reason, hf⟩ := Link.exists_reason_of_call h
    exact ⟨reason, _, hf⟩

theorem exists_reason_of_openDocument (h : (s.openDocument c path uri text).1 = .error f) :
    ∃ (reason : Closing) (spoken : String), f = reason.failure spoken := by
  unfold openDocument at h
  split at h
  · cases h
    exact ⟨.exited, s.language, rfl⟩
  · exact exists_reason_of_notify h

end Reasons

/-- A property that every connection has from the start, whatever happens to it. -/
structure Abiding (P : Connection → Prop) : Prop where
  lasting : Lasting P fun _ => True
  outlasts : Outlasts P
  greeted : ∀ (s : Session) (hasProcess : Bool), P (s.greeted hasProcess)

theorem abiding_true : Abiding fun _ => True where
  lasting := ⟨fun _ _ => trivial, fun _ _ _ _ => trivial, fun _ _ => trivial⟩
  outlasts _ _ _ := trivial
  greeted _ _ := trivial

theorem Abiding.step (hP : Abiding P) (h : ∀ c, s.Has c P) (e : Event) (c : Nat) :
    (s.step e).Has c P :=
  hP.lasting.step (h c) (fun _ => ⟨hP.greeted s, fun _ => trivial, hP.outlasts⟩) e
    (fun _ _ _ _ => trivial) fun _ => hP.outlasts

/-- What an operation brings into a stretch: the data of its session, the moment, what it is to do
and where it stands. -/
structure Setting where
  language : String
  timeouts : Setup.Timeouts
  moment : Moment
  work : Work
  before : Stage

/-- Where a stretch leaves its operation, and by what. All links that it meets are those of
connections with the property `P`. -/
inductive Comes (P : Connection → Prop) (g : Setting) : Stage → Prop
  | stays : Comes P g g.before
  | greets {c : Nat} {call : Call} (begun : call.begun = g.moment.now)
      (deadline : call.deadline = g.moment.now + seconds g.timeouts.handshake) :
      Comes P g (.handshaking c call)
  | reads {path : Path} {q : Query} {c : Nat} {uri : String} (work : g.work = .query path q)
      (known : FileUri.ofPath? path = some uri) : Comes P g (.reading c uri)
  | asks {path : Path} {q : Query} {c : Nat} {k : Connection} (work : g.work = .query path q)
      (met : P k) :
      Comes P g (.asking c
        (k.link.nextCall g.moment.now (seconds g.timeouts.request) q.method))
  | stops {r : Bool} {c : Nat} {k : Connection} (work : g.work = .shutdown r) (met : P k) :
      Comes P g (.stopping c
        (k.link.nextCall g.moment.now (seconds g.timeouts.shutdown) "shutdown"))
  | reaps {r : Bool} {c deadline : Nat} (work : g.work = .shutdown r) :
      Comes P g (.reaping c deadline)
  | kills {r : Bool} {c : Nat} (work : g.work = .shutdown r) : Comes P g (.killing c)
  | opens {path : Path} {text : String} (work : g.work = .open path text) :
      Comes P g (.done (.ok .nothing))
  | ends {r : Bool} (work : g.work = .shutdown r) : Comes P g (.done (.ok .nothing))
  /-- The server is not asked at all. -/
  | skips {path : Path} {q : Query} (work : g.work = .query path q) :
      Comes P g (.done (.ok q.empty))
  /-- A reply has been found at a look at the call. -/
  | hears {path : Path} {q : Query} {k : Connection} {call : Call} {reply : Reply}
      (work : g.work = .query path q) (met : P k)
      (found : (k.link.poll g.moment.now call).1 = some reply) :
      Comes P g (.done (q.conclude g.language reply))
  | loses {path : Path} {q : Query} (work : g.work = .query path q) :
      Comes P g (.done (q.conclude g.language (.error (.crashed g.language))))
  /-- The link does not take the message. -/
  | refused {reason : Closing} {spoken : String} :
      Comes P g (.done (.error (reason.failure spoken)))
  | unreadable {path : Path} {e : SystemError} :
      Comes P g (.done (.error (.unreadable path e)))
  | unlocated {path : Path} (work : (∃ text, g.work = .open path text) ∨ ∃ q, g.work = .query path q)
      (unknown : FileUri.ofPath? path = none) : Comes P g (.done (.error (.noUri path)))
  | unlaunched {f : Failure} (launch : g.moment.launch = .error f) : Comes P g (.done (.error f))
  | failsStart {reason : String} : Comes P g (.done (.error (.startFailed g.language reason)))

/-- The session as the operation finds it, at the beginning of its stretch and further on. -/
structure Meets (P : Connection → Prop) (g : Setting) (i : Nat) (s : Session) : Prop where
  language : s.language = g.language
  timeouts : s.timeouts = g.timeouts
  work : s.work? i = some g.work
  has : ∀ c, s.Has c P

variable {g : Setting}

theorem eq_of_setStage {stage' : Stage} (hi : (s.setStage i stage').stage? i = some stage) :
    stage = stage' := by
  rw [stage?_setStage, if_pos rfl, Option.map_eq_some_iff] at hi
  obtain ⟨-, -, rfl⟩ := hi
  rfl

namespace Meets

section Parts

variable (hP : Abiding P) (h : s.Meets P g i)
include h

theorem works (hw : Works i c s s') (hhas : ∀ d, s'.Has d P) : s'.Meets P g i where
  language := by
    rw [hw.rest]
    exact h.language
  timeouts := by
    rw [hw.rest]
    exact h.timeouts
  work := (hw.work? i).trans h.work
  has := hhas

include hP

theorem pollCall (call : Call) : (s.pollCall m c call).2.Meets P g i :=
  h.works (.pollCall call) fun d => hP.lasting.pollCall (h.has d) fun _ => trivial

theorem call (timeout : Nat) (method : String) (params : Option Json) :
    (s.call m c timeout method params).2.Meets P g i :=
  h.works (.call timeout method params) fun d => hP.lasting.call (h.has d) timeout method params

theorem notify (n : Notice) : (s.notify c n).2.Meets P g i :=
  h.works (.notify n) fun d => hP.lasting.notify (h.has d) n

theorem openDocument (path : Path) (uri text : String) :
    (s.openDocument c path uri text).2.Meets P g i :=
  h.works (.openDocument path uri text) fun d => hP.lasting.openDocument (h.has d) path uri text

theorem established (result : Json) : ((s.established c result).leaveGate i).Meets P g i where
  language := h.language
  timeouts := h.timeouts
  work := h.work
  has d := (h.has d).updateConnection fun _ k _ hk => hP.outlasts k result hk

theorem launched (hasProcess : Bool) : (s.launched hasProcess).Meets P g i where
  language := h.language
  timeouts := h.timeouts
  work := h.work
  has d k hk := by
    obtain hk | ⟨-, rfl⟩ := Conversation.getElem?_append_one hk
    · exact h.has d k hk
    · exact hP.greeted s hasProcess

end Parts

section Asking

variable (hP : Abiding P) (h : s.Meets P g i) (hw : g.work = .query path q)
include hP h hw

theorem comes_checkAsking {call : Call} (hcall : Comes P g (.asking c call))
    (hi : (s.checkAsking g.moment i q c call).stage? i = some stage) : Comes P g stage := by
  have hpolled := h.pollCall hP (m := g.moment) (c := c) call
  unfold checkAsking at hi
  split at hi
  · rw [eq_of_setStage hi]
    exact hcall
  · rename_i reply s₁ heq
    rw [heq] at hpolled
    rw [eq_of_setStage hi, hpolled.language]
    unfold Session.pollCall at heq
    split at heq
    · cases heq
      rw [h.language]
      exact .loses hw
    · rename_i k hk
      exact .hears hw (h.has c k hk) (Prod.mk.inj heq).1

theorem comes_ask (hi : (s.ask g.moment i path q c uri).stage? i = some stage) :
    Comes P g stage := by
  have hcalled := h.call hP (m := g.moment) (c := c) (seconds s.timeouts.request) q.method
    (some (q.params uri))
  obtain heq | ⟨-, ⟨f, s₁, hcall, heq⟩ | ⟨call, s₁, hcall, heq⟩⟩ :=
    s.ask_cases g.moment i path q c uri
  · rw [heq] at hi
    rw [eq_of_setStage hi]
    exact .skips hw
  · rw [heq] at hi
    obtain ⟨reason, spoken, rfl⟩ := exists_reason_of_call (congrArg Prod.fst hcall)
    rw [eq_of_setStage hi]
    exact .refused
  · rw [hcall] at hcalled
    rw [heq] at hi
    refine hcalled.comes_checkAsking hP hw ?_ hi
    obtain ⟨k, hk, -, rfl, -⟩ := exists_link_of_call hcall
    rw [h.timeouts]
    exact .asks hw (h.has c k hk)

theorem comes_afterReading (hi : (s.afterReading g.moment i path q c uri).stage? i = some stage) :
    Comes P g stage := by
  unfold afterReading at hi
  split at hi
  · rw [eq_of_setStage hi]
    exact .unreadable
  · rename_i bytes _
    have hopened := h.openDocument hP (c := c) path uri (String.ofList (Utf8.lossy bytes))
    split at hi
    · exact h.comes_ask hP hw hi
    · split at hi
      · rename_i heq
        obtain ⟨reason, spoken, rfl⟩ := exists_reason_of_openDocument (congrArg Prod.fst heq)
        rw [eq_of_setStage hi]
        exact .refused
      · rename_i heq
        rw [heq] at hopened
        exact hopened.comes_ask hP hw hi

end Asking

section Serving

theorem comes_failStart (h : s.Meets P g i)
    (hi : (s.failStart i c f).stage? i = some stage) : Comes P g stage := by
  rw [eq_of_setStage hi]
  exact h.language ▸ .failsStart

variable (hP : Abiding P)
include hP

theorem comes_serve (h : s.Meets P g i) (hbefore : s.stage? i = some g.before)
    (hi : (s.serve g.moment i c).stage? i = some stage) : Comes P g stage := by
  unfold serve at hi
  -- an open is told at once; a query asks, or first reads its file
  split at hi
  · rename_i path text hopen
    have hw : g.work = .open path text := Option.some.inj (h.work.symm.trans hopen)
    split at hi
    · rename_i hnone
      rw [eq_of_setStage hi]
      exact .unlocated (.inl ⟨text, hw⟩) hnone
    · split at hi
      · rename_i heq
        obtain ⟨reason, spoken, rfl⟩ := exists_reason_of_openDocument (congrArg Prod.fst heq)
        rw [eq_of_setStage hi]
        exact .refused
      · rw [eq_of_setStage hi]
        exact .opens hw
  · rename_i path q hquery
    have hw : g.work = .query path q := Option.some.inj (h.work.symm.trans hquery)
    split at hi
    · exact h.comes_ask hP hw hi
    · split at hi
      · rename_i hnone
        rw [eq_of_setStage hi]
        exact .unlocated (.inr ⟨q, hw⟩) hnone
      · rename_i uri huri
        rw [eq_of_setStage hi]
        exact .reads hw huri
  · rw [hbefore] at hi
    cases hi
    exact .stays

theorem comes_checkHandshake {call : Call} (h : s.Meets P g i) (hbefore : s.stage? i = some g.before)
    (hcall : Comes P g (.handshaking c call))
    (hi : (s.checkHandshake g.moment i c call).stage? i = some stage) : Comes P g stage := by
  have hpolled := h.pollCall hP (m := g.moment) (c := c) call
  have htasks := tasks_pollCall s g.moment c call
  unfold checkHandshake at hi
  split at hi
  · rw [eq_of_setStage hi]
    exact hcall
  · rename_i heq
    rw [heq] at hpolled
    exact hpolled.comes_failStart hi
  · rename_i result s₁ heq
    rw [heq] at hpolled htasks
    have hnotified := hpolled.notify hP (c := c) ⟨"initialized", .ofFields []⟩
    have htasks' := tasks_notify s₁ c ⟨"initialized", .ofFields []⟩
    unfold establish at hi
    split at hi
    · rename_i heq₂
      rw [heq₂] at hnotified
      exact hnotified.comes_failStart hi
    · rename_i s₂ heq₂
      rw [heq₂] at hnotified htasks'
      -- neither the look at the call nor the notice moves the operation
      have hbefore₂ : s₂.stage? i = some g.before :=
        (stage?_of_tasks (htasks'.trans htasks) i).trans hbefore
      exact (hnotified.established hP result).comes_serve hP hbefore₂ hi

theorem comes_start (h : s.Meets P g i) (hbefore : s.stage? i = some g.before)
    (hi : (s.start g.moment i).stage? i = some stage) : Comes P g stage := by
  cases hl : g.moment.launch with
  | error f =>
    rw [start_of_error hl] at hi
    rw [eq_of_setStage hi]
    exact .unlaunched hl
  | ok hasProcess =>
    rw [start_of_ok hl] at hi
    refine (h.launched hP hasProcess).comes_checkHandshake hP hbefore (.greets rfl ?_) hi
    exact h.timeouts ▸ rfl

end Serving

section Stopping

variable (hw : g.work = .shutdown r)
include hw

theorem comes_reaping {R : Connection → Connection → Prop} (hs : Reaping R i r c s s')
    (hi : s'.stage? i = some stage) : Comes P g stage := by
  cases hs with
  | finishes =>
    rw [eq_of_setStage hi]
    exact .ends hw
  | reaps =>
    rw [eq_of_setStage hi]
    exact .reaps hw
  | kills =>
    rw [eq_of_setStage hi]
    exact .kills hw

theorem comes_closeUp (hi : (s.closeUp m i r c).stage? i = some stage) : Comes P g stage :=
  comes_reaping hw (reaping_closeUp r) hi

theorem comes_checkStopping {call : Call} (hcall : Comes P g (.stopping c call))
    (hi : (s.checkStopping m i r c call).stage? i = some stage) : Comes P g stage := by
  unfold checkStopping at hi
  split at hi
  · rw [eq_of_setStage hi]
    exact hcall
  · exact comes_closeUp hw hi
  · exact comes_closeUp hw hi

theorem comes_stop (h : s.Meets P g i) (hi : (s.stop g.moment i r).stage? i = some stage) :
    Comes P g stage := by
  unfold stop at hi
  extract_lets before stopping at hi
  clear_value before
  split at hi
  · split at hi
    · exact comes_closeUp hw hi
    · split at hi
      · exact comes_closeUp hw hi
      · rename_i call s₁ heq
        refine comes_checkStopping hw ?_ hi
        obtain ⟨k, hk, -, rfl, -⟩ := exists_link_of_call heq
        rw [show stopping.timeouts = g.timeouts from h.timeouts]
        exact .stops hw (h.has _ k hk)
  · rw [eq_of_setStage hi]
    exact .ends hw

end Stopping

section Stretches

variable (hP : Abiding P)
include hP

theorem comes_takeTurn (h : s.Meets P g i) (hbefore : s.stage? i = some g.before)
    (hi : (s.takeTurn g.moment i).stage? i = some stage) : Comes P g stage := by
  unfold takeTurn at hi
  split at hi
  · rename_i r hshutdown
    exact h.comes_stop (Option.some.inj (h.work.symm.trans hshutdown)) hi
  · obtain ⟨c, -, hlive⟩ | ⟨-, lifecycle, -, hlive⟩ := s.live?_cases
    · rw [hlive] at hi
      have hleft : (s.leaveGate i).Meets P g i := ⟨h.language, h.timeouts, h.work, h.has⟩
      exact hleft.comes_serve hP hbefore hi
    · rw [hlive] at hi
      have hsettled : Meets P g i { s with lifecycle } :=
        ⟨h.language, h.timeouts, h.work, h.has⟩
      exact hsettled.comes_start hP hbefore hi

theorem comes_enterGate (h : s.Meets P g i) (hbefore : s.stage? i = some g.before)
    (hi : (s.enterGate g.moment i).stage? i = some stage) : Comes P g stage := by
  unfold enterGate at hi
  extract_lets free queued at hi
  have hqueued : queued.Meets P g i := ⟨h.language, h.timeouts, h.work, h.has⟩
  split at hi
  · exact hqueued.comes_takeTurn hP hbefore hi
  · have hi : s.stage? i = some stage := hi
    rw [hbefore] at hi
    cases hi
    exact .stays

theorem comes_stretch (h : s.Meets P g i) (hbefore : s.stage? i = some g.before)
    (hi : (s.stretch g.moment i).stage? i = some stage) : Comes P g stage := by
  have hsame (c : Nat) : ChangedAt (fun _ _ => True) c s.connections s.connections :=
    .refl (fun _ => trivial) c _
  have hstays (hi : s.stage? i = some stage) : Comes P g stage := by
    rw [hbefore] at hi
    cases hi
    exact .stays
  unfold stretch at hi
  rw [task_of_stage hbefore h.work] at hi
  dsimp only at hi
  split at hi
  · split at hi
    · exact h.comes_takeTurn hP hbefore hi
    · exact hstays hi
  · rename_i hstage
    exact h.comes_checkHandshake hP hbefore (hstage ▸ .stays) hi
  · rename_i hwork
    exact h.comes_afterReading hP hwork hi
  · rename_i hstage hwork
    exact h.comes_checkAsking hP hwork (hstage ▸ .stays) hi
  · rename_i hstage hwork
    exact comes_checkStopping hwork (hstage ▸ .stays) hi
  · rename_i hwork
    exact comes_reaping hwork (reaping_checkReaping (fun _ => trivial) _ _ (hsame _)) hi
  · rename_i hwork
    exact comes_reaping hwork (reaping_checkKilling _ (hsame _)) hi
  · exact hstays hi

end Stretches

end Meets

section Steps

variable {R : Connection → Connection → Prop} {call : Call} {e : Event} {w : Work}

/-- An operation begins as one that waits for its turn. -/
theorem comes_begin (hP : Abiding P) (hhas : ∀ c, s.Has c P)
    (hi : (s.begin m w).stage? s.tasks.length = some stage) :
    Comes P ⟨s.language, s.timeouts, m, w, .queued⟩ stage := by
  have hbefore : (s.added w).stage? s.tasks.length = some .queued := s.stage?_added_self w
  have hadded : (s.added w).Meets P ⟨s.language, s.timeouts, m, w, .queued⟩ s.tasks.length :=
    ⟨rfl, rfl, s.work?_added_self w, hhas⟩
  cases hneeds : w.needsServer with
  | true =>
    rw [begin_of_needsServer hneeds] at hi
    obtain ⟨c, -, hlive⟩ | ⟨-, lifecycle, -, hlive⟩ := (s.added w).live?_cases
    · rw [hlive] at hi
      exact hadded.comes_serve hP hbefore hi
    · rw [hlive] at hi
      have hsettled : Meets P ⟨s.language, s.timeouts, m, w, .queued⟩ s.tasks.length
          { s.added w with lifecycle } := ⟨rfl, rfl, s.work?_added_self w, hhas⟩
      exact hsettled.comes_enterGate hP hbefore hi
  | false =>
    cases w with
    | query path q => cases hneeds
    | shutdown r => exact hadded.comes_enterGate hP hbefore hi
    | «open» path text =>
      cases hp : FileUri.ofPath? path with
      | some uri => simp [Work.needsServer, hp] at hneeds
      | none =>
        unfold begin at hi
        simp only [hp, Option.isNone_none, if_true] at hi
        rw [eq_of_setStage hi]
        exact .unlocated (.inl ⟨text, rfl⟩) hp

theorem Handshake.work? (h : Handshake i c call s s') (j : Nat) : s'.work? j = s.work? j := by
  cases h with
  | waits => exact work?_setStage s i j _
  | fails polled => exact (work?_setStage _ i j _).trans (polled.work? j)
  | succeeds polled _ serves => exact (serves.work? j).trans (polled.work? j)

theorem Reaping.work? (h : Reaping R i r c s s') (j : Nat) : s'.work? j = s.work? j := by
  cases h <;> exact work?_setStage _ i j _

theorem Stopping.work? (h : Stopping i r c s s') (j : Nat) : s'.work? j = s.work? j := by
  cases h with
  | waits polled => exact (work?_setStage _ i j _).trans (polled.work? j)
  | closes polled _ reaping => exact (reaping.work? j).trans (polled.work? j)

theorem Outcome.work? (h : Outcome m i s s') (j : Nat) : s'.work? j = s.work? j := by
  cases h with
  | idle => rfl
  | goesOn _ _ _ serves => exact serves.work? j
  | served _ _ _ serves => exact serves.work? j
  | unlaunched | stopsNothing => exact work?_setStage _ i j _
  | launches _ _ _ _ handshake => exact handshake.work? j
  | greets _ handshake => exact handshake.work? j
  | stops _ _ _ stopping => exact stopping.work? j
  | goesOnStopping _ _ stopping => exact stopping.work? j
  | goesOnReaping _ _ reaping => exact reaping.work? j

theorem Begins.work? (h : Begins m w s s') (j : Nat) :
    s'.work? j = if j = s.tasks.length then some w else s.work? j := by
  rw [← work?_added]
  cases h with
  | refused => exact work?_setStage _ _ j _
  | served _ _ serves => exact serves.work? j
  | queues => rfl
  | turns _ _ outcome => exact outcome.work? j

/-- An operation was there before the step, or begins in it. -/
theorem Step.work?_cases (h : Step s e s') {j : Nat} (hj : s'.work? j = some w) :
    s.work? j = some w ∨ j = s.tasks.length ∧ ∃ m, e = .begin m w := by
  cases h with
  | nothing | settles | tells | reads | writes | receives | endsInput | tidies => exact .inl hj
  | @begins m w' _ begins =>
    have hj : _ = some w := (begins.work? j).symm.trans hj
    split at hj
    · rename_i hlast
      cases hj
      exact .inr ⟨hlast, m, rfl⟩
    · exact .inl hj
  | resumes outcome => exact .inl ((outcome.work? j).symm.trans hj)
  | cancels => exact .inl ((work?_setStage _ _ j _).symm.trans hj)

theorem Gated.work?_step (hg : s.Gated) (h : s.work? i = some w) (e : Event) :
    (s.step e).work? i = some w :=
  (hg.step e).1.bound.work i w h

theorem Gated.work?_run (hg : s.Gated) (h : s.work? i = some w) (es : List Event) :
    (s.run es).work? i = some w := by
  induction es using List.reverseRecOn with
  | nil => exact h
  | append_singleton es e ih =>
    rw [run_append_one]
    exact (hg.run es).work?_step ih e

theorem stage?_cancel (h : (s.cancel i).stage? i = some stage) :
    s.stage? i = some stage ∨ stage = .dropped := by
  unfold cancel at h
  split at h
  · exact .inl h
  · exact .inl h
  · exact .inl h
  · extract_lets left at h
    have h : (left.setStage i .dropped).stage? i = some stage := h
    rw [stage?_setStage, if_pos rfl, Option.map_eq_some_iff] at h
    obtain ⟨-, -, rfl⟩ := h
    exact .inr rfl

/-- What brings an operation to the stage at which a step leaves it: its beginning, a stretch of
its own, or that it is dropped. Otherwise it stays where it was. -/
theorem Gated.stage?_step_cases (hg : s.Gated) {j : Nat} (hwork : (s.step e).work? j = some w)
    (hstage : (s.step e).stage? j = some stage) :
    (∃ m, e = .begin m w ∧ j = s.tasks.length) ∨
      s.work? j = some w ∧
        ((∃ m, e = .resume m j) ∨ stage = .dropped ∨ s.stage? j = some stage) := by
  have hstep := (hg.step e).1
  obtain hbefore | ⟨hlast, m, rfl⟩ := hstep.work?_cases hwork
  · refine .inr ⟨hbefore, ?_⟩
    obtain ⟨t, ht, -⟩ := Option.map_eq_some_iff.mp hbefore
    have hstage₀ : s.stage? j = some t.stage := by simp [stage?, ht]
    by_cases hresume : ∃ m, e = .resume m j
    · exact .inl hresume
    by_cases hcancel : e = .cancel j
    · subst hcancel
      exact .inr (stage?_cancel hstage).symm
    · have hsame := hstep.stage?_other hstage₀ (fun m hm => hresume ⟨m, hm⟩) hcancel
      exact .inr (.inr (hstage₀.trans (hsame.symm.trans hstage)))
  · exact .inl ⟨m, rfl, hlast⟩

/-- Every operation of the session stands where `Q` lets one with its work stand. -/
def Each (Q : Work → Stage → Prop) (s : Session) : Prop :=
  ∀ {i w stage}, s.work? i = some w → s.stage? i = some stage → Q w stage

/-- What lets operations wait for their turn and be dropped, and lets them stand wherever a stretch
may bring them, holds of all operations after each step. -/
theorem Each.step {Q : Work → Stage → Prop} (h : s.Each Q) (hg : s.Gated) (hP : Abiding P)
    (hhas : ∀ c, s.Has c P) (queued : ∀ w, Q w .queued) (dropped : ∀ w, Q w .dropped)
    (comes : ∀ {m w before stage}, e.moment? = some m → Q w before →
      Comes P ⟨s.language, s.timeouts, m, w, before⟩ stage → Q w stage) :
    (s.step e).Each Q := by
  intro i w stage hwork hi
  obtain ⟨m, rfl, rfl⟩ | ⟨hwork₀, ⟨m, rfl⟩ | rfl | hsame⟩ := hg.stage?_step_cases hwork hi
  · exact comes rfl (queued w) (comes_begin hP hhas hi)
  · obtain ⟨before, hbefore⟩ := exists_stage hwork₀
    have hmeets : s.Meets P ⟨s.language, s.timeouts, m, w, before⟩ i := ⟨rfl, rfl, hwork₀, hhas⟩
    exact comes rfl (h hwork₀ hbefore) (hmeets.comes_stretch hP hbefore hi)
  · exact dropped w
  · exact h hwork₀ hsame

end Steps

end Session
end LanguageClient
