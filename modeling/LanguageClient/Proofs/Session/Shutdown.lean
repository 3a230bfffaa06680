import LanguageClient.Proofs.Session.Callers
import LanguageClient.Proofs.Session.Parting

namespace LanguageClient

namespace Link

/-- The end of the stream, as long as the writer is at work. -/
def ending (l : Link) : List Outgoing :=
  if l.writing then [.finish] else []

/-- What a look for the reply to the request to shut down queues. A server that has agreed is told to
exit if the link is still open, and a server that is late is told that nobody waits; then the stream
ends. -/
def farewell (l : Link) (now : Nat) (call : Call) : List Outgoing :=
  match l.inflight.slot call.ticket with
  | .filled (.ok _) =>
    (if l.isClosed then [] else [.frame (Message.notification "exit" none)]) ++ l.ending
  | .filled (.error _) | .spent => l.ending
  | .deserted => []
  | .empty =>
    if now < call.deadline then []
    else .frame (Message.notification "$/cancelRequest" (some (cancelParams call))) :: l.ending

/-- What a shutdown that gets the turn queues: nothing but the end if the link has closed, and else
the request, with what the first look for the reply adds. -/
def shutdownWords (l : Link) (now timeout : Nat) : List Outgoing :=
  if l.isClosed then l.ending
  else
    let asked := (l.call now timeout "shutdown" none).2
    .frame (Message.request l.nextId "shutdown" none) ::
      asked.farewell now (l.nextCall now timeout "shutdown")

/-- From the one link to the other this is queued, and at most the end of the stream again. -/
def Queues (os : List Outgoing) (l l' : Link) : Prop :=
  ∃ rest, l'.sent = l.sent ++ os ++ rest ∧ ∀ o ∈ rest, o = .finish

variable {l l' l'' : Link} {os : List Outgoing}

theorem Queues.of_eq (h : l'.sent = l.sent ++ os) : Queues os l l' :=
  ⟨[], by rw [h, List.append_nil], by simp⟩

theorem Queues.trans (h : Queues os l l') (h' : Queues [] l' l'') : Queues os l l'' := by
  obtain ⟨rest, hs, hrest⟩ := h
  obtain ⟨rest', hs', hrest'⟩ := h'
  refine ⟨rest ++ rest', by simp [hs', hs], fun o ho => ?_⟩
  exact (List.mem_append.mp ho).elim (hrest o) (hrest' o)

theorem ending_of_writing (h : l'.writing = l.writing) : l'.ending = l.ending := by
  rw [ending, ending, h]

theorem sent_close_eq (l : Link) : l.close.sent = l.sent ++ l.ending := by
  rw [sent_close, ending]
  split <;> simp

theorem queues_release (l : Link) : Queues [] l l.release := by
  refine ⟨l.ending, ?_, ?_⟩
  · rw [sent_release, ending]
    split <;> simp
  · unfold ending
    split <;> simp

end Link

namespace Session

theorem Connection.queues_release (k : Connection) : Link.Queues [] k.link k.release.link := by
  unfold release
  split
  · exact .of_eq (by simp)
  · exact k.link.queues_release

theorem Connection.closing?_release (k : Connection) :
    k.release.link.closing? = k.link.closing? := by
  unfold release
  split
  · rfl
  · exact k.link.closing?_release

section Looks

variable {s : Session} {m : Moment} {i c : Nat} {k : Connection} {call : Call} {r : Bool}

theorem stretch_of_stopping (hi : s.stage? i = some (.stopping c call))
    (hwork : s.work? i = some (.shutdown r)) :
    s.stretch m i = s.checkStopping m i r c call := by
  unfold stretch
  simp only [task_of_stage hi hwork]

theorem stretch_of_reaping {deadline : Nat} (hi : s.stage? i = some (.reaping c deadline))
    (hwork : s.work? i = some (.shutdown r)) :
    s.stretch m i = s.checkReaping m i r c deadline := by
  unfold stretch
  simp only [task_of_stage hi hwork]

theorem stretch_of_killing (hi : s.stage? i = some (.killing c))
    (hwork : s.work? i = some (.shutdown r)) : s.stretch m i = s.checkKilling m i r c := by
  unfold stretch
  simp only [task_of_stage hi hwork]

theorem stretch_of_done {result : Except Failure Answer} (hi : s.stage? i = some (.done result)) :
    s.stretch m i = s := by
  obtain ⟨w, hwork⟩ := exists_work hi
  unfold stretch
  simp only [task_of_stage hi hwork]

theorem stage?_finishShutdown {stage : Stage} (hi : s.stage? i = some stage) :
    (s.finishShutdown i r).stage? i = some (.done (.ok .nothing)) := by
  have hi : ({ s with lifecycle := if r then .notStarted else .stopped }.leaveGate i).stage? i =
      some stage := hi
  exact stage?_setStage_self hi

theorem connection?_closeUp (hk : s.connection? c = some k) :
    ∃ k', (s.closeUp m i r c).connection? c = some k' ∧ k'.link = k.link.close := by
  obtain ⟨k', hk', hshut⟩ := (reaping_closeUp (s := s) (m := m) (i := i) (c := c) r).changed.this k hk
  exact ⟨k', hk', hshut.link⟩

/-- A look at the reply either finds nothing and is early, or says farewell and closes up. -/
theorem checkStopping_cases (hk : s.connection? c = some k)
    (hkept : k.link.inflight.slot call.ticket ≠ .deserted)
    (hopen : k.link.inflight.slot call.ticket = .empty → k.link.closing? = none)
    (htakes : k.link.closing? = none → k.link.takes = true) :
    (k.link.inflight.slot call.ticket = .empty ∧ m.now < call.deadline ∧
      s.checkStopping m i r c call = s.setStage i (.stopping c call)) ∨
    ∃ l, s.checkStopping m i r c call = (s.setLink c l).closeUp m i r c ∧
      l.closing? = k.link.closing? ∧
      l.close.sent = k.link.sent ++ k.link.farewell m.now call := by
  cases hs : k.link.inflight.slot call.ticket with
  | filled reply =>
    have hpoll : k.link.poll m.now call = (some reply, _) := Link.poll_of_filled hs
    cases reply with
    | error f =>
      refine .inr ⟨_, checkStopping_of_error hk hpoll, by simp [Link.closing?], ?_⟩
      rw [Link.sent_close_eq, Link.farewell, hs]
      rfl
    | ok v =>
      refine .inr ⟨_, checkStopping_of_ok hk hpoll, by simp [Link.closing?], ?_⟩
      rw [Link.sent_close_eq, Link.farewell, hs, Link.sent_notify,
        Link.ending_of_writing (Link.writing_notify _ _ _)]
      have htakes' : Link.takes { k.link with inflight := (k.link.inflight.take? call.ticket).2 } =
          k.link.takes := by simp [Link.takes, Link.closing?]
      -- the farewell is queued only if the link still takes it, which is when it has not closed
      have hexit : (if k.link.takes then [.frame (Message.notification "exit" none)] else []) =
          if k.link.isClosed then [] else [Outgoing.frame (Message.notification "exit" none)] := by
        cases hclosing : k.link.closing? with
        | none => simp [htakes hclosing, Link.isClosed, hclosing]
        | some reason => simp [Link.takes, Link.isClosed, hclosing]
      rw [htakes', ← hexit]
      cases k.link.takes <;> simp [Link.ending_of_writing (l := k.link)]
  | spent =>
    refine .inr ⟨_, checkStopping_of_error hk (Link.poll_of_spent hs), by simp, ?_⟩
    rw [Link.sent_close_eq, Link.farewell, hs]
    rfl
  | deserted => exact absurd hs hkept
  | empty =>
    by_cases ht : m.now < call.deadline
    · refine .inl ⟨rfl, ht, checkStopping_of_none hk ?_⟩
      rw [Link.poll_of_early hs ht]
    · refine .inr ⟨_, checkStopping_of_error hk (Link.poll_of_late hs (Nat.le_of_not_lt ht)),
        by simp, ?_⟩
      rw [Link.sent_close_eq, Link.farewell, hs, if_neg ht, Link.sent_notify, Link.takes_abandon,
        if_pos (htakes (hopen hs)), Link.ending_of_writing (Link.writing_notify _ _ _), List.append_assoc]
      rfl

end Looks

def ClosedAt (c : Nat) (s : Session) : Prop :=
  ∃ k, s.connection? c = some k ∧ k.link.closing? ≠ none

section Closed

variable {s s' : Session} {m : Moment} {i c : Nat} {r : Bool}

theorem ClosedAt.tidy (h : ClosedAt c s) : ClosedAt c s.tidy := by
  obtain ⟨k, hk, hclosed⟩ := h
  refine ⟨_, by rw [connection?_tidy, hk]; rfl, ?_⟩
  split
  · rwa [k.kept_reap.link]
  · rwa [k.closing?_release]

theorem ClosedAt.not_up (h : ClosedAt c s) : ¬ s.Up c := by
  obtain ⟨k, hk, hclosed⟩ := h
  rintro ⟨k', hk', hup⟩
  obtain rfl : k = k' := Option.some.inj (hk.symm.trans hk')
  exact hclosed hup.opened

theorem Holds.closedAt {established : Bool} (h : s.Holds c established) (hdown : ¬ s.Up c) :
    ClosedAt c s := by
  obtain ⟨k, hk, hreleased, -⟩ := h
  refine ⟨k, hk, fun hopen => hdown ⟨k, hk, hopen, fun hgone => ?_⟩⟩
  rw [hreleased] at hgone
  cases hgone

theorem ClosedAt.kept (h : ClosedAt c s)
    (hs : ChangedAt Connection.Kept c s.connections s'.connections) : ClosedAt c s' := by
  obtain ⟨k, hk, hclosed⟩ := h
  obtain ⟨k', hk', hkept⟩ := hs.this k hk
  exact ⟨k', hk', by rwa [hkept.link]⟩

theorem closedAt_closeUp {k : Connection} (hk : s.connection? c = some k) :
    ClosedAt c (s.closeUp m i r c) := by
  obtain ⟨k', hk', hlink⟩ := connection?_closeUp (m := m) (i := i) (r := r) hk
  refine ⟨k', hk', ?_⟩
  rw [hlink, Link.closing?_close]
  exact Option.some_ne_none _

end Closed

/-- Where a session stands once it has been shut down. -/
def Lifecycle.ended (r : Bool) : Lifecycle :=
  if r then .notStarted else .stopped

/-- What a look leaves that does not wait for the server's reply any longer: the connection has
closed, and the operation waits for the process, or is done. -/
inductive Leaves (c i : Nat) (r : Bool) (s : Session) : Prop
  | reaps {deadline : Nat} (stage : s.stage? i = some (.reaping c deadline))
      (closed : ClosedAt c s)
  | kills (stage : s.stage? i = some (.killing c)) (closed : ClosedAt c s)
  | ends (stage : s.stage? i = some (.done (.ok .nothing))) (lifecycle : s.lifecycle = .ended r)
      (closed : ClosedAt c s)

section Leaving

variable {R : Connection → Connection → Prop} {s s' : Session} {m : Moment} {i c : Nat}
  {k : Connection} {call : Call} {r : Bool}

theorem Leaves.tidy (h : Leaves c i r s) : Leaves c i r s.tidy := by
  cases h with
  | reaps stage closed => exact .reaps stage closed.tidy
  | kills stage closed => exact .kills stage closed.tidy
  | ends stage lifecycle closed => exact .ends stage lifecycle closed.tidy

theorem Reaping.leaves (hs : Reaping R i r c s s') {stage : Stage} (hi : s.stage? i = some stage)
    (hclosed : ClosedAt c s') : Leaves c i r s' := by
  cases hs with
  | finishes => exact .ends (stage?_setStage_self hi) rfl hclosed
  | reaps => exact .reaps (stage?_setStage_self hi) hclosed
  | kills => exact .kills (stage?_setStage_self hi) hclosed

theorem leaves_closeUp {stage : Stage} (hi : s.stage? i = some stage)
    (hk : s.connection? c = some k) : Leaves c i r (s.closeUp m i r c) :=
  (reaping_closeUp r).leaves hi (closedAt_closeUp hk)

theorem reaping_stretch {stage : Stage} (hi : s.stage? i = some stage)
    (hwork : s.work? i = some (.shutdown r)) (hwaits : stage = .killing c ∨ ∃ d, stage = .reaping c d) :
    Reaping Connection.Kept i r c s (s.stretch m i) := by
  have hkept : ChangedAt Connection.Kept c s.connections s.connections :=
    .refl (fun k => ⟨rfl, rfl, rfl⟩) c _
  obtain rfl | ⟨d, rfl⟩ := hwaits
  · rw [stretch_of_killing hi hwork]
    exact reaping_checkKilling r hkept
  · rw [stretch_of_reaping hi hwork]
    exact reaping_checkReaping (fun h => ⟨h.link, h.established, h.released⟩) r d hkept

end Leaving

/-- A shutdown that has had the turn and was not dropped: it stands where a look has left it. -/
structure Winding (c : Nat) (call : Call) (i : Nat) (r : Bool) (limit : Nat) (s : Session) :
    Prop where
  work : s.work? i = some (.shutdown r)
  timeout : s.timeouts.shutdown = limit
  inRange : c < s.connections.length
  stage : s.stage? i = some (.stopping c call) ∨
    ¬ s.Up c ∧ ∃ stage, s.stage? i = some stage ∧
      (stage = .killing c ∨ (∃ d, stage = .reaping c d) ∨ stage = .done (.ok .nothing))

namespace Winding

variable {s s' : Session} {m : Moment} {i c limit : Nat} {k : Connection} {call : Call} {r : Bool}

theorem of_leaves (h : Leaves c i r s) (hwork : s.work? i = some (.shutdown r))
    (htimeout : s.timeouts.shutdown = limit) (hc : c < s.connections.length) :
    Winding c call i r limit s := by
  refine ⟨hwork, htimeout, hc, .inr ?_⟩
  cases h with
  | reaps stage closed => exact ⟨closed.not_up, _, stage, .inr (.inl ⟨_, rfl⟩)⟩
  | kills stage closed => exact ⟨closed.not_up, _, stage, .inl rfl⟩
  | ends stage _ closed => exact ⟨closed.not_up, _, stage, .inr (.inr rfl)⟩

theorem slot_cases (hg : s.Gated) (hh : s.Heeded) (hi : s.stage? i = some (.stopping c call)) :
    ∃ k, s.connection? c = some k ∧ k.link.inflight.slot call.ticket ≠ .deserted ∧
      (k.link.inflight.slot call.ticket = .empty → k.link.closing? = none) ∧
      (k.link.closing? = none → k.link.takes = true) := by
  obtain ⟨k, hk, hreleased, -⟩ := hg.held hi rfl
  have hwaits : s.waits c i = some call := by simp [Session.waits, hi, Stage.call?]
  have hheeds := hh c k hk
  refine ⟨k, hk, hheeds.kept hwaits, fun hempty => ?_, fun hopen => ?_⟩
  · by_contra hclosed
    exact Link.slot_ne_empty_of_closed hheeds hclosed hwaits hempty
  · exact k.link.takes_iff.mpr ⟨hopen, (hg.hale hk hreleased hopen).1⟩

/-- A look of a shutdown that is not done. It waits for the server's reply as long as it was not
ready to look. -/
theorem look (h : Winding c call i r limit s) (hg : s.Gated) (hh : s.Heeded) (m : Moment)
    (hundone : s.stage? i ≠ some (.done (.ok .nothing))) :
    (s.stage? i = some (.stopping c call) ∧ s.isReady m i = false ∧
      (s.step (.resume m i)).stage? i = some (.stopping c call)) ∨
    Leaves c i r (s.step (.resume m i)) := by
  obtain hi | ⟨hdown, stage, hi, hstage⟩ := h.stage
  · obtain ⟨k, hk, hkept, hopen, htakes⟩ := slot_cases hg hh hi
    have hstretch : s.step (.resume m i) = (s.checkStopping m i r c call).tidy := by
      rw [Session.step, resume, stretch_of_stopping hi h.work]
    obtain ⟨hempty, hearly, heq⟩ | ⟨l, heq, -⟩ :=
      checkStopping_cases (m := m) (i := i) (r := r) hk hkept hopen htakes
    · refine .inl ⟨hi, ?_, ?_⟩
      · simp [Session.isReady, hi, hk, hempty, Slot.isEmpty, hearly]
      · rw [hstretch, heq]
        exact stage?_setStage_self hi
    · have hi' : (s.setLink c l).stage? i = some (.stopping c call) := hi
      rw [hstretch, heq]
      exact .inr (leaves_closeUp hi' (connection?_setLink_self hk l)).tidy
  · -- it waits for the process, and so has closed the connection before
    have hwaits : stage = .killing c ∨ ∃ d, stage = .reaping c d := by
      obtain rfl | hreaping | rfl := hstage
      · exact .inl rfl
      · exact .inr hreaping
      · exact absurd hi hundone
    have hc : stage.connection? = some c := by
      obtain rfl | ⟨d, rfl⟩ := hwaits <;> rfl
    have hreaping := reaping_stretch (m := m) hi h.work hwaits
    have hclosed := ((hg.held hi hc).closedAt hdown).kept hreaping.changed
    exact .inr (hreaping.leaves hi hclosed).tidy

theorem step (h : Winding c call i r limit s) (hg : s.Gated) (hh : s.Heeded) {e : Event}
    (he : e ≠ .cancel i) : Winding c call i r limit (s.step e) := by
  have hs := (hg.step e).1
  have hfades := hg.fades hs
  have hwork := hs.bound.work i _ h.work
  have htimeout := (congrArg _ hs.bound.timeouts).trans h.timeout
  have hinRange := Nat.lt_of_lt_of_le h.inRange hfades.length
  have hdown (hnot : ¬ s.Up c) : ¬ (s.step e).Up c := fun hup => hnot (hfades.up c h.inRange hup)
  by_cases hlook : ∃ m, e = .resume m i
  · obtain ⟨m, rfl⟩ := hlook
    by_cases hdone : s.stage? i = some (.done (.ok .nothing))
    · refine ⟨hwork, htimeout, hinRange, .inr ⟨hdown ?_, _, ?_, .inr (.inr rfl)⟩⟩
      · obtain hi | ⟨hnot, -⟩ := h.stage
        · rw [hdone] at hi
          cases hi
        · exact hnot
      · show (s.stretch m i).stage? i = _
        rw [stretch_of_done hdone, hdone]
    · obtain ⟨-, -, hi⟩ | hleaves := h.look hg hh m hdone
      · exact ⟨hwork, htimeout, hinRange, .inl hi⟩
      · exact of_leaves hleaves hwork htimeout hinRange
  · have hresume (m : Moment) : e ≠ .resume m i := fun heq => hlook ⟨m, heq⟩
    refine ⟨hwork, htimeout, hinRange, ?_⟩
    obtain hi | ⟨hnot, stage, hi, hstage⟩ := h.stage
    · exact .inl (hs.stage?_other hi hresume he)
    · exact .inr ⟨hdown hnot, stage, hs.stage?_other hi hresume he, hstage⟩

theorem run (h : Winding c call i r limit s) (hg : s.Gated) (hh : s.Heeded) {es : List Event}
    (hes : .cancel i ∉ es) : Winding c call i r limit (s.run es) := by
  induction es generalizing s with
  | nil => exact h
  | cons e es ih =>
    rw [List.mem_cons, not_or] at hes
    exact ih (h.step hg hh (Ne.symm hes.1)) (hg.step e).2 (hh.step hg e) hes.2

end Winding

/-- How many looks a shutdown at this stage needs at most. -/
def Stage.rank : Stage → Nat
  | .stopping _ _ => 3
  | .reaping _ _ => 2
  | .killing _ => 1
  | _ => 0

def rank (s : Session) (i : Nat) : Nat :=
  ((s.stage? i).map Stage.rank).getD 0

/-- In this event the operation looks at what it waits for, and is ready to. -/
def isLook (s : Session) (i : Nat) : Event → Bool
  | .resume m j => j == i && s.isReady m i
  | _ => false

/-- How often the operation looks when it is ready to. -/
def looks (i : Nat) : Session → List Event → Nat
  | _, [] => 0
  | s, e :: es => (s.isLook i e).toNat + looks i (s.step e) es

section Ranks

variable {s : Session} {m : Moment} {i c limit : Nat} {call : Call} {r : Bool}

theorem rank_of_stage {stage : Stage} (hi : s.stage? i = some stage) : s.rank i = stage.rank := by
  rw [rank, hi]
  rfl

theorem Leaves.rank_le (h : Leaves c i r s) : s.rank i ≤ 2 := by
  cases h with
  | reaps stage | kills stage | ends stage => simp [rank_of_stage stage, Stage.rank]

theorem rank_finishShutdown {stage : Stage} (hi : s.stage? i = some stage) :
    (s.finishShutdown i r).rank i = 0 := by
  rw [rank_of_stage (stage?_finishShutdown hi)]
  rfl

theorem rank_checkKilling {stage : Stage} (hi : s.stage? i = some stage) :
    (s.checkKilling m i r c).rank i = if m.exited c then 0 else 1 := by
  unfold checkKilling
  split
  · exact rank_finishShutdown hi
  · exact rank_of_stage (stage?_setStage_self hi)

theorem rank_checkReaping {stage : Stage} (hi : s.stage? i = some stage) {deadline : Nat}
    (hready : deadline ≤ m.now ∨ m.exited c = true) :
    (s.checkReaping m i r c deadline).rank i ≤ 1 := by
  unfold checkReaping
  split
  · rw [rank_finishShutdown hi]
    exact Nat.zero_le 1
  · rename_i hexited
    have hlate : ¬ m.now < deadline := Nat.not_lt.mpr (hready.resolve_right hexited)
    have hi' : (s.updateConnection c fun k => { k with killed := true }).stage? i = some stage := hi
    rw [if_neg hlate, rank_checkKilling hi']
    split <;> simp

namespace Winding

/-- A look that is ready comes nearer to the end. -/
theorem rank_look (h : Winding c call i r limit s) (hg : s.Gated) (hh : s.Heeded)
    (hready : s.isReady m i = true) : (s.step (.resume m i)).rank i < s.rank i := by
  obtain hi | ⟨-, stage, hi, hstage⟩ := h.stage
  · obtain ⟨-, hnot, -⟩ | hleaves := h.look hg hh m (by simp [hi])
    · rw [hready] at hnot
      cases hnot
    · rw [rank_of_stage hi]
      exact Nat.lt_succ_of_le hleaves.rank_le
  · have hstep : (s.step (.resume m i)).rank i = (s.stretch m i).rank i := rfl
    rw [hstep, rank_of_stage hi]
    obtain rfl | ⟨d, rfl⟩ | rfl := hstage
    · have hexited : m.exited c = true := by simpa [Session.isReady, hi] using hready
      rw [stretch_of_killing hi h.work, rank_checkKilling hi, if_pos hexited]
      exact Nat.zero_lt_one
    · have hover : d ≤ m.now ∨ m.exited c = true := by simpa [Session.isReady, hi] using hready
      rw [stretch_of_reaping hi h.work]
      exact Nat.lt_succ_of_le (rank_checkReaping hi hover)
    · simp [Session.isReady, hi] at hready

/-- No look comes nearer to the beginning. -/
theorem rank_resume (h : Winding c call i r limit s) (hg : s.Gated) (hh : s.Heeded) (m : Moment) :
    (s.step (.resume m i)).rank i ≤ s.rank i := by
  have hstep : (s.step (.resume m i)).rank i = (s.stretch m i).rank i := rfl
  obtain hi | ⟨-, stage, hi, hstage⟩ := h.stage
  · rw [rank_of_stage hi]
    obtain ⟨-, -, hstays⟩ | hleaves := h.look hg hh m (by simp [hi])
    · exact Nat.le_of_eq (rank_of_stage hstays)
    · exact Nat.le_succ_of_le hleaves.rank_le
  · rw [hstep, rank_of_stage hi]
    obtain rfl | ⟨d, rfl⟩ | rfl := hstage
    · rw [stretch_of_killing hi h.work, rank_checkKilling hi]
      split <;> simp [Stage.rank]
    · rw [stretch_of_reaping hi h.work]
      by_cases hready : d ≤ m.now ∨ m.exited c = true
      · exact Nat.le_succ_of_le (rank_checkReaping hi hready)
      · rw [not_or, Nat.not_le] at hready
        rw [checkReaping, if_neg hready.2, if_pos hready.1]
        exact Nat.le_of_eq (rank_of_stage (stage?_setStage_self hi))
    · rw [stretch_of_done hi]
      exact Nat.le_of_eq (rank_of_stage hi)

theorem rank_step (h : Winding c call i r limit s) (hg : s.Gated) (hh : s.Heeded) {e : Event}
    (he : e ≠ .cancel i) : (s.step e).rank i + (s.isLook i e).toNat ≤ s.rank i := by
  by_cases hlook : ∃ m, e = .resume m i
  · obtain ⟨m, rfl⟩ := hlook
    cases hready : s.isReady m i with
    | true => simpa [isLook, hready] using Nat.succ_le_of_lt (h.rank_look hg hh hready)
    | false => simpa [isLook, hready] using h.rank_resume hg hh m
  · have hresume (m : Moment) : e ≠ .resume m i := fun heq => hlook ⟨m, heq⟩
    have hnot : s.isLook i e = false := by
      cases e with
      | resume m j =>
        have hj : j ≠ i := fun heq => hresume m (heq ▸ rfl)
        simp [isLook, hj]
      | _ => rfl
    have hsame {stage : Stage} (hi : s.stage? i = some stage) :
        (s.step e).rank i = s.rank i := by
      rw [rank_of_stage ((hg.step e).1.stage?_other hi hresume he), rank_of_stage hi]
    obtain hi | ⟨-, stage, hi, -⟩ := h.stage
    · simp [hnot, hsame hi]
    · simp [hnot, hsame hi]

theorem rank_run (h : Winding c call i r limit s) (hg : s.Gated) (hh : s.Heeded) {es : List Event}
    (hes : .cancel i ∉ es) : (s.run es).rank i + looks i s es ≤ s.rank i := by
  induction es generalizing s with
  | nil => exact Nat.le_refl _
  | cons e es ih =>
    rw [List.mem_cons, not_or] at hes
    have hstep := h.rank_step hg hh (Ne.symm hes.1)
    have hrest := ih (h.step hg hh (Ne.symm hes.1)) (hg.step e).2 (hh.step hg e) hes.2
    have hrun : s.run (e :: es) = (s.step e).run es := rfl
    rw [hrun, looks]
    omega

end Winding

end Ranks

/-- When an event happens, if it is a stretch of an operation. -/
def Event.moment? : Event → Option Moment
  | .begin m _ | .resume m _ => some m
  | _ => none

/-- Time does not run past the operation: nothing happens later than it waits, before it has looked. -/
def Urgent (i : Nat) (s : Session) (es : List Event) : Prop :=
  ∀ front f back m d, es = front ++ f :: back → f.moment? = some m →
    (s.run front).deadline? i = some d → m.now ≤ d

section Deadlines

variable {s : Session} {m : Moment} {i c limit t : Nat} {call : Call} {r : Bool}

theorem Urgent.head {e : Event} {es : List Event} (h : Urgent i s (e :: es)) {d : Nat}
    (he : e.moment? = some m) (hd : s.deadline? i = some d) : m.now ≤ d :=
  h [] e es m d rfl he hd

theorem Urgent.tail {e : Event} {es : List Event} (h : Urgent i s (e :: es)) :
    Urgent i (s.step e) es := by
  rintro front f back m d rfl hf hd
  exact h (e :: front) f back m d rfl hf hd

theorem Urgent.last {es : List Event} {f : Event} (h : Urgent i s (es ++ [f])) {d : Nat}
    (hf : f.moment? = some m) (hd : (s.run es).deadline? i = some d) : m.now ≤ d :=
  h es f [] m d rfl hf hd

theorem Urgent.front {es : List Event} {f : Event} (h : Urgent i s (es ++ [f])) :
    Urgent i s es := by
  rintro front f' back m d rfl hf hd
  exact h front f' (back ++ [f]) m d (by simp) hf hd

theorem deadline?_finishShutdown {stage : Stage} (hi : s.stage? i = some stage) :
    (s.finishShutdown i r).deadline? i = none := by
  simp [deadline?, stage?_finishShutdown hi]

theorem deadline?_checkKilling {stage : Stage} (hi : s.stage? i = some stage) :
    (s.checkKilling m i r c).deadline? i = none := by
  unfold checkKilling
  split
  · exact deadline?_finishShutdown hi
  · simp [deadline?, stage?_setStage_self hi]

theorem deadline?_checkReaping {stage : Stage} (hi : s.stage? i = some stage) {d d' : Nat}
    (h : (s.checkReaping m i r c d).deadline? i = some d') : d' = d := by
  unfold checkReaping at h
  split at h
  · rw [deadline?_finishShutdown hi] at h
    cases h
  · split at h
    · simpa [deadline?, stage?_setStage_self hi] using h.symm
    · have hi' : (s.updateConnection c fun k => { k with killed := true }).stage? i = some stage := hi
      rw [deadline?_checkKilling hi'] at h
      cases h

theorem deadline?_closeUp {stage : Stage} (hi : s.stage? i = some stage) {d : Nat}
    (h : (s.closeUp m i r c).deadline? i = some d) :
    d = m.now + seconds s.timeouts.shutdown := by
  unfold closeUp at h
  extract_lets closed at h
  split at h
  · have hi' : (closed.updateConnection c fun k => { k with process := .taken }).stage? i =
        some stage := hi
    exact deadline?_checkReaping hi' h
  · have hi' : closed.stage? i = some stage := hi
    rw [deadline?_finishShutdown hi'] at h
    cases h

namespace Winding

theorem deadline?_resume (h : Winding c call i r limit s) (hg : s.Gated) (hh : s.Heeded) {d : Nat}
    (hd : (s.step (.resume m i)).deadline? i = some d) :
    s.deadline? i = some d ∨ s.deadline? i = some call.deadline ∧ d = m.now + seconds limit := by
  have hd : (s.stretch m i).deadline? i = some d := hd
  obtain hi | ⟨-, stage, hi, hstage⟩ := h.stage
  · have hbefore : s.deadline? i = some call.deadline := by simp [deadline?, hi]
    obtain ⟨k, hk, hkept, hopen, htakes⟩ := slot_cases hg hh hi
    rw [stretch_of_stopping hi h.work] at hd
    obtain ⟨-, -, heq⟩ | ⟨l, heq, -⟩ :=
      checkStopping_cases (m := m) (i := i) (r := r) hk hkept hopen htakes
    · rw [heq, deadline?, stage?_setStage_self hi] at hd
      exact .inl (hbefore.trans hd)
    · have hi' : (s.setLink c l).stage? i = some (.stopping c call) := hi
      rw [heq] at hd
      refine .inr ⟨hbefore, (deadline?_closeUp hi' hd).trans ?_⟩
      rw [show (s.setLink c l).timeouts = s.timeouts from rfl, h.timeout]
  · obtain rfl | ⟨d', rfl⟩ | rfl := hstage
    · rw [stretch_of_killing hi h.work, deadline?_checkKilling hi] at hd
      cases hd
    · rw [stretch_of_reaping hi h.work] at hd
      rw [deadline?_checkReaping hi hd]
      exact .inl (by simp [deadline?, hi])
    · rw [stretch_of_done hi] at hd
      exact .inl hd

theorem deadline?_step (h : Winding c call i r limit s) (hg : s.Gated) (hh : s.Heeded) {e : Event}
    (he : e ≠ .cancel i) (hcall : call.deadline ≤ t + seconds limit)
    (hdue : ∀ d, s.deadline? i = some d → d ≤ t + 2 * seconds limit)
    (hurgent : ∀ m d, e.moment? = some m → s.deadline? i = some d → m.now ≤ d) {d : Nat}
    (hd : (s.step e).deadline? i = some d) : d ≤ t + 2 * seconds limit := by
  by_cases hlook : ∃ m, e = .resume m i
  · obtain ⟨m, rfl⟩ := hlook
    obtain hsame | ⟨hbefore, rfl⟩ := h.deadline?_resume hg hh hd
    · exact hdue d hsame
    · -- the second wait begins when the first one ends, and that is not later than its limit
      have hnow := hurgent m _ rfl hbefore
      omega
  · have hresume (m : Moment) : e ≠ .resume m i := fun heq => hlook ⟨m, heq⟩
    have hsame {stage : Stage} (hi : s.stage? i = some stage) :
        (s.step e).deadline? i = s.deadline? i := by
      rw [deadline?, deadline?, (hg.step e).1.stage?_other hi hresume he, hi]
    obtain hi | ⟨-, stage, hi, -⟩ := h.stage
    · exact hdue d (hsame hi ▸ hd)
    · exact hdue d (hsame hi ▸ hd)

/-- However it goes on, a shutdown never waits for longer than twice its time limit. -/
theorem deadline?_run (h : Winding c call i r limit s) (hg : s.Gated) (hh : s.Heeded)
    {es : List Event} (hes : .cancel i ∉ es) (hcall : call.deadline ≤ t + seconds limit)
    (hdue : ∀ d, s.deadline? i = some d → d ≤ t + 2 * seconds limit) (hurgent : Urgent i s es)
    {d : Nat} (hd : (s.run es).deadline? i = some d) : d ≤ t + 2 * seconds limit := by
  induction es generalizing s with
  | nil => exact hdue d hd
  | cons e es ih =>
    rw [List.mem_cons, not_or] at hes
    have he : e ≠ .cancel i := Ne.symm hes.1
    refine ih (h.step hg hh he) (hg.step e).2 (hh.step hg e) hes.2 (fun d' hd' => ?_) hurgent.tail hd
    exact h.deadline?_step hg hh he hcall hdue (fun _ _ => hurgent.head) hd'

end Winding

end Deadlines

section Words

variable {s s₁ : Session} {e : Event} {m : Moment} {i c limit : Nat} {k : Connection} {call : Call}
  {r : Bool}

theorem queues_tidy (hk : s.connection? c = some k) :
    ∃ k', s.tidy.connection? c = some k' ∧ Link.Queues [] k.link k'.link := by
  refine ⟨_, by rw [connection?_tidy, hk]; rfl, ?_⟩
  split
  · exact .of_eq (by simp [k.kept_reap.link])
  · exact k.queues_release

theorem queues_of_eq {k' : Connection} (hk' : s.connection? c = some k') {os : List Outgoing}
    (hsent : k'.link.sent = k.link.sent ++ os) :
    ∃ k', s.tidy.connection? c = some k' ∧ Link.Queues os k.link k'.link := by
  obtain ⟨k'', hk'', hqueues⟩ := queues_tidy hk'
  exact ⟨k'', hk'', (Link.Queues.of_eq hsent).trans hqueues⟩

theorem sent_closeUp {l : Link} (hk : s.connection? c = some k) {os : List Outgoing}
    (hsent : l.close.sent = k.link.sent ++ os) :
    ∃ k', ((s.setLink c l).closeUp m i r c).tidy.connection? c = some k' ∧
      Link.Queues os k.link k'.link := by
  obtain ⟨k', hk', hlink⟩ :=
    connection?_closeUp (m := m) (i := i) (r := r) (connection?_setLink_self hk l)
  exact queues_of_eq hk' (by rw [hlink, hsent])

/-- The first look of a shutdown: either the server has been asked and is to answer, or the connection
is closed up. -/
theorem stop_cases (hc : s.lifecycle = .ready c) (hk : s.connection? c = some k)
    (htakes : k.link.closing? = none → k.link.takes = true) :
    (∃ l, s.stop m i r = (s.ending.setLink c l).setStage i
        (.stopping c (k.stopCall m (seconds s.timeouts.shutdown))) ∧
      l.sent = k.link.sent ++ k.link.shutdownWords m.now (seconds s.timeouts.shutdown)) ∨
    ∃ l, s.stop m i r = (s.ending.setLink c l).closeUp m i r c ∧
      l.close.sent =
        k.link.sent ++ k.link.shutdownWords m.now (seconds s.timeouts.shutdown) := by
  have hending : s.ending.connection? c = some k := hk
  cases hclosing : k.link.closing? with
  | some reason =>
    refine .inr ⟨k.link, ?_, ?_⟩
    · rw [setLink_self hending]
      exact stop_of_closed hc hk (by simp [hclosing])
    · rw [Link.sent_close_eq, Link.shutdownWords, if_pos (by simp [Link.isClosed, hclosing])]
  | none =>
    have htakes := htakes hclosing
    have hopen : k.link.isClosed = false := by simp [Link.isClosed, hclosing]
    -- the request is on its way, and its slot is empty at the first look
    have hasked := connection?_setLink_self hending (k.stopLink m (seconds s.timeouts.shutdown))
    have hcall := k.link.call_of_takes m.now (seconds s.timeouts.shutdown) "shutdown" none htakes
    have hslot : (k.stopLink m (seconds s.timeouts.shutdown)).inflight.slot
        (k.stopCall m (seconds s.timeouts.shutdown)).ticket = .empty := by
      rw [Connection.stopLink, hcall]
      simp [Connection.stopCall, Link.nextCall, Link.enrolled, Inflight.slot]
    have htakes' : (k.stopLink m (seconds s.timeouts.shutdown)).takes = true := by
      rw [Link.takes_iff, Connection.stopLink, Link.closing?_call, Link.writing_call]
      exact k.link.takes_iff.mp htakes
    have hwords : k.link.shutdownWords m.now (seconds s.timeouts.shutdown) =
        .frame (Message.request k.link.nextId "shutdown" none) ::
          (k.stopLink m (seconds s.timeouts.shutdown)).farewell m.now
            (k.stopCall m (seconds s.timeouts.shutdown)) := by
      rw [Link.shutdownWords, if_neg (by simp [hopen])]
      rfl
    have hsent (os : List Outgoing) :
        (k.stopLink m (seconds s.timeouts.shutdown)).sent ++ os =
          k.link.sent ++ .frame (Message.request k.link.nextId "shutdown" none) :: os := by
      rw [sent_stopLink htakes, List.append_assoc]
      rfl
    rw [stop_of_takes hc hk htakes, hwords]
    have hkept : (k.stopLink m (seconds s.timeouts.shutdown)).inflight.slot
        (k.stopCall m (seconds s.timeouts.shutdown)).ticket ≠ .deserted := by
      rw [hslot]
      exact Slot.noConfusion
    obtain ⟨-, hearly, heq⟩ | ⟨l, heq, -, hl⟩ :=
      checkStopping_cases (m := m) (i := i) (r := r) hasked hkept
        (fun _ => (Link.takes_iff _ |>.mp htakes').1) fun _ => htakes'
    · refine .inl ⟨_, heq, ?_⟩
      rw [← hsent, Link.farewell, hslot, if_pos hearly, List.append_nil]
    · refine .inr ⟨l, by rw [heq, setLink_setLink], ?_⟩
      rw [hl, hsent]

namespace Winding

theorem farewell (h : Winding c call i r limit s) (hg : s.Gated) (hh : s.Heeded)
    (hi : s.stage? i = some (.stopping c call)) (hk : s.connection? c = some k) (m : Moment) :
    ∃ k', (s.step (.resume m i)).connection? c = some k' ∧
      Link.Queues (k.link.farewell m.now call) k.link k'.link := by
  obtain ⟨k₀, hk₀, hkept, hopen, htakes⟩ := slot_cases hg hh hi
  obtain rfl : k = k₀ := Option.some.inj (hk.symm.trans hk₀)
  have hstretch : s.step (.resume m i) = (s.checkStopping m i r c call).tidy := by
    rw [Session.step, resume, stretch_of_stopping hi h.work]
  rw [hstretch]
  obtain ⟨hempty, hearly, heq⟩ | ⟨l, heq, -, hl⟩ :=
    checkStopping_cases (m := m) (i := i) (r := r) hk hkept hopen htakes
  · rw [heq]
    have hk' : (s.setStage i (.stopping c call)).connection? c = some k := hk
    refine queues_of_eq hk' ?_
    rw [Link.farewell, hempty, if_pos hearly, List.append_nil]
  · rw [heq]
    exact sent_closeUp hk hl

theorem silent (h : Winding c call i r limit s) {stage : Stage} (hi : s.stage? i = some stage)
    (hwaits : stage = .killing c ∨ ∃ d, stage = .reaping c d) (hk : s.connection? c = some k)
    (m : Moment) : ∃ k', (s.step (.resume m i)).connection? c = some k' ∧
      Link.Queues [] k.link k'.link := by
  obtain ⟨k', hk', hkept⟩ := (reaping_stretch (m := m) hi h.work hwaits).changed.this k hk
  exact queues_of_eq hk' (by rw [hkept.link, List.append_nil])

end Winding

end Words

/-- The connection has closed and nothing is owed on it: whoever still waits for a reply there has it
as soon as it looks. -/
def Resolved (c : Nat) (s : Session) : Prop :=
  ∃ k, s.connection? c = some k ∧ k.link.closing? ≠ none ∧ k.link.inflight.owed = [] ∧
    ∀ j call now, s.waits c j = some call → (k.link.poll now call).1.isSome = true

theorem Heeded.resolved {s : Session} (h : s.Heeded) {c : Nat} (hc : ClosedAt c s) :
    Resolved c s := by
  obtain ⟨k, hk, hclosed⟩ := hc
  have hheeds := h c k hk
  refine ⟨k, hk, hclosed, hheeds.closed hclosed, fun j call now hj => ?_⟩
  obtain ⟨-, hempty, -⟩ | ⟨reply, l, hpoll, -⟩ := Link.heeds_poll hheeds hj now
  · exact absurd hempty (Link.slot_ne_empty_of_closed hheeds hclosed hj)
  · rw [hpoll]
    rfl

/-- The session `s` has been shut down; before, it stood as `s₀`. -/
structure IsShut (s₀ : Session) (i : Nat) (r : Bool) (s : Session) : Prop where
  result : s.result? i = some (.ok .nothing)
  status : s.status = if r then .notStarted else .stopped
  resolved : ∀ c, s₀.lifecycle = .ready c → Resolved c s

/-- How a shutdown goes on from the step in which it gets the turn, as long as nobody drops it.
* `wakes`: it is ready to look once it is as late as it waits, or the process that it killed is gone;
* `finishes`: three looks for which it was ready are enough;
* `inTime`: when twice its time limit is over, it is done or waits for a process that was killed;
* `atOnce` and `later`: where the session stands when it is done;
* `asks`, `parts` and `silent`: what it tells the server at its turn, when it looks for the reply to
  its `request`, and while it waits for the process. -/
structure ShutsDown (s : Session) (e : Event) (i : Nat) (r : Bool) (m : Moment) : Prop where
  wakes : ∀ fs m', .cancel i ∉ fs → ((s.step e).run fs).result? i = none →
    (∀ d, ((s.step e).run fs).deadline? i = some d → d ≤ m'.now) →
    (∀ c, ((s.step e).run fs).stage? i = some (.killing c) → m'.exited c = true) →
    ((s.step e).run fs).isReady m' i = true
  finishes : ∀ fs, .cancel i ∉ fs → 3 ≤ looks i (s.step e) fs →
    ((s.step e).run fs).result? i = some (.ok .nothing)
  inTime : ∀ fs f m', .cancel i ∉ fs → Urgent i (s.step e) (fs ++ [f]) → f.moment? = some m' →
    m.now + 2 * seconds s.timeouts.shutdown < m'.now →
    ((s.step e).run fs).result? i = some (.ok .nothing) ∨
      ∃ c, ((s.step e).run fs).stage? i = some (.killing c)
  atOnce : (s.step e).result? i ≠ none → IsShut s i r (s.step e)
  later : ∀ fs f, .cancel i ∉ fs → f ≠ .cancel i → ((s.step e).run fs).result? i = none →
    (((s.step e).run fs).step f).result? i ≠ none → IsShut s i r (((s.step e).run fs).step f)
  asks : ∀ c k, s.lifecycle = .ready c → s.connection? c = some k →
    ∃ k', (s.step e).connection? c = some k' ∧
      Link.Queues (k.link.shutdownWords m.now (seconds s.timeouts.shutdown)) k.link k'.link
  request : ∀ fs c call, .cancel i ∉ fs →
    ((s.step e).run fs).stage? i = some (.stopping c call) → s.lifecycle = .ready c ∧
      ∃ k, s.connection? c = some k ∧ call = k.stopCall m (seconds s.timeouts.shutdown)
  parts : ∀ fs c call k m', .cancel i ∉ fs →
    ((s.step e).run fs).stage? i = some (.stopping c call) →
    ((s.step e).run fs).connection? c = some k →
    ∃ k', (((s.step e).run fs).step (.resume m' i)).connection? c = some k' ∧
      Link.Queues (k.link.farewell m'.now call) k.link k'.link
  silent : ∀ fs c stage k m', .cancel i ∉ fs → ((s.step e).run fs).stage? i = some stage →
    (stage = .killing c ∨ ∃ d, stage = .reaping c d) →
    ((s.step e).run fs).connection? c = some k →
    ∃ k', (((s.step e).run fs).step (.resume m' i)).connection? c = some k' ∧
      Link.Queues [] k.link k'.link

section Ending

variable {s s₀ : Session} {m : Moment} {i c limit : Nat} {call : Call} {r : Bool}

theorem status_of_ended (h : s.lifecycle = .ended r) :
    s.status = if r then .notStarted else .stopped := by
  unfold status
  rw [h]
  cases r <;> rfl

theorem result?_of_done {result : Except Failure Answer} (hi : s.stage? i = some (.done result)) :
    s.result? i = some result := by
  simp [result?, hi]

theorem Leaves.isShut (h : Leaves c i r s) (hh : s.Heeded) (hdone : s.result? i ≠ none)
    (honly : ∀ d, s₀.lifecycle = .ready d → d = c) : IsShut s₀ i r s := by
  cases h with
  | reaps stage | kills stage => exact absurd (by simp [result?, stage]) hdone
  | ends stage lifecycle closed =>
    refine ⟨result?_of_done stage, status_of_ended lifecycle, fun d hd => ?_⟩
    rw [honly d hd]
    exact hh.resolved closed

namespace Winding

theorem isReady (h : Winding c call i r limit s) (hundone : s.result? i = none)
    (hlate : ∀ d, s.deadline? i = some d → d ≤ m.now)
    (hexited : ∀ c, s.stage? i = some (.killing c) → m.exited c = true) :
    s.isReady m i = true := by
  obtain hi | ⟨-, stage, hi, rfl | ⟨d, rfl⟩ | rfl⟩ := h.stage
  · simp [Session.isReady, hi, hlate call.deadline (by simp [deadline?, hi])]
  · simp [Session.isReady, hi, hexited c hi]
  · simp [Session.isReady, hi, hlate d (by simp [deadline?, hi])]
  · rw [result?_of_done hi] at hundone
    cases hundone

theorem result?_of_rank (h : Winding c call i r limit s) (hrank : s.rank i = 0) :
    s.result? i = some (.ok .nothing) := by
  obtain hi | ⟨-, stage, hi, rfl | ⟨d, rfl⟩ | rfl⟩ := h.stage
  · simp [rank_of_stage hi, Stage.rank] at hrank
  · simp [rank_of_stage hi, Stage.rank] at hrank
  · simp [rank_of_stage hi, Stage.rank] at hrank
  · exact result?_of_done hi

theorem rank_le (h : Winding c call i r limit s) : s.rank i ≤ 3 := by
  obtain hi | ⟨-, stage, hi, rfl | ⟨d, rfl⟩ | rfl⟩ := h.stage <;>
    simp [rank_of_stage hi, Stage.rank]

theorem of_no_deadline (h : Winding c call i r limit s) (hnone : s.deadline? i = none) :
    s.result? i = some (.ok .nothing) ∨ ∃ c, s.stage? i = some (.killing c) := by
  obtain hi | ⟨-, stage, hi, rfl | ⟨d, rfl⟩ | rfl⟩ := h.stage
  · simp [deadline?, hi] at hnone
  · exact .inr ⟨c, hi⟩
  · simp [deadline?, hi] at hnone
  · exact .inl (result?_of_done hi)

theorem eq_of_stopping (h : Winding c call i r limit s) {c' : Nat} {call' : Call}
    (hi : s.stage? i = some (.stopping c' call')) : c' = c ∧ call' = call := by
  obtain hi' | ⟨-, stage, hi', hstage⟩ := h.stage
  · cases hi'.symm.trans hi
    exact ⟨rfl, rfl⟩
  · obtain rfl := Option.some.inj (hi'.symm.trans hi)
    obtain hkilling | ⟨d, hreaping⟩ | hdone := hstage <;> contradiction

theorem connection_eq (h : Winding c call i r limit s) {stage : Stage}
    (hi : s.stage? i = some stage) {d : Nat} (hd : stage.connection? = some d) : d = c := by
  obtain hi' | ⟨-, stage', hi', rfl | ⟨t, rfl⟩ | rfl⟩ := h.stage <;>
    obtain rfl := Option.some.inj (hi.symm.trans hi')
  · exact (Option.some.inj hd).symm
  · exact (Option.some.inj hd).symm
  · exact (Option.some.inj hd).symm
  · cases hd

theorem isShut (h : Winding c call i r limit s) (hg : s.Gated) (hh : s.Heeded) {f : Event}
    (hf : f ≠ .cancel i) (hundone : s.result? i = none) (hdone : (s.step f).result? i ≠ none)
    (honly : ∀ d, s₀.lifecycle = .ready d → d = c) : IsShut s₀ i r (s.step f) := by
  by_cases hlook : ∃ m, f = .resume m i
  · obtain ⟨m, rfl⟩ := hlook
    have hnot : s.stage? i ≠ some (.done (.ok .nothing)) := fun hi => by
      rw [result?_of_done hi] at hundone
      cases hundone
    obtain ⟨-, -, hstays⟩ | hleaves := h.look hg hh m hnot
    · exact absurd (by simp [result?, hstays]) hdone
    · exact hleaves.isShut (hh.step hg _) hdone honly
  · -- nobody else ends it
    have hresume (m : Moment) : f ≠ .resume m i := fun heq => hlook ⟨m, heq⟩
    have hsame {stage : Stage} (hi : s.stage? i = some stage) :
        (s.step f).result? i = s.result? i := by
      rw [result?, result?, (hg.step f).1.stage?_other hi hresume hf, hi]
    obtain hi | ⟨-, stage, hi, -⟩ := h.stage
    · exact absurd ((hsame hi).trans hundone) hdone
    · exact absurd ((hsame hi).trans hundone) hdone

end Winding

end Ending

section Turn

variable {s s₁ : Session} {e : Event} {m : Moment} {i c : Nat} {k : Connection} {r : Bool}

/-- Whoever is done stays so. -/
theorem Gated.done_run (hg : s.Gated) {result : Except Failure Answer}
    (hi : s.stage? i = some (.done result)) {es : List Event} (hes : .cancel i ∉ es) :
    (s.run es).stage? i = some (.done result) := by
  induction es generalizing s with
  | nil => exact hi
  | cons e es ih =>
    rw [List.mem_cons, not_or] at hes
    refine ih (hg.step e).2 ?_ hes.2
    by_cases hlook : ∃ m, e = .resume m i
    · obtain ⟨m, rfl⟩ := hlook
      have hstretch : (s.stretch m i).stage? i = some (.done result) := by
        rw [stretch_of_done hi, hi]
      exact hstretch
    · exact (hg.step e).1.stage?_other hi (fun m heq => hlook ⟨m, heq⟩) (Ne.symm hes.1)

/-- A shutdown that finds no server is done at once. -/
theorem AtTurn.shutsDown_of_unready (h : s.AtTurn i r s₁) (hg : s.Gated)
    (hstep : s.step e = (s₁.stop m i r).tidy) (hunready : ∀ c, s.lifecycle ≠ .ready c) :
    ShutsDown s e i r m := by
  have hstop : s₁.stop m i r = s₁.ending.finishShutdown i r :=
    stop_of_unready (h.lifecycle ▸ hunready)
  have hstage : (s.step e).stage? i = some (.done (.ok .nothing)) := by
    have hqueued : s₁.ending.stage? i = some .queued := h.turn.stage
    rw [hstep, hstop]
    exact stage?_finishShutdown hqueued
  have hlifecycle : (s.step e).lifecycle = .ended r := by rw [hstep, hstop]; rfl
  have hdone {fs : List Event} (hfs : .cancel i ∉ fs) :
      ((s.step e).run fs).stage? i = some (.done (.ok .nothing)) :=
    (hg.step e).2.done_run hstage hfs
  constructor
  case wakes =>
    intro fs m' hfs hundone
    rw [result?_of_done (hdone hfs)] at hundone
    cases hundone
  case finishes => exact fun fs hfs _ => result?_of_done (hdone hfs)
  case inTime => exact fun fs f m' hfs _ _ _ => .inl (result?_of_done (hdone hfs))
  case atOnce =>
    exact fun _ => ⟨result?_of_done hstage, status_of_ended hlifecycle,
      fun c hc => absurd hc (hunready c)⟩
  case later =>
    intro fs f hfs _ hundone
    rw [result?_of_done (hdone hfs)] at hundone
    cases hundone
  case asks => exact fun c k hc => absurd hc (hunready c)
  case request =>
    intro fs c call hfs hi
    rw [hdone hfs] at hi
    cases hi
  case parts =>
    intro fs c call k m' hfs hi
    rw [hdone hfs] at hi
    cases hi
  case silent =>
    intro fs c stage k m' hfs hi hwaits
    rw [hdone hfs] at hi
    obtain rfl := Option.some.inj hi
    obtain hkilling | ⟨d, hreaping⟩ := hwaits <;> contradiction

/-- Where the first look leaves a shutdown that finds a server. -/
theorem AtTurn.looks (h : s.AtTurn i r s₁) (hg : s.Gated) (hc : s.lifecycle = .ready c)
    (hk : s.connection? c = some k) :
    ((s₁.stop m i r).tidy.stage? i =
        some (.stopping c (k.stopCall m (seconds s.timeouts.shutdown))) ∨
      Leaves c i r (s₁.stop m i r).tidy) ∧
    (∀ d, (s₁.stop m i r).tidy.deadline? i = some d →
      d ≤ m.now + 2 * seconds s.timeouts.shutdown) ∧
    ∃ k', (s₁.stop m i r).tidy.connection? c = some k' ∧
      Link.Queues (k.link.shutdownWords m.now (seconds s.timeouts.shutdown)) k.link k'.link := by
  have hg₁ := h.gated hg
  have hc₁ : s₁.lifecycle = .ready c := h.lifecycle.trans hc
  have hk₁ : s₁.connection? c = some k := (h.connection? c).trans hk
  have hqueued (l : Link) : (s₁.ending.setLink c l).stage? i = some .queued := h.turn.stage
  obtain ⟨k₀, hk₀, -, htakes⟩ := hg₁.takes_of_ready hc₁
  obtain rfl : k = k₀ := Option.some.inj (hk₁.symm.trans hk₀)
  have hending : s₁.ending.connection? c = some k := hk₁
  rw [← h.timeouts]
  obtain ⟨l, heq, hl⟩ | ⟨l, heq, hl⟩ := stop_cases (m := m) (i := i) (r := r) hc₁ hk₁ htakes
  · have hstage : (s₁.stop m i r).stage? i =
        some (.stopping c (k.stopCall m (seconds s₁.timeouts.shutdown))) := by
      rw [heq]
      exact stage?_setStage_self (hqueued l)
    refine ⟨.inl hstage, fun d hd => ?_, ?_⟩
    · have hd : (s₁.stop m i r).deadline? i = some d := hd
      simp only [deadline?, hstage, Option.some.injEq, Connection.stopCall, Link.nextCall] at hd
      omega
    · have hlink : (s₁.stop m i r).connection? c = some { k with link := l } := by
        rw [heq]
        exact connection?_setLink_self hending l
      exact queues_of_eq hlink hl
  · rw [heq]
    refine ⟨.inr (leaves_closeUp (hqueued l) (connection?_setLink_self hending l)).tidy,
      fun d hd => ?_, sent_closeUp hending hl⟩
    have hd := deadline?_closeUp (hqueued l) hd
    rw [hd, show (s₁.ending.setLink c l).timeouts = s₁.timeouts from rfl]
    omega

theorem AtTurn.shutsDown_of_ready (h : s.AtTurn i r s₁) (hg : s.Gated) (hh : s.Heeded)
    (hstep : s.step e = (s₁.stop m i r).tidy) (hc : s.lifecycle = .ready c) :
    ShutsDown s e i r m := by
  obtain ⟨k, hk, -⟩ := hg.ready hc
  obtain ⟨hlook, hdue, hasks⟩ := h.looks (m := m) hg hc hk
  have honly (d : Nat) (hd : s.lifecycle = .ready d) : d = c :=
    Lifecycle.ready.inj (hd.symm.trans hc)
  have hg' := (hg.step e).2
  have hh' := hh.step hg e
  rw [← hstep] at hlook hdue hasks
  -- one invariant carries all clauses: the shutdown waits at one of its stages or has left the last
  have hwinding : Winding c (k.stopCall m (seconds s.timeouts.shutdown)) i r s.timeouts.shutdown
      (s.step e) := by
    obtain ⟨k', hk', -⟩ := hasks
    have hinRange : c < (s.step e).connections.length := (List.getElem?_eq_some_iff.mp hk').1
    have htimeout := congrArg Setup.Timeouts.shutdown (hg.step e).1.bound.timeouts
    have hwork : (s.step e).work? i = some (.shutdown r) :=
      hstep ▸ (outcome_stop (m := m) h.turn h.work).bound.work i _ h.work
    obtain hstage | hleaves := hlook
    · exact ⟨hwork, htimeout, hinRange, .inl hstage⟩
    · exact .of_leaves hleaves hwork htimeout hinRange
  have hrun {fs : List Event} (hfs : .cancel i ∉ fs) := hwinding.run hg' hh' hfs
  constructor
  case wakes => exact fun fs m' hfs => (hrun hfs).isReady
  case finishes =>
    intro fs hfs hlooks
    have hrank := hwinding.rank_run hg' hh' hfs
    have hle := hwinding.rank_le
    exact (hrun hfs).result?_of_rank (by omega)
  case inTime =>
    intro fs f m' hfs hurgent hf hlate
    refine (hrun hfs).of_no_deadline (Option.eq_none_iff_forall_ne_some.mpr fun d hd => ?_)
    have hnow := hurgent.last hf hd
    have hle := hwinding.deadline?_run hg' hh' hfs (Nat.le_refl _) hdue hurgent.front hd
    omega
  case atOnce =>
    intro hdone
    obtain hstage | hleaves := hlook
    · exact absurd (by simp [result?, hstage]) hdone
    · exact hleaves.isShut hh' hdone honly
  case later =>
    intro fs f hfs hf hundone hdone
    exact (hrun hfs).isShut (hg'.run fs) (hh'.run hg' fs) hf hundone hdone honly
  case asks =>
    intro d k' hd hk'
    obtain rfl := honly d hd
    obtain rfl : k = k' := Option.some.inj (hk.symm.trans hk')
    exact hasks
  case request =>
    intro fs d call hfs hi
    obtain ⟨rfl, rfl⟩ := (hrun hfs).eq_of_stopping hi
    exact ⟨hc, k, hk, rfl⟩
  case parts =>
    intro fs d call k' m' hfs hi hk'
    obtain ⟨rfl, rfl⟩ := (hrun hfs).eq_of_stopping hi
    exact (hrun hfs).farewell (hg'.run fs) (hh'.run hg' fs) hi hk' m'
  case silent =>
    intro fs d stage k' m' hfs hi hwaits hk'
    have hd : stage.connection? = some d := by obtain rfl | ⟨t, rfl⟩ := hwaits <;> rfl
    obtain rfl := (hrun hfs).connection_eq hi hd
    exact (hrun hfs).silent hi hwaits hk' m'

end Turn

/-- Whatever the server does and whoever else is at work: a shutdown that gets the turn and is not
dropped comes to its end in time, leaves a closed connection on which nobody waits in vain, and parts
from the server as it should. -/
theorem shuts_down (language : String) (server : Setup.Server) (timeouts : Setup.Timeouts)
    (processId : Nat) (rootUri : String) (es : List Event) {e : Event} {i : Nat} {r : Bool}
    {m : Moment}
    (hstops : ((new language server timeouts processId rootUri).run es).StopsAt e i r m) :
    ShutsDown ((new language server timeouts processId rootUri).run es) e i r m := by
  have hnew := Gated.new language server timeouts processId rootUri
  have hg := hnew.run es
  have hh := (Heeded.new language server timeouts processId rootUri).run hnew es
  obtain ⟨s₁, hturn, hstep⟩ := hstops.atTurn
  by_cases hready : ∃ c, ((new language server timeouts processId rootUri).run es).lifecycle =
      .ready c
  · obtain ⟨c, hc⟩ := hready
    exact hturn.shutsDown_of_ready hg hh hstep hc
  · exact hturn.shutsDown_of_unready hg hstep (not_exists.mp hready)

/-- A query waits for its answer, and from then on the server is silent: the shutdown gives up its
request, then waits for the process, kills it and is done when that has gone. -/
theorem shuts_down_silent :
    let moment (now : Nat) (gone : Bool) : Moment := ⟨now, .ok true, fun _ => .ok [], fun _ => gone⟩
    let s := (new "lua" ⟨"luals", [], "lua", []⟩ {} 1 "file:///").run
      (lateReader ++ [.resume (moment 0 false) 0])
    (s.waits 0 0).isSome = true ∧ s.gate = [] ∧ s.lifecycle = .ready 0 ∧
      IsShut s 1 true ((s.step (.begin (moment 0 false) (.shutdown true))).run
        [.resume (moment 2000 false) 1, .resume (moment 4000 false) 1,
          .resume (moment 4000 true) 1]) := by
  intro moment s
  have hwaits : (s.waits 0 0).isSome = true := by decide +kernel
  have hfree : s.gate = [] := by decide +kernel
  have hready : s.lifecycle = .ready 0 := by decide +kernel
  have hundone : (((s.step (.begin (moment 0 false) (.shutdown true))).run
      [.resume (moment 2000 false) 1, .resume (moment 4000 false) 1]).result? 1).isNone = true := by
    decide +kernel
  have hdone : (((s.step (.begin (moment 0 false) (.shutdown true))).run
      [.resume (moment 2000 false) 1, .resume (moment 4000 false) 1,
        .resume (moment 4000 true) 1]).result? 1).isSome = true := by
    decide +kernel
  have hstops : s.StopsAt (.begin (moment 0 false) (.shutdown true)) 1 true (moment 0 false) := by
    have hlength : s.tasks.length = 1 := by decide +kernel
    rw [← hlength]
    exact .begins hfree
  have hshuts := shuts_down "lua" ⟨"luals", [], "lua", []⟩ {} 1 "file:///"
    (lateReader ++ [.resume (moment 0 false) 0]) hstops
  refine ⟨hwaits, hfree, hready, hshuts.later
    [.resume (moment 2000 false) 1, .resume (moment 4000 false) 1] (.resume (moment 4000 true) 1)
    (by simp) Event.noConfusion (Option.isNone_iff_eq_none.mp hundone) ?_⟩
  exact Option.isSome_iff_ne_none.mp hdone

end Session
end LanguageClient
