import LanguageClient.Proofs.Link.Waiting
import LanguageClient.Proofs.Session.Gate

namespace LanguageClient

namespace Inflight

variable {t : Inflight} {waits : Nat → Option Call} {n : Nat} {c : Call}

theorem slot_remove_eq_deserted (id : UInt64) {j : Nat}
    (h : (t.remove id).2.slot j = .deserted) : t.slot j = .deserted := by
  unfold remove at h
  cases hf : t.find? id with
  | none => simpa [hf] using h
  | some o =>
    rw [hf] at h
    have h : (t.spend o.ticket).slot j = .deserted := h
    rw [slot_spend] at h
    split at h
    · cases h
    · exact h

/-- A table fits those who wait, and none of them has given its slot up. -/
structure Heeds (t : Inflight) (waits : Nat → Option Call) : Prop extends t.Fits waits where
  kept : ∀ {n c}, waits n = some c → t.slot c.ticket ≠ .deserted

namespace Heeds

theorem abandon (h : t.Heeds waits) (hc : waits n = some c) :
    ((t.remove c.id).2.desert c.ticket).Heeds (Function.update waits n none) := by
  refine ⟨h.toFits.abandon hc, fun hd => ?_⟩
  obtain ⟨hm, hd⟩ := update_none_eq_some.mp hd
  rw [slot_desert_ne _ _ fun ht => hm (h.apart hd hc ht)]
  exact fun hdeserted => h.kept hd (slot_remove_eq_deserted c.id hdeserted)

theorem take (h : t.Heeds waits) (hc : waits n = some c) {r : Reply}
    (hr : t.slot c.ticket = .filled r) :
    (t.take? c.ticket).2.Heeds (Function.update waits n none) := by
  refine ⟨h.toFits.take hc hr, fun hd => ?_⟩
  obtain ⟨hm, hd⟩ := update_none_eq_some.mp hd
  rw [slot_take?_ne _ _ fun ht => hm (h.apart hd hc ht)]
  exact h.kept hd

theorem close (h : t.Heeds waits) (reason : Closing) : (t.close reason).2.Heeds waits := by
  refine ⟨h.toFits.close reason, fun hd => ?_⟩
  rw [slot_close]
  split
  · exact Slot.noConfusion
  · exact h.kept hd

theorem complete (h : t.Heeds waits) (id : UInt64) (outcome : Outcome) :
    (t.complete id outcome).2.Heeds waits := by
  refine ⟨h.toFits.complete id outcome, fun hd => ?_⟩
  cases hf : t.find? id with
  | none =>
    rw [complete_of_find?_eq_none t id hf]
    exact h.kept hd
  | some o =>
    rw [t.slot_complete_of_find? id hf]
    split
    · exact Slot.noConfusion
    · exact h.kept hd

theorem enroll (h : t.Heeds waits) (hn : waits n = none) (hcl : t.closed = none)
    (hc : c.ticket = t.slots.length) :
    Heeds { (t.remove c.id).2 with
      owed := (t.remove c.id).2.owed ++ [c.owed]
      slots := (t.remove c.id).2.slots ++ [.empty] } (Function.update waits n (some c)) := by
  refine ⟨h.toFits.enroll hn hcl hc, fun {m d} hd => ?_⟩
  rw [slot_append_empty, length_slots_remove]
  split
  · exact Slot.noConfusion
  · rename_i hne
    by_cases hm : m = n
    · subst hm
      rw [Function.update_self] at hd
      cases hd
      exact absurd hc hne
    · rw [Function.update_of_ne hm] at hd
      exact fun hdeserted => h.kept hd (slot_remove_eq_deserted c.id hdeserted)

end Heeds
end Inflight

namespace Link

variable {l : Link} {waits : Nat → Option Call} {n : Nat} {c : Call}

theorem heeds_call (h : l.inflight.Heeds waits) (hn : waits n = none) (now timeout : Nat)
    (method : String) (params : Option Json) :
    (∃ c l', l.call now timeout method params = (.ok c, l') ∧
      l'.inflight.Heeds (Function.update waits n (some c))) ∨
    ∃ f l', l.call now timeout method params = (.error f, l') ∧ l'.inflight.Heeds waits := by
  have hnone : Function.update waits n none = waits := Function.update_eq_self_iff.mpr hn.symm
  obtain ⟨reason, hc⟩ | ht | ⟨hc, hw⟩ := l.call_cases
  · exact .inr ⟨_, _, l.call_of_closed now timeout method params hc, h⟩
  · refine .inl ⟨_, _, l.call_of_takes now timeout method params ht, ?_⟩
    let c := l.nextCall now timeout method
    exact Inflight.Heeds.enroll (c := c) h hn (l.takes_iff.mp ht).1 rfl
  · -- the entry made for the call is taken out at once
    refine .inr ⟨_, _, l.call_of_not_writing now timeout method params hc hw, ?_⟩
    let c := l.nextCall now timeout method
    have hin := Inflight.Heeds.enroll (c := c) h hn hc rfl
    have hout := hin.abandon (Function.update_self ..)
    rwa [Function.update_idem, hnone] at hout

theorem heeds_poll (h : l.inflight.Heeds waits) (hc : waits n = some c) (now : Nat) :
    (l.poll now c = (none, l) ∧ l.inflight.slot c.ticket = .empty ∧ now < c.deadline) ∨
    ∃ r l', l.poll now c = (some r, l') ∧ l'.inflight.Heeds (Function.update waits n none) := by
  cases hs : l.inflight.slot c.ticket with
  | filled r => exact .inr ⟨_, _, poll_of_filled hs, h.take hc hs⟩
  | spent => exact .inr ⟨_, _, poll_of_spent hs, h.abandon hc⟩
  | deserted => exact absurd hs (h.kept hc)
  | empty =>
    by_cases ht : now < c.deadline
    · exact .inl ⟨poll_of_early hs ht, rfl, ht⟩
    · refine .inr ⟨_, _, poll_of_late hs (Nat.le_of_not_lt ht), ?_⟩
      rw [inflight_notify]
      exact h.abandon hc

/-- On a closed link nobody waits in vain. -/
theorem slot_ne_empty_of_closed (h : l.inflight.Heeds waits) (hclosed : l.closing? ≠ none)
    (hc : waits n = some c) : l.inflight.slot c.ticket ≠ .empty := by
  intro hs
  have hmem := h.entered hc hs
  rw [h.closed hclosed] at hmem
  cases hmem

theorem heeds_closeWith (h : l.inflight.Heeds waits) (reason : Closing) :
    (l.closeWith reason).inflight.Heeds waits :=
  h.close reason

theorem heeds_close (h : l.inflight.Heeds waits) : l.close.inflight.Heeds waits := by
  refine heeds_closeWith ?_ .shutdown
  rwa [inflight_queue]

theorem heeds_readNext? (h : l.inflight.Heeds waits) {l' : Link} {p : Option Publication}
    (hr : l.readNext? = some (l', p)) : l'.inflight.Heeds waits := by
  obtain ⟨reason, rest, -, rfl⟩ | ⟨v, rest, -, rfl⟩ := readNext?_cases hr
  · exact h.close reason
  · rw [inflight_route]
    split
    · exact h.complete _ _
    · exact h

theorem heeds_writeNext? (h : l.inflight.Heeds waits) {l' : Link} {accepted : Bool}
    {what : Written} (hw : l.writeNext? accepted = some (what, l')) :
    l'.inflight.Heeds waits := by
  obtain ⟨n, writing, -, -, rfl⟩ | rfl := writeNext?_cases hw
  · exact h
  · exact h.close .exited

end Link

namespace Session

/-- The call that an operation at this stage waits for on the connection. -/
def Stage.call? (c : Nat) : Stage → Option Call
  | .handshaking d call | .asking d call | .stopping d call => if d = c then some call else none
  | .queued | .reading _ _ | .reaping _ _ | .killing _ | .done _ | .dropped => none

/-- The calls that operations wait for on the connection. -/
def waits (s : Session) (c j : Nat) : Option Call :=
  (s.stage? j).bind (Stage.call? c)

/-- On every connection, the table of requests heeds those who wait there. -/
def Heeded (s : Session) : Prop :=
  ∀ c k, s.connection? c = some k → k.link.inflight.Heeds (s.waits c)

/-- The same while the operation `i` is at work, and waits for `own` rather than as it did before. -/
structure HeededBut (i : Nat) (own : Nat → Option Call) (s : Session) : Prop where
  inRange : i < s.tasks.length
  heeds : ∀ {c k}, s.connection? c = some k →
    k.link.inflight.Heeds (Function.update (s.waits c) i (own c))

/-- The operation at work waits for nothing. -/
def Rests (i : Nat) (s : Session) : Prop :=
  HeededBut i (fun _ => none) s

/-- The operation at work waits for the reply to this call. -/
def Awaits (i c : Nat) (call : Call) (s : Session) : Prop :=
  HeededBut i (fun d => if c = d then some call else none) s

section Waits

variable {s s' : Session} {i c : Nat}

theorem waits_of_tasks (h : s'.tasks = s.tasks) (c : Nat) : s'.waits c = s.waits c := by
  funext j
  simp only [waits, stage?, h]

theorem waits_setStage (hi : i < s.tasks.length) (stage : Stage) (c : Nat) :
    (s.setStage i stage).waits c = Function.update (s.waits c) i (stage.call? c) := by
  funext j
  unfold waits
  rw [stage?_setStage]
  by_cases hj : j = i
  · subst hj
    simp [stage?, hi]
  · rw [if_neg hj, Function.update_of_ne hj]

theorem waits_added (s : Session) (w : Work) (c : Nat) : (s.added w).waits c = s.waits c := by
  funext j
  unfold waits
  rw [stage?_added]
  split
  · rename_i hj
    subst hj
    simp [stage?, Stage.call?]
  · rfl

end Waits

/-- Whoever is heeded on a connection of the one session is so in the other. -/
def Passes (s s' : Session) : Prop :=
  ∀ c k', s'.connection? c = some k' → ∃ k, s.connection? c = some k ∧
    ∀ waits, k.link.inflight.Heeds waits → k'.link.inflight.Heeds waits

section Passing

variable {s s' : Session} {c : Nat}

theorem passes_of_same (h : s'.connections = s.connections) : s.Passes s' := by
  intro d k hk
  exact ⟨k, by rwa [connection?, ← h], fun _ => id⟩

theorem passes_updateConnection {f : Connection → Connection}
    (hf : ∀ k, s.connection? c = some k → ∀ waits, k.link.inflight.Heeds waits →
      (f k).link.inflight.Heeds waits) : s.Passes (s.updateConnection c f) := by
  intro d k' hk'
  rw [connection?_updateConnection] at hk'
  split at hk'
  · rename_i hd
    obtain ⟨k, hk, rfl⟩ := Option.map_eq_some_iff.mp hk'
    exact ⟨k, hd ▸ hk, hf k hk⟩
  · exact ⟨k', hk', fun _ => id⟩

theorem passes_setLink {k : Connection} (hk : s.connection? c = some k) {l : Link}
    (hl : ∀ waits, k.link.inflight.Heeds waits → l.inflight.Heeds waits) :
    s.Passes (s.setLink c l) := by
  refine passes_updateConnection fun k' hk' => ?_
  obtain rfl : k = k' := Option.some.inj (hk.symm.trans hk')
  exact hl

theorem passes_notify (n : Notice) : s.Passes (s.notify c n).2 := by
  cases hk : s.connection? c with
  | none =>
    unfold Session.notify
    rw [hk]
    exact passes_of_same rfl
  | some k =>
    rw [notify_of_connection hk]
    exact passes_setLink hk fun waits hheeds => by rwa [Link.inflight_notify]

theorem passes_tell (documents : OpenDocuments) (n : Notice) :
    s.Passes ((s.updateConnection c fun k => { k with documents }).notify c n).2 := by
  intro d k' hk'
  rw [connection?_tell] at hk'
  split at hk'
  · rename_i hd
    obtain ⟨k, hk, rfl⟩ := Option.map_eq_some_iff.mp hk'
    exact ⟨k, hd ▸ hk, fun waits hheeds => by rwa [Link.inflight_notify]⟩
  · exact ⟨k', hk', fun _ => id⟩

theorem passes_tidy (s : Session) : s.Passes s.tidy := by
  intro d k' hk'
  rw [connection?_tidy] at hk'
  obtain ⟨k, hk, rfl⟩ := Option.map_eq_some_iff.mp hk'
  refine ⟨k, hk, fun waits hheeds => ?_⟩
  split
  · rwa [k.kept_reap.link]
  · unfold Connection.release
    split
    · exact hheeds
    · simpa [Link.release] using hheeds

end Passing

namespace HeededBut

variable {s s' : Session} {i c : Nat} {own own' : Nat → Option Call}

theorem of_passes (h : HeededBut i own s) (htasks : s'.tasks = s.tasks) (hs : s.Passes s') :
    HeededBut i own s' := by
  refine ⟨htasks ▸ h.inRange, fun {c k'} hk' => ?_⟩
  obtain ⟨k, hk, hheeds⟩ := hs c k' hk'
  rw [waits_of_tasks htasks]
  exact hheeds _ (h.heeds hk)

theorem setLink (h : HeededBut i own s) {k : Connection} (hk : s.connection? c = some k) {l : Link}
    (hl : l.inflight.Heeds (Function.update (s.waits c) i (own' c)))
    (hothers : ∀ d, d ≠ c → own' d = own d) : HeededBut i own' (s.setLink c l) := by
  refine ⟨h.inRange, fun {d k'} hk' => ?_⟩
  rw [waits_of_tasks (show (s.setLink c l).tasks = s.tasks from rfl)]
  by_cases hd : d = c
  · subst hd
    rw [Session.setLink, connection?_updateConnection, if_pos rfl, hk] at hk'
    cases hk'
    exact hl
  · rw [Session.setLink, connection?_updateConnection, if_neg hd] at hk'
    rw [hothers d hd]
    exact h.heeds hk'

theorem setStage (h : HeededBut i own s) {stage : Stage}
    (hstage : ∀ c, stage.call? c = own c) : (s.setStage i stage).Heeded := by
  intro c k hk
  rw [waits_setStage h.inRange, hstage]
  exact h.heeds hk

end HeededBut

theorem Heeded.but {s : Session} (h : s.Heeded) {i : Nat} {stage : Stage}
    (hi : s.stage? i = some stage) : HeededBut i (fun c => stage.call? c) s := by
  obtain ⟨t, ht, rfl⟩ := Option.map_eq_some_iff.mp hi
  refine ⟨(List.getElem?_eq_some_iff.mp ht).1, fun {c k} hk => ?_⟩
  have hsame : Function.update (s.waits c) i (t.stage.call? c) = s.waits c := by
    apply Function.update_eq_self_iff.mpr
    simp [waits, hi]
  rw [hsame]
  exact h c k hk

section Working

variable {s s' : Session} {m : Moment} {i c : Nat}

theorem Rests.setStage (h : Rests i s) {stage : Stage} (hstage : ∀ c, stage.call? c = none) :
    (s.setStage i stage).Heeded :=
  HeededBut.setStage h hstage

theorem Rests.finish (h : Rests i s) (r : Except Failure Answer) : (s.finish i r).Heeded :=
  h.setStage fun _ => rfl

theorem Rests.call (h : Rests i s) (timeout : Nat) (method : String) (params : Option Json) :
    (∃ call s', s.call m c timeout method params = (.ok call, s') ∧ Awaits i c call s') ∨
    ∃ f s', s.call m c timeout method params = (.error f, s') ∧ Rests i s' := by
  cases hk : s.connection? c with
  | none => exact .inr ⟨.crashed s.language, s, by simp only [Session.call, hk], h⟩
  | some k =>
    rw [call_of_connection hk]
    obtain ⟨call, l, hcall, hl⟩ | ⟨f, l, hcall, hl⟩ := Link.heeds_call (h.heeds hk)
      (Function.update_self ..) m.now timeout method params
    · rw [hcall]
      rw [Function.update_idem] at hl
      refine .inl ⟨call, _, rfl, HeededBut.setLink h hk (by rwa [if_pos rfl]) fun d hd => ?_⟩
      rw [if_neg hd.symm]
    · rw [hcall]
      exact .inr ⟨f, _, rfl, HeededBut.setLink h hk hl fun _ _ => rfl⟩

theorem Awaits.pollCall {call : Call} (h : Awaits i c call s) :
    s.pollCall m c call = (none, s) ∨
    ∃ reply s', s.pollCall m c call = (some reply, s') ∧ Rests i s' := by
  cases hk : s.connection? c with
  | none =>
    refine .inr ⟨.error (.crashed s.language), s, by simp only [Session.pollCall, hk], h.inRange,
      fun {d k} hd => ?_⟩
    have hne : c ≠ d := by
      rintro rfl
      rw [hk] at hd
      cases hd
    have hheeds := h.heeds hd
    rwa [if_neg hne] at hheeds
  | some k =>
    have hheeds := h.heeds hk
    rw [if_pos rfl] at hheeds
    rw [pollCall_of_connection hk]
    obtain ⟨hpoll, -⟩ | ⟨r, l, hpoll, hl⟩ :=
      Link.heeds_poll hheeds (Function.update_self ..) m.now
    · rw [hpoll, setLink_self hk]
      exact .inl rfl
    · rw [hpoll]
      rw [Function.update_idem] at hl
      refine .inr ⟨r, _, rfl, HeededBut.setLink h hk hl fun d hd => ?_⟩
      rw [if_neg hd.symm]

theorem Rests.passes (h : Rests i s) (hs : s.Passes s') (htasks : s'.tasks = s.tasks) :
    Rests i s' :=
  HeededBut.of_passes h htasks hs

theorem Rests.of_same (h : Rests i s) (htasks : s'.tasks = s.tasks)
    (hconnections : s'.connections = s.connections) : Rests i s' :=
  h.passes (passes_of_same hconnections) htasks

theorem Rests.updateConnection (h : Rests i s) {f : Connection → Connection}
    (hf : ∀ k, (f k).link = k.link) : Rests i (s.updateConnection c f) :=
  h.passes (passes_updateConnection fun k _ waits hheeds => by rwa [hf]) rfl

theorem Rests.notify (h : Rests i s) (n : Notice) : Rests i (s.notify c n).2 :=
  h.passes (passes_notify n) (tasks_notify s c n)

theorem Awaits.checkAsking {call : Call} (h : Awaits i c call s) (q : Query) :
    (s.checkAsking m i q c call).Heeded := by
  unfold Session.checkAsking
  obtain hpoll | ⟨reply, s', hpoll, hrests⟩ := h.pollCall (m := m)
  · rw [hpoll]
    exact HeededBut.setStage h fun _ => rfl
  · rw [hpoll]
    exact hrests.finish _

theorem Rests.ask (h : Rests i s) (path : Path) (q : Query) (uri : String) :
    (s.ask m i path q c uri).Heeded := by
  unfold Session.ask
  extract_lets k inside provided
  split
  · obtain ⟨call, s', hcall, hawaits⟩ | ⟨f, s', hcall, hrests⟩ :=
      h.call (m := m) (c := c) (seconds s.timeouts.request) q.method (some (q.params uri))
    · rw [hcall]
      exact hawaits.checkAsking q
    · rw [hcall]
      exact hrests.finish _
  · exact h.finish _

theorem Rests.openDocument (h : Rests i s) (path : Path) (uri text : String) :
    Rests i (s.openDocument c path uri text).2 := by
  unfold Session.openDocument
  cases s.connection? c with
  | none => exact h
  | some k =>
    have hdocuments (documents : OpenDocuments) :
        Rests i (s.updateConnection c fun k => { k with documents }) :=
      h.updateConnection fun _ => rfl
    exact (hdocuments _).notify _

theorem Rests.afterReading (h : Rests i s) (path : Path) (q : Query) (uri : String) :
    (s.afterReading m i path q c uri).Heeded := by
  unfold Session.afterReading
  split
  · exact h.finish _
  · rename_i bytes _
    have hopen := h.openDocument (c := c) path uri (String.ofList (Utf8.lossy bytes))
    split
    · exact h.ask path q uri
    · split
      · rename_i heq
        rw [heq] at hopen
        exact hopen.finish _
      · rename_i heq
        rw [heq] at hopen
        exact hopen.ask path q uri

theorem Rests.serve (h : Rests i s) (hwork : ∀ r, s.work? i ≠ some (.shutdown r)) :
    (s.serve m i c).Heeded := by
  unfold Session.serve
  split
  · split
    · exact h.finish _
    · rename_i path text _ _ uri _
      have hopen := h.openDocument (c := c) path uri text
      split
      · rename_i heq
        rw [heq] at hopen
        exact hopen.finish _
      · rename_i heq
        rw [heq] at hopen
        exact hopen.finish _
  · split
    · exact h.ask _ _ _
    · split
      · exact h.finish _
      · exact h.setStage fun _ => rfl
  · rename_i hopen hquery
    have hlt := h.inRange
    have hi : s.work? i = some s.tasks[i].work := by simp [work?, hlt]
    cases hw : s.tasks[i].work with
    | «open» path text => exact absurd (hw ▸ hi) (hopen path text)
    | query path q => exact absurd (hw ▸ hi) (hquery path q)
    | shutdown r => exact absurd (hw ▸ hi) (hwork r)

theorem Rests.close (h : Rests i s) {f : Connection → Connection}
    (hf : ∀ k, (f k).link = k.link.close) : Rests i (s.updateConnection c f) :=
  h.passes (passes_updateConnection fun k _ waits hheeds => by
    rw [hf]; exact Link.heeds_close hheeds) rfl

theorem Rests.failStart (h : Rests i s) (f : Failure) : (s.failStart i c f).Heeded := by
  have hclosed : Rests i (s.updateConnection c fun k =>
      { k with link := k.link.close, killed := k.killed || k.process != .absent }) :=
    h.close fun _ => rfl
  exact Rests.finish (hclosed.of_same rfl rfl) _

theorem Rests.establish (h : Rests i s) (hwork : ∀ r, s.work? i ≠ some (.shutdown r))
    (result : Json) : (s.establish m i c result).Heeded := by
  have hnotify := h.notify (c := c) ⟨"initialized", .ofFields []⟩
  have htasks := tasks_notify s c ⟨"initialized", .ofFields []⟩
  unfold Session.establish
  split
  · rename_i heq
    rw [heq] at hnotify
    exact hnotify.failStart _
  · rename_i s' heq
    rw [heq] at hnotify htasks
    have hready : Rests i (s'.updateConnection c fun k =>
        { k with abilities := Abilities.ofHandshake result, established := true }) :=
      hnotify.updateConnection fun _ => rfl
    refine Rests.serve (hready.of_same rfl rfl) fun r hr => hwork r ?_
    exact (work?_of_tasks htasks i).symm.trans hr

theorem Awaits.checkHandshake {call : Call} (h : Awaits i c call s)
    (hwork : ∀ r, s.work? i ≠ some (.shutdown r)) : (s.checkHandshake m i c call).Heeded := by
  have htasks := tasks_pollCall s m c call
  unfold Session.checkHandshake
  obtain hpoll | ⟨reply, s', hpoll, hrests⟩ := h.pollCall (m := m)
  · rw [hpoll]
    exact HeededBut.setStage h fun _ => rfl
  · rw [hpoll] at htasks ⊢
    cases reply with
    | error f => exact hrests.failStart f
    | ok result =>
      exact hrests.establish (fun r hr => hwork r ((work?_of_tasks htasks i).symm.trans hr)) result

theorem Rests.launched (h : Rests i s) (hnew : ∀ j, s.waits s.connections.length j = none)
    (m : Moment) (hasProcess : Bool) :
    Awaits i s.connections.length (s.handshakeCall m) (s.launched hasProcess) := by
  refine ⟨h.inRange, fun {d k} hk => ?_⟩
  rw [waits_of_tasks (show (s.launched hasProcess).tasks = s.tasks from rfl)]
  obtain hk | ⟨rfl, rfl⟩ := Conversation.getElem?_append_one hk
  · have hne : s.connections.length ≠ d := Nat.ne_of_gt (List.getElem?_eq_some_iff.mp hk).1
    rw [if_neg hne]
    exact h.heeds hk
  · have hnone : s.waits s.connections.length = fun _ => none := funext hnew
    rw [if_pos rfl, hnone]
    have hstart : (Link.start s.language).inflight.Heeds (fun _ => none) := by
      constructor
      case kept => simp
      case toFits => constructor <;> simp [Link.start]
    obtain ⟨call, l, hcall, hl⟩ | ⟨f, l, hcall, -⟩ := Link.heeds_call (n := i) hstart rfl m.now
      (seconds s.timeouts.handshake) "initialize"
      (some (Params.handshake s.processId s.rootUri))
    · rw [call_start s m hasProcess] at hcall
      cases hcall
      exact hl
    · rw [call_start s m hasProcess] at hcall
      cases hcall

theorem Rests.start (h : Rests i s) (hnew : ∀ j, s.waits s.connections.length j = none)
    (hwork : ∀ r, s.work? i ≠ some (.shutdown r)) : (s.start m i).Heeded := by
  cases hl : m.launch with
  | error f =>
    rw [start_of_error hl]
    exact Rests.finish (h.of_same rfl rfl) _
  | ok hasProcess =>
    rw [start_of_ok hl]
    exact (h.launched hnew m hasProcess).checkHandshake hwork

theorem Rests.finishShutdown (h : Rests i s) (r : Bool) : (s.finishShutdown i r).Heeded :=
  Rests.finish (h.of_same rfl rfl) _

theorem Rests.checkKilling (h : Rests i s) (r : Bool) : (s.checkKilling m i r c).Heeded := by
  unfold Session.checkKilling
  split
  · exact h.finishShutdown r
  · exact h.setStage fun _ => rfl

theorem Rests.checkReaping (h : Rests i s) (r : Bool) (deadline : Nat) :
    (s.checkReaping m i r c deadline).Heeded := by
  unfold Session.checkReaping
  split
  · exact h.finishShutdown r
  · split
    · exact h.setStage fun _ => rfl
    · have hkilled : Rests i (s.updateConnection c fun k => { k with killed := true }) :=
        h.updateConnection fun _ => rfl
      exact hkilled.checkKilling r

theorem Rests.closeUp (h : Rests i s) (r : Bool) : (s.closeUp m i r c).Heeded := by
  have hclosed : Rests i (s.updateConnection c fun k => { k with link := k.link.close }) :=
    h.close fun _ => rfl
  unfold Session.closeUp
  extract_lets closed
  split
  · have htaken : Rests i (closed.updateConnection c fun k => { k with process := .taken }) :=
      hclosed.updateConnection fun _ => rfl
    exact htaken.checkReaping r _
  · exact hclosed.finishShutdown r

theorem Awaits.checkStopping {call : Call} (h : Awaits i c call s) (r : Bool) :
    (s.checkStopping m i r c call).Heeded := by
  unfold Session.checkStopping
  obtain hpoll | ⟨reply, s', hpoll, hrests⟩ := h.pollCall (m := m)
  · rw [hpoll]
    exact HeededBut.setStage h fun _ => rfl
  · rw [hpoll]
    cases reply with
    | error f => exact hrests.closeUp r
    | ok v =>
      cases hk : s'.connection? c with
      | none =>
        simp only [hk, Option.map_none]
        exact hrests.closeUp r
      | some k =>
        simp only [hk, Option.map_some]
        have hexit : Rests i (s'.setLink c (k.link.notify "exit" none).2) := by
          refine HeededBut.setLink hrests hk ?_ fun _ _ => rfl
          rw [Link.inflight_notify]
          exact hrests.heeds hk
        exact hexit.closeUp r

theorem Rests.stop (h : Rests i s) (r : Bool) : (s.stop m i r).Heeded := by
  unfold Session.stop
  extract_lets before stopping
  have hstopping : Rests i stopping := h.of_same rfl rfl
  clear_value before
  split
  · rename_i c
    split
    · exact hstopping.closeUp r
    · obtain ⟨call, s', hcall, hawaits⟩ | ⟨f, s', hcall, hrests⟩ := hstopping.call (m := m) (c := c)
        (seconds stopping.timeouts.shutdown) "shutdown" none
      · rw [hcall]
        exact hawaits.checkStopping r
      · rw [hcall]
        exact hrests.closeUp r
  · exact hstopping.finishShutdown r

theorem tasks_live? (s : Session) : s.live?.2.tasks = s.tasks := by
  unfold live?
  split
  · split <;> rfl
  · rfl

theorem connections_live? (s : Session) : s.live?.2.connections = s.connections := by
  unfold live?
  split
  · split <;> rfl
  · rfl

theorem Rests.takeTurn (h : Rests i s) (hnew : ∀ j, s.waits s.connections.length j = none) :
    (s.takeTurn m i).Heeded := by
  have htasks := s.tasks_live?
  have hconnections := s.connections_live?
  unfold Session.takeTurn
  split
  · exact h.stop _
  · rename_i work
    split
    · rename_i c s' heq
      rw [heq] at htasks hconnections
      exact Rests.serve (h.of_same htasks hconnections) fun r hr =>
        work r ((work?_of_tasks htasks i).symm.trans hr)
    · rename_i s' heq
      rw [heq] at htasks hconnections
      refine Rests.start (h.of_same htasks hconnections) (fun j => ?_) fun r hr =>
        work r ((work?_of_tasks htasks i).symm.trans hr)
      rw [waits_of_tasks htasks, show s'.connections.length = s.connections.length by
        rw [hconnections]]
      exact hnew j

end Working

theorem Gated.waits_new {s : Session} (hg : s.Gated) (j : Nat) :
    s.waits s.connections.length j = none := by
  unfold Session.waits
  cases hj : s.stage? j with
  | none => rfl
  | some stage =>
    by_contra hcall
    have hc : stage.connection? = some s.connections.length := by
      cases stage <;> simp_all [Stage.call?, Stage.connection?]
    obtain ⟨k, hk, -⟩ := hg.held hj hc
    simp [connection?] at hk

namespace Heeded

variable {s s' : Session} {m : Moment} {i c : Nat}

theorem rests (h : s.Heeded) {stage : Stage} (hi : s.stage? i = some stage)
    (hstage : ∀ c, stage.call? c = none) : Rests i s := by
  have hbut := h.but hi
  rwa [show (fun c => stage.call? c) = fun _ => none from funext hstage] at hbut

theorem passes (h : s.Heeded) (hs : s.Passes s') (htasks : s'.tasks = s.tasks) : s'.Heeded := by
  intro c k' hk'
  obtain ⟨k, hk, hheeds⟩ := hs c k' hk'
  rw [waits_of_tasks htasks]
  exact hheeds _ (h c k hk)

theorem of_same (h : s.Heeded) (htasks : s'.tasks = s.tasks)
    (hconnections : s'.connections = s.connections) : s'.Heeded :=
  h.passes (passes_of_same hconnections) htasks

theorem tidy (h : s.Heeded) : s.tidy.Heeded :=
  h.passes s.passes_tidy rfl

theorem added (h : s.Heeded) (w : Work) : (s.added w).Heeded := by
  intro c k hk
  rw [waits_added]
  exact h c k hk

theorem stretch (h : s.Heeded) (hg : s.Gated) : (s.stretch m i).Heeded := by
  unfold Session.stretch
  cases ht : s.tasks[i]? with
  | none => exact h
  | some t =>
    have hi : s.stage? i = some t.stage := by simp [stage?, ht]
    simp only
    split
    · rename_i hstage
      rw [hstage] at hi
      split
      · exact (h.rests hi fun _ => rfl).takeTurn hg.waits_new
      · exact h
    · rename_i c call hstage
      rw [hstage] at hi
      exact Awaits.checkHandshake (h.but hi) (hg.starting hi rfl).2
    · rename_i c uri path q hstage _
      rw [hstage] at hi
      exact (h.rests hi fun _ => rfl).afterReading path q uri
    · rename_i c call _ q hstage _
      rw [hstage] at hi
      exact Awaits.checkAsking (h.but hi) q
    · rename_i c call r hstage _
      rw [hstage] at hi
      exact Awaits.checkStopping (h.but hi) r
    · rename_i c deadline r hstage _
      rw [hstage] at hi
      exact (h.rests hi fun _ => rfl).checkReaping r deadline
    · rename_i c r hstage _
      rw [hstage] at hi
      exact (h.rests hi fun _ => rfl).checkKilling r
    · exact h

theorem enterGate (h : s.Heeded) (hi : s.stage? i = some .queued)
    (hnew : ∀ j, s.waits s.connections.length j = none) : (s.enterGate m i).Heeded := by
  unfold Session.enterGate
  extract_lets free queued
  have hqueued : queued.Heeded := h.of_same rfl rfl
  split
  · exact (hqueued.rests (i := i) hi fun _ => rfl).takeTurn hnew
  · exact hqueued

theorem begin (h : s.Heeded) (hg : s.Gated) (w : Work) : (s.begin m w).Heeded := by
  have hadded := h.added w
  have hi := s.stage?_added_self w
  have hrests : Rests s.tasks.length (s.added w) := hadded.rests hi fun _ => rfl
  have hnew (j : Nat) : (s.added w).waits s.connections.length j = none := by
    rw [waits_added]
    exact hg.waits_new j
  have htasks := (s.added w).tasks_live?
  have hconnections := (s.added w).connections_live?
  -- a connection that serves is used at once; without one the newcomer goes to the gate
  have hserves {c : Nat} {s₁ : Session} (heq : (s.added w).live? = (some c, s₁))
      (hwork : ∀ r, w ≠ .shutdown r) : (s₁.serve m s.tasks.length c).Heeded := by
    rw [heq] at htasks hconnections
    refine Rests.serve (hrests.of_same htasks hconnections) fun r hr => hwork r ?_
    rw [work?_of_tasks htasks, work?_added_self] at hr
    exact Option.some.inj hr
  have henters {s₁ : Session} (heq : (s.added w).live? = (none, s₁)) :
      (s₁.enterGate m s.tasks.length).Heeded := by
    rw [heq] at htasks hconnections
    have hlength : s₁.connections.length = s.connections.length := by rw [hconnections]; rfl
    refine enterGate (hadded.of_same htasks hconnections) ((stage?_of_tasks htasks _).trans hi)
      fun j => ?_
    rw [waits_of_tasks htasks, hlength]
    exact hnew j
  unfold Session.begin
  extract_lets i added' done
  refine Heeded.tidy ?_
  cases w with
  | shutdown r => exact hadded.enterGate hi hnew
  | «open» path text =>
    simp only [done]
    split
    · exact hrests.finish _
    · split
      · rename_i heq
        exact hserves heq fun _ => Work.noConfusion
      · rename_i heq
        exact henters heq
  | query path q =>
    simp only [done]
    split
    · rename_i heq
      exact hserves heq fun _ => Work.noConfusion
    · rename_i heq
      exact henters heq

theorem cancel (h : s.Heeded) : (s.cancel i).Heeded := by
  have habandon {c : Nat} {call : Call} (hawaits : Awaits i c call s) :
      Rests i (s.abandonCall c call) := by
    refine ⟨hawaits.inRange, fun {d k} hk => ?_⟩
    have htasks : (s.abandonCall c call).tasks = s.tasks := rfl
    rw [waits_of_tasks htasks]
    rw [abandonCall, connection?_updateConnection] at hk
    split at hk
    · rename_i hd
      subst hd
      obtain ⟨k₀, hk₀, rfl⟩ := Option.map_eq_some_iff.mp hk
      have hheeds := hawaits.heeds hk₀
      rw [if_pos rfl] at hheeds
      have hleft := hheeds.abandon (Function.update_self ..)
      rwa [Function.update_idem] at hleft
    · rename_i hd
      have hheeds := hawaits.heeds hk
      rwa [if_neg (Ne.symm hd)] at hheeds
  unfold Session.cancel
  split
  · exact h
  · exact h
  · exact h
  · rename_i stage _ _ hi
    extract_lets left
    have hleft : Rests i left := by
      simp only [left]
      split
      · exact habandon (h.but hi)
      · exact habandon (h.but hi)
      · exact habandon (h.but hi)
      · exact (h.rests hi fun _ => rfl).updateConnection fun _ => rfl
      · rename_i hnot₁ hnot₂ hnot₃ hnot₄
        refine h.rests hi fun c => ?_
        cases stage with
        | handshaking d call => exact absurd rfl (hnot₁ d call)
        | asking d call => exact absurd rfl (hnot₂ d call)
        | stopping d call => exact absurd rfl (hnot₃ d call)
        | _ => rfl
    have hdropped : (left.setStage i .dropped).Heeded := hleft.setStage fun _ => rfl
    have hgone : ((left.setStage i .dropped).leaveGate i).Heeded := hdropped.of_same rfl rfl
    exact hgone.tidy

theorem change (h : s.Heeded) (path : Path) (text : String) :
    (s.change path text).2.Heeded := by
  have hlive : s.live?.2.Heeded := h.of_same s.tasks_live? s.connections_live?
  unfold Session.change
  cases hl : s.live? with
  | mk c? s' =>
    rw [hl] at hlive
    cases c? with
    | none => exact hlive.tidy
    | some c =>
      cases hchange : (s'.connection? c).bind (·.documents.change? path text) with
      | none =>
        simp only [hchange]
        exact hlive.tidy
      | some told =>
        obtain ⟨notice, documents⟩ := told
        simp only [hchange]
        exact (hlive.passes (passes_tell documents notice) (tasks_notify ..)).tidy

theorem close (h : s.Heeded) (path : Path) : (s.close path).Heeded := by
  have hlive : s.live?.2.Heeded := h.of_same s.tasks_live? s.connections_live?
  unfold Session.close
  refine Heeded.tidy ?_
  split
  · rename_i heq
    rw [heq] at hlive
    exact hlive
  · rename_i c s' heq
    rw [heq] at hlive
    split
    · exact hlive
    · rename_i notice documents _
      exact hlive.passes (passes_tell documents notice) (tasks_notify ..)

theorem setLink (h : s.Heeded) {k : Connection} (hk : s.connection? c = some k) {l : Link}
    (hl : ∀ waits, k.link.inflight.Heeds waits → l.inflight.Heeds waits) :
    (s.setLink c l).Heeded :=
  h.passes (passes_setLink hk hl) rfl

theorem step (h : s.Heeded) (hg : s.Gated) (e : Event) : (s.step e).Heeded := by
  cases e with
  | begin m w => exact h.begin hg w
  | resume m i => exact (h.stretch hg).tidy
  | cancel i => exact h.cancel
  | change path text => exact h.change path text
  | close path => exact h.close path
  | read c =>
    obtain ⟨heq, -⟩ | ⟨k, l, p, hk, hread, heq⟩ := s.step_read_cases c
    · rw [heq]
      exact h
    · rw [heq]
      exact (h.setLink hk fun _ hheeds => Link.heeds_readNext? hheeds hread).tidy
  | write c accepted =>
    obtain ⟨heq, -⟩ | ⟨k, what, l, hk, hwrite, heq⟩ := s.step_write_cases c accepted
    · rw [heq]
      exact h
    · rw [heq]
      exact h.setLink hk fun _ hheeds => Link.heeds_writeNext? hheeds hwrite
  | receive c bs => exact h.passes (passes_updateConnection fun _ _ _ => id) rfl
  | endInput c => exact h.passes (passes_updateConnection fun _ _ _ => id) rfl
  | tidy => exact h.tidy

theorem new (language : String) (server : Setup.Server) (timeouts : Setup.Timeouts)
    (processId : Nat) (rootUri : String) :
    (new language server timeouts processId rootUri).Heeded := by
  intro c k hk
  cases hk

theorem run (h : s.Heeded) (hg : s.Gated) (es : List Event) : (s.run es).Heeded := by
  induction es using List.reverseRecOn with
  | nil => exact h
  | append_singleton es e ih =>
    rw [run_append_one]
    exact ih.step (hg.run es) e

end Heeded

end Session
end LanguageClient
