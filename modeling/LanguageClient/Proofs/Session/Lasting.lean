import LanguageClient.Proofs.Session.Callers
import LanguageClient.Proofs.Session.Ordering
import LanguageClient.Proofs.Session.Stages

namespace LanguageClient

theorem Link.call_eq_ok {l l' : Link} {now timeout : Nat} {method : String}
    {params : Option Json} {c : Call} (h : l.call now timeout method params = (.ok c, l')) :
    l.takes = true ∧ c = l.nextCall now timeout method := by
  obtain ⟨reason, hclosed⟩ | htakes | ⟨hopen, hwriting⟩ := l.call_cases
  · rw [l.call_of_closed now timeout method params hclosed] at h
    cases h
  · rw [l.call_of_takes now timeout method params htakes] at h
    cases h
    exact ⟨htakes, rfl⟩
  · rw [l.call_of_not_writing now timeout method params hopen hwriting] at h
    cases h

/-- All that is done to a link. Only calls that are `Free` are looked after or given up. -/
inductive Link.Handled (Free : Call → Prop) (l : Link) : Link → Prop
  | notify (method : String) (params : Option Json) : Handled Free l (l.notify method params).2
  | call (now timeout : Nat) (method : String) (params : Option Json) :
      Handled Free l (l.call now timeout method params).2
  | poll (now : Nat) {c : Call} (free : Free c) : Handled Free l (l.poll now c).2
  | abandon {c : Call} (free : Free c) : Handled Free l (l.abandon c)
  | close : Handled Free l l.close
  | release : Handled Free l l.release
  | read {l' : Link} {p : Option Publication} (read : l.readNext? = some (l', p)) :
      Handled Free l l'
  | write {l' : Link} {accepted : Bool} {what : Link.Written}
      (write : l.writeNext? accepted = some (what, l')) : Handled Free l l'
  | receive (bs : Bytes) : Handled Free l (l.receive bs)
  | endInput : Handled Free l l.endInput

namespace Link.Handled

variable {l l' : Link}

theorem language {Free : Call → Prop} (hl : l.Handled Free l') : l'.language = l.language := by
  cases hl with
  | notify => exact (l.used_notify _ _).language
  | call => exact (l.used_call _ _ _ _).language
  | poll => exact (l.used_poll _ _).language
  | abandon => exact (l.used_abandon _).language
  | close =>
    show ((l.queue .finish).inflight.close .shutdown).2.language = _
    rw [Inflight.language_close, inflight_queue]
    rfl
  | release => exact congrArg Inflight.language (l.inflight_queue .finish)
  | read read =>
    obtain ⟨reason, rest, -, rfl⟩ | ⟨v, rest, -, rfl⟩ := readNext?_cases read
    · exact Inflight.language_close _ _
    · exact language_route _ v
  | write write =>
    obtain ⟨n, writing, -, -, rfl⟩ | rfl := writeNext?_cases write
    · rfl
    · exact Inflight.language_close _ _
  | receive | endInput => rfl

theorem slot_of_filled {ticket : Nat} {r : Reply} (hl : l.Handled (·.ticket ≠ ticket) l')
    (h : l.inflight.slot ticket = .filled r) : l'.inflight.slot ticket = .filled r := by
  -- a caller gives up no slot but its own
  have habandon {call : Call} (hne : call.ticket ≠ ticket) :
      (l.abandon call).inflight.slot ticket = .filled r :=
    (Inflight.slot_desert_ne _ _ hne.symm).trans (Inflight.slot_remove_of_filled _ _ h)
  cases hl with
  | notify => rwa [inflight_notify]
  | call => exact slot_call_of_filled h ..
  | @poll now call free =>
    cases hs : l.inflight.slot call.ticket with
    | filled =>
      rw [poll_of_filled hs]
      exact (Inflight.slot_take?_ne _ _ free.symm).trans h
    | spent =>
      rw [poll_of_spent hs]
      exact habandon free
    | deserted => rwa [poll_of_deserted hs]
    | empty =>
      by_cases ht : now < call.deadline
      · rwa [poll_of_early hs ht]
      · rw [poll_of_late hs (Nat.le_of_not_lt ht), inflight_notify]
        exact habandon free
  | abandon free => exact habandon free
  | close =>
    refine Inflight.slot_close_of_filled _ ?_ _
    rwa [inflight_queue]
  | release =>
    show (l.queue .finish).inflight.slot ticket = _
    rwa [inflight_queue]
  | read read =>
    obtain ⟨reason, rest, -, rfl⟩ | ⟨v, rest, -, rfl⟩ := readNext?_cases read
    · exact Inflight.slot_close_of_filled _ h _
    · rw [inflight_route]
      split
      · exact Inflight.slot_complete_of_filled _ _ h _
      · exact h
  | write write =>
    obtain ⟨n, writing, -, -, rfl⟩ | rfl := writeNext?_cases write
    · exact h
    · exact Inflight.slot_close_of_filled _ h _
  | receive | endInput => exact h

end Link.Handled

namespace Session

theorem exists_link_of_call {s s' : Session} {m : Moment} {c timeout : Nat} {method : String}
    {params : Option Json} {call : Call}
    (hcall : s.call m c timeout method params = (.ok call, s')) :
    ∃ k, s.connection? c = some k ∧ k.link.takes = true ∧
      call = k.link.nextCall m.now timeout method ∧
      s' = s.setLink c (k.link.call m.now timeout method params).2 := by
  cases hk : s.connection? c with
  | none =>
    unfold Session.call at hcall
    rw [hk] at hcall
    cases hcall
  | some k =>
    rw [call_of_connection hk] at hcall
    obtain ⟨hresult, rfl⟩ := Prod.mk.inj hcall
    obtain ⟨htakes, hnext⟩ := Link.call_eq_ok (Prod.ext hresult rfl)
    exact ⟨k, rfl, htakes, hnext, rfl⟩

/-- A property of a connection that nothing ends but, perhaps, a caller that is not `Free`, or the
server's answer to the handshake. -/
structure Lasting (P : Connection → Prop) (Free : Call → Prop) : Prop where
  link : ∀ {k l}, P k → k.link.Handled Free l → P { k with link := l }
  rest : ∀ {k k'}, P k → k'.link = k.link → k'.abilities = k.abilities →
    k'.established = k.established → P k'
  fresh : ∀ {k now timeout method params call l}, P k →
    k.link.call now timeout method params = (.ok call, l) → Free call

/-- The property outlasts the server's answer to the handshake. -/
def Outlasts (P : Connection → Prop) : Prop :=
  ∀ k result, P k → P { k with abilities := Abilities.ofHandshake result, established := true }

/-- The connection of this number, if it is there, is such. -/
def Has (s : Session) (c : Nat) (P : Connection → Prop) : Prop :=
  ∀ k, s.connection? c = some k → P k

/-- If the connection is the next one to come, it is such from the start, and its server's answer
changes nothing. -/
def Innate (s : Session) (c : Nat) (P : Connection → Prop) (Free : Call → Prop) : Prop :=
  s.connections.length = c →
    (∀ hasProcess, P (s.greeted hasProcess)) ∧ (∀ call, Free call) ∧ Outlasts P

variable {P : Connection → Prop} {Free : Call → Prop} {s s' : Session} {m : Moment} {i c d : Nat}

section Connections

theorem Has.of_connections (h : s.Has c P) (heq : s'.connections = s.connections) :
    s'.Has c P := by
  intro k hk
  exact h k (by rwa [connection?, ← heq])

theorem Has.updateConnection (h : s.Has c P) {f : Connection → Connection}
    (hf : d = c → ∀ k, s.connection? c = some k → P k → P (f k)) :
    (s.updateConnection d f).Has c P := by
  intro k' hk'
  rw [connection?_updateConnection] at hk'
  split at hk'
  · rename_i heq
    subst heq
    obtain ⟨k, hk, rfl⟩ := Option.map_eq_some_iff.mp hk'
    exact hf rfl k hk (h k hk)
  · exact h k' hk'

theorem Has.checkKilling (h : s.Has c P) (r : Bool) : (s.checkKilling m i r d).Has c P := by
  unfold Session.checkKilling
  split <;> exact h

end Connections

namespace Lasting

section Links

variable (hP : Lasting P Free) (h : s.Has c P)
include hP h

theorem setLink {k : Connection} (hk : s.connection? d = some k) {l : Link}
    (hl : d = c → k.link.Handled Free l) : (s.setLink d l).Has c P := by
  refine h.updateConnection fun heq k' hk' hk'P => ?_
  subst heq
  obtain rfl : k = k' := Option.some.inj (hk.symm.trans hk')
  exact hP.link hk'P (hl rfl)

theorem update {f : Connection → Connection} (hlink : ∀ k, (f k).link = k.link)
    (habilities : ∀ k, (f k).abilities = k.abilities)
    (hestablished : ∀ k, (f k).established = k.established) :
    (s.updateConnection d f).Has c P :=
  h.updateConnection fun _ k _ hk => hP.rest hk (hlink k) (habilities k) (hestablished k)

theorem updateLink {f : Connection → Connection}
    (hlink : ∀ k : Connection, d = c → k.link.Handled Free (f k).link)
    (habilities : ∀ k, (f k).abilities = k.abilities)
    (hestablished : ∀ k, (f k).established = k.established) :
    (s.updateConnection d f).Has c P :=
  h.updateConnection fun heq k _ hk =>
    hP.rest (hP.link hk (hlink k heq)) rfl (habilities k) (hestablished k)

theorem tidy : s.tidy.Has c P := by
  intro k' hk'
  rw [connection?_tidy] at hk'
  obtain ⟨k, hk, rfl⟩ := Option.map_eq_some_iff.mp hk'
  have hkP := h k hk
  have hreaped : P k.reap := by
    unfold Connection.reap
    split
    · exact hkP
    · exact hkP
    · split
      · exact hP.rest hkP rfl rfl rfl
      · exact hkP
  have hreleased : P k.release := by
    unfold Connection.release
    split
    · exact hkP
    · exact hP.rest (hP.link hkP .release) rfl rfl rfl
  split
  · exact hreaped
  · exact hreleased

theorem notify (n : Notice) : (s.notify d n).2.Has c P := by
  unfold Session.notify
  split
  · exact h
  · rename_i k hk
    exact hP.setLink h hk fun _ => .notify _ _

theorem call (timeout : Nat) (method : String) (params : Option Json) :
    (s.call m d timeout method params).2.Has c P := by
  unfold Session.call
  split
  · exact h
  · rename_i k hk
    exact hP.setLink h hk fun _ => .call _ _ _ _

theorem free_of_call {timeout : Nat} {method : String} {params : Option Json} {call : Call}
    (hcall : (s.call m d timeout method params).1 = .ok call) (heq : d = c) : Free call := by
  subst heq
  cases hk : s.connection? d with
  | none =>
    unfold Session.call at hcall
    rw [hk] at hcall
    cases hcall
  | some k =>
    rw [call_of_connection hk] at hcall
    exact hP.fresh (h k hk) (Prod.ext hcall rfl)

theorem pollCall {call : Call} (hfree : d = c → Free call) : (s.pollCall m d call).2.Has c P := by
  unfold Session.pollCall
  split
  · exact h
  · rename_i k hk
    exact hP.setLink h hk fun heq => .poll _ (hfree heq)

theorem abandonCall {call : Call} (hfree : d = c → Free call) : (s.abandonCall d call).Has c P :=
  hP.updateLink h (fun _ heq => .abandon (hfree heq)) (fun _ => rfl) fun _ => rfl

theorem tell (documents : OpenDocuments) (n : Notice) :
    ((s.updateConnection d fun k => { k with documents }).notify d n).2.Has c P :=
  hP.notify (hP.update (f := fun k => { k with documents }) h (fun _ => rfl) (fun _ => rfl)
    fun _ => rfl) n

theorem openDocument (path : Path) (uri text : String) :
    (s.openDocument d path uri text).2.Has c P := by
  unfold Session.openDocument
  split
  · exact h
  · exact hP.tell h _ _

end Links

section Serving

variable (hP : Lasting P Free)
include hP

theorem checkAsking (h : s.Has c P) (q : Query) {call : Call} (hfree : d = c → Free call) :
    (s.checkAsking m i q d call).Has c P := by
  have hpoll := hP.pollCall (m := m) h hfree
  unfold Session.checkAsking
  split
  · rename_i heq
    rwa [heq] at hpoll
  · rename_i heq
    rwa [heq] at hpoll

theorem ask (h : s.Has c P) (path : Path) (q : Query) (uri : String) :
    (s.ask m i path q d uri).Has c P := by
  have hcall := hP.call (m := m) (d := d) h (seconds s.timeouts.request) q.method
    (some (q.params uri))
  unfold Session.ask
  extract_lets k inside provided
  split
  · split
    · rename_i heq
      rwa [heq] at hcall
    · rename_i call s₁ heq
      have hfree : d = c → Free call := hP.free_of_call h (by rw [heq])
      rw [heq] at hcall
      exact hP.checkAsking hcall q hfree
  · exact h

theorem afterReading (h : s.Has c P) (path : Path) (q : Query) (uri : String) :
    (s.afterReading m i path q d uri).Has c P := by
  unfold Session.afterReading
  split
  · exact h
  · rename_i bytes _
    have hopen := hP.openDocument (d := d) h path uri (String.ofList (Utf8.lossy bytes))
    split
    · exact hP.ask h path q uri
    · split
      · rename_i heq
        rwa [heq] at hopen
      · rename_i heq
        rw [heq] at hopen
        exact hP.ask hopen path q uri

theorem serve (h : s.Has c P) : (s.serve m i d).Has c P := by
  unfold Session.serve
  split
  · split
    · exact h
    · rename_i path text _ _ uri _
      have hopen := hP.openDocument (d := d) h path uri text
      split
      · rename_i heq
        rwa [heq] at hopen
      · rename_i heq
        rwa [heq] at hopen
  · split
    · exact hP.ask h _ _ _
    · split <;> exact h
  · exact h

end Serving

section Starting

variable (hP : Lasting P Free)
include hP

theorem failStart (h : s.Has c P) (f : Failure) : (s.failStart i d f).Has c P := by
  have hclosed : (s.updateConnection d fun k =>
      { k with link := k.link.close, killed := k.killed || k.process != .absent }).Has c P :=
    hP.updateLink h (fun _ _ => .close) (fun _ => rfl) fun _ => rfl
  exact hclosed

theorem establish (h : s.Has c P) (houtlasts : d = c → Outlasts P) (result : Json) :
    (s.establish m i d result).Has c P := by
  have hnotify := hP.notify (d := d) h ⟨"initialized", .ofFields []⟩
  unfold Session.establish
  split
  · rename_i heq
    rw [heq] at hnotify
    exact hP.failStart hnotify _
  · rename_i s₁ heq
    rw [heq] at hnotify
    have hready : (s₁.updateConnection d fun k =>
        { k with abilities := Abilities.ofHandshake result, established := true }).Has c P :=
      hnotify.updateConnection fun heq k _ hk => houtlasts heq k result hk
    exact hP.serve hready

theorem checkHandshake (h : s.Has c P) {call : Call} (hfree : d = c → Free call)
    (houtlasts : d = c → Outlasts P) : (s.checkHandshake m i d call).Has c P := by
  have hpoll := hP.pollCall (m := m) h hfree
  unfold Session.checkHandshake
  split
  · rename_i heq
    rwa [heq] at hpoll
  · rename_i heq
    rw [heq] at hpoll
    exact hP.failStart hpoll _
  · rename_i heq
    rw [heq] at hpoll
    exact hP.establish hpoll houtlasts _

theorem start (h : s.Has c P) (hnew : s.Innate c P Free) : (s.start m i).Has c P := by
  cases hl : m.launch with
  | error f =>
    rw [start_of_error hl]
    exact h
  | ok hasProcess =>
    have hlaunched : (s.launched hasProcess).Has c P := by
      intro k hk
      obtain hk | ⟨rfl, rfl⟩ := Conversation.getElem?_append_one hk
      · exact h k hk
      · exact (hnew rfl).1 hasProcess
    rw [start_of_ok hl]
    exact hP.checkHandshake hlaunched (fun heq => (hnew heq).2.1 _) fun heq => (hnew heq).2.2

end Starting

section Stopping

variable (hP : Lasting P Free)
include hP

theorem checkReaping (h : s.Has c P) (r : Bool) (deadline : Nat) :
    (s.checkReaping m i r d deadline).Has c P := by
  unfold Session.checkReaping
  split
  · exact h
  · split
    · exact h
    · have hkilled : (s.updateConnection d fun k => { k with killed := true }).Has c P :=
        hP.update h (fun _ => rfl) (fun _ => rfl) fun _ => rfl
      exact hkilled.checkKilling r

theorem closeUp (h : s.Has c P) (r : Bool) : (s.closeUp m i r d).Has c P := by
  have hclosed : (s.updateConnection d fun k => { k with link := k.link.close }).Has c P :=
    hP.updateLink h (fun _ _ => .close) (fun _ => rfl) fun _ => rfl
  unfold Session.closeUp
  extract_lets closed
  split
  · have htaken : (closed.updateConnection d fun k => { k with process := .taken }).Has c P :=
      hP.update hclosed (fun _ => rfl) (fun _ => rfl) fun _ => rfl
    exact hP.checkReaping htaken r _
  · exact hclosed

theorem checkStopping (h : s.Has c P) (r : Bool) {call : Call} (hfree : d = c → Free call) :
    (s.checkStopping m i r d call).Has c P := by
  have hpoll := hP.pollCall (m := m) h hfree
  unfold Session.checkStopping
  split
  · rename_i heq
    rwa [heq] at hpoll
  · rename_i heq
    rw [heq] at hpoll
    exact hP.closeUp hpoll r
  · rename_i s₁ heq
    rw [heq] at hpoll
    cases hk : s₁.connection? d with
    | none => exact hP.closeUp hpoll r
    | some k => exact hP.closeUp (hP.setLink hpoll hk fun _ => .notify "exit" none) r

theorem stop (h : s.Has c P) (r : Bool) : (s.stop m i r).Has c P := by
  unfold Session.stop
  extract_lets before stopping
  have hstopping : stopping.Has c P := h
  clear_value before
  split
  · rename_i d
    have hcall := hP.call (m := m) (d := d) hstopping (seconds stopping.timeouts.shutdown)
      "shutdown" none
    split
    · exact hP.closeUp hstopping r
    · split
      · rename_i heq
        rw [heq] at hcall
        exact hP.closeUp hcall r
      · rename_i call s₁ heq
        have hfree : d = c → Free call := hP.free_of_call hstopping (by rw [heq])
        rw [heq] at hcall
        exact hP.checkStopping hcall r hfree
  · exact hstopping

end Stopping

section Stretches

variable (hP : Lasting P Free)
include hP

theorem takeTurn (h : s.Has c P) (hnew : s.Innate c P Free) : (s.takeTurn m i).Has c P := by
  unfold Session.takeTurn
  split
  · exact hP.stop h _
  · obtain ⟨d, -, hlive⟩ | ⟨-, lifecycle, -, hlive⟩ := s.live?_cases
    · rw [hlive]
      exact hP.serve (s := s.leaveGate i) h
    · rw [hlive]
      exact hP.start (s := { s with lifecycle }) h hnew

theorem enterGate (h : s.Has c P) (hnew : s.Innate c P Free) : (s.enterGate m i).Has c P := by
  unfold Session.enterGate
  extract_lets free queued
  split
  · exact hP.takeTurn (s := queued) h hnew
  · exact h

theorem stretch (h : s.Has c P) (hnew : s.Innate c P Free)
    (hfree : ∀ call, s.waits c i = some call → Free call)
    (houtlasts : (∃ call, s.stage? i = some (.handshaking c call)) → Outlasts P) :
    (s.stretch m i).Has c P := by
  unfold Session.stretch
  cases ht : s.tasks[i]? with
  | none => exact h
  | some t =>
    have hi : s.stage? i = some t.stage := by simp [stage?, ht]
    -- a look is at the call that the operation itself waits for
    have hown {d : Nat} {call : Call} (hcall : t.stage.call? d = some call) (heq : d = c) :
        Free call := by
      subst heq
      exact hfree call (by rw [waits, hi]; exact hcall)
    simp only
    split
    · split
      · exact hP.takeTurn h hnew
      · exact h
    · rename_i d call hstage
      refine hP.checkHandshake h (hown (by simp [hstage, Stage.call?])) ?_
      rintro rfl
      exact houtlasts ⟨call, hstage ▸ hi⟩
    · exact hP.afterReading h _ _ _
    · rename_i hstage _
      exact hP.checkAsking h _ (hown (by simp [hstage, Stage.call?]))
    · rename_i hstage _
      exact hP.checkStopping h _ (hown (by simp [hstage, Stage.call?]))
    · exact hP.checkReaping h _ _
    · exact h.checkKilling _
    · exact h

theorem unless_live (h : s.Has c P) (hnew : s.Innate c P Free) (w : Work) :
    Has (match (s.added w).live? with
      | (some c, s₁) => s₁.serve m s.tasks.length c
      | (none, s₁) => s₁.enterGate m s.tasks.length) c P := by
  obtain ⟨d, -, hlive⟩ | ⟨-, lifecycle, -, hlive⟩ := (s.added w).live?_cases
  · rw [hlive]
    exact hP.serve (s := s.added w) h
  · rw [hlive]
    exact hP.enterGate (s := { s.added w with lifecycle }) h hnew

theorem begin (h : s.Has c P) (hnew : s.Innate c P Free) (w : Work) :
    (s.begin m w).Has c P := by
  unfold Session.begin
  extract_lets i added' done
  refine hP.tidy ?_
  cases w with
  | shutdown r => exact hP.enterGate (s := s.added (.shutdown r)) h hnew
  | «open» path text =>
    simp only [done]
    split
    · exact h
    · exact hP.unless_live h hnew _
  | query path q => exact hP.unless_live h hnew _

theorem cancel (h : s.Has c P) (hfree : ∀ call, s.waits c i = some call → Free call) :
    (s.cancel i).Has c P := by
  unfold Session.cancel
  split
  · exact h
  · exact h
  · exact h
  · rename_i stage _ _ hi
    have hown {d : Nat} {call : Call} (hcall : stage.call? d = some call) (heq : d = c) :
        Free call := by
      subst heq
      exact hfree call (by rw [waits, hi]; exact hcall)
    extract_lets left
    have hleft : left.Has c P := by
      simp only [left]
      split
      · exact hP.abandonCall h (hown (by simp [Stage.call?]))
      · exact hP.abandonCall h (hown (by simp [Stage.call?]))
      · exact hP.abandonCall h (hown (by simp [Stage.call?]))
      · exact hP.update h (fun _ => rfl) (fun _ => rfl) fun _ => rfl
      · exact h
    have hgone : ((left.setStage i .dropped).leaveGate i).Has c P := hleft
    exact hP.tidy hgone

end Stretches

section Steps

variable (hP : Lasting P Free)
include hP

theorem change (h : s.Has c P) (path : Path) (text : String) : (s.change path text).2.Has c P := by
  have hlive : s.live?.2.Has c P := h.of_connections s.connections_live?
  unfold Session.change
  refine hP.tidy ?_
  split
  · rename_i heq
    rwa [heq] at hlive
  · rename_i d s₁ heq
    rw [heq] at hlive
    split
    · exact hlive
    · exact hP.tell hlive _ _

theorem close (h : s.Has c P) (path : Path) : (s.close path).Has c P := by
  have hlive : s.live?.2.Has c P := h.of_connections s.connections_live?
  unfold Session.close
  refine hP.tidy ?_
  split
  · rename_i heq
    rwa [heq] at hlive
  · rename_i d s₁ heq
    rw [heq] at hlive
    split
    · exact hlive
    · exact hP.tell hlive _ _

/-- A step leaves the property alone if whoever it brings on is free, and does not wait for the
handshake of this connection. -/
theorem step (h : s.Has c P) (hnew : s.Innate c P Free) (e : Event)
    (hfree : ∀ i call, (∃ m, e = .resume m i) ∨ e = .cancel i → s.waits c i = some call → Free call)
    (houtlasts : (∃ m i call, e = .resume m i ∧ s.stage? i = some (.handshaking c call)) →
      Outlasts P) : (s.step e).Has c P := by
  cases e with
  | begin m w => exact hP.begin h hnew w
  | resume m i =>
    refine hP.tidy (hP.stretch h hnew (fun call => hfree i call (.inl ⟨m, rfl⟩)) ?_)
    rintro ⟨call, hi⟩
    exact houtlasts ⟨m, i, call, rfl, hi⟩
  | cancel i => exact hP.cancel h fun call => hfree i call (.inr rfl)
  | change path text => exact hP.change h path text
  | close path => exact hP.close h path
  | read d =>
    obtain ⟨heq, -⟩ | ⟨k, l, p, hk, hread, heq⟩ := s.step_read_cases d
    · rw [heq]
      exact h
    · rw [heq]
      exact hP.tidy (hP.setLink h hk fun _ => .read hread)
  | write d accepted =>
    obtain ⟨heq, -⟩ | ⟨k, what, l, hk, hwrite, heq⟩ := s.step_write_cases d accepted
    · rw [heq]
      exact h
    · rw [heq]
      exact hP.setLink h hk fun _ => .write hwrite
  | receive d bs => exact hP.updateLink h (fun _ _ => .receive bs) (fun _ => rfl) fun _ => rfl
  | endInput d => exact hP.updateLink h (fun _ _ => .endInput) (fun _ => rfl) fun _ => rfl
  | tidy => exact hP.tidy h

end Steps

end Lasting

namespace Connection

/-- The server has answered the handshake, and this is what it can do. -/
def Able (a : Abilities) (k : Connection) : Prop :=
  k.established = true ∧ k.abilities = a

/-- In this slot lies the reply. -/
def HasReply (ticket : Nat) (r : Reply) (k : Connection) : Prop :=
  k.link.inflight.slot ticket = .filled r

def Speaks (language : String) (k : Connection) : Prop :=
  k.link.language = language

end Connection

theorem lasting_able (a : Abilities) : Lasting (Connection.Able a) fun _ => True where
  link h _ := h
  rest h _ habilities hestablished := ⟨hestablished.trans h.1, habilities.trans h.2⟩
  fresh _ _ := trivial

theorem lasting_speaks (language : String) :
    Lasting (Connection.Speaks language) fun _ => True where
  link h hl := hl.language.trans h
  rest h hlink _ _ := (congrArg Link.language hlink).trans h
  fresh _ _ := trivial

theorem lasting_hasReply (ticket : Nat) (r : Reply) :
    Lasting (Connection.HasReply ticket r) (·.ticket ≠ ticket) where
  link h hl := hl.slot_of_filled h
  rest h hlink _ _ := by
    unfold Connection.HasReply
    rwa [hlink]
  fresh {k _ _ _ _ _ _} h hcall := by
    have hlt := k.link.inflight.lt_length_of_slot_ne ticket (by rw [h]; nofun)
    rw [(Link.call_eq_ok hcall).2]
    exact Nat.ne_of_gt hlt

/-- The operation is neither brought on nor dropped. -/
def Event.Spares (i : Nat) (e : Event) : Prop :=
  (∀ m, e ≠ .resume m i) ∧ e ≠ .cancel i

section Runs

variable {a : Abilities} {call : Call} {r : Reply} {k : Connection} {es : List Event}

theorem innate_of_connection (hk : s.connection? c = some k) : s.Innate c P Free := by
  intro hlength
  exact absurd (List.getElem?_eq_some_iff.mp hk).1 (Nat.not_lt.mpr (Nat.le_of_eq hlength))

/-- No connection ever goes from the list. -/
theorem Gated.connection_run (hg : s.Gated) (hk : s.connection? c = some k) (es : List Event) :
    ∃ k', (s.run es).connection? c = some k' := by
  have hlt : c < s.connections.length := (List.getElem?_eq_some_iff.mp hk).1
  exact ⟨_, List.getElem?_eq_getElem (Nat.lt_of_lt_of_le hlt (hg.fades_run es).length)⟩

/-- What a server can do is settled once it has answered the handshake. -/
theorem Gated.able_run (hg : s.Gated) (hk : s.connection? c = some k) (h : k.Able a)
    (es : List Event) : (s.run es).Has c (Connection.Able a) := by
  induction es using List.reverseRecOn with
  | nil =>
    intro k' hk'
    exact Option.some.inj (hk.symm.trans hk') ▸ h
  | append_singleton es e ih =>
    obtain ⟨k', hk'⟩ := hg.connection_run hk es
    rw [run_append_one]
    refine (lasting_able a).step ih (innate_of_connection hk') e (fun _ _ _ _ => trivial) ?_
    rintro ⟨m, i, call, -, hi⟩
    obtain ⟨k₀, hk₀, -, hestablished⟩ := (hg.run es).held hi rfl
    cases hestablished.symm.trans (ih k₀ hk₀).1

theorem Gated.speaks_run (hg : s.Gated) (h : s.Has c (Connection.Speaks s.language))
    (es : List Event) : (s.run es).Has c (Connection.Speaks s.language) := by
  induction es using List.reverseRecOn with
  | nil => exact h
  | append_singleton es e ih =>
    have hlanguage : (s.run es).language = s.language := by rw [hg.alike_run es]
    rw [run_append_one]
    exact (lasting_speaks s.language).step ih
      (fun _ => ⟨fun _ => hlanguage, fun _ => trivial, fun _ _ h => h⟩) e (fun _ _ _ _ => trivial)
      fun _ _ _ h => h

theorem Gated.stage?_run (hg : s.Gated) {stage : Stage} (hi : s.stage? i = some stage)
    (hes : ∀ e ∈ es, e.Spares i) : (s.run es).stage? i = some stage := by
  induction es using List.reverseRecOn with
  | nil => exact hi
  | append_singleton es e ih =>
    obtain ⟨hresume, hcancel⟩ := hes e (by simp)
    rw [run_append_one]
    exact ((hg.run es).step e).1.stage?_other (ih fun e' he' => hes e' (by simp [he'])) hresume
      hcancel

/-- A reply waits for the operation that it is for. -/
theorem Heeded.hasReply_run (hh : s.Heeded) (hg : s.Gated) {stage : Stage}
    (hi : s.stage? i = some stage) (hcall : stage.call? c = some call)
    (hk : s.connection? c = some k) (h : k.HasReply call.ticket r) (hes : ∀ e ∈ es, e.Spares i) :
    (s.run es).Has c (Connection.HasReply call.ticket r) := by
  induction es using List.reverseRecOn with
  | nil =>
    intro k' hk'
    exact Option.some.inj (hk.symm.trans hk') ▸ h
  | append_singleton es e ih =>
    have hbefore : ∀ e' ∈ es, e'.Spares i := fun e' he' => hes e' (by simp [he'])
    have hwaits : (s.run es).waits c i = some call := by
      rw [waits, hg.stage?_run hi hbefore]
      exact hcall
    obtain ⟨k', hk'⟩ := hg.connection_run hk es
    rw [run_append_one]
    refine (lasting_hasReply call.ticket r).step (ih hbefore) (innate_of_connection hk') e ?_
      fun _ _ _ h => h
    -- nobody else has this slot
    intro j call' hj hj' hticket
    obtain rfl : j = i := (hh.run hg es c k' hk').apart hj' hwaits hticket
    obtain ⟨hresume, hcancel⟩ := hes e (by simp)
    obtain ⟨m, rfl⟩ | rfl := hj
    · exact hresume m rfl
    · exact hcancel rfl

end Runs

end Session
end LanguageClient
