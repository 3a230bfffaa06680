import LanguageClient.Proofs.Session.Aside
import LanguageClient.Proofs.Session.Recovery

namespace LanguageClient.Session

def greeting (s : Session) : Json :=
  Message.request 1 "initialize" (some (Params.handshake s.processId s.rootUri))

/-- What a server is told as soon as it has answered the first message. -/
def welcome : Json :=
  Message.notification "initialized" (some (.ofFields []))

/-- On the connection of somebody who waits for the handshake, nothing but the first message has been
said. -/
structure Greeted (first : Json) (call : Call) (k : Connection) : Prop where
  id : call.id = 1
  ticket : call.ticket = 0
  reply : k.link.Awaits first "initialize" ∨ ∃ r, k.link.Replied first r

theorem Greeted.said {first : Json} {call : Call} {k : Connection} (h : Greeted first call k) :
    k.link.said = [first] := by
  obtain hawaits | ⟨r, hreplied⟩ := h.reply
  · exact hawaits.asked.said
  · exact hreplied.said

/-- What a look at the handshake comes to. -/
inductive Looks (first : Json) (m : Moment) (i c : Nat) (call : Call) (k : Connection) (s : Session) :
    Session → Prop
  | waits (awaits : k.link.Awaits first "initialize") (early : m.now < call.deadline) :
      Looks first m i c call k s (s.setStage i (.handshaking c call))
  | fails {l : Link} {f : Failure} (said : l.said = [first] ∨
        l.said = [first, Link.cancellation] ∧ k.link.Awaits first "initialize") :
      Looks first m i c call k s ((s.setLink c l).failStart i c f)
  | succeeds {l : Link} {result : Json} {s' : Session} (opened : k.link.closing? = none)
      (replied : k.link.Replied first (.ok result)) (said : l.said = [first, welcome])
      (serves : Serves i c (((s.setLink c l).established c result).leaveGate i) s') :
      Looks first m i c call k s s'

section Looking

variable {s s' : Session} {m : Moment} {i c : Nat} {call : Call} {k : Connection} {first : Json}

theorem checkHandshake_of_failed {f : Failure} {l : Link} (hk : s.connection? c = some k)
    (hpoll : k.link.poll m.now call = (some (.error f), l)) :
    s.checkHandshake m i c call = (s.setLink c l).failStart i c f := by
  unfold checkHandshake
  rw [pollCall_of_connection hk, hpoll]

theorem looks_of_awaits (hk : s.connection? c = some k) (hid : call.id = 1)
    (hticket : call.ticket = 0) (h : k.link.Awaits first "initialize") :
    Looks first m i c call k s (s.checkHandshake m i c call) := by
  obtain ⟨hearly, hpoll⟩ | ⟨-, f, l, hpoll, hsaid⟩ := h.poll m.now hid hticket
  · have hslot : k.link.inflight.slot call.ticket = .empty := by
      rw [hticket, h.asked.slot_eq]
    rw [checkHandshake_of_early hk hslot hearly]
    exact .waits h hearly
  · rw [checkHandshake_of_failed hk hpoll]
    exact .fails (hsaid.imp_right fun hsaid => ⟨hsaid, h⟩)

/-- A result counts only as long as the server can be told so. -/
theorem looks_of_replied (hk : s.connection? c = some k) (hticket : call.ticket = 0)
    (hwork : s.NeedsServer i) {r : Reply} (h : k.link.Replied first r) :
    Looks first m i c call k s (s.checkHandshake m i c call) := by
  have hpoll := h.poll m.now hticket
  cases r with
  | error f =>
    rw [checkHandshake_of_failed hk hpoll]
    exact .fails (.inl ((Link.said_of_sent rfl).trans h.said))
  | ok result =>
    let l : Link := { k.link with inflight := (k.link.inflight.take? call.ticket).2 }
    have hslot : k.link.inflight.slot call.ticket = .filled (.ok result) := by
      simp [hticket, Inflight.slot, h.slots]
    have hk' := connection?_setLink_self hk l
    have hsaid : l.said = [first] := (Link.said_of_sent rfl).trans h.said
    rw [checkHandshake_of_answered hk hslot]
    cases htakes : l.takes with
    | true =>
      rw [establish_of_takes hk' htakes, setLink_setLink]
      obtain ⟨hopened, -⟩ := l.takes_iff.mp htakes
      refine .succeeds ?_ h ?_ (.serve hwork)
      · simpa [l, Link.closing?] using hopened
      · rw [Link.said_notification l l.inflight, hsaid]
        rfl
    | false =>
      unfold establish
      rw [notify_of_connection hk', Link.notify_of_not_takes _ _ _ htakes, setLink_setLink]
      exact .fails (.inl hsaid)

theorem Greeted.looks (h : Greeted first call k) (hk : s.connection? c = some k)
    (hwork : s.NeedsServer i) : Looks first m i c call k s (s.checkHandshake m i c call) := by
  obtain hawaits | ⟨r, hreplied⟩ := h.reply
  · exact looks_of_awaits hk h.id h.ticket hawaits
  · exact looks_of_replied hk h.ticket hwork hreplied

theorem greeted_launched (s : Session) (m : Moment) (hasProcess : Bool) :
    Greeted s.greeting (s.handshakeCall m) (s.greeted hasProcess) := by
  refine ⟨rfl, rfl, .inl ⟨rfl, rfl, ?_, rfl, rfl⟩⟩
  simp [greeted, greeting, Link.said, Outgoing.own?_request]

end Looking

/-- The operation that a step brings on. -/
def Event.operation? (s : Session) : Event → Option Nat
  | .begin _ _ => some s.tasks.length
  | .resume _ i => some i
  | .cancel _ | .change _ _ | .close _ | .read _ | .write _ _ | .receive _ _ | .endInput _
  | .tidy => none

/-- The connection on whose link the step takes place. -/
def Event.link? : Event → Option Nat
  | .read c | .write c _ | .receive c _ | .endInput c => some c
  | .begin _ _ | .resume _ _ | .cancel _ | .change _ _ | .close _ | .tidy => none

/-- In this step an operation fails to start the server of a connection, which it waited for or has
just launched: the operation comes to its end, the session counts as failed, and the connection
closes, with nobody waiting for it. -/
structure FailsStart (s : Session) (e : Event) (s' : Session) (c : Nat) (k' : Connection) : Prop where
  connection : s'.connection? c = some k'
  closed : k'.link.closing? ≠ none
  established : k'.established = false
  nobody : ∀ i call, ¬ s'.Greets i c call
  told : ∃ i reason, e.operation? s = some i ∧ s.result? i = none ∧
    (s.connection? c = none ∨ ∃ call, s.Greets i c call) ∧
    s'.result? i = some (.error (.startFailed s.language reason)) ∧
    s'.status = .startFailed reason

/-- What the server, the reader or the writer do on one link. -/
inductive Moves (e : Event) (c : Nat) (l l' : Link) : Prop
  | reads {p : Option Publication} (event : e = .read c) (read : l.readNext? = some (l', p))
  | writes {accepted : Bool} {what : Link.Written} (event : e = .write c accepted)
      (write : l.writeNext? accepted = some (what, l'))
  | receives (event : (∃ bs, e = .receive c bs) ∨ e = .endInput c)
      (inflight : l'.inflight = l.inflight) (sent : l'.sent = l.sent)
      (reading : l'.reading = l.reading)

theorem Moves.link? {e : Event} {c : Nat} {l l' : Link} (h : Moves e c l l') : e.link? = some c := by
  cases h with
  | reads event => rw [event, Event.link?]
  | writes event => rw [event, Event.link?]
  | receives event => obtain ⟨bs, rfl⟩ | rfl := event <;> rfl

/-- The step finds nothing on the link that could be read or written. -/
structure Idle (e : Event) (c : Nat) (l : Link) : Prop where
  unread : e = .read c → l.readNext? = none
  unwritten : ∀ accepted, e = .write c accepted → l.writeNext? accepted = none

theorem idle_of_link? {e : Event} {c : Nat} (h : e.link? ≠ some c) (l : Link) : Idle e c l := by
  constructor
  case unread =>
    rintro rfl
    exact absurd rfl h
  case unwritten =>
    rintro accepted rfl
    exact absurd rfl h

/-- All that a step can make of a connection. -/
inductive Turns (first : Json) (s : Session) (e : Event) (s' : Session) (c : Nat) (k' : Connection) :
    Prop
  | beside {k : Connection} (before : s.connection? c = some k) (beside : k.Beside k')
      (greets : ∀ i call, s'.Greets i c call ↔ s.Greets i c call)
      (same : ∀ i call, s.Greets i c call → k'.link = k.link)
      (idle : ∀ i call, s.Greets i c call → Idle e c k.link)
  | comes {k : Connection} (before : s.connection? c = some k)
      (established : k'.established = k.established)
      (greets : ∀ i call, s'.Greets i c call ↔ s.Greets i c call)
      (moves : Moves e c k.link k'.link)
  | launched {i : Nat} {call : Call} (new : s.connection? c = none)
      (established : k'.established = false) (greets : s'.Greets i c call)
      (alone : ∀ j call', s'.Greets j c call' → call' = call) (id : call.id = 1)
      (ticket : call.ticket = 0) (awaits : k'.link.Awaits first "initialize")
  | failed (before : ∀ k, s.connection? c = some k → ∃ i call, s.Greets i c call)
      (fails : FailsStart s e s' c k')
      (said : k'.link.said = [first] ∨ k'.link.said = [first, Link.cancellation] ∧
        ∀ k, s.connection? c = some k → k.link.Awaits first "initialize")
  | succeeded {i : Nat} {call : Call} {k : Connection} {result : Json}
      (before : s.connection? c = some k) (greets : s.Greets i c call)
      (replied : k.link.Replied first (.ok result)) (established : k'.established = true)
      (nobody : ∀ i call, ¬ s'.Greets i c call)
      (said : ∃ vs, k'.link.said = first :: welcome :: vs)
  | dropped {i : Nat} {call : Call} {k : Connection} (event : e = .cancel i)
      (before : s.connection? c = some k) (greets : s.Greets i c call)
      (established : k'.established = false) (nobody : ∀ i call, ¬ s'.Greets i c call)
      (said : k'.link.said = k.link.said)

section Beside

variable {s s' : Session} {e : Event} {c d : Nat} {k k' : Connection} {first : Json}

theorem Aside.turns (h : s.Aside s') (hk' : s'.connection? c = some k') (he : e.link? ≠ some c) :
    Turns first s e s' c k' := by
  obtain ⟨k, hk, hbeside, hsame⟩ := h.back c k' hk'
  exact .beside hk hbeside (fun i call => h.greets i c call) hsame fun _ _ _ => idle_of_link? he _

theorem turns_setLink {l : Link} (hk : s.connection? d = some k) (hl : k.link.Rests l)
    (hmoves : Moves e d k.link l) (haside : (s.setLink d l).Aside s')
    (hk' : s'.connection? c = some k') : Turns first s e s' c k' := by
  obtain ⟨k₁, hk₁, hbeside, hsame⟩ := haside.back c k' hk'
  have hgreets (i : Nat) (call : Call) : s'.Greets i c call ↔ s.Greets i c call :=
    haside.greets i c call
  by_cases hc : c = d
  · subst hc
    rw [connection?_setLink_self hk] at hk₁
    obtain rfl := Option.some.inj hk₁
    by_cases hnobody : ∃ i call, s.Greets i c call
    · obtain ⟨i, call, hi⟩ := hnobody
      refine .comes hk hbeside.established hgreets ?_
      rw [hsame i call hi]
      exact hmoves
    · push Not at hnobody
      have hrests : k.Beside { k with link := l } := .of_rests rfl hl
      exact .beside hk (hrests.trans hbeside) hgreets (fun i call hi => absurd hi (hnobody i call))
        fun i call hi => absurd hi (hnobody i call)
  · unfold setLink at hk₁
    rw [connection?_updateConnection, if_neg hc] at hk₁
    refine .beside hk₁ hbeside hgreets hsame fun _ _ _ => idle_of_link? ?_ _
    rw [hmoves.link?]
    exact fun heq => hc (Option.some.inj heq).symm

end Beside

/-- The step has come to the point where the operation `i` looks at the handshake on the connection
`c`, which was there before or is new. -/
structure Prepares (first : Json) (s : Session) (e : Event) (i c : Nat) (call : Call) (k : Connection)
    (s₁ : Session) : Prop where
  operation : e.operation? s = some i
  undone : s.result? i = none
  language : s₁.language = s.language
  connection : s₁.connection? c = some k
  established : k.established = false
  greeted : Greeted first call k
  before : s₁ = s ∧ s.Greets i c call ∨
    s.connection? c = none ∧ k.link.Awaits first "initialize"
  stage : ∃ stage, s₁.stage? i = some stage
  alone : ∀ j call', j ≠ i → ¬ s₁.Greets j c call'
  others : ∀ d, d ≠ c → s₁.connection? d = s.connection? d ∧
    (∀ j call', s₁.Greets j d call' ↔ s.Greets j d call') ∧ ∀ call', ¬ s₁.Greets i d call'

section Looks

variable {s s₁ s₂ : Session} {e : Event} {m : Moment} {i c d : Nat} {call : Call}
  {k k' : Connection} {first : Json}

theorem connection?_failStart (s : Session) (i c : Nat) (f : Failure) (d : Nat) :
    (s.failStart i c f).connection? d =
      if d = c then (s.connection? c).map fun k =>
        { k with link := k.link.close, killed := k.killed || k.process != .absent }
      else s.connection? d :=
  connection?_updateConnection s c d _

theorem stage?_failStart (s : Session) (i c : Nat) (f : Failure) (j : Nat) :
    (s.failStart i c f).stage? j =
      if j = i then (s.stage? i).map fun _ =>
        .done (.error (.startFailed s.language s!"initialize failed: {f.message}"))
      else s.stage? j :=
  stage?_setStage s i j _

theorem connection?_setLink_ne {l : Link} (h : d ≠ c) :
    (s.setLink c l).connection? d = s.connection? d := by
  unfold setLink
  rw [connection?_updateConnection, if_neg h]

/-- Other connections stay as they are, and so does who waits for them. -/
theorem Looks.others (h : Looks first m i c call k s₁ s₂) (hd : d ≠ c)
    (hi : ∀ call', ¬ s₁.Greets i d call') :
    s₂.connection? d = s₁.connection? d ∧ ∀ j call', s₂.Greets j d call' ↔ s₁.Greets j d call' := by
  -- it is enough that no other operation moves, and that this one does not come to wait there
  have hstages (hothers : ∀ j, j ≠ i → s₂.stage? j = s₁.stage? j)
      (hi' : ∀ call', ¬ s₂.Greets i d call') (j : Nat) (call' : Call) :
      s₂.Greets j d call' ↔ s₁.Greets j d call' := by
    by_cases hj : j = i
    · subst hj
      exact iff_of_false (hi' call') (hi call')
    · unfold Greets
      rw [hothers j hj]
  cases h with
  | waits =>
    refine ⟨rfl, hstages (fun j hj => by rw [stage?_setStage, if_neg hj]) fun call' hgreets => ?_⟩
    rw [Greets, stage?_setStage, if_pos rfl] at hgreets
    obtain ⟨-, -, heq⟩ := Option.map_eq_some_iff.mp hgreets
    exact hd (Stage.handshaking.inj heq).1.symm
  | @fails l f said =>
    refine ⟨by rw [connection?_failStart, if_neg hd, connection?_setLink_ne hd],
      hstages (fun j hj => by rw [stage?_failStart, if_neg hj]; rfl) fun call' hgreets => ?_⟩
    rw [Greets, stage?_failStart, if_pos rfl] at hgreets
    obtain ⟨-, -, heq⟩ := Option.map_eq_some_iff.mp hgreets
    cases heq
  | @succeeds l result _ opened replied said serves =>
    have hkept : (((s₁.setLink c l).established c result).leaveGate i).connection? d =
        s₁.connection? d :=
      (connection?_updateConnection (s₁.setLink c l) c d _).trans
        ((if_neg hd).trans (connection?_setLink_ne hd))
    refine ⟨(serves.connections.others d hd).trans hkept,
      hstages (fun j hj => serves.stage?_other hj) fun call' hgreets => ?_⟩
    obtain hsame | hserved := serves.toWorks.stage?_self hgreets
    · exact hi call' hsame
    · exact hserved

theorem Event.link?_of_operation? (h : e.operation? s = some i) : e.link? = none := by
  cases e <;> first | rfl | cases h

theorem Prepares.idle (h : Prepares first s e i c call k s₁) (d : Nat) (l : Link) : Idle e d l := by
  apply idle_of_link?
  rw [Event.link?_of_operation? h.operation]
  simp

theorem Prepares.before_greets (h : Prepares first s e i c call k s₁) {k₀ : Connection}
    (hk₀ : s.connection? c = some k₀) : k₀ = k ∧ s.Greets i c call := by
  obtain ⟨rfl, hi⟩ | ⟨hnew, -⟩ := h.before
  · exact ⟨Option.some.inj (hk₀.symm.trans h.connection), hi⟩
  · rw [hk₀] at hnew
    cases hnew

theorem Prepares.nobody (h : Prepares first s e i c call k s₁)
    (hothers : ∀ j, j ≠ i → s₂.stage? j = s₁.stage? j) (hi : ∀ call', ¬ s₂.Greets i c call')
    (j : Nat) (call' : Call) : ¬ s₂.Greets j c call' := by
  by_cases hj : j = i
  · subst hj
    exact hi call'
  · unfold Greets
    rw [hothers j hj]
    exact h.alone j call' hj

theorem Prepares.turns_waits (h : Prepares first s e i c call k s₁)
    (awaits : k.link.Awaits first "initialize")
    (hk' : (s₁.setStage i (.handshaking c call)).tidy.connection? c = some k') :
    Turns first s e (s₁.setStage i (.handshaking c call)).tidy c k' := by
  obtain ⟨k₂, hk₂, hbeside, hsame⟩ := (aside_tidy (s₁.setStage i (.handshaking c call))).back c k' hk'
  obtain rfl : k = k₂ := Option.some.inj (h.connection.symm.trans hk₂)
  obtain ⟨stage, hstage⟩ := h.stage
  have hgreets : (s₁.setStage i (.handshaking c call)).Greets i c call :=
    stage?_setStage_self hstage
  have halone (j : Nat) (hj : j ≠ i) (call' : Call) :
      ¬ (s₁.setStage i (.handshaking c call)).Greets j c call' := by
    unfold Greets
    rw [stage?_setStage, if_neg hj]
    exact h.alone j call' hj
  have hown {j : Nat} {call' : Call}
      (hj : (s₁.setStage i (.handshaking c call)).Greets j c call') : j = i ∧ call' = call := by
    by_cases hji : j = i
    · subst hji
      exact ⟨rfl, (Stage.handshaking.inj (Option.some.inj (hj.symm.trans hgreets))).2⟩
    · exact absurd hj (halone j hji call')
  -- it has waited here before, or has just launched the server
  obtain ⟨rfl, hi⟩ | ⟨hnew, -⟩ := h.before
  · refine .beside h.connection hbeside (fun j call' => ⟨fun hj => ?_, fun hj => ?_⟩) ?_
      fun _ _ _ => h.idle c _
    · obtain ⟨rfl, rfl⟩ := hown hj
      exact hi
    · by_cases hji : j = i
      · subst hji
        obtain rfl : call' = call :=
          (Stage.handshaking.inj (Option.some.inj (hj.symm.trans hi))).2
        exact hgreets
      · exact absurd hj (h.alone j call' hji)
    · exact fun _ _ _ => hsame i call hgreets
  · refine .launched hnew (hbeside.established.trans h.established) hgreets
      (fun j call' hj => (hown hj).2) h.greeted.id h.greeted.ticket ?_
    rw [hsame i call hgreets]
    exact awaits

theorem Prepares.failsStart (h : Prepares first s e i c call k s₁) {l : Link} {f : Failure}
    (hk' : ((s₁.setLink c l).failStart i c f).tidy.connection? c = some k') :
    FailsStart s e ((s₁.setLink c l).failStart i c f).tidy c k' ∧ k'.link.said = l.said := by
  let s₂ := (s₁.setLink c l).failStart i c f
  obtain ⟨k₂, hk₂, hbeside, -⟩ := (aside_tidy s₂).back c k' hk'
  obtain ⟨stage, hstage⟩ := h.stage
  rw [connection?_failStart, if_pos rfl, connection?_setLink_self h.connection] at hk₂
  obtain rfl := Option.some.inj hk₂
  have hrests := hbeside.rests h.established
  have hclosed : k'.link.closing? ≠ none := by
    apply hrests.closed
    simp [Link.closing?_close]
  have hstage' : (s₁.setLink c l).stage? i = some stage := hstage
  have hdone : s₂.stage? i = some (.done (.error (.startFailed (s₁.setLink c l).language
      s!"initialize failed: {f.message}"))) := by
    rw [stage?_failStart, if_pos rfl, hstage']
    rfl
  have hothers (j : Nat) (hj : j ≠ i) : s₂.stage? j = s₁.stage? j := by
    rw [stage?_failStart, if_neg hj]
    rfl
  have hnobody := h.nobody hothers fun call' hgreets => by cases hdone.symm.trans hgreets
  have hresult : s₂.tidy.stage? i = s₂.stage? i := rfl
  refine ⟨⟨hk', hclosed, hbeside.established.trans h.established, hnobody, i, _, h.operation,
    h.undone, ?_, ?_, rfl⟩, hrests.said.trans l.said_close⟩
  · obtain ⟨-, hi⟩ | ⟨hnew, -⟩ := h.before
    · exact .inr ⟨call, hi⟩
    · exact .inl hnew
  · rw [result?, hresult, hdone, ← h.language]
    rfl

theorem Prepares.turns_fails (h : Prepares first s e i c call k s₁) {l : Link} {f : Failure}
    (said : l.said = [first] ∨
      l.said = [first, Link.cancellation] ∧ k.link.Awaits first "initialize")
    (hk' : ((s₁.setLink c l).failStart i c f).tidy.connection? c = some k') :
    Turns first s e ((s₁.setLink c l).failStart i c f).tidy c k' := by
  obtain ⟨hfails, hsaid⟩ := h.failsStart hk'
  refine .failed (fun k₀ hk₀ => ⟨i, call, (h.before_greets hk₀).2⟩) hfails ?_
  rw [hsaid]
  exact said.imp_right fun ⟨hcancelled, hawaits⟩ =>
    ⟨hcancelled, fun k₀ hk₀ => (h.before_greets hk₀).1 ▸ hawaits⟩

theorem Prepares.turns_succeeds (h : Prepares first s e i c call k s₁) {l : Link} {result : Json}
    (replied : k.link.Replied first (.ok result)) (said : l.said = [first, welcome])
    (serves : Serves i c (((s₁.setLink c l).established c result).leaveGate i) s₂)
    (hk' : s₂.tidy.connection? c = some k') : Turns first s e s₂.tidy c k' := by
  obtain ⟨k₂, hk₂, hbeside, -⟩ := (aside_tidy s₂).back c k' hk'
  obtain ⟨stage, hstage⟩ := h.stage
  have hconnection : (((s₁.setLink c l).established c result).leaveGate i).connection? c =
      some { k with link := l, abilities := Abilities.ofHandshake result, established := true } := by
    refine (connection?_updateConnection (s₁.setLink c l) c c _).trans ?_
    rw [if_pos rfl, connection?_setLink_self h.connection]
    rfl
  obtain ⟨k₁, hk₁, hused⟩ := serves.connections.this _ hconnection
  obtain rfl : k₁ = k₂ := Option.some.inj (hk₁.symm.trans hk₂)
  obtain ⟨stage', hstage', hserved⟩ :=
    serves.stage?_self (s := ((s₁.setLink c l).established c result).leaveGate i) hstage
  have hnobody := h.nobody (fun j hj => serves.stage?_other hj) fun call' hgreets => by
    obtain rfl := Option.some.inj (hstage'.symm.trans hgreets)
    exact hserved
  obtain ⟨hs₁, hi⟩ | ⟨-, hawaits⟩ := h.before
  · subst hs₁
    refine .succeeded h.connection hi replied ?_ hnobody ?_
    · exact hbeside.established.trans hused.established
    · obtain ⟨vs, hvs⟩ := hused.link.said
      obtain ⟨ws, hws⟩ := hbeside.adds
      exact ⟨vs ++ ws, by rw [hws, hvs, said]; rfl⟩
  · -- nothing has come on a new connection
    exact absurd replied hawaits.not_replied

theorem Prepares.turns (h : Prepares first s e i c call k s₁)
    (hs : Looks first m i c call k s₁ s₂) (hk' : s₂.tidy.connection? d = some k') :
    Turns first s e s₂.tidy d k' := by
  by_cases hd : d = c
  · subst hd
    cases hs with
    | waits awaits => exact h.turns_waits awaits hk'
    | fails said => exact h.turns_fails said hk'
    | succeeds opened replied said serves => exact h.turns_succeeds replied said serves hk'
  · obtain ⟨k₂, hk₂, hbeside, hsame⟩ := (aside_tidy s₂).back d k' hk'
    obtain ⟨hconnection, hgreets, hi⟩ := h.others d hd
    obtain ⟨hconnection', hgreets'⟩ := hs.others hd hi
    rw [hconnection', hconnection] at hk₂
    exact .beside hk₂ hbeside (fun j call' => (hgreets' j call').trans (hgreets j call'))
      (fun j call' hj => hsame j call' ((hgreets' j call').mpr ((hgreets j call').mpr hj)))
      fun _ _ _ => h.idle d _

end Looks

section Steps

variable {s s₀ : Session} {e : Event} {m : Moment} {i c d : Nat} {call : Call} {k' : Connection}

/-- Everybody who waits for a handshake does so on a connection on which just the first message has
been said. -/
def Greeting (s : Session) : Prop :=
  ∀ {i c call k}, s.Greets i c call → s.connection? c = some k → Greeted s.greeting call k

theorem Gated.connection_of_greets (h : s.Gated) (hi : s.Greets i c call) :
    ∃ k, s.connection? c = some k ∧ k.established = false := by
  obtain ⟨k, hk, -, hestablished⟩ := h.held hi rfl
  exact ⟨k, hk, hestablished⟩

theorem Gated.greets_unique (h : s.Gated) (hi : s.Greets i c call) {j : Nat} {call' : Call}
    (hj : s.Greets j d call') : j = i := by
  by_contra hne
  have hholds := h.not_holdsGate (h.first hi rfl) hne hj
  cases hholds

theorem Gated.prepares (h : s.Gated) (hg : s.Greeting) (hi : s.Greets i c call) {k : Connection}
    (hk : s.connection? c = some k) :
    Prepares s.greeting s (.resume m i) i c call k s where
  operation := rfl
  undone := by
    rw [result?, hi]
  language := rfl
  connection := hk
  established := by
    obtain ⟨k₀, hk₀, hestablished⟩ := h.connection_of_greets hi
    obtain rfl : k₀ = k := Option.some.inj (hk₀.symm.trans hk)
    exact hestablished
  greeted := hg hi hk
  before := .inl ⟨rfl, hi⟩
  stage := ⟨_, hi⟩
  alone := fun j call' hj hgreets => hj (h.greets_unique hi hgreets)
  others := by
    refine fun d hd => ⟨rfl, fun _ _ => .rfl, fun call' hgreets => hd ?_⟩
    exact (Stage.handshaking.inj (Option.some.inj (hgreets.symm.trans hi))).1

theorem Gated.prepares_launched (h : s.Gated) (hoperation : e.operation? s = some i)
    (hundone : s.result? i = none) (hlanguage : s₀.language = s.language)
    (hgreeting : s₀.greeting = s.greeting) (hconnections : s₀.connections = s.connections)
    (hgreets : ∀ j c call, s₀.Greets j c call ↔ s.Greets j c call)
    (hstage : s₀.stage? i = some .queued) (hasProcess : Bool) :
    Prepares s.greeting s e i s.connections.length (s₀.handshakeCall m) (s₀.greeted hasProcess)
      (s₀.launched hasProcess) := by
  have hnew : s.connection? s.connections.length = none := by simp [connection?]
  have hgreeted := greeted_launched s₀ m hasProcess
  rw [hgreeting] at hgreeted
  -- nobody can wait on a connection that is not there yet
  have hnobody (j : Nat) (call' : Call) : ¬ s.Greets j s.connections.length call' := by
    intro hj
    obtain ⟨k, hk, -⟩ := h.connection_of_greets hj
    rw [hk] at hnew
    cases hnew
  have hconnection (d : Nat) : (s₀.launched hasProcess).connection? d =
      (s.connections ++ [s₀.greeted hasProcess])[d]? := by
    rw [connection?, Session.launched, hconnections]
  constructor
  case operation => exact hoperation
  case undone => exact hundone
  case language => exact hlanguage
  case connection =>
    rw [hconnection]
    simp
  case established => rfl
  case greeted => exact hgreeted
  case before =>
    refine .inr ⟨hnew, hgreeted.reply.resolve_right ?_⟩
    rintro ⟨r, hreplied⟩
    cases hreplied.slots
  case stage => exact ⟨.queued, hstage⟩
  case alone => exact fun j call' _ hj => hnobody j call' ((hgreets j _ call').mp hj)
  case others =>
    refine fun d hd => ⟨?_, fun j call' => hgreets j d call', fun call' hi => ?_⟩
    · rw [hconnection, connection?, List.getElem?_append]
      split
      · rfl
      · have hone : ([s₀.greeted hasProcess] : List Connection)[d - s.connections.length]? =
            none := by
          apply List.getElem?_eq_none
          simp only [List.length_singleton]
          omega
        rw [hone, List.getElem?_eq_none (by omega)]
    · cases hstage.symm.trans hi

theorem Gated.turns_resume (h : s.Gated) (hg : s.Greeting)
    (hk' : (s.resume m i).connection? d = some k') :
    Turns s.greeting s (.resume m i) (s.resume m i) d k' := by
  obtain haside | ⟨c, call, hi, heq⟩ | ⟨hasProcess, turn, needs, heq⟩ := h.stretch_cases m i
  · exact (haside.trans (aside_tidy _)).turns hk' (by simp [Event.link?])
  · obtain ⟨k, hk, -⟩ := h.connection_of_greets hi
    rw [resume, heq] at hk' ⊢
    exact (h.prepares hg hi hk).turns ((hg hi hk).looks hk (h.starting hi rfl).2) hk'
  · have hundone : s.result? i = none := by
      rw [result?, turn.stage]
    have hprepares : Prepares s.greeting s (.resume m i) i s.connections.length
        (s.handshakeCall m) (s.greeted hasProcess) (s.launched hasProcess) :=
      h.prepares_launched rfl hundone rfl rfl rfl (fun _ _ _ => .rfl) turn.stage hasProcess
    have hneeds : (s.launched hasProcess).NeedsServer i := needs
    rw [resume, heq] at hk' ⊢
    exact hprepares.turns (hprepares.greeted.looks hprepares.connection hneeds) hk'

theorem Gated.turns_begin (h : s.Gated) {w : Work} (hk' : (s.begin m w).connection? d = some k') :
    Turns s.greeting s (.begin m w) (s.begin m w) d k' := by
  obtain ⟨s₁, heq, haside | ⟨lifecycle, hasProcess, -, -, needs, rfl⟩⟩ := h.begin_cases m w
  · rw [heq] at hk' ⊢
    exact (haside.trans (aside_tidy _)).turns hk' (by simp [Event.link?])
  · have hundone : s.result? s.tasks.length = none := by
      rw [result?, stage?_length]
    have hstage : (s.joined w lifecycle).stage? s.tasks.length = some .queued :=
      s.stage?_added_self w
    have hprepares : Prepares s.greeting s (.begin m w) s.tasks.length s.connections.length
        ((s.joined w lifecycle).handshakeCall m) ((s.joined w lifecycle).greeted hasProcess)
        ((s.joined w lifecycle).launched hasProcess) :=
      h.prepares_launched rfl hundone (show (s.joined w lifecycle).language = s.language from rfl)
        rfl rfl (greets_added s w) hstage hasProcess
    have hneeds : ((s.joined w lifecycle).launched hasProcess).NeedsServer s.tasks.length :=
      needsServer_joined needs lifecycle
    rw [heq] at hk' ⊢
    exact hprepares.turns (hprepares.greeted.looks hprepares.connection hneeds) hk'

theorem Gated.turns_cancel (h : s.Gated) (hk' : (s.cancel i).connection? d = some k') :
    Turns s.greeting s (.cancel i) (s.cancel i) d k' := by
  -- only whoever waits for a handshake leaves a mark where it is dropped
  by_cases hi : ∃ c call, s.Greets i c call
  · obtain ⟨c, call, hi⟩ := hi
    obtain ⟨k, hk, hestablished⟩ := h.connection_of_greets hi
    let s₁ := ((s.abandonCall c call).setStage i .dropped).leaveGate i
    have heq : s.cancel i = s₁.tidy := by
      unfold cancel
      rw [show s.stage? i = some (.handshaking c call) from hi]
    have hconnection (j : Nat) : s₁.connection? j = if j = c then (s.connection? c).map fun k =>
        { k with link := k.link.abandon call } else s.connection? j :=
      connection?_updateConnection s c j _
    have hstage (j : Nat) : s₁.stage? j = if j = i then (s.stage? i).map fun _ => .dropped
        else s.stage? j := stage?_setStage (s.abandonCall c call) i j .dropped
    have hnobody (j d : Nat) (call' : Call) : ¬ s₁.Greets j d call' := by
      unfold Greets
      rw [hstage]
      split
      · intro hj
        obtain ⟨-, -, hdropped⟩ := Option.map_eq_some_iff.mp hj
        cases hdropped
      · rename_i hj
        exact fun hgreets => hj (h.greets_unique hi hgreets)
    rw [heq] at hk' ⊢
    obtain ⟨k₁, hk₁, hbeside, -⟩ := (aside_tidy s₁).back d k' hk'
    rw [hconnection] at hk₁
    split at hk₁
    · rename_i hd
      subst hd
      rw [hk] at hk₁
      obtain rfl := Option.some.inj hk₁
      refine .dropped rfl hk hi (hbeside.established.trans hestablished) (fun j => hnobody j d) ?_
      exact (hbeside.rests hestablished).said.trans (Link.said_of_sent rfl)
    · rename_i hd
      have hother (j : Nat) (call' : Call) : ¬ s.Greets j d call' := by
        intro hj
        obtain rfl := h.greets_unique hi hj
        exact hd (Stage.handshaking.inj (Option.some.inj (hj.symm.trans hi))).1
      exact .beside hk₁ hbeside
        (fun j call' => iff_of_false (hnobody j d call') (hother j call'))
        (fun j call' hj => absurd hj (hother j call')) fun j call' hj => absurd hj (hother j call')
  · push Not at hi
    exact (h.aside_of_step (h.step (.cancel i)).1 hi).turns hk' (by simp [Event.link?])

theorem turns_nothing {first : Json} {k : Connection} (hk : s.connection? d = some k)
    (hidle : Idle e d k.link) : Turns first s e s d k :=
  .beside hk (.refl k) (fun _ _ => .rfl) (fun _ _ _ => rfl) fun _ _ _ => hidle

theorem turns_read (hk' : (s.step (.read c)).connection? d = some k') :
    Turns s.greeting s (.read c) (s.step (.read c)) d k' := by
  obtain ⟨heq, hnone⟩ | ⟨k, l, p, hk, hread, heq⟩ := s.step_read_cases c
  · rw [heq] at hk' ⊢
    refine turns_nothing hk' ⟨fun hsame => ?_, fun _ hwrite => by cases hwrite⟩
    obtain rfl := Event.read.inj hsame
    exact hnone k' hk'
  · rw [heq] at hk' ⊢
    exact turns_setLink hk (Link.rests_readNext? hread) (.reads rfl hread) (aside_tidy _) hk'

theorem turns_write {accepted : Bool} (hk' : (s.step (.write c accepted)).connection? d = some k') :
    Turns s.greeting s (.write c accepted) (s.step (.write c accepted)) d k' := by
  obtain ⟨heq, hnone⟩ | ⟨k, what, l, hk, hwrite, heq⟩ := s.step_write_cases c accepted
  · rw [heq] at hk' ⊢
    refine turns_nothing hk' ⟨(by rintro ⟨⟩), fun accepted' hsame => ?_⟩
    obtain ⟨rfl, rfl⟩ := Event.write.inj hsame
    exact hnone k' hk'
  · rw [heq] at hk' ⊢
    exact turns_setLink hk (Link.rests_writeNext? hwrite) (.writes rfl hwrite) (.refl _) hk'

theorem turns_input {f : Link → Link} (he : (∃ bs, e = .receive c bs) ∨ e = .endInput c)
    (hstep : s.step e = s.updateConnection c fun k => { k with link := f k.link })
    (hinflight : ∀ l, (f l).inflight = l.inflight) (hsent : ∀ l, (f l).sent = l.sent)
    (hreading : ∀ l, (f l).reading = l.reading) (hk' : (s.step e).connection? d = some k') :
    Turns s.greeting s e (s.step e) d k' := by
  obtain ⟨k, hk, heq⟩ | heq := updateConnection_link (s := s) c f
  · rw [hstep, heq] at hk' ⊢
    have hrests : k.link.Rests (f k.link) :=
      Link.rests_of_same (hsent _) (congrArg Inflight.closed (hinflight _))
    exact turns_setLink hk hrests (.receives he (hinflight _) (hsent _) (hreading _)) (.refl _) hk'
  · rw [hstep, heq] at hk' ⊢
    refine turns_nothing hk' ⟨fun hread => ?_, fun accepted hwrite => ?_⟩
    · obtain ⟨bs, rfl⟩ | rfl := he <;> cases hread
    · obtain ⟨bs, rfl⟩ | rfl := he <;> cases hwrite

/-- Every step of a session makes of each connection what is listed. -/
theorem Gated.turns (h : s.Gated) (hg : s.Greeting) (e : Event)
    (hk' : (s.step e).connection? d = some k') : Turns s.greeting s e (s.step e) d k' := by
  cases e with
  | begin m w => exact h.turns_begin hk'
  | resume m i => exact h.turns_resume hg hk'
  | cancel i => exact h.turns_cancel hk'
  | change path text => exact (h.aside_of_step (h.step _).1 trivial).turns hk' (by simp [Event.link?])
  | close path => exact (h.aside_of_step (h.step _).1 trivial).turns hk' (by simp [Event.link?])
  | tidy => exact (h.aside_of_step (h.step _).1 trivial).turns hk' (by simp [Event.link?])
  | read c => exact turns_read hk'
  | write c accepted => exact turns_write hk'
  | receive c bs =>
    exact turns_input (f := (·.receive bs)) (.inl ⟨bs, rfl⟩) rfl (fun _ => rfl) (fun _ => rfl)
      (fun _ => rfl) hk'
  | endInput c =>
    exact turns_input (.inr rfl) rfl (fun _ => rfl) (fun _ => rfl) (fun _ => rfl) hk'

end Steps

end LanguageClient.Session
