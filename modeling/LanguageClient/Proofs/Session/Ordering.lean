import LanguageClient.Proofs.Session.Handshake

namespace LanguageClient.Session

section Settings

/-- From one session to the other, all that was settled when it was made is the same. -/
def Alike (s s' : Session) : Prop :=
  s' = { s with
    lifecycle := s'.lifecycle, connections := s'.connections, tasks := s'.tasks, gate := s'.gate,
    launches := s'.launches }

variable {s s' s'' : Session} {m : Moment} {i c : Nat} {e : Event}

theorem Alike.trans (h : s.Alike s') (h' : s'.Alike s'') : s.Alike s'' := by
  unfold Alike at h h' ⊢
  rw [h', h]

theorem Alike.greeting (h : s.Alike s') : s'.greeting = s.greeting := by
  rw [h]
  rfl

theorem Works.alike (h : Works i c s s') : s.Alike s' := by
  unfold Alike
  rw [h.rest]

theorem Handshake.alike {call : Call} (h : Handshake i c call s s') : s.Alike s' := by
  cases h with
  | waits => rfl
  | fails polled => exact polled.alike.trans rfl
  | succeeds polled tasks serves => exact polled.alike.trans serves.toWorks.alike

theorem Reaping.alike {R : Connection → Connection → Prop} {restartable : Bool}
    (h : Reaping R i restartable c s s') : s.Alike s' := by
  cases h <;> rfl

theorem Stopping.alike {restartable : Bool} (h : Stopping i restartable c s s') : s.Alike s' := by
  cases h with
  | waits polled => exact polled.alike.trans rfl
  | closes polled tasks reaping => exact polled.alike.trans reaping.alike

theorem Outcome.alike (h : Outcome m i s s') : s.Alike s' := by
  cases h with
  | idle | unlaunched | stopsNothing => rfl
  | goesOn stage served undone serves => exact serves.toWorks.alike
  | served turn work serving serves => exact serves.toWorks.alike
  | launches turn work alone launch handshake => exact handshake.alike
  | greets stage handshake => exact handshake.alike
  | stops turn work ready stopping => exact stopping.alike
  | goesOnStopping stage work stopping => exact stopping.alike
  | goesOnReaping stage reaps reaping => exact reaping.alike

theorem Begins.alike {w : Work} (h : Begins m w s s') : s.Alike s' := by
  cases h with
  | refused | queues => rfl
  | served work serving serves => exact serves.toWorks.alike
  | turns settles free outcome => exact outcome.alike

theorem Step.alike (h : Step s e s') : s.Alike s' := by
  cases h with
  | begins begins => exact begins.alike.trans rfl
  | resumes outcome => exact outcome.alike.trans rfl
  | nothing | cancels | settles | tells | reads | writes | receives | endsInput | tidies => rfl

theorem Gated.alike_run (h : s.Gated) (es : List Event) : s.Alike (s.run es) := by
  induction es using List.reverseRecOn with
  | nil => rfl
  | append_singleton es e ih =>
    rw [run_append_one]
    exact ih.trans ((h.run es).step e).1.alike

end Settings

/-- In the run, there has been a step like this. -/
def Once (s₀ : Session) (es : List Event) (P : Session → Event → Prop) : Prop :=
  ∃ front e back, es = front ++ e :: back ∧ P (s₀.run front) e

section Once

variable {s₀ : Session} {es : List Event} {e : Event} {P : Session → Event → Prop} {c : Nat}

theorem once_append_one : s₀.Once (es ++ [e]) P ↔ s₀.Once es P ∨ P (s₀.run es) e := by
  constructor
  · rintro ⟨front, e', back, heq, h⟩
    obtain rfl | ⟨back, last, rfl⟩ := back.eq_nil_or_concat
    · obtain ⟨rfl, hsame⟩ := List.append_inj' heq rfl
      obtain rfl := (List.cons.inj hsame).1
      exact .inr h
    · rw [List.concat_eq_append, ← List.cons_append, ← List.append_assoc] at heq
      obtain ⟨rfl, -⟩ := List.append_inj' heq rfl
      exact .inl ⟨front, e', back, rfl, h⟩
  · rintro (⟨front, e', back, rfl, h⟩ | h)
    · exact ⟨front, e', back ++ [e], by simp, h⟩
    · exact ⟨es, e, [], rfl, h⟩

theorem Once.append_one (h : s₀.Once es P) (e : Event) : s₀.Once (es ++ [e]) P :=
  once_append_one.mpr (.inl h)

theorem run_append (s : Session) (es fs : List Event) : s.run (es ++ fs) = (s.run es).run fs :=
  List.foldl_append

theorem Gated.not_once_of_new (h : s₀.Gated) (hnew : (s₀.run es).connection? c = none)
    (hP : ∀ s e, P s e → s.connection? c ≠ none) : ¬ s₀.Once es P := by
  rintro ⟨front, e, back, rfl, he⟩
  refine hP _ _ he ?_
  rw [run_append] at hnew
  have hlength := ((h.run front).fades_run (e :: back)).length
  unfold connection? at hnew ⊢
  rw [List.getElem?_eq_none_iff] at hnew ⊢
  omega

end Once

/-- The reader of the connection comes to a result of the first request. -/
def ReadsResult (c : Nat) (s : Session) (e : Event) : Prop :=
  e = .read c ∧ ∃ k result, s.connection? c = some k ∧ k.link.reading = true ∧
    k.link.BringsAnswer (.ok result)

/-- Somebody who waits for the handshake on the connection is dropped. -/
def DropsStart (c : Nat) (s : Session) (e : Event) : Prop :=
  ∃ i call, e = .cancel i ∧ s.Greets i c call

/-- Something happens on the connection after which its server cannot be started: the server refuses
the first request, its input comes to an end or to what cannot be read, or it takes no more. -/
inductive Spoils (c : Nat) (s : Session) : Event → Prop
  | refused {k : Connection} {refusal : Refusal} (connection : s.connection? c = some k)
      (awaits : k.link.Awaits s.greeting "initialize")
      (refused : k.link.BringsAnswer (.error refusal)) : Spoils c s (.read c)
  | unreadable {k : Connection} {l : Link} {p : Option Publication}
      (connection : s.connection? c = some k) (read : k.link.readNext? = some (l, p))
      (unreadable : k.link.nextFrame? = none) : Spoils c s (.read c)
  | unwritten {k : Connection} {v : Json} (connection : s.connection? c = some k)
      (writing : k.link.writing = true)
      (next : k.link.sent[k.link.written]? = some (.frame v)) : Spoils c s (.write c false)

section Spoiling

variable {s : Session} {e : Event} {c : Nat} {k : Connection} {l l' : Link} {first : Json}

theorem ReadsResult.connection (h : ReadsResult c s e) : s.connection? c ≠ none := by
  obtain ⟨-, k, -, hk, -⟩ := h
  simp [hk]

theorem Spoils.connection (h : Spoils c s e) : s.connection? c ≠ none := by
  cases h <;> simp [*]

theorem Idle.not_readsResult (h : Idle e c k.link) (hk : s.connection? c = some k) :
    ¬ ReadsResult c s e := by
  rintro ⟨rfl, k₀, result, hk₀, hreading, v, hv, -⟩
  obtain rfl : k = k₀ := Option.some.inj (hk.symm.trans hk₀)
  obtain ⟨l, p, hread⟩ := Link.exists_read_of_nextFrame? hreading hv
  cases (h.unread rfl).symm.trans hread

theorem Idle.not_spoils (h : Idle e c k.link) (hk : s.connection? c = some k) :
    ¬ Spoils c s e := by
  intro hspoils
  cases hspoils with
  | @refused k₀ refusal connection awaits refused =>
    obtain rfl : k = k₀ := Option.some.inj (hk.symm.trans connection)
    obtain ⟨v, hv, -⟩ := refused
    obtain ⟨l, p, hread⟩ := Link.exists_read_of_nextFrame? awaits.asked.reading hv
    cases (h.unread rfl).symm.trans hread
  | @unreadable k₀ l p connection read =>
    obtain rfl : k = k₀ := Option.some.inj (hk.symm.trans connection)
    cases (h.unread rfl).symm.trans read
  | @unwritten k₀ v connection writing next =>
    obtain rfl : k = k₀ := Option.some.inj (hk.symm.trans connection)
    have hnone := h.unwritten false rfl
    simp [Link.writeNext?, writing, next] at hnone

theorem Moves.replied {r : Reply} (h : Moves e c l l') (hr : l.Replied first r) :
    l'.Replied first r := by
  cases h with
  | reads event read => exact hr.read read
  | writes event write => exact hr.write write
  | receives event inflight sent reading => exact hr.of_same inflight sent

theorem Moves.rests (h : Moves e c l l') : l.Rests l' := by
  cases h with
  | reads event read => exact Link.rests_readNext? read
  | writes event write => exact Link.rests_writeNext? write
  | receives event inflight sent reading =>
    exact Link.rests_of_same sent (congrArg Inflight.closed inflight)

/-- What becomes of the first request while the reader and the writer go on. -/
theorem Moves.awaits (h : Moves e c k.link l') (hk : s.connection? c = some k)
    (hawaits : k.link.Awaits first "initialize") :
    (∃ result, ReadsResult c s e ∧ l'.Replied first (.ok result)) ∨
      ¬ ReadsResult c s e ∧
        (l'.Awaits first "initialize" ∨ ∃ f, l'.Replied first (.error f)) := by
  have hresult (hnone : ∀ result, ¬ k.link.BringsAnswer (.ok result)) : ¬ ReadsResult c s e := by
    rintro ⟨-, k₀, result, hk₀, -, hresult⟩
    obtain rfl : k = k₀ := Option.some.inj (hk.symm.trans hk₀)
    exact hnone result hresult
  cases h with
  | reads event read =>
    cases hawaits.read read with
    | @answered outcome brings replied =>
      cases outcome with
      | ok result => exact .inl ⟨result, ⟨event, k, result, hk, hawaits.asked.reading, brings⟩, replied⟩
      | error refusal =>
        refine .inr ⟨hresult fun result hbrings => ?_, .inr ⟨_, replied⟩⟩
        cases brings.unique hbrings
    | lost nothing replied =>
      exact .inr ⟨hresult fun result hbrings => hbrings.nextFrame?_ne_none nothing,
        .inr ⟨_, replied⟩⟩
    | waits others awaits => exact .inr ⟨hresult fun result => others _, .inl awaits⟩
  | writes event write =>
    refine .inr ⟨?_, hawaits.write write⟩
    rintro ⟨hread, -⟩
    cases event.symm.trans hread
  | receives event inflight sent reading =>
    refine .inr ⟨?_, .inl (hawaits.of_same inflight sent reading)⟩
    rintro ⟨rfl, -⟩
    obtain ⟨bs, event⟩ | event := event <;> cases event

theorem Moves.ruined (h : Moves e c l l') (hruined : l.Ruined first) : l'.Ruined first := by
  obtain hclosed | ⟨f, hfailed⟩ := hruined
  · exact .inl (h.rests.closed hclosed)
  · exact .inr ⟨f, h.replied hfailed⟩

theorem Moves.ruined_of_spoils (h : Moves e c k.link l') (hk : s.connection? c = some k)
    (hspoils : Spoils c s e) : l'.Ruined s.greeting := by
  cases h with
  | reads event read =>
    subst event
    cases hspoils with
    | @refused k₀ refusal connection awaits refused =>
      obtain rfl : k = k₀ := Option.some.inj (hk.symm.trans connection)
      cases awaits.read read with
      | answered brings replied =>
        obtain rfl := refused.unique brings
        exact .inr ⟨_, replied⟩
      -- the refusal is there to be read, and answers the first request
      | lost nothing => exact absurd nothing refused.nextFrame?_ne_none
      | waits others => exact absurd refused (others _)
    | @unreadable k₀ l p connection _ unreadable =>
      obtain rfl : k = k₀ := Option.some.inj (hk.symm.trans connection)
      obtain ⟨-, hclosed⟩ | ⟨hframe, -⟩ := Link.closing?_of_read read
      · exact .inl hclosed
      · exact absurd unreadable hframe
  | writes event write =>
    subst event
    cases hspoils with
    | @unwritten k₀ v connection writing next =>
      obtain rfl : k = k₀ := Option.some.inj (hk.symm.trans connection)
      obtain ⟨-, ⟨hfinish, -⟩ | ⟨haccepted, -⟩ | ⟨-, v', -, rfl⟩⟩ := Link.writeNext?_eq write
      · cases next.symm.trans hfinish
      · cases haccepted
      · left
        show (k.link.closeWith .exited).closing? ≠ none
        simp
  | receives event => obtain ⟨bs, rfl⟩ | rfl := event <;> cases hspoils

/-- Nothing goes wrong without a cause. -/
theorem Moves.spoils_of_ruined (h : Moves e c k.link l') (hk : s.connection? c = some k)
    (hreply : k.link.Awaits s.greeting "initialize" ∨ ∃ r, k.link.Replied s.greeting r)
    (hruined : l'.Ruined s.greeting) : k.link.Ruined s.greeting ∨ Spoils c s e := by
  cases h with
  | @reads p event read =>
    subst event
    obtain ⟨hnone, -⟩ | ⟨hframe, hclosing⟩ := Link.closing?_of_read read
    · exact .inr (.unreadable hk read hnone)
    obtain hclosed | ⟨f, hfailed⟩ := hruined
    · exact .inl (.inl (hclosing ▸ hclosed))
    obtain hawaits | ⟨r, hr⟩ := hreply
    · cases hawaits.read read with
      | @answered outcome brings replied =>
        cases outcome with
        | ok result => cases hfailed.unique replied
        | error refusal => exact .inr (.refused hk hawaits brings)
      | lost nothing => exact absurd nothing hframe
      | waits others awaits => exact absurd hfailed awaits.not_replied
    · obtain rfl := hfailed.unique (hr.read read)
      exact .inl (.inr ⟨f, hr⟩)
  | writes event write =>
    obtain ⟨hwriting, ⟨-, rfl⟩ | ⟨-, rfl⟩ | ⟨rfl, v, hv, -⟩⟩ := Link.writeNext?_eq write
    · exact .inl (hruined.of_same rfl rfl)
    · exact .inl (hruined.of_same rfl rfl)
    · subst event
      exact .inr (.unwritten hk hwriting hv)
  | receives event inflight sent => exact .inl (hruined.of_same inflight.symm sent.symm)

end Spoiling

/-- What is known of a connection while somebody waits for its handshake. -/
structure Waits (s₀ : Session) (es : List Event) (c : Nat) (call : Call) (k : Connection) : Prop where
  greeted : Greeted s₀.greeting call k
  unread : k.link.Awaits s₀.greeting "initialize" → ¬ s₀.Once es (ReadsResult c)
  result : ∀ result, k.link.Replied s₀.greeting (.ok result) → s₀.Once es (ReadsResult c)
  spoiled : s₀.Once es (Spoils c) ↔ k.link.Ruined s₀.greeting

/-- In the run, the start on the connection has failed, when just this had been said on it. The server
was told to forget the request only if it had not answered. -/
def StartLost (s₀ : Session) (es : List Event) (c : Nat) (said : List Json) : Prop :=
  ∃ front e back k, es = front ++ e :: back ∧
    FailsStart (s₀.run front) e (s₀.run (front ++ [e])) c k ∧ k.link.said = said ∧
    (said = [s₀.greeting] ∨
      said = [s₀.greeting, Link.cancellation] ∧ ¬ s₀.Once front (ReadsResult c))

/-- How a connection stands after a run, and what has been said on it. -/
inductive Stands (s₀ : Session) (es : List Event) (c : Nat) (k : Connection) : Prop
  | greeted {i : Nat} {call : Call} (greets : (s₀.run es).Greets i c call)
      (established : k.established = false) (said : k.link.said = [s₀.greeting])
  | dropped (drop : s₀.Once es (DropsStart c)) (nobody : ∀ i call, ¬ (s₀.run es).Greets i c call)
      (established : k.established = false) (said : k.link.said = [s₀.greeting])
  | failed (lost : StartLost s₀ es c k.link.said)
      (nobody : ∀ i call, ¬ (s₀.run es).Greets i c call) (established : k.established = false)
      (closed : k.link.closing? ≠ none)
  | welcomed (result : s₀.Once es (ReadsResult c)) (established : k.established = true)
      (said : ∃ vs, k.link.said = s₀.greeting :: welcome :: vs)

/-- In a run, all connections are in order. -/
structure Orderly (s₀ : Session) (es : List Event) : Prop where
  waits : ∀ {i c call k}, (s₀.run es).Greets i c call → (s₀.run es).connection? c = some k →
    Waits s₀ es c call k
  stands : ∀ {c k}, (s₀.run es).connection? c = some k → Stands s₀ es c k

section Order

variable {s₀ : Session} {es : List Event} {e : Event} {i c : Nat} {call : Call} {k k' : Connection}

theorem StartLost.append_one {said : List Json} (h : StartLost s₀ es c said) (e : Event) :
    StartLost s₀ (es ++ [e]) c said := by
  obtain ⟨front, e', back, k, rfl, hlost⟩ := h
  exact ⟨front, e', back ++ [e], k, by simp, hlost⟩

theorem Stands.said_of_established (h : Stands s₀ es c k) (hestablished : k.established = true) :
    ∃ vs, k.link.said = s₀.greeting :: welcome :: vs := by
  cases h with
  | greeted _ hnot | dropped _ _ hnot | failed _ _ hnot => cases hestablished.symm.trans hnot
  | welcomed _ _ said => exact said

theorem Stands.said_of_nobody (h : Stands s₀ es c k) (hestablished : k.established = false)
    (hnobody : ∀ i call, ¬ (s₀.run es).Greets i c call) :
    k.link.said = [s₀.greeting] ∨ k.link.said = [s₀.greeting, Link.cancellation] := by
  cases h with
  | greeted greets => exact absurd greets (hnobody _ _)
  | dropped _ _ _ said => exact .inl said
  | failed lost =>
    obtain ⟨_, _, _, _, -, -, -, hsaid⟩ := lost
    exact hsaid.imp_right And.left
  | welcomed _ established => cases hestablished.symm.trans established

theorem Stands.beside (h : Stands s₀ es c k) (hbeside : k.Beside k')
    (hgreets : ∀ i call, (s₀.run (es ++ [e])).Greets i c call ↔ (s₀.run es).Greets i c call) :
    Stands s₀ (es ++ [e]) c k' := by
  have hnobody (hnot : ∀ i call, ¬ (s₀.run es).Greets i c call) (i : Nat) (call : Call) :
      ¬ (s₀.run (es ++ [e])).Greets i c call := (hgreets i call).not.mpr (hnot i call)
  cases h with
  | greeted greets established said =>
    have hsaid := (hbeside.rests established).said
    exact .greeted ((hgreets _ _).mpr greets) (hbeside.established.trans established)
      (hsaid.trans said)
  | dropped drop nobody established said =>
    have hsaid := (hbeside.rests established).said
    exact .dropped (drop.append_one e) (hnobody nobody) (hbeside.established.trans established)
      (hsaid.trans said)
  | failed lost nobody established closed =>
    have hrests := hbeside.rests established
    refine .failed ?_ (hnobody nobody) (hbeside.established.trans established)
      (hrests.closed closed)
    rw [hrests.said]
    exact lost.append_one e
  | welcomed result established said =>
    obtain ⟨vs, hvs⟩ := said
    obtain ⟨ws, hws⟩ := hbeside.adds
    exact .welcomed (result.append_one e) (hbeside.established.trans established)
      ⟨vs ++ ws, by rw [hws, hvs]; rfl⟩

theorem Waits.idle (h : Waits s₀ es c call k) (hk : (s₀.run es).connection? c = some k)
    (hsame : k'.link = k.link) (hidle : Idle e c k.link) : Waits s₀ (es ++ [e]) c call k' := by
  constructor
  case greeted => exact ⟨h.greeted.id, h.greeted.ticket, hsame ▸ h.greeted.reply⟩
  case unread =>
    intro hawaits hread
    obtain hbefore | hnow := once_append_one.mp hread
    · exact h.unread (hsame ▸ hawaits) hbefore
    · exact hidle.not_readsResult hk hnow
  case result => exact fun result hreplied => (h.result result (hsame ▸ hreplied)).append_one e
  case spoiled =>
    rw [once_append_one, or_iff_left (hidle.not_spoils hk), hsame]
    exact h.spoiled

theorem Waits.moves (h : Waits s₀ es c call k) (hk : (s₀.run es).connection? c = some k)
    (hgreeting : (s₀.run es).greeting = s₀.greeting) (hmoves : Moves e c k.link k'.link) :
    Waits s₀ (es ++ [e]) c call k' := by
  have hspoiled : s₀.Once (es ++ [e]) (Spoils c) ↔ k'.link.Ruined s₀.greeting := by
    rw [once_append_one, h.spoiled, ← hgreeting]
    constructor
    · rintro (hbefore | hnow)
      · exact hmoves.ruined hbefore
      · exact hmoves.ruined_of_spoils hk hnow
    · exact hmoves.spoils_of_ruined hk (hgreeting ▸ h.greeted.reply)
  have hreplied {r : Reply} (hr : k'.link.Replied s₀.greeting r)
      (hok : ∀ result, r = .ok result → s₀.Once (es ++ [e]) (ReadsResult c)) :
      Waits s₀ (es ++ [e]) c call k' := by
    refine ⟨⟨h.greeted.id, h.greeted.ticket, .inr ⟨r, hr⟩⟩,
      fun hawaits => absurd hr hawaits.not_replied, fun result hresult => ?_, hspoiled⟩
    exact hok result (hresult.unique hr)
  -- the request still waits, or has its reply, which then stays
  obtain hawaits | ⟨r, hr⟩ := h.greeted.reply
  · obtain ⟨result, hread, hr⟩ | ⟨hunread, hawaits' | ⟨f, hr⟩⟩ := hmoves.awaits hk hawaits
    · exact hreplied hr fun _ _ => once_append_one.mpr (.inr hread)
    · refine ⟨⟨h.greeted.id, h.greeted.ticket, .inl hawaits'⟩, fun _ hread => ?_,
        fun result hr => absurd hr hawaits'.not_replied, hspoiled⟩
      obtain hbefore | hnow := once_append_one.mp hread
      · exact h.unread hawaits hbefore
      · exact hunread hnow
    · exact hreplied hr fun _ hok => by cases hok
  · refine hreplied (hmoves.replied hr) fun result hok => ?_
    subst hok
    exact (h.result result hr).append_one e

theorem waits_launched (hg : s₀.Gated) (hnew : (s₀.run es).connection? c = none)
    (hid : call.id = 1) (hticket : call.ticket = 0)
    (hawaits : k'.link.Awaits s₀.greeting "initialize") : Waits s₀ (es ++ [e]) c call k' := by
  have hnever {P : Session → Event → Prop} (hP : ∀ s e, P s e → s.connection? c ≠ none) :
      ¬ s₀.Once (es ++ [e]) P := by
    intro honce
    obtain hbefore | hnow := once_append_one.mp honce
    · exact hg.not_once_of_new hnew hP hbefore
    · exact hP _ _ hnow hnew
  exact ⟨⟨hid, hticket, .inl hawaits⟩, fun _ => hnever fun _ _ => ReadsResult.connection,
    fun result hreplied => absurd hreplied hawaits.not_replied,
    iff_of_false (hnever fun _ _ => Spoils.connection) hawaits.not_ruined⟩

theorem Orderly.greeting (h : Orderly s₀ es) (hg : s₀.Gated) : (s₀.run es).Greeting := by
  intro i c call k hi hk
  rw [(hg.alike_run es).greeting]
  exact (h.waits hi hk).greeted

theorem Orderly.turns (h : Orderly s₀ es) (hg : s₀.Gated) (e : Event)
    (hk' : (s₀.run (es ++ [e])).connection? c = some k') :
    Turns s₀.greeting (s₀.run es) e (s₀.run (es ++ [e])) c k' := by
  rw [run_append_one] at hk' ⊢
  rw [← (hg.alike_run es).greeting]
  exact (hg.run es).turns (h.greeting hg) e hk'

theorem Orderly.waits_step (h : Orderly s₀ es) (hg : s₀.Gated) (e : Event)
    (hi : (s₀.run (es ++ [e])).Greets i c call)
    (hk' : (s₀.run (es ++ [e])).connection? c = some k') : Waits s₀ (es ++ [e]) c call k' := by
  cases h.turns hg e hk' with
  | beside before beside greets same idle =>
    have hi' := (greets i call).mp hi
    exact (h.waits hi' before).idle before (same i call hi') (idle i call hi')
  | comes before established greets moves =>
    exact (h.waits ((greets i call).mp hi) before).moves before (hg.alike_run es).greeting moves
  | launched new established greets alone id ticket awaits =>
    obtain rfl := alone i call hi
    exact waits_launched hg new id ticket awaits
  | failed before fails => exact absurd hi (fails.nobody i call)
  | succeeded before greets replied established nobody => exact absurd hi (nobody i call)
  | dropped event before greets established nobody => exact absurd hi (nobody i call)

theorem Orderly.stands_step (h : Orderly s₀ es) (hg : s₀.Gated) (e : Event)
    (hk' : (s₀.run (es ++ [e])).connection? c = some k') : Stands s₀ (es ++ [e]) c k' := by
  cases h.turns hg e hk' with
  | beside before beside greets => exact (h.stands before).beside beside greets
  | comes before established greets moves =>
    exact (h.stands before).beside (.of_rests established moves.rests) greets
  | launched new established greets alone id ticket awaits =>
    exact .greeted greets established awaits.asked.said
  | failed before fails said =>
    refine .failed ⟨es, e, [], k', rfl, fails, rfl, said.imp_right fun ⟨hsaid, hawaits⟩ => ?_⟩
      fails.nobody fails.established fails.closed
    -- whoever still waited for a reply had not been brought a result
    refine ⟨hsaid, ?_⟩
    cases hk : (s₀.run es).connection? c with
    | none => exact hg.not_once_of_new hk fun _ _ => ReadsResult.connection
    | some k =>
      obtain ⟨i, call, hi⟩ := before k hk
      exact (h.waits hi hk).unread (hawaits k hk)
  | succeeded before greets replied established nobody said =>
    -- a result that was found had been read before
    exact .welcomed (((h.waits greets before).result _ replied).append_one e) established said
  | @dropped i call k event before greets established nobody said =>
    have hdrops : DropsStart c (s₀.run es) e := ⟨i, call, event, greets⟩
    exact .dropped (once_append_one.mpr (.inr hdrops)) nobody established
      (said.trans (h.waits greets before).greeted.said)

theorem Gated.orderly (hg : s₀.Gated) (hnew : ∀ c, s₀.connection? c = none) (es : List Event) :
    Orderly s₀ es := by
  induction es using List.reverseRecOn with
  | nil =>
    have hnone {c : Nat} {k : Connection} (hk : (s₀.run []).connection? c = some k) : False := by
      cases (hnew c).symm.trans hk
    exact ⟨fun _ hk => (hnone hk).elim, fun hk => (hnone hk).elim⟩
  | append_singleton es e ih => exact ⟨ih.waits_step hg e, ih.stands_step hg e⟩

end Order

/-- The server of this connection has never been welcomed, nobody waits for it, and the connection has
closed, when just this had been said on it. -/
structure Retired (c : Nat) (said : List Json) (s : Session) : Prop where
  connection : ∃ k, s.connection? c = some k ∧ k.established = false ∧ k.link.closing? ≠ none ∧
    k.link.said = said
  nobody : ∀ i call, ¬ s.Greets i c call

/-- After a run, servers are told everything in order. A start that something has spoiled, or to which
there is no answer in time, fails as soon as somebody looks at it, and its connection falls silent. A
server whose answer has come is welcomed. -/
structure HandshakeFirst (s₀ : Session) (es : List Event) : Prop where
  order : ∀ c k, (s₀.run es).connection? c = some k → Stands s₀ es c k
  fails : ∀ m i c call, (s₀.run es).Greets i c call →
    s₀.Once es (Spoils c) ∨ call.deadline ≤ m.now ∧ ¬ s₀.Once es (ReadsResult c) →
    (s₀.run es).isReady m i = true ∧
      ∃ k, FailsStart (s₀.run es) (.resume m i) (s₀.run (es ++ [.resume m i])) c k
  welcomes : ∀ m i c call, (s₀.run es).Greets i c call → s₀.Once es (ReadsResult c) →
    ¬ s₀.Once es (Spoils c) →
    (s₀.run es).isReady m i = true ∧
      ∃ k vs, (s₀.run (es ++ [.resume m i])).connection? c = some k ∧
        k.link.said = s₀.greeting :: welcome :: vs
  silent : ∀ e c k, FailsStart (s₀.run es) e (s₀.run (es ++ [e])) c k →
    (k.link.said = [s₀.greeting] ∨ k.link.said = [s₀.greeting, Link.cancellation]) ∧
      ∀ later, Retired c k.link.said (s₀.run (es ++ e :: later))

section Failing

variable {s₀ : Session} {es : List Event} {m : Moment} {i c : Nat} {call : Call} {k : Connection}
  {said : List Json}

theorem FailsStart.retired {s s' : Session} {e : Event} (h : FailsStart s e s' c k) :
    Retired c k.link.said s' :=
  ⟨⟨k, h.connection, h.established, h.closed, rfl⟩, h.nobody⟩

theorem Orderly.retired_step (h : Orderly s₀ es) (hg : s₀.Gated) (e : Event)
    (hretired : Retired c said (s₀.run es)) : Retired c said (s₀.run (es ++ [e])) := by
  obtain ⟨⟨k, hk, hestablished, hclosed, hsaid⟩, hnobody⟩ := hretired
  -- no connection ever goes from the list
  obtain ⟨k', hk'⟩ : ∃ k', (s₀.run (es ++ [e])).connection? c = some k' := by
    have hlength := ((hg.run es).fades ((hg.run es).step e).1).length
    have hlt := (List.getElem?_eq_some_iff.mp hk).1
    rw [run_append_one]
    exact ⟨_, List.getElem?_eq_getElem (Nat.lt_of_lt_of_le hlt hlength)⟩
  have hbeside {k₀ : Connection} (hk₀ : (s₀.run es).connection? c = some k₀)
      (hbeside : k₀.Beside k')
      (hgreets : ∀ i call, (s₀.run (es ++ [e])).Greets i c call ↔ (s₀.run es).Greets i c call) :
      Retired c said (s₀.run (es ++ [e])) := by
    obtain rfl : k = k₀ := Option.some.inj (hk.symm.trans hk₀)
    have hrests := hbeside.rests hestablished
    exact ⟨⟨k', hk', hbeside.established.trans hestablished, hrests.closed hclosed,
      hrests.said.trans hsaid⟩, fun i call => (hgreets i call).not.mpr (hnobody i call)⟩
  cases h.turns hg e hk' with
  | beside before beside greets => exact hbeside before beside greets
  | comes before established greets moves =>
    exact hbeside before (.of_rests established moves.rests) greets
  | launched new => cases hk.symm.trans new
  | failed before =>
    obtain ⟨i, call, hi⟩ := before k hk
    exact absurd hi (hnobody i call)
  | succeeded before greets => exact absurd greets (hnobody _ _)
  | dropped event before greets => exact absurd greets (hnobody _ _)

theorem Gated.retired_run (hg : s₀.Gated) (hnew : ∀ c, s₀.connection? c = none)
    (h : Retired c said (s₀.run es)) (later : List Event) :
    Retired c said (s₀.run (es ++ later)) := by
  induction later using List.reverseRecOn with
  | nil => rwa [List.append_nil]
  | append_singleton later e ih =>
    rw [← List.append_assoc]
    exact (hg.orderly hnew (es ++ later)).retired_step hg e ih

theorem Waits.isReady (h : Waits s₀ es c call k) (hi : (s₀.run es).Greets i c call)
    (hk : (s₀.run es).connection? c = some k)
    (hends : ¬ k.link.Awaits s₀.greeting "initialize" ∨ call.deadline ≤ m.now) :
    (s₀.run es).isReady m i = true := by
  have hstage : (s₀.run es).stage? i = some (.handshaking c call) := hi
  unfold Session.isReady
  simp only [hstage, hk, Option.map_some, Option.getD_some, Bool.or_eq_true]
  obtain hanswered | hlate := hends
  · obtain ⟨r, hr⟩ := h.greeted.reply.resolve_left hanswered
    right
    simp [h.greeted.ticket, Inflight.slot, hr.slots, Slot.isEmpty]
  · exact .inl (decide_eq_true hlate)

/-- Over a link that is ruined, and after the deadline, a look can only fail. -/
theorem Orderly.failsStart (h : Orderly s₀ es) (hg : s₀.Gated)
    (hi : (s₀.run es).Greets i c call) (hk : (s₀.run es).connection? c = some k)
    (hfailing : k.link.Ruined s₀.greeting ∨
      call.deadline ≤ m.now ∧ ¬ s₀.Once es (ReadsResult c)) :
    ∃ k', FailsStart (s₀.run es) (.resume m i) (s₀.run (es ++ [.resume m i])) c k' := by
  have hwaits := h.waits hi hk
  have hprepares := (hg.run es).prepares (m := m) (h.greeting hg) hi hk
  have hlooks := hwaits.greeted.looks (m := m) hk ((hg.run es).starting hi rfl).2
  have hstep : s₀.run (es ++ [.resume m i]) =
      ((s₀.run es).checkHandshake m i c call).tidy := by
    rw [run_append_one, step, resume, stretch_of_handshaking hi]
  rw [hstep]
  -- a look that waits on, or finds a result, goes against what has gone wrong
  generalize (s₀.run es).checkHandshake m i c call = s' at hlooks
  cases hlooks with
  | waits awaits early =>
    obtain hruined | ⟨hlate, -⟩ := hfailing
    · exact absurd hruined awaits.not_ruined
    · omega
  | @fails l f said =>
    obtain ⟨k', hk'⟩ : ∃ k', (((s₀.run es).setLink c l).failStart i c f).tidy.connection? c =
        some k' := by
      rw [connection?_tidy, connection?_failStart, if_pos rfl, connection?_setLink_self hk]
      exact ⟨_, rfl⟩
    exact ⟨k', (hprepares.failsStart hk').1⟩
  | succeeds opened replied =>
    obtain hruined | ⟨-, hunread⟩ := hfailing
    · obtain hclosed | ⟨f, hf⟩ := hruined
      · exact absurd opened hclosed
      · cases hf.unique replied
    · exact absurd (hwaits.result _ replied) hunread

theorem Waits.answered (h : Waits s₀ es c call k) (hread : s₀.Once es (ReadsResult c))
    (hunspoiled : ¬ s₀.Once es (Spoils c)) :
    k.link.closing? = none ∧ ∃ result, k.link.Replied s₀.greeting (.ok result) := by
  have hhale : ¬ k.link.Ruined s₀.greeting := fun hruined => hunspoiled (h.spoiled.mpr hruined)
  constructor
  · by_contra hclosed
    exact hhale (.inl hclosed)
  · obtain ⟨r, hr⟩ := h.greeted.reply.resolve_left fun hawaits => h.unread hawaits hread
    cases r with
    | ok result => exact ⟨result, hr⟩
    | error f => exact absurd (.inr ⟨f, hr⟩) hhale

theorem Serves.established {s s' : Session} (h : Serves i c s s') (hk : s.connection? c = some k)
    (hestablished : k.established = true) :
    ∃ k', s'.tidy.connection? c = some k' ∧ k'.established = true := by
  obtain ⟨k₁, hk₁, hused⟩ := h.connections.this k hk
  have hk₁ : s'.connection? c = some k₁ := hk₁
  obtain ⟨k', hk'⟩ : ∃ k', s'.tidy.connection? c = some k' := by
    rw [connection?_tidy, hk₁]
    exact ⟨_, rfl⟩
  obtain ⟨k₂, hk₂, hbeside, -⟩ := (aside_tidy s').back c k' hk'
  obtain rfl : k₁ = k₂ := Option.some.inj (hk₁.symm.trans hk₂)
  exact ⟨k', hk', (hbeside.established.trans hused.established).trans hestablished⟩

theorem Orderly.established (h : Orderly s₀ es) (hg : s₀.Gated)
    (hi : (s₀.run es).Greets i c call) (hk : (s₀.run es).connection? c = some k)
    (hread : s₀.Once es (ReadsResult c)) (hunspoiled : ¬ s₀.Once es (Spoils c)) :
    ∃ k', (s₀.run (es ++ [.resume m i])).connection? c = some k' ∧ k'.established = true := by
  have hwaits := h.waits hi hk
  obtain ⟨hopened, result, hreplied⟩ := hwaits.answered hread hunspoiled
  have hslot : k.link.inflight.slot call.ticket = .filled (.ok result) := by
    simp [hwaits.greeted.ticket, Inflight.slot, hreplied.slots]
  obtain ⟨k₀, hk₀, hreleased, -⟩ := (hg.run es).held hi rfl
  obtain rfl : k = k₀ := Option.some.inj (hk.symm.trans hk₀)
  have htakes : k.link.takes = true :=
    k.link.takes_iff.mpr ⟨hopened, ((hg.run es).hale hk hreleased hopened).1⟩
  obtain ⟨s₁, hreadied, hresume⟩ := resume_of_answered (m := m) hi hk hslot htakes
  have hneeds : s₁.NeedsServer i := by
    intro r
    rw [work?_of_tasks hreadied.tasks]
    exact ((hg.run es).starting hi rfl).2 r
  have hserves : Serves i c s₁ (s₁.serve m i c) := .serve hneeds
  rw [run_append_one, step, hresume]
  exact hserves.established hreadied.connection rfl

end Failing

/-- However operations go on beside each other, and whatever the servers do: a server hears first of
the handshake, then that it is welcome, and only then anything else. -/
theorem handshake_comes_first (language : String) (server : Setup.Server)
    (timeouts : Setup.Timeouts) (processId : Nat) (rootUri : String) (es : List Event) :
    HandshakeFirst (new language server timeouts processId rootUri) es := by
  have hg := Gated.new language server timeouts processId rootUri
  have hnew (c : Nat) : (new language server timeouts processId rootUri).connection? c = none := rfl
  generalize new language server timeouts processId rootUri = s₀ at hg hnew
  have horderly := hg.orderly hnew es
  constructor
  case order => exact fun c k hk => horderly.stands hk
  case fails =>
    intro m i c call hi hfailing
    obtain ⟨k, hk, -⟩ := (hg.run es).connection_of_greets hi
    have hwaits := horderly.waits hi hk
    have hfailing := hfailing.imp_left hwaits.spoiled.mp
    refine ⟨hwaits.isReady hi hk ?_, horderly.failsStart hg hi hk hfailing⟩
    exact hfailing.imp (fun hruined hawaits => hawaits.not_ruined hruined) And.left
  case welcomes =>
    intro m i c call hi hread hunspoiled
    obtain ⟨k, hk, -⟩ := (hg.run es).connection_of_greets hi
    have hwaits := horderly.waits hi hk
    refine ⟨hwaits.isReady hi hk (.inl fun hawaits => hwaits.unread hawaits hread), ?_⟩
    obtain ⟨k', hk', hestablished⟩ := horderly.established (m := m) hg hi hk hread hunspoiled
    obtain ⟨vs, hsaid⟩ :=
      ((hg.orderly hnew (es ++ [.resume m i])).stands hk').said_of_established hestablished
    exact ⟨k', vs, hk', hsaid⟩
  case silent =>
    intro e c k hfails
    have hstands := (hg.orderly hnew (es ++ [e])).stands hfails.connection
    refine ⟨hstands.said_of_nobody hfails.established hfails.nobody, fun later => ?_⟩
    have hretired := hg.retired_run hnew hfails.retired later
    rwa [List.append_assoc] at hretired

/-- Two ask for a server, and it never answers. -/
def unanswered : List Event :=
  let m : Moment := ⟨0, .ok true, fun _ => .ok [], fun _ => false⟩
  [.begin m (.open ⟨[0x2F, 0x61]⟩ "one"), .begin m (.open ⟨[0x2F, 0x62]⟩ "two")]

theorem handshake_comes_first_unanswered :
    let s₀ := new "lua" ⟨"luals", [], "lua", []⟩ {} 1 "file:///"
    let m : Moment := ⟨100000, .ok true, fun _ => .ok [], fun _ => false⟩
    ∃ call k, (s₀.run unanswered).Greets 0 0 call ∧ call.deadline ≤ m.now ∧
      ¬ s₀.Once unanswered (ReadsResult 0) ∧
      FailsStart (s₀.run unanswered) (.resume m 0) (s₀.run (unanswered ++ [.resume m 0])) 0 k ∧
      k.link.said = [s₀.greeting, Link.cancellation] ∧
      ∀ later, Retired 0 k.link.said (s₀.run (unanswered ++ .resume m 0 :: later)) := by
  intro s₀ m
  have hfirst := handshake_comes_first "lua" ⟨"luals", [], "lua", []⟩ {} 1 "file:///" unanswered
  have hstage : ((s₀.run unanswered).stage? 0).any (fun stage =>
      stage.isStarting && stage.connection? == some 0) = true := by decide +kernel
  have hdeadline : (s₀.run unanswered).deadline? 0 = some 60000 := by decide +kernel
  obtain ⟨stage, hstage, hwaits⟩ := (Option.any_eq_true _ _).mp hstage
  obtain ⟨call, rfl⟩ : ∃ call, stage = .handshaking 0 call := by
    cases stage with
    | handshaking c call =>
      obtain rfl : c = 0 := by simpa [Stage.connection?, Stage.isStarting] using hwaits
      exact ⟨call, rfl⟩
    | _ => simp [Stage.isStarting] at hwaits
  have hlate : call.deadline ≤ m.now := by
    rw [deadline?, hstage] at hdeadline
    rw [Option.some.inj hdeadline]
    decide
  have hunread : ¬ s₀.Once unanswered (ReadsResult 0) := by
    rintro ⟨front, e, back, heq, rfl, -⟩
    have hmem : Event.read 0 ∈ unanswered := by rw [heq]; simp
    simp [unanswered] at hmem
  obtain ⟨-, k, hfails⟩ := hfirst.fails m 0 0 call hstage (.inr ⟨hlate, hunread⟩)
  obtain ⟨hsaid, hsilent⟩ := hfirst.silent _ _ _ hfails
  have htwo : ((s₀.run (unanswered ++ [.resume m 0])).connection? 0).map (·.link.said.length) =
      some 2 := by decide +kernel
  rw [hfails.connection] at htwo
  refine ⟨call, k, hstage, hlate, hunread, hfails, hsaid.resolve_left fun hone => ?_, hsilent⟩
  rw [Option.map_some, hone] at htwo
  cases htwo

end LanguageClient.Session
