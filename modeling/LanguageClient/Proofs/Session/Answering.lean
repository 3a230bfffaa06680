import LanguageClient.Proofs.Query
import LanguageClient.Proofs.Session.Coming

namespace LanguageClient.Session

/-- What a query may have come to at this stage: it asks by its own method, and its answer is what
it makes of some value. -/
def Stage.Fits (language : String) (q : Query) : Stage → Prop
  | .asking _ call => call.method = q.method
  | .done (.ok a) => ∃ v, q.read language v = .ok a
  | .queued | .handshaking _ _ | .reading _ _ | .stopping _ _ | .reaping _ _ | .killing _
  | .done (.error _) | .dropped => True

/-- All queries of the session stand where they may. -/
def Fitting (s : Session) : Prop :=
  ∀ {i path q stage}, s.work? i = some (.query path q) → s.stage? i = some stage →
    stage.Fits s.language q

variable {s s' : Session} {m : Moment} {i c : Nat} {call : Call} {path : Path} {q : Query}
  {stage : Stage}

theorem fits_conclude {language : String} {reply : Reply} :
    (Stage.done (q.conclude language reply)).Fits language q := by
  cases hreply : q.conclude language reply with
  | error f => trivial
  | ok a => exact Query.exists_read_of_conclude hreply

section Steps

variable {P : Connection → Prop} {g : Setting}

theorem Comes.fits (h : Comes P g stage) (hwork : g.work = .query path q)
    (hbefore : g.before.Fits g.language q) : stage.Fits g.language q := by
  cases h with
  | stays => exact hbefore
  | asks work =>
    cases hwork.symm.trans work
    rfl
  | skips work =>
    cases hwork.symm.trans work
    exact ⟨.null, q.read_null _⟩
  | hears work | loses work =>
    cases hwork.symm.trans work
    exact fits_conclude
  | opens work | ends work => cases hwork.symm.trans work
  | greets | reads | stops | reaps | kills | refused | unreadable | unlocated | unlaunched
  | failsStart => trivial

theorem Fitting.step (h : s.Fitting) (hg : s.Gated) (e : Event) : (s.step e).Fitting := by
  intro j path q stage hwork hstage
  have hlanguage : (s.step e).language = s.language := by rw [(hg.step e).1.alike]
  have heach : s.Each fun w stage => ∀ path q, w = .query path q → stage.Fits s.language q := by
    rintro _ _ _ hwork hi path q rfl
    exact h hwork hi
  rw [hlanguage]
  refine heach.step hg abiding_true (fun _ _ _ => trivial) (fun _ _ _ _ => trivial)
    (fun _ _ _ _ => trivial) ?_ hwork hstage path q rfl
  exact fun _ hbefore hcomes path q hw => hcomes.fits hw (hbefore path q hw)

theorem Fitting.run (h : s.Fitting) (hg : s.Gated) (es : List Event) : (s.run es).Fitting := by
  induction es using List.reverseRecOn with
  | nil => exact h
  | append_singleton es e ih =>
    rw [run_append_one]
    exact ih.step (hg.run es) e

end Steps

section Replies

variable {k : Connection} {r : Reply} {outcome : LanguageClient.Outcome}

/-- The reader of the connection comes next to an answer to the call, which has had none. -/
def Hears (s : Session) (c : Nat) (call : Call) (outcome : LanguageClient.Outcome) : Prop :=
  ∃ k v, s.connection? c = some k ∧ k.link.inflight.slot call.ticket = .empty ∧
    k.link.reading = true ∧ k.link.nextFrame? = some v ∧
    Incoming.ofJson? v = some (.answer call.id outcome)

theorem Heeded.hasReply_read (hh : s.Heeded) (hwaits : s.waits c i = some call)
    (hspeaks : s.Has c (Connection.Speaks s.language)) (h : s.Hears c call outcome) :
    (s.step (.read c)).Has c
      (Connection.HasReply call.ticket (outcomeReply s.language call.method outcome)) := by
  obtain ⟨k, v, hk, hempty, hreading, hframe, hanswer⟩ := h
  obtain ⟨l, p, hread⟩ := Link.exists_read_of_nextFrame? hreading hframe
  have hfilled : l.inflight.slot call.ticket =
      .filled (outcomeReply s.language call.method outcome) := by
    obtain ⟨-, ⟨hended, -⟩ | ⟨fault, rest, hfault, -⟩ | ⟨v', rest, hv', rfl⟩⟩ :=
      Link.readNext?_eq hread
    · simp [Link.nextFrame?, hended] at hframe
    · simp [Link.nextFrame?, hfault] at hframe
    · obtain rfl : v' = v := by simpa [Link.nextFrame?, hv'] using hframe
      have hfind : k.link.inflight.find? call.id = some call.owed :=
        Inflight.find?_of_mem (hh c k hk).distinct ((hh c k hk).entered hwaits hempty)
      have hlanguage : k.link.inflight.language = s.language := hspeaks k hk
      have hreply : k.link.inflight.replyOf call.owed outcome =
          outcomeReply s.language call.method outcome := by
        cases outcome <;> simp [Inflight.replyOf, outcomeReply, hlanguage, Call.owed]
      rw [Link.inflight_route, hanswer]
      refine (Inflight.slot_complete_of_find? _ _ hfind _).trans ?_
      rw [if_pos ⟨rfl, hempty⟩, hreply]
  rw [step_read_of_readNext? hk hread]
  refine (lasting_hasReply _ _).tidy ?_
  intro k' hk'
  rw [connection?_setLink_self hk] at hk'
  cases hk'
  exact hfilled

theorem isReady_of_hasReply (hi : s.stage? i = some (.asking c call))
    (hk : s.connection? c = some k) (h : k.HasReply call.ticket r) : s.isReady m i = true := by
  have hslot : k.link.inflight.slot call.ticket = .filled r := h
  simp [isReady, hi, hk, hslot, Slot.isEmpty]

/-- Whoever finds the reply to its query is done with what the query makes of it. -/
theorem result?_resume_of_hasReply (hwork : s.work? i = some (.query path q))
    (hi : s.stage? i = some (.asking c call)) (hk : s.connection? c = some k)
    (h : k.HasReply call.ticket r) :
    (s.resume m i).result? i = some (q.conclude s.language r) := by
  have hstretch : s.stretch m i = s.checkAsking m i q c call := by
    unfold stretch
    rw [task_of_stage hi hwork]
  have hpoll : s.pollCall m c call =
      (some r, s.setLink c { k.link with inflight := (k.link.inflight.take? call.ticket).2 }) := by
    rw [pollCall_of_connection hk, Link.poll_of_filled h]
  rw [result?_eq_some, resume, hstretch]
  unfold checkAsking
  rw [hpoll]
  exact stage?_setStage_self hi

end Replies

/-- All that a session keeps to while it runs, as far as its queries need it. -/
structure Sound (s : Session) : Prop where
  gated : s.Gated
  heeded : s.Heeded
  fitting : s.Fitting
  speaks : ∀ c, s.Has c (Connection.Speaks s.language)

namespace Sound

theorem new (language : String) (server : Setup.Server) (timeouts : Setup.Timeouts)
    (processId : Nat) (rootUri : String) :
    (new language server timeouts processId rootUri).Sound where
  gated := Gated.new language server timeouts processId rootUri
  heeded := Heeded.new language server timeouts processId rootUri
  fitting hwork _ := by cases hwork
  speaks c k hk := by cases hk

theorem run (h : s.Sound) (es : List Event) : (s.run es).Sound where
  gated := h.gated.run es
  heeded := h.heeded.run h.gated es
  fitting := Fitting.run h.fitting h.gated es
  speaks c := by
    have hlanguage : (s.run es).language = s.language := by rw [h.gated.alike_run es]
    rw [hlanguage]
    exact h.gated.speaks_run (h.speaks c) es

/-- When the answer to a query has been read, it waits for the operation, whatever comes later. As
soon as the operation goes on, it is done with what the query makes of the answer. -/
theorem answered (h : s.Sound) (hwork : s.work? i = some (.query path q))
    (hi : s.stage? i = some (.asking c call)) {outcome : LanguageClient.Outcome}
    (hears : s.Hears c call outcome) {later : List Event} (hlater : ∀ e ∈ later, e.Spares i)
    (m : Moment) :
    (s.run (.read c :: later)).isReady m i = true ∧
      (s.run (.read c :: later ++ [.resume m i])).result? i =
        some (q.conclude s.language (outcomeReply s.language q.method outcome)) := by
  have hmethod : call.method = q.method := h.fitting hwork hi
  have hcall : (Stage.asking c call).call? c = some call := if_pos rfl
  have hwaits : s.waits c i = some call := by rw [waits, hi, Option.bind_some, hcall]
  have hread := h.heeded.hasReply_read hwaits (h.speaks c) hears
  obtain ⟨k, -, hk, -⟩ := hears
  -- the reply is there once it has been read
  let s₁ := s.run [.read c]
  have hsound : s₁.Sound := h.run [.read c]
  obtain ⟨k₁, hk₁⟩ := h.gated.connection_run hk [.read c]
  have hi₁ : s₁.stage? i = some (.asking c call) := by
    refine h.gated.stage?_run hi fun e he => ?_
    obtain rfl := List.mem_singleton.mp he
    exact ⟨fun _ => Event.noConfusion, Event.noConfusion⟩
  -- and stays until the operation takes it
  obtain ⟨k₂, hk₂⟩ := hsound.gated.connection_run hk₁ later
  have hi₂ : (s₁.run later).stage? i = some (.asking c call) := hsound.gated.stage?_run hi₁ hlater
  have hreply := hsound.heeded.hasReply_run hsound.gated hi₁ hcall hk₁ (hread k₁ hk₁) hlater k₂ hk₂
  have hwork₂ : (s₁.run later).work? i = some (.query path q) :=
    h.gated.work?_run hwork (.read c :: later)
  have hlanguage : (s₁.run later).language = s.language := by
    rw [show s₁.run later = s.run (.read c :: later) from rfl, h.gated.alike_run]
  refine ⟨isReady_of_hasReply hi₂ hk₂ hreply, ?_⟩
  rw [run_append_one, ← hmethod, ← hlanguage]
  rw [← hlanguage] at hreply
  exact result?_resume_of_hasReply hwork₂ hi₂ hk₂ hreply

end Sound

end LanguageClient.Session
