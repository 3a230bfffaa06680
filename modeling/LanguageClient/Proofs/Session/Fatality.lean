import LanguageClient.Proofs.Link.Fatality
import LanguageClient.Proofs.Session.Handshake
import LanguageClient.Proofs.Session.Shutdown

namespace LanguageClient

/-- What the launch of a server can fail with. -/
inductive Failure.OfLaunch (language : String) : Failure → Prop
  | notInstalled (command : String) : OfLaunch language (.notInstalled language command)
  | startFailed (reason : String) : OfLaunch language (.startFailed language reason)

theorem Failure.OfLaunch.isFatal {language : String} {f : Failure} (h : f.OfLaunch language) :
    f.isFatal = true := by
  cases h <;> rfl

namespace Session

variable {s s' : Session} {m : Moment} {i c : Nat} {call : Call} {f : Failure} {e : Event}

/-- In this step an operation launches a server, or goes on with one that it has launched, and has a
failure for it: it comes to its end, and no connection has been established. -/
structure StartFails (s : Session) (e : Event) (s' : Session) (i : Nat) (f : Failure) : Prop where
  operation : e.operation? s = some i
  undone : s.result? i = none
  failed : s'.result? i = some (.error f)
  attempt : s.launches < s'.launches ∨ ∃ c call, s.Greets i c call
  unestablished : ∀ c k', s'.connection? c = some k' → k'.established = true →
    ∃ k, s.connection? c = some k ∧ k.established = true

/-- What a failed start leaves behind. -/
structure FailedStart (s : Session) (m : Moment) (s' : Session) (f : Failure) : Prop where
  failure : m.launch = .error f ∨ ∃ reason, f = .startFailed s.language reason
  lifecycle : ∃ reason, s'.lifecycle = .startFailed reason

theorem result?_eq_some {r : Except Failure Answer} :
    s.result? i = some r ↔ s.stage? i = some (.done r) := by
  unfold result?
  split
  · rename_i r' hr
    rw [hr]
    simp
  · rename_i hne
    simp only [false_iff, reduceCtorEq]
    exact fun hr => hne r hr

theorem not_result?_setStage {stage : Stage} {r : Except Failure Answer}
    (hstage : ∀ r, stage ≠ .done r) : (s.setStage i stage).result? i ≠ some r := by
  rw [Ne, result?_eq_some, stage?_setStage, if_pos rfl, Option.map_eq_some_iff]
  rintro ⟨-, -, hdone⟩
  exact hstage r hdone

theorem result?_finish {r r' : Except Failure Answer}
    (h : (s.finish i r).result? i = some r') : r' = r := by
  rw [result?_eq_some, finish, stage?_setStage, if_pos rfl, Option.map_eq_some_iff] at h
  obtain ⟨-, -, hdone⟩ := h
  exact (Stage.done.inj hdone).symm

theorem not_failed_finishShutdown {restartable : Bool} :
    (s.finishShutdown i restartable).result? i ≠ some (.error f) := by
  intro h
  cases result?_finish h

theorem Reaping.not_failed {R : Connection → Connection → Prop} {restartable : Bool}
    (h : Reaping R i restartable c s s') : s'.result? i ≠ some (.error f) := by
  cases h with
  | finishes => exact not_failed_finishShutdown
  | reaps | kills => exact not_result?_setStage (by simp)

theorem Stopping.not_failed {restartable : Bool} (h : Stopping i restartable c s s') :
    s'.result? i ≠ some (.error f) := by
  cases h with
  | waits => exact not_result?_setStage (by simp)
  | closes polled tasks reaping => exact reaping.not_failed

theorem Handshake.failedStart (h : Handshake i c call s s') (hc : s.Holds c false)
    (hfailed : s'.result? i = some (.error f))
    (hnot : ∀ k', s'.connection? c = some k' → k'.established = false) :
    s.FailedStart m s' f := by
  cases h with
  | waits => exact absurd hfailed (not_result?_setStage (by simp))
  | @fails f' s₁ polled tasks =>
    have hspeaks : s₁.language = s.language := by rw [polled.rest]
    have hfailure := Except.error.inj (result?_finish hfailed)
    exact ⟨.inr ⟨_, hspeaks ▸ hfailure⟩, _, rfl⟩
  | @succeeds result s₁ s' polled tasks serves =>
    obtain ⟨k, hk, -, -⟩ := polled.aged.holds hc
    have hestablished : ((s₁.established c result).leaveGate i).connection? c =
        some { k with abilities := Abilities.ofHandshake result, established := true } := by
      refine (connection?_updateConnection s₁ c c _).trans ?_
      rw [if_pos rfl, hk, Option.map_some]
    obtain ⟨k', hk', hages⟩ := serves.aged.fore hestablished
    have hyes : k'.established = true := hages.established
    rw [hnot k' hk'] at hyes
    cases hyes

/-- A stretch that attempts to start the server, and fails at it. -/
theorem Gated.failedStart_of_outcome (hg : s.Gated) (h : Outcome m i s s')
    (hundone : s.result? i = none) (hfailed : s'.result? i = some (.error f))
    (hattempt : s.launches < s'.launches ∨ ∃ c call, s.Greets i c call)
    (hnot : ∀ c k', s'.connection? c = some k' → k'.established = true →
      ∃ k, s.connection? c = some k ∧ k.established = true) : s.FailedStart m s' f := by
  -- whoever neither launches a server nor waits for one has attempted nothing
  have hnone (hsame : s'.launches = s.launches) {stage : Stage} (hi : s.stage? i = some stage)
      (hstage : stage.isStarting = false) : False := by
    obtain hmore | ⟨c, call, hgreets⟩ := hattempt
    · omega
    · exact not_greets_of_stage hi hstage c call hgreets
  cases h with
  | idle =>
    rw [hundone] at hfailed
    cases hfailed
  | goesOn stage_ served undone serves =>
    exact (hnone serves.launches stage_ (Bool.or_eq_false_iff.mp served.not_holdsGate).1).elim
  | served turn work serving serves => exact (hnone serves.launches turn.stage rfl).elim
  | unlaunched turn work alone launch =>
    obtain rfl := Except.error.inj (result?_finish hfailed)
    exact ⟨.inl launch, _, rfl⟩
  | @launches hasProcess _ turn work alone launch handshake =>
    have hstart := handshake.failedStart (m := m) (holds_launched s hasProcess) hfailed
      fun k' hk' => by
        by_contra hyes
        obtain ⟨k, hk, -⟩ := hnot _ k' hk' (by simpa using hyes)
        simp [connection?] at hk
    exact ⟨hstart.failure, hstart.lifecycle⟩
  | @greets c call _ stage handshake =>
    have hheld : s.Holds c false := hg.held stage rfl
    refine handshake.failedStart hheld hfailed fun k' hk' => ?_
    by_contra hyes
    obtain ⟨k, hk, hestablished⟩ := hnot _ k' hk' (by simpa using hyes)
    obtain ⟨k₀, hk₀, -, hno⟩ := hheld
    obtain rfl := Option.some.inj (hk₀.symm.trans hk)
    rw [hno] at hestablished
    cases hestablished
  | stopsNothing => exact absurd hfailed not_failed_finishShutdown
  | stops turn work ready stopping => exact absurd hfailed stopping.not_failed
  | goesOnStopping stage work stopping => exact absurd hfailed stopping.not_failed
  | goesOnReaping stage_ reaps reaping => exact absurd hfailed reaping.not_failed

theorem Gated.failedStart_of_begins (hg : s.Gated) {w : Work} (h : Begins m w s s')
    (hfailed : s'.result? s.tasks.length = some (.error f))
    (hattempt : s.launches < s'.launches)
    (hnot : ∀ c k', s'.connection? c = some k' → k'.established = true →
      ∃ k, s.connection? c = some k ∧ k.established = true) : s.FailedStart m s' f := by
  cases h with
  | refused => exact absurd hattempt (Nat.lt_irrefl _)
  | served work serving serves =>
    exact absurd (show s'.launches = s.launches from serves.launches) (Nat.ne_of_gt hattempt)
  | queues => exact absurd hattempt (Nat.lt_irrefl _)
  | @turns lifecycle _ settles free outcome =>
    have hundone : (s.joined w lifecycle).result? s.tasks.length = none := by
      rw [result?, show (s.joined w lifecycle).stage? s.tasks.length = _ from s.stage?_added_self w]
    have hstart := (hg.joined settles).failedStart_of_outcome outcome hundone hfailed
      (.inl hattempt) hnot
    exact ⟨hstart.failure, hstart.lifecycle⟩

theorem established_of_tidy {k : Connection} (hk : s.connection? c = some k) :
    ∃ k', s.tidy.connection? c = some k' ∧ k'.established = k.established := by
  refine ⟨_, by rw [connection?_tidy, hk, Option.map_some], ?_⟩
  split
  · exact k.kept_reap.established
  · exact k.established_release

/-- A start that fails does so fatally, if only the launch itself fails as launches do, and then the
session has no connection that serves. -/
theorem Gated.startFails (hg : s.Gated) (hs : Step s e s') (h : StartFails s e s' i f)
    (hlaunch : ∀ m f, e.moment? = some m → m.launch = .error f → f.OfLaunch s.language) :
    f.isFatal = true ∧ (∀ c, ¬ s'.Serving c) ∧ ∃ reason, s'.status = .startFailed reason := by
  have hconclude {m : Moment} (hm : e.moment? = some m) (hstart : s.FailedStart m s' f) :
      f.isFatal = true ∧ (∀ c, ¬ s'.Serving c) ∧ ∃ reason, s'.status = .startFailed reason := by
    obtain ⟨reason, hreason⟩ := hstart.lifecycle
    refine ⟨?_, fun c hc => ?_, reason, by simp only [status, hreason]⟩
    · obtain hfailed | ⟨reason, rfl⟩ := hstart.failure
      · exact (hlaunch m f hm hfailed).isFatal
      · rfl
    · cases hreason.symm.trans hc.ready
  have hnot {s₁ : Session} (htidy : s' = s₁.tidy) (c : Nat) (k₁ : Connection)
      (hk₁ : s₁.connection? c = some k₁) (hyes : k₁.established = true) :
      ∃ k, s.connection? c = some k ∧ k.established = true := by
    obtain ⟨k', hk', hsame⟩ := established_of_tidy hk₁
    exact h.unestablished c k' (htidy ▸ hk') (hsame.trans hyes)
  have hoperation := h.operation
  have hfailed := h.failed
  cases hs with
  | @begins m w s₁ begins =>
    obtain rfl := Option.some.inj hoperation
    have hmore : s.launches < s₁.launches := by
      refine h.attempt.resolve_right ?_
      rintro ⟨c, call, hgreets⟩
      rw [Greets, stage?_length] at hgreets
      cases hgreets
    have hstart := hg.failedStart_of_begins begins hfailed hmore (hnot rfl)
    exact hconclude rfl ⟨hstart.failure, hstart.lifecycle⟩
  | @resumes m j s₁ outcome =>
    obtain rfl := Option.some.inj hoperation
    have hstart := hg.failedStart_of_outcome outcome h.undone hfailed h.attempt (hnot rfl)
    exact hconclude rfl ⟨hstart.failure, hstart.lifecycle⟩
  | nothing | settles | tells =>
    -- nobody's stage changes
    exact absurd (h.undone.symm.trans hfailed) (by simp)
  | cancels | reads | writes | receives | endsInput | tidies => cases hoperation

/-- Whether a failure is fatal tells whether anything still serves where it came from: for a call,
at the moment at which its failure is decided; for a notification, when it is to be sent; and for a
start, when it is over. The exception is a link that this side has closed: what fails for that
reason is not fatal. (A call that displaces another under the same id comes after as many as there
are ids.) -/
theorem failure_isFatal_iff_closed (language : String) :
    (∀ (es : List Conversation.Event) (n : Nat) (a : Caller) (f : Failure) (upTo : Nat),
      (Conversation.run language es).callers[n]? = some a → a.fate = .returned (.error f) upTo →
      ∃ front e back, es = front ++ e :: back ∧
        (∀ r, ¬ (Conversation.run language front).Decided n r) ∧
        (Conversation.run language (front ++ [e])).Decided n (.error f) ∧
        (f.Tells (Conversation.run language (front ++ [e])).link ∨
          UInt64.size ≤ (Conversation.run language front).callers.length)) ∧
    (∀ (es : List Conversation.Event) (method : String) (params : Option Json) (f : Failure),
      ((Conversation.run language es).link.notify method params).1 = .error f →
      (Conversation.run language es).link.closing? ≠ none ∧
        f.Tells (Conversation.run language es).link) ∧
    ∀ (server : Setup.Server) (timeouts : Setup.Timeouts) (processId : Nat) (rootUri : String)
      (es : List Event) (e : Event) (i : Nat) (f : Failure),
      let s := (new language server timeouts processId rootUri).run es
      StartFails s e (s.step e) i f →
      (∀ m f, e.moment? = some m → m.launch = .error f → f.OfLaunch s.language) →
      f.isFatal = true ∧ (∀ c, ¬ (s.step e).Serving c) ∧
        ∃ reason, (s.step e).status = .startFailed reason := by
  refine ⟨fun es n a f upTo ha hf => Conversation.tells_of_returned ha hf,
    fun es method params f h => Conversation.tells_of_notify h, ?_⟩
  intro server timeouts processId rootUri es e i f s h hlaunch
  have hg : s.Gated := (Gated.new language server timeouts processId rootUri).run es
  exact hg.startFails (hg.step e).1 h hlaunch

/-- The server takes a request no more, a notification comes too late, and there is no server to be
launched. -/
theorem failure_isFatal_iff_closed_gone :
    let es : List Conversation.Event :=
      [.call 1000 "textDocument/hover" none, .write false, .look 0]
    let s := new "lua" ⟨"luals", [], "lua", []⟩ {} 1 "file:///"
    let m : Moment := ⟨0, .error (.notInstalled "lua" "luals"), fun _ => .ok [], fun _ => true⟩
    let e : Event := .begin m (.open ⟨[0x2F, 0x61]⟩ "one")
    (∃ front e back, es = front ++ e :: back ∧ (∀ r, ¬ (Conversation.run "lua" front).Decided 0 r) ∧
      (Conversation.run "lua" (front ++ [e])).Decided 0 (.error (.crashed "lua")) ∧
      ((Failure.crashed "lua").Tells (Conversation.run "lua" (front ++ [e])).link ∨
        UInt64.size ≤ (Conversation.run "lua" front).callers.length)) ∧
    (Failure.crashed "lua").Tells (Conversation.run "lua" es).link ∧
    StartFails s e (s.step e) 0 (.notInstalled "lua" "luals") ∧
      (∀ c, ¬ (s.step e).Serving c) := by
  intro es s m e
  obtain ⟨hcalls, hnotes, hstarts⟩ := failure_isFatal_iff_closed "lua"
  have hfails : StartFails s e (s.step e) 0 (.notInstalled "lua" "luals") := by
    constructor
    case operation => rfl
    case undone => rfl
    case failed => rfl
    case attempt => exact .inl (by decide +kernel)
    case unestablished =>
      intro c k' hk'
      cases hk'
  have hlaunch : ∀ m f, e.moment? = some m → m.launch = .error f → f.OfLaunch s.language := by
    rintro m f hm hf
    obtain rfl := Option.some.inj hm
    cases hf
    exact .notInstalled _
  refine ⟨hcalls es 0 ⟨1, "textDocument/hover", 1000, 0, .returned (.error (.crashed "lua")) 1⟩ _ 1
    rfl rfl, (hnotes es "exit" none _ rfl).2, hfails, ?_⟩
  exact (hstarts _ _ _ _ [] e 0 _ hfails hlaunch).2.1

/-- Whoever waits when this side closes the link fails because of it, and not fatally: so it is not
true that all and only the fatal failures come from a link that has closed. -/
theorem mild_failures_of_closed :
    ¬ ∀ (es : List Conversation.Event) (e : Conversation.Event) (n : Nat) (f : Failure),
      (∀ r, ¬ (Conversation.run "lua" es).Decided n r) →
      (Conversation.run "lua" (es ++ [e])).Decided n (.error f) →
      (f.isFatal = true ↔ (Conversation.run "lua" (es ++ [e])).link.closing? ≠ none) := by
  intro h
  let es : List Conversation.Event := [.call 1000 "textDocument/hover" none]
  have hwaits : (Conversation.run "lua" es).call? 0 =
      some ⟨1, "textDocument/hover", 0, 0, 1000⟩ := rfl
  have hbefore (r : Reply) : ¬ (Conversation.run "lua" es).Decided 0 r := by
    refine Conversation.not_decided_of_waiting hwaits (fun r' hr' => ?_) r
    cases hr'
  have hafter : (Conversation.run "lua" (es ++ [.close])).Decided 0 (.error (.stopped "lua")) :=
    .inr ⟨⟨1, "textDocument/hover", 0, 0, 1000⟩, rfl, rfl⟩
  have hfatal := (h es .close 0 (.stopped "lua") hbefore hafter).mpr nofun
  cases hfatal

end Session
end LanguageClient
