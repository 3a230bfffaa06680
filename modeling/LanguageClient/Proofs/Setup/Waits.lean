import LanguageClient.Proofs.Session.Limits
import LanguageClient.Proofs.Setup.Building
import LanguageClient.Proofs.Workspace.Isolation

namespace LanguageClient.Setup

structure Timeouts.Positive (t : Timeouts) : Prop where
  request : 1 ≤ t.request
  handshake : 1 ≤ t.handshake
  shutdown : 1 ≤ t.shutdown

theorem Timeouts.positive_ofNanoseconds (request handshake shutdown : Nat) :
    (ofNanoseconds request handshake shutdown).Positive :=
  ⟨Nat.le_max_left _ _, Nat.le_max_left _ _, Nat.le_max_left _ _⟩

theorem Timeouts.positive_usual : ({} : Timeouts).Positive := by
  constructor <;> decide

/-- The value gives this wait, or none, and then it is the usual one. -/
def StatesWait (v : Json) (place : Nat) (key : String) (usual n : Nat) : Prop :=
  v.Holds place key (fun w => w = .nat n ∧ n < UInt64.size) ∨
    v.member? place key = none ∧ n = usual

theorem reads_seconds? : Json.Reads seconds? fun n w => w = .nat n ∧ n < UInt64.size := by
  intro w n
  unfold seconds?
  simp only [Option.map_eq_some_iff, Json.word?_eq_some]
  constructor
  · rintro ⟨id, rfl, rfl⟩
    exact ⟨rfl, id.toNat_lt_size⟩
  · rintro ⟨rfl, hlt⟩
    exact ⟨UInt64.ofNat n, by rw [UInt64.toNat_ofNat_of_lt' hlt], UInt64.toNat_ofNat_of_lt' hlt⟩

theorem StatesWait.one_le_iff {v : Json} {place usual n : Nat} {key : String}
    (h : StatesWait v place key usual n) (husual : 1 ≤ usual) :
    1 ≤ n ↔ v.member? place key ≠ some (.nat 0) := by
  obtain ⟨w, hw, rfl, -⟩ | ⟨hnone, rfl⟩ := h
  · simp [hw, Json.nat, Nat.one_le_iff_ne_zero]
  · simp [hnone, husual]

variable {spare : Bool} {v : Json} {c : Setup}

theorem Timeouts.ofJson_eq_ok {t : Timeouts} :
    Timeouts.ofJson spare v = .ok t ↔ IsRecord spare 3 v ∧
      StatesWait v 0 "request_secs" 30 t.request ∧
      StatesWait v 1 "initialize_secs" 60 t.handshake ∧
      StatesWait v 2 "shutdown_secs" 2 t.shutdown := by
  unfold Timeouts.ofJson
  simp only [bind_eq_ok, record_eq_ok, orMalformed_eq_ok]
  constructor
  · rintro ⟨s, ⟨hs, hrecord⟩, request, hrequest, handshake, hhandshake, shutdown, hshutdown, ⟨rfl⟩⟩
    exact ⟨hrecord, (Json.defaulted_eq_some hs reads_seconds?).mp hrequest,
      (Json.defaulted_eq_some hs reads_seconds?).mp hhandshake,
      (Json.defaulted_eq_some hs reads_seconds?).mp hshutdown⟩
  · rintro ⟨hrecord, hrequest, hhandshake, hshutdown⟩
    obtain ⟨s, hs⟩ := exists_source hrecord
    exact ⟨s, ⟨hs, hrecord⟩, _, (Json.defaulted_eq_some hs reads_seconds?).mpr hrequest,
      _, (Json.defaulted_eq_some hs reads_seconds?).mpr hhandshake,
      _, (Json.defaulted_eq_some hs reads_seconds?).mpr hshutdown, rfl⟩

/-- One of the waits in the value is stated as zero. -/
def StatesZero (v : Json) : Prop :=
  ∃ w, v.member? 1 "timeouts" = some w ∧
    (w.member? 0 "request_secs" = some (.nat 0) ∨ w.member? 1 "initialize_secs" = some (.nat 0) ∨
      w.member? 2 "shutdown_secs" = some (.nat 0))

theorem Timeouts.positive_iff {t : Timeouts} (h : Timeouts.ofJson spare v = .ok t) :
    t.Positive ↔ v.member? 0 "request_secs" ≠ some (.nat 0) ∧
      v.member? 1 "initialize_secs" ≠ some (.nat 0) ∧
      v.member? 2 "shutdown_secs" ≠ some (.nat 0) := by
  obtain ⟨-, hrequest, hhandshake, hshutdown⟩ := Timeouts.ofJson_eq_ok.mp h
  rw [← hrequest.one_le_iff (by decide), ← hhandshake.one_le_iff (by decide),
    ← hshutdown.one_le_iff (by decide)]
  exact ⟨fun h => ⟨h.request, h.handshake, h.shutdown⟩, fun ⟨hr, hh, hs⟩ => ⟨hr, hh, hs⟩⟩

theorem positive_timeouts_iff (h : Setup.ofJson spare v = .ok c) :
    c.timeouts.Positive ↔ ¬ StatesZero v := by
  obtain ⟨-, calls, t, -, ht, rfl⟩ := ofJson_eq_ok.mp h
  rw [timeouts_withServers]
  obtain ⟨hnone, rfl⟩ | ⟨w, hw, ht⟩ := ht
  · refine iff_of_true Timeouts.positive_usual ?_
    rintro ⟨w, hw, -⟩
    cases hnone.symm.trans hw
  · rw [Timeouts.positive_iff ht]
    simp only [StatesZero, hw, Option.some.injEq, exists_eq_left', not_or, ne_eq]

open Session Workspace

/-- Waits that are made of durations, and the usual ones, are a second at least. Those that are read
are so as well, unless one of them is stated as zero. All that a session waits for an answer to has
its deadline just so long after it was begun; and a call is given up at once if its wait is zero,
and otherwise not before a second has passed. -/
theorem waits_are_as_stated (c : Setup) (root : Path) (rootUri : String) (processId : Nat)
    (es : List Workspace.Event) :
    (∀ request handshake shutdown,
      (Timeouts.ofNanoseconds request handshake shutdown).Positive) ∧
    ({} : Timeouts).Positive ∧
    (∀ spare v, Setup.ofJson spare v = .ok c → (c.timeouts.Positive ↔ ¬ StatesZero v)) ∧
    (∀ text v, Toml.ofString? text = some v → Setup.ofText text = .ok c →
      (c.timeouts.Positive ↔ ¬ StatesZero v)) ∧
    (∀ language s,
      ((InUse.new c root rootUri processId).run es).workspace.session? language = some s →
        s.timeouts = c.timeouts ∧ ∀ i k call,
          (s.stage? i = some (.handshaking k call) →
            call.deadline = call.begun + 1000 * c.timeouts.handshake) ∧
          (s.stage? i = some (.asking k call) →
            call.deadline = call.begun + 1000 * c.timeouts.request) ∧
          (s.stage? i = some (.stopping k call) →
            call.deadline = call.begun + 1000 * c.timeouts.shutdown)) ∧
    ∀ (s s' : Session) m k wait method params call,
      s.call m k (seconds wait) method params = (.ok call, s') →
        (wait = 0 → ∃ language,
          (s'.pollCall m k call).1 = some (.error (.timedOut language method 0))) ∧
        (1 ≤ wait → ∀ m' : Moment, m'.now < m.now + 1000 → (s'.pollCall m' k call).1 = none) := by
  refine ⟨Timeouts.positive_ofNanoseconds, Timeouts.positive_usual,
    fun _ _ => positive_timeouts_iff, fun text v hv hc => ?_, fun language s hs => ?_,
    fun s s' m k wait method params call hcall => ⟨?_, fun hwait m' hm => ?_⟩⟩
  · obtain ⟨v', hv', hc⟩ := ofText_eq_ok.mp hc
    obtain rfl := Option.some.inj (hv.symm.trans hv')
    exact positive_timeouts_iff hc
  · obtain ⟨server, es', -, rfl⟩ := InUse.session_is_run c root rootUri processId es hs
    have hlimited : ((Session.new language server c.timeouts processId rootUri).run es').Limited
        c.timeouts := (Limited.new ..).run (Gated.new ..) es'
    exact ⟨hlimited.timeouts, fun i k call =>
      ⟨fun hi => hlimited.stage hi, fun hi => hlimited.stage hi, fun hi => hlimited.stage hi⟩⟩
  · rintro rfl
    obtain ⟨language, hpoll⟩ := (pollCall_of_call hcall m).2 (Nat.le_refl _)
    exact ⟨language, by rw [hpoll, Nat.sub_self]⟩
  · refine (pollCall_of_call hcall m').1 (Nat.lt_of_lt_of_le hm ?_)
    unfold seconds
    omega

/-- The wait for the answer to a query is stated, and no other. -/
def hurried (wait : Nat) : Json :=
  .obj [("timeouts", .obj [("request_secs", .nat wait)])]

def calm : Moment where
  now := 0
  launch := .ok true
  disk _ := .ok []
  exited _ := false

def opened : List Workspace.Event :=
  [.begin (fun _ => calm) (.ofText "a.rs") (.open "")]

theorem waits_are_as_stated_hurried :
    (∃ v c, Toml.ofString? "[timeouts]\nrequest_secs = 10" = some v ∧
      Setup.ofText "[timeouts]\nrequest_secs = 10" = .ok c ∧ ¬ StatesZero v) ∧
    (∃ c, Setup.ofJson false (hurried 0) = .ok c ∧ ¬ c.timeouts.Positive) ∧
    (∃ s k call, ((InUse.new .default (.ofText "/w") "file:///w" 1).run opened).workspace.session?
        "rust" = some s ∧
      s.stage? 0 = some (.handshaking k call) ∧ call.deadline = call.begun + 1000 * 60) ∧
    ∃ s s' call language, Session.call s calm 0 (seconds 0) "shutdown" none = (.ok call, s') ∧
      (s'.pollCall calm 0 call).1 = some (.error (.timedOut language "shutdown" 0)) := by
  have hstated (c : Setup) := waits_are_as_stated c (.ofText "/w") "file:///w" 1 opened
  refine ⟨?_, ?_, ?_, ?_⟩
  · have hread : (Setup.ofText "[timeouts]\nrequest_secs = 10").toOption.map (·.timeouts) =
        some { request := 10 } := by decide +kernel
    cases hc : Setup.ofText "[timeouts]\nrequest_secs = 10" with
    | error f =>
      rw [hc] at hread
      cases hread
    | ok c =>
      rw [hc] at hread
      obtain ⟨v, hv, -⟩ := ofText_eq_ok.mp hc
      have htimeouts : c.timeouts = { request := 10 } := Option.some.inj hread
      have hpositive : c.timeouts.Positive := by
        rw [htimeouts]
        constructor <;> decide
      obtain ⟨-, -, -, htext, -⟩ := hstated c
      exact ⟨v, c, hv, rfl, (htext _ v hv hc).mp hpositive⟩
  · have hread : Setup.ofJson false (hurried 0) = .ok { timeouts := { request := 0 } } := rfl
    have hzero : StatesZero (hurried 0) := ⟨_, rfl, .inl rfl⟩
    obtain ⟨-, -, hjson, -⟩ := hstated { timeouts := { request := 0 } }
    exact ⟨_, hread, fun hpositive => (hjson _ _ hread).mp hpositive hzero⟩
  · have hrun : ((((InUse.new .default (.ofText "/w") "file:///w" 1).run
        opened).workspace.session? "rust").bind (·.stage? 0)).map (·.isStarting) = some true := by
      decide +kernel
    obtain ⟨stage, hrun, hstarting⟩ := Option.map_eq_some_iff.mp hrun
    obtain ⟨s, hs, hstage⟩ := Option.bind_eq_some_iff.mp hrun
    obtain ⟨-, -, -, -, hsession, -⟩ := hstated .default
    cases stage with
    | handshaking k call =>
      exact ⟨s, k, call, hs, hstage, ((hsession _ _ hs).2 0 k call).1 hstage⟩
    | queued | reading | asking | stopping | reaping | killing | done | dropped =>
      cases hstarting
  · let server : Server := ⟨"rust-analyzer", [], "rust", ["rs"]⟩
    let s := (Session.new "rust" server {} 1 "file:///w").launched true
    have hbegun : Session.call s calm 0 (seconds 0) "shutdown" none =
        (.ok ⟨2, "shutdown", 1, 0, 0⟩, (Session.call s calm 0 (seconds 0) "shutdown" none).2) := rfl
    obtain ⟨-, -, -, -, -, hcall⟩ := hstated .default
    obtain ⟨language, hpoll⟩ := (hcall _ _ _ _ _ _ _ _ hbegun).1 rfl
    exact ⟨s, _, _, language, hbegun, hpoll⟩

/-- A wait that is stated as zero is taken as it is. -/
theorem request_of_zero :
    ∃ c, Setup.ofJson false (hurried 0) = .ok c ∧ c.timeouts.request = 0 :=
  ⟨{ timeouts := { request := 0 } }, rfl, rfl⟩

end LanguageClient.Setup
