import LanguageClient.Proofs.Link.Delivery
import LanguageClient.Proofs.Session.Passing

namespace LanguageClient

def Link.frames (l : Link) : List Json :=
  l.sent.filterMap Outgoing.frame?

namespace Session

/-- No operation and no server is begun, and nobody sees a difference. -/
structure Unmoved (s s' : Session) : Prop where
  status : s'.status = s.status
  launches : s'.launches = s.launches
  connections : s'.connections.length = s.connections.length
  tasks : s'.tasks = s.tasks
  gate : s'.gate = s.gate

/-- Nothing is sent on any connection, and its documents stay at their versions. -/
def Silent (s s' : Session) : Prop :=
  ∀ c k, s.connection? c = some k → ∃ k', s'.connection? c = some k' ∧
    k'.documents = k.documents ∧ k'.link.frames = k.link.frames

section Tidying

theorem Connection.documents_reap (k : Connection) : k.reap.documents = k.documents := by
  unfold reap
  split
  · rfl
  · rfl
  · split <;> rfl

theorem Connection.documents_release (k : Connection) : k.release.documents = k.documents := by
  unfold release
  split <;> rfl

theorem Connection.frames_release (k : Connection) : k.release.link.frames = k.link.frames := by
  unfold release
  split
  · rfl
  · unfold Link.frames
    rw [Link.sent_release]
    split
    · simp [Outgoing.frame?]
    · rfl

variable (s : Session)

theorem silent_tidy : s.Silent s.tidy := by
  intro c k hk
  rw [connection?_tidy, hk, Option.map_some]
  refine ⟨_, rfl, ?_⟩
  split
  · exact ⟨k.documents_reap, congrArg Link.frames k.kept_reap.link⟩
  · exact ⟨k.documents_release, k.frames_release⟩

theorem unmoved_tidy : s.Unmoved s.tidy where
  status := s.status_tidy
  launches := rfl
  connections := by simp [tidy]
  tasks := rfl
  gate := rfl

variable {s} {s' s'' : Session}

theorem Unmoved.refl (s : Session) : s.Unmoved s :=
  ⟨rfl, rfl, rfl, rfl, rfl⟩

theorem Unmoved.trans (h : s.Unmoved s') (h' : s'.Unmoved s'') : s.Unmoved s'' where
  status := h'.status.trans h.status
  launches := h'.launches.trans h.launches
  connections := h'.connections.trans h.connections
  tasks := h'.tasks.trans h.tasks
  gate := h'.gate.trans h.gate

theorem Settles.unmoved {lifecycle : Lifecycle} (h : Settles s lifecycle) :
    s.Unmoved { s with lifecycle } :=
  ⟨h.status, rfl, rfl, rfl, rfl⟩

theorem unmoved_tell (c : Nat) (documents : OpenDocuments) (n : Notice) :
    s.Unmoved ((s.updateConnection c fun k => { k with documents }).notify c n).2 := by
  obtain ⟨ks, htold, hks⟩ := changed_tell (s := s) c documents n
  have hworks : Works 0 c s { s with connections := ks } :=
    ⟨rfl, hks, .refl (Task.Served.refl c) 0 _⟩
  rw [htold]
  exact ⟨hworks.status, rfl, hks.length, rfl, rfl⟩

end Tidying

section Documents

variable {s : Session} {path : Path}

theorem unmoved_close (s : Session) (path : Path) : s.Unmoved (s.close path) := by
  refine Unmoved.trans ?_ (unmoved_tidy _)
  obtain ⟨c, -, hlive⟩ | ⟨-, lifecycle, hsettles, hlive⟩ := s.live?_cases
  · rw [hlive]
    dsimp only
    rcases (s.connection? c).bind (·.documents.close? path) with _ | ⟨notice, documents⟩
    · exact .refl s
    · exact unmoved_tell c documents notice
  · rw [hlive]
    exact hsettles.unmoved

theorem unmoved_change (s : Session) (path : Path) (text : String) :
    s.Unmoved (s.change path text).2 := by
  refine Unmoved.trans ?_ (unmoved_tidy _)
  obtain ⟨c, -, hlive⟩ | ⟨-, lifecycle, hsettles, hlive⟩ := s.live?_cases
  · rw [hlive]
    dsimp only
    rcases (s.connection? c).bind (·.documents.change? path text) with _ | ⟨notice, documents⟩
    · exact .refl s
    · exact unmoved_tell c documents notice
  · rw [hlive]
    exact hsettles.unmoved

/-- The document is not open on the connection that serves, if there is one. -/
def Lacks (s : Session) (path : Path) : Prop :=
  ∀ c, s.live?.1 = some c → (s.connection? c).bind (·.documents.get? path) = none

/-- What is not open is not changed: nothing is sent, and no version is used up. -/
theorem change_of_lacks (h : s.Lacks path) (text : String) :
    (s.change path text).1 = .error (.notOpen path) ∧ s.Silent (s.change path text).2 := by
  unfold change
  obtain ⟨c, -, hlive⟩ | ⟨-, lifecycle, -, hlive⟩ := s.live?_cases
  · have hlacks := h c (by rw [hlive])
    have hchange : (s.connection? c).bind (·.documents.change? path text) = none := by
      cases hk : s.connection? c with
      | none => rfl
      | some k =>
        rw [hk] at hlacks
        have hget : k.documents.get? path = none := hlacks
        simp [OpenDocuments.change?, hget]
    simp only [hlive, hchange]
    exact ⟨trivial, silent_tidy s⟩
  · rw [hlive]
    exact ⟨rfl, silent_tidy { s with lifecycle }⟩

end Documents

/-- The status of a session goes only the ways that there are, along all states of any run in which no
operation is dropped. In whatever state any run leaves the session, it has a serving connection
exactly if it is seen to be ready, and looking for that connection shows in no status. Closing and
changing a document never start a server, and the status stays; what is not open is not changed, and
nothing is sent for it. -/
theorem status_isChain_leadsTo (language : String) (server : Setup.Server)
    (timeouts : Setup.Timeouts) (processId : Nat) (rootUri : String) (es : List Event) :
    let s := new language server timeouts processId rootUri
    ((∀ i, .cancel i ∉ es) →
      (s :: s.trail es).getLast? = some (s.run es) ∧
      (s :: s.trail es).IsChain fun a b =>
        b.status = a.status ∨ a.status.leadsTo b.status = true) ∧
    ((s.run es).status = .ready ↔ ∃ c k, (s.run es).live?.1 = some c ∧
      (s.run es).connection? c = some k ∧ k.link.closing? = none) ∧
    (s.run es).live?.2.status = (s.run es).status ∧
    (∀ path, (s.run es).Unmoved ((s.run es).close path)) ∧
    ∀ path text, (s.run es).Unmoved ((s.run es).change path text).2 ∧
      ((s.run es).Lacks path →
        ((s.run es).change path text).1 = .error (.notOpen path) ∧
        (s.run es).Silent ((s.run es).change path text).2) := by
  intro s
  have hattentive : s.Attentive := .new language server timeouts processId rootUri
  have hgated : (s.run es).Gated := hattentive.gated.run es
  refine ⟨fun hes => ?_, ⟨fun hready => ?_, ?_⟩, status_live? _, unmoved_close _,
    fun path text => ⟨unmoved_change _ path text, fun h => change_of_lacks h text⟩⟩
  · have hpassing := passing_run hattentive hes
    exact ⟨hpassing.getLast?, hpassing.isChain⟩
  · obtain ⟨c, hserving⟩ := serving_of_status hready
    obtain ⟨k, hk, -⟩ := hgated.ready hserving.ready
    have hopened := hserving.opened
    rw [hk] at hopened
    exact ⟨c, k, live?_eq_some_iff.mpr hserving, hk, hopened⟩
  · rintro ⟨c, -, hlive, -⟩
    exact status_of_serving (live?_eq_some_iff.mp hlive)

/-- A server is started, answers and goes away; the next cannot be launched; then all is shut down. -/
def upAndDown : List Event :=
  let up : Moment := ⟨0, .ok false, fun _ => .ok [], fun _ => false⟩
  let down : Moment := { up with launch := .error (.notInstalled "lua" "luals") }
  let path : Path := ⟨[0x2F, 0x61]⟩
  [.begin up (.open path "one"), .receive 0 (Frame.write (Message.answer (.nat 1) .null)),
    .read 0, .resume up 0, .endInput 0, .read 0, .begin down (.open path "two"),
    .begin up (.shutdown false)]

theorem status_isChain_leadsTo_upAndDown :
    let s := new "lua" ⟨"luals", [], "lua", []⟩ {} 1 "file:///"
    ((s :: s.trail upAndDown).map (·.status.label)).eraseReps = ["not_started", "starting",
        "awaiting_initialize_response", "ready", "crashed", "starting", "start_failed",
        "shutting_down", "stopped"] ∧
      (s :: s.trail upAndDown).IsChain fun a b =>
        b.status = a.status ∨ a.status.leadsTo b.status = true := by
  intro s
  have hstays : ∀ i, .cancel i ∉ upAndDown := by simp [upAndDown]
  exact ⟨by decide +kernel,
    ((status_isChain_leadsTo "lua" ⟨"luals", [], "lua", []⟩ {} 1 "file:///" upAndDown).1 hstays).2⟩

end Session
end LanguageClient
