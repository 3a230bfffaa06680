import LanguageClient.Proofs.Session.Coming

namespace LanguageClient.Session

/-- The call that is waited for at this stage has its deadline where these limits put it. -/
def Stage.Limited (t : Setup.Timeouts) : Stage → Prop
  | .handshaking _ call => call.deadline = call.begun + seconds t.handshake
  | .asking _ call => call.deadline = call.begun + seconds t.request
  | .stopping _ call => call.deadline = call.begun + seconds t.shutdown
  | .queued | .reading _ _ | .reaping _ _ | .killing _ | .done _ | .dropped => True

/-- The session has these limits, and all its operations keep to them. -/
structure Limited (s : Session) (t : Setup.Timeouts) : Prop where
  timeouts : s.timeouts = t
  stage : ∀ {i stage}, s.stage? i = some stage → stage.Limited t

variable {s s' : Session} {t : Setup.Timeouts} {m : Moment} {c : Nat}

/-- Whoever looks for the answer before anything has come finds nothing, and gives up only when the
time is over. -/
theorem pollCall_of_call {timeout : Nat} {method : String} {params : Option Json} {call : Call}
    (hcall : s.call m c timeout method params = (.ok call, s')) (m' : Moment) :
    (m'.now < m.now + timeout → (s'.pollCall m' c call).1 = none) ∧
      (m.now + timeout ≤ m'.now → ∃ language,
        (s'.pollCall m' c call).1 =
          some (.error (.timedOut language method (m'.now - m.now)))) := by
  obtain ⟨k, hk, htakes, rfl, rfl⟩ := exists_link_of_call hcall
  rw [pollCall_of_connection (connection?_setLink_self hk _), Link.call_of_takes _ _ _ _ _ htakes]
  have hempty := k.link.slot_nextCall m.now timeout method
  constructor
  · intro hearly
    rw [Link.poll_of_early hempty hearly]
  · intro hlate
    rw [Link.poll_of_late hempty hlate]
    exact ⟨_, rfl⟩

/-- Wherever an operation comes, it keeps to the limits. -/
theorem Comes.limited {P : Connection → Prop} {g : Setting} {stage : Stage} (h : Comes P g stage)
    (hbefore : g.before.Limited g.timeouts) : stage.Limited g.timeouts := by
  cases h with
  | stays => exact hbefore
  | greets begun deadline => rw [Stage.Limited, deadline, begun]
  | asks | stops => rfl
  | reads | reaps | kills | opens | ends | skips | hears | loses | refused | unreadable | unlocated
  | unlaunched | failsStart => trivial

namespace Limited

theorem step (h : s.Limited t) (hg : s.Gated) (e : Event) : (s.step e).Limited t where
  timeouts := (hg.step e).1.bound.timeouts.trans h.timeouts
  stage {i stage} hi := by
    obtain ⟨w, hwork⟩ := exists_work hi
    have heach : s.Each fun _ stage => stage.Limited t := fun _ hi => h.stage hi
    refine heach.step hg abiding_true (fun _ _ _ => trivial) (fun _ => trivial) (fun _ => trivial)
      ?_ hwork hi
    intro m w before stage _ hbefore hcomes
    exact h.timeouts ▸ hcomes.limited (h.timeouts ▸ hbefore)

theorem run (h : s.Limited t) (hg : s.Gated) (es : List Event) : (s.run es).Limited t := by
  induction es using List.reverseRecOn with
  | nil => exact h
  | append_singleton es e ih =>
    rw [run_append_one]
    exact ih.step (hg.run es) e

theorem new (language : String) (server : Setup.Server) (timeouts : Setup.Timeouts)
    (processId : Nat) (rootUri : String) :
    (new language server timeouts processId rootUri).Limited timeouts where
  timeouts := rfl
  stage hi := by cases hi

end Limited
end LanguageClient.Session
