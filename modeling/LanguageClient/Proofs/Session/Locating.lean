import LanguageClient.Proofs.Query
import LanguageClient.Proofs.Session.Coming

namespace LanguageClient

def Failure.lacksUri : Failure → Bool
  | .noUri _ => true
  | _ => false

namespace Failure

variable {f : Failure}

theorem lacksUri_failure (reason : Closing) (language : String) :
    (reason.failure language).lacksUri = false := by
  cases reason <;> rfl

theorem OfLaunch.lacksUri {language : String} (h : f.OfLaunch language) : f.lacksUri = false := by
  cases h <;> rfl

end Failure

/-- What comes of an operation or a request is not that a path has no URI. -/
def Locates {α : Type} (r : Except Failure α) : Prop :=
  ∀ f, r = .error f → f.lacksUri = false

section Locates

variable {α : Type} {f : Failure}

theorem locates_ok (a : α) : Locates (.ok a : Except Failure α) :=
  fun _ h => nomatch h

theorem locates_error (h : f.lacksUri = false) : Locates (.error f : Except Failure α) := by
  rintro _ ⟨⟩
  exact h

end Locates

theorem Query.locates_conclude {language : String} {q : Query} {reply : Reply}
    (h : Locates reply) : Locates (q.conclude language reply) := by
  have hread (v : Json) : Locates (q.read language v) := by
    intro f hf
    obtain ⟨at_, newName, e, -, rfl⟩ := q.read_eq_error hf
    rfl
  unfold conclude
  split
  · exact hread _
  · split
    · exact hread _
    · exact locates_error rfl
  · exact locates_error (h _ rfl)

namespace Inflight

/-- No reply that lies in a slot says that a path has no URI. -/
def Clear (t : Inflight) : Prop :=
  ∀ k r, t.slot k = .filled r → Locates r

variable {t t' : Inflight}

theorem Clear.of_filled (h : t.Clear) (hslots : ∀ {k r}, t'.slot k = .filled r → t.slot k = .filled r) :
    t'.Clear :=
  fun k r hr => h k r (hslots hr)

theorem Clear.close (h : t.Clear) (reason : Closing) : (t.close reason).2.Clear := by
  intro k r hr
  rw [slot_close] at hr
  split at hr
  · cases hr
    exact locates_error (Failure.lacksUri_failure _ _)
  · exact h k r hr

theorem Clear.complete (h : t.Clear) (id : UInt64) (outcome : Outcome) :
    (t.complete id outcome).2.Clear := by
  intro k r hr
  cases hfind : t.find? id with
  | none =>
    rw [complete_of_find?_eq_none t id hfind] at hr
    exact h k r hr
  | some o =>
    rw [slot_complete_of_find? t id hfind] at hr
    split at hr
    · cases hr
      cases outcome with
      | ok v => exact locates_ok v
      | error refusal => exact locates_error rfl
    · exact h k r hr

end Inflight

namespace Link

variable {l l' : Link}

theorem lacksUri_closedFailure (l : Link) : l.closedFailure.lacksUri = false :=
  Failure.lacksUri_failure _ _

theorem clear_poll (h : l.inflight.Clear) (now : Nat) (c : Call) :
    (∀ r, (l.poll now c).1 = some r → Locates r) ∧ (l.poll now c).2.inflight.Clear := by
  have habandoned : (l.abandon c).inflight.Clear := h.of_filled filled_of_abandon
  cases hs : l.inflight.slot c.ticket with
  | filled r =>
    rw [poll_of_filled hs]
    refine ⟨?_, h.of_filled Inflight.filled_of_take?⟩
    rintro _ ⟨⟩
    exact h _ _ hs
  | spent =>
    rw [poll_of_spent hs]
    refine ⟨?_, habandoned⟩
    rintro _ ⟨⟩
    exact locates_error l.lacksUri_closedFailure
  | deserted =>
    rw [poll_of_deserted hs]
    exact ⟨nofun, h⟩
  | empty =>
    by_cases ht : now < c.deadline
    · rw [poll_of_early hs ht]
      exact ⟨nofun, h⟩
    · rw [poll_of_late hs (Nat.le_of_not_lt ht)]
      refine ⟨?_, ?_⟩
      · rintro _ ⟨⟩
        exact locates_error rfl
      · rwa [inflight_notify]

theorem Handled.clear {Free : Call → Prop} (hl : l.Handled Free l') (h : l.inflight.Clear) :
    l'.inflight.Clear := by
  cases hl with
  | notify => rwa [inflight_notify]
  | call => exact h.of_filled filled_of_call
  | poll now => exact (clear_poll h now _).2
  | abandon => exact h.of_filled filled_of_abandon
  | close =>
    have hqueued : (l.queue .finish).inflight.Clear := by rwa [inflight_queue]
    exact hqueued.close .shutdown
  | release =>
    show (l.queue .finish).inflight.Clear
    rwa [inflight_queue]
  | read read =>
    obtain ⟨reason, rest, -, rfl⟩ | ⟨v, rest, -, rfl⟩ := readNext?_cases read
    · exact h.close reason
    · rw [inflight_route]
      split
      · exact h.complete _ _
      · exact h
  | write write =>
    obtain ⟨n, writing, -, -, rfl⟩ | rfl := writeNext?_cases write
    · exact h
    · exact h.close .exited
  | receive | endInput => exact h

end Link

namespace Session

/-- No connection of the session has a reply which says that a path has no URI. -/
def Clear (s : Session) : Prop :=
  ∀ c, s.Has c fun k => k.link.inflight.Clear

theorem lasting_clear : Lasting (fun k => k.link.inflight.Clear) fun _ => True where
  link h hl := hl.clear h
  rest h hlink _ _ := by rwa [hlink]
  fresh _ _ := trivial

/-- If the operation is at its end, then not because a path has no URI. -/
def Located (s : Session) (i : Nat) : Prop :=
  ∀ r, s.result? i = some r → Locates r

/-- The operation is about a path that has a URI, or about none. -/
def Work.HasUri : Work → Prop
  | .open path _ | .query path _ => ∃ uri, FileUri.ofPath? path = some uri
  | .shutdown _ => True

variable {s : Session}

theorem clear_greeted (s : Session) (hasProcess : Bool) :
    (s.greeted hasProcess).link.inflight.Clear := by
  intro k r hr
  cases k <;> cases hr

theorem abiding_clear : Abiding fun k => k.link.inflight.Clear where
  lasting := lasting_clear
  outlasts _ _ h := h
  greeted := clear_greeted

/-- Wherever an operation on a path that has a URI comes, it is not at its end because the path has
none. -/
theorem Comes.locates {g : Setting} {stage : Stage}
    (h : Comes (fun k => k.link.inflight.Clear) g stage) (hw : g.work.HasUri)
    (hlaunch : ∀ f, g.moment.launch = .error f → f.lacksUri = false)
    (hbefore : ∀ r, g.before = .done r → Locates r) : ∀ r, stage = .done r → Locates r := by
  intro r hr
  cases h with
  | stays => exact hbefore r hr
  | opens | ends | skips =>
    cases hr
    exact locates_ok _
  | hears _ met found =>
    cases hr
    exact Query.locates_conclude ((Link.clear_poll met _ _).1 _ found)
  | loses =>
    cases hr
    exact Query.locates_conclude (locates_error rfl)
  | refused =>
    cases hr
    exact locates_error (Failure.lacksUri_failure _ _)
  | unreadable | failsStart =>
    cases hr
    exact locates_error rfl
  | unlaunched launch =>
    cases hr
    exact locates_error (hlaunch _ launch)
  | unlocated work unknown =>
    -- the path would have no URI after all
    obtain ⟨uri, huri⟩ : ∃ uri, FileUri.ofPath? _ = some uri := by
      obtain ⟨text, hwork⟩ | ⟨q, hwork⟩ := work <;> rwa [hwork] at hw
    cases huri.symm.trans unknown
  | greets | reads | asks | stops | reaps | kills => cases hr

theorem Clear.step (h : s.Clear) (e : Event) : (s.step e).Clear :=
  abiding_clear.step h e

/-- Every operation on a path that has a URI, or on none, is located. -/
def Locating (s : Session) : Prop :=
  ∀ i w, s.work? i = some w → w.HasUri → s.Located i

theorem Locating.step (h : s.Locating) (hg : s.Gated) (hclear : s.Clear) {e : Event}
    (hlaunch : ∀ m f, e.moment? = some m → m.launch = .error f → f.lacksUri = false) :
    (s.step e).Locating := by
  intro i w hwork hw r hr
  have heach : s.Each fun w stage => w.HasUri → ∀ r, stage = .done r → Locates r := by
    rintro i w _ hwork hi hw r rfl
    exact h i w hwork hw r (result?_eq_some.mpr hi)
  refine heach.step hg abiding_clear hclear (fun _ _ _ => nofun) (fun _ _ _ => nofun) ?_ hwork
    (result?_eq_some.mp hr) hw r rfl
  intro m w before stage hm hbefore hcomes hw
  exact hcomes.locates hw (fun f => hlaunch m f hm) (hbefore hw)

/-- All that a session keeps to while it runs, as far as its operations are located. -/
structure Assured (s : Session) : Prop where
  gated : s.Gated
  clear : s.Clear
  locating : s.Locating

theorem Assured.new (language : String) (server : Setup.Server) (timeouts : Setup.Timeouts)
    (processId : Nat) (rootUri : String) :
    (new language server timeouts processId rootUri).Assured where
  gated := Gated.new language server timeouts processId rootUri
  clear c k hk := by cases hk
  locating i w hw := by cases hw

theorem Assured.step (h : s.Assured) {e : Event}
    (hlaunch : ∀ m f, e.moment? = some m → m.launch = .error f → f.lacksUri = false) :
    (s.step e).Assured where
  gated := (h.gated.step e).2
  clear := h.clear.step e
  locating := h.locating.step h.gated h.clear hlaunch

theorem work?_begin (s : Session) (m : Moment) (w : Work) :
    (s.begin m w).work? s.tasks.length = some w := by
  obtain ⟨s', hbegins, heq⟩ := s.exists_begins m w
  rw [heq]
  exact (hbegins.work? s.tasks.length).trans (if_pos rfl)

theorem locates_notify (s : Session) (c : Nat) (n : Notice) : Locates (s.notify c n).1 := by
  intro f hf
  obtain ⟨reason, spoken, rfl⟩ := exists_reason_of_notify hf
  exact Failure.lacksUri_failure reason spoken

theorem locates_change (s : Session) (path : Path) (text : String) :
    Locates (s.change path text).1 := by
  unfold change
  dsimp only
  split
  · exact locates_error rfl
  · split
    · exact locates_error rfl
    · exact locates_notify _ _ _

end Session
end LanguageClient
