import LanguageClient.Proofs.Link.Closing

namespace LanguageClient

/-- What a failure tells about its link. A fatal one comes from a link that has closed, but not at
the wish of this side. Any other comes from an open link, or says that this side has closed it. -/
structure Failure.Tells (f : Failure) (l : Link) : Prop where
  fatal : f.isFatal = true ↔ ∃ reason, l.closing? = some reason ∧ reason ≠ .shutdown
  mild : f.isFatal = false →
    l.closing? = none ∨ l.closing? = some .shutdown ∧ f = .stopped l.language

namespace Failure

variable {l : Link} {f : Failure}

theorem isFatal_failure (reason : Closing) (language : String) :
    (reason.failure language).isFatal = true ↔ reason ≠ .shutdown := by
  cases reason <;> simp [Closing.failure, isFatal]

theorem tells_of_closed {reason : Closing} (h : l.closing? = some reason) :
    (reason.failure l.language).Tells l := by
  constructor
  case fatal => simp [isFatal_failure, h]
  case mild =>
    intro hmild
    have hshutdown : reason = .shutdown := by
      by_contra hne
      rw [(isFatal_failure reason l.language).mpr hne] at hmild
      cases hmild
    exact .inr ⟨hshutdown ▸ h, by rw [hshutdown, Closing.failure]⟩

theorem tells_of_open (h : l.closing? = none) (hmild : f.isFatal = false) : f.Tells l := by
  constructor
  case fatal => simp [h, hmild]
  case mild => exact fun _ => .inl h

end Failure

namespace Inflight

variable {t : Inflight} {k : Nat} {r : Reply}

theorem filled_of_remove {id : UInt64} (h : (t.remove id).2.slot k = .filled r) :
    t.slot k = .filled r := by
  unfold remove at h
  cases hfind : t.find? id with
  | none => simpa [hfind] using h
  | some o =>
    rw [hfind] at h
    change (t.spend o.ticket).slot k = .filled r at h
    rw [slot_spend] at h
    split at h
    · cases h
    · exact h

theorem filled_of_desert {j : Nat} (h : (t.desert j).slot k = .filled r) :
    t.slot k = .filled r := by
  unfold desert at h
  rw [slot_setSlot] at h
  split at h
  · cases h
  · exact h

theorem filled_of_take? {j : Nat} (h : (t.take? j).2.slot k = .filled r) :
    t.slot k = .filled r := by
  unfold take? at h
  split at h
  · rw [slot_setSlot] at h
    split at h
    · cases h
    · exact h
  · exact h

end Inflight

namespace Link

variable {l : Link} {k : Nat} {r : Reply}

theorem filled_of_abandon {c : Call} (h : (l.abandon c).inflight.slot k = .filled r) :
    l.inflight.slot k = .filled r :=
  Inflight.filled_of_remove (Inflight.filled_of_desert h)

theorem filled_of_enrolled {method : String} (h : (l.enrolled method).slot k = .filled r) :
    l.inflight.slot k = .filled r := by
  unfold enrolled at h
  rw [Inflight.slot_append_empty] at h
  split at h
  · cases h
  · exact Inflight.filled_of_remove h

theorem filled_of_call {now timeout : Nat} {method : String} {params : Option Json}
    (h : (l.call now timeout method params).2.inflight.slot k = .filled r) :
    l.inflight.slot k = .filled r := by
  obtain ⟨reason, hc⟩ | ht | ⟨hc, hw⟩ := l.call_cases
  · rwa [l.call_of_closed now timeout method params hc] at h
  · rw [l.call_of_takes now timeout method params ht] at h
    exact filled_of_enrolled h
  · rw [l.call_of_not_writing now timeout method params hc hw] at h
    exact filled_of_enrolled (Inflight.filled_of_remove (Inflight.filled_of_desert h))

end Link

namespace Conversation

variable {v w : Conversation} {e : Event} {n : Nat} {r : Reply} {f : Failure} {language : String}

/-- It is decided what a call comes to: it has returned, or the reply waits in its slot. -/
def Decided (v : Conversation) (n : Nat) (r : Reply) : Prop :=
  (∃ a upTo, v.callers[n]? = some a ∧ a.fate = .returned r upTo) ∨
    ∃ c, v.call? n = some c ∧ v.link.inflight.slot c.ticket = .filled r

/-- How a step decides it. A slot that is spent while its caller waits has been lost to a later call
of the same id. -/
inductive Decides (v w : Conversation) (n : Nat) : Reply → Prop
  | tooLate {reason : Closing} (new : v.callers[n]? = none)
      (closed : w.link.closing? = some reason) :
      Decides v w n (.error (reason.failure w.link.language))
  | answered {c : Call} {outcome : Outcome} (waiting : v.call? n = some c)
      (empty : v.link.inflight.slot c.ticket = .empty) (opened : w.link.closing? = none) :
      Decides v w n (outcomeReply w.link.language c.method outcome)
  | closed {c : Call} {reason : Closing} (waiting : v.call? n = some c)
      (empty : v.link.inflight.slot c.ticket = .empty) (closed : w.link.closing? = some reason) :
      Decides v w n (.error (reason.failure w.link.language))
  | timedOut {c : Call} {waited : Nat} (waiting : v.call? n = some c)
      (empty : v.link.inflight.slot c.ticket = .empty) (opened : w.link.closing? = none) :
      Decides v w n (.error (.timedOut w.link.language c.method waited))
  | displaced {c : Call} (waiting : v.call? n = some c)
      (spent : v.link.inflight.slot c.ticket = .spent) :
      Decides v w n (.error v.link.closedFailure)

theorem not_decided_of_waiting {c : Call} (hc : v.call? n = some c)
    (hs : ∀ r, v.link.inflight.slot c.ticket ≠ .filled r) (r : Reply) : ¬ v.Decided n r := by
  rintro (⟨a, upTo, ha, hf⟩ | ⟨d, hd, hfilled⟩)
  · simp [call?, ha, hf, Fate.call?] at hc
  · rw [hc] at hd
    cases hd
    exact hs r hfilled

theorem Decides.undecided (h : Decides v w n r) (r' : Reply) : ¬ v.Decided n r' := by
  cases h with
  | tooLate new =>
    rintro (⟨a, upTo, ha, -⟩ | ⟨c, hc, -⟩)
    · rw [new] at ha
      cases ha
    · simp [call?, new] at hc
  | answered waiting empty | closed waiting empty | timedOut waiting empty =>
    exact not_decided_of_waiting waiting (by simp [empty]) r'
  | displaced waiting spent => exact not_decided_of_waiting waiting (by simp [spent]) r'

/-- What the failure tells is so at the moment it is decided, unless the ids have come round. -/
theorem Decides.tells (h : Decides v w n (.error f))
    (hinformed : v.callers.length < UInt64.size → v.Informed language) :
    f.Tells w.link ∨ UInt64.size ≤ v.callers.length := by
  generalize hr : Except.error f = r at h
  cases h with
  | tooLate new closed =>
    cases hr
    exact .inl (Failure.tells_of_closed closed)
  | @answered c outcome waiting empty opened =>
    cases outcome with
    | ok result => cases hr
    | error refusal =>
      cases hr
      exact .inl (Failure.tells_of_open opened rfl)
  | closed waiting empty closed =>
    cases hr
    exact .inl (Failure.tells_of_closed closed)
  | timedOut waiting empty opened =>
    cases hr
    exact .inl (Failure.tells_of_open opened rfl)
  | @displaced c waiting spent =>
    refine .inr (Nat.le_of_not_lt fun hlen => ?_)
    obtain ⟨a, ha, hwait⟩ := (v.call?_eq_some n).mp waiting
    obtain ⟨-, hslot⟩ := (hinformed hlen n a ha).waiting hwait
    rw [spent] at hslot
    exact Slot.ofVerdict_ne_spent _ hslot.symm

theorem Change.decides_returned (hv : v.Faithful language) (hfits : v.Fits) (hw : v.Change e w)
    {a : Caller} {upTo : Nat} (ha : w.callers[n]? = some a) (hf : a.fate = .returned r upTo) :
    v.Decided n r ∨ Decides v w n r := by
  cases hw with
  | nothing | notify | close | receive | endInput | stop | route | write | refuse | wait =>
    exact .inl (.inl ⟨a, upTo, ha, hf⟩)
  | call timeout method params =>
    obtain ha | ⟨rfl, rfl⟩ := getElem?_append_one ha
    · exact .inl (.inl ⟨a, upTo, ha, hf⟩)
    have hnew : v.callers[v.callers.length]? = none := by simp
    obtain ⟨reason, hclosed⟩ | ht | ⟨hopen, hwriting⟩ := v.link.call_cases
    · have hcall := v.link.call_of_closed v.now timeout method params hclosed
      simp only [newCaller, hcall] at hf
      cases hf
      rw [hcall]
      exact .inr (@Decides.tooLate _ _ _ reason hnew hclosed)
    · simp only [newCaller, v.link.call_of_takes v.now timeout method params ht] at hf
      cases hf
    · -- an open link has its writer
      rw [(hv.writing hopen).1] at hwriting
      cases hwriting
  | @take m c r' hc hs =>
    obtain ⟨-, ha⟩ | ⟨rfl, b, hb, rfl⟩ := callers_modify m ha
    · exact .inl (.inl ⟨a, upTo, ha, hf⟩)
    · cases hf
      exact .inl (.inr ⟨c, hc, hs⟩)
  | @giveUp m c hc hs =>
    obtain ⟨-, ha⟩ | ⟨rfl, b, hb, rfl⟩ := callers_modify m ha
    · exact .inl (.inl ⟨a, upTo, ha, hf⟩)
    · cases hf
      exact .inr (.displaced hc hs)
  | @expire m c hc hs ht =>
    obtain ⟨-, ha⟩ | ⟨rfl, b, hb, rfl⟩ := callers_modify m ha
    · exact .inl (.inl ⟨a, upTo, ha, hf⟩)
    · cases hf
      have hlink : (((v.link.abandon c).notify "$/cancelRequest"
          (some (Link.cancelParams c))).2).language = v.link.language := by simp
      have hopen : (((v.link.abandon c).notify "$/cancelRequest"
          (some (Link.cancelParams c))).2).closing? = none := by
        simpa using hfits.open_of_empty hc hs
      rw [← hlink]
      exact .inr (.timedOut hc hs hopen)
  | @drop m c hc =>
    obtain ⟨-, ha⟩ | ⟨rfl, b, hb, rfl⟩ := callers_modify m ha
    · exact .inl (.inl ⟨a, upTo, ha, hf⟩)
    · cases hf

theorem decided_of_call {timeout : Nat} {method : String} {params : Option Json} {c : Call}
    (hc : (v.step (.call timeout method params)).call? n = some c)
    (hs : (v.step (.call timeout method params)).link.inflight.slot c.ticket = .filled r) :
    v.Decided n r := by
  have hbefore : v.link.inflight.slot c.ticket = .filled r := Link.filled_of_call hs
  unfold step at hc
  rw [call?_addCaller, callers_follow] at hc
  by_cases hn : n = v.callers.length
  · rw [hn, Function.update_self] at hc
    obtain ⟨reason, hclosed⟩ | ht | ⟨hopen, hwriting⟩ := v.link.call_cases
    · simp [newCaller, v.link.call_of_closed v.now timeout method params hclosed, Fate.call?] at hc
    · -- the slot of a new call is a new one
      have hlast : c.ticket = v.link.inflight.slots.length := by
        rw [newCaller, v.link.call_of_takes v.now timeout method params ht] at hc
        cases hc
        rfl
      have hlt := v.link.inflight.lt_length_of_slot_ne c.ticket (by simp [hbefore])
      omega
    · simp [newCaller, v.link.call_of_not_writing v.now timeout method params hopen hwriting,
        Fate.call?] at hc
  · rw [Function.update_of_ne hn] at hc
    exact .inr ⟨c, hc, hbefore⟩

theorem Fits.decides_closed (hfits : v.Fits) {reason : Closing} {l : Link} {c : Call}
    (hc : v.call? n = some c) (hl : l.inflight = (v.link.inflight.close reason).2)
    (hs : l.inflight.slot c.ticket = .filled r) : v.Decided n r ∨ Decides v (v.follow l) n r := by
  rw [hl, Inflight.Fits.slot_close hfits hc] at hs
  split at hs
  · rename_i hempty
    cases hs
    have hclosed : l.closing? = some (v.link.inflight.closed.getD reason) := by
      simp [Link.closing?, hl]
    have hspeaks : v.link.inflight.language = (v.follow l).link.language := by
      simp [Link.language, hl]
    rw [hspeaks]
    exact .inr (.closed hc hempty hclosed)
  · exact .inl (.inr ⟨c, hc, hs⟩)

theorem Fits.decides_routed (hfits : v.Fits) {x : Json} {rest : Bytes} {c : Call}
    (hc : v.call? n = some c)
    (hs : ({ v.link with input := rest }.route x).1.inflight.slot c.ticket = .filled r) :
    v.Decided n r ∨
      Decides v ((v.record [.routed x]).follow ({ v.link with input := rest }.route x).1) n r := by
  have hkept : ({ v.link with input := rest }.route x).1.closing? = v.link.closing? :=
    Link.closing?_route _ _
  have hspeaks : ({ v.link with input := rest }.route x).1.language = v.link.inflight.language :=
    Link.language_route _ _
  rw [Link.inflight_route] at hs
  split at hs
  · rw [Inflight.Fits.slot_complete hfits hc] at hs
    split at hs
    · rename_i hempty
      cases hs
      rw [← hspeaks]
      exact .inr (.answered hc hempty.1 (hkept.trans (hfits.open_of_empty hc hempty.1)))
    · exact .inl (.inr ⟨c, hc, hs⟩)
  · exact .inl (.inr ⟨c, hc, hs⟩)

theorem Change.decides_filled (hfits : v.Fits) (hw : v.Change e w) {c : Call}
    (hc : w.call? n = some c) (hs : w.link.inflight.slot c.ticket = .filled r) :
    v.Decided n r ∨ Decides v w n r := by
  -- a wait that has ended is nobody else's
  have hothers {m : Nat} {f : Fate} {l : Link} (hf : f.call? = none)
      (hc : ((v.follow l).conclude m f).call? n = some c) : v.call? n = some c := by
    rw [call?_conclude _ _ _ hf] at hc
    exact (update_none_eq_some.mp hc).2
  cases hw with
  | nothing | receive | endInput | write | wait => exact .inl (.inr ⟨c, hc, hs⟩)
  | call timeout method params => exact .inl (decided_of_call hc hs)
  | take => exact .inl (.inr ⟨c, hothers rfl hc, Inflight.filled_of_take? hs⟩)
  | giveUp | drop => exact .inl (.inr ⟨c, hothers rfl hc, Link.filled_of_abandon hs⟩)
  | expire =>
    rw [link_conclude, link_follow, Link.inflight_notify] at hs
    exact .inl (.inr ⟨c, hothers rfl hc, Link.filled_of_abandon hs⟩)
  | notify =>
    rw [link_follow, Link.inflight_notify] at hs
    exact .inl (.inr ⟨c, hc, hs⟩)
  | close =>
    have hclose : v.link.close.inflight = (v.link.inflight.close .shutdown).2 := by
      simp [Link.close, Link.closeWith]
    exact hfits.decides_closed hc hclose hs
  | stop reason => exact hfits.decides_closed hc rfl hs
  | refuse => exact hfits.decides_closed hc rfl hs
  | route x rest => exact hfits.decides_routed hc hs

theorem Change.decides (hv : v.Faithful language) (hfits : v.Fits) (hw : v.Change e w)
    (h : w.Decided n r) : v.Decided n r ∨ Decides v w n r := by
  obtain ⟨a, upTo, ha, hf⟩ | ⟨c, hc, hs⟩ := h
  · exact hw.decides_returned hv hfits ha hf
  · exact hw.decides_filled hfits hc hs

/-- What a call comes to was decided by one of the steps. -/
theorem exists_decision {es : List Event} (h : (run language es).Decided n r) :
    ∃ front e back, es = front ++ e :: back ∧ (run language (front ++ [e])).Decided n r ∧
      Decides (run language front) (run language (front ++ [e])) n r := by
  induction es using List.reverseRecOn with
  | nil =>
    obtain ⟨a, upTo, ha, -⟩ | ⟨c, hc, -⟩ := h
    · cases ha
    · cases hc
  | append_singleton es e ih =>
    have hchange := change (run language es) e
    rw [← run_append_one] at hchange
    obtain hbefore | hdecides := hchange.decides (faithful_run language es) (fits_run language es) h
    · obtain ⟨front, e', back, rfl, hafter, hdecides⟩ := ih hbefore
      exact ⟨front, e', back ++ [e], by simp, hafter, hdecides⟩
    · exact ⟨es, e, [], rfl, h, hdecides⟩

/-- That a call fails was decided by one step, and what the failure tells was so after that step.
The one exception takes as many calls as there are ids. -/
theorem tells_of_returned {es : List Event} {a : Caller} {upTo : Nat}
    (ha : (run language es).callers[n]? = some a) (hf : a.fate = .returned (.error f) upTo) :
    ∃ front e back, es = front ++ e :: back ∧ (∀ r, ¬ (run language front).Decided n r) ∧
      (run language (front ++ [e])).Decided n (.error f) ∧
      (f.Tells (run language (front ++ [e])).link ∨
        UInt64.size ≤ (run language front).callers.length) := by
  obtain ⟨front, e, back, rfl, hafter, hdecides⟩ := exists_decision (.inl ⟨a, upTo, ha, hf⟩)
  exact ⟨front, e, back, rfl, hdecides.undecided, hafter,
    hdecides.tells (informed_run language front)⟩

theorem tells_of_notify {es : List Event} {method : String} {params : Option Json}
    (h : ((run language es).link.notify method params).1 = .error f) :
    (run language es).link.closing? ≠ none ∧ f.Tells (run language es).link := by
  cases hclosing : (run language es).link.closing? with
  | none =>
    obtain ⟨hwriting, -⟩ := (faithful_run language es).writing hclosing
    rw [Link.notify_of_takes _ _ _ ((Link.takes_iff _).mpr ⟨hclosing, hwriting⟩)] at h
    cases h
  | some reason =>
    have hclosed : (run language es).link.closedFailure =
        reason.failure (run language es).link.language := by
      rw [Link.closedFailure, hclosing, Option.getD_some]
    rw [Link.notify_of_not_takes _ _ _ (by simp [Link.takes, hclosing]), hclosed] at h
    cases h
    exact ⟨by simp, Failure.tells_of_closed hclosing⟩

end Conversation
end LanguageClient
