import LanguageClient.Proofs.Link.Numbering

namespace LanguageClient

def Call.owed (c : Call) : Owed :=
  ⟨c.id, c.method, c.ticket⟩

/-- A table fits those who wait: every entry is that of a waiting call whose slot is empty, and every
such call has its entry. -/
structure Inflight.Fits (t : Inflight) (waits : Nat → Option Call) : Prop where
  inRange : ∀ {n c}, waits n = some c → c.ticket < t.slots.length
  apart : ∀ {n m c d}, waits n = some c → waits m = some d → c.ticket = d.ticket → n = m
  empty : ∀ {o}, o ∈ t.owed → t.slot o.ticket = .empty
  waited : ∀ {o}, o ∈ t.owed → ∃ n c, waits n = some c ∧ c.owed = o
  entered : ∀ {n c}, waits n = some c → t.slot c.ticket = .empty → c.owed ∈ t.owed
  distinct : (t.owed.map (·.id)).Nodup
  closed : t.closed ≠ none → t.owed = []

theorem update_none_eq_some {waits : Nat → Option Call} {n m : Nat} {d : Call} :
    Function.update waits n none m = some d ↔ m ≠ n ∧ waits m = some d := by
  by_cases hm : m = n
  · simp [hm]
  · simp [hm]

namespace Inflight.Fits

variable {t : Inflight} {waits : Nat → Option Call} {n : Nat} {c : Call} {o : Owed}

theorem eq_owed (h : t.Fits waits) (hc : waits n = some c) (ho : o ∈ t.owed)
    (ht : o.ticket = c.ticket) : o = c.owed := by
  obtain ⟨m, d, hd, rfl⟩ := h.waited ho
  have hm : m = n := h.apart hd hc ht
  subst hm
  rw [hd] at hc
  cases hc
  rfl

theorem eq_of_ticket (h : t.Fits waits) {o' : Owed} (ho : o ∈ t.owed) (ho' : o' ∈ t.owed)
    (ht : o.ticket = o'.ticket) : o = o' := by
  obtain ⟨m, d, hd, rfl⟩ := h.waited ho'
  exact h.eq_owed hd ho ht

/-- When the entry of an id is taken out, whoever had it no longer has an empty slot. -/
theorem forget (h : t.Fits waits) (id : UInt64) : (t.remove id).2.Fits waits := by
  constructor
  case inRange =>
    intro n c hc
    rw [length_slots_remove]
    exact h.inRange hc
  case apart => exact h.apart
  case empty =>
    intro o ho
    obtain ⟨hmem, hid⟩ := (t.mem_owed_remove id).mp ho
    -- an entry of the same ticket would be this one
    rw [t.slot_remove_of_forall id fun o' ho' ht => h.eq_of_ticket ho' hmem ht ▸ hid]
    exact h.empty hmem
  case waited =>
    intro o ho
    exact h.waited ((t.mem_owed_remove id).mp ho).1
  case entered =>
    intro n c hc hs
    obtain ⟨hslot, hne⟩ := t.slot_remove_eq_empty id hs
    have hmem := h.entered hc hslot
    refine (t.mem_owed_remove id).mpr ⟨hmem, fun hid => ?_⟩
    exact hne c.owed (hid ▸ find?_of_mem h.distinct hmem) rfl
  case distinct =>
    rw [owed_remove]
    exact h.distinct.sublist (List.filter_sublist.map _)
  case closed =>
    intro hclosed
    rw [closed_remove] at hclosed
    rw [owed_remove, h.closed hclosed, List.filter_nil]

theorem leave (h : t.Fits waits) (hc : waits n = some c) {t' : Inflight}
    (hlength : t'.slots.length = t.slots.length) (hclosed : t'.closed = t.closed)
    (hsub : t'.owed.Sublist t.owed) (hgone : c.owed ∉ t'.owed)
    (hempty : ∀ {o}, o ∈ t'.owed → o.ticket ≠ c.ticket → t'.slot o.ticket = .empty)
    (hentered : ∀ {m d}, waits m = some d → d.ticket ≠ c.ticket → t'.slot d.ticket = .empty →
      d.owed ∈ t'.owed) : t'.Fits (Function.update waits n none) := by
  constructor
  case inRange =>
    intro m d hd
    rw [hlength]
    exact h.inRange (update_none_eq_some.mp hd).2
  case apart =>
    intro m m' d d' hd hd' ht
    exact h.apart (update_none_eq_some.mp hd).2 (update_none_eq_some.mp hd').2 ht
  case empty =>
    intro o ho
    exact hempty ho fun ht => hgone (h.eq_owed hc (hsub.subset ho) ht ▸ ho)
  case waited =>
    intro o ho
    obtain ⟨m, d, hd, rfl⟩ := h.waited (hsub.subset ho)
    -- an entry that is left belongs to somebody else
    have hm : m ≠ n := by
      rintro rfl
      rw [hc] at hd
      cases hd
      exact hgone ho
    exact ⟨m, d, update_none_eq_some.mpr ⟨hm, hd⟩, rfl⟩
  case entered =>
    intro m d hd hs
    obtain ⟨hm, hd⟩ := update_none_eq_some.mp hd
    exact hentered hd (fun ht => hm (h.apart hd hc ht)) hs
  case distinct => exact h.distinct.sublist (hsub.map _)
  case closed =>
    intro hne
    have hnil := h.closed (hclosed ▸ hne)
    exact List.sublist_nil.mp (hnil ▸ hsub)

theorem desert (h : t.Fits waits) (hc : waits n = some c) (hid : ∀ o ∈ t.owed, o.id ≠ c.id) :
    (t.desert c.ticket).Fits (Function.update waits n none) := by
  refine h.leave hc (by simp) (by simp) ?sub ?gone ?empty ?entered
  case sub => exact List.Sublist.refl _
  case gone => exact fun hmem => hid _ hmem rfl
  case empty =>
    intro o ho ht
    rw [slot_desert_ne _ _ ht]
    exact h.empty ho
  case entered =>
    intro m d hd ht hs
    rw [slot_desert_ne _ _ ht] at hs
    exact h.entered hd hs

theorem abandon (h : t.Fits waits) (hc : waits n = some c) :
    ((t.remove c.id).2.desert c.ticket).Fits (Function.update waits n none) :=
  (h.forget c.id).desert hc fun _ ho => ((t.mem_owed_remove c.id).mp ho).2

theorem take (h : t.Fits waits) (hc : waits n = some c) {r : Reply}
    (hr : t.slot c.ticket = .filled r) :
    (t.take? c.ticket).2.Fits (Function.update waits n none) := by
  have howed : (t.take? c.ticket).2.owed = t.owed := t.owed_take? c.ticket
  refine h.leave hc (by simp) (by simp) ?sub ?gone ?empty ?entered
  case sub => rw [howed]
  case gone =>
    -- an entry stands for an empty slot, and this one is filled
    intro hmem
    have hempty : t.slot c.ticket = .empty := h.empty (howed ▸ hmem)
    rw [hr] at hempty
    cases hempty
  case empty =>
    intro o ho ht
    rw [slot_take?_ne _ _ ht]
    exact h.empty (howed ▸ ho)
  case entered =>
    intro m d hd ht hs
    rw [slot_take?_ne _ _ ht] at hs
    rw [howed]
    exact h.entered hd hs

theorem close (h : t.Fits waits) (reason : Closing) : (t.close reason).2.Fits waits := by
  constructor
  case inRange =>
    intro m d hd
    simpa using h.inRange hd
  case apart => exact h.apart
  case empty => intro o ho; simp at ho
  case waited => intro o ho; simp at ho
  case entered =>
    intro m d hd hs
    -- an empty slot would have had an entry, and been filled
    rw [slot_close] at hs
    split at hs
    · cases hs
    · rename_i hne
      exact absurd ⟨hs, d.owed, h.entered hd hs, rfl⟩ hne
  case distinct => simp
  case closed => intro _; rfl

theorem complete (h : t.Fits waits) (id : UInt64) (outcome : Outcome) :
    (t.complete id outcome).2.Fits waits := by
  cases hf : t.find? id with
  | none => rwa [complete_of_find?_eq_none t id hf]
  | some o =>
    obtain ⟨ho, hid⟩ := mem_of_find? hf
    have still {o'} (ho' : o' ∈ (t.complete id outcome).2.owed) : o' ∈ t.owed ∧ o'.id ≠ id := by
      simpa [owed_complete] using ho'
    constructor
    case inRange =>
      intro m d hd
      simpa using h.inRange hd
    case apart => exact h.apart
    case empty =>
      intro o' ho'
      obtain ⟨hmem, hne⟩ := still ho'
      rw [t.slot_complete_of_find? id hf, if_neg]
      · exact h.empty hmem
      · -- an entry of the same ticket would be the one that is answered
        rintro ⟨ht, -⟩
        exact hne (h.eq_of_ticket hmem ho ht ▸ hid)
    case waited =>
      intro o' ho'
      exact h.waited (still ho').1
    case entered =>
      intro m d hd hs
      rw [t.slot_complete_of_find? id hf] at hs
      split at hs
      · cases hs
      · rename_i hne
        have hmem := h.entered hd hs
        have hdid : d.owed.id ≠ id := fun hdid => by
          have : d.owed = o := List.inj_on_of_nodup_map h.distinct hmem ho (hdid.trans hid.symm)
          exact hne ⟨this ▸ rfl, h.empty ho⟩
        simpa [owed_complete] using ⟨hmem, hdid⟩
    case distinct =>
      rw [owed_complete]
      exact h.distinct.sublist (List.filter_sublist.map _)
    case closed =>
      intro hcl
      have := h.closed (by simpa using hcl)
      simp [owed_complete, this]

theorem enter (h : t.Fits waits) (hn : waits n = none) (hcl : t.closed = none)
    (hc : c.ticket = t.slots.length) (hid : ∀ o ∈ t.owed, o.id ≠ c.id) :
    Fits { t with owed := t.owed ++ [c.owed], slots := t.slots ++ [.empty] }
      (Function.update waits n (some c)) := by
  have hold {m d} (hm : m ≠ n) (hd : Function.update waits n (some c) m = some d) :
      waits m = some d := by rwa [Function.update_of_ne hm] at hd
  have hown {d} (hd : Function.update waits n (some c) n = some d) : c = d := by simpa using hd
  have hslot (k : Nat) :
      slot { t with owed := t.owed ++ [c.owed], slots := t.slots ++ [.empty] } k =
        if k = t.slots.length then .empty else t.slot k := t.slot_append_empty _ k
  constructor
  case inRange =>
    intro m d hd
    rw [List.length_append, List.length_singleton]
    by_cases hm : m = n
    · obtain rfl := hown (hm ▸ hd)
      omega
    · have := h.inRange (hold hm hd)
      omega
  case apart =>
    intro m m' d d' hd hd' ht
    -- the new ticket lies behind all that were given out
    by_cases hm : m = n <;> by_cases hm' : m' = n
    · exact hm.trans hm'.symm
    · obtain rfl := hown (hm ▸ hd)
      have := h.inRange (hold hm' hd')
      omega
    · obtain rfl := hown (hm' ▸ hd')
      have := h.inRange (hold hm hd)
      omega
    · exact h.apart (hold hm hd) (hold hm' hd') ht
  case empty =>
    intro o ho
    rw [hslot]
    split
    · rfl
    · rename_i hlast
      refine h.empty ((List.mem_append.mp ho).resolve_right fun hnew => hlast ?_)
      rw [List.mem_singleton.mp hnew]
      exact hc
  case waited =>
    intro o ho
    obtain ho | ho := List.mem_append.mp ho
    · obtain ⟨m, d, hd, rfl⟩ := h.waited ho
      have hm : m ≠ n := by
        rintro rfl
        simp [hn] at hd
      exact ⟨m, d, by rwa [Function.update_of_ne hm], rfl⟩
    · obtain rfl := List.mem_singleton.mp ho
      exact ⟨n, c, Function.update_self .., rfl⟩
  case entered =>
    intro m d hd hs
    by_cases hm : m = n
    · obtain rfl := hown (hm ▸ hd)
      exact List.mem_append_right _ (List.mem_singleton_self _)
    · have hd := hold hm hd
      rw [hslot, if_neg (Nat.ne_of_lt (h.inRange hd))] at hs
      exact List.mem_append_left _ (h.entered hd hs)
  case distinct =>
    rw [List.map_append, List.map_singleton, List.nodup_append]
    refine ⟨h.distinct, by simp, ?_⟩
    rintro id hmem _ hnew rfl
    obtain ⟨o, ho, rfl⟩ := List.mem_map.mp hmem
    exact hid o ho (List.mem_singleton.mp hnew)
  case closed =>
    intro hne
    simp [hcl] at hne

theorem enroll (h : t.Fits waits) (hn : waits n = none) (hcl : t.closed = none)
    (hc : c.ticket = t.slots.length) :
    Fits { (t.remove c.id).2 with
      owed := (t.remove c.id).2.owed ++ [c.owed]
      slots := (t.remove c.id).2.slots ++ [.empty] } (Function.update waits n (some c)) :=
  (h.forget c.id).enter hn ((t.closed_remove c.id).trans hcl)
    (hc.trans (t.length_slots_remove c.id).symm) fun _ ho => ((t.mem_owed_remove c.id).mp ho).2

end Inflight.Fits

namespace Conversation

/-- The table of a conversation fits its callers. -/
def Fits (v : Conversation) : Prop :=
  v.link.inflight.Fits v.call?

variable {v : Conversation}

theorem Fits.follow (h : v.Fits) {l : Link} (hl : l.inflight = v.link.inflight) :
    (v.follow l).Fits := by
  unfold Fits
  rw [link_follow, hl]
  exact h

theorem Fits.conclude {n : Nat} {f : Fate} (hf : f.call? = none) {l : Link}
    (h : l.inflight.Fits (Function.update v.call? n none)) :
    ((v.follow l).conclude n f).Fits := by
  unfold Fits
  rw [call?_conclude _ _ _ hf]
  exact h

theorem Fits.call (h : v.Fits) (timeout : Nat) (method : String) (params : Option Json) :
    (v.step (.call timeout method params)).Fits := by
  have hnone : Function.update v.call? v.callers.length none = v.call? :=
    Function.update_eq_self_iff.mpr v.call?_length.symm
  unfold Fits step
  rw [call?_addCaller]
  simp only [link_addCaller, link_follow, call?_follow, callers_follow, newCaller]
  obtain ⟨reason, hc⟩ | ht | ⟨hc, hw⟩ := v.link.call_cases
  · rw [v.link.call_of_closed v.now timeout method params hc]
    simp only [Fate.call?, hnone]
    exact h
  · rw [v.link.call_of_takes v.now timeout method params ht]
    let c := v.link.nextCall v.now timeout method
    exact Inflight.Fits.enroll (c := c) h v.call?_length (v.link.takes_iff.mp ht).1 rfl
  · -- the entry made for the call is taken out at once
    rw [v.link.call_of_not_writing v.now timeout method params hc hw]
    let c := v.link.nextCall v.now timeout method
    have hin := Inflight.Fits.enroll (c := c) h v.call?_length hc rfl
    have hout := hin.abandon (Function.update_self ..)
    rw [Function.update_idem, hnone] at hout
    simp only [Fate.call?, hnone]
    exact hout

theorem Fits.change {w : Conversation} {e : Event} (h : v.Fits) (hw : v.Change e w) : w.Fits := by
  cases hw with
  | nothing => exact h
  | call timeout method params => exact h.call timeout method params
  | take hc hs => exact Fits.conclude rfl (Inflight.Fits.take h hc hs)
  | giveUp hc => exact Fits.conclude rfl (Inflight.Fits.abandon h hc)
  | expire hc =>
    refine Fits.conclude rfl ?_
    rw [Link.inflight_notify]
    exact Inflight.Fits.abandon h hc
  | drop hc => exact Fits.conclude rfl (Inflight.Fits.abandon h hc)
  | notify => exact h.follow (by simp)
  | close =>
    have hclose := Inflight.Fits.close h .shutdown
    simpa [Fits, Link.close, Link.closeWith] using hclose
  | receive | endInput | write => exact h.follow rfl
  | stop reason => exact Inflight.Fits.close h reason
  | route x rest =>
    unfold Fits
    rw [link_follow, Link.inflight_route]
    split
    · exact Inflight.Fits.complete h _ _
    · exact h
  | refuse => exact Inflight.Fits.close h .exited
  | wait => exact h

theorem Fits.step (h : v.Fits) (e : Event) : (v.step e).Fits :=
  h.change (v.change e)

/-- A call with an empty slot has its entry, and a closed link has none. -/
theorem Fits.open_of_empty (h : v.Fits) {n : Nat} {c : Call} (hc : v.call? n = some c)
    (hs : v.link.inflight.slot c.ticket = .empty) : v.link.closing? = none := by
  by_contra hclosed
  have hmem := Inflight.Fits.entered h hc hs
  rw [Inflight.Fits.closed h hclosed] at hmem
  cases hmem

theorem fits_run (language : String) (es : List Event) : (run language es).Fits := by
  induction es using List.reverseRecOn with
  | nil =>
    constructor <;> simp [Link.start, call?]
  | append_singleton es e ih =>
    rw [run_append_one]
    exact ih.step e

/-- A caller that looks, or is dropped, takes out no entry but its own. -/
theorem Change.owed {w : Conversation} {e : Event} {n : Nat} {c : Call} (hw : v.Change e w)
    (hc : v.call? n = some c) (he : e = .look n ∨ e = .drop n) :
    (w.link.inflight.owed = v.link.inflight.owed ∨
      w.link.inflight.owed = v.link.inflight.owed.filter (·.id != c.id)) ∧
    w.link.closing? = v.link.closing? := by
  cases hw with
  | nothing => exact ⟨.inl rfl, rfl⟩
  | take => exact ⟨.inl (by simp), by simp [Link.closing?]⟩
  | giveUp hd | expire hd | drop hd =>
    obtain he | he := he
    all_goals cases he
    all_goals
      rw [hc] at hd
      cases hd
    all_goals exact ⟨.inr (by simp [Link.owed_abandon]), by simp⟩
  | call | notify | close | receive | endInput | stop | route | write | refuse | wait =>
    obtain he | he := he <;> cases he

theorem Fits.refused (h : v.Fits) {l l' : Link} (hl : l.inflight = v.link.inflight)
    {now timeout : Nat} {method : String} {params : Option Json} {f : Failure}
    (hcall : l.call now timeout method params = (.error f, l')) (o : Owed) :
    o ∈ l'.inflight.owed ↔ o ∈ v.link.inflight.owed ∧ o.id ≠ l.nextId := by
  obtain ⟨reason, hc⟩ | ht | ⟨hc, hw⟩ := l.call_cases
  · rw [l.call_of_closed now timeout method params hc] at hcall
    obtain ⟨-, rfl⟩ := Prod.mk.inj hcall
    have hempty : v.link.inflight.owed = [] := h.closed fun hn => by
      have hc : l.inflight.closed = some reason := hc
      rw [hl, hn] at hc
      cases hc
    simp [hl, hempty]
  · rw [l.call_of_takes now timeout method params ht] at hcall
    cases (Prod.mk.inj hcall).1
  · rw [l.call_of_not_writing now timeout method params hc hw] at hcall
    obtain ⟨-, rfl⟩ := Prod.mk.inj hcall
    simp only [Inflight.owed_desert, Inflight.mem_owed_remove, Link.enrolled, List.mem_append,
      List.mem_singleton, hl]
    constructor
    · rintro ⟨ho | rfl, hid⟩
      · exact ⟨ho.1, hid⟩
      · exact absurd rfl hid
    · rintro ⟨ho, hid⟩
      exact ⟨.inl ⟨ho, hid⟩, hid⟩

end Conversation
end LanguageClient
