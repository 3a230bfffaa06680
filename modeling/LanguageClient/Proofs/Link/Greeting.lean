import LanguageClient.Proofs.Link.FirstAnswer

namespace LanguageClient.Link

/-- The reader comes to this answer to the first request next. -/
def BringsAnswer (outcome : Outcome) (l : Link) : Prop :=
  ∃ v, l.nextFrame? = some v ∧ Incoming.ofJson? v = some (.answer 1 outcome)

/-- The first request is under way, and the link is open. -/
structure Awaits (first : Json) (method : String) (l : Link) : Prop where
  opened : l.closing? = none
  asked : l.Asked first (firstOwed method) .empty

/-- There is a reply to the first request, and nobody has looked at it. -/
structure Replied (first : Json) (r : Reply) (l : Link) : Prop where
  said : l.said = [first]
  owed : l.inflight.owed = []
  slots : l.inflight.slots = [.filled r]

/-- Over this link nothing more can come of the first request: the link has closed, or the request has
failed. -/
def Ruined (first : Json) (l : Link) : Prop :=
  l.closing? ≠ none ∨ ∃ f, l.Replied first (.error f)

/-- What reading comes to while the first request is under way: an answer to it, the end of what can
be read, or something that does not concern it. -/
inductive ReadsOn (first : Json) (method : String) (l l' : Link) : Prop
  | answered {outcome : Outcome} (brings : l.BringsAnswer outcome)
      (replied : l'.Replied first (l.inflight.replyOf ⟨1, method, 0⟩ outcome))
  | lost {f : Failure} (nothing : l.nextFrame? = none) (replied : l'.Replied first (.error f))
  | waits (others : ∀ outcome, ¬ l.BringsAnswer outcome) (awaits : l'.Awaits first method)

/-- From one link to the other, nothing has been said, and a closed one has stayed closed. -/
structure Rests (l l' : Link) : Prop where
  said : l'.said = l.said
  closed : l.closing? ≠ none → l'.closing? ≠ none

variable {l l' : Link} {first : Json} {method : String} {r : Reply} {p : Option Publication}

section Rests

theorem said_of_sent (h : l'.sent = l.sent) : l'.said = l.said := by
  unfold said
  rw [h]

theorem Rests.refl (l : Link) : l.Rests l :=
  ⟨rfl, id⟩

theorem rests_of_same (hsent : l'.sent = l.sent) (hclosing : l'.closing? = l.closing?) :
    l.Rests l' :=
  ⟨said_of_sent hsent, fun hclosed => hclosing ▸ hclosed⟩

theorem rests_readNext? (h : l.readNext? = some (l', p)) : l.Rests l' := by
  obtain ⟨reason, rest, -, rfl⟩ | ⟨v, rest, -, rfl⟩ := readNext?_cases h
  · exact ⟨rfl, fun _ => by simp⟩
  · refine ⟨Asked.said_route { l with input := rest } v, fun hclosed => ?_⟩
    rw [closing?_route]
    exact hclosed

theorem rests_writeNext? {accepted : Bool} {what : Written}
    (h : l.writeNext? accepted = some (what, l')) : l.Rests l' := by
  obtain ⟨-, ⟨-, rfl⟩ | ⟨-, rfl⟩ | ⟨-, v, -, rfl⟩⟩ := writeNext?_eq h
  · exact rests_of_same rfl rfl
  · exact rests_of_same rfl rfl
  · refine ⟨rfl, fun _ => ?_⟩
    show (l.closeWith .exited).closing? ≠ none
    simp

theorem rests_release (l : Link) : l.Rests l.release :=
  ⟨l.said_release, fun hclosed => by rwa [closing?_release]⟩

end Rests

section Exclusion

theorem BringsAnswer.unique {outcome outcome' : Outcome} (h : l.BringsAnswer outcome)
    (h' : l.BringsAnswer outcome') : outcome' = outcome := by
  obtain ⟨v, hv, hanswer⟩ := h
  obtain ⟨v', hv', hanswer'⟩ := h'
  obtain rfl : v = v' := Option.some.inj (hv.symm.trans hv')
  exact (Incoming.answer.inj (Option.some.inj (hanswer'.symm.trans hanswer))).2

theorem BringsAnswer.nextFrame?_ne_none {outcome : Outcome} (h : l.BringsAnswer outcome) :
    l.nextFrame? ≠ none := by
  obtain ⟨v, hv, -⟩ := h
  simp [hv]

theorem Awaits.not_replied (h : l.Awaits first method) : ¬ l.Replied first r := by
  intro hreplied
  cases h.asked.slots.symm.trans hreplied.slots

theorem Replied.unique (h : l.Replied first r) {r' : Reply} (h' : l.Replied first r') : r' = r := by
  have hslots := h'.slots.symm.trans h.slots
  exact Slot.filled.inj (List.cons.inj hslots).1

theorem Awaits.not_ruined (h : l.Awaits first method) : ¬ l.Ruined first := by
  rintro (hclosed | ⟨f, hfailed⟩)
  · exact hclosed h.opened
  · exact h.not_replied hfailed

end Exclusion

section Closing

variable (reason : Closing)

theorem Awaits.closeWith (h : l.Awaits first method) :
    ∃ f, (l.closeWith reason).Replied first (.error f) := by
  refine ⟨(l.inflight.closed.getD reason).failure l.inflight.language, h.asked.said, rfl, ?_⟩
  simp [Link.closeWith, Inflight.close, h.asked.owed, firstOwed, Inflight.fill, h.asked.slot_eq,
    Slot.isEmpty, Inflight.setSlot, h.asked.slots]

theorem Replied.closeWith (h : l.Replied first r) : (l.closeWith reason).Replied first r := by
  refine ⟨h.said, rfl, ?_⟩
  simp [Link.closeWith, Inflight.close, h.owed, h.slots]

end Closing

theorem Replied.of_same (h : l.Replied first r) (hinflight : l'.inflight = l.inflight)
    (hsent : l'.sent = l.sent) : l'.Replied first r :=
  ⟨(said_of_sent hsent).trans h.said, hinflight ▸ h.owed, hinflight ▸ h.slots⟩

theorem Ruined.of_same (h : l.Ruined first) (hinflight : l'.inflight = l.inflight)
    (hsent : l'.sent = l.sent) : l'.Ruined first := by
  obtain hclosed | ⟨f, hfailed⟩ := h
  · have hclosing : l'.closing? = l.closing? := congrArg Inflight.closed hinflight
    exact .inl (hclosing ▸ hclosed)
  · exact .inr ⟨f, hfailed.of_same hinflight hsent⟩

theorem Awaits.of_same (h : l.Awaits first method) (hinflight : l'.inflight = l.inflight)
    (hsent : l'.sent = l.sent) (hreading : l'.reading = l.reading) : l'.Awaits first method :=
  ⟨(congrArg Inflight.closed hinflight).trans h.opened, h.asked.of_same hinflight hsent hreading⟩

section Coming

theorem Replied.route (h : l.Replied first r) (v : Json) : (l.route v).1.Replied first r := by
  have hsame : (l.route v).1.inflight = l.inflight := by
    rw [inflight_route]
    split
    · apply Inflight.complete_of_find?_eq_none
      rw [Inflight.find?_eq_none, h.owed]
      simp
    · rfl
  exact ⟨(Asked.said_route l v).trans h.said, hsame ▸ h.owed, hsame ▸ h.slots⟩

theorem Replied.read (h : l.Replied first r) (hread : l.readNext? = some (l', p)) :
    l'.Replied first r := by
  obtain ⟨reason, rest, -, rfl⟩ | ⟨v, rest, -, rfl⟩ := readNext?_cases hread
  · have hrest : ({ l with input := rest } : Link).Replied first r := h.of_same rfl rfl
    exact (hrest.closeWith reason).of_same rfl rfl
  · have hrest : ({ l with input := rest } : Link).Replied first r := h.of_same rfl rfl
    exact hrest.route v

theorem Replied.write {accepted : Bool} {what : Written} (h : l.Replied first r)
    (hwrite : l.writeNext? accepted = some (what, l')) : l'.Replied first r := by
  obtain ⟨-, ⟨-, rfl⟩ | ⟨-, rfl⟩ | ⟨-, v, -, rfl⟩⟩ := writeNext?_eq hwrite
  · exact h.of_same rfl rfl
  · exact h.of_same rfl rfl
  · exact (h.closeWith .exited).of_same rfl rfl

theorem Awaits.write {accepted : Bool} {what : Written} (h : l.Awaits first method)
    (hwrite : l.writeNext? accepted = some (what, l')) :
    l'.Awaits first method ∨ ∃ f, l'.Replied first (.error f) := by
  obtain ⟨-, ⟨-, rfl⟩ | ⟨-, rfl⟩ | ⟨-, v, -, rfl⟩⟩ := writeNext?_eq hwrite
  · exact .inl (h.of_same rfl rfl rfl)
  · exact .inl (h.of_same rfl rfl rfl)
  · obtain ⟨f, hf⟩ := h.closeWith .exited
    exact .inr ⟨f, hf.of_same rfl rfl⟩

theorem Awaits.answered (h : l.Awaits first method) {v : Json} {outcome : Outcome}
    (hv : Incoming.ofJson? v = some (.answer 1 outcome)) :
    (l.route v).1.Replied first (l.inflight.replyOf ⟨1, method, 0⟩ outcome) := by
  have hfound : l.inflight.find? 1 = some ⟨1, method, 0⟩ := by
    simp [Inflight.find?, h.asked.owed, firstOwed]
  refine ⟨(Asked.said_route l v).trans h.asked.said, ?_, ?_⟩
  · rw [inflight_route, hv]
    simp [Inflight.owed_complete, h.asked.owed, firstOwed]
  · rw [inflight_route, hv]
    simp [Inflight.complete, hfound, Inflight.fill, Inflight.slot, h.asked.slots, Slot.isEmpty,
      Inflight.setSlot]

theorem Awaits.read (h : l.Awaits first method) (hread : l.readNext? = some (l', p)) :
    ReadsOn first method l l' := by
  obtain ⟨reason, rest, hnone, rfl⟩ | ⟨v, rest, hv, rfl⟩ := readNext?_cases hread
  · have hrest : ({ l with input := rest } : Link).Awaits first method := h.of_same rfl rfl rfl
    obtain ⟨f, hf⟩ := hrest.closeWith reason
    exact .lost hnone (hf.of_same rfl rfl)
  have hrest : ({ l with input := rest } : Link).Awaits first method := h.of_same rfl rfl rfl
  by_cases hanswer : ∃ outcome, Incoming.ofJson? v = some (.answer 1 outcome)
  · obtain ⟨outcome, hanswer⟩ := hanswer
    exact .answered ⟨v, hv, hanswer⟩ (hrest.answered hanswer)
  · refine .waits ?_ ⟨?_, ?_⟩
    · rintro outcome ⟨v', hv', hanswers⟩
      obtain rfl : v = v' := Option.some.inj (hv.symm.trans hv')
      exact hanswer ⟨outcome, hanswers⟩
    · rw [closing?_route]
      exact h.opened
    · apply hrest.asked.route
      rintro id outcome hid o ho rfl
      obtain rfl := List.mem_singleton.mp ho
      exact hanswer ⟨outcome, hid⟩

/-- The reader closes a link just where it finds nothing that it can read. -/
theorem closing?_of_read (hread : l.readNext? = some (l', p)) :
    l.nextFrame? = none ∧ l'.closing? ≠ none ∨
      l.nextFrame? ≠ none ∧ l'.closing? = l.closing? := by
  obtain ⟨reason, rest, hnone, rfl⟩ | ⟨v, rest, hv, rfl⟩ := readNext?_cases hread
  · exact .inl ⟨hnone, by simp⟩
  · exact .inr ⟨by simp [hv], closing?_route _ v⟩

end Coming

/-- What the server is told when the first request is given up. -/
def cancellation : Json :=
  Message.notification "$/cancelRequest" (some (.ofFields [("id", .nat 1)]))

section Looking

variable {c : Call} (now : Nat)

theorem Awaits.poll (h : l.Awaits first method) (hid : c.id = 1) (hticket : c.ticket = 0) :
    now < c.deadline ∧ l.poll now c = (none, l) ∨
      c.deadline ≤ now ∧ ∃ f l', l.poll now c = (some (.error f), l') ∧
        (l'.said = [first] ∨ l'.said = [first, cancellation]) := by
  have hslot : l.inflight.slot c.ticket = .empty := by rw [hticket, h.asked.slot_eq]
  obtain hearly | hlate := Nat.lt_or_ge now c.deadline
  · exact .inl ⟨hearly, poll_of_early hslot hearly⟩
  refine .inr ⟨hlate, _, _, poll_of_late hslot hlate, ?_⟩
  have htold : Message.notification "$/cancelRequest" (some (cancelParams c)) = cancellation := by
    rw [cancelParams, hid]
    rfl
  have hsaid : (l.abandon c).said = [first] := (said_of_sent rfl).trans h.asked.said
  rw [notify_snd, htold]
  split
  · right
    rw [cancellation, said_notification, hsaid]
    rfl
  · exact .inl hsaid

theorem Replied.poll (h : l.Replied first r) (hticket : c.ticket = 0) :
    l.poll now c = (some r, { l with inflight := (l.inflight.take? c.ticket).2 }) := by
  apply poll_of_filled
  simp [hticket, Inflight.slot, h.slots]

end Looking

end LanguageClient.Link
