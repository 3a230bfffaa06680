import LanguageClient.Proofs.Link.Closing

namespace LanguageClient

/-- A message that this side sends of its own accord: a request or a notification, not a reply. -/
def Outgoing.own? : Outgoing → Option Json
  | .frame v => if ((Incoming.ofJson? v).bind Incoming.method?).isSome then some v else none
  | .finish => none

namespace Outgoing

theorem own?_notification (method : String) (params : Option Json) :
    (frame (Message.notification method params)).own? =
      some (Message.notification method params) := by
  simp [own?, Incoming.ofJson?_notification, Incoming.method?]

theorem own?_request (id : UInt64) (method : String) (params : Option Json) :
    (frame (Message.request id method params)).own? = some (Message.request id method params) := by
  simp [own?, Incoming.ofJson?_request, Incoming.method?]

theorem own?_replyTo (id : Json) (method : String) (params : Option Json) :
    (frame (Link.replyTo id method params)).own? = none := by
  obtain h | ⟨n, outcome, h⟩ := Link.ofJson?_replyTo id method params <;>
    simp [own?, h, Incoming.method?]

end Outgoing

namespace Link

/-- All that this side has sent of its own accord. -/
def said (l : Link) : List Json :=
  l.sent.filterMap Outgoing.own?

/-- On this link, which is read, one thing has been said. What is owed says whether it is still under
way, and the slot what has come of it. -/
structure Asked (first : Json) (owed : List Owed) (slot : Slot) (l : Link) : Prop where
  reading : l.reading = true
  said : l.said = [first]
  owed : l.inflight.owed = owed
  slots : l.inflight.slots = [slot]

theorem said_notification (l : Link) (inflight : Inflight) (method : String)
    (params : Option Json) :
    said { l with
      inflight
      sent := l.sent ++ [.frame (Message.notification method params)] } =
      l.said ++ [Message.notification method params] := by
  simp [said, Outgoing.own?_notification]

theorem said_release (l : Link) : l.release.said = l.said := by
  unfold said
  rw [sent_release]
  split
  · simp [Outgoing.own?]
  · rfl

theorem exists_read_of_nextFrame? {l : Link} {v : Json} (hreading : l.reading = true)
    (hframe : l.nextFrame? = some v) : ∃ l' p, l.readNext? = some (l', p) := by
  unfold nextFrame? at hframe
  unfold readNext?
  split at hframe
  · rename_i v' rest hread
    simp only [hreading, hread]
    exact ⟨_, _, rfl⟩
  · cases hframe

/-- The entry of a request that is the first one on its link. -/
def firstOwed (method : String) : List Owed :=
  [⟨1, method, 0⟩]

namespace Asked

variable {first v : Json} {owed : List Owed} {slot : Slot} {l l' : Link} {method : String}

theorem slot_eq (h : l.Asked first owed slot) : l.inflight.slot 0 = slot := by
  simp [Inflight.slot, h.slots]

theorem of_same (h : l.Asked first owed slot) (hinflight : l'.inflight = l.inflight)
    (hsent : l'.sent = l.sent) (hreading : l'.reading = l.reading) : l'.Asked first owed slot := by
  refine ⟨hreading.trans h.reading, ?_, by rw [hinflight, h.owed], by rw [hinflight, h.slots]⟩
  unfold Link.said
  rw [hsent]
  exact h.said

theorem said_route (l : Link) (v : Json) : (l.route v).1.said = l.said := by
  unfold Link.said
  obtain heq | ⟨id, method, params, heq⟩ := l.sent_route v
  · rw [heq]
  · rw [heq, List.filterMap_append]
    simp [Outgoing.own?_replyTo]

/-- What answers none of the requests that are under way changes nothing. -/
theorem route (h : l.Asked first owed slot)
    (hother : ∀ id outcome, Incoming.ofJson? v = some (.answer id outcome) →
      ∀ o ∈ owed, o.id ≠ id) : (l.route v).1.Asked first owed slot := by
  have hsame : (l.route v).1.inflight = l.inflight := by
    rw [inflight_route]
    split
    · rename_i id outcome hv
      apply Inflight.complete_of_find?_eq_none
      rw [Inflight.find?_eq_none, h.owed]
      exact hother id outcome hv
    · rfl
  exact ⟨(l.reading_route v).trans h.reading, (said_route l v).trans h.said, hsame ▸ h.owed,
    hsame ▸ h.slots⟩

theorem answered (h : l.Asked first (firstOwed method) .empty) {result : Json}
    (hv : Incoming.ofJson? v = some (.answer 1 (.ok result))) :
    (l.route v).1.Asked first [] (.filled (.ok result)) := by
  have hfound : l.inflight.find? 1 = some ⟨1, method, 0⟩ := by
    simp [Inflight.find?, h.owed, firstOwed]
  refine ⟨(l.reading_route v).trans h.reading, (said_route l v).trans h.said, ?_, ?_⟩
  · rw [inflight_route, hv]
    simp [Inflight.owed_complete, h.owed, firstOwed]
  · rw [inflight_route, hv]
    simp [Inflight.complete, hfound, Inflight.fill, Inflight.slot, h.slots, Slot.isEmpty,
      Inflight.setSlot, Inflight.replyOf]

/-- Reading on, as long as the link stays open and there is no answer. -/
theorem read {p : Option Publication} (h : l.Asked first owed slot)
    (hread : l.readNext? = some (l', p)) (hopen : l'.closing? = none)
    (hother : ∀ v id outcome, l.nextFrame? = some v →
      Incoming.ofJson? v = some (.answer id outcome) → ∀ o ∈ owed, o.id ≠ id) :
    l'.Asked first owed slot := by
  obtain ⟨reason, rest, -, rfl⟩ | ⟨v, rest, hv, rfl⟩ := readNext?_cases hread
  · rw [closing?_stopReading] at hopen
    cases hopen
  · have hrest : ({ l with input := rest } : Link).Asked first owed slot := h.of_same rfl rfl rfl
    exact hrest.route fun id outcome => hother v id outcome hv

theorem read_answer {p : Option Publication} (h : l.Asked first (firstOwed method) .empty)
    (hread : l.readNext? = some (l', p)) {result : Json} (hframe : l.nextFrame? = some v)
    (hv : Incoming.ofJson? v = some (.answer 1 (.ok result))) :
    l'.Asked first [] (.filled (.ok result)) := by
  obtain ⟨reason, rest, hnone, -⟩ | ⟨v', rest, hv', rfl⟩ := readNext?_cases hread
  · rw [hframe] at hnone
    cases hnone
  · obtain rfl : v = v' := Option.some.inj (hframe.symm.trans hv')
    have hrest : ({ l with input := rest } : Link).Asked first (firstOwed method) .empty :=
      h.of_same rfl rfl rfl
    exact hrest.answered hv

theorem write {accepted : Bool} {what : Written} (h : l.Asked first owed slot)
    (hwrite : l.writeNext? accepted = some (what, l')) (hopen : l'.closing? = none) :
    l'.Asked first owed slot := by
  obtain ⟨-, ⟨-, rfl⟩ | ⟨-, rfl⟩ | ⟨-, v, -, rfl⟩⟩ := writeNext?_eq hwrite
  · exact h.of_same rfl rfl rfl
  · exact h.of_same rfl rfl rfl
  · have hclosed : (l.closeWith .exited).closing? = none := hopen
    rw [closing?_closeWith] at hclosed
    cases hclosed

end Asked
end Link
end LanguageClient
