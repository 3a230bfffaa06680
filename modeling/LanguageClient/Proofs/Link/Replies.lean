import LanguageClient.Proofs.Link.Waiting

namespace LanguageClient

/-- An answer of this id, or the closing of the link. -/
def Happening.Concerns (id : UInt64) : Happening → Prop
  | .passed _ => False
  | .routed v => ∃ outcome, Incoming.ofJson? v = some (.answer id outcome)
  | .closed _ => True

def elapsed : List Happening → Nat
  | [] => 0
  | .passed ms :: hs => ms + elapsed hs
  | .routed _ :: hs | .closed _ :: hs => elapsed hs

def outcomeReply (language method : String) : Outcome → Reply
  | .ok v => .ok v
  | .error r => .error (.refused language method r)

/-- The reasons for which a call may return what it does: `before` has happened before the call, and
`since` from then until it returns. -/
inductive Caller.Returns (a : Caller) (language : String) (before since : List Happening) :
    Reply → Prop
  /-- The first thing to concern it was an answer. -/
  | answered {early late : List Happening} {v : Json} {outcome : Outcome}
      (split : since = early ++ .routed v :: late) (first : ∀ h ∈ early, ¬ h.Concerns a.id)
      (answer : Incoming.ofJson? v = some (.answer a.id outcome)) :
      Returns a language before since (outcomeReply language a.method outcome)
  /-- The first thing to concern it was the closing. -/
  | closed {early late : List Happening} {reason : Closing}
      (split : since = early ++ .closed reason :: late) (first : ∀ h ∈ early, ¬ h.Concerns a.id) :
      Returns a language before since (.error (reason.failure language))
  /-- The link had closed before it called. -/
  | tooLate {reason : Closing} (atOnce : since = []) (closing : .closed reason ∈ before) :
      Returns a language before since (.error (reason.failure language))
  /-- The link was open, nothing concerned it, and its time was up. -/
  | timedOut (opened : ∀ reason, .closed reason ∉ before)
      (none : ∀ h ∈ since, ¬ h.Concerns a.id) (late : a.timeout ≤ elapsed since) :
      Returns a language before since (.error (.timedOut language a.method (elapsed since)))

theorem elapsed_append (xs ys : List Happening) :
    elapsed (xs ++ ys) = elapsed xs + elapsed ys := by
  induction xs with
  | nil => simp [elapsed]
  | cons h xs ih =>
    cases h with
    | passed ms => simp only [List.cons_append, elapsed, ih, Nat.add_assoc]
    | routed | closed => simp only [List.cons_append, elapsed, ih]

theorem elapsed_take_add_drop (hs : List Happening) (n : Nat) :
    elapsed (hs.take n) + elapsed (hs.drop n) = elapsed hs := by
  rw [← elapsed_append, List.take_append_drop]

/-- The reply that a happening decides for a call of this id and method. -/
def Happening.reply? (language : String) (id : UInt64) (method : String) :
    Happening → Option Reply
  | .passed _ => none
  | .routed v =>
    match Incoming.ofJson? v with
    | some (.answer n outcome) =>
      if n = id then some (outcomeReply language method outcome) else none
    | _ => none
  | .closed reason => some (.error (reason.failure language))

/-- The reply that is decided first. -/
def Caller.verdict? (a : Caller) (language : String) (hs : List Happening) : Option Reply :=
  hs.findSome? (·.reply? language a.id a.method)

section Verdict

variable {language : String} {a : Caller} {hs : List Happening}

theorem Happening.reply?_eq_none {h : Happening} {id : UInt64} {method : String} :
    h.reply? language id method = none ↔ ¬ h.Concerns id := by
  cases h with
  | passed ms => simp [reply?, Concerns]
  | closed reason => simp [reply?, Concerns]
  | routed v =>
    simp only [reply?, Concerns]
    split
    · rename_i n outcome hv
      by_cases hid : n = id <;> simp [hv, hid]
    · rename_i hv
      simp only [true_iff, not_exists]
      exact fun outcome => hv id outcome

theorem Happening.reply?_of_answer {v : Json} {n id : UInt64} {outcome : Outcome} {method : String}
    (h : Incoming.ofJson? v = some (.answer n outcome)) :
    (routed v).reply? language id method =
      if n = id then some (outcomeReply language method outcome) else none := by
  simp only [reply?, h]

theorem Happening.reply?_of_not_answer {v : Json} {id : UInt64} {method : String}
    (h : ∀ n outcome, Incoming.ofJson? v ≠ some (.answer n outcome)) :
    (routed v).reply? language id method = none := by
  rw [reply?_eq_none]
  rintro ⟨outcome, hv⟩
  exact h id outcome hv

theorem Caller.verdict?_one (h : Happening) :
    a.verdict? language [h] = h.reply? language a.id a.method := by
  unfold verdict?
  rw [List.findSome?_cons]
  cases h.reply? language a.id a.method <;> rfl

theorem Caller.verdict?_eq_none :
    a.verdict? language hs = none ↔ ∀ h ∈ hs, ¬ h.Concerns a.id := by
  simp only [verdict?, List.findSome?_eq_none_iff, Happening.reply?_eq_none]

theorem Caller.verdict?_append (xs ys : List Happening) :
    a.verdict? language (xs ++ ys) = (a.verdict? language xs).or (a.verdict? language ys) := by
  simp only [verdict?, List.findSome?_append]

theorem Caller.Returns.of_verdict? {before : List Happening} {r : Reply}
    (hr : a.verdict? language hs = some r) : a.Returns language before hs r := by
  obtain ⟨early, h, late, rfl, hh, hearly⟩ := List.findSome?_eq_some_iff.mp hr
  have first : ∀ e ∈ early, ¬ e.Concerns a.id := fun e he =>
    Happening.reply?_eq_none.mp (hearly e he)
  cases h with
  | passed ms => cases hh
  | closed reason =>
    cases hh
    exact .closed rfl first
  | routed v =>
    simp only [Happening.reply?] at hh
    split at hh
    · rename_i n outcome hv
      split at hh
      · rename_i hid
        cases hh
        exact .answered rfl first (hid ▸ hv)
      · cases hh
    · cases hh

end Verdict

theorem Caller.Returns.verdict? {language : String} {a : Caller} {before since : List Happening}
    {r : Reply} (h : a.Returns language before since r) :
    a.verdict? language since = some r ∨
      a.verdict? language since = none ∧
        ((∃ reason, .closed reason ∈ before ∧ r = .error (reason.failure language)) ∨
          (∀ reason, .closed reason ∉ before) ∧
            r = .error (.timedOut language a.method (elapsed since))) := by
  have decided {early late : List Happening} {h : Happening} {r : Reply}
      (split : since = early ++ h :: late) (first : ∀ e ∈ early, ¬ e.Concerns a.id)
      (hh : h.reply? language a.id a.method = some r) : a.verdict? language since = some r := by
    have hearly : a.verdict? language early = none := Caller.verdict?_eq_none.mpr first
    rw [split, Caller.verdict?_append, hearly, Option.none_or]
    simp only [Caller.verdict?, List.findSome?_cons, hh]
  cases h with
  | answered split first answer =>
    refine .inl (decided split first ?_)
    simp only [Happening.reply?, answer, if_true]
  | closed split first => exact .inl (decided split first rfl)
  | @tooLate reason atOnce closing =>
    refine .inr ⟨?_, .inl ⟨reason, closing, rfl⟩⟩
    rw [atOnce]
    rfl
  | timedOut opened none late => exact .inr ⟨Caller.verdict?_eq_none.mpr none, .inr ⟨opened, rfl⟩⟩

theorem Caller.Returns.unique {language : String} {a : Caller} {before since : List Happening}
    (hone : ∀ p q : Closing, .closed p ∈ before → .closed q ∈ before → p = q) {r r' : Reply}
    (h : a.Returns language before since r) (h' : a.Returns language before since r') :
    r = r' := by
  -- a verdict excludes the two reasons that need none, and these exclude each other
  obtain hr | ⟨hr, hlast⟩ := h.verdict? <;> obtain hr' | ⟨hr', hlast'⟩ := h'.verdict?
  · exact Option.some.inj (hr.symm.trans hr')
  · rw [hr] at hr'
    cases hr'
  · rw [hr] at hr'
    cases hr'
  · obtain ⟨p, hp, rfl⟩ | ⟨hopen, rfl⟩ := hlast <;>
      obtain ⟨q, hq, rfl⟩ | ⟨hopen', rfl⟩ := hlast'
    · rw [hone p q hp hq]
    · exact absurd hp (hopen' p)
    · exact absurd hq (hopen q)
    · rfl

/-- The slot of a caller for whom this has been decided. -/
def Slot.ofVerdict : Option Reply → Slot
  | none => .empty
  | some r => .filled r

namespace Slot

theorem ofVerdict_or (x y : Option Reply) :
    ofVerdict (x.or y) = if ofVerdict x = .empty then ofVerdict y else ofVerdict x := by
  cases x <;> simp [ofVerdict]

theorem ofVerdict_none (s : Slot) : (if s = .empty then ofVerdict none else s) = s := by
  split
  · rename_i h
    exact h.symm
  · rfl

theorem ofVerdict_eq_empty {x : Option Reply} : ofVerdict x = .empty ↔ x = none := by
  cases x <;> simp [ofVerdict]

theorem ofVerdict_eq_filled {x : Option Reply} {r : Reply} :
    ofVerdict x = .filled r ↔ x = some r := by
  cases x <;> simp [ofVerdict]

theorem ofVerdict_ne_spent (x : Option Reply) : ofVerdict x ≠ .spent := by
  cases x <;> simp [ofVerdict]

end Slot

namespace Inflight.Fits

variable {t : Inflight} {waits : Nat → Option Call} {n m : Nat} {c d : Call}

theorem slot_complete (h : t.Fits waits) (hc : waits n = some c) (id : UInt64)
    (outcome : Outcome) :
    (t.complete id outcome).2.slot c.ticket =
      if t.slot c.ticket = .empty ∧ id = c.id then
        .filled (outcomeReply t.language c.method outcome)
      else t.slot c.ticket := by
  by_cases hs : t.slot c.ticket = .empty
  · have hmem : c.owed ∈ t.owed := h.entered hc hs
    by_cases hid : id = c.id
    · have hf : t.find? id = some c.owed := hid ▸ find?_of_mem h.distinct hmem
      have hreply : t.replyOf c.owed outcome = outcomeReply t.language c.method outcome := by
        cases outcome <;> rfl
      rw [t.slot_complete_of_find? id hf, if_pos ⟨rfl, hs⟩, if_pos ⟨hs, hid⟩, hreply]
    · rw [if_neg fun hcon => hid hcon.2]
      cases hf : t.find? id with
      | none => rw [complete_of_find?_eq_none t id hf]
      | some o =>
        obtain ⟨ho, hoid⟩ := mem_of_find? hf
        rw [t.slot_complete_of_find? id hf, if_neg]
        rintro ⟨ht, -⟩
        have heq : o = c.owed := h.eq_owed hc ho ht.symm
        exact hid (hoid.symm.trans (congrArg Owed.id heq))
  · rw [if_neg fun hcon => hs hcon.1]
    cases hf : t.find? id with
    | none => rw [complete_of_find?_eq_none t id hf]
    | some o =>
      rw [t.slot_complete_of_find? id hf, if_neg]
      rintro ⟨ht, hempty⟩
      exact hs (ht ▸ hempty)

theorem slot_close (h : t.Fits waits) (hc : waits n = some c) (reason : Closing) :
    (t.close reason).2.slot c.ticket =
      if t.slot c.ticket = .empty then
        .filled (.error ((t.closed.getD reason).failure t.language))
      else t.slot c.ticket := by
  rw [t.slot_close]
  by_cases hs : t.slot c.ticket = .empty
  · rw [if_pos ⟨hs, c.owed, h.entered hc hs, rfl⟩, if_pos hs]
  · rw [if_neg fun hcon => hs hcon.1, if_neg hs]

theorem slot_remove_other (h : t.Fits waits) (hc : waits n = some c) {id : UInt64}
    (hid : c.id ≠ id) : (t.remove id).2.slot c.ticket = t.slot c.ticket := by
  refine t.slot_remove_of_forall id fun o ho ht hoid => ?_
  have heq : o = c.owed := h.eq_owed hc ho ht
  exact hid ((congrArg Owed.id heq).symm.trans hoid)

theorem slot_abandon_other (h : t.Fits waits) (hc : waits n = some c) (hd : waits m = some d)
    (hnm : n ≠ m) (hid : c.id ≠ d.id) :
    ((t.remove d.id).2.desert d.ticket).slot c.ticket = t.slot c.ticket := by
  rw [slot_desert_ne _ _ fun ht => hnm (h.apart hc hd ht)]
  exact h.slot_remove_other hc hid

theorem slot_take_other (h : t.Fits waits) (hc : waits n = some c) (hd : waits m = some d)
    (hnm : n ≠ m) : (t.take? d.ticket).2.slot c.ticket = t.slot c.ticket :=
  slot_take?_ne _ _ fun ht => hnm (h.apart hc hd ht)

end Inflight.Fits

/-- A caller that waits finds in its slot what has been decided since it called, and one that has
returned had its reason. -/
def Caller.Informed (a : Caller) (language : String) (t : Inflight) (history : List Happening) :
    Prop :=
  a.start ≤ history.length ∧
    match a.fate with
    | .waiting c =>
      c.begun = elapsed (history.take a.start) ∧
        t.slot c.ticket = .ofVerdict (a.verdict? language (history.drop a.start))
    | .returned r upTo =>
      a.start ≤ upTo ∧ upTo ≤ history.length ∧
        a.Returns language (history.take a.start) ((history.take upTo).drop a.start) r
    | .gone => True

theorem Caller.Informed.waiting {a : Caller} {language : String} {t : Inflight}
    {history : List Happening} {c : Call} (h : a.Informed language t history)
    (hc : a.fate = .waiting c) :
    c.begun = elapsed (history.take a.start) ∧
      t.slot c.ticket = .ofVerdict (a.verdict? language (history.drop a.start)) := by
  obtain ⟨-, hfate⟩ := h
  rwa [hc] at hfate

/-- What happens next reaches the slot of a caller that waits; else nothing changes for it. -/
theorem Caller.Informed.extend {a : Caller} {language : String} {t t' : Inflight}
    {history : List Happening} (h : a.Informed language t history) (hs : List Happening)
    (hslot : ∀ c, a.fate = .waiting c → t'.slot c.ticket =
      if t.slot c.ticket = .empty then .ofVerdict (a.verdict? language hs)
      else t.slot c.ticket) :
    a.Informed language t' (history ++ hs) := by
  obtain ⟨hstart, hfate⟩ := h
  have hlen : (history ++ hs).length = history.length + hs.length := List.length_append
  refine ⟨by omega, ?_⟩
  cases hf : a.fate with
  | gone => trivial
  | waiting c =>
    rw [hf] at hfate
    obtain ⟨hbegun, hslots⟩ := hfate
    refine ⟨by rw [List.take_append_of_le_length hstart]; exact hbegun, ?_⟩
    rw [hslot c hf, List.drop_append_of_le_length hstart, verdict?_append, Slot.ofVerdict_or,
      ← hslots]
  | returned r upTo =>
    rw [hf] at hfate
    obtain ⟨hup, hlast, hreturns⟩ := hfate
    refine ⟨hup, by omega, ?_⟩
    rw [List.take_append_of_le_length hstart, List.take_append_of_le_length hlast]
    exact hreturns

theorem Caller.Informed.keep {a : Caller} {language : String} {t t' : Inflight}
    {history : List Happening} (h : a.Informed language t history)
    (hslot : ∀ c, a.fate = .waiting c → t'.slot c.ticket = t.slot c.ticket) :
    a.Informed language t' history := by
  have hextend : a.Informed language t' (history ++ []) := h.extend [] fun c hc => by
    rw [hslot c hc]
    exact (Slot.ofVerdict_none _).symm
  rwa [List.append_nil] at hextend

/-- Whoever returns now has all that has happened since it called behind it. -/
theorem Caller.Informed.returned {a : Caller} {language : String} {t t' : Inflight}
    {history : List Happening} (h : a.Informed language t history) {r : Reply}
    (hreturns : ({ a with fate := .returned r history.length } : Caller).Returns language
      (history.take a.start) (history.drop a.start) r) :
    ({ a with fate := .returned r history.length } : Caller).Informed language t' history := by
  refine ⟨h.1, h.1, Nat.le_refl _, ?_⟩
  rw [List.take_length]
  exact hreturns

namespace Conversation

variable {v w : Conversation} {e : Event} {language : String}

/-- What the conversation remembers agrees with the link. As long as it is open, its writer is at
work, and no end is queued. -/
structure Faithful (v : Conversation) (language : String) : Prop where
  speaks : v.link.language = language
  clock : v.now = elapsed v.history
  closing : ∀ reason, v.link.closing? = some reason ↔ .closed reason ∈ v.history
  writing : v.link.closing? = none → v.link.writing = true ∧ .finish ∉ v.link.sent

theorem some_getD_eq (x : Option Closing) (reason : Closing) :
    some (x.getD reason) = x ∨ x = none := by
  cases x <;> simp

theorem Change.closing (h : v.Change e w) :
    w.link.closing? = v.link.closing? ∨ v.link.closing? = none := by
  cases h with
  | call | giveUp | expire | drop | notify => exact .inl (by simp)
  | take => exact .inl (by simp [Link.closing?])
  | route => exact .inl (Link.closing?_route _ _)
  | close =>
    rw [link_follow, Link.closing?_close]
    exact some_getD_eq _ _
  | stop reason => exact some_getD_eq v.link.closing? reason
  | refuse => exact some_getD_eq v.link.closing? .exited
  | nothing | receive | endInput | write | wait => exact .inl rfl

theorem Change.speaks (h : v.Change e w) : w.link.language = v.link.language := by
  cases h with
  | call | giveUp | expire | drop | notify => simp
  | take => simp [Link.language]
  | route => exact Link.language_route _ _
  | close => simp [Link.close, Link.language, Link.closeWith]
  | stop => exact Link.language_closeWith _ _
  | refuse => exact Link.language_closeWith _ _
  | nothing | receive | endInput | write | wait => rfl

theorem Change.writing (h : v.Change e w)
    (hv : v.link.closing? = none → v.link.writing = true ∧ .finish ∉ v.link.sent)
    (hw : w.link.closing? = none) : w.link.writing = true ∧ .finish ∉ w.link.sent := by
  have hopen : v.link.closing? = none := h.closing.elim (fun heq => heq ▸ hw) id
  obtain ⟨hwriting, hsent⟩ := hv hopen
  cases h with
  | call =>
    refine ⟨by simpa using hwriting, ?_⟩
    rw [link_addCaller, link_follow, Link.sent_call]
    split <;> simp [hsent]
  | expire =>
    refine ⟨by simpa using hwriting, ?_⟩
    rw [link_conclude, link_follow, Link.sent_notify]
    split <;> simp [hsent]
  | notify =>
    refine ⟨by simpa using hwriting, ?_⟩
    rw [link_follow, Link.sent_notify]
    split <;> simp [hsent]
  | route x rest =>
    refine ⟨by simpa using hwriting, ?_⟩
    rw [link_follow]
    obtain heq | ⟨id, method, params, heq⟩ := Link.sent_route { v.link with input := rest } x
    · rw [heq]
      exact hsent
    · rw [heq]
      simp [hsent]
  | close =>
    rw [link_follow, Link.closing?_close] at hw
    cases hw
  | stop | refuse => cases hw
  -- the writer stops only at the end of the queue, which has not been queued
  | write n writing _ hf =>
    have heq : writing = v.link.writing := hf.resolve_right hsent
    exact ⟨heq.trans hwriting, hsent⟩
  | nothing | take | giveUp | drop | receive | endInput | wait => exact ⟨hwriting, hsent⟩

theorem Change.history (h : v.Change e w) :
    ∃ hs, w.history = v.history ++ hs ++ closings v.link w.link ∧
      w.now = v.now + elapsed hs ∧ ∀ reason, .closed reason ∉ hs := by
  cases h with
  | route x rest =>
    refine ⟨[.routed x], rfl, rfl, by simp⟩
  | wait ms =>
    refine ⟨[.passed ms], ?_, rfl, by simp⟩
    simp [record, closings_of_eq]
  | nothing => exact ⟨[], by simp [closings_of_eq], rfl, by simp⟩
  | call | take | giveUp | expire | drop | notify | close | receive | endInput | stop | write
    | refuse =>
    exact ⟨[], by simp [follow, conclude, addCaller], rfl, by simp⟩

theorem mem_closings {l l' : Link} (h : l'.closing? = l.closing? ∨ l.closing? = none)
    (reason : Closing) :
    l'.closing? = some reason ↔ l.closing? = some reason ∨ .closed reason ∈ closings l l' := by
  unfold closings
  cases hl : l.closing? with
  | none => cases hl' : l'.closing? <;> simp [eq_comm]
  | some r =>
    have heq : l'.closing? = some r := by simpa [hl] using h
    simp [heq]

theorem elapsed_closings (l l' : Link) : elapsed (closings l l') = 0 := by
  unfold closings
  split <;> rfl

theorem Faithful.change (h : v.Faithful language) (hw : v.Change e w) : w.Faithful language := by
  obtain ⟨hs, hhistory, hnow, hopen⟩ := hw.history
  constructor
  case speaks => rw [hw.speaks, h.speaks]
  case clock =>
    have hlast := elapsed_closings v.link w.link
    rw [hnow, hhistory, elapsed_append, elapsed_append, h.clock]
    omega
  case closing =>
    intro reason
    rw [mem_closings hw.closing, hhistory, List.mem_append, List.mem_append, h.closing reason]
    simp [hopen reason]
  case writing => exact hw.writing h.writing

theorem faithful_run (language : String) (es : List Event) :
    (run language es).Faithful language := by
  induction es using List.reverseRecOn with
  | nil => constructor <;> simp [Link.start, Link.language, Link.closing?, elapsed]
  | append_singleton es e ih =>
    rw [run_append_one]
    exact ih.change (change _ e)

/-- Every caller knows what concerns it. -/
def Informed (v : Conversation) (language : String) : Prop :=
  ∀ (n : Nat) (a : Caller), v.callers[n]? = some a → a.Informed language v.link.inflight v.history

theorem Informed.conclude (h : v.Informed language) {n : Nat} {c : Call} {l : Link} {f : Fate}
    (hc : v.call? n = some c) (hclosing : l.closing? = v.link.closing?)
    (hother : ∀ m d, n ≠ m → v.call? m = some d →
      l.inflight.slot d.ticket = v.link.inflight.slot d.ticket)
    (hown : ∀ a, v.callers[n]? = some a → a.fate = .waiting c →
      ({ a with fate := f } : Caller).Informed language l.inflight v.history) :
    ((v.follow l).conclude n f).Informed language := by
  intro m a ha
  rw [history_conclude, history_follow_of_eq hclosing, link_conclude, link_follow]
  obtain ⟨hm, ha⟩ | ⟨rfl, b, hb, rfl⟩ := callers_modify n ha
  · refine (h m a ha).keep fun d hd => hother m d (Ne.symm hm) ?_
    exact (v.call?_eq_some m).mpr ⟨a, ha, hd⟩
  · obtain ⟨b', hb', hf⟩ := (v.call?_eq_some m).mp hc
    have heq : b = b' := by
      rw [callers_follow, hb'] at hb
      cases hb
      rfl
    subst heq
    exact hown b hb' hf

theorem Informed.follow (h : v.Informed language) {l : Link}
    (hslot : ∀ (n : Nat) (a : Caller) (c : Call), v.callers[n]? = some a → a.fate = .waiting c →
      l.inflight.slot c.ticket =
        if v.link.inflight.slot c.ticket = .empty then
          .ofVerdict (a.verdict? language (closings v.link l))
        else v.link.inflight.slot c.ticket) :
    (v.follow l).Informed language := by
  intro n a ha
  exact (h n a ha).extend _ fun c hc => hslot n a c ha hc

theorem Informed.follow_same (h : v.Informed language) {l : Link}
    (hl : l.inflight = v.link.inflight) : (v.follow l).Informed language := by
  have hclosing : l.closing? = v.link.closing? := congrArg Inflight.closed hl
  intro n a ha
  rw [history_follow_of_eq hclosing, link_follow, hl]
  exact h n a ha

theorem Informed.follow_close (h : v.Informed language) (hv : v.Faithful language)
    (hfits : v.Fits) (reason : Closing) {l : Link}
    (hl : l.inflight = (v.link.inflight.close reason).2) : (v.follow l).Informed language := by
  refine h.follow fun n a c ha hc => ?_
  have hcall : v.call? n = some c := (v.call?_eq_some n).mpr ⟨a, ha, hc⟩
  rw [hl, Inflight.Fits.slot_close hfits hcall]
  split
  · rename_i hs
    have hopen : v.link.inflight.closed = none := hfits.open_of_empty hcall hs
    have hclosings : closings v.link l = [.closed reason] := by
      unfold closings Link.closing?
      simp [hl, hopen]
    have hspeaks : v.link.inflight.language = language := hv.speaks
    simp [hclosings, hopen, hspeaks, Caller.verdict?, Happening.reply?, Slot.ofVerdict]
  · rfl

theorem Informed.route (h : v.Informed language) (hv : v.Faithful language) (hfits : v.Fits)
    (hnum : v.Numbered) (x : Json) (rest : Bytes) :
    ((v.record [.routed x]).follow ({ v.link with input := rest }.route x).1).Informed language := by
  have hclosing : ({ v.link with input := rest }.route x).1.closing? = v.link.closing? :=
    Link.closing?_route _ _
  intro n a ha
  have hhistory := history_follow_of_eq (v := v.record [.routed x]) hclosing
  rw [hhistory, link_follow]
  refine (h n a ha).extend _ fun c hc => ?_
  have hcall : v.call? n = some c := (v.call?_eq_some n).mpr ⟨a, ha, hc⟩
  obtain ⟨hid, hmethod, -⟩ := hnum.own ha hc
  have hspeaks : v.link.inflight.language = language := hv.speaks
  rw [Link.inflight_route, Caller.verdict?_one]
  split
  · rename_i id outcome hx
    have hslot := Inflight.Fits.slot_complete hfits hcall id outcome
    rw [hid, hmethod, hspeaks] at hslot
    rw [Happening.reply?_of_answer hx, hslot]
    by_cases hempty : v.link.inflight.slot c.ticket = .empty
    · by_cases ha : id = a.id <;> simp [hempty, ha, Slot.ofVerdict]
    · simp [hempty]
  · rename_i hx
    rw [Happening.reply?_of_not_answer hx]
    exact (Slot.ofVerdict_none _).symm

theorem Informed.call (h : v.Informed language) (hv : v.Faithful language) (hfits : v.Fits)
    (hnum : v.Numbered) (hlen : v.callers.length + 1 < UInt64.size) (timeout : Nat)
    (method : String) (params : Option Json) :
    (v.step (.call timeout method params)).Informed language := by
  have hclosing : (v.link.call v.now timeout method params).2.closing? = v.link.closing? := by
    simp
  intro n a ha
  unfold step
  rw [history_addCaller, history_follow_of_eq hclosing, link_addCaller, link_follow]
  obtain ha | ⟨rfl, rfl⟩ := getElem?_append_one ha
  · refine (h n a ha).keep fun c hc => ?_
    have hcall : v.call? n = some c := (v.call?_eq_some n).mpr ⟨a, ha, hc⟩
    have hin := Inflight.Fits.inRange hfits hcall
    -- with ids enough, entering the new call takes out no entry
    have hold : c.id ≠ v.link.nextId := (hnum.own ha hc).1 ▸ hnum.ne_next hlen ha
    obtain ⟨reason, hclosed⟩ | ht | ⟨hopen, hw⟩ := v.link.call_cases
    · rw [v.link.call_of_closed v.now timeout method params hclosed]
    · rw [v.link.call_of_takes v.now timeout method params ht]
      change (v.link.enrolled method).slot c.ticket = _
      unfold Link.enrolled
      rw [Inflight.slot_append_empty, Inflight.length_slots_remove, if_neg (Nat.ne_of_lt hin)]
      exact Inflight.Fits.slot_remove_other hfits hcall hold
    · -- an open link has its writer
      rw [(hv.writing hopen).1] at hw
      cases hw
  · refine ⟨Nat.le_refl _, ?_⟩
    simp only [newCaller]
    obtain ⟨reason, hclosed⟩ | ht | ⟨hopen, hw⟩ := v.link.call_cases
    · rw [v.link.call_of_closed v.now timeout method params hclosed, hv.speaks]
      have hbefore : .closed reason ∈ v.history.take v.history.length := by
        rw [List.take_length]
        exact (hv.closing reason).mp hclosed
      refine ⟨Nat.le_refl _, Nat.le_refl _, .tooLate ?_ hbefore⟩
      rw [List.take_length, List.drop_length]
    · rw [v.link.call_of_takes v.now timeout method params ht]
      refine ⟨?_, ?_⟩
      · rw [List.take_length]
        exact hv.clock
      · change (v.link.enrolled method).slot v.link.inflight.slots.length = _
        unfold Link.enrolled
        rw [Inflight.slot_append_empty, Inflight.length_slots_remove, if_pos rfl,
          List.drop_length]
        rfl
    · rw [(hv.writing hopen).1] at hw
      cases hw

/-- Whoever finds its slot empty when its time is up returns for that reason. -/
theorem Informed.returns_late (h : v.Informed language) (hv : v.Faithful language) (hfits : v.Fits)
    (hnum : v.Numbered) {n : Nat} {c : Call} {a : Caller} {f : Fate} (ha : v.callers[n]? = some a)
    (hwait : a.fate = .waiting c) (hs : v.link.inflight.slot c.ticket = .empty)
    (ht : c.deadline ≤ v.now) :
    ({ a with fate := f } : Caller).Returns language (v.history.take a.start)
      (v.history.drop a.start) (.error (.timedOut v.link.language c.method (v.now - c.begun))) := by
  have hc : v.call? n = some c := (v.call?_eq_some n).mpr ⟨a, ha, hwait⟩
  obtain ⟨hbegun, hslot⟩ := (h n a ha).waiting hwait
  obtain ⟨-, hmethod, hdeadline⟩ := hnum.own ha hwait
  have hsum := elapsed_take_add_drop v.history a.start
  have hclock := hv.clock
  have hwaited : v.now - c.begun = elapsed (v.history.drop a.start) := by omega
  have hlate : a.timeout ≤ elapsed (v.history.drop a.start) := by omega
  have hopened (reason : Closing) : .closed reason ∉ v.history.take a.start := by
    intro hmem
    have hclosed := (hv.closing reason).mpr (List.mem_of_mem_take hmem)
    rw [hfits.open_of_empty hc hs] at hclosed
    cases hclosed
  rw [hs] at hslot
  rw [hv.speaks, hmethod, hwaited]
  refine .timedOut hopened ?_ hlate
  exact Caller.verdict?_eq_none.mp (Slot.ofVerdict_eq_empty.mp hslot.symm)

theorem Informed.change (h : v.Informed language) (hv : v.Faithful language) (hfits : v.Fits)
    (hnum : v.Numbered) (hw : v.Change e w) (hlen : w.callers.length < UInt64.size) :
    w.Informed language := by
  have hgrows := hw.length_callers
  -- what a caller that ends its wait leaves to the others
  have hgone {n m : Nat} {c d : Call} (hc : v.call? n = some c) (hnm : n ≠ m)
      (hd : v.call? m = some d) :
      (v.link.abandon c).inflight.slot d.ticket = v.link.inflight.slot d.ticket := by
    have hid : d.id ≠ c.id := hnum.ne_of_call? (by omega) hd hc (Ne.symm hnm)
    exact Inflight.Fits.slot_abandon_other hfits hd hc (Ne.symm hnm) hid
  cases hw with
  | nothing => exact h
  | call timeout method params =>
    rw [addCaller, List.length_append] at hlen
    exact h.call hv hfits hnum hlen timeout method params
  | @take n c r hc hs =>
    refine h.conclude hc (by simp [Link.closing?]) ?_ ?_
    · intro m d hnm hd
      exact Inflight.Fits.slot_take_other hfits hd hc (Ne.symm hnm)
    · intro a ha hwait
      obtain ⟨-, hslot⟩ := (h n a ha).waiting hwait
      rw [hs] at hslot
      exact (h n a ha).returned (.of_verdict? (Slot.ofVerdict_eq_filled.mp hslot.symm))
  | @giveUp n c hc hs =>
    -- no slot is spent while its caller waits
    obtain ⟨a, ha, hwait⟩ := (v.call?_eq_some n).mp hc
    obtain ⟨-, hslot⟩ := (h n a ha).waiting hwait
    rw [hs] at hslot
    exact absurd hslot.symm (Slot.ofVerdict_ne_spent _)
  | @expire n c hc hs ht =>
    refine h.conclude hc (by simp) ?_ ?_
    · intro m d hnm hd
      rw [Link.inflight_notify]
      exact hgone hc hnm hd
    · intro a ha hwait
      exact (h n a ha).returned (h.returns_late hv hfits hnum ha hwait hs ht)
  | @drop n c hc =>
    refine h.conclude hc (by simp) (fun m d hnm hd => hgone hc hnm hd) ?_
    intro a ha _
    exact ⟨(h n a ha).1, trivial⟩
  | notify => exact h.follow_same (Link.inflight_notify ..)
  | close =>
    refine h.follow_close hv hfits .shutdown ?_
    simp [Link.close, Link.closeWith]
  | receive | endInput | write => exact h.follow_same rfl
  | stop reason => exact h.follow_close hv hfits reason rfl
  | route x rest => exact h.route hv hfits hnum x rest
  | refuse => exact h.follow_close hv hfits .exited rfl
  | wait ms =>
    intro n a ha
    refine (h n a ha).extend [.passed ms] fun c _ => ?_
    rw [Caller.verdict?_one]
    exact (Slot.ofVerdict_none _).symm

theorem informed_run (language : String) (es : List Event)
    (hlen : (run language es).callers.length < UInt64.size) :
    (run language es).Informed language := by
  induction es using List.reverseRecOn with
  | nil => intro n a ha; cases ha
  | append_singleton es e ih =>
    rw [run_append_one] at hlen ⊢
    have hchange := change (run language es) e
    have hbefore := ih (Nat.lt_of_le_of_lt hchange.length_callers hlen)
    exact hbefore.change (faithful_run language es) (fits_run language es)
      (numbered_run language es) hchange hlen

/-- A call that has returned has done so for a reason of its own. -/
theorem Informed.returns (h : v.Informed language) {n upTo : Nat} {a : Caller} {r : Reply}
    (ha : v.callers[n]? = some a) (hf : a.fate = .returned r upTo) :
    a.start ≤ upTo ∧ upTo ≤ v.history.length ∧
      a.Returns language (v.history.take a.start) ((v.history.take upTo).drop a.start) r := by
  obtain ⟨-, hfate⟩ := h n a ha
  rwa [hf] at hfate

end Conversation
end LanguageClient
