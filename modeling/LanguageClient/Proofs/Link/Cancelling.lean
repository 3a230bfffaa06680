import LanguageClient.Proofs.Link.Replies

namespace LanguageClient

/-- What a message says about a request of this side. -/
inductive Signal where
  | asked (id : UInt64)
  | cancelled (id : UInt64)
  deriving DecidableEq

namespace Signal

def id : Signal → UInt64
  | asked id | cancelled id => id

def asked? : Signal → Option UInt64
  | asked id => some id
  | cancelled _ => none

/-- An id that is no word counts as 0, which no call has. -/
def ofIncoming? : Incoming → Option Signal
  | .answer _ _ => none
  | .request id _ _ => some (.asked (id.word?.getD 0))
  | .notification method params =>
    if method = "$/cancelRequest" then
      some (.cancelled (((params.bind (·.get? "id")).bind Json.word?).getD 0))
    else none

theorem ofIncoming?_cancel (params : Option Json) :
    ofIncoming? (.notification "$/cancelRequest" params) =
      some (.cancelled (((params.bind (·.get? "id")).bind Json.word?).getD 0)) := by
  rw [ofIncoming?, if_pos rfl]

end Signal

namespace Outgoing

def signal? : Outgoing → Option Signal
  | frame v => (Incoming.ofJson? v).bind Signal.ofIncoming?
  | finish => none

theorem signal?_frame (v : Json) :
    (frame v).signal? = (Incoming.ofJson? v).bind Signal.ofIncoming? := rfl

theorem signal?_request (id : UInt64) (method : String) (params : Option Json) :
    (frame (Message.request id method params)).signal? = some (.asked id) := by
  simp [signal?, Incoming.ofJson?_request, Signal.ofIncoming?, Json.word?_nat]

theorem signal?_cancel (c : Call) :
    (frame (Message.notification "$/cancelRequest" (some (Link.cancelParams c)))).signal? =
      some (.cancelled c.id) := by
  have hid : (some (Link.cancelParams c)).bind (·.get? "id") = some (.nat c.id.toNat) := by
    simp [Link.cancelParams, Table.ofEntries]
  rw [signal?_frame, Incoming.ofJson?_notification, Option.bind_some, Signal.ofIncoming?_cancel,
    hid, Option.bind_some, Json.word?_nat, Option.getD_some]

theorem signal?_notification {method : String} (h : method ≠ "$/cancelRequest")
    (params : Option Json) : (frame (Message.notification method params)).signal? = none := by
  simp [signal?, Incoming.ofJson?_notification, Signal.ofIncoming?, h]

theorem asked?_notification (method : String) (params : Option Json) :
    ((frame (Message.notification method params)).signal?.bind Signal.asked?) = none := by
  rw [signal?_frame, Incoming.ofJson?_notification, Option.bind_some]
  unfold Signal.ofIncoming?
  by_cases h : method = "$/cancelRequest" <;> simp [h, Signal.asked?]

theorem signal?_replyTo (id : Json) (method : String) (params : Option Json) :
    (frame (Link.replyTo id method params)).signal? = none := by
  rw [signal?_frame]
  obtain h | ⟨n, outcome, h⟩ := Link.ofJson?_replyTo id method params
  · rw [h, Option.bind_none]
  · rw [h, Option.bind_some]
    rfl

end Outgoing

namespace Link

def signals (l : Link) : List Signal :=
  l.sent.filterMap Outgoing.signal?

/-- All that the other side gets to know about the request of this id. -/
def signalsOf (l : Link) (id : UInt64) : List Signal :=
  l.signals.filter (·.id == id)

def requestIds (l : Link) : List UInt64 :=
  l.signals.filterMap Signal.asked?

variable {l l' : Link}

theorem signals_append {o : Outgoing} (h : l'.sent = l.sent ++ [o]) :
    l'.signals = l.signals ++ o.signal?.toList := by
  unfold signals
  rw [h, List.filterMap_append]
  cases ho : o.signal? <;> simp [ho]

theorem signals_of_silent {o : Outgoing} (ho : o.signal? = none)
    (h : l'.sent = l.sent ++ [o] ∨ l'.sent = l.sent) : l'.signals = l.signals := by
  obtain h | h := h
  · simp [signals_append h, ho]
  · simp [signals, h]

theorem requestIds_append {o : Outgoing} (h : l'.sent = l.sent ++ [o]) :
    l'.requestIds = l.requestIds ++ (o.signal?.bind Signal.asked?).toList := by
  unfold requestIds
  rw [signals_append h, List.filterMap_append]
  cases ho : o.signal? with
  | none => rfl
  | some s => cases s <;> rfl

theorem requestIds_of_silent {o : Outgoing} (ho : o.signal?.bind Signal.asked? = none)
    (h : l'.sent = l.sent ++ [o] ∨ l'.sent = l.sent) : l'.requestIds = l.requestIds := by
  obtain h | h := h
  · simp [requestIds_append h, ho]
  · simp [requestIds, signals, h]

theorem signalsOf_congr (h : l'.signals = l.signals) (id : UInt64) :
    l'.signalsOf id = l.signalsOf id := by
  unfold signalsOf
  rw [h]

theorem signalsOf_of_append {s : Signal} (h : l'.signals = l.signals ++ [s]) (id : UInt64) :
    l'.signalsOf id = if s.id = id then l.signalsOf id ++ [s] else l.signalsOf id := by
  unfold signalsOf
  rw [h, List.filter_append]
  by_cases hid : s.id = id <;> simp [hid]

end Link

def Happening.isClosing : Happening → Bool
  | closed _ => true
  | passed _ | routed _ => false

theorem Happening.any_isClosing {hs : List Happening} :
    hs.any (·.isClosing) = true ↔ ∃ reason, .closed reason ∈ hs := by
  rw [List.any_eq_true]
  constructor
  · rintro ⟨h, hmem, hclosing⟩
    cases h with
    | passed | routed => cases hclosing
    | closed reason => exact ⟨reason, hmem⟩
  · rintro ⟨reason, hmem⟩
    exact ⟨_, hmem, rfl⟩

theorem Happening.any_isClosing_eq_false {hs : List Happening}
    (h : ∀ reason, .closed reason ∉ hs) : hs.any (·.isClosing) = false := by
  rw [Bool.eq_false_iff]
  intro hany
  obtain ⟨reason, hmem⟩ := any_isClosing.mp hany
  exact h reason hmem

/-- The time of the call ran out. -/
def Fate.isExpired : Fate → Bool
  | returned (.error (.timedOut _ _ _)) _ => true
  | _ => false

theorem Fate.isExpired_failure (reason : Closing) (language : String) (upTo : Nat) :
    (returned (.error (reason.failure language)) upTo).isExpired = false := by
  cases reason <;> rfl

theorem Fate.isExpired_verdict {a : Caller} {language : String} {hs : List Happening} {r : Reply}
    (hr : a.verdict? language hs = some r) (upTo : Nat) : (returned r upTo).isExpired = false := by
  obtain ⟨h, -, hh⟩ := List.exists_of_findSome?_eq_some hr
  cases h with
  | passed ms => cases hh
  | closed reason =>
    cases hh
    exact isExpired_failure reason language upTo
  | routed v =>
    simp only [Happening.reply?] at hh
    split at hh
    · rename_i outcome _
      split at hh
      · cases hh
        cases outcome <;> rfl
      · cases hh
    · cases hh

/-- What the other side ought to see of a call. -/
def Caller.signals (a : Caller) (history : List Happening) : List Signal :=
  if (history.take a.start).any (·.isClosing) then []
  else if a.fate.isExpired then [.asked a.id, .cancelled a.id]
  else [.asked a.id]

theorem Caller.signals_append {a : Caller} {history : List Happening}
    (h : a.start ≤ history.length) (hs : List Happening) :
    a.signals (history ++ hs) = a.signals history := by
  unfold signals
  rw [List.take_append_of_le_length h]

namespace Conversation

variable {v w : Conversation} {e : Event} {language : String}

/-- The other side sees of every call what it ought to, and of nothing else. -/
structure Signalled (v : Conversation) : Prop where
  strange : ∀ {id : UInt64}, id ∉ v.callers.map (·.id) → v.link.signalsOf id = []
  own : ∀ {n : Nat} {a : Caller}, v.callers[n]? = some a →
    v.link.signalsOf a.id = a.signals v.history

theorem Signalled.same (h : v.Signalled) (hv : v.Informed language)
    (hcallers : w.callers = v.callers) {hs : List Happening}
    (hhistory : w.history = v.history ++ hs) (hsignals : w.link.signals = v.link.signals) :
    w.Signalled := by
  have hof := Link.signalsOf_congr hsignals
  constructor
  case strange =>
    intro id hid
    rw [hcallers] at hid
    rw [hof, h.strange hid]
  case own =>
    intro n a ha
    rw [hcallers] at ha
    rw [hof, hhistory, Caller.signals_append (hv n a ha).1, h.own ha]

theorem Faithful.not_closing (h : v.Faithful language) (hopen : v.link.closing? = none) (k : Nat) :
    (v.history.take k).any (·.isClosing) = false := by
  refine Happening.any_isClosing_eq_false fun reason hmem => ?_
  have hclosed := (h.closing reason).mpr (List.mem_of_mem_take hmem)
  rw [hopen] at hclosed
  cases hclosed

theorem Signalled.conclude (h : v.Signalled) {n : Nat} {c : Call} {l : Link} {f : Fate}
    (hc : v.call? n = some c) (hclosing : l.closing? = v.link.closing?)
    (hsignals : l.signals = v.link.signals) (hf : f.isExpired = false) :
    ((v.follow l).conclude n f).Signalled := by
  have hof := Link.signalsOf_congr hsignals
  obtain ⟨a, ha, hwait⟩ := (v.call?_eq_some n).mp hc
  constructor
  case strange =>
    intro id hid
    rw [ids_conclude] at hid
    exact (hof id).trans (h.strange hid)
  case own =>
    intro m b hb
    rw [history_conclude, history_follow_of_eq hclosing, link_conclude, link_follow, hof]
    obtain ⟨-, hb⟩ | ⟨rfl, d, hd, rfl⟩ := callers_modify n hb
    · exact h.own hb
    · have heq : d = a := Option.some.inj (hd.symm.trans ha)
      have hown := h.own ha
      simp only [Caller.signals, hwait, Fate.isExpired] at hown
      simp only [Caller.signals, heq, hf, hown]

/-- The time of a call runs out, and the other side is told. -/
theorem Signalled.expire (h : v.Signalled) (hv : v.Faithful language) (hnum : v.Numbered)
    (hlen : v.callers.length < UInt64.size) {n : Nat} {c : Call} {l : Link} {f : Fate}
    (hc : v.call? n = some c) (hopen : v.link.closing? = none)
    (hclosing : l.closing? = v.link.closing?)
    (hsignals : l.signals = v.link.signals ++ [.cancelled c.id]) (hf : f.isExpired = true) :
    ((v.follow l).conclude n f).Signalled := by
  have hof := Link.signalsOf_of_append hsignals
  obtain ⟨a, ha, hwait⟩ := (v.call?_eq_some n).mp hc
  have hid : c.id = a.id := (hnum.own ha hwait).1
  constructor
  case strange =>
    intro id hstrange
    rw [ids_conclude] at hstrange
    have hne : c.id ≠ id := by
      rintro rfl
      exact hstrange (hid ▸ List.mem_map_of_mem (List.mem_of_getElem? ha))
    rw [link_conclude, link_follow, hof, Signal.id, if_neg hne]
    exact h.strange hstrange
  case own =>
    intro m b hb
    rw [history_conclude, history_follow_of_eq hclosing, link_conclude, link_follow, hof, Signal.id]
    -- the signal bears the id of one caller, and ids are not shared
    obtain ⟨hm, hb⟩ | ⟨rfl, d, hd, rfl⟩ := callers_modify n hb
    · have hne : c.id ≠ b.id := fun heq => hm (hnum.eq_of_id hlen hb ha (heq.symm.trans hid))
      rw [if_neg hne]
      exact h.own hb
    · have heq : d = a := Option.some.inj (hd.symm.trans ha)
      have hown := h.own ha
      have hbefore := hv.not_closing hopen a.start
      simp only [Caller.signals, hbefore, hwait, Fate.isExpired] at hown
      simp [Caller.signals, heq, hbefore, hf, hown, hid]

theorem Signalled.newcomer (h : v.Signalled) {l : Link} {a : Caller}
    (hclosing : l.closing? = v.link.closing?)
    (hnew : ∀ {n : Nat} {b : Caller}, v.callers[n]? = some b → b.id ≠ a.id)
    (hothers : ∀ id, id ≠ a.id → l.signalsOf id = v.link.signalsOf id)
    (hown : l.signalsOf a.id = a.signals v.history) : ((v.follow l).addCaller a).Signalled := by
  constructor
  case strange =>
    intro id hid
    have hid : id ∉ (v.callers ++ [a]).map (·.id) := hid
    rw [List.map_append, List.mem_append, not_or] at hid
    exact (hothers id fun heq => hid.2 (heq ▸ List.mem_singleton_self _)).trans (h.strange hid.1)
  case own =>
    intro n b hb
    rw [history_addCaller, history_follow_of_eq hclosing, link_addCaller, link_follow]
    obtain hb | ⟨-, rfl⟩ := getElem?_append_one hb
    · exact (hothers b.id (hnew hb)).trans (h.own hb)
    · exact hown

theorem Signalled.call (h : v.Signalled) (hv : v.Faithful language)
    (hnum : v.Numbered) (hlen : v.callers.length + 1 < UInt64.size) (timeout : Nat)
    (method : String) (params : Option Json) :
    (v.step (.call timeout method params)).Signalled := by
  have hnew {n : Nat} {a : Caller} (ha : v.callers[n]? = some a) : a.id ≠ v.link.nextId :=
    hnum.ne_next hlen ha
  -- so far there is no signal of the new id
  have hnone : v.link.signalsOf v.link.nextId = [] := by
    refine h.strange fun hmem => ?_
    obtain ⟨a, ha, hid⟩ := List.mem_map.mp hmem
    obtain ⟨n, ha⟩ := List.getElem?_of_mem ha
    exact hnew ha hid
  obtain ⟨reason, hclosed⟩ | ht | ⟨hopen, hw⟩ := v.link.call_cases
  · have hsignals : (v.link.call v.now timeout method params).2.signals = v.link.signals := by
      rw [v.link.call_of_closed v.now timeout method params hclosed]
      rfl
    have hof := Link.signalsOf_congr hsignals
    refine h.newcomer (Link.closing?_call ..) hnew (fun id _ => hof id) ?_
    have hmem : .closed reason ∈ v.history.take v.history.length := by
      rw [List.take_length]
      exact (hv.closing reason).mp hclosed
    exact (hof _).trans (hnone.trans (if_pos (Happening.any_isClosing.mpr ⟨reason, hmem⟩)).symm)
  · have hsent := v.link.sent_call v.now timeout method params
    rw [if_pos ht] at hsent
    have hsignals := Link.signals_append hsent
    rw [Outgoing.signal?_request] at hsignals
    have hof := Link.signalsOf_of_append hsignals
    refine h.newcomer (Link.closing?_call ..) hnew ?_ ?_
    · intro id hid
      exact (hof id).trans (if_neg fun heq => hid heq.symm)
    · have hbefore := hv.not_closing (v.link.takes_iff.mp ht).1 v.history.length
      have hfate : (v.newCaller timeout method params).fate.isExpired = false := by
        unfold newCaller
        rw [v.link.call_of_takes v.now timeout method params ht]
        rfl
      have hasked := (hof v.link.nextId).trans (if_pos rfl)
      rw [hnone, List.nil_append] at hasked
      refine hasked.trans ?_
      unfold Caller.signals
      rw [hfate, show (v.newCaller timeout method params).start = v.history.length from rfl, hbefore]
      rfl
  · rw [(hv.writing hopen).1] at hw
    cases hw

theorem Signalled.change (h : v.Signalled) (hv : v.Faithful language)
    (hinf : v.Informed language) (hfits : v.Fits) (hnum : v.Numbered) (hw : v.Change e w)
    (hlen : w.callers.length < UInt64.size) (he : ∀ p, e ≠ .notify "$/cancelRequest" p) :
    w.Signalled := by
  have hgrows := hw.length_callers
  cases hw with
  | nothing => exact h
  | call timeout method params =>
    rw [addCaller, List.length_append] at hlen
    exact h.call hv hnum hlen timeout method params
  | @take n c r hc hs =>
    obtain ⟨a, ha, hwait⟩ := (v.call?_eq_some n).mp hc
    obtain ⟨-, hslot⟩ := (hinf n a ha).waiting hwait
    rw [hs] at hslot
    have hverdict := Slot.ofVerdict_eq_filled.mp hslot.symm
    exact h.conclude hc (by simp [Link.closing?]) rfl (Fate.isExpired_verdict hverdict _)
  | giveUp hc => exact h.conclude hc (by simp) rfl (Fate.isExpired_failure _ _ _)
  | @expire n c hc hs ht =>
    -- the slot is empty, so the link is open and takes the cancellation
    have hopen := hfits.open_of_empty hc hs
    refine h.expire hv hnum (by omega) hc hopen (by simp) ?_ rfl
    have htakes : (v.link.abandon c).takes = true := by
      rw [Link.takes_abandon, Link.takes_iff]
      exact ⟨hopen, (hv.writing hopen).1⟩
    have hsent := (v.link.abandon c).sent_notify "$/cancelRequest" (some (Link.cancelParams c))
    rw [if_pos htakes] at hsent
    have hsignals := Link.signals_append hsent
    rw [Outgoing.signal?_cancel] at hsignals
    exact hsignals
  | drop hc => exact h.conclude hc (by simp) rfl rfl
  | notify method params =>
    have hmethod : method ≠ "$/cancelRequest" := fun heq => he params (heq ▸ rfl)
    have hsilent := Outgoing.signal?_notification hmethod params
    have hsent := v.link.sent_notify_cases method params
    exact h.same hinf rfl rfl (Link.signals_of_silent hsilent hsent)
  | close =>
    exact h.same hinf rfl rfl (Link.signals_of_silent (o := .finish) rfl v.link.sent_close_cases)
  | route x rest =>
    have hhistory := history_follow_of_eq (v := v.record [.routed x])
      (l := ({ v.link with input := rest }.route x).1) (Link.closing?_route _ _)
    refine h.same hinf rfl hhistory ?_
    obtain hsent | ⟨id, method, params, hsent⟩ := Link.sent_route { v.link with input := rest } x
    · exact Link.signals_of_silent (o := .finish) rfl (.inr hsent)
    · exact Link.signals_of_silent (Outgoing.signal?_replyTo id method params) (.inl hsent)
  | receive | endInput | stop | write | refuse => exact h.same hinf rfl rfl rfl
  | wait ms => exact h.same hinf rfl rfl rfl

theorem signalled_run (language : String) (es : List Event)
    (hlen : (run language es).callers.length < UInt64.size)
    (hes : ∀ p, .notify "$/cancelRequest" p ∉ es) : (run language es).Signalled := by
  induction es using List.reverseRecOn with
  | nil => constructor <;> simp [Link.start, Link.signalsOf, Link.signals]
  | append_singleton es e ih =>
    rw [run_append_one] at hlen ⊢
    have hchange := change (run language es) e
    have hbefore := Nat.lt_of_le_of_lt hchange.length_callers hlen
    have hsignalled := ih hbefore fun p hmem => hes p (List.mem_append_left _ hmem)
    refine hsignalled.change (faithful_run language es) (informed_run language es hbefore)
      (fits_run language es) (numbered_run language es) hchange hlen fun p heq => hes p ?_
    exact List.mem_append_right _ (heq ▸ List.mem_singleton_self _)

theorem Numbered.nodup_ids (h : v.Numbered) (hlen : v.callers.length < UInt64.size) :
    (v.callers.map (·.id)).Nodup := by
  rw [List.nodup_iff_getElem?_ne_getElem?]
  intro i j hij hj heq
  rw [List.length_map] at hj
  obtain ⟨a, ha⟩ : ∃ a, v.callers[i]? = some a := ⟨_, List.getElem?_eq_getElem (by omega)⟩
  obtain ⟨b, hb⟩ : ∃ b, v.callers[j]? = some b := ⟨_, List.getElem?_eq_getElem hj⟩
  rw [List.getElem?_map, List.getElem?_map, ha, hb] at heq
  have hid : a.id = b.id := Option.some.inj heq
  have := h.eq_of_id hlen ha hb hid
  omega

theorem Change.requestIds (h : v.Change e w) :
    w.link.requestIds = v.link.requestIds ∨
      ∃ t m p, e = .call t m p ∧ w.link.requestIds = v.link.requestIds ++ [v.link.nextId] := by
  cases h with
  | call timeout method params =>
    have hsent := v.link.sent_call v.now timeout method params
    split at hsent
    · have hids := Link.requestIds_append hsent
      rw [Outgoing.signal?_request] at hids
      exact .inr ⟨timeout, method, params, rfl, hids⟩
    · exact .inl (Link.requestIds_of_silent (o := .finish) rfl (.inr hsent))
  | @expire n c =>
    have hsent := (v.link.abandon c).sent_notify_cases "$/cancelRequest"
      (some (Link.cancelParams c))
    exact .inl (Link.requestIds_of_silent (Outgoing.asked?_notification _ _) hsent)
  | notify method params =>
    have hsent := v.link.sent_notify_cases method params
    exact .inl (Link.requestIds_of_silent (Outgoing.asked?_notification _ _) hsent)
  | close => exact .inl (Link.requestIds_of_silent (o := .finish) rfl v.link.sent_close_cases)
  | route x rest =>
    refine .inl ?_
    obtain hsent | ⟨id, method, params, hsent⟩ := Link.sent_route { v.link with input := rest } x
    · exact Link.requestIds_of_silent (o := .finish) rfl (.inr hsent)
    · have hsilent := Outgoing.signal?_replyTo id method params
      exact Link.requestIds_of_silent (by rw [hsilent]; rfl) (.inl hsent)
  | nothing | take | giveUp | drop | receive | endInput | stop | write | refuse | wait =>
    exact .inl rfl

theorem Change.ids (h : v.Change e w) :
    w.callers.map (·.id) = v.callers.map (·.id) ∧ (∀ t m p, e ≠ .call t m p) ∨
      w.callers.map (·.id) = v.callers.map (·.id) ++ [v.link.nextId] := by
  cases h with
  | nothing he => exact .inl ⟨rfl, he⟩
  | call => exact .inr List.map_append
  | take | giveUp | expire | drop => exact .inl ⟨v.ids_conclude _ _ _, by simp⟩
  | notify | close | receive | endInput | stop | route | write | refuse | wait =>
    exact .inl ⟨rfl, by simp⟩

/-- Requests are sent in the order of the calls, and under their ids. -/
theorem requestIds_sublist (language : String) (es : List Event) :
    (run language es).link.requestIds.Sublist ((run language es).callers.map (·.id)) := by
  induction es using List.reverseRecOn with
  | nil => exact List.Sublist.refl _
  | append_singleton es e ih =>
    rw [run_append_one]
    have hchange := change (run language es) e
    obtain ⟨hids, hcall⟩ | hids := hchange.ids
    · obtain hrequests | ⟨t, m, p, rfl, -⟩ := hchange.requestIds
      · rw [hids, hrequests]
        exact ih
      · exact absurd rfl (hcall t m p)
    · obtain hrequests | ⟨t, m, p, -, hrequests⟩ := hchange.requestIds
      · rw [hids, hrequests]
        exact ih.trans (List.sublist_append_left _ _)
      · rw [hids, hrequests]
        exact ih.append (List.Sublist.refl _)

theorem Informed.open_of_expired (h : v.Informed language) {n : Nat} {a : Caller}
    (ha : v.callers[n]? = some a) (hf : a.fate.isExpired = true) (reason : Closing) :
    .closed reason ∉ v.history.take a.start := by
  unfold Fate.isExpired at hf
  split at hf
  · rename_i l m t upTo hfate
    obtain ⟨-, -, hreturns⟩ := h.returns ha hfate
    generalize hr : (Except.error (.timedOut l m t) : Reply) = r at hreturns
    cases hreturns with
    | @answered _ _ _ outcome => cases outcome <;> cases hr
    | @closed _ _ reason => cases reason <;> cases hr
    | @tooLate reason => cases reason <;> cases hr
    | timedOut opened => exact opened reason
  · cases hf

/-- A call returns at most once, for a reason that concerns it, and nothing else decides what. Calls
have ids of their own, and so have requests. If nobody else sends cancellations, the other side sees
of a call its request and, exactly if its time ran out, one cancellation behind it; of a call that
came after the closing it sees nothing. -/
theorem calls_return_what_concerns_them (language : String) (es : List Event)
    (hlen : (run language es).callers.length < UInt64.size) :
    let v := run language es
    (∀ (n : Nat) (a : Caller), v.callers[n]? = some a → a.fate.call? = none →
      ∀ fs, (run language (es ++ fs)).callers[n]? = some a) ∧
    (∀ (n : Nat) (a : Caller) (r : Reply) (upTo : Nat),
      v.callers[n]? = some a → a.fate = .returned r upTo →
      a.start ≤ upTo ∧ upTo ≤ v.history.length ∧
      ∀ r', a.Returns language (v.history.take a.start) ((v.history.take upTo).drop a.start) r' ↔
        r' = r) ∧
    (v.callers.map (·.id)).Nodup ∧ v.link.requestIds.Nodup ∧
    ((∀ p, .notify "$/cancelRequest" p ∉ es) →
      (∀ id, id ∉ v.callers.map (·.id) → v.link.signalsOf id = []) ∧
      ∀ (n : Nat) (a : Caller), v.callers[n]? = some a →
        (a.fate.isExpired = true → v.link.signalsOf a.id = [.asked a.id, .cancelled a.id]) ∧
        (a.fate.isExpired = false →
          v.link.signalsOf a.id = [.asked a.id] ∨
          v.link.signalsOf a.id = [] ∧ ∃ reason, .closed reason ∈ v.history.take a.start)) := by
  intro v
  have hnum : v.Numbered := numbered_run language es
  have hfaithful : v.Faithful language := faithful_run language es
  have hinf : v.Informed language := informed_run language es hlen
  have hids : (v.callers.map (·.id)).Nodup := hnum.nodup_ids hlen
  -- two reasons to return can only be two closings, and a link closes once
  have hone (p q : Closing) (k : Nat) (hp : .closed p ∈ v.history.take k)
      (hq : .closed q ∈ v.history.take k) : p = q := by
    have hp := (hfaithful.closing p).mpr (List.mem_of_mem_take hp)
    have hq := (hfaithful.closing q).mpr (List.mem_of_mem_take hq)
    exact Option.some.inj (hp.symm.trans hq)
  refine ⟨fun n a ha hf fs => ?_, fun n a r upTo ha hf => ?_, hids, ?_, fun hes => ?_⟩
  · rw [run_append]
    exact callers_foldl_of_ended ha hf fs
  · obtain ⟨hstart, hup, hreturns⟩ := hinf.returns ha hf
    refine ⟨hstart, hup, fun r' => ⟨fun h' => ?_, fun heq => heq ▸ hreturns⟩⟩
    exact h'.unique (fun p q hp hq => hone p q _ hp hq) hreturns
  · exact hids.sublist (requestIds_sublist language es)
  · have hsignalled := signalled_run language es hlen hes
    refine ⟨fun id hid => hsignalled.strange hid, fun n a ha => ⟨fun hf => ?_, fun hf => ?_⟩⟩
    · have hopened : (v.history.take a.start).any (·.isClosing) = false :=
        Happening.any_isClosing_eq_false (hinf.open_of_expired ha hf)
      rw [hsignalled.own ha, Caller.signals, hopened, hf]
      rfl
    · rw [hsignalled.own ha, Caller.signals, hf]
      cases hany : (v.history.take a.start).any (·.isClosing) with
      | false => exact .inl rfl
      | true => exact .inr ⟨rfl, Happening.any_isClosing.mp hany⟩

/-- Two calls, of which only the second is answered before the time of the first runs out. The answer
to the first comes too late. -/
def overtaking : List Event :=
  [.call 10 "a" none, .call 20 "b" none,
    .receive (Frame.write (Message.answer (.nat 2) (.bool true))), .read, .wait 10, .look 0,
    .receive (Frame.write (Message.answer (.nat 1) .null)), .read, .look 1]

theorem calls_return_what_concerns_them_overtaking :
    (run "lua" overtaking).callers.length < UInt64.size ∧
    (run "lua" overtaking).callers.map (fun a => (a.id, a.fate.isExpired)) =
      [(1, true), (2, false)] ∧
    (run "lua" overtaking).link.signalsOf 1 = [.asked 1, .cancelled 1] := by
  have hlen : (run "lua" overtaking).callers.length < UInt64.size := by decide +kernel
  have hcallers : (run "lua" overtaking).callers.map (fun a => (a.id, a.fate.isExpired)) =
      [(1, true), (2, false)] := by decide +kernel
  have hes (p : Option Json) : .notify "$/cancelRequest" p ∉ overtaking := by simp [overtaking]
  have hfirst := congrArg (·[0]?) hcallers
  simp only [List.getElem?_map] at hfirst
  obtain ⟨a, ha, hpair⟩ := Option.map_eq_some_iff.mp hfirst
  obtain ⟨hid, hexpired⟩ := Prod.mk.inj hpair
  obtain ⟨-, -, -, -, hsignals⟩ := calls_return_what_concerns_them "lua" overtaking hlen
  have hseen := ((hsignals hes).2 0 a ha).1 hexpired
  rw [hid] at hseen
  exact ⟨hlen, hcallers, hseen⟩

end Conversation
end LanguageClient
