import LanguageClient.Proofs.Link.Conversation
import Mathlib.Data.List.Induction

namespace LanguageClient.Conversation

variable {v w : Conversation} {e : Event}

/-- A step adds a caller, or ends the wait of one, or leaves them all as they are. -/
theorem Change.callers (h : v.Change e w) :
    (∃ timeout method params, e = .call timeout method params ∧
      w.callers = v.callers ++ [v.newCaller timeout method params]) ∨
    w.callers = v.callers ∨
    ∃ n c f, v.call? n = some c ∧ f.call? = none ∧
      w.callers = v.callers.modify n fun a => { a with fate := f } := by
  cases h with
  | call timeout method params => exact .inl ⟨timeout, method, params, rfl, rfl⟩
  | take hc | giveUp hc | expire hc | drop hc => exact .inr (.inr ⟨_, _, _, hc, rfl, rfl⟩)
  | nothing | notify | close | receive | endInput | stop | route | write | refuse | wait =>
    exact .inr (.inl rfl)

theorem Change.length_callers (h : v.Change e w) : v.callers.length ≤ w.callers.length := by
  obtain ⟨_, _, _, _, h⟩ | h | ⟨_, _, _, _, _, h⟩ := h.callers <;> simp [h]

theorem callers_step_of_ended {n : Nat} {a : Caller} (ha : v.callers[n]? = some a)
    (hf : a.fate.call? = none) (e : Event) : (v.step e).callers[n]? = some a := by
  obtain ⟨_, _, _, _, h⟩ | h | ⟨m, c, f, hc, _, h⟩ := (v.change e).callers
  · rw [h, List.getElem?_append_left (List.getElem?_eq_some_iff.mp ha).1, ha]
  · rw [h, ha]
  · have hm : m ≠ n := by
      rintro rfl
      simp [call?, ha, hf] at hc
    rw [h, List.getElem?_modify, ha]
    simp [hm]

theorem callers_foldl_of_ended {n : Nat} {a : Caller} (ha : v.callers[n]? = some a)
    (hf : a.fate.call? = none) (es : List Event) : (es.foldl step v).callers[n]? = some a := by
  induction es generalizing v with
  | nil => exact ha
  | cons e es ih => exact ih (callers_step_of_ended ha hf e)

/-- Ids are counted from one, and a caller waits for its own call. -/
structure Numbered (v : Conversation) : Prop where
  next : v.link.nextId = UInt64.ofNat (v.callers.length + 1)
  id : ∀ {n : Nat} {a : Caller}, v.callers[n]? = some a → a.id = UInt64.ofNat (n + 1)
  own : ∀ {n : Nat} {a : Caller} {c : Call}, v.callers[n]? = some a → a.fate = .waiting c →
    c.id = a.id ∧ c.method = a.method ∧ c.deadline = c.begun + a.timeout

theorem Change.nextId (h : v.Change e w) (he : ∀ t m p, e ≠ .call t m p) :
    w.link.nextId = v.link.nextId := by
  cases h with
  | call timeout method params => exact absurd rfl (he timeout method params)
  | expire | notify | route => simp
  | close => simp [Link.close, Link.closeWith]
  | nothing | take | giveUp | drop | receive | endInput | stop | write | refuse | wait => rfl

theorem nextId_step_of_length (h : (v.step e).callers.length = v.callers.length) :
    (v.step e).link.nextId = v.link.nextId := by
  refine (v.change e).nextId ?_
  rintro t m p rfl
  simp [step, addCaller] at h

theorem newCaller_waits {timeout : Nat} {method : String} {params : Option Json} {c : Call}
    (h : (v.newCaller timeout method params).fate = .waiting c) :
    v.link.takes = true ∧ c = v.link.nextCall v.now timeout method := by
  unfold newCaller at h
  obtain ⟨reason, hc⟩ | ht | ⟨hc, hw⟩ := v.link.call_cases
  · rw [v.link.call_of_closed v.now timeout method params hc] at h
    cases h
  · rw [v.link.call_of_takes v.now timeout method params ht] at h
    cases h
    exact ⟨ht, rfl⟩
  · rw [v.link.call_of_not_writing v.now timeout method params hc hw] at h
    cases h

theorem Numbered.step (h : v.Numbered) (e : Event) : (v.step e).Numbered := by
  obtain ⟨timeout, method, params, rfl, hcs⟩ | hcs | ⟨n, c, f, hc, hf, hcs⟩ := (v.change e).callers
  case inl =>
    -- the new caller stands last, and has the id that came next
    constructor
    case next =>
      rw [hcs, List.length_append, List.length_singleton]
      have hnext : (v.step (.call timeout method params)).link.nextId = v.link.nextId + 1 :=
        Link.nextId_call ..
      rw [hnext, h.next]
      simp [UInt64.ofNat_add]
    case id =>
      intro m a ha
      obtain ha | ⟨rfl, rfl⟩ := getElem?_append_one (hcs ▸ ha)
      · exact h.id ha
      · exact h.next
    case own =>
      intro m a c ha hw
      obtain ha | ⟨rfl, rfl⟩ := getElem?_append_one (hcs ▸ ha)
      · exact h.own ha hw
      · obtain ⟨-, rfl⟩ := newCaller_waits hw
        exact ⟨rfl, rfl, rfl⟩
  case inr.inl =>
    have hnext : (v.step e).link.nextId = v.link.nextId := nextId_step_of_length (by rw [hcs])
    constructor
    case next => rw [hcs, hnext, h.next]
    case id => intro m a ha; exact h.id (hcs ▸ ha)
    case own => intro m a c ha hw; exact h.own (hcs ▸ ha) hw
  case inr.inr =>
    have hnext : (v.step e).link.nextId = v.link.nextId :=
      nextId_step_of_length (by rw [hcs, List.length_modify])
    constructor
    case next => rw [hcs, hnext, h.next, List.length_modify]
    case id =>
      intro m a ha
      obtain ⟨-, ha⟩ | ⟨rfl, b, hb, rfl⟩ := callers_modify n (hcs ▸ ha)
      · exact h.id ha
      · exact h.id (a := b) hb
    case own =>
      intro m a d ha hw
      obtain ⟨-, ha⟩ | ⟨rfl, b, hb, rfl⟩ := callers_modify n (hcs ▸ ha)
      · exact h.own ha hw
      · -- who has just ended its wait does not wait
        rw [show f = .waiting d from hw] at hf
        cases hf

theorem numbered_run (language : String) (es : List Event) : (run language es).Numbered := by
  induction es using List.reverseRecOn with
  | nil => constructor <;> simp [Link.start]
  | append_singleton es e ih =>
    rw [run_append_one]
    exact ih.step e

/-- As long as there are ids enough, counting does not come back to one. -/
theorem eq_of_ofNat_succ {n m : Nat} (hn : n + 1 < UInt64.size) (hm : m + 1 < UInt64.size)
    (h : UInt64.ofNat (n + 1) = UInt64.ofNat (m + 1)) : n = m := by
  have h := congrArg UInt64.toNat h
  rw [UInt64.toNat_ofNat_of_lt' hn, UInt64.toNat_ofNat_of_lt' hm] at h
  omega

theorem Numbered.eq_of_id (h : v.Numbered) (hlen : v.callers.length < UInt64.size) {n m : Nat}
    {a b : Caller} (ha : v.callers[n]? = some a) (hb : v.callers[m]? = some b)
    (hid : a.id = b.id) : n = m := by
  have hn := (List.getElem?_eq_some_iff.mp ha).1
  have hm := (List.getElem?_eq_some_iff.mp hb).1
  rw [h.id ha, h.id hb] at hid
  exact eq_of_ofNat_succ (by omega) (by omega) hid

theorem Numbered.ne_next (h : v.Numbered) (hlen : v.callers.length + 1 < UInt64.size) {n : Nat}
    {a : Caller} (ha : v.callers[n]? = some a) : a.id ≠ v.link.nextId := by
  have hn := (List.getElem?_eq_some_iff.mp ha).1
  rw [h.id ha, h.next]
  intro hid
  have heq : n = v.callers.length := eq_of_ofNat_succ (by omega) hlen hid
  omega

theorem Numbered.ne_of_call? (h : v.Numbered) (hlen : v.callers.length < UInt64.size) {n m : Nat}
    {c d : Call} (hc : v.call? n = some c) (hd : v.call? m = some d) (hnm : n ≠ m) :
    c.id ≠ d.id := by
  intro hid
  obtain ⟨a, ha, hca⟩ := (v.call?_eq_some n).mp hc
  obtain ⟨b, hb, hdb⟩ := (v.call?_eq_some m).mp hd
  rw [(h.own ha hca).1, (h.own hb hdb).1] at hid
  exact hnm (h.eq_of_id hlen ha hb hid)

end LanguageClient.Conversation
