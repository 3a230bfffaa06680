import LanguageClient.Proofs.Inflight.Registrations
import Mathlib.Data.List.Induction

namespace LanguageClient.Inflight

section Acts

variable (t : Inflight) (a : Act) (k : Nat)

@[simp] theorem language_act : (t.act a).language = t.language := by
  cases a with
  | register id method => cases h : t.closed <;> simp [act, register, h]
  | complete | remove | close | desert | receive => simp [act]

theorem closed_act : (t.act a).closed = t.closed.or a.closing? := by
  cases a with
  | register id method => cases h : t.closed <;> simp [act, register, h, Act.closing?]
  | close reason => cases h : t.closed <;> simp [act, h, Act.closing?]
  | complete | remove | desert | receive => simp [act, Act.closing?]

theorem owed_act_of_open (h : t.closed = none) : (t.act a).owed =
    t.owed.filter (fun o => (a.settles? o.id).isNone) ++
      (registrationsFrom t.slots.length [a]).map (·.toOwed) := by
  cases a with
  | register id method =>
    simp [act, register_of_open h, owed_remove, Act.settles?, registrationsFrom]
  | complete id outcome => simp [act, owed_complete, Act.settles?, registrationsFrom]
  | remove id => simp [act, owed_remove, Act.settles?, registrationsFrom]
  | close => simp [act, Act.settles?, registrationsFrom]
  | desert | receive => simp [act, Act.settles?, registrationsFrom]

theorem length_slots_act_of_open (h : t.closed = none) :
    (t.act a).slots.length = t.slots.length + (registrationsFrom t.slots.length [a]).length := by
  cases a with
  | register id method => simp [act, register_of_open h, registrationsFrom]
  | complete | remove | close | desert | receive => simp [act, registrationsFrom]

theorem length_slots_act_of_closed {reason : Closing} (h : t.closed = some reason) :
    (t.act a).slots.length = t.slots.length := by
  cases a with
  | register id method => simp [act, register_of_closed h]
  | complete | remove | close | desert | receive => simp [act]

theorem owed_act_of_closed {reason : Closing} (h : t.closed = some reason) (hnil : t.owed = []) :
    (t.act a).owed = [] := by
  cases a with
  | register id method => simp [act, register_of_closed h, hnil]
  | complete | remove => simp [act, owed_complete, owed_remove, hnil]
  | close => simp [act]
  | desert | receive => simp [act, hnil]

variable {t a k}

theorem slot_act_of_quiet (hk : k < t.slots.length)
    (htouches : (a.deserts k || a.receives k) = false)
    (h : ∀ o ∈ t.owed, o.ticket = k → a.settles? o.id = none) : (t.act a).slot k = t.slot k := by
  have hforall : ∀ id : UInt64, (∀ o ∈ t.owed, o.ticket = k → (o.id != id) = true) →
      (t.remove id).2.slot k = t.slot k := fun id hid =>
    slot_remove_of_forall t id fun o ho hticket => by simpa using hid o ho hticket
  simp only [← Option.isNone_iff_eq_none] at h
  cases a with
  | register id method =>
    cases hclosed : t.closed with
    | some reason => simp [act, register_of_closed hclosed]
    | none =>
      simp only [Act.settles?, Act.isNone_ite_id] at h
      simp only [act, register_of_open hclosed]
      rw [slot_append_empty, length_slots_remove, if_neg (Nat.ne_of_lt hk), hforall id h]
  | complete id outcome =>
    simp only [Act.settles?, Act.isNone_ite_id] at h
    cases hfind : t.find? id with
    | none => rw [act, complete_of_find?_eq_none t id hfind]
    | some o =>
      obtain ⟨ho, rfl⟩ := mem_of_find? hfind
      have hticket : k ≠ o.ticket := fun hticket => by simpa using h o ho hticket.symm
      rw [act, slot_complete_of_find? t o.id hfind, if_neg (fun hc => hticket hc.1)]
  | remove id =>
    simp only [Act.settles?, Act.isNone_ite_id] at h
    exact hforall id h
  | close reason =>
    have hnone : ¬ ∃ o ∈ t.owed, o.ticket = k := by
      rintro ⟨o, ho, hticket⟩
      simpa [Act.settles?] using h o ho hticket
    rw [act, slot_close, if_neg (fun hc => hnone hc.2)]
  | desert j =>
    have hj : k ≠ j := fun hj => by simp [Act.deserts, hj] at htouches
    exact slot_desert_ne t j hj
  | receive j =>
    have hj : k ≠ j := fun hj => by simp [Act.receives, hj] at htouches
    exact slot_take?_ne t j hj

/-- The slot of a request that an act ends is filled with what its caller is to hear, unless the
caller has given it up. -/
theorem slot_act_of_settles {o : Owed} {s : Standing} (hn : (t.owed.map (·.id)).Nodup)
    (hopen : t.closed = none) (ho : o ∈ t.owed) (hk : o.ticket < t.slots.length)
    (hs : a.settles? o.id = some s) : (t.act a).slot o.ticket =
      if t.slot o.ticket = .empty then .ofReply? (s.reply? t.language o.method)
      else t.slot o.ticket := by
  have hfind : t.find? o.id = some o := find?_of_mem hn ho
  have hremove : (t.remove o.id).2.slot o.ticket =
      if t.slot o.ticket = .empty then .spent else t.slot o.ticket := by
    simp only [remove, hfind]
    exact (slot_spend t o.ticket o.ticket).trans (by simp)
  cases a with
  | register id method =>
    obtain ⟨rfl, rfl⟩ : id = o.id ∧ s = .dropped := by simpa [Act.settles?, eq_comm] using hs
    simp only [act, register_of_open hopen]
    rw [slot_append_empty, length_slots_remove, if_neg (Nat.ne_of_lt hk), hremove]
    rfl
  | complete id outcome =>
    obtain ⟨rfl, rfl⟩ : id = o.id ∧ s = .answered outcome := by
      simpa [Act.settles?, eq_comm] using hs
    rw [act, slot_complete_of_find? t o.id hfind]
    cases outcome <;> simp [Standing.reply?, Slot.ofReply?, replyOf]
  | remove id =>
    obtain ⟨rfl, rfl⟩ : id = o.id ∧ s = .dropped := by simpa [Act.settles?, eq_comm] using hs
    exact hremove
  | close reason =>
    obtain rfl : .failed reason = s := by simpa [Act.settles?] using hs
    have hsome : ∃ o' ∈ t.owed, o'.ticket = o.ticket := ⟨o, ho, rfl⟩
    rw [act, slot_close, hopen]
    simp [hsome, Standing.reply?, Slot.ofReply?]
  | desert | receive => cases hs

theorem slot_take?_self : (t.take? k).2.slot k =
    match t.slot k with
    | .filled _ => .spent
    | s => s := by
  cases h : t.slot k with
  | filled r =>
    have hk := t.lt_length_of_slot_ne k (by simp [h])
    simp [take?, h, slot_setSlot, hk]
  | empty | spent | deserted => simp [take?, h]

theorem take?_eq_some_iff {r : Reply} : (t.take? k).1 = some r ↔ t.slot k = .filled r := by
  unfold take?
  cases h : t.slot k <;> simp

end Acts

section Runs

variable (language : String) (acts : List Act) (a : Act)

theorem run_append_one : run language (acts ++ [a]) = (run language acts).act a := by
  simp [run]

theorem registrations_append_one : registrations (acts ++ [a]) =
    (registrations acts).map (·.extend a) ++
      match firstClosing? acts with
      | some _ => []
      | none => registrationsFrom (registrations acts).length [a] := by
  rw [registrations, registrationsFrom_append_one, Nat.zero_add]
  rfl

theorem filter_waits_extend (gs : List Registration) :
    ((gs.map (·.extend a)).filter (·.waits)).map (·.toOwed) =
      ((gs.filter (·.waits)).map (·.toOwed)).filter fun o => (a.settles? o.id).isNone := by
  induction gs with
  | nil => rfl
  | cons g gs ih =>
    simp only [List.map_cons, List.filter_cons, Registration.waits_extend]
    cases g.waits <;> cases h : a.settles? g.id <;> simp [ih, h]

/-- The table is as the requests that it has taken have it. -/
structure Agrees (t : Inflight) : Prop where
  speaks : t.language = language
  closed : t.closed = firstClosing? acts
  length : t.slots.length = (registrations acts).length
  owed : t.owed = ((registrations acts).filter (·.waits)).map (·.toOwed)
  ids : (t.owed.map (·.id)).Nodup
  shut : t.closed ≠ none → t.owed = []
  slots : ∀ g ∈ registrations acts, t.slot g.ticket = g.slot language

variable {language acts a} {t : Inflight} {g : Registration}

namespace Agrees

theorem mem_owed_iff (h : Agrees language acts t) (hg : g ∈ registrations acts) :
    g.toOwed ∈ t.owed ↔ g.waits = true := by
  rw [h.owed, List.mem_map]
  constructor
  · rintro ⟨g', hg', howed⟩
    rw [List.mem_filter] at hg'
    rw [← eq_of_ticket_eq hg'.1 hg (congrArg Owed.ticket howed)]
    exact hg'.2
  · exact fun hw => ⟨g, List.mem_filter.mpr ⟨hg, hw⟩, rfl⟩

theorem eq_of_mem_owed (h : Agrees language acts t) (hg : g ∈ registrations acts) {o : Owed}
    (ho : o ∈ t.owed) (hticket : o.ticket = g.ticket) : o = g.toOwed ∧ g.waits = true := by
  have ho' := ho
  rw [h.owed, List.mem_map] at ho'
  obtain ⟨g', hg', rfl⟩ := ho'
  obtain rfl := eq_of_ticket_eq (List.mem_filter.mp hg').1 hg hticket
  exact ⟨rfl, (List.mem_filter.mp hg').2⟩

theorem open_of_waits (h : Agrees language acts t) (hg : g ∈ registrations acts)
    (hw : g.waits = true) : t.closed = none := by
  by_contra hclosed
  have hmem := (h.mem_owed_iff hg).mpr hw
  rw [h.shut hclosed] at hmem
  exact List.not_mem_nil hmem

/-- What a caller finds after one more act. -/
theorem slot_act (h : Agrees language acts t) (hg : g ∈ registrations acts) :
    (t.act a).slot g.ticket = (g.extend a).slot language := by
  have hk : g.ticket < t.slots.length := h.length ▸ ticket_lt hg
  have hslot := h.slots g hg
  -- its caller may touch a slot, or an act may end the request; no act does both
  cases htouches : a.deserts g.ticket || a.receives g.ticket with
  | true =>
    cases a with
    | desert k =>
      obtain rfl : k = g.ticket := by simpa [Act.deserts, Act.receives] using htouches
      rw [Registration.slot_extend_desert]
      simp [act, desert, slot_setSlot, hk]
    | receive k =>
      obtain rfl : k = g.ticket := by simpa [Act.deserts, Act.receives] using htouches
      rw [Registration.slot_extend_receive, ← hslot]
      exact slot_take?_self
    | register | complete | remove | close => cases htouches
  | false =>
    cases hs : a.settles? g.id with
    | none =>
      rw [Registration.slot_extend_of_quiet htouches fun _ => hs, ← hslot]
      refine slot_act_of_quiet hk htouches fun o ho hticket => ?_
      rw [(h.eq_of_mem_owed hg ho hticket).1]
      exact hs
    | some s =>
      cases hw : g.waits with
      | true =>
        have hmem := (h.mem_owed_iff hg).mpr hw
        have hopen := h.open_of_waits hg hw
        rw [slot_act_of_settles h.ids hopen hmem hk hs, Registration.slot_extend_of_settles hw hs,
          hslot, h.speaks]
      | false =>
        rw [Registration.slot_extend_of_quiet htouches (by simp [hw]), ← hslot]
        refine slot_act_of_quiet hk htouches fun o ho hticket => ?_
        have hwaits := (h.eq_of_mem_owed hg ho hticket).2
        rw [hw] at hwaits
        cases hwaits

/-- No two requests wait under one id: whoever takes an id over ends the one that had it. -/
theorem nodup_act (h : Agrees language acts t) (a : Act) :
    ((t.act a).owed.map (·.id)).Nodup := by
  cases hclosed : t.closed with
  | none =>
    have hkept : ((t.owed.filter fun o => (a.settles? o.id).isNone).map (·.id)).Nodup :=
      h.ids.sublist (List.filter_sublist.map _)
    rw [owed_act_of_open t a hclosed, List.map_append]
    cases a with
    | register id method =>
      refine hkept.append (List.nodup_singleton id) ?_
      rintro i hi hi'
      obtain ⟨o, ho, rfl⟩ := List.mem_map.mp hi
      obtain rfl : o.id = id := List.mem_singleton.mp hi'
      simpa [Act.settles?] using (List.mem_filter.mp ho).2
    | complete | remove | close | desert | receive =>
      simpa [registrationsFrom] using hkept
  | some reason =>
    rw [owed_act_of_closed t a hclosed (h.shut (by simp [hclosed]))]
    exact List.nodup_nil

theorem slots_act (h : Agrees language acts t) (a : Act) {g' : Registration}
    (hg' : g' ∈ registrations (acts ++ [a])) :
    (t.act a).slot g'.ticket = g'.slot language := by
  rw [registrations_append_one, List.mem_append, List.mem_map] at hg'
  obtain ⟨g, hg, rfl⟩ | hnew := hg'
  · exact h.slot_act hg
  · rw [← h.closed] at hnew
    cases hclosed : t.closed with
    | none =>
      rw [hclosed] at hnew
      obtain ⟨id, method, rfl, rfl⟩ := mem_registrationsFrom_singleton hnew
      simp only [act, register_of_open hclosed]
      rw [slot_append_empty, length_slots_remove, if_pos h.length.symm]
      rfl
    | some reason =>
      rw [hclosed] at hnew
      cases hnew

theorem step (h : Agrees language acts t) : Agrees language (acts ++ [a]) (t.act a) where
  speaks := (t.language_act a).trans h.speaks
  closed := by rw [closed_act, h.closed, firstClosing?_append_one]
  length := by
    rw [registrations_append_one, List.length_append, List.length_map, ← h.closed]
    cases hclosed : t.closed with
    | none => rw [length_slots_act_of_open t a hclosed, h.length]
    | some reason => rw [length_slots_act_of_closed t a hclosed, h.length]; rfl
  owed := by
    rw [registrations_append_one, List.filter_append, List.map_append, filter_waits_extend,
      ← h.owed, ← h.closed]
    -- an open table enters the new request; a closed one holds nothing and takes nothing
    cases hclosed : t.closed with
    | none =>
      have hnew : (registrationsFrom (registrations acts).length [a]).filter (·.waits) =
          registrationsFrom (registrations acts).length [a] := by
        rw [List.filter_eq_self]
        intro g hg
        obtain ⟨id, method, rfl, rfl⟩ := mem_registrationsFrom_singleton hg
        rfl
      rw [owed_act_of_open t a hclosed, h.length, hnew]
    | some reason =>
      have hnil : t.owed = [] := h.shut (by simp [hclosed])
      rw [owed_act_of_closed t a hclosed hnil, hnil]
      rfl
  ids := h.nodup_act a
  shut := fun hshut => by
    cases hclosed : t.closed with
    | none =>
      rw [closed_act, hclosed, Option.none_or] at hshut
      cases a with
      | close => rfl
      | register | complete | remove | desert | receive => exact absurd rfl hshut
    | some reason => exact owed_act_of_closed t a hclosed (h.shut (by simp [hclosed]))
  slots := fun g' hg' => h.slots_act a hg'

end Agrees

theorem agrees_run (language : String) (acts : List Act) :
    Agrees language acts (run language acts) := by
  induction acts using List.reverseRecOn with
  | nil =>
    exact ⟨rfl, rfl, rfl, rfl, List.nodup_nil, fun _ => rfl, fun g hg => absurd hg List.not_mem_nil⟩
  | append_singleton acts a ih =>
    rw [run_append_one]
    exact ih.step

section Hearing

variable {k : Nat}

theorem heard?_eq_some_iff {r : Reply} :
    t.heard? k a = some r ↔ a.receives k = true ∧ t.slot k = .filled r := by
  cases a with
  | receive j => by_cases hj : j = k <;> simp [heard?, Act.receives, hj, take?_eq_some_iff]
  | register | complete | remove | close | desert => simp [heard?, Act.receives]

theorem received_append_one (t : Inflight) (k : Nat) (acts : List Act) (a : Act) :
    t.received k (acts ++ [a]) =
      t.received k acts ++ ((acts.foldl act t).heard? k a).toList := by
  induction acts generalizing t with
  | nil => simp [received]
  | cons b acts ih => simp [received, ih]

theorem received_of_length_le (h : (registrations acts).length ≤ k) :
    ({ language } : Inflight).received k acts = [] := by
  induction acts using List.reverseRecOn with
  | nil => rfl
  | append_singleton acts a ih =>
    have hbefore : (registrations acts).length ≤ k := by
      rw [registrations_append_one, List.length_append, List.length_map] at h
      omega
    rw [received_append_one, ih hbefore, List.nil_append, Option.toList_eq_nil_iff,
      Option.eq_none_iff_forall_ne_some]
    intro r hr
    have hslot := (heard?_eq_some_iff.mp hr).2
    have hk := lt_length_of_slot_ne _ k (by rw [hslot]; simp)
    rw [show acts.foldl act { language } = run language acts from rfl,
      (agrees_run language acts).length] at hk
    omega

/-- A caller hears of the end of its request if it looks for the first time since, and is still
there. -/
theorem heard?_eq (hg : g ∈ registrations acts) : (run language acts).heard? g.ticket a =
    if a.receives g.ticket && !g.isDeserted && !g.waits && !g.isLookedFor then g.reply? language
    else none := by
  ext r
  rw [heard?_eq_some_iff, (agrees_run language acts).slots g hg, Registration.slot_eq_filled_iff]
  cases a.receives g.ticket <;> cases g.isDeserted <;> cases g.waits <;> cases g.isLookedFor <;>
    simp

theorem hears_extend (hg : g ∈ registrations acts) :
    (if g.isHeard then (g.reply? language).toList else []) ++
        ((run language acts).heard? g.ticket a).toList =
      if (g.extend a).isHeard then ((g.extend a).reply? language).toList else [] := by
  have hreply (hw : g.waits = false) : (g.extend a).reply? language = g.reply? language := by
    simp only [Registration.reply?, Registration.standing_extend_of_ended hw,
      Registration.toOwed_extend]
  rw [Registration.isHeard_extend, heard?_eq hg]
  cases hfirst : a.receives g.ticket && !g.isDeserted && !g.waits && !g.isLookedFor with
  | true =>
    obtain ⟨⟨-, hw⟩, hlooked⟩ : ((a.receives g.ticket = true ∧ g.isDeserted = false) ∧
        g.waits = false) ∧ g.isLookedFor = false := by simpa using hfirst
    simp [Registration.isHeard, hlooked, hreply hw]
  | false =>
    cases hheard : g.isHeard with
    | false => simp
    | true =>
      have hw : g.waits = false := by
        cases hw : g.waits with
        | false => rfl
        | true => simp [Registration.isHeard, Registration.isLookedFor_of_waits hw] at hheard
      simp [hreply hw]

/-- All that a caller ever hears is the end of its own request, and that once. -/
theorem received_eq (hg : g ∈ registrations acts) :
    ({ language } : Inflight).received g.ticket acts =
      if g.isHeard then (g.reply? language).toList else [] := by
  induction acts using List.reverseRecOn generalizing g with
  | nil => cases hg
  | append_singleton acts a ih =>
    rw [received_append_one]
    rw [registrations_append_one, List.mem_append, List.mem_map] at hg
    obtain ⟨g, hg, rfl⟩ | hnew := hg
    · have hrec := ih hg
      rw [Registration.toOwed_extend, hrec]
      exact hears_extend hg
    · cases hclosed : firstClosing? acts with
      | none =>
        rw [hclosed] at hnew
        obtain ⟨id, method, rfl, rfl⟩ := mem_registrationsFrom_singleton hnew
        -- its ticket is new, so nothing was heard through it so far
        rw [received_of_length_le (Nat.le_refl _)]
        rfl
      | some reason =>
        rw [hclosed] at hnew
        cases hnew

end Hearing

/-- An answer finds its caller if the request waits under its id and the caller is there. -/
theorem complete_eq_true_iff {id : UInt64} {outcome : Outcome} :
    ((run language acts).complete id outcome).1 = true ↔
      ∃ g ∈ registrations acts, g.id = id ∧ g.waits = true ∧ g.isDeserted = false := by
  have h := agrees_run language acts
  constructor
  · intro htrue
    cases hfind : (run language acts).find? id with
    | none => simp [complete, hfind] at htrue
    | some o =>
      obtain ⟨ho, hid⟩ := mem_of_find? hfind
      rw [h.owed, List.mem_map] at ho
      obtain ⟨g, hg, rfl⟩ := ho
      obtain ⟨hg, hw⟩ := List.mem_filter.mp hg
      have hempty : g.slot language = .empty := by
        rw [← h.slots g hg, ← Slot.isEmpty_iff]
        simpa [complete, hfind] using htrue
      exact ⟨g, hg, hid, hw, (Registration.slot_eq_empty_iff.mp hempty).1⟩
  · rintro ⟨g, hg, rfl, hw, hdeserted⟩
    have hfind := find?_of_mem h.ids ((h.mem_owed_iff hg).mpr hw)
    have hempty : g.slot language = .empty := Registration.slot_eq_empty_iff.mpr ⟨hdeserted, hw⟩
    simp only [complete, hfind]
    rw [h.slots g hg, Slot.isEmpty_iff]
    exact hempty

theorem slot_complete_of_waits {outcome : Outcome} (hg : g ∈ registrations acts)
    (hw : g.waits = true) (hdeserted : g.isDeserted = false) :
    ((run language acts).complete g.id outcome).2.slot g.ticket =
      .ofReply? ((Standing.answered outcome).reply? language g.method) := by
  have hempty : g.slot language = .empty := Registration.slot_eq_empty_iff.mpr ⟨hdeserted, hw⟩
  have hsettles : (Act.complete g.id outcome).settles? g.id = some (.answered outcome) :=
    if_pos rfl
  calc ((run language acts).complete g.id outcome).2.slot g.ticket
      = (g.extend (.complete g.id outcome)).slot language :=
        (agrees_run language acts).slot_act (a := .complete g.id outcome) hg
    _ = .ofReply? ((Standing.answered outcome).reply? language g.method) := by
        rw [Registration.slot_extend_of_settles hw hsettles, if_pos hempty]

theorem mem_registrations_iff : g ∈ registrations acts ↔
    ∃ before entered, acts = before ++ .register g.id g.method :: g.since ∧
      (run language before).register g.id g.method = .ok (g.ticket, entered) := by
  rw [registrations, mem_registrationsFrom_iff]
  refine exists_congr fun before => ?_
  have h := agrees_run language before
  rw [exists_and_left, Nat.zero_add]
  refine and_congr_right fun _ => ?_
  cases hclosed : (run language before).closed with
  | none =>
    rw [register_of_open hclosed, h.length, ← h.closed, hclosed]
    simp [registrations, eq_comm]
  | some reason =>
    rw [register_of_closed hclosed, ← h.closed, hclosed]
    simp

end Runs

/-- The requests that a table takes are those whose `register` succeeds. It holds those that wait,
and its size counts them. Each of the others was replaced or taken out, and its slot stays without a
reply; or was answered; or failed with the first closing. Its caller finds the reply to it and hears
it at most once, and nothing else ever. An answer is handed over exactly if there is a caller who
waits for it, and then that caller finds it. Once there is a closing, the table is empty and takes
no request. -/
theorem registrations_are_accounted_for (language : String) (acts : List Act) :
    (∀ g, g ∈ registrations acts ↔ ∃ before entered,
      acts = before ++ .register g.id g.method :: g.since ∧
        (run language before).register g.id g.method = .ok (g.ticket, entered)) ∧
    (run language acts).owed = ((registrations acts).filter (·.waits)).map (·.toOwed) ∧
    (run language acts).size = (registrations acts).countP (·.waits) ∧
    (∀ g ∈ registrations acts,
      (run language acts).slot g.ticket = g.slot language ∧
      ({ language } : Inflight).received g.ticket acts =
        (if g.isHeard then (g.reply? language).toList else []) ∧
      ∀ reason, g.standing = .failed reason → firstClosing? acts = some reason) ∧
    (∀ id outcome, ((run language acts).complete id outcome).1 = true ↔
      ∃ g ∈ registrations acts, g.id = id ∧ g.waits = true ∧ g.isDeserted = false ∧
        ((run language acts).complete id outcome).2.slot g.ticket =
          .ofReply? ((Standing.answered outcome).reply? language g.method)) ∧
    ∀ reason, firstClosing? acts = some reason → (run language acts).size = 0 ∧
      ∀ id method, (run language acts).register id method = .error (reason.failure language) := by
  have h := agrees_run language acts
  refine ⟨fun g => mem_registrations_iff, h.owed, ?_, fun g hg => ?_, fun id outcome => ?_,
    fun reason hreason => ?_⟩
  · rw [size, h.owed, List.length_map, List.countP_eq_length_filter]
  · exact ⟨h.slots g hg, received_eq hg, fun reason => closing_of_failed hg⟩
  · rw [complete_eq_true_iff]
    constructor
    · rintro ⟨g, hg, rfl, hw, hdeserted⟩
      exact ⟨g, hg, rfl, hw, hdeserted, slot_complete_of_waits hg hw hdeserted⟩
    · rintro ⟨g, hg, hid, hw, hdeserted, -⟩
      exact ⟨g, hg, hid, hw, hdeserted⟩
  · have hclosed : (run language acts).closed = some reason := h.closed.trans hreason
    refine ⟨?_, fun id method => ?_⟩
    · rw [size, h.shut (by simp [hclosed]), List.length_nil]
    · rw [register_of_closed hclosed, h.speaks]

/-- One id is used twice, a caller leaves, and the table is closed for two reasons. -/
def turmoil : List Act :=
  [.register 1 "hover", .register 1 "rename", .complete 1 (.error ⟨-32800, "cancelled"⟩),
    .receive 1, .receive 1, .register 2 "symbols", .desert 2, .register 3 "hover", .close .exited,
    .close .shutdown, .receive 3, .register 4 "rename"]

theorem registrations_are_accounted_for_turmoil :
    let replaced : Registration := ⟨⟨1, "hover", 0⟩, turmoil.drop 1⟩
    let answered : Registration := ⟨⟨1, "rename", 1⟩, turmoil.drop 2⟩
    let failed : Registration := ⟨⟨3, "hover", 3⟩, turmoil.drop 8⟩
    (replaced ∈ registrations turmoil ∧ answered ∈ registrations turmoil ∧
      failed ∈ registrations turmoil) ∧
    (failed.standing = .failed .exited ∧ firstClosing? turmoil = some .exited) ∧
    (run "lua" turmoil).slot 0 = .spent ∧
    ({ language := "lua" } : Inflight).received 1 turmoil =
      [.error (.refused "lua" "rename" ⟨-32800, "cancelled"⟩)] ∧
    ({ language := "lua" } : Inflight).received 3 turmoil = [.error (.crashed "lua")] ∧
    (run "lua" turmoil).size = 0 ∧
    ∀ id method, (run "lua" turmoil).register id method = .error (.crashed "lua") := by
  intro replaced answered failed
  have hreplaced : replaced ∈ registrations turmoil := .head _
  have hanswered : answered ∈ registrations turmoil := .tail _ (.head _)
  have hfailed : failed ∈ registrations turmoil := .tail _ (.tail _ (.tail _ (.head _)))
  obtain ⟨-, -, -, hstands, -, hshut⟩ := registrations_are_accounted_for "lua" turmoil
  have hclosing : firstClosing? turmoil = some .exited := (hstands failed hfailed).2.2 _ rfl
  obtain ⟨hsize, hrefused⟩ := hshut _ hclosing
  exact ⟨⟨hreplaced, hanswered, hfailed⟩, ⟨rfl, hclosing⟩, (hstands replaced hreplaced).1,
    (hstands answered hanswered).2.1, (hstands failed hfailed).2.1, hsize, hrefused⟩

end LanguageClient.Inflight
