import LanguageClient.Proofs.Inflight
import Mathlib.Data.List.TakeWhile

namespace LanguageClient

def Slot.ofReply? : Option Reply → Slot
  | some r => .filled r
  | none => .spent

namespace Inflight

/-- What is done to a table, and by the callers to their slots. -/
inductive Act where
  | register (id : UInt64) (method : String)
  | complete (id : UInt64) (outcome : Outcome)
  | remove (id : UInt64)
  | close (reason : Closing)
  | desert (ticket : Nat)
  | receive (ticket : Nat)

/-- A table that refuses a request stays as it is. -/
def act (t : Inflight) : Act → Inflight
  | .register id method =>
    match t.register id method with
    | .ok (_, entered) => entered
    | .error _ => t
  | .complete id outcome => (t.complete id outcome).2
  | .remove id => (t.remove id).2
  | .close reason => (t.close reason).2
  | .desert ticket => t.desert ticket
  | .receive ticket => (t.take? ticket).2

def run (language : String) (acts : List Act) : Inflight :=
  acts.foldl act { language }

/-- What a caller takes out of its slot with one act. -/
def heard? (t : Inflight) (ticket : Nat) : Act → Option Reply
  | .receive k => if k = ticket then (t.take? k).1 else none
  | _ => none

def received (t : Inflight) (ticket : Nat) : List Act → List Reply
  | [] => []
  | a :: acts => (t.heard? ticket a).toList ++ (t.act a).received ticket acts

/-- How a request stands that a table has taken. -/
inductive Standing where
  | waiting
  /-- Another took its place, or it was taken out. -/
  | dropped
  | answered (outcome : Outcome)
  | failed (reason : Closing)

def Standing.isWaiting : Standing → Bool
  | waiting => true
  | dropped | answered _ | failed _ => false

/-- What the caller of a request is to hear of its end. -/
def Standing.reply? (language method : String) : Standing → Option Reply
  | waiting | dropped => none
  | answered (.ok v) => some (.ok v)
  | answered (.error r) => some (.error (.refused language method r))
  | failed reason => some (.error (reason.failure language))

namespace Act

/-- The end to which an act brings a request that waits under `id`. -/
def settles? (id : UInt64) : Act → Option Standing
  | register i _ | remove i => if i = id then some .dropped else none
  | complete i outcome => if i = id then some (.answered outcome) else none
  | close reason => some (.failed reason)
  | desert _ | receive _ => none

def closing? : Act → Option Closing
  | close reason => some reason
  | register _ _ | complete _ _ | remove _ | desert _ | receive _ => none

def deserts (ticket : Nat) : Act → Bool
  | desert k => k == ticket
  | register _ _ | complete _ _ | remove _ | close _ | receive _ => false

def receives (ticket : Nat) : Act → Bool
  | receive k => k == ticket
  | register _ _ | complete _ _ | remove _ | close _ | desert _ => false

end Act

def firstClosing? (acts : List Act) : Option Closing :=
  acts.findSome? Act.closing?

/-- A request that a table has taken, and all that was done after that. -/
structure Registration extends Owed where
  since : List Act

namespace Registration

/-- The first act that ends a request decides how it stands. -/
def standing (g : Registration) : Standing :=
  (g.since.findSome? (·.settles? g.id)).getD .waiting

def waits (g : Registration) : Bool :=
  g.standing.isWaiting

/-- What was done while the request waited. -/
def waited (g : Registration) : List Act :=
  g.since.takeWhile fun a => (a.settles? g.id).isNone

def ended (g : Registration) : List Act :=
  g.since.dropWhile fun a => (a.settles? g.id).isNone

def reply? (language : String) (g : Registration) : Option Reply :=
  g.standing.reply? language g.method

/-- The caller has given its slot up. -/
def isDeserted (g : Registration) : Bool :=
  g.since.any (·.deserts g.ticket)

/-- The caller has looked into its slot since the request ended. -/
def isLookedFor (g : Registration) : Bool :=
  g.ended.any (·.receives g.ticket)

/-- The caller had not given its slot up when it first looked after the end of the request. -/
def isHeard (g : Registration) : Bool :=
  g.isLookedFor &&
    !(g.waited ++ g.ended.takeWhile (!·.receives g.ticket)).any (·.deserts g.ticket)

def slot (language : String) (g : Registration) : Slot :=
  if g.isDeserted then .deserted
  else if g.waits then .empty
  else if g.isLookedFor then .spent
  else .ofReply? (g.reply? language)

def extend (g : Registration) (a : Act) : Registration :=
  { g with since := g.since ++ [a] }

end Registration

/-- The requests that are taken from an open table whose next ticket is `ticket`. -/
def registrationsFrom (ticket : Nat) : List Act → List Registration
  | [] | .close _ :: _ => []
  | .register id method :: since =>
    ⟨⟨id, method, ticket⟩, since⟩ :: registrationsFrom (ticket + 1) since
  | _ :: since => registrationsFrom ticket since

/-- The requests that a table takes, in their order. It takes all until it is closed. -/
def registrations (acts : List Act) : List Registration :=
  registrationsFrom 0 acts

namespace Act

variable (id : UInt64) (ticket : Nat) (a : Act)

theorem settles?_ne_waiting : a.settles? id ≠ some .waiting := by
  cases a <;> simp [settles?]

variable {id a} in
theorem not_touches_of_settles? {s : Standing} (h : a.settles? id = some s) :
    (a.deserts ticket || a.receives ticket) = false := by
  cases a with
  | desert | receive => cases h
  | register | complete | remove | close => rfl

variable {id a} in
theorem closing?_of_settles?_eq_none (h : a.settles? id = none) : a.closing? = none := by
  cases a with
  | close => cases h
  | register | complete | remove | desert | receive => rfl

variable {id a} in
theorem closing?_of_settles?_eq_failed {reason : Closing}
    (h : a.settles? id = some (.failed reason)) : a.closing? = some reason := by
  cases a with
  | close => cases h; rfl
  | register | complete | remove => simp [settles?] at h
  | desert | receive => cases h

@[simp] theorem isNone_ite_id (i : UInt64) (s : Standing) :
    (if i = id then some s else none).isNone = (id != i) := by
  rcases eq_or_ne i id with rfl | h
  · simp
  · simp [h, h.symm]

end Act

section Registering

variable (ticket : Nat) (acts : List Act) (a : Act)

theorem firstClosing?_append_one :
    firstClosing? (acts ++ [a]) = (firstClosing? acts).or a.closing? := by
  simp [firstClosing?, List.findSome?_append]

theorem registrationsFrom_append_one : registrationsFrom ticket (acts ++ [a]) =
    (registrationsFrom ticket acts).map (·.extend a) ++
      match firstClosing? acts with
      | some _ => []
      | none => registrationsFrom (ticket + (registrationsFrom ticket acts).length) [a] := by
  induction acts generalizing ticket with
  | nil => simp [registrationsFrom, firstClosing?]
  | cons b acts ih =>
    cases b with
    | close reason => rfl
    | register id method =>
      have hticket : ticket + 1 + (registrationsFrom (ticket + 1) acts).length =
          ticket + ((registrationsFrom (ticket + 1) acts).length + 1) := by omega
      have hclosing : firstClosing? (.register id method :: acts) = firstClosing? acts := rfl
      rw [List.cons_append, registrationsFrom, ih, hticket, hclosing]
      rfl
    | complete | remove | desert | receive => exact ih ticket

theorem tickets_registrationsFrom : (registrationsFrom ticket acts).map (·.ticket) =
    List.range' ticket (registrationsFrom ticket acts).length := by
  induction acts generalizing ticket with
  | nil => rfl
  | cons b acts ih =>
    cases b with
    | close => rfl
    | register =>
      simp only [registrationsFrom, List.map_cons, List.length_cons, List.range'_succ, ih]
    | complete | remove | desert | receive => exact ih ticket

variable {ticket acts a} {g g' : Registration}

theorem mem_registrationsFrom_singleton (hg : g ∈ registrationsFrom ticket [a]) :
    ∃ id method, a = .register id method ∧ g = ⟨⟨id, method, ticket⟩, []⟩ := by
  cases a with
  | register id method => exact ⟨id, method, rfl, List.mem_singleton.mp hg⟩
  | complete | remove | close | desert | receive => cases hg

theorem mem_registrationsFrom_iff : g ∈ registrationsFrom ticket acts ↔
    ∃ before, acts = before ++ .register g.id g.method :: g.since ∧ firstClosing? before = none ∧
      g.ticket = ticket + (registrationsFrom ticket before).length := by
  constructor
  · intro hg
    induction acts generalizing ticket with
    | nil => cases hg
    | cons a acts ih =>
      cases a with
      | close => cases hg
      | register id method =>
        obtain rfl | hg := List.mem_cons.mp hg
        · exact ⟨[], rfl, rfl, rfl⟩
        · obtain ⟨before, hsplit, hnone, hticket⟩ := ih hg
          refine ⟨.register id method :: before, congrArg _ hsplit, hnone, ?_⟩
          rw [registrationsFrom, List.length_cons, hticket]
          omega
      | complete | remove | desert | receive =>
        obtain ⟨before, hsplit, hnone, hticket⟩ := ih hg
        exact ⟨_ :: before, congrArg _ hsplit, hnone, hticket⟩
  · rintro ⟨before, rfl, hnone, hticket⟩
    -- no closing lies before the request, and each request before it takes one ticket
    induction before generalizing ticket with
    | nil =>
      obtain rfl : g.ticket = ticket := hticket
      exact List.mem_cons_self
    | cons a before ih =>
      cases a with
      | close => cases hnone
      | register id method =>
        rw [registrationsFrom, List.length_cons] at hticket
        exact List.mem_cons_of_mem _ (ih hnone (by omega))
      | complete | remove | desert | receive => exact ih hnone hticket

/-- The first closing comes after each of the requests that are taken. -/
theorem firstClosing?_since (hg : g ∈ registrations acts) :
    firstClosing? g.since = firstClosing? acts := by
  obtain ⟨before, rfl, hnone, -⟩ := mem_registrationsFrom_iff.mp hg
  rw [firstClosing?] at hnone
  rw [firstClosing?, firstClosing?, List.findSome?_append, hnone, Option.none_or]
  rfl

theorem closing_of_failed {reason : Closing} (hg : g ∈ registrations acts)
    (h : g.standing = .failed reason) : firstClosing? acts = some reason := by
  rw [← firstClosing?_since hg]
  unfold Registration.standing at h
  cases hs : g.since.findSome? (·.settles? g.id) with
  | none =>
    rw [hs] at h
    cases h
  | some s =>
    obtain rfl : s = .failed reason := by rwa [hs] at h
    obtain ⟨quiet, a, rest, hsince, ha, hquiet⟩ := List.findSome?_eq_some_iff.mp hs
    -- a closing ends every request, so there is none in front of the act that ended this one
    have hnone : quiet.findSome? Act.closing? = none :=
      List.findSome?_eq_none_iff.mpr fun b hb => Act.closing?_of_settles?_eq_none (hquiet b hb)
    rw [firstClosing?, hsince, List.findSome?_append, hnone, Option.none_or, List.findSome?_cons,
      Act.closing?_of_settles?_eq_failed ha]

theorem ticket_lt (hg : g ∈ registrations acts) : g.ticket < (registrations acts).length := by
  have hmem : g.ticket ∈ (registrations acts).map (·.ticket) := List.mem_map_of_mem hg
  rw [registrations, tickets_registrationsFrom, List.mem_range'_1, Nat.zero_add] at hmem
  exact hmem.2

theorem eq_of_ticket_eq (hg : g ∈ registrations acts) (hg' : g' ∈ registrations acts)
    (h : g.ticket = g'.ticket) : g = g' := by
  refine List.inj_on_of_nodup_map (f := fun g : Registration => g.ticket) ?_ hg hg' h
  rw [registrations, tickets_registrationsFrom]
  exact List.nodup_range'

end Registering

namespace Registration

variable {g : Registration} {a : Act}

@[simp] theorem toOwed_extend : (g.extend a).toOwed = g.toOwed := rfl

theorem waits_iff : g.waits = true ↔ ∀ a ∈ g.since, a.settles? g.id = none := by
  rw [← List.findSome?_eq_none_iff, waits, standing]
  cases h : g.since.findSome? (·.settles? g.id) with
  | none => simp [Standing.isWaiting]
  | some s =>
    obtain ⟨a, -, ha⟩ := List.exists_of_findSome?_eq_some h
    cases s with
    | waiting => exact absurd ha (a.settles?_ne_waiting g.id)
    | dropped | answered | failed => simp [Standing.isWaiting]

theorem waits_extend : (g.extend a).waits = (g.waits && (a.settles? g.id).isNone) := by
  rw [Bool.eq_iff_iff, Bool.and_eq_true, waits_iff, waits_iff, Option.isNone_iff_eq_none]
  simp only [extend, List.mem_append, List.mem_singleton, or_imp, forall_and, forall_eq]

/-- A request that has ended stays as it ended. -/
theorem standing_extend_of_ended (h : g.waits = false) : (g.extend a).standing = g.standing := by
  unfold waits standing at h
  simp only [standing, extend, List.findSome?_append]
  cases hs : g.since.findSome? (·.settles? g.id) with
  | none => simp [hs, Standing.isWaiting] at h
  | some s => rfl

theorem standing_extend_of_settles {s : Standing} (h : g.waits = true)
    (hs : a.settles? g.id = some s) : (g.extend a).standing = s := by
  have hnone : g.since.findSome? (·.settles? g.id) = none :=
    List.findSome?_eq_none_iff.mpr (waits_iff.mp h)
  simp [standing, extend, List.findSome?_append, hnone, hs]

theorem ended_eq_nil_iff : g.ended = [] ↔ g.waits = true := by
  simp only [ended, List.dropWhile_eq_nil_iff, waits_iff, Option.isNone_iff_eq_none]

theorem waited_append_ended : g.waited ++ g.ended = g.since :=
  List.takeWhile_append_dropWhile

theorem ended_extend_of_ended (h : g.waits = false) :
    (g.extend a).ended = g.ended ++ [a] := by
  have hne : g.ended.isEmpty = false := by
    rw [List.isEmpty_eq_false_iff, Ne, ended_eq_nil_iff, h]
    exact Bool.false_ne_true
  rw [ended] at hne
  simp only [ended, extend, List.dropWhile_append, hne, Bool.false_eq_true, if_false]

theorem waited_extend_of_ended (h : g.waits = false) : (g.extend a).waited = g.waited := by
  have hall : (g.extend a).waited ++ (g.extend a).ended = g.waited ++ (g.ended ++ [a]) := by
    rw [waited_append_ended, ← List.append_assoc, waited_append_ended, extend]
  rw [ended_extend_of_ended h] at hall
  exact List.append_cancel_right hall

theorem ended_extend_of_settles {s : Standing} (h : g.waits = true)
    (hs : a.settles? g.id = some s) : (g.extend a).ended = [a] := by
  have hnil : (g.since.dropWhile fun a => (a.settles? g.id).isNone).isEmpty = true :=
    List.isEmpty_iff.mpr (ended_eq_nil_iff.mpr h)
  simp only [ended, extend, List.dropWhile_append, hnil, if_true]
  simp [hs]

theorem isDeserted_extend : (g.extend a).isDeserted = (g.isDeserted || a.deserts g.ticket) := by
  simp [isDeserted, extend]

theorem isLookedFor_of_waits (h : g.waits = true) : g.isLookedFor = false := by
  rw [isLookedFor, ended_eq_nil_iff.mpr h, List.any_nil]

theorem isLookedFor_extend :
    (g.extend a).isLookedFor = (g.isLookedFor || (!g.waits && a.receives g.ticket)) := by
  cases hw : g.waits with
  | false => simp [isLookedFor, ended_extend_of_ended hw]
  | true =>
    cases hs : a.settles? g.id with
    | none =>
      have hw' : (g.extend a).waits = true := by simp [waits_extend, hw, hs]
      simp [isLookedFor_of_waits, hw, hw']
    | some s =>
      obtain ⟨-, hreceives⟩ := Bool.or_eq_false_iff.mp (Act.not_touches_of_settles? g.ticket hs)
      rw [isLookedFor_of_waits hw]
      simp [isLookedFor, ended_extend_of_settles hw hs, hreceives]

section Slots

variable {language : String}

theorem slot_of_waits (h : g.waits = true) :
    g.slot language = if g.isDeserted then .deserted else .empty := by
  simp [slot, h]

theorem slot_eq_empty_iff :
    g.slot language = .empty ↔ g.isDeserted = false ∧ g.waits = true := by
  unfold slot
  cases g.isDeserted <;> cases g.waits <;> cases g.isLookedFor <;> cases g.reply? language <;>
    simp [Slot.ofReply?]

theorem slot_eq_filled_iff {r : Reply} : g.slot language = .filled r ↔
    g.isDeserted = false ∧ g.waits = false ∧ g.isLookedFor = false ∧
      g.reply? language = some r := by
  unfold slot
  cases g.isDeserted <;> cases g.waits <;> cases g.isLookedFor <;> cases g.reply? language <;>
    simp [Slot.ofReply?]

theorem slot_extend_of_quiet (htouches : (a.deserts g.ticket || a.receives g.ticket) = false)
    (h : g.waits = true → a.settles? g.id = none) :
    (g.extend a).slot language = g.slot language := by
  obtain ⟨hdeserts, hreceives⟩ := Bool.or_eq_false_iff.mp htouches
  have hdeserted : (g.extend a).isDeserted = g.isDeserted := by
    rw [isDeserted_extend, hdeserts, Bool.or_false]
  cases hw : g.waits with
  | true =>
    have hw' : (g.extend a).waits = true := by simp [waits_extend, hw, h hw]
    rw [slot_of_waits hw, slot_of_waits hw', hdeserted]
  | false =>
    have hw' : (g.extend a).waits = false := by simp [waits_extend, hw]
    have hlooked : (g.extend a).isLookedFor = g.isLookedFor := by
      rw [isLookedFor_extend, hreceives, Bool.and_false, Bool.or_false]
    simp only [slot, hdeserted, hw, hw', hlooked, reply?, standing_extend_of_ended hw]
    rfl

theorem slot_extend_of_settles {s : Standing} (h : g.waits = true)
    (hs : a.settles? g.id = some s) : (g.extend a).slot language =
      if g.slot language = .empty then .ofReply? (s.reply? language g.method)
      else g.slot language := by
  obtain ⟨hdeserts, hreceives⟩ :=
    Bool.or_eq_false_iff.mp (Act.not_touches_of_settles? g.ticket hs)
  have hdeserted : (g.extend a).isDeserted = g.isDeserted := by
    rw [isDeserted_extend, hdeserts, Bool.or_false]
  have hw : (g.extend a).waits = false := by simp [waits_extend, hs]
  rw [slot_of_waits h]
  have hlooked : (g.extend a).isLookedFor = false := by
    rw [isLookedFor_extend, isLookedFor_of_waits h, hreceives, Bool.and_false, Bool.or_false]
  simp only [slot, hdeserted, hw, hlooked, reply?, standing_extend_of_settles h hs]
  cases g.isDeserted <;> rfl

theorem slot_extend_desert : (g.extend (.desert g.ticket)).slot language = .deserted := by
  simp [slot, isDeserted_extend, Act.deserts]

theorem slot_extend_receive : (g.extend (.receive g.ticket)).slot language =
    match g.slot language with
    | .filled _ => .spent
    | s => s := by
  simp only [slot, isDeserted_extend, waits_extend, isLookedFor_extend, Act.deserts, Act.settles?,
    Act.receives]
  cases g.isDeserted <;> cases g.waits <;> cases g.isLookedFor <;> cases g.reply? language <;>
    simp [Slot.ofReply?]

end Slots

theorem isHeard_extend : (g.extend a).isHeard = (g.isHeard ||
    (a.receives g.ticket && !g.isDeserted && !g.waits && !g.isLookedFor)) := by
  cases hw : g.waits with
  | true => simp [isHeard, isLookedFor_extend, isLookedFor_of_waits hw, hw]
  | false =>
    simp only [isHeard, isLookedFor_extend, hw, waited_extend_of_ended hw,
      ended_extend_of_ended hw, toOwed_extend]
    cases hlooked : g.isLookedFor with
    | true =>
      have hfirst : (g.ended ++ [a]).takeWhile (!·.receives g.ticket) =
          g.ended.takeWhile (!·.receives g.ticket) := by
        rw [List.takeWhile_append, if_neg]
        intro hlength
        have hall := (List.takeWhile_prefix _).eq_of_length hlength
        obtain ⟨b, hb, hreceives⟩ := List.any_eq_true.mp hlooked
        simpa [hreceives] using List.takeWhile_eq_self_iff.mp hall b hb
      simp [hfirst]
    | false =>
      have hnone : ∀ b ∈ g.ended, (!b.receives g.ticket) = true := by
        simpa [isLookedFor] using hlooked
      rw [List.takeWhile_append_of_pos hnone, ← List.append_assoc, waited_append_ended]
      cases hreceives : a.receives g.ticket <;> simp [hreceives, isDeserted]

end Registration

end Inflight
end LanguageClient
