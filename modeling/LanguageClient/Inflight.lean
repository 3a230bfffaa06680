import LanguageClient.Failure

namespace LanguageClient

abbrev Reply := Except Failure Json

inductive Slot where
  /-- Nothing has come, and something may. -/
  | empty
  | filled (reply : Reply)
  /-- Nothing will come any more. -/
  | spent
  /-- The caller has gone. -/
  | deserted

def Slot.isEmpty : Slot → Bool
  | empty => true
  | _ => false

/-- A request that the other side owes an answer; `ticket` numbers the caller's slot. -/
structure Owed where
  id : UInt64
  method : String
  ticket : Nat
  deriving DecidableEq, Repr

/-- The requests of one connection that wait for their answers. Slots stand in the order of their
tickets. -/
structure Inflight where
  language : String
  owed : List Owed := []
  closed : Option Closing := none
  slots : List Slot := []

namespace Inflight

def slot (t : Inflight) (ticket : Nat) : Slot :=
  t.slots[ticket]?.getD .spent

def setSlot (t : Inflight) (ticket : Nat) (s : Slot) : Inflight :=
  { t with slots := t.slots.set ticket s }

/-- Fills a slot unless its caller has gone. -/
def fill (t : Inflight) (ticket : Nat) (r : Reply) : Inflight :=
  if (t.slot ticket).isEmpty then t.setSlot ticket (.filled r) else t

/-- Empties a slot for good unless it has been filled or left. -/
def spend (t : Inflight) (ticket : Nat) : Inflight :=
  if (t.slot ticket).isEmpty then t.setSlot ticket .spent else t

def find? (t : Inflight) (id : UInt64) : Option Owed :=
  t.owed.find? (·.id == id)

def size (t : Inflight) : Nat :=
  t.owed.length

def remove (t : Inflight) (id : UInt64) : Bool × Inflight :=
  match t.find? id with
  | none => (false, t)
  | some o => (true, { t.spend o.ticket with owed := t.owed.filter (·.id != id) })

/-- Enters a request in place of any other of the same id. A closed table takes none. -/
def register (t : Inflight) (id : UInt64) (method : String) : Except Failure (Nat × Inflight) :=
  match t.closed with
  | some c => .error (c.failure t.language)
  | none =>
    let ticket := t.slots.length
    let t := (t.remove id).2
    .ok (ticket, { t with
      owed := t.owed ++ [⟨id, method, ticket⟩]
      slots := t.slots ++ [.empty] })

def replyOf (t : Inflight) (o : Owed) : Outcome → Reply
  | .ok v => .ok v
  | .error r => .error (.refused t.language o.method r)

/-- Hands an answer to the caller, and says whether there was one. -/
def complete (t : Inflight) (id : UInt64) (outcome : Outcome) : Bool × Inflight :=
  match t.find? id with
  | none => (false, t)
  | some o =>
    let rest := { t with owed := t.owed.filter (·.id != id) }
    ((t.slot o.ticket).isEmpty, rest.fill o.ticket (t.replyOf o outcome))

/-- Fails whatever is still owed and takes nothing more. The first reason stays. The number says
how many entries there were. -/
def close (t : Inflight) (reason : Closing) : Nat × Inflight :=
  let reason := t.closed.getD reason
  let failed := t.owed.foldl (fun t o => t.fill o.ticket (.error (reason.failure t.language))) t
  (t.owed.length, { failed with owed := [], closed := some reason })

def desert (t : Inflight) (ticket : Nat) : Inflight :=
  t.setSlot ticket .deserted

def take? (t : Inflight) (ticket : Nat) : Option Reply × Inflight :=
  match t.slot ticket with
  | .filled r => (some r, t.setSlot ticket .spent)
  | _ => (none, t)

end Inflight
end LanguageClient
