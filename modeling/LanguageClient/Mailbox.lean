namespace LanguageClient

/-- A queue of bounded length between a sender that never waits and a receiver. -/
structure Mailbox (α : Type) where
  capacity : Nat
  waiting : List α := []
  isOpen : Bool := true

namespace Mailbox

variable {α : Type}

/-- What finds no room, or no receiver, is dropped. -/
def post (m : Mailbox α) (a : α) : Mailbox α :=
  if m.isOpen && m.waiting.length < m.capacity then { m with waiting := m.waiting ++ [a] } else m

/-- Takes out up to `n` of what waits, oldest first. -/
def take (m : Mailbox α) (n : Nat) : List α × Mailbox α :=
  (m.waiting.take n, { m with waiting := m.waiting.drop n })

/-- The receiver goes, and what waits for it with it. -/
def shut (m : Mailbox α) : Mailbox α :=
  { m with waiting := [], isOpen := false }

end Mailbox
end LanguageClient
