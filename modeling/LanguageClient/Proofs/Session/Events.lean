import LanguageClient.Session.Run
import Mathlib.Data.List.Induction
import Mathlib.Tactic.Common

namespace LanguageClient.Session

inductive Event where
  | begin (m : Moment) (w : Work)
  | resume (m : Moment) (i : Nat)
  | cancel (i : Nat)
  | change (path : Path) (text : String)
  | close (path : Path)
  /-- The reader of a connection takes what it can from the input. -/
  | read (c : Nat)
  | write (c : Nat) (accepted : Bool)
  | receive (c : Nat) (bs : Bytes)
  | endInput (c : Nat)
  | tidy

def new (language : String) (server : Setup.Server) (timeouts : Setup.Timeouts) (processId : Nat)
    (rootUri : String) : Session where
  language := language
  server := server
  timeouts := timeouts
  processId := processId
  rootUri := rootUri

/-- What an event does is one step: one stretch of an operation between two waits, the whole of an
operation that never waits, or what the server, the reader or the writer of a connection does. The
program lets go of its locks within some of these, as between taking calls from a table and telling
their callers, or between the loss of a connection and the end of its process, which is part of
`tidy`. Here nobody comes in between. -/
def step (s : Session) : Event → Session
  | .begin m w => s.begin m w
  | .resume m i => s.resume m i
  | .cancel i => s.cancel i
  | .change path text => (s.change path text).2
  | .close path => s.close path
  | .read c =>
    match s.readNext? c with
    | some (s, _) => s
    | none => s
  | .write c accepted =>
    match (s.connection? c).bind (·.link.writeNext? accepted) with
    | some (_, l) => s.setLink c l
    | none => s
  | .receive c bs => s.updateConnection c fun k => { k with link := k.link.receive bs }
  | .endInput c => s.updateConnection c fun k => { k with link := k.link.endInput }
  | .tidy => s.tidy

def run (s : Session) (es : List Event) : Session :=
  es.foldl step s

theorem run_append_one (s : Session) (es : List Event) (e : Event) :
    s.run (es ++ [e]) = (s.run es).step e := by
  simp [run]

section Links

variable {s : Session} {c : Nat}

theorem step_read_of_readNext? {k : Connection} {l : Link} {p : Option Publication}
    (hk : s.connection? c = some k) (hread : k.link.readNext? = some (l, p)) :
    s.step (.read c) = (s.setLink c l).tidy := by
  simp [step, readNext?, hk, hread]

/-- The reader of a connection takes what is there, or finds nothing to take. -/
theorem step_read_cases (s : Session) (c : Nat) :
    (s.step (.read c) = s ∧ ∀ k, s.connection? c = some k → k.link.readNext? = none) ∨
      ∃ k l p, s.connection? c = some k ∧ k.link.readNext? = some (l, p) ∧
        s.step (.read c) = (s.setLink c l).tidy := by
  cases hk : s.connection? c with
  | none => exact .inl ⟨by simp [step, readNext?, hk], by rintro _ ⟨⟩⟩
  | some k =>
    cases hread : k.link.readNext? with
    | none =>
      refine .inl ⟨by simp [step, readNext?, hk, hread], ?_⟩
      rintro _ ⟨⟩
      exact hread
    | some lp =>
      obtain ⟨l, p⟩ := lp
      exact .inr ⟨k, l, p, rfl, hread, step_read_of_readNext? hk hread⟩

/-- The writer of a connection writes what it has, or has nothing to write. -/
theorem step_write_cases (s : Session) (c : Nat) (accepted : Bool) :
    (s.step (.write c accepted) = s ∧
        ∀ k, s.connection? c = some k → k.link.writeNext? accepted = none) ∨
      ∃ k what l, s.connection? c = some k ∧ k.link.writeNext? accepted = some (what, l) ∧
        s.step (.write c accepted) = s.setLink c l := by
  cases hk : s.connection? c with
  | none => exact .inl ⟨by simp [step, hk], by rintro _ ⟨⟩⟩
  | some k =>
    cases hwrite : k.link.writeNext? accepted with
    | none =>
      refine .inl ⟨by simp [step, hk, hwrite], ?_⟩
      rintro _ ⟨⟩
      exact hwrite
    | some wl =>
      obtain ⟨what, l⟩ := wl
      exact .inr ⟨k, what, l, rfl, hwrite, by simp [step, hk, hwrite]⟩

end Links

section Fields

variable (s : Session) (c i j : Nat)

theorem connection?_updateConnection (f : Connection → Connection) :
    (s.updateConnection c f).connection? j =
      if j = c then (s.connection? c).map f else s.connection? j := by
  simp only [connection?, updateConnection, List.getElem?_modify]
  by_cases h : j = c
  · subst h
    cases s.connections[j]? <;> simp
  · cases s.connections[j]? <;> simp [h, Ne.symm h]

theorem connection?_tidy :
    s.tidy.connection? c =
      (s.connection? c).map fun k => if s.isHeld c then k.reap else k.release := by
  simp only [connection?, tidy, List.getElem?_map, List.getElem?_zipIdx]
  cases s.connections[c]? <;> simp

theorem stage?_setStage (stage : Stage) :
    (s.setStage i stage).stage? j =
      if j = i then (s.stage? i).map fun _ => stage else s.stage? j := by
  simp only [stage?, setStage, List.getElem?_modify]
  by_cases h : j = i
  · subst h
    cases s.tasks[j]? <;> simp
  · cases s.tasks[j]? <;> simp [h, Ne.symm h]

@[simp] theorem work?_setStage (stage : Stage) : (s.setStage i stage).work? j = s.work? j := by
  simp only [work?, setStage, List.getElem?_modify]
  by_cases h : j = i
  · subst h
    cases s.tasks[j]? <;> simp
  · cases s.tasks[j]? <;> simp [Ne.symm h]

theorem tasks_notify (n : Notice) : (s.notify c n).2.tasks = s.tasks := by
  unfold notify
  split <;> rfl

theorem connection?_tell (documents : OpenDocuments) (n : Notice) :
    ((s.updateConnection c fun k => { k with documents }).notify c n).2.connection? j =
      if j = c then (s.connection? c).map fun k =>
        { k with documents, link := (k.link.notify n.method (some n.params)).2 }
      else s.connection? j := by
  have hupdated : (s.updateConnection c fun k => { k with documents }).connection? c =
      (s.connection? c).map fun k => { k with documents } := by
    rw [connection?_updateConnection, if_pos rfl]
  unfold notify
  rw [hupdated]
  cases hk : s.connection? c with
  | none =>
    show (s.updateConnection c _).connection? j = _
    rw [connection?_updateConnection, hk]
    rfl
  | some k =>
    show ((s.updateConnection c _).setLink c _).connection? j = _
    unfold setLink
    rw [connection?_updateConnection, hupdated, hk]
    split
    · rfl
    · rename_i hj
      rw [connection?_updateConnection, if_neg hj]

end Fields

end LanguageClient.Session
