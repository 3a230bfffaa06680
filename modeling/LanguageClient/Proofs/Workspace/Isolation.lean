import LanguageClient.Proofs.Session.Events
import LanguageClient.Proofs.Setup.Routes
import LanguageClient.Workspace

namespace LanguageClient

theorem Setup.server?_of_languageForPath? {c : Setup} {p : Path} {language : String}
    (h : c.languageForPath? p = some language) : ∃ server, c.server? language = some server := by
  obtain ⟨extension, -, text, -, hroute⟩ := by
    simpa [languageForPath?, Option.bind_eq_some_iff] using h
  rw [get?_routes] at hroute
  obtain ⟨⟨l, server⟩, hfind, rfl⟩ := Option.map_eq_some_iff.mp hroute
  exact Option.isSome_iff_exists.mp (Table.get?_isSome_of_mem (List.mem_of_find?_eq_some hfind))

namespace Workspace

/-- An operation of a caller: on a path, or what one language does when all are shut down. -/
inductive Operation where
  | about (path : Path) (begun : Begun)
  | ending (language : String) (i : Nat)

/-- The session in which an operation runs, and its number there. -/
def Operation.place? : Operation → Option (String × Nat)
  | .about _ (.answered _) => none
  | .about _ (.running language i) => some (language, i)
  | .ending language i => some (language, i)

def Operation.language? (w : Workspace) : Operation → Option String
  | .about path _ => w.languageForPath? path
  | .ending language _ => some language

def Operation.result? (w : Workspace) : Operation → Option (Except Failure Answer)
  | .about _ (.answered a) => some (.ok a)
  | .about _ (.running language i) => w.result? language i
  | .ending language i => w.result? language i

/-- Lets something happen in the session of a language, if there is one. -/
def within (w : Workspace) (language : String) (e : Session.Event) : Workspace :=
  match w.session? language with
  | some s => w.setSession language (s.step e)
  | none => w

structure InUse where
  workspace : Workspace
  operations : List Operation := []

/-- What can happen to a workspace. Operations are numbered in the order in which they began. -/
inductive Event where
  | begin (m : String → Session.Moment) (path : Path) (r : Request)
  | resume (m : Session.Moment) (n : Nat)
  | cancel (n : Nat)
  | change (path : Path) (text : String)
  | close (path : Path)
  | shutdown (m : String → Session.Moment) (restartable : Bool)
  /-- Any step of one session, such as what its server, its writer and its reader do. -/
  | within (language : String) (e : Session.Event)

namespace InUse

def new (setup : Setup) (root : Path) (rootUri : String) (processId : Nat) : InUse where
  workspace := { setup, root, rootUri, processId }

def place? (u : InUse) (n : Nat) : Option (String × Nat) :=
  (u.operations[n]?).bind (·.place?)

def step (u : InUse) : Event → InUse
  | .begin m path r =>
    let (begun, workspace) := u.workspace.begin m path r
    { workspace, operations := u.operations ++ [.about path begun] }
  | .resume m n =>
    match u.place? n with
    | some (language, i) => { u with workspace := u.workspace.resume m language i }
    | none => u
  | .cancel n =>
    match u.place? n with
    | some (language, i) => { u with workspace := u.workspace.cancel language i }
    | none => u
  | .change path text => { u with workspace := (u.workspace.change path text).2 }
  | .close path => { u with workspace := u.workspace.close path }
  | .shutdown m restartable =>
    let (parts, workspace) := u.workspace.shutdown m restartable
    { workspace, operations := u.operations ++ parts.map fun (language, i) => .ending language i }
  | .within language e => { u with workspace := u.workspace.within language e }

def run (u : InUse) (es : List Event) : InUse :=
  es.foldl step u

end InUse

/-- Whether an event concerns a language: it is about a path of that language, or a step of an
operation on one, or it happens in its session. -/
def Event.Concerns (u : InUse) (language : String) : Event → Prop
  | .begin _ path _ | .change path _ | .close path =>
    u.workspace.languageForPath? path = some language
  | .resume _ n | .cancel n =>
    ∃ o, u.operations[n]? = some o ∧ o.language? u.workspace = some language
  | .shutdown _ _ => True
  | .within l _ => l = language

section Sessions

variable {w : Workspace} {language l : String}

@[simp] theorem session?_setSession (s : Session) :
    (w.setSession l s).session? language =
      if l = language then some s else w.session? language := by
  simp [session?, setSession]

theorem session?_shutdown (m : String → Session.Moment) (restartable : Bool) :
    (w.shutdown m restartable).2.session? language =
      (w.session? language).map fun s => s.begin (m language) (.shutdown restartable) :=
  Table.get?_map (fun l (s : Session) => s.begin (m l) (.shutdown restartable)) language w.sessions

theorem route?_of_none {path : Path} (h : w.languageForPath? path = none) :
    w.route? path = none := by
  rw [route?, h]
  rfl

theorem route?_of_some {path : Path} (h : w.languageForPath? path = some language) :
    ∃ server, w.setup.server? language = some server ∧
      w.route? path =
        some (language, (w.session? language).getD (w.freshSession language server)) := by
  obtain ⟨server, hserver⟩ := Setup.server?_of_languageForPath? h
  refine ⟨server, hserver, ?_⟩
  rw [route?, h]
  simp [hserver]

theorem begin_of_none {path : Path} (h : w.languageForPath? path = none)
    (m : String → Session.Moment) (r : Request) : w.begin m path r = (.answered r.empty, w) := by
  rw [begin, route?_of_none h]

theorem begin_of_some {path : Path} (h : w.languageForPath? path = some language)
    (m : String → Session.Moment) (r : Request) :
    ∃ server s, w.setup.server? language = some server ∧
      s = (w.session? language).getD (w.freshSession language server) ∧
      w.begin m path r = (.running language s.tasks.length,
        w.setSession language (s.begin (m language) (r.work (w.resolve path)))) := by
  obtain ⟨server, hserver, hroute⟩ := route?_of_some h
  refine ⟨server, _, hserver, rfl, ?_⟩
  rw [begin, hroute]

theorem change_of_none {path : Path} (h : w.languageForPath? path = none) (text : String) :
    w.change path text = (.ok (), w) := by
  rw [change, h]

theorem close_of_none {path : Path} (h : w.languageForPath? path = none) : w.close path = w := by
  rw [close, h]
  rfl

/-- The session that works for a language now: the one there is, or one that has done nothing yet. -/
def Current (w : Workspace) (language : String) (s : Session) : Prop :=
  w.session? language = some s ∨
    w.session? language = none ∧
      ∃ server, w.setup.server? language = some server ∧ s = w.freshSession language server

/-- One step of the session of this language leads from one workspace to the other, or none. -/
def StepOf (language : String) (w w' : Workspace) : Prop :=
  w' = w ∨ ∃ s e, w.Current language s ∧ w' = w.setSession language (s.step e)

theorem stepOf_within (w : Workspace) (language : String) (e : Session.Event) :
    StepOf language w (w.within language e) := by
  unfold within
  cases hs : w.session? language with
  | none => exact .inl rfl
  | some s => exact .inr ⟨s, e, .inl hs, rfl⟩

theorem resume_eq (w : Workspace) (m : Session.Moment) (language : String) (i : Nat) :
    w.resume m language i = w.within language (.resume m i) := by
  unfold resume within
  cases w.session? language <;> rfl

theorem cancel_eq (w : Workspace) (language : String) (i : Nat) :
    w.cancel language i = w.within language (.cancel i) := by
  unfold cancel within
  cases w.session? language <;> rfl

theorem change_eq {path : Path} (h : w.languageForPath? path = some language) (text : String) :
    (w.change path text).2 = w.within language (.change (w.resolve path) text) := by
  unfold change within
  rw [h]
  dsimp only
  cases w.session? language <;> rfl

theorem close_eq {path : Path} (h : w.languageForPath? path = some language) :
    w.close path = w.within language (.close (w.resolve path)) := by
  unfold close within
  rw [h, Option.bind_some]
  cases w.session? language <;> rfl

theorem begin_eq {path : Path} (h : w.languageForPath? path = some language)
    (m : String → Session.Moment) (r : Request) :
    ∃ s, w.Current language s ∧ (w.begin m path r).2 =
      w.setSession language (s.step (.begin (m language) (r.work (w.resolve path)))) := by
  obtain ⟨server, s, hserver, hs, hbegin⟩ := begin_of_some h m r
  refine ⟨s, ?_, by rw [hbegin]; rfl⟩
  cases hl : w.session? language with
  | none => exact .inr ⟨hl, server, hserver, by rw [hs, hl]; rfl⟩
  | some s' => exact .inl (by rw [hl, hs, hl]; rfl)

end Sessions

/-- Where an operation runs is the language that its path has. -/
def Operation.Placed (w : Workspace) (o : Operation) : Prop :=
  o.place?.map (·.1) = o.language? w

namespace InUse

def Placed (u : InUse) : Prop :=
  ∀ o ∈ u.operations, o.Placed u.workspace

section Step

variable {u : InUse} {language : String} {e : Event}

def target? (u : InUse) : Event → Option String
  | .begin _ path _ | .change path _ | .close path => u.workspace.languageForPath? path
  | .resume _ n | .cancel n => (u.place? n).map (·.1)
  | .shutdown _ _ => none
  | .within l _ => some l

theorem workspace_step_of_target (h : u.target? e = some language) :
    StepOf language u.workspace (u.step e).workspace := by
  cases e with
  | begin m path r =>
    obtain ⟨s, hs, hbegin⟩ := begin_eq h m r
    exact .inr ⟨s, _, hs, hbegin⟩
  | resume m n =>
    obtain ⟨⟨l, i⟩, hplace, rfl⟩ := Option.map_eq_some_iff.mp h
    rw [step, hplace]
    dsimp only
    rw [resume_eq]
    exact stepOf_within u.workspace l (.resume m i)
  | cancel n =>
    obtain ⟨⟨l, i⟩, hplace, rfl⟩ := Option.map_eq_some_iff.mp h
    rw [step, hplace]
    dsimp only
    rw [cancel_eq]
    exact stepOf_within u.workspace l (.cancel i)
  | change path text =>
    rw [step, change_eq h]
    exact stepOf_within u.workspace language _
  | close path =>
    rw [step, close_eq h]
    exact stepOf_within u.workspace language _
  | shutdown => cases h
  | within l e =>
    obtain rfl := Option.some.inj h
    exact stepOf_within u.workspace l e

theorem workspace_step_of_no_target (h : u.target? e = none)
    (he : ∀ m restartable, e ≠ .shutdown m restartable) :
    (u.step e).workspace = u.workspace := by
  cases e with
  | begin m path r => rw [step, begin_of_none h]
  | resume m n | cancel n =>
    rw [step, Option.map_eq_none_iff.mp h]
  | change path text => rw [step, change_of_none h]
  | close path => rw [step, close_of_none h]
  | shutdown m restartable => exact absurd rfl (he m restartable)
  | within => cases h

theorem workspace_step (u : InUse) (e : Event) :
    ∃ sessions, (u.step e).workspace = { u.workspace with sessions } := by
  by_cases h : ∃ m restartable, e = .shutdown m restartable
  · obtain ⟨m, restartable, rfl⟩ := h
    exact ⟨_, rfl⟩
  push Not at h
  cases htarget : u.target? e with
  | none => exact ⟨_, workspace_step_of_no_target htarget h⟩
  | some l =>
    obtain heq | ⟨s, e', -, heq⟩ := workspace_step_of_target htarget
    · exact ⟨_, heq⟩
    · exact ⟨_, heq⟩

theorem workspace_run (u : InUse) (es : List Event) :
    ∃ sessions, (u.run es).workspace = { u.workspace with sessions } := by
  induction es generalizing u with
  | nil => exact ⟨_, rfl⟩
  | cons e es ih =>
    obtain ⟨sessions, hstep⟩ := u.workspace_step e
    obtain ⟨sessions', hrun⟩ := ih (u.step e)
    rw [hstep] at hrun
    exact ⟨sessions', hrun⟩

theorem languageForPath?_step (u : InUse) (e : Event) (path : Path) :
    (u.step e).workspace.languageForPath? path = u.workspace.languageForPath? path := by
  obtain ⟨sessions, h⟩ := u.workspace_step e
  rw [h]
  rfl

theorem operations_step (u : InUse) (e : Event) :
    ∃ os, (u.step e).operations = u.operations ++ os ∧ ∀ o ∈ os, o.Placed u.workspace := by
  cases e with
  | begin m path r =>
    refine ⟨[.about path (u.workspace.begin m path r).1], rfl, ?_⟩
    rintro o ho
    obtain rfl := List.mem_singleton.mp ho
    cases hroute : u.workspace.languageForPath? path with
    | none =>
      rw [begin_of_none hroute]
      exact hroute.symm
    | some l =>
      obtain ⟨-, s, -, -, hbegin⟩ := begin_of_some hroute m r
      rw [hbegin]
      exact hroute.symm
  | shutdown m restartable =>
    refine ⟨_, rfl, ?_⟩
    rintro o ho
    obtain ⟨⟨l, i⟩, -, rfl⟩ := List.mem_map.mp ho
    rfl
  | resume | cancel =>
    refine ⟨[], ?_, by simp⟩
    unfold step
    dsimp only
    split <;> simp
  | change | close | within => exact ⟨[], by simp [step], by simp⟩

theorem Placed.step (h : u.Placed) (e : Event) : (u.step e).Placed := by
  have hkeep {o : Operation} (ho : o.Placed u.workspace) : o.Placed (u.step e).workspace := by
    cases o with
    | about path begun => exact ho.trans (languageForPath?_step u e path).symm
    | ending l i => rfl
  obtain ⟨os, hos, hplaced⟩ := operations_step u e
  intro o ho
  rw [hos] at ho
  obtain ho | ho := List.mem_append.mp ho
  · exact hkeep (h o ho)
  · exact hkeep (hplaced o ho)

theorem Placed.run (h : u.Placed) (es : List Event) : (u.run es).Placed := by
  induction es generalizing u with
  | nil => exact h
  | cons e es ih => exact ih (h.step e)

theorem Placed.concerns (h : u.Placed) (he : u.target? e = some language) :
    e.Concerns u language := by
  have hoperation {n : Nat} (hn : (u.place? n).map (·.1) = some language) :
      ∃ o, u.operations[n]? = some o ∧ o.language? u.workspace = some language := by
    unfold place? at hn
    cases ho : u.operations[n]? with
    | none => simp [ho] at hn
    | some o =>
      rw [ho, Option.bind_some, h o (List.mem_of_getElem? ho)] at hn
      exact ⟨o, rfl, hn⟩
  cases e with
  | begin | change | close => exact he
  | resume | cancel => exact hoperation he
  | shutdown => cases he
  | within => exact Option.some.inj he

/-- An event that does not concern a language leaves its session as it is. -/
theorem Placed.session?_step (h : u.Placed) (he : ¬ e.Concerns u language) :
    (u.step e).workspace.session? language = u.workspace.session? language := by
  cases htarget : u.target? e with
  | none =>
    rw [workspace_step_of_no_target htarget]
    rintro m restartable rfl
    exact he trivial
  | some l =>
    have hne : l ≠ language := by
      rintro rfl
      exact he (h.concerns htarget)
    obtain heq | ⟨s, e', -, heq⟩ := workspace_step_of_target htarget
    · rw [heq]
    · rw [heq, session?_setSession, if_neg hne]

theorem Placed.step_answered (h : u.Placed) {path : Path} {n : Nat} {begun : Begun}
    (hroute : u.workspace.languageForPath? path = none)
    (hn : u.operations[n]? = some (.about path begun)) (m : Session.Moment) :
    u.step (.resume m n) = u ∧ u.step (.cancel n) = u := by
  have hplaced := h _ (List.mem_of_getElem? hn)
  have hplace : u.place? n = none := by
    rw [place?, hn, Option.bind_some]
    exact Option.map_eq_none_iff.mp (hplaced.trans hroute)
  constructor
  · rw [InUse.step, hplace]
  · rw [InUse.step, hplace]

end Step

section Run

variable (setup : Setup) (root : Path) (rootUri : String) (processId : Nat)

theorem placed_run (es : List Event) : ((new setup root rootUri processId).run es).Placed :=
  Placed.run (fun _ ho => absurd ho List.not_mem_nil) es

/-- Whatever happens to a workspace, each of its sessions has come about by steps of its own. -/
theorem session_is_run (es : List Event) {language : String} {s : Session}
    (h : ((new setup root rootUri processId).run es).workspace.session? language = some s) :
    ∃ server es', setup.server? language = some server ∧
      s = (Session.new language server setup.timeouts processId rootUri).run es' := by
  induction es using List.reverseRecOn generalizing language s with
  | nil => cases h
  | append_singleton es e ih =>
    obtain ⟨sessions, hfixed⟩ := (new setup root rootUri processId).workspace_run es
    have hrun : (new setup root rootUri processId).run (es ++ [e]) =
        ((new setup root rootUri processId).run es).step e := by simp [run]
    rw [hrun] at h
    generalize (new setup root rootUri processId).run es = u at h ih hfixed
    -- a session that makes a step has come about by steps, or makes its first one
    have hstepped {l : String} {s₀ : Session} (hs : u.workspace.Current l s₀) (e' : Session.Event) :
        ∃ server es', setup.server? l = some server ∧
          s₀.step e' = (Session.new l server setup.timeouts processId rootUri).run es' := by
      obtain hs | ⟨-, server, hserver, rfl⟩ := hs
      · obtain ⟨server, es', hserver, rfl⟩ := ih hs
        exact ⟨server, es' ++ [e'], hserver, (Session.run_append_one _ es' e').symm⟩
      · rw [hfixed] at hserver ⊢
        exact ⟨server, [e'], hserver, rfl⟩
    by_cases hshutdown : ∃ m restartable, e = .shutdown m restartable
    · obtain ⟨m, restartable, rfl⟩ := hshutdown
      have hbegun := (session?_shutdown m restartable).symm.trans h
      obtain ⟨s₀, hs₀, rfl⟩ := Option.map_eq_some_iff.mp hbegun
      exact hstepped (.inl hs₀) (.begin (m language) (.shutdown restartable))
    push Not at hshutdown
    cases htarget : u.target? e with
    | none =>
      rw [workspace_step_of_no_target htarget hshutdown] at h
      exact ih h
    | some l =>
      obtain heq | ⟨s₀, e', hs₀, heq⟩ := workspace_step_of_target htarget
      · rw [heq] at h
        exact ih h
      rw [heq, session?_setSession] at h
      split at h
      case isTrue hl =>
        subst hl
        obtain rfl := Option.some.inj h
        exact hstepped hs₀ e'
      case isFalse => exact ih h

/-- Whatever has happened to a workspace, an event leaves the sessions of all languages alone that
it does not concern; and an operation on a path for which no server is configured is at its end at
once, with nothing as its result, and leaves the whole workspace as it is. -/
theorem languages_are_isolated (es : List Event) :
    let u := (new setup root rootUri processId).run es
    (∀ language e, ¬ e.Concerns u language →
      (u.step e).workspace.session? language = u.workspace.session? language) ∧
    ∀ path, setup.languageForPath? path = none →
      (∀ m r, ∃ o, u.step (.begin m path r) = { u with operations := u.operations ++ [o] } ∧
        ∀ w, o.result? w = some (.ok r.empty)) ∧
      (∀ n begun, u.operations[n]? = some (.about path begun) →
        ∀ m, u.step (.resume m n) = u ∧ u.step (.cancel n) = u) ∧
      (∀ text, u.workspace.change path text = (.ok (), u.workspace)) ∧
      u.workspace.close path = u.workspace := by
  intro u
  have hplaced : u.Placed := placed_run setup root rootUri processId es
  refine ⟨fun language e he => hplaced.session?_step he, fun path hpath => ?_⟩
  have hroute : u.workspace.languageForPath? path = none := by
    obtain ⟨sessions, hfixed⟩ := (new setup root rootUri processId).workspace_run es
    show ((new setup root rootUri processId).run es).workspace.languageForPath? path = none
    rw [hfixed]
    exact hpath
  refine ⟨fun m r => ⟨.about path (.answered r.empty), ?_, fun _ => rfl⟩,
    fun n begun hn m => hplaced.step_answered hroute hn m, change_of_none hroute,
    close_of_none hroute⟩
  rw [step, begin_of_none hroute]

end Run

/-- One server starts, and that of another language turns out not to be there. -/
def mixed : List Event :=
  let disk : Path → Except SystemError Bytes := fun _ => .ok []
  let present : Session.Moment := ⟨0, .ok true, disk, fun _ => false⟩
  let absent : Session.Moment :=
    ⟨0, .error (.notInstalled "rust" "rust-analyzer"), disk, fun _ => false⟩
  [.begin (fun _ => present) (.ofText "b.py") (.open "x = 1"),
    .begin (fun _ => absent) (.ofText "a.rs") (.open "fn main() \x7b\x7d")]

theorem languages_are_isolated_mixed :
    let u := (new .default (.ofText "/w") "file:///w" 1).run mixed
    (u.workspace.statuses =
      [("go", .notStarted), ("python", .awaitingAnswer),
        ("rust", .startFailed (Failure.notInstalled "rust" "rust-analyzer").message),
        ("typescript", .notStarted)]) ∧
    ¬ (Event.close (.ofText "a.rs")).Concerns u "python" ∧
    (u.step (.close (.ofText "a.rs"))).workspace.session? "python" =
      u.workspace.session? "python" ∧
    Setup.default.languageForPath? (.ofText "notes.txt") = none ∧
    u.workspace.close (.ofText "notes.txt") = u.workspace := by
  intro u
  have hisolated :=
    languages_are_isolated .default (.ofText "/w") "file:///w" 1 mixed
  have hother : ¬ (Event.close (.ofText "a.rs")).Concerns u "python" := by
    show ¬ u.workspace.languageForPath? (.ofText "a.rs") = some "python"
    decide +kernel
  have hnone : Setup.default.languageForPath? (.ofText "notes.txt") = none := by decide +kernel
  exact ⟨by decide +kernel, hother, hisolated.1 _ _ hother, hnone,
    (hisolated.2 _ hnone).2.2.2⟩

end InUse

end Workspace
end LanguageClient
