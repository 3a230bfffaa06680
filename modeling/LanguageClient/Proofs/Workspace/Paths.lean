import LanguageClient.Proofs.FileUri.Encoding
import LanguageClient.Proofs.Path.Normal
import LanguageClient.Proofs.Session.Locating
import LanguageClient.Proofs.Workspace.Isolation

namespace LanguageClient

theorem Path.extension?_congr {p q : Path} (h : p.fileName? = q.fileName?) :
    p.extension? = q.extension? := by
  unfold extension?
  rw [h]

namespace Setup

variable {c : Setup} {p q : Path} {language : String}

theorem languageForPath?_congr (h : p.fileName? = q.fileName?) :
    c.languageForPath? p = c.languageForPath? q := by
  unfold languageForPath?
  rw [Path.extension?_congr h]

theorem exists_fileName (h : c.languageForPath? p = some language) :
    ∃ n, p.fileName? = some n := by
  cases hname : p.fileName? with
  | some n => exact ⟨n, rfl⟩
  | none => simp [languageForPath?, Path.extension?, hname] at h

end Setup

namespace Workspace

variable {w : Workspace} {a b : Path} {language : String}

/-- The path as it is meant: from the root, if it is relative. -/
def place (w : Workspace) (a : Path) : Path :=
  if a.isAbsolute then a else w.root.append a

theorem resolve_eq (w : Workspace) (a : Path) : w.resolve a = (w.place a).normal := by
  unfold resolve place
  split <;> rfl

section Root

variable (hroot : w.root.isAbsolute = true)
include hroot

theorem isAbsolute_place (a : Path) : (w.place a).isAbsolute = true := by
  unfold place
  split
  case isTrue h => exact h
  case isFalse => exact Path.isAbsolute_append hroot a

theorem isAbsolute_resolve (a : Path) : (w.resolve a).isAbsolute = true := by
  rw [resolve_eq]
  exact Path.isAbsolute_normal (isAbsolute_place hroot a)

theorem fileName?_resolve {n : Bytes} (h : a.fileName? = some n) :
    (w.resolve a).fileName? = some n := by
  have hlast := Path.getLast?_below h
  rw [resolve_eq, place]
  cases ha : a.isAbsolute with
  | true => exact Path.fileName?_normal ha hlast
  | false => exact Path.fileName?_normal_append hroot ha hlast

theorem languageForPath?_resolve (h : w.languageForPath? a = some language) :
    w.languageForPath? (w.resolve a) = some language := by
  obtain ⟨n, hn⟩ := Setup.exists_fileName h
  rw [← h]
  exact Setup.languageForPath?_congr ((fileName?_resolve hroot hn).trans hn.symm)

theorem resolve_congr (h : Relation.EqvGen Path.Straightens (w.place a) (w.place b)) :
    w.resolve a = w.resolve b := by
  rw [resolve_eq, resolve_eq, Path.normal_eq (isAbsolute_place hroot a),
    Path.normal_eq (isAbsolute_place hroot b), Path.trail_of_eqvGen h]

/-- Two spellings of one path that have languages have the same one, and come to the same session. -/
theorem route?_congr {l l' : String}
    (h : Relation.EqvGen Path.Straightens (w.place a) (w.place b))
    (ha : w.languageForPath? a = some l) (hb : w.languageForPath? b = some l') :
    l = l' ∧ w.route? a = w.route? b := by
  have hl : l = l' := by
    apply Option.some.inj
    rw [← languageForPath?_resolve hroot ha, resolve_congr hroot h,
      languageForPath?_resolve hroot hb]
  subst hl
  refine ⟨rfl, ?_⟩
  unfold route?
  rw [ha, hb]

theorem exists_uri_resolve (a : Path) : ∃ uri, FileUri.ofPath? (w.resolve a) = some uri :=
  FileUri.exists_uri_of_isAbsolute (isAbsolute_resolve hroot a)

theorem hasUri_work (a : Path) (r : Request) : (r.work (w.resolve a)).HasUri := by
  cases r with
  | «open» text => exact exists_uri_resolve hroot a
  | query q => exact exists_uri_resolve hroot a

end Root

theorem isAbsolute_root {setup : Setup} {processId : Nat} {cwd root : Path}
    (h : make setup processId cwd root = .ok w) :
    w.root.isAbsolute = true ∧ w.sessions = [] := by
  unfold make at h
  split at h
  · cases h
  · dsimp only at h
    split at h
    · cases h
    · rename_i huri
      cases h
      obtain ⟨below, hsteps, -⟩ := FileUri.ofPath?_eq_some.mp huri
      exact ⟨Path.isAbsolute_of_steps hsteps, rfl⟩

/-- An attempt to start a server that is made in this event fails so. -/
def Event.LaunchFails (f : Failure) : Event → Prop
  | .begin m _ _ | .shutdown m _ => ∃ l, (m l).launch = .error f
  | .resume m _ => m.launch = .error f
  | .within _ e => ∃ m, e.moment? = some m ∧ m.launch = .error f
  | .cancel _ | .change _ _ | .close _ => False

namespace InUse

variable {u : InUse} {e : Event}

/-- The session is as it was, or has made a step in which its server fails to be launched only if
it does so in the event. -/
def Moves (u : InUse) (e : Event) (language : String) (after : Option Session) : Prop :=
  after = u.workspace.session? language ∨
    ∃ s e', u.workspace.Current language s ∧ after = some (s.step e') ∧
      ∀ m f, e'.moment? = some m → m.launch = .error f → e.LaunchFails f

theorem moves_setSession {l language : String} {s : Session} {e' : Session.Event}
    (hs : u.workspace.Current l s)
    (h : ∀ m f, e'.moment? = some m → m.launch = .error f → e.LaunchFails f) :
    u.Moves e language ((u.workspace.setSession l (s.step e')).session? language) := by
  rw [session?_setSession]
  by_cases hl : l = language
  · rw [if_pos hl]
    exact .inr ⟨s, e', hl ▸ hs, rfl, h⟩
  · rw [if_neg hl]
    exact .inl rfl

theorem moves_within {l language : String} {e' : Session.Event}
    (h : ∀ m f, e'.moment? = some m → m.launch = .error f → e.LaunchFails f) :
    u.Moves e language ((u.workspace.within l e').session? language) := by
  unfold within
  cases hs : u.workspace.session? l with
  | none => exact .inl rfl
  | some s => exact moves_setSession (.inl hs) h

theorem moves_within_of_no_moment {l language : String} {e' : Session.Event}
    (h : e'.moment? = none) :
    u.Moves e language ((u.workspace.within l e').session? language) := by
  refine moves_within fun m f hm _ => ?_
  cases h.symm.trans hm

theorem moves_step (u : InUse) (e : Event) (language : String) :
    u.Moves e language ((u.step e).workspace.session? language) := by
  cases e with
  | begin m path r =>
    show u.Moves _ language ((u.workspace.begin m path r).2.session? language)
    cases hpath : u.workspace.languageForPath? path with
    | none =>
      rw [begin_of_none hpath]
      exact .inl rfl
    | some l =>
      obtain ⟨s, hs, hbegin⟩ := begin_eq hpath m r
      rw [hbegin]
      refine moves_setSession hs ?_
      rintro _ f ⟨⟩ hlaunch
      exact ⟨l, hlaunch⟩
  | resume m n =>
    rw [step]
    split
    · dsimp only
      rw [resume_eq]
      refine moves_within ?_
      rintro _ f ⟨⟩ hlaunch
      exact hlaunch
    · exact .inl rfl
  | cancel n =>
    rw [step]
    split
    · dsimp only
      rw [cancel_eq]
      exact moves_within_of_no_moment rfl
    · exact .inl rfl
  | change path text =>
    rw [step]
    cases hpath : u.workspace.languageForPath? path with
    | none =>
      rw [change_of_none hpath]
      exact .inl rfl
    | some l =>
      rw [change_eq hpath]
      exact moves_within_of_no_moment rfl
  | close path =>
    rw [step]
    cases hpath : u.workspace.languageForPath? path with
    | none =>
      rw [close_of_none hpath]
      exact .inl rfl
    | some l =>
      rw [close_eq hpath]
      exact moves_within_of_no_moment rfl
  | shutdown m restartable =>
    show u.Moves _ language ((u.workspace.shutdown m restartable).2.session? language)
    -- every session begins to shut down, each with a moment of its own
    rw [session?_shutdown]
    cases hs : u.workspace.session? language with
    | none => exact .inl hs.symm
    | some s =>
      refine .inr ⟨s, .begin (m language) (.shutdown restartable), .inl hs, rfl, ?_⟩
      rintro _ f ⟨⟩ hlaunch
      exact ⟨language, hlaunch⟩
  | within l e' =>
    rw [step]
    exact moves_within fun m f hm hf => ⟨m, hm, hf⟩

/-- All that a workspace keeps to while it is used, as far as its operations are located. -/
structure Assured (u : InUse) : Prop where
  root : u.workspace.root.isAbsolute = true
  ascends : Table.Ascends u.workspace.sessions
  sessions : ∀ language s, u.workspace.session? language = some s → s.Assured
  operations : ∀ o ∈ u.operations, ∀ language i, o.place? = some (language, i) →
    ∃ s work, u.workspace.session? language = some s ∧ s.work? i = some work ∧ work.HasUri

theorem ascends_shutdown (h : Table.Ascends u.workspace.sessions) (m : String → Session.Moment)
    (restartable : Bool) : Table.Ascends (u.workspace.shutdown m restartable).2.sessions := by
  rw [Table.ascends_iff] at h ⊢
  simpa [shutdown, Function.comp_def] using h

theorem ascends_step (h : Table.Ascends u.workspace.sessions) (e : Event) :
    Table.Ascends (u.step e).workspace.sessions := by
  by_cases hshutdown : ∃ m restartable, e = .shutdown m restartable
  · obtain ⟨m, restartable, rfl⟩ := hshutdown
    exact ascends_shutdown h m restartable
  push Not at hshutdown
  cases htarget : u.target? e with
  | none => rwa [workspace_step_of_no_target htarget hshutdown]
  | some l =>
    obtain heq | ⟨s, e', -, heq⟩ := workspace_step_of_target htarget
    · rwa [heq]
    · rw [heq]
      exact h.set

namespace Assured

theorem of_make {setup : Setup} {processId : Nat} {cwd root : Path} {w : Workspace}
    (h : make setup processId cwd root = .ok w) : Assured { workspace := w } := by
  obtain ⟨hroot, hnone⟩ := isAbsolute_root h
  constructor
  case root => exact hroot
  case ascends =>
    rw [hnone]
    exact .nil
  case sessions =>
    intro language s hs
    simp [session?, hnone] at hs
  case operations => exact fun o ho => absurd ho List.not_mem_nil

theorem current (h : u.Assured) {language : String} {s : Session}
    (hs : u.workspace.Current language s) : s.Assured := by
  obtain hs | ⟨-, server, -, rfl⟩ := hs
  · exact h.sessions language s hs
  · exact .new language server _ _ _

theorem begun (h : u.Assured) {o : Operation} (ho : o ∈ (u.step e).operations)
    (hnew : o ∉ u.operations) {language : String} {i : Nat} (hplace : o.place? = some (language, i)) :
    ∃ s work, (u.step e).workspace.session? language = some s ∧ s.work? i = some work ∧
      work.HasUri := by
  cases e with
  | begin m path r =>
    rw [step] at ho ⊢
    obtain ho | ho := List.mem_append.mp ho
    · exact absurd ho hnew
    obtain rfl := List.mem_singleton.mp ho
    cases hpath : u.workspace.languageForPath? path with
    | none =>
      rw [begin_of_none hpath] at hplace
      cases hplace
    | some l =>
      obtain ⟨server, s, -, -, hbegin⟩ := begin_of_some hpath m r
      rw [hbegin] at hplace ⊢
      cases hplace
      exact ⟨_, _, (session?_setSession _).trans (if_pos rfl), s.work?_begin _ _,
        hasUri_work h.root path r⟩
  | shutdown m restartable =>
    rw [step] at ho ⊢
    obtain ho | ho := List.mem_append.mp ho
    · exact absurd ho hnew
    obtain ⟨⟨l, n⟩, hmem, rfl⟩ := List.mem_map.mp ho
    obtain ⟨⟨l', s⟩, hs, heq⟩ := List.mem_map.mp hmem
    obtain ⟨rfl, rfl⟩ := Prod.mk.inj heq
    obtain ⟨rfl, rfl⟩ := Prod.mk.inj (Option.some.inj hplace)
    -- the sessions are kept in the order of their languages, so each is found by its own
    have hsession : u.workspace.session? l' = some s := h.ascends.get?_of_mem hs
    refine ⟨_, _, ?_, s.work?_begin (m l') (.shutdown restartable), trivial⟩
    rw [session?_shutdown, hsession]
    rfl
  | resume | cancel =>
    refine absurd ?_ hnew
    unfold step at ho
    dsimp only at ho
    split at ho <;> exact ho
  | change | close | within => exact absurd ho hnew

theorem step (h : u.Assured)
    (hlaunch : ∀ f, e.LaunchFails f → ∃ language, f.OfLaunch language) : (u.step e).Assured where
  root := by
    obtain ⟨sessions, hfixed⟩ := u.workspace_step e
    rw [hfixed]
    exact h.root
  ascends := ascends_step h.ascends e
  sessions language s hs := by
    obtain hsame | ⟨s₀, e', hs₀, hstep, hmoment⟩ := u.moves_step e language
    · exact h.sessions language s (hsame.symm.trans hs)
    · obtain rfl : s₀.step e' = s := Option.some.inj (hstep.symm.trans hs)
      refine (h.current hs₀).step fun m f hm hf => ?_
      obtain ⟨l, hof⟩ := hlaunch f (hmoment m f hm hf)
      exact hof.lacksUri
  operations o ho language i hplace := by
    by_cases hold : o ∈ u.operations
    · obtain ⟨s, work, hs, hwork, huri⟩ := h.operations o hold language i hplace
      obtain hsame | ⟨s₀, e', hs₀, hstep, -⟩ := u.moves_step e language
      · exact ⟨s, work, hsame.trans hs, hwork, huri⟩
      · obtain hs₀ | ⟨hnone, -⟩ := hs₀
        · obtain rfl : s₀ = s := Option.some.inj (hs₀.symm.trans hs)
          exact ⟨_, work, hstep, (h.sessions language s₀ hs).gated.work?_step hwork e', huri⟩
        · cases hnone.symm.trans hs
    · exact h.begun ho hold hplace

theorem run (h : u.Assured) {es : List Event}
    (hlaunch : ∀ e ∈ es, ∀ f, e.LaunchFails f → ∃ language, f.OfLaunch language) :
    (u.run es).Assured := by
  induction es generalizing u with
  | nil => exact h
  | cons e es ih =>
    obtain ⟨he, hes⟩ := List.forall_mem_cons.mp hlaunch
    exact ih (h.step he) hes

theorem locates_result (h : u.Assured) {o : Operation} (ho : o ∈ u.operations)
    {r : Except Failure Answer} (hr : o.result? u.workspace = some r) : Locates r := by
  have hplaced {language : String} {i : Nat} (hplace : o.place? = some (language, i))
      (hr : u.workspace.result? language i = some r) : Locates r := by
    obtain ⟨s, work, hs, hwork, huri⟩ := h.operations o ho language i hplace
    rw [result?, hs, Option.bind_some] at hr
    exact (h.sessions language s hs).locating i work hwork huri r hr
  cases o with
  | ending language i => exact hplaced rfl hr
  | about path begun =>
    cases begun with
    | answered a =>
      cases hr
      exact locates_ok a
    | running language i => exact hplaced rfl hr

end Assured

theorem locates_change (w : Workspace) (path : Path) (text : String) :
    Locates (w.change path text).1 := by
  unfold change
  split
  · exact locates_ok ()
  · split
    · exact locates_error rfl
    · exact Session.locates_change _ _ _

/-- Making an absolute path normal leaves only names in it, makes no difference when it is done
again or in front of a path that goes on, and forgets dots and names that are taken back. So a
workspace resolves every path to an absolute one of the same language, two spellings of a path lead
to the same session and document, and no operation fails because a path has no URI, if only the
launch of a server fails as launches do. -/
theorem paths_are_resolved :
    (∀ p : Path, p.isAbsolute = true →
      p.normal.isAbsolute = true ∧ (∀ n ∈ p.normal.pieces, Path.IsName n) ∧
      p.normal.normal = p.normal ∧ (∀ q, (p.append q).normal = (p.normal.append q).normal) ∧
      ∀ q, Path.Straightens p q → q.normal = p.normal) ∧
    ∀ (setup : Setup) (processId : Nat) (cwd root : Path) (w : Workspace) (es : List Event),
      make setup processId cwd root = .ok w →
      let u := run { workspace := w } es
      (∀ a, (u.workspace.resolve a).isAbsolute = true ∧
        ∀ l, u.workspace.languageForPath? a = some l →
          u.workspace.languageForPath? (u.workspace.resolve a) = some l) ∧
      (∀ a b l l', Relation.EqvGen Path.Straightens (u.workspace.place a) (u.workspace.place b) →
        u.workspace.languageForPath? a = some l → u.workspace.languageForPath? b = some l' →
        l = l' ∧ u.workspace.route? a = u.workspace.route? b ∧
          u.workspace.resolve a = u.workspace.resolve b) ∧
      ((∀ e ∈ es, ∀ f, e.LaunchFails f → ∃ language, f.OfLaunch language) →
        (∀ o ∈ u.operations, ∀ path, o.result? u.workspace ≠ some (.error (.noUri path))) ∧
        ∀ a text path, (u.workspace.change a text).1 ≠ .error (.noUri path)) := by
  constructor
  · intro p hp
    exact ⟨Path.isAbsolute_normal hp, fun n hn => Path.isName_of_mem_normal hp hn,
      Path.normal_normal hp, Path.normal_append hp, fun q hq => hq.normal hp⟩
  · intro setup processId cwd root w es hmake u
    have huroot : u.workspace.root.isAbsolute = true := by
      obtain ⟨sessions, hfixed⟩ := workspace_run { workspace := w } es
      rw [show u.workspace = { w with sessions } from hfixed]
      exact (isAbsolute_root hmake).1
    refine ⟨fun a => ⟨isAbsolute_resolve huroot a, fun l => languageForPath?_resolve huroot⟩, ?_, ?_⟩
    · intro a b l l' hspelt ha hb
      obtain ⟨hl, hroute⟩ := route?_congr huroot hspelt ha hb
      exact ⟨hl, hroute, resolve_congr huroot hspelt⟩
    · intro hlaunch
      have hrun : u.Assured := (Assured.of_make hmake).run hlaunch
      constructor
      · intro o ho path hr
        have hlacks := hrun.locates_result ho hr _ rfl
        cases hlacks
      · intro a text path hchange
        have hlacks := locates_change u.workspace a text _ hchange
        cases hlacks

/-- A file of which two spellings are used, where one server starts and another does not. -/
theorem paths_are_resolved_mixed :
    ∃ w, make .default 1 (.ofText "/") (.ofText "/w/.") = .ok w ∧
      Path.Straightens (.ofText "/w/./x/../b.py") (.ofText "/w/x/../b.py") ∧
      (Path.ofText "/w/x/../b.py").normal = (Path.ofText "/w/./x/../b.py").normal ∧
      (run { workspace := w } mixed).workspace.route? (.ofText "./x/../b.py") =
        (run { workspace := w } mixed).workspace.route? (.ofText "b.py") ∧
      ∀ o ∈ (run { workspace := w } mixed).operations, ∀ path,
        o.result? (run { workspace := w } mixed).workspace ≠ some (.error (.noUri path)) := by
  let w : Workspace := ⟨.default, .ofText "/w", "file:///w", 1, []⟩
  have hmake : make .default 1 (.ofText "/") (.ofText "/w/.") = .ok w := rfl
  have hpieces : (Path.ofText "/w/./x/../b.py").pieces =
      [utf8 "w"] ++ [Path.dot] :: [utf8 "x", utf8 "..", utf8 "b.py"] := rfl
  have hdot : Path.Straightens (.ofText "/w/./x/../b.py") (.ofText "/w/x/../b.py") :=
    .here rfl rfl hpieces rfl
  have hsteps : (Path.ofText "/w/x/../b.py").steps =
      [.root, .name (utf8 "w")] ++ .name (utf8 "x") :: .up :: [.name (utf8 "b.py")] := rfl
  have hback : Path.Straightens (.ofText "/w/x/../b.py") (.ofText "/w/b.py") :=
    .back rfl hsteps rfl
  obtain ⟨hnormal, hworkspace⟩ := paths_are_resolved
  obtain ⟨-, hspelt, hlocated⟩ := hworkspace .default 1 (.ofText "/") (.ofText "/w/.") w mixed hmake
  have hlaunch : ∀ e ∈ mixed, ∀ f, e.LaunchFails f → ∃ language, f.OfLaunch language := by
    intro e he f hf
    simp only [mixed, List.mem_cons, List.not_mem_nil, or_false] at he
    obtain rfl | rfl := he
    · obtain ⟨l, ⟨⟩⟩ := hf
    · obtain ⟨l, ⟨⟩⟩ := hf
      exact ⟨"rust", .notInstalled _⟩
  refine ⟨w, hmake, hdot, (hnormal _ rfl).2.2.2.2 _ hdot, ?_, (hlocated hlaunch).1⟩
  refine (hspelt _ _ "python" "python" ?_ (by decide +kernel) (by decide +kernel)).2.1
  exact .trans _ _ _ (.rel _ _ hdot) (.rel _ _ hback)

end InUse
end Workspace
end LanguageClient
