import LanguageClient.Proofs.Path.Steps
import Mathlib.Logic.Relation

namespace LanguageClient.Path

/-- The names one has gone along after one more step. At the root there is no way up. -/
def walk (names : List Bytes) : Step → List Bytes
  | .up => names.dropLast
  | .name n => names ++ [n]
  | .root | .here => names

/-- The names that an absolute path leads along in the end. -/
def trail (p : Path) : List Bytes :=
  p.below.foldl walk []

variable {p q : Path} {s : Step} {n : Bytes} {names : List Bytes}

/-- The stack that holds names above the root. -/
def stackOf (names : List Bytes) : List Step :=
  (names.map .name).reverse ++ [.root]

theorem stackOf_append_one (names : List Bytes) (n : Bytes) :
    stackOf (names ++ [n]) = .name n :: stackOf names := by
  simp [stackOf]

theorem settle_stackOf (hs : s.IsPlain) : settle (stackOf names) s = stackOf (walk names s) := by
  cases s with
  | root | here => cases hs
  | name n => exact (stackOf_append_one names n).symm
  | up =>
    induction names using List.reverseRecOn with
    | nil => rfl
    | append_singleton names n => simp [stackOf_append_one, settle, walk]

theorem foldl_settle {steps : List Step} (h : ∀ s ∈ steps, s.IsPlain) (names : List Bytes) :
    steps.foldl settle (stackOf names) = stackOf (steps.foldl walk names) := by
  induction steps generalizing names with
  | nil => rfl
  | cons s steps ih =>
    obtain ⟨hs, hsteps⟩ := List.forall_mem_cons.mp h
    rw [List.foldl_cons, List.foldl_cons, settle_stackOf hs, ih hsteps]

theorem isName_of_mem_foldl {steps : List Step} (hsteps : ∀ s ∈ steps, s.IsPlain)
    (hnames : ∀ m ∈ names, IsName m) : ∀ m ∈ steps.foldl walk names, IsName m := by
  induction steps generalizing names with
  | nil => exact hnames
  | cons s steps ih =>
    obtain ⟨hs, hrest⟩ := List.forall_mem_cons.mp hsteps
    refine ih hrest ?_
    cases s with
    | root | here => cases hs
    | up => exact fun m hm => hnames m ((List.dropLast_sublist names).subset hm)
    | name n =>
      intro m hm
      obtain hm | hm := List.mem_append.mp hm
      · exact hnames m hm
      · obtain rfl := List.mem_singleton.mp hm
        exact hs

theorem isName_of_mem_trail (h : n ∈ p.trail) : IsName n :=
  isName_of_mem_foldl (fun _ hs => isPlain_of_mem_below hs) (by simp) n h

theorem normal_eq (h : p.isAbsolute = true) : p.normal = rooted p.trail := by
  -- the first step puts down the root, and from then on the stack holds names above it
  have hfold : p.steps.foldl settle [] = stackOf p.trail := by
    rw [steps_of_isAbsolute h, List.foldl_cons]
    exact foldl_settle (fun _ hs => isPlain_of_mem_below hs) []
  rw [normal, hfold, stackOf, List.reverse_append, List.reverse_reverse]
  exact ofSteps_rooted fun _ hn => isName_of_mem_trail hn

theorem foldl_walk_names (front names : List Bytes) :
    (names.map Step.name).foldl walk front = front ++ names := by
  induction names generalizing front with
  | nil => simp
  | cons n names ih =>
    rw [List.map_cons, List.foldl_cons, ih, walk, List.append_assoc, List.singleton_append]

theorem trail_rooted (h : ∀ n ∈ names, IsName n) : (rooted names).trail = names := by
  rw [trail, below_rooted h, foldl_walk_names, List.nil_append]

theorem trail_normal (h : p.isAbsolute = true) : p.normal.trail = p.trail := by
  rw [normal_eq h, trail_rooted fun _ hn => isName_of_mem_trail hn]

theorem isAbsolute_normal (h : p.isAbsolute = true) : p.normal.isAbsolute = true := by
  rw [normal_eq h]
  exact isAbsolute_rooted _

theorem isName_of_mem_normal (h : p.isAbsolute = true) (hn : n ∈ p.normal.pieces) : IsName n := by
  rw [normal_eq h, pieces_rooted fun _ hm => isName_of_mem_trail hm] at hn
  exact isName_of_mem_trail hn

theorem normal_normal (h : p.isAbsolute = true) : p.normal.normal = p.normal := by
  rw [normal_eq (isAbsolute_normal h), trail_normal h, ← normal_eq h]

theorem below_append (hp : p.isAbsolute = true) (hq : q.isAbsolute = false) :
    (p.append q).below = p.below ++ q.below := by
  have hbytes : p.bytes ≠ [] := by
    obtain ⟨rest, hrest⟩ := isAbsolute_iff.mp hp
    simp [hrest]
  rw [below, pieces_append hbytes hq, List.filterMap_append]
  rfl

/-- A relative path leads on from where the path before it has led. -/
theorem trail_append (hp : p.isAbsolute = true) (hq : q.isAbsolute = false) :
    (p.append q).trail = q.below.foldl walk p.trail := by
  rw [trail, below_append hp hq, List.foldl_append]
  rfl

theorem normal_append (hp : p.isAbsolute = true) (q : Path) :
    (p.append q).normal = (p.normal.append q).normal := by
  have hnormal := isAbsolute_normal hp
  cases hq : q.isAbsolute with
  | true => simp [append, hq]
  | false =>
    rw [normal_eq (isAbsolute_append hp q), normal_eq (isAbsolute_append hnormal q),
      trail_append hp hq, trail_append hnormal hq, trail_normal hp]

/-- The same place in fewer steps: a dot is left out, or a name together with the step up that
takes it back. -/
inductive Straightens : Path → Path → Prop
  | here {p q : Path} {front back : List Bytes} : p.isAbsolute = true → q.isAbsolute = true →
      p.pieces = front ++ [dot] :: back → q.pieces = front ++ back → Straightens p q
  | back {p q : Path} {front back : List Step} {n : Bytes} : p.isAbsolute = true →
      p.steps = front ++ .name n :: .up :: back → q.steps = front ++ back → Straightens p q

namespace Straightens

theorem isAbsolute (h : Straightens p q) : q.isAbsolute = true := by
  cases h with
  | here _ hq => exact hq
  | @back front back n hp hpsteps hqsteps =>
    rw [steps_of_isAbsolute hp] at hpsteps
    cases front with
    | nil => cases hpsteps
    | cons s front =>
      obtain ⟨rfl, -⟩ := List.cons.inj hpsteps
      exact isAbsolute_of_steps hqsteps

theorem trail (h : Straightens p q) : q.trail = p.trail := by
  have hq : q.isAbsolute = true := h.isAbsolute
  cases h with
  | here hp _ hppieces hqpieces =>
    have hdot : stepOf [dot] = none := by decide
    rw [Path.trail, Path.trail, below, below, hppieces, hqpieces, List.filterMap_append,
      List.filterMap_append, List.filterMap_cons_none hdot]
  | @back front back n hp hpsteps hqsteps =>
    rw [steps_of_isAbsolute hp] at hpsteps
    rw [steps_of_isAbsolute hq] at hqsteps
    cases front with
    | nil => cases hpsteps
    | cons s front =>
      have hpbelow : p.below = front ++ .name n :: .up :: back := (List.cons.inj hpsteps).2
      have hqbelow : q.below = front ++ back := (List.cons.inj hqsteps).2
      -- the step up takes the name off the end again, whatever was in front
      rw [Path.trail, Path.trail, hpbelow, hqbelow, List.foldl_append, List.foldl_append,
        List.foldl_cons, List.foldl_cons, walk, walk, List.dropLast_concat]

theorem normal (h : Straightens p q) (hp : p.isAbsolute = true) : q.normal = p.normal := by
  rw [normal_eq h.isAbsolute, normal_eq hp, h.trail]

end Straightens

theorem trail_of_eqvGen (h : Relation.EqvGen Straightens p q) : p.trail = q.trail := by
  induction h with
  | rel p q h => exact h.trail.symm
  | refl p => rfl
  | symm p q _ ih => exact ih.symm
  | trans p q r _ _ ihpq ihqr => exact ihpq.trans ihqr

section FileName

theorem getLast?_below (h : p.fileName? = some n) : p.below.getLast? = some (.name n) := by
  have hlast : p.steps.getLast? = some (.name n) := by
    unfold fileName? at h
    split at h
    · rename_i m hm
      cases h
      exact hm
    · cases h
  -- what stands in front is no name, so it is not the last step
  have hfront (s : Step) (hs : s ≠ .name n) (hsteps : p.steps = s :: p.below) :
      p.below.getLast? = some (.name n) := by
    rw [hsteps, List.getLast?_cons] at hlast
    cases hbelow : p.below.getLast? with
    | none => simp [hbelow, hs] at hlast
    | some t => simpa [hbelow] using hlast
  cases hp : p.isAbsolute with
  | true => exact hfront .root (by simp) (steps_of_isAbsolute hp)
  | false =>
    obtain hsteps | hsteps := steps_of_isRelative hp
    · rw [hsteps] at hlast
      exact hlast
    · exact hfront .here (by simp) hsteps

theorem fileName?_normal (hp : p.isAbsolute = true) (h : p.below.getLast? = some (.name n)) :
    p.normal.fileName? = some n := by
  obtain ⟨front, hfront⟩ := List.getLast?_eq_some_iff.mp h
  have htrail : p.trail = front.foldl walk [] ++ [n] := by
    rw [trail, hfront, List.foldl_append]
    rfl
  rw [fileName?, normal_eq hp, steps_rooted fun _ hn => isName_of_mem_trail hn, htrail,
    List.map_append, ← List.cons_append, List.map_singleton, List.getLast?_append]
  rfl

/-- A relative path keeps its file name when it is taken from a directory and made normal. -/
theorem fileName?_normal_append (hp : p.isAbsolute = true) (hq : q.isAbsolute = false)
    (h : q.below.getLast? = some (.name n)) : (p.append q).normal.fileName? = some n := by
  apply fileName?_normal (isAbsolute_append hp q)
  rw [below_append hp hq, List.getLast?_append, h]
  rfl

end FileName

end LanguageClient.Path
