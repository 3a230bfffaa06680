import LanguageClient.Path
import Mathlib.Data.List.Induction

namespace LanguageClient.Path

theorem Step.beq_name (m n : Bytes) : (name m == name n) = (m == n) := rfl

instance : LawfulBEq Step where
  eq_of_beq {a b} h := by
    cases a <;> cases b
    case name.name m n =>
      rw [Step.beq_name] at h
      rw [eq_of_beq h]
    all_goals first | rfl | cases h
  rfl {a} := by
    cases a
    case name n => exact (Step.beq_name n n).trans (beq_self_eq_true n)
    all_goals rfl

theorem split_eq_splitOn (bs : Bytes) : split bs = bs.splitOn slash := by
  induction bs with
  | nil => rfl
  | cons b bs ih =>
    rw [split, List.splitOn, List.splitOnP_cons_eq_if_modifyHead, ← List.splitOn, ← ih]
    by_cases hb : b = slash
    · simp [hb]
    · cases hsplit : split bs with
      | nil => simp [ih, List.splitOn, List.splitOnP_ne_nil] at hsplit
      | cons piece pieces => simp [hb]

theorem split_append_slash (xs ys : Bytes) : split (xs ++ slash :: ys) = split xs ++ split ys := by
  simp only [split_eq_splitOn, List.splitOn]
  exact List.splitOnP_append_cons xs ys (beq_self_eq_true slash)

theorem split_of_notMem {n : Bytes} (h : slash ∉ n) : split n = [n] := by
  rw [split_eq_splitOn, List.splitOn]
  apply List.splitOnP_eq_singleton
  intro b hb
  rw [beq_eq_false_iff_ne]
  rintro rfl
  exact h hb

theorem slash_notMem_of_mem_split {bs piece : Bytes} (h : piece ∈ split bs) : slash ∉ piece := by
  induction bs generalizing piece with
  | nil =>
    obtain rfl := List.mem_singleton.mp h
    exact List.not_mem_nil
  | cons b bs ih =>
    rw [split] at h
    split at h
    · obtain rfl | h := List.mem_cons.mp h
      · exact List.not_mem_nil
      · exact ih h
    · rename_i hb
      split at h
      · obtain rfl := List.mem_singleton.mp h
        simpa using Ne.symm hb
      · rename_i first rest hsplit
        rw [hsplit] at ih
        obtain rfl | h := List.mem_cons.mp h
        · have hfirst : slash ∉ first := ih List.mem_cons_self
          simp [hfirst, Ne.symm hb]
        · exact ih (List.mem_cons_of_mem _ h)

/-- The components of a path as they are written, dots included. -/
def pieces (p : Path) : List Bytes :=
  (split p.bytes).filter (· ≠ [])

/-- The steps that follow the root, or the start of a relative path. -/
def below (p : Path) : List Step :=
  p.pieces.filterMap stepOf

/-- A name of a file or directory: neither empty nor one of the dots, and without a slash. -/
structure IsName (n : Bytes) : Prop where
  ne_nil : n ≠ []
  slash_notMem : slash ∉ n
  ne_dot : n ≠ [dot]
  ne_dots : n ≠ [dot, dot]

/-- A step that an absolute path can have below its root. -/
def Step.IsPlain : Step → Prop
  | .root | .here => False
  | .up => True
  | .name n => IsName n

variable {p q : Path} {n : Bytes}

theorem stepOf_of_isName (h : IsName n) : stepOf n = some (.name n) := by
  simp [stepOf, h.ne_nil, h.ne_dot, h.ne_dots]

theorem below_eq (p : Path) : p.below = (split p.bytes).filterMap stepOf := by
  unfold below pieces
  rw [List.filterMap_filter]
  congr 1
  funext piece
  by_cases h : piece = []
  · simp [h, stepOf]
  · simp [h]

theorem isPlain_of_mem_below {s : Step} (h : s ∈ p.below) : s.IsPlain := by
  rw [below_eq] at h
  obtain ⟨piece, hpiece, hstep⟩ := List.mem_filterMap.mp h
  have hslash : slash ∉ piece := slash_notMem_of_mem_split hpiece
  unfold stepOf at hstep
  split at hstep
  · cases hstep
  · rename_i hshort
    push Not at hshort
    split at hstep
    · cases hstep
      trivial
    · rename_i hup
      cases hstep
      exact ⟨hshort.1, hslash, hshort.2, hup⟩

theorem Step.IsPlain.bytes_ne_nil {s : Step} (h : s.IsPlain) : s.bytes ≠ [] := by
  cases s with
  | root | here => cases h
  | up => decide
  | name n => exact h.ne_nil

theorem Step.IsPlain.eq_of_bytes {s t : Step} (hs : s.IsPlain) (ht : t.IsPlain)
    (h : s.bytes = t.bytes) : s = t := by
  cases s with
  | root | here => cases hs
  | up =>
    cases t with
    | root | here => cases ht
    | up => rfl
    | name n => exact absurd h.symm ht.ne_dots
  | name m =>
    cases t with
    | root | here => cases ht
    | up => exact absurd h hs.ne_dots
    | name n => exact congrArg Step.name h

theorem steps_of_isAbsolute (h : p.isAbsolute = true) : p.steps = .root :: p.below := by
  simp [steps, below_eq, h]

theorem steps_of_isRelative (h : p.isAbsolute = false) :
    p.steps = p.below ∨ p.steps = .here :: p.below := by
  by_cases hdot : (split p.bytes).head? = some [dot]
  · exact .inr (by simp [steps, below_eq, h, hdot])
  · exact .inl (by simp [steps, below_eq, h, hdot])

theorem isAbsolute_of_steps {below : List Step} (h : p.steps = .root :: below) :
    p.isAbsolute = true := by
  by_contra hp
  obtain hsteps | hsteps := steps_of_isRelative (Bool.eq_false_iff.mpr hp)
  · have hroot : Step.root ∈ p.below := by
      rw [← hsteps, h]
      exact List.mem_cons_self
    exact isPlain_of_mem_below hroot
  · cases h.symm.trans hsteps

theorem isPlain_of_steps {below : List Step} (h : p.steps = .root :: below) {s : Step}
    (hs : s ∈ below) : s.IsPlain := by
  rw [steps_of_isAbsolute (isAbsolute_of_steps h)] at h
  rw [← (List.cons.inj h).2] at hs
  exact isPlain_of_mem_below hs

theorem isAbsolute_iff : p.isAbsolute = true ↔ ∃ rest, p.bytes = slash :: rest := by
  rw [isAbsolute, beq_iff_eq, List.head?_eq_some_iff]

/-- Steps that do not go up are names. -/
theorem exists_names_of_isPlain {below : List Step} (h : ∀ s ∈ below, s.IsPlain)
    (hup : .up ∉ below) : ∃ names : List Bytes, (∀ n ∈ names, IsName n) ∧ below = names.map .name := by
  induction below with
  | nil => exact ⟨[], by simp⟩
  | cons s below ih =>
    have hs : s.IsPlain := h s List.mem_cons_self
    obtain ⟨names, hnames, rfl⟩ := ih (fun t ht => h t (List.mem_cons_of_mem _ ht))
      fun hmem => hup (List.mem_cons_of_mem _ hmem)
    cases s with
    | root | here => cases hs
    | up => exact absurd List.mem_cons_self hup
    | name n => exact ⟨n :: names, List.forall_mem_cons.mpr ⟨hs, hnames⟩, rfl⟩

theorem exists_names (h : p.isAbsolute = true) (hup : .up ∉ p.steps) :
    ∃ names : List Bytes, (∀ n ∈ names, IsName n) ∧ p.steps = .root :: names.map .name := by
  have hsteps := steps_of_isAbsolute h
  rw [hsteps] at hup
  obtain ⟨names, hnames, hbelow⟩ := exists_names_of_isPlain
    (fun s hs => isPlain_of_steps hsteps hs) fun hmem => hup (List.mem_cons_of_mem _ hmem)
  exact ⟨names, hnames, by rw [hsteps, hbelow]⟩

theorem below_append_slash (bs : Bytes) : below ⟨bs ++ [slash]⟩ = below ⟨bs⟩ := by
  simp [below, pieces, split_append_slash, split]

theorem isAbsolute_append (hp : p.isAbsolute = true) (q : Path) :
    (p.append q).isAbsolute = true := by
  obtain ⟨rest, hrest⟩ := isAbsolute_iff.mp hp
  unfold append
  split
  case isTrue hq => exact hq
  case isFalse => split <;> simp [isAbsolute, hrest]

theorem pieces_append (hp : p.bytes ≠ []) (hq : q.isAbsolute = false) :
    (p.append q).pieces = p.pieces ++ q.pieces := by
  unfold append
  rw [if_neg (by simp [hq])]
  by_cases hlast : p.bytes.getLast? = some slash
  · rw [if_pos (.inr hlast)]
    obtain ⟨front, hfront⟩ := List.getLast?_eq_some_iff.mp hlast
    simp [pieces, hfront, split_append_slash, split]
  · rw [if_neg (by simp [hp, hlast])]
    simp [pieces, split_append_slash]

/-- The absolute path of these names. -/
def rooted (names : List Bytes) : Path :=
  ⟨if names = [] then [slash] else names.flatMap (slash :: ·)⟩

section Rooted

variable {names : List Bytes} (h : ∀ n ∈ names, IsName n)

theorem isAbsolute_rooted (names : List Bytes) : (rooted names).isAbsolute = true := by
  cases names <;> simp [rooted, isAbsolute]

include h

theorem split_flatMap_slash : split (names.flatMap (slash :: ·)) = [] :: names := by
  -- from the end: the slash in front of the last name is where the text is cut in two
  induction names using List.reverseRecOn with
  | nil => rfl
  | append_singleton names n ih =>
    have hn : slash ∉ n := (h n (by simp)).slash_notMem
    have hnames : ∀ m ∈ names, IsName m := fun m hm => h m (by simp [hm])
    rw [List.flatMap_append, List.flatMap_singleton, split_append_slash, ih hnames,
      split_of_notMem hn, List.cons_append]

theorem pieces_flatMap_slash : pieces ⟨names.flatMap (slash :: ·)⟩ = names := by
  unfold pieces
  rw [split_flatMap_slash h, List.filter_cons_of_neg (by simp), List.filter_eq_self]
  intro n hn
  simpa using (h n hn).ne_nil

theorem pieces_rooted : (rooted names).pieces = names := by
  unfold rooted
  split
  case isTrue hnil =>
    rw [hnil]
    rfl
  case isFalse => exact pieces_flatMap_slash h

theorem filterMap_stepOf : names.filterMap stepOf = names.map .name := by
  induction names with
  | nil => rfl
  | cons n names ih =>
    rw [List.filterMap_cons_some (stepOf_of_isName (h n List.mem_cons_self)), List.map_cons,
      ih fun m hm => h m (List.mem_cons_of_mem _ hm)]

theorem below_rooted : (rooted names).below = names.map .name := by
  rw [below, pieces_rooted h, filterMap_stepOf h]

theorem steps_rooted : (rooted names).steps = .root :: names.map .name := by
  rw [steps_of_isAbsolute (isAbsolute_rooted names), below_rooted h]

end Rooted

theorem rooted_append {names : List Bytes} (h : ∀ m ∈ names, IsName m) (hn : IsName n) :
    (rooted names).append ⟨n⟩ = rooted (names ++ [n]) := by
  have hrelative : (Path.mk n).isAbsolute = false := by
    unfold isAbsolute
    rw [beq_eq_false_iff_ne]
    intro hhead
    exact hn.slash_notMem (List.mem_of_head? hhead)
  unfold append
  rw [if_neg (by simp [hrelative])]
  induction names using List.reverseRecOn with
  | nil => simp [rooted]
  | append_singleton names m =>
    have hm : IsName m := h m (by simp)
    have hbytes : (rooted (names ++ [m])).bytes = names.flatMap (slash :: ·) ++ slash :: m := by
      simp [rooted]
    -- no slash is at the end, so one is put before the new name
    have hlast : (rooted (names ++ [m])).bytes.getLast? ≠ some slash := by
      have hb : m.getLast? = some (m.getLast hm.ne_nil) := List.getLast?_eq_some_getLast hm.ne_nil
      rw [hbytes, List.getLast?_append, List.getLast?_cons, hb]
      simp only [Option.getD_some, Option.some_or, ne_eq, Option.some.injEq]
      intro hslash
      exact hm.slash_notMem (hslash ▸ List.getLast_mem hm.ne_nil)
    have hne : (rooted (names ++ [m])).bytes ≠ [] := by simp [hbytes]
    rw [if_neg (not_or.mpr ⟨hne, hlast⟩)]
    simp [rooted]

theorem ofSteps_append_one (ss : List Step) (s : Step) :
    ofSteps (ss ++ [s]) = (ofSteps ss).append ⟨s.bytes⟩ := by
  simp [ofSteps]

/-- What is put together from the root and names is the path of these names. -/
theorem ofSteps_rooted {names : List Bytes} (h : ∀ n ∈ names, IsName n) :
    ofSteps (.root :: names.map .name) = rooted names := by
  induction names using List.reverseRecOn with
  | nil => rfl
  | append_singleton names n ih =>
    have hnames : ∀ m ∈ names, IsName m := fun m hm => h m (by simp [hm])
    rw [List.map_append, List.map_singleton, ← List.cons_append, ofSteps_append_one, ih hnames]
    exact rooted_append hnames (h n (by simp))

end LanguageClient.Path
