import LanguageClient.Proofs.Path.Normal
import Mathlib.Data.List.TakeWhile

namespace LanguageClient.Path

variable {p : Path} {n stem ext : Bytes}

theorem below_append_of_isRelative (p : Path) {q : Path} (hq : q.isAbsolute = false) :
    (p.append q).below = p.below ++ q.below := by
  by_cases hp : p.bytes = []
  · have happend : p.append q = q := by
      unfold append
      rw [if_neg (by simp [hq]), if_pos (.inl hp), hp, List.nil_append]
    have hbelow : p.below = [] := by simp [below, pieces, split, hp]
    rw [happend, hbelow, List.nil_append]
  · rw [below, pieces_append hp hq, List.filterMap_append]
    rfl

theorem fileName?_of_below (h : p.below.getLast? = some (.name n)) : p.fileName? = some n := by
  have hsteps : ∃ front, p.steps = front ++ p.below := by
    cases hp : p.isAbsolute with
    | true => exact ⟨[.root], steps_of_isAbsolute hp⟩
    | false =>
      obtain hsteps | hsteps := steps_of_isRelative hp
      · exact ⟨[], hsteps⟩
      · exact ⟨[.here], hsteps⟩
  obtain ⟨front, hfront⟩ := hsteps
  rw [fileName?, hfront, List.getLast?_append, h]
  rfl

theorem fileName?_append (dir : Path) (h : IsName n) : (dir.append ⟨n⟩).fileName? = some n := by
  have hrelative : (Path.mk n).isAbsolute = false := by
    rw [Bool.eq_false_iff]
    intro habsolute
    obtain ⟨rest, hrest⟩ := isAbsolute_iff.mp habsolute
    exact h.slash_notMem (by simp [show n = slash :: rest from hrest])
  apply fileName?_of_below
  have hbelow : (Path.mk n).below = [.name n] := by
    rw [below_eq, split_of_notMem h.slash_notMem]
    simp [stepOf_of_isName h]
  rw [below_append_of_isRelative dir hrelative, hbelow, List.getLast?_concat]

theorem isName_of_extension (hstem : stem ≠ []) (hext : ext ≠ [])
    (hslash : slash ∉ stem ++ dot :: ext) : IsName (stem ++ dot :: ext) := by
  have hlength : 2 < (stem ++ dot :: ext).length := by
    have := List.length_pos_iff.mpr hstem
    have := List.length_pos_iff.mpr hext
    simp only [List.length_append, List.length_cons]
    omega
  constructor
  case slash_notMem => exact hslash
  all_goals
    intro heq
    rw [heq] at hlength
    simp at hlength

theorem takeWhile_reverse (hdot : dot ∉ ext) :
    (stem ++ dot :: ext).reverse.takeWhile (· != dot) = ext.reverse := by
  rw [List.reverse_append, List.reverse_cons, List.append_assoc, List.singleton_append,
    List.takeWhile_append_of_pos, List.takeWhile_cons_of_neg (by simp), List.append_nil]
  intro b hb
  rw [bne_iff_ne]
  rintro rfl
  exact hdot (List.mem_reverse.mp hb)

/-- Where a dot is in front of them, it has a stem in front of itself unless the name begins with
it. -/
theorem exists_stem (h : (n.reverse.takeWhile (· != dot)).length + 1 < n.length) :
    ∃ stem, stem ≠ [] ∧ n = stem ++ dot :: (n.reverse.takeWhile (· != dot)).reverse := by
  have hsplit : n.reverse.takeWhile (· != dot) ++ n.reverse.dropWhile (· != dot) = n.reverse :=
    List.takeWhile_append_dropWhile
  have hlength := congrArg List.length hsplit
  rw [List.length_append, List.length_reverse] at hlength
  cases hrest : n.reverse.dropWhile (· != dot) with
  | nil =>
    rw [hrest, List.length_nil] at hlength
    omega
  | cons b rest =>
    obtain rfl : b = dot := by
      have hhead := List.head?_dropWhile_not (· != dot) n.reverse
      rw [hrest] at hhead
      simpa using hhead
    rw [hrest, List.length_cons] at hlength
    refine ⟨rest.reverse, ?_, ?_⟩
    · rw [ne_eq, List.reverse_eq_nil_iff, ← List.length_eq_zero_iff]
      omega
    · rw [hrest] at hsplit
      have hreverse := congrArg List.reverse hsplit
      rw [List.reverse_append, List.reverse_cons, List.append_assoc,
        List.reverse_reverse] at hreverse
      exact hreverse.symm

theorem extension?_eq_some_iff :
    p.extension? = some ext ↔
      ∃ stem, stem ≠ [] ∧ p.fileName? = some (stem ++ dot :: ext) ∧ dot ∉ ext := by
  rw [extension?, Option.bind_eq_bind, Option.bind_eq_some_iff]
  constructor
  · rintro ⟨n, hn, h⟩
    dsimp only at h
    split at h
    case isFalse => cases h
    case isTrue hlength =>
      obtain rfl := Option.some.inj h
      obtain ⟨stem, hstem, heq⟩ := exists_stem hlength
      refine ⟨stem, hstem, heq ▸ hn, fun hdot => ?_⟩
      simpa using List.mem_takeWhile_imp (List.mem_reverse.mp hdot)
  · rintro ⟨stem, hstem, hn, hdot⟩
    refine ⟨_, hn, ?_⟩
    have hlength : 0 < stem.length := List.length_pos_iff.mpr hstem
    simp only [takeWhile_reverse hdot, List.length_reverse, List.length_append, List.length_cons,
      List.reverse_reverse]
    rw [if_pos (by omega)]

end LanguageClient.Path
