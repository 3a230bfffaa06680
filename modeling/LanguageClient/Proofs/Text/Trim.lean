import LanguageClient.Text.Blank
import Mathlib.Data.List.DropRight
import Mathlib.Data.List.TakeWhile

namespace LanguageClient.Text

variable {cs back : List Char}

theorem trim_append {front cs back : List Char} (hfront : ∀ c ∈ front, isBlank c = true)
    (hback : ∀ c ∈ back, isBlank c = true) (hhead : ∀ c ∈ cs.head?, isBlank c = false)
    (hlast : ∀ c ∈ cs.getLast?, isBlank c = false) : trim (front ++ (cs ++ back)) = cs := by
  have hkeep {ds : List Char} (h : ∀ c ∈ ds.head?, isBlank c = false) :
      ds.dropWhile isBlank = ds := by
    cases ds with
    | nil => rfl
    | cons d ds => rw [List.dropWhile_cons, h d rfl]; rfl
  have hdrop {ds : List Char} (h : ∀ c ∈ ds, isBlank c = true) : ds.dropWhile isBlank = [] :=
    List.dropWhile_eq_nil_iff.mpr h
  have hback' : ∀ c ∈ back.reverse, isBlank c = true := fun c hc => hback c (List.mem_reverse.mp hc)
  rw [trim, trimStart, List.dropWhile_append_of_pos hfront, trimEnd]
  cases cs with
  | nil => rw [List.nil_append, hdrop hback]; rfl
  | cons c cs =>
    have hstart : ∀ d ∈ (c :: cs ++ back).head?, isBlank d = false := hhead
    have hend : ∀ d ∈ (c :: cs).reverse.head?, isBlank d = false := by
      rwa [List.head?_reverse]
    rw [hkeep hstart, List.reverse_append, List.dropWhile_append_of_pos hback', hkeep hend,
      List.reverse_reverse]

theorem trim_ne_nil {c : Char} {cs : List Char} (hc : c ∈ cs) (h : isBlank c = false) :
    trim cs ≠ [] := by
  intro hnil
  have hall : ∀ d ∈ cs.dropWhile isBlank, isBlank d = true := by
    intro d hd
    have hreverse := List.reverse_eq_nil_iff.mp hnil
    exact List.dropWhile_eq_nil_iff.mp hreverse d (List.mem_reverse.mpr hd)
  have hmem : c ∈ cs.takeWhile isBlank ++ cs.dropWhile isBlank := by
    rwa [List.takeWhile_append_dropWhile]
  have hblank : isBlank c = true := by
    obtain hc | hc := List.mem_append.mp hmem
    · exact List.mem_takeWhile_imp hc
    · exact hall c hc
  rw [h] at hblank
  cases hblank

theorem trimEnd_append_blank (cs : List Char) : trimEnd cs ++ cs.rtakeWhile isBlank = cs :=
  List.rdropWhile_append_rtakeWhile

/-- What is trimmed off a text is white space, and what is left neither begins nor ends with any. -/
theorem exists_trim (cs : List Char) :
    ∃ front back, cs = front ++ (trim cs ++ back) ∧ (∀ c ∈ front, isBlank c = true) ∧
      (∀ c ∈ back, isBlank c = true) ∧ (∀ c ∈ (trim cs).head?, isBlank c = false) ∧
      ∀ c ∈ (trim cs).getLast?, isBlank c = false := by
  have hnot {ds : List Char} {c : Char} (h : (ds.dropWhile isBlank).head? = some c) :
      isBlank c = false := by
    have hhead := List.head?_dropWhile_not isBlank ds
    rw [h] at hhead
    simpa using hhead
  have hend := trimEnd_append_blank (trimStart cs)
  refine ⟨cs.takeWhile isBlank, (trimStart cs).rtakeWhile isBlank, ?_, ?_, ?_, ?_, ?_⟩
  · rw [trim, hend, trimStart, List.takeWhile_append_dropWhile]
  · exact fun c hc => List.mem_takeWhile_imp hc
  · exact fun c hc => List.mem_rtakeWhile_imp hc
  · intro c hc
    have hhead : (trimStart cs).head? = some c := by
      rw [← hend, List.head?_append, ← trim, Option.mem_def.mp hc]
      rfl
    exact hnot hhead
  · intro c hc
    rw [trim, trimEnd, List.getLast?_reverse] at hc
    exact hnot hc

theorem trim_eq_nil_iff : trim cs = [] ↔ ∀ c ∈ cs, isBlank c = true := by
  constructor
  · intro h c hc
    by_contra hblank
    exact trim_ne_nil hc (by simpa using hblank) h
  · intro h
    have htrim : trim (cs ++ ([] ++ [])) = [] := trim_append h (by simp) (by simp) (by simp)
    simpa using htrim

theorem isBlankText_iff {s : String} : isBlankText s = true ↔ trim s.toList = [] := by
  rw [isBlankText, List.all_eq_true, trim_eq_nil_iff]

theorem trim_append_blank (h : ∀ c ∈ back, isBlank c = true) : trim (cs ++ back) = trim cs := by
  obtain ⟨front, rest, hcs, hfront, hrest, hhead, hlast⟩ := exists_trim cs
  conv_lhs => rw [hcs]
  rw [List.append_assoc, List.append_assoc]
  refine trim_append hfront (fun c hc => ?_) hhead hlast
  exact (List.mem_append.mp hc).elim (hrest c) (h c)

/-- Around a character that is no white space, each side is trimmed at its own end. -/
theorem trim_append_cons {c : Char} (h : isBlank c = false) (front back : List Char) :
    trim (front ++ c :: back) = trimStart front ++ c :: trimEnd back := by
  have hstart : trimStart (front ++ c :: back) = trimStart front ++ c :: back := by
    rw [trimStart, List.dropWhile_append]
    split
    · rename_i hnil
      rw [List.isEmpty_iff] at hnil
      rw [trimStart, hnil, List.dropWhile_cons_of_neg (by simp [h])]
      rfl
    · rfl
  have hend : trimEnd (trimStart front ++ c :: back) = trimStart front ++ c :: trimEnd back := by
    rw [trimEnd, List.reverse_append, List.reverse_cons, List.append_assoc, List.dropWhile_append]
    split
    · rename_i hnil
      rw [List.isEmpty_iff] at hnil
      rw [trimEnd, hnil, List.singleton_append, List.dropWhile_cons_of_neg (by simp [h])]
      simp
    · rw [trimEnd]
      simp
  rw [trim, hstart, hend]

theorem trim_trimStart (cs : List Char) : trim (trimStart cs) = trim cs :=
  congrArg trimEnd (List.dropWhile_idempotent isBlank cs)

theorem trim_trimEnd (cs : List Char) : trim (trimEnd cs) = trim cs := by
  have hblank : ∀ c ∈ cs.rtakeWhile isBlank, isBlank c = true := fun c hc =>
    List.mem_rtakeWhile_imp hc
  conv_rhs => rw [← trimEnd_append_blank cs, trim_append_blank hblank]

end LanguageClient.Text
