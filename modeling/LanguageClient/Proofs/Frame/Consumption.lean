import LanguageClient.Proofs.Frame.Grammar

namespace LanguageClient.Frame

/-- The lines up to the first blank one, and that one; all lines, if none of them is blank. -/
def headerLines (bs : Bytes) : List Bytes :=
  if _h : bs = [] then []
  else match Line.ofBytes (firstLine bs) with
    | .ok .blank => [firstLine bs]
    | _ => firstLine bs :: headerLines (afterLine bs)
termination_by bs.length
decreasing_by exact length_afterLine_lt _h

def headerBlock (bs : Bytes) : Bytes :=
  (headerLines bs).flatten

/-- The length that is known behind some lines: the last that one of them gives, if any does. -/
def declaredBy (length : Option Nat) : List Bytes → Option Nat
  | [] => length
  | line :: lines =>
    match Line.ofBytes line with
    | .ok (.length n) => declaredBy (some n) lines
    | _ => declaredBy length lines

/-- The length of the body that the header at the front of a stream declares. -/
def declaredLength (bs : Bytes) : Nat :=
  (declaredBy none (headerLines bs)).getD 0

section Lines

variable {bs : Bytes}

theorem firstLine_append_afterLine (bs : Bytes) : firstLine bs ++ afterLine bs = bs := by
  rw [firstLine, afterLine, List.append_assoc, List.take_append_drop,
    List.takeWhile_append_dropWhile]

theorem firstLine_ne_nil (h : bs ≠ []) : firstLine bs ≠ [] := by
  intro hnil
  have hlt := length_afterLine_lt h
  have hsplit := firstLine_append_afterLine bs
  rw [hnil, List.nil_append] at hsplit
  rw [hsplit] at hlt
  exact Nat.lt_irrefl _ hlt

theorem headerLines_of_blank (h : bs ≠ []) (hblank : Line.ofBytes (firstLine bs) = .ok .blank) :
    headerLines bs = [firstLine bs] := by
  rw [headerLines, dif_neg h, hblank]

theorem headerLines_of_not_blank (h : bs ≠ [])
    (hblank : Line.ofBytes (firstLine bs) ≠ .ok .blank) :
    headerLines bs = firstLine bs :: headerLines (afterLine bs) := by
  rw [headerLines, dif_neg h]
  split
  · rename_i heq
    exact absurd heq hblank
  · rfl

end Lines

/-- What reading the header of a complete input comes to: there is nothing, or some lines are used
up and one of them or the end of the input is at fault, or the header is used up. -/
inductive Headers.Uses (started : Bool) (length : Option Nat) (bs : Bytes) : Headers → Prop
  | ended (nil : bs = []) (fresh : started = false) : Uses started length bs .ended
  | failed {fault : Fault} {rest : Bytes} (front back : List Bytes)
      (lines : headerLines bs = front ++ back) (split : bs = front.flatten ++ rest)
      (used : bs ≠ [] → front.flatten ≠ []) : Uses started length bs (.failed fault rest)
  | complete {declared : Option Nat} {rest : Bytes}
      (lines : declared = declaredBy length (headerLines bs)) (split : bs = headerBlock bs ++ rest)
      (used : headerBlock bs ≠ []) : Uses started length bs (.complete declared rest)

section Header

variable {started : Bool} {length between : Option Nat} {bs : Bytes}

/-- Where reading goes on behind a line, it uses up that line and what it takes of the others. -/
theorem Headers.Uses.behind {r : Headers} (hne : bs ≠ [])
    (hblank : Line.ofBytes (firstLine bs) ≠ .ok .blank)
    (hbetween : ∀ lines, declaredBy length (firstLine bs :: lines) = declaredBy between lines)
    (h : Headers.Uses true between (afterLine bs) r) : Headers.Uses started length bs r := by
  have hlines := headerLines_of_not_blank hne hblank
  have hused (bytes : Bytes) : firstLine bs ++ bytes ≠ [] :=
    List.append_ne_nil_of_left_ne_nil (firstLine_ne_nil hne) bytes
  cases h with
  | ended _ fresh => cases fresh
  | failed front back lines split _ =>
    refine .failed (firstLine bs :: front) back ?_ ?_ fun _ => ?_
    · rw [hlines, lines, List.cons_append]
    · rw [List.flatten_cons, List.append_assoc, ← split, firstLine_append_afterLine]
    · exact hused front.flatten
  | complete lines split _ =>
    have hblock : headerBlock bs = firstLine bs ++ headerBlock (afterLine bs) := by
      rw [headerBlock, hlines, List.flatten_cons, headerBlock]
    refine .complete (by rw [lines, hlines, hbetween]) ?_ (hblock ▸ hused _)
    rw [hblock, List.append_assoc, ← split, firstLine_append_afterLine]

theorem uses_readHeaders (started : Bool) (length : Option Nat) (bs : Bytes) :
    Headers.Uses started length bs (readHeaders true started length bs) := by
  fun_induction readHeaders true started length bs with
  | case1 _ _ hend => cases hend
  | case2 =>
    have hlines : headerLines [] = [] := by rw [headerLines, dif_pos rfl]
    exact .failed [] [] hlines rfl (absurd rfl)
  | case3 started _ _ hstarted => exact .ended rfl (by simpa using hstarted)
  | case4 _ _ _ _ hwait => simp at hwait
  | case5 started length bs hne _ fault hread =>
    have hblank : Line.ofBytes (firstLine bs) ≠ .ok .blank := by simp [hread]
    refine .failed [firstLine bs] (headerLines (afterLine bs)) ?_ ?_ fun _ => ?_
    · rw [headerLines_of_not_blank hne hblank, List.singleton_append]
    · rw [List.flatten_singleton, firstLine_append_afterLine]
    · rw [List.flatten_singleton]
      exact firstLine_ne_nil hne
  -- a blank line completes the header
  | case6 started length bs hne _ hread =>
    have hlines := headerLines_of_blank hne hread
    have hblock : headerBlock bs = firstLine bs := by
      rw [headerBlock, hlines, List.flatten_singleton]
    have hlength : declaredBy length (headerLines bs) = length := by
      rw [hlines, declaredBy, hread]
      rfl
    refine .complete hlength.symm ?_ (hblock ▸ firstLine_ne_nil hne)
    rw [hblock, firstLine_append_afterLine]
  -- the line counts towards what the lines behind it use up, whether or not it gives the length
  | case7 started length bs hne _ n hread ih =>
    refine ih.behind hne (by simp [hread]) fun lines => ?_
    rw [declaredBy, hread]
  | case8 started length bs hne _ hread ih =>
    refine ih.behind hne (by simp [hread]) fun lines => ?_
    rw [declaredBy, hread]

end Header

/-- A fault that is found before any byte of the body is taken. -/
def Fault.SparesBody : Fault → Prop
  | .tooLong _ | .badLength _ => True
  | _ => False

/-- What one reading of a complete input uses up. -/
structure Uses (bs : Bytes) (r : Reading) (used rest : Bytes) : Prop where
  split : bs = used ++ rest
  nonempty : used ≠ []
  bounded : used.length ≤ (headerBlock bs).length + declaredLength bs
  outcome : (∃ v, r = .frame v rest) ∨ ∃ fault, r = .failed fault rest ∧
    (fault.SparesBody → used <+: headerBlock bs)

theorem uses_readBody (n : Nat) (bs : Bytes) : ∃ body rest, bs = body ++ rest ∧ body.length ≤ n ∧
    ((∃ v, readBody true n bs = .frame v rest) ∨ ∃ fault, readBody true n bs = .failed fault rest ∧
      (fault.SparesBody → body = [])) := by
  unfold readBody
  by_cases hlong : maxBody < n
  · rw [if_pos hlong]
    exact ⟨[], bs, rfl, Nat.zero_le n, .inr ⟨.tooLong n, rfl, fun _ => rfl⟩⟩
  rw [if_neg hlong]
  by_cases hshort : bs.length < n
  · rw [if_pos hshort, if_pos rfl]
    exact ⟨bs, [], (List.append_nil bs).symm, hshort.le, .inr ⟨.bodyCutShort, rfl, nofun⟩⟩
  rw [if_neg hshort]
  refine ⟨bs.take n, bs.drop n, (List.take_append_drop n bs).symm, List.length_take_le n bs, ?_⟩
  cases Json.ofBytes? (bs.take n) with
  | some v => exact .inl ⟨v, rfl⟩
  | none => exact .inr ⟨.notJson, rfl, nofun⟩

/-- A reading of a complete input that is not at its end uses something up, and comes to a frame or
a fault. -/
theorem uses_read {bs : Bytes} (h : bs ≠ []) : ∃ used rest, Uses bs (read true bs) used rest := by
  have huses := uses_readHeaders false none bs
  unfold read
  generalize readHeaders true false none bs = headers at huses
  cases huses with
  | ended nil => exact absurd nil h
  | @failed fault rest front back lines split used =>
    -- a line at fault is used up with those before it, and the header goes on behind it
    have hprefix : front.flatten <+: headerBlock bs := by
      rw [headerBlock, lines, List.flatten_append]
      exact List.prefix_append _ _
    refine ⟨front.flatten, rest, split, used h, ?_, .inr ⟨fault, rfl, fun _ => hprefix⟩⟩
    exact Nat.le_add_right_of_le hprefix.length_le
  | @complete declared rest lines split used =>
    cases declared with
    | none =>
      refine ⟨headerBlock bs, rest, split, used, Nat.le_add_right _ _, .inr ⟨.noLength, rfl, ?_⟩⟩
      exact fun _ => List.prefix_rfl
    | some n =>
      have hdeclared : declaredLength bs = n := by rw [declaredLength, ← lines, Option.getD_some]
      obtain ⟨body, left, hrest, hle, hread⟩ := uses_readBody n rest
      refine ⟨headerBlock bs ++ body, left, ?_, List.append_ne_nil_of_left_ne_nil used body, ?_, ?_⟩
      · rw [List.append_assoc, ← hrest]
        exact split
      · rw [List.length_append, hdeclared]
        exact Nat.add_le_add_left hle _
      · refine hread.imp_right ?_
        rintro ⟨fault, hfault, hspares⟩
        refine ⟨fault, hfault, fun hspared => ?_⟩
        have hheader : headerBlock bs ++ body = headerBlock bs := by
          rw [hspares hspared, List.append_nil]
        exact hheader.symm ▸ List.prefix_refl (headerBlock bs)

def Reading.rest? : Reading → Option Bytes
  | .frame _ rest | .failed _ rest => some rest
  | .waiting | .ended => none

theorem Uses.rest?_eq {bs used rest : Bytes} {r : Reading} (h : Uses bs r used rest) :
    r.rest? = some rest := by
  obtain ⟨v, rfl⟩ | ⟨fault, rfl, -⟩ := h.outcome <;> rfl

theorem read_eq_ended_iff {bs : Bytes} : read true bs = .ended ↔ bs = [] := by
  constructor
  · intro hended
    by_contra h
    obtain ⟨used, rest, huses⟩ := uses_read h
    have hrest := huses.rest?_eq
    rw [hended] at hrest
    cases hrest
  · rintro rfl
    exact read_nil

theorem suffix_of_read {bs rest : Bytes} (h : (read true bs).rest? = some rest) :
    rest <:+ bs ∧ rest.length < bs.length := by
  have hne : bs ≠ [] := by
    rintro rfl
    rw [read_nil] at h
    cases h
  obtain ⟨used, left, huses⟩ := uses_read hne
  obtain rfl : left = rest := Option.some.inj (huses.rest?_eq.symm.trans h)
  refine ⟨⟨used, huses.split.symm⟩, ?_⟩
  have hlength := congrArg List.length huses.split
  have hpos := List.length_pos_iff.mpr huses.nonempty
  rw [List.length_append] at hlength
  omega

/-- Reading on and on from the front of a stream, past faults too, comes to stand at `stop`. -/
inductive Reaches (bs : Bytes) : Bytes → Prop
  | start : Reaches bs bs
  | next {stop rest : Bytes} (before : Reaches bs stop)
      (read : (read true stop).rest? = some rest) : Reaches bs rest

theorem Reaches.suffix {bs stop : Bytes} (h : Reaches bs stop) : stop <:+ bs := by
  induction h with
  | start => exact List.suffix_rfl
  | next _ read ih => exact (suffix_of_read read).1.trans ih

/-- Reading on and on comes to the clean end. -/
theorem readAll_eq_append {limit : Nat} {bs : Bytes} (h : bs.length < limit) :
    ∃ outcomes, outcomes.length ≤ bs.length ∧ .ok none ∉ outcomes ∧
      readAll limit bs = outcomes ++ [.ok none] := by
  induction limit generalizing bs with
  | zero => exact absurd h (Nat.not_lt_zero _)
  | succ limit ih =>
    by_cases hnil : bs = []
    · subst hnil
      exact ⟨[], Nat.le_refl 0, by simp, by rw [readAll, read_nil]; rfl⟩
    obtain ⟨used, rest, huses⟩ := uses_read hnil
    have hlt : rest.length < bs.length := (suffix_of_read huses.rest?_eq).2
    have hlimit : rest.length < limit := Nat.lt_of_lt_of_le hlt (Nat.le_of_lt_succ h)
    obtain ⟨outcomes, hlength, hclean, hall⟩ := ih hlimit
    have hcount : outcomes.length + 1 ≤ bs.length := Nat.lt_of_le_of_lt hlength hlt
    obtain ⟨v, hread⟩ | ⟨fault, hread, -⟩ := huses.outcome
    · refine ⟨.ok (some v) :: outcomes, hcount, by simpa using hclean, ?_⟩
      rw [readAll, hread, List.cons_append, ← hall]
    · refine ⟨.error fault :: outcomes, hcount, by simpa using hclean, ?_⟩
      rw [readAll, hread, List.cons_append, ← hall]

/-- Wherever a reader of a byte string stands, a reading is the clean end exactly if there is nothing
left. Any other reading, a frame or a fault, uses up at least one byte from the front of what is
left, and no more than the header there and the length that it declares; nothing behind the header
if the length is refused. So the clean end comes after at most one reading for each byte. -/
theorem readAll_ends_within_length (bs : Bytes) :
    (∀ stop, Reaches bs stop → stop <:+ bs ∧ (read true stop = .ended ↔ stop = []) ∧
      (stop ≠ [] → ∃ used rest, stop = used ++ rest ∧ used ≠ [] ∧
        used.length ≤ (headerBlock stop).length + declaredLength stop ∧
        ((∃ v, read true stop = .frame v rest) ∨
          ∃ fault, read true stop = .failed fault rest ∧
            (fault.SparesBody → used <+: headerBlock stop)))) ∧
      ∃ outcomes, outcomes.length ≤ bs.length ∧ .ok none ∉ outcomes ∧
        readAll (bs.length + 1) bs = outcomes ++ [.ok none] := by
  refine ⟨fun stop hstop => ⟨hstop.suffix, read_eq_ended_iff, fun hne => ?_⟩,
    readAll_eq_append (Nat.lt_succ_self _)⟩
  obtain ⟨used, rest, huses⟩ := uses_read hne
  exact ⟨used, rest, huses.split, huses.nonempty, huses.bounded, huses.outcome⟩

/-- A line at fault, and behind it a header that declares too long a body. -/
theorem readAll_ends_within_length_oversized :
    let bs := utf8 "Content-Length: x\nContent-Length: 99999999\n\n[]"
    let stop := utf8 "Content-Length: 99999999\n\n[]"
    Reaches bs stop ∧ stop ≠ [] ∧ maxBody < declaredLength stop ∧
      headerBlock stop = utf8 "Content-Length: 99999999\n\n" ∧
      (∃ used rest, stop = used ++ rest ∧ used ≠ [] ∧
        used.length ≤ (headerBlock stop).length + declaredLength stop ∧
        ((∃ v, read true stop = .frame v rest) ∨
          ∃ fault, read true stop = .failed fault rest ∧
            (fault.SparesBody → used <+: headerBlock stop))) ∧
      ∃ outcomes, outcomes.length ≤ bs.length ∧ .ok none ∉ outcomes ∧
        readAll (bs.length + 1) bs = outcomes ++ [.ok none] := by
  intro bs stop
  have hreaches : Reaches bs stop := .next .start (by decide +kernel)
  have hne : stop ≠ [] := by decide +kernel
  obtain ⟨hreadings, hend⟩ := readAll_ends_within_length bs
  exact ⟨hreaches, hne, by decide +kernel, by decide +kernel,
    (hreadings stop hreaches).2.2 hne, hend⟩

end LanguageClient.Frame
