import LanguageClient.Proofs.Documents.Lines
import LanguageClient.Proofs.Documents.Mirror

namespace LanguageClient

/-- Nothing in the line ends it. -/
structure Unbroken (line : List Char) : Prop where
  carriage : '\r' ∉ line
  feed : '\n' ∉ line

/-- The text is cut into these lines: at a carriage return and a line feed together, at any other
line feed and at any other carriage return. The last line is what is left. -/
inductive CutsInto : List Char → List (List Char) → Prop
  | last {line : List Char} : Unbroken line → CutsInto line [line]
  | both {line cs : List Char} {lines : List (List Char)} : Unbroken line → CutsInto cs lines →
      CutsInto (line ++ '\r' :: '\n' :: cs) (line :: lines)
  | feed {line cs : List Char} {lines : List (List Char)} : Unbroken line → CutsInto cs lines →
      CutsInto (line ++ '\n' :: cs) (line :: lines)
  | carriage {line cs : List Char} {lines : List (List Char)} : Unbroken line →
      cs.head? ≠ some '\n' → CutsInto cs lines → CutsInto (line ++ '\r' :: cs) (line :: lines)

variable {c : Char} {cs line : List Char} {lines more : List (List Char)}

theorem Unbroken.nil : Unbroken [] :=
  ⟨List.not_mem_nil, List.not_mem_nil⟩

theorem unbroken_cons : Unbroken (c :: line) ↔ c ≠ '\r' ∧ c ≠ '\n' ∧ Unbroken line := by
  constructor
  · rintro ⟨hcarriage, hfeed⟩
    rw [List.mem_cons, not_or] at hcarriage hfeed
    exact ⟨Ne.symm hcarriage.1, Ne.symm hfeed.1, hcarriage.2, hfeed.2⟩
  · rintro ⟨hr, hn, hcarriage, hfeed⟩
    exact ⟨List.not_mem_cons_of_ne_of_not_mem hr.symm hcarriage,
      List.not_mem_cons_of_ne_of_not_mem hn.symm hfeed⟩

theorem textLines_both (cs : List Char) : textLines ('\r' :: '\n' :: cs) = [] :: textLines cs := by
  rw [textLines]

theorem textLines_feed (cs : List Char) : textLines ('\n' :: cs) = [] :: textLines cs := by
  rw [textLines]

theorem textLines_carriage (h : cs.head? ≠ some '\n') :
    textLines ('\r' :: cs) = [] :: textLines cs := by
  rw [textLines]
  rintro rest rfl
  exact h rfl

theorem textLines_cons (hr : c ≠ '\r') (hn : c ≠ '\n') (cs : List Char) :
    textLines (c :: cs) = (textLines cs).modifyHead (c :: ·) := by
  rw [textLines]
  · cases hlines : textLines cs with
    | nil => exact absurd hlines (textLines_ne_nil cs)
    | cons line more => rfl
  · rintro rest rfl
    exact absurd rfl hr
  · exact fun heq => absurd heq hr
  · exact fun heq => absurd heq hn

theorem textLines_append_of_unbroken (h : Unbroken line) (cs : List Char) :
    textLines (line ++ cs) = (textLines cs).modifyHead (line ++ ·) := by
  induction line with
  | nil =>
    rw [List.nil_append]
    cases textLines cs <;> rfl
  | cons c line ih =>
    obtain ⟨hr, hn, hline⟩ := unbroken_cons.mp h
    rw [List.cons_append, textLines_cons hr hn, ih hline]
    cases textLines cs <;> rfl

namespace CutsInto

theorem eq_textLines (h : CutsInto cs lines) : lines = textLines cs := by
  induction h with
  | @last line hline =>
    have hself := textLines_append_of_unbroken hline []
    rw [List.append_nil] at hself
    simp [hself, textLines]
  | both hline _ ih =>
    rw [textLines_append_of_unbroken hline, textLines_both, List.modifyHead_cons, List.append_nil,
      ih]
  | feed hline _ ih =>
    rw [textLines_append_of_unbroken hline, textLines_feed, List.modifyHead_cons, List.append_nil,
      ih]
  | carriage hline hcs _ ih =>
    rw [textLines_append_of_unbroken hline, textLines_carriage hcs, List.modifyHead_cons,
      List.append_nil, ih]

theorem cons (hr : c ≠ '\r') (hn : c ≠ '\n') (h : CutsInto cs (line :: more)) :
    CutsInto (c :: cs) ((c :: line) :: more) := by
  cases h with
  | last hline => exact .last (unbroken_cons.mpr ⟨hr, hn, hline⟩)
  | both hline hrest => exact .both (unbroken_cons.mpr ⟨hr, hn, hline⟩) hrest
  | feed hline hrest => exact .feed (unbroken_cons.mpr ⟨hr, hn, hline⟩) hrest
  | carriage hline hcs hrest => exact .carriage (unbroken_cons.mpr ⟨hr, hn, hline⟩) hcs hrest

theorem of_textLines (cs : List Char) : CutsInto cs (textLines cs) := by
  fun_induction textLines cs with
  | case1 => exact .last .nil
  | case2 rest ih => exact .both .nil ih
  | case3 rest hne ih =>
    refine .carriage .nil ?_ ih
    intro hhead
    obtain ⟨tail, rfl⟩ := List.head?_eq_some_iff.mp hhead
    exact hne tail rfl
  | case4 rest ih => exact .feed .nil ih
  | case5 c rest _ _ _ hlines => exact absurd hlines (textLines_ne_nil rest)
  | case6 c rest h1 h2 h3 line more hlines ih =>
    rw [hlines] at ih
    exact ih.cons (fun heq => h2 heq) (fun heq => h3 heq)

end CutsInto

/-- Where a text does not meet the next one within a line end, the lines at the seam become one. -/
theorem textLines_append {as bs : List Char}
    (h : as.getLast? ≠ some '\r' ∨ bs.head? ≠ some '\n') :
    ∃ front last first back, textLines as = front ++ [last] ∧ textLines bs = first :: back ∧
      textLines (as ++ bs) = front ++ (last ++ first) :: back := by
  -- what is left of the first text ends as it did, unless nothing is left
  have hrest {c : Char} {rest : List Char}
      (h : (c :: rest).getLast? ≠ some '\r' ∨ bs.head? ≠ some '\n') :
      rest.getLast? ≠ some '\r' ∨ bs.head? ≠ some '\n' := by
    cases rest with
    | nil => exact .inl (by simp)
    | cons d rest => simpa using h
  fun_induction textLines as with
  | case1 =>
    obtain ⟨first, back, hbs⟩ := List.exists_cons_of_ne_nil (textLines_ne_nil bs)
    exact ⟨[], [], first, back, rfl, hbs, hbs⟩
  | case2 rest ih =>
    obtain ⟨front, last, first, back, has, hbs, happend⟩ := ih (hrest (hrest h))
    exact ⟨[] :: front, last, first, back, congrArg (List.cons []) has, hbs,
      (textLines_both (rest ++ bs)).trans (congrArg (List.cons []) happend)⟩
  | case3 rest hne ih =>
    obtain ⟨front, last, first, back, has, hbs, happend⟩ := ih (hrest h)
    -- a carriage return at the end is followed by the next text, which begins with no line feed
    have hhead : (rest ++ bs).head? ≠ some '\n' := by
      cases rest with
      | nil => simpa using h
      | cons d rest =>
        rintro heq
        obtain rfl : d = '\n' := by simpa using heq
        exact hne rest rfl
    exact ⟨[] :: front, last, first, back, congrArg (List.cons []) has, hbs,
      (textLines_carriage hhead).trans (congrArg (List.cons []) happend)⟩
  | case4 rest ih =>
    obtain ⟨front, last, first, back, has, hbs, happend⟩ := ih (hrest h)
    exact ⟨[] :: front, last, first, back, congrArg (List.cons []) has, hbs,
      (textLines_feed (rest ++ bs)).trans (congrArg (List.cons []) happend)⟩
  | case5 c rest _ _ _ hlines => exact absurd hlines (textLines_ne_nil rest)
  | case6 c rest h1 h2 h3 line more hlines ih =>
    obtain ⟨front, last, first, back, has, hbs, happend⟩ := ih (hrest h)
    have hcons : textLines (c :: rest ++ bs) = (textLines (rest ++ bs)).modifyHead (c :: ·) :=
      textLines_cons (fun heq => h2 heq) (fun heq => h3 heq) (rest ++ bs)
    rw [hlines] at has
    cases front with
    | nil =>
      obtain ⟨rfl, rfl⟩ := List.cons.inj has
      exact ⟨[], c :: line, first, back, rfl, hbs, by rw [hcons, happend]; rfl⟩
    | cons f front =>
      obtain ⟨rfl, rfl⟩ := List.cons.inj has
      exact ⟨(c :: line) :: front, last, first, back, rfl, hbs, by rw [hcons, happend]; rfl⟩

theorem width16_append (xs ys : List Char) : width16 (xs ++ ys) = width16 xs + width16 ys := by
  induction xs with
  | nil => simp [width16]
  | cons x xs ih =>
    simp only [width16, List.cons_append, List.foldr_cons] at ih ⊢
    omega

theorem lineLengths_append {a b : String}
    (h : a.toList.getLast? ≠ some '\r' ∨ b.toList.head? ≠ some '\n') :
    ∃ ms m n ns, lineLengths a = ms ++ [m] ∧ lineLengths b = n :: ns ∧
      lineLengths (a ++ b) = ms ++ (m + n) :: ns := by
  obtain ⟨front, last, first, back, ha, hb, happend⟩ := textLines_append h
  refine ⟨front.map width16, width16 last, width16 first, back.map width16, ?_, ?_, ?_⟩
  · simp [lineLengths_eq, ha]
  · simp [lineLengths_eq, hb]
  · simp [lineLengths_eq, happend, width16_append]

namespace OpenDocuments

variable {ds ds' : OpenDocuments} {p : Path} {n : Notice} {text : String}

theorem lines_of_change? (h : ds.change? p text = some (n, ds')) :
    ∃ d, ds'.get? p = some d ∧ d.lines = lineLengths text := by
  obtain ⟨d, -, -, rfl⟩ := change?_eq_some h
  exact ⟨_, by rw [get?_set, if_pos rfl], rfl⟩

theorem lines_of_open {uri languageId : String}
    (h : ds.open p uri languageId text = (n, ds')) :
    ∃ d, ds'.get? p = some d ∧ d.lines = lineLengths text := by
  cases hd : ds.get? p with
  | none =>
    rw [open_of_get?_eq_none hd] at h
    obtain ⟨-, rfl⟩ := Prod.mk.inj h
    exact ⟨_, by rw [get?_set, if_pos rfl], rfl⟩
  | some d =>
    have hchange : ds.change? p text = some (n, ds') := by
      simpa [OpenDocuments.open, change?, hd] using h
    exact lines_of_change? hchange

end OpenDocuments

/-- The text was given to the document at this path: it opened the document, or changed it. -/
def OpenDocuments.Given (ds : OpenDocuments) (p : Path) (text : String) (ds' : OpenDocuments) :
    Prop :=
  (∃ uri languageId n, ds.open p uri languageId text = (n, ds')) ∨
    ∃ n, ds.change? p text = some (n, ds')

/-- The one way to cut a text into lines gives the lengths that are kept of it, and the places in
a document that has it. -/
theorem lineLengths_cut (text : String) :
    (∃ lines, CutsInto text.toList lines ∧ (∀ other, CutsInto text.toList other → other = lines) ∧
      lineLengths text = lines.map width16 ∧
      ∀ ds p ds', OpenDocuments.Given ds p text ds' →
        ∃ d, ds'.get? p = some d ∧ ∀ pos : Position, d.holds pos = true ↔
          ∃ line, lines[pos.line.toNat]? = some line ∧ pos.character.toNat ≤ width16 line) ∧
      ∀ more : String, text.toList.getLast? ≠ some '\r' ∨ more.toList.head? ≠ some '\n' →
        ∃ ms m n ns, lineLengths text = ms ++ [m] ∧ lineLengths more = n :: ns ∧
          lineLengths (text ++ more) = ms ++ (m + n) :: ns := by
  constructor
  · refine ⟨textLines text.toList, .of_textLines _, fun _ h => h.eq_textLines, lineLengths_eq text,
      ?_⟩
    rintro ds p ds' (⟨uri, languageId, n, h⟩ | ⟨n, h⟩)
    · obtain ⟨d, hd, hlines⟩ := OpenDocuments.lines_of_open h
      exact ⟨d, hd, OpenDocument.holds_iff hlines⟩
    · obtain ⟨d, hd, hlines⟩ := OpenDocuments.lines_of_change? h
      exact ⟨d, hd, OpenDocument.holds_iff hlines⟩
  · intro more h
    exact lineLengths_append h

theorem lineLengths_cut_carriage :
    (∃ ds', OpenDocuments.Given {} (Path.ofText "/a") "x\r\ny\r" ds' ∧
      ∃ d, ds'.get? (Path.ofText "/a") = some d ∧ d.holds ⟨2, 0⟩ = true) ∧
      ("x\r\ny\r".toList.getLast? ≠ some '\r' ∨ "z".toList.head? ≠ some '\n') ∧
      ∃ ms m n ns, lineLengths "x\r\ny\r" = ms ++ [m] ∧ lineLengths "z" = n :: ns ∧
        lineLengths ("x\r\ny\r" ++ "z") = ms ++ (m + n) :: ns := by
  obtain ⟨⟨lines, -, hunique, -, hholds⟩, happend⟩ := lineLengths_cut "x\r\ny\r"
  have hx : Unbroken ['x'] := ⟨by decide, by decide⟩
  have hy : Unbroken ['y'] := ⟨by decide, by decide⟩
  have hlines : [['x'], ['y'], []] = lines :=
    hunique _ (.both hx (.carriage hy (by decide) (.last .nil)))
  have hgiven : OpenDocuments.Given {} (Path.ofText "/a") "x\r\ny\r"
      (({} : OpenDocuments).open (Path.ofText "/a") "file:///a" "a" "x\r\ny\r").2 :=
    .inl ⟨"file:///a", "a", _, rfl⟩
  obtain ⟨d, hd, hpos⟩ := hholds _ _ _ hgiven
  have hseam : "x\r\ny\r".toList.getLast? ≠ some '\r' ∨ "z".toList.head? ≠ some '\n' :=
    .inr (by decide)
  refine ⟨⟨_, hgiven, d, hd, (hpos _).mpr ⟨[], ?_, by decide⟩⟩, hseam, happend "z" hseam⟩
  rw [← hlines]
  rfl

end LanguageClient
