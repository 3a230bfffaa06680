import LanguageClient.Proofs.Frame.Cut
import LanguageClient.Proofs.Text.Decoding

namespace LanguageClient

namespace Text

variable {cs : List Char}

/-- A decimal number below the bound, at least one digit long; a plus sign may stand in front. -/
def IsNumeral (bound : Nat) (cs : List Char) (n : Nat) : Prop :=
  ∃ digits, (cs = digits ∨ cs = '+' :: digits) ∧ digits ≠ [] ∧
    (∀ c ∈ digits, isDigit c = true) ∧ Nat.ofDigitChars 10 digits 0 = n ∧ n < bound

theorem natBelow?_eq_some_iff {bound n : Nat} :
    natBelow? bound cs = some n ↔ IsNumeral bound cs n := by
  have hread (digits : List Char) :
      (if digits.isEmpty || !digits.all isDigit then none
        else if Nat.ofDigitChars 10 digits 0 < bound then some (Nat.ofDigitChars 10 digits 0)
        else none) = some n ↔
      digits ≠ [] ∧ (∀ c ∈ digits, isDigit c = true) ∧ Nat.ofDigitChars 10 digits 0 = n ∧
        n < bound := by
    by_cases hdigits : digits ≠ [] ∧ ∀ c ∈ digits, isDigit c = true
    · have hguard : (digits.isEmpty || !digits.all isDigit) = false := by
        simpa [List.isEmpty_eq_false_iff] using hdigits
      rw [hguard, if_neg Bool.false_ne_true, Option.ite_none_right_eq_some, Option.some.injEq]
      constructor
      · rintro ⟨hlt, rfl⟩
        exact ⟨hdigits.1, hdigits.2, rfl, hlt⟩
      · rintro ⟨-, -, rfl, hlt⟩
        exact ⟨hlt, rfl⟩
    · have hguard : (digits.isEmpty || !digits.all isDigit) = true := by
        by_contra hguard
        exact hdigits (by simpa [List.isEmpty_eq_false_iff] using hguard)
      rw [hguard, if_pos rfl]
      exact ⟨fun h => (by cases h), fun h => absurd ⟨h.1, h.2.1⟩ hdigits⟩
  unfold natBelow? IsNumeral
  split
  · rename_i rest
    refine (hread rest).trans ⟨fun h => ⟨rest, .inr rfl, h⟩, ?_⟩
    rintro ⟨digits, rfl | hplus, h⟩
    -- a plus sign is no digit, so it is not read as one
    · have hsign : isDigit '+' = true := h.2.1 '+' List.mem_cons_self
      cases hsign
    · obtain rfl := List.tail_eq_of_cons_eq hplus
      exact h
  · rename_i hplus
    refine (hread cs).trans ⟨fun h => ⟨cs, .inl rfl, h⟩, ?_⟩
    rintro ⟨digits, rfl | hsign, h⟩
    · exact h
    · exact absurd hsign (hplus digits)

end Text

namespace Frame

namespace Line

/-- In front of its first colon the line has the name of the length, in capitals or small letters;
behind it stands the value. -/
def GivesLength (line value : List Char) : Prop :=
  ∃ name, line = name ++ ':' :: value ∧ ':' ∉ name ∧
    (Text.trim name).map Text.lowerChar = lengthName.toList.map Text.lowerChar

variable {line name value : List Char}

theorem ofText_of_trim {line line' : List Char} (h : Text.trim line = Text.trim line') :
    ofText line = ofText line' := by
  simp only [ofText, h]

theorem ofText_of_blank (h : ∀ c ∈ line, Text.isBlank c = true) : ofText line = .ok .blank := by
  simp [ofText, Text.trim_eq_nil_iff.mpr h]

theorem ofText_of_not_mem (hblank : ∃ c ∈ line, Text.isBlank c = false) (h : ':' ∉ line) :
    ofText line = .ok .other := by
  obtain ⟨c, hc, hfilled⟩ := hblank
  have htrim := Text.trim_ne_nil hc hfilled
  have hcolon : ∀ d ∈ Text.trim line, (d != ':') = true := by
    obtain ⟨front, back, hline, -⟩ := Text.exists_trim line
    intro d hd
    refine bne_iff_ne.mpr ?_
    rintro rfl
    exact h (hline ▸ List.mem_append_right front (List.mem_append_left back hd))
  simp [ofText, htrim, List.dropWhile_eq_nil_iff.mpr hcolon]

theorem takeWhile_colon (h : ':' ∉ name) (value : List Char) :
    (name ++ ':' :: value).takeWhile (· != ':') = name := by
  rw [List.takeWhile_append_of_pos fun c hc => bne_iff_ne.mpr (ne_of_mem_of_not_mem hc h)]
  simp

theorem dropWhile_colon (h : ':' ∉ name) (value : List Char) :
    (name ++ ':' :: value).dropWhile (· != ':') = ':' :: value := by
  rw [List.dropWhile_append_of_pos fun c hc => bne_iff_ne.mpr (ne_of_mem_of_not_mem hc h)]
  simp

theorem ofText_of_colon (h : ':' ∉ name) : ofText (name ++ ':' :: value) =
    if (Text.trim name).map Text.lowerChar = lengthName.toList.map Text.lowerChar then
      match Text.natBelow? UInt64.size (Text.trim value) with
      | some n => .ok (.length n)
      | none => .error (.badLength (String.ofList (Text.trim value)))
    else .ok .other := by
  have htrim : Text.trim (name ++ ':' :: value) =
      Text.trimStart name ++ ':' :: Text.trimEnd value := Text.trim_append_cons rfl name value
  have hname : ':' ∉ Text.trimStart name := fun hc => h (List.dropWhile_subset _ hc)
  unfold ofText
  simp only [htrim, takeWhile_colon hname, dropWhile_colon hname, Text.trim_trimStart,
    Text.trim_trimEnd]
  rw [if_neg (by simp)]
  by_cases hlength : (Text.trim name).map Text.lowerChar = lengthName.toList.map Text.lowerChar
  · cases Text.natBelow? UInt64.size (Text.trim value) <;> simp [hlength]
  · simp [hlength]

theorem not_mem_or_colon (line : List Char) :
    ':' ∉ line ∨ ∃ name value, line = name ++ ':' :: value ∧ ':' ∉ name := by
  by_cases h : ':' ∈ line
  · obtain ⟨name, value, hline, hname⟩ := List.eq_append_cons_of_mem h
    exact .inr ⟨name, value, hline, hname⟩
  · exact .inl h

theorem givesLength_colon_iff {value' : List Char} (h : ':' ∉ name) :
    GivesLength (name ++ ':' :: value) value' ↔
      value' = value ∧ (Text.trim name).map Text.lowerChar = lengthName.toList.map Text.lowerChar := by
  constructor
  · rintro ⟨name', hline, hname', hlength⟩
    obtain rfl : name = name' := by
      rw [← takeWhile_colon h value, hline, takeWhile_colon hname' value']
    obtain rfl := List.tail_eq_of_cons_eq (List.append_cancel_left hline)
    exact ⟨rfl, hlength⟩
  · rintro ⟨rfl, hlength⟩
    exact ⟨name, rfl, h, hlength⟩

theorem ofText_eq_length_iff {n : Nat} : ofText line = .ok (.length n) ↔
    ∃ value, GivesLength line value ∧ Text.IsNumeral UInt64.size (Text.trim value) n := by
  obtain hcolon | ⟨name, value, rfl, hname⟩ := not_mem_or_colon line
  · constructor
    · intro h
      by_cases hblank : ∀ c ∈ line, Text.isBlank c = true
      · rw [ofText_of_blank hblank] at h
        cases h
      · rw [ofText_of_not_mem (by simpa using hblank) hcolon] at h
        cases h
    · rintro ⟨value, ⟨name, rfl, -⟩, -⟩
      simp at hcolon
  · rw [ofText_of_colon hname]
    simp only [givesLength_colon_iff hname, ← Text.natBelow?_eq_some_iff]
    constructor
    · intro h
      split at h
      · rename_i hlength
        refine ⟨value, ⟨rfl, hlength⟩, ?_⟩
        split at h <;> cases h
        assumption
      · cases h
    · rintro ⟨_, ⟨rfl, hlength⟩, hnumber⟩
      rw [if_pos hlength, hnumber]

theorem ofText_eq_other_iff : ofText line = .ok .other ↔
    (∃ c ∈ line, Text.isBlank c = false) ∧ ∀ value, ¬ GivesLength line value := by
  obtain hcolon | ⟨name, value, rfl, hname⟩ := not_mem_or_colon line
  · have hgives : ∀ value, ¬ GivesLength line value := by
      rintro value ⟨name, rfl, -⟩
      simp at hcolon
    by_cases hblank : ∀ c ∈ line, Text.isBlank c = true
    · rw [ofText_of_blank hblank]
      refine ⟨fun h => (by cases h), fun h => ?_⟩
      obtain ⟨⟨c, hc, hfilled⟩, -⟩ := h
      rw [hblank c hc] at hfilled
      cases hfilled
    · have hfilled : ∃ c ∈ line, Text.isBlank c = false := by simpa using hblank
      exact ⟨fun _ => ⟨hfilled, hgives⟩, fun _ => ofText_of_not_mem hfilled hcolon⟩
  · have hfilled : ∃ c ∈ name ++ ':' :: value, Text.isBlank c = false := ⟨':', by simp, rfl⟩
    rw [ofText_of_colon hname]
    simp only [givesLength_colon_iff hname]
    constructor
    · intro h
      refine ⟨hfilled, fun _ ⟨_, hlength⟩ => ?_⟩
      rw [if_pos hlength] at h
      split at h <;> cases h
    · rintro ⟨-, hgives⟩
      rw [if_neg fun hlength => hgives value ⟨rfl, hlength⟩]

theorem ofText_eq_blank_iff : ofText line = .ok .blank ↔ ∀ c ∈ line, Text.isBlank c = true := by
  refine ⟨fun h => ?_, ofText_of_blank⟩
  by_contra hblank
  have hfilled : ∃ c ∈ line, Text.isBlank c = false := by simpa using hblank
  obtain hcolon | ⟨name, value, rfl, hname⟩ := not_mem_or_colon line
  · rw [ofText_of_not_mem hfilled hcolon] at h
    cases h
  · rw [ofText_of_colon hname] at h
    split at h
    · split at h <;> cases h
    · cases h

end Line

/-- A header line as it is sent: its text, and a line feed. -/
def lineBytes (line : List Char) : Bytes :=
  Utf8.encode line ++ [lineFeed]

/-- Lines that are read one behind the other, and the length that is known before and after. -/
inductive Listed : Option Nat → List (List Char) → Option Nat → Prop
  | nil {length : Option Nat} : Listed length [] length
  | length {before after : Option Nat} {n : Nat} {line : List Char} {lines : List (List Char)}
      (told : Line.ofText line = .ok (.length n)) (rest : Listed (some n) lines after) :
      Listed before (line :: lines) after
  | other {before after : Option Nat} {line : List Char} {lines : List (List Char)}
      (told : Line.ofText line = .ok .other) (rest : Listed before lines after) :
      Listed before (line :: lines) after

/-- The lines of a header, none of them blank. Whatever bears the name of the length has a number for
its value, and `n` is the last of these. -/
structure IsHeader (lines : List (List Char)) (n : Nat) : Prop where
  filled : ∀ line ∈ lines, ∃ c ∈ line, Text.isBlank c = false
  numbers : ∀ line ∈ lines, ∀ value, Line.GivesLength line value →
    ∃ m, Text.IsNumeral UInt64.size (Text.trim value) m
  last : ∃ front line back value, lines = front ++ line :: back ∧ Line.GivesLength line value ∧
    Text.IsNumeral UInt64.size (Text.trim value) n ∧
    ∀ line ∈ back, ∀ value, ¬ Line.GivesLength line value

namespace Listed

variable {before after : Option Nat} {lines back : List (List Char)}

theorem append {between : Option Nat} (h : Listed before lines between)
    (hback : Listed between back after) : Listed before (lines ++ back) after := by
  induction h with
  | nil => exact hback
  | length told _ ih => exact .length told (ih hback)
  | other told _ ih => exact .other told (ih hback)

theorem of_readable (before : Option Nat)
    (hfilled : ∀ line ∈ lines, ∃ c ∈ line, Text.isBlank c = false)
    (hnumbers : ∀ line ∈ lines, ∀ value, Line.GivesLength line value →
      ∃ m, Text.IsNumeral UInt64.size (Text.trim value) m) :
    ∃ after, Listed before lines after := by
  induction lines generalizing before with
  | nil => exact ⟨before, .nil⟩
  | cons line lines ih =>
    obtain ⟨hline, hlines⟩ := List.forall_mem_cons.mp hfilled
    obtain ⟨hnumber, hnumbers⟩ := List.forall_mem_cons.mp hnumbers
    by_cases hgives : ∃ value, Line.GivesLength line value
    · obtain ⟨value, hvalue⟩ := hgives
      obtain ⟨m, hm⟩ := hnumber value hvalue
      obtain ⟨after, hafter⟩ := ih (some m) hlines hnumbers
      exact ⟨after, .length (Line.ofText_eq_length_iff.mpr ⟨value, hvalue, hm⟩) hafter⟩
    · obtain ⟨after, hafter⟩ := ih before hlines hnumbers
      refine ⟨after, .other (Line.ofText_eq_other_iff.mpr ⟨hline, ?_⟩) hafter⟩
      exact fun value hvalue => hgives ⟨value, hvalue⟩

theorem of_others (before : Option Nat)
    (hfilled : ∀ line ∈ lines, ∃ c ∈ line, Text.isBlank c = false)
    (hgives : ∀ line ∈ lines, ∀ value, ¬ Line.GivesLength line value) :
    Listed before lines before := by
  induction lines with
  | nil => exact .nil
  | cons line lines ih =>
    obtain ⟨hline, hlines⟩ := List.forall_mem_cons.mp hfilled
    obtain ⟨hnone, hnones⟩ := List.forall_mem_cons.mp hgives
    exact .other (Line.ofText_eq_other_iff.mpr ⟨hline, hnone⟩) (ih hlines hnones)

theorem of_isHeader {n : Nat} (h : IsHeader lines n) : Listed before lines (some n) := by
  obtain ⟨front, line, back, value, rfl, hvalue, hn, hback⟩ := h.last
  obtain ⟨between, hfront⟩ : ∃ between, Listed before front between :=
    of_readable before (fun l hl => h.filled l (List.mem_append_left _ hl))
      fun l hl => h.numbers l (List.mem_append_left _ hl)
  refine hfront.append (.length (Line.ofText_eq_length_iff.mpr ⟨value, hvalue, hn⟩) ?_)
  exact of_others _
    (fun l hl => h.filled l (List.mem_append_right _ (List.mem_cons_of_mem _ hl))) hback

theorem readable (h : Listed before lines after) :
    (∀ line ∈ lines, ∃ c ∈ line, Text.isBlank c = false) ∧
      ∀ line ∈ lines, ∀ value, Line.GivesLength line value →
        ∃ m, Text.IsNumeral UInt64.size (Text.trim value) m := by
  induction h with
  | nil => simp
  | @length _ _ n line _ told _ ih =>
    obtain ⟨value, hvalue, hn⟩ := Line.ofText_eq_length_iff.mp told
    have hfilled : ∃ c ∈ line, Text.isBlank c = false := by
      by_contra hblank
      rw [Line.ofText_of_blank (by simpa using hblank)] at told
      cases told
    refine ⟨List.forall_mem_cons.mpr ⟨hfilled, ih.1⟩, List.forall_mem_cons.mpr ⟨?_, ih.2⟩⟩
    obtain ⟨name, rfl, hname, hlength⟩ := hvalue
    intro value' hvalue'
    obtain ⟨rfl, -⟩ := (Line.givesLength_colon_iff hname).mp hvalue'
    exact ⟨n, hn⟩
  | other told _ ih =>
    obtain ⟨hfilled, hgives⟩ := Line.ofText_eq_other_iff.mp told
    exact ⟨List.forall_mem_cons.mpr ⟨hfilled, ih.1⟩,
      List.forall_mem_cons.mpr ⟨fun value hvalue => absurd hvalue (hgives value), ih.2⟩⟩

/-- The length that is known at last was known before, or comes from the last line that gives one. -/
theorem last {n : Nat} (h : Listed before lines (some n)) :
    (before = some n ∧ ∀ line ∈ lines, ∀ value, ¬ Line.GivesLength line value) ∨
      ∃ front line back value, lines = front ++ line :: back ∧ Line.GivesLength line value ∧
        Text.IsNumeral UInt64.size (Text.trim value) n ∧
        ∀ line ∈ back, ∀ value, ¬ Line.GivesLength line value := by
  generalize hafter : some n = after at h
  induction h with
  | nil => exact .inl ⟨rfl, by simp⟩
  | @length _ _ m line lines told _ ih =>
    obtain ⟨hsame, hnone⟩ | ⟨front, line', back, value, rfl, hlast⟩ := ih hafter
    · obtain rfl := Option.some.inj (hsame.trans hafter.symm)
      obtain ⟨value, hvalue, hm⟩ := Line.ofText_eq_length_iff.mp told
      exact .inr ⟨[], line, lines, value, rfl, hvalue, hm, hnone⟩
    · exact .inr ⟨line :: front, line', back, value, rfl, hlast⟩
  | @other _ _ line lines told _ ih =>
    obtain ⟨hsame, hnone⟩ | ⟨front, line', back, value, rfl, hlast⟩ := ih hafter
    · exact .inl ⟨hsame, List.forall_mem_cons.mpr ⟨(Line.ofText_eq_other_iff.mp told).2, hnone⟩⟩
    · exact .inr ⟨line :: front, line', back, value, rfl, hlast⟩

end Listed

theorem listed_iff_isHeader {lines : List (List Char)} {n : Nat} :
    Listed none lines (some n) ↔ IsHeader lines n := by
  refine ⟨fun h => ?_, .of_isHeader⟩
  obtain ⟨hsame, -⟩ | hlast := h.last
  · cases hsame
  · exact ⟨h.readable.1, h.readable.2, hlast⟩

section Lines

variable {line : List Char} {bs : Bytes}

theorem not_mem_lineFeed_iff : lineFeed ∉ Utf8.encode line ↔ '\n' ∉ line := by
  refine ⟨fun h hmem => h ?_, lineFeed_not_mem_encode⟩
  exact List.mem_flatMap.mpr ⟨'\n', hmem, by simp [Utf8.encodeChar, lineFeed]⟩

theorem exists_line_of_decode {front : Bytes} {text : List Char} (hfeed : lineFeed ∉ front)
    (h : Utf8.decode (front ++ [lineFeed]) = .ok text) :
    ∃ line, text = line ++ ['\n'] ∧ front = Utf8.encode line ∧ '\n' ∉ line := by
  have hbytes := Utf8.decode_eq_ok_iff.mp h
  obtain rfl | ⟨line, c, rfl⟩ := text.eq_nil_or_concat
  · simp [Utf8.encode] at hbytes
  rw [List.concat_eq_append, Utf8.encode_append, Utf8.encode_singleton] at hbytes
  have hmem : lineFeed ∈ Utf8.encodeChar c := by
    have hlast : (Utf8.encodeChar c).getLast? = some lineFeed := by
      rw [← List.getLast?_append_of_ne_nil (Utf8.encode line) (Utf8.encodeChar_ne_nil c), ← hbytes,
        List.getLast?_concat]
    exact List.mem_of_getLast? hlast
  -- no byte of a longer character is a line feed
  have hc : c = '\n' := by
    have hnat : c.toNat = 10 := Utf8.toNat_of_mem_encodeChar hmem (by decide)
    rw [← Char.ofNat_toNat c, hnat]
  subst hc
  have hfront : front = Utf8.encode line := List.append_cancel_right hbytes
  exact ⟨line, List.concat_eq_append, hfront, not_mem_lineFeed_iff.mp (hfront ▸ hfeed)⟩

theorem ofText_append_lineFeed (line : List Char) :
    Line.ofText (line ++ ['\n']) = Line.ofText line :=
  Line.ofText_of_trim (Text.trim_append_blank (by simp [Text.isBlank]))

theorem firstLine_cases (bs : Bytes) :
    (∃ front, lineFeed ∉ front ∧ bs = front ++ lineFeed :: afterLine bs ∧
      firstLine bs = front ++ [lineFeed]) ∨
      lineFeed ∉ bs ∧ firstLine bs = bs ∧ afterLine bs = [] := by
  by_cases h : lineFeed ∈ bs
  · obtain ⟨front, rest, rfl, hfront⟩ := List.eq_append_cons_of_mem h
    refine .inl ⟨front, hfront, ?_, firstLine_append hfront⟩
    rw [afterLine_append hfront]
  · have hall : ∀ b ∈ bs, (b != lineFeed) = true := fun b hb =>
      bne_iff_ne.mpr (ne_of_mem_of_not_mem hb h)
    have hdrop := List.dropWhile_eq_nil_iff.mpr hall
    refine .inr ⟨h, ?_, ?_⟩
    · rw [firstLine, hdrop, List.takeWhile_eq_self_iff.mpr hall]
      simp
    · rw [afterLine, hdrop]
      rfl

theorem exists_line_of_ofBytes {what : Line} (h : Line.ofBytes (firstLine bs) = .ok what) :
    (∃ line, '\n' ∉ line ∧ Line.ofText line = .ok what ∧
      bs = lineBytes line ++ afterLine bs) ∨ afterLine bs = [] := by
  obtain ⟨front, hfeed, hbs, hfirst⟩ | ⟨-, -, hafter⟩ := firstLine_cases bs
  · left
    rw [hfirst, Line.ofBytes] at h
    split at h
    · rename_i text hdecode
      obtain ⟨line, rfl, rfl, hline⟩ := exists_line_of_decode hfeed hdecode
      refine ⟨line, hline, by rwa [ofText_append_lineFeed] at h, ?_⟩
      rw [lineBytes, List.append_assoc, List.singleton_append]
      exact hbs
    · cases h
  · exact .inr hafter

end Lines

/-- The bytes begin with lines that are read one behind the other, and a blank line. -/
def Headed (before after : Option Nat) (bs rest : Bytes) : Prop :=
  ∃ lines blank, bs = lines.flatMap lineBytes ++ (lineBytes blank ++ rest) ∧
    Listed before lines after ∧ (∀ line ∈ lines, '\n' ∉ line) ∧
    (∀ c ∈ blank, Text.isBlank c = true) ∧ '\n' ∉ blank

section Headers

variable {atEnd started : Bool} {before between after : Option Nat} {bs rest : Bytes}

theorem Headed.readHeaders (h : Headed before after bs rest) :
    Frame.readHeaders atEnd started before bs = .complete after rest := by
  obtain ⟨lines, blank, rfl, hlisted, hlines, hblank, hfeed⟩ := h
  have hline {line : List Char} {bs : Bytes} :
      lineBytes line ++ bs = Utf8.encode line ++ lineFeed :: bs := by
    simp [lineBytes]
  induction hlisted generalizing started with
  | nil =>
    rw [List.flatMap_nil, List.nil_append, hline, readHeaders_line hfeed, ofText_append_lineFeed,
      Line.ofText_of_blank hblank]
  | length told _ ih | other told _ ih =>
    obtain ⟨hfirst, hlines⟩ := List.forall_mem_cons.mp hlines
    rw [List.flatMap_cons, List.append_assoc, hline, readHeaders_line hfirst,
      ofText_append_lineFeed, told]
    exact ih hlines

theorem readHeaders_nil_ne_complete :
    readHeaders atEnd true before [] ≠ .complete after rest := by
  rw [readHeaders]
  cases atEnd <;> simp

theorem Headed.behind {what : Line} (hread : Line.ofBytes (firstLine bs) = .ok what)
    (h : Frame.readHeaders atEnd true between (afterLine bs) = .complete after rest)
    (hrest : Headed between after (afterLine bs) rest ∨ rest = [])
    (hlisted : ∀ line lines, Line.ofText line = .ok what → Listed between lines after →
      Listed before (line :: lines) after) :
    Headed before after bs rest ∨ rest = [] := by
  obtain ⟨line, hfeed, hline, hbs⟩ | hafter := exists_line_of_ofBytes hread
  · refine hrest.imp_left ?_
    rintro ⟨lines, blank, hlines, hlisted', hfeeds, hblank⟩
    refine ⟨line :: lines, blank, ?_, hlisted line lines hline hlisted',
      List.forall_mem_cons.mpr ⟨hfeed, hfeeds⟩, hblank⟩
    rw [List.flatMap_cons, List.append_assoc, ← hlines]
    exact hbs
  · rw [hafter] at h
    exact absurd h readHeaders_nil_ne_complete

/-- A header is complete only behind a blank line, or with the end of the input. -/
theorem headed_of_readHeaders (h : readHeaders atEnd started before bs = .complete after rest) :
    Headed before after bs rest ∨ rest = [] := by
  fun_induction readHeaders atEnd started before bs with
  | case1 | case2 | case3 | case4 | case5 => cases h
  | case6 started before bs hne hfull hread =>
    cases h
    refine (exists_line_of_ofBytes hread).imp_left ?_
    rintro ⟨blank, hfeed, hblank, hbs⟩
    exact ⟨[], blank, hbs, .nil, by simp, Line.ofText_eq_blank_iff.mp hblank, hfeed⟩
  | case7 started before bs hne hfull n hread ih =>
    exact Headed.behind hread h (ih h) fun _ _ hline hlines => .length hline hlines
  | case8 started before bs hne hfull hread ih =>
    exact Headed.behind hread h (ih h) fun _ _ hline hlines => .other hline hlines

end Headers

section Body

variable {atEnd : Bool} {n : Nat} {bs rest : Bytes} {v : Json}

theorem readBody_eq_frame_iff : readBody atEnd n bs = .frame v rest ↔
    n ≤ maxBody ∧ ∃ body, body.length = n ∧ Json.ofBytes? body = some v ∧ bs = body ++ rest := by
  constructor
  · intro h
    unfold readBody at h
    split at h
    · cases h
    · rename_i hfits
      split at h
      · split at h <;> cases h
      · rename_i hlong
        split at h
        · rename_i hbody
          cases h
          refine ⟨Nat.le_of_not_lt hfits, bs.take n, ?_, hbody, (List.take_append_drop n bs).symm⟩
          exact List.length_take_of_le (Nat.le_of_not_lt hlong)
        · cases h
  · rintro ⟨hfits, body, hlength, hbody, rfl⟩
    exact readBody_append hlength hfits hbody rest

theorem readBody_nil_ne_frame : readBody atEnd n [] ≠ .frame v rest := by
  intro h
  obtain ⟨-, body, -, hbody, hnil⟩ := readBody_eq_frame_iff.mp h
  obtain ⟨rfl, -⟩ := List.append_eq_nil_iff.mp hnil.symm
  cases hbody

end Body

/-- A byte string is read as a frame exactly if it consists of the lines of a header, of a blank
line, and of a body as long as the header says that holds the value; the reader then stands at what
follows. Every line ends in a line feed and is text, and only the blank one is all white space.
Whatever line bears the name of the length has a number that fits 64 bits for its value, and the
last of them counts. It makes no difference whether the input is known to be complete. -/
theorem read_eq_frame_iff {atEnd : Bool} {bs rest : Bytes} {v : Json} :
    read atEnd bs = .frame v rest ↔
      ∃ lines blank n body,
        bs = lines.flatMap lineBytes ++ (lineBytes blank ++ (body ++ rest)) ∧
        IsHeader lines n ∧ (∀ line ∈ lines, '\n' ∉ line) ∧
        (∀ c ∈ blank, Text.isBlank c = true) ∧ '\n' ∉ blank ∧
        body.length = n ∧ n ≤ maxBody ∧ Json.ofBytes? body = some v := by
  constructor
  · intro h
    unfold read at h
    split at h
    · cases h
    · cases h
    · cases h
    · cases h
    · rename_i n left hheaders
      obtain ⟨lines, blank, rfl, hlisted, hlines, hblank, hfeed⟩ | rfl :=
        headed_of_readHeaders hheaders
      · obtain ⟨hfits, body, hlength, hbody, rfl⟩ := readBody_eq_frame_iff.mp h
        exact ⟨lines, blank, n, body, rfl, listed_iff_isHeader.mp hlisted, hlines, hblank, hfeed,
          hlength, hfits, hbody⟩
      -- the blank line may end with the input, but then there is no body
      · exact absurd h readBody_nil_ne_frame
  · rintro ⟨lines, blank, n, body, rfl, hheader, hlines, hblank, hfeed, hlength, hfits, hbody⟩
    have hheaded : Headed none (some n) (lines.flatMap lineBytes ++ (lineBytes blank ++
        (body ++ rest))) (body ++ rest) :=
      ⟨lines, blank, rfl, listed_iff_isHeader.mpr hheader, hlines, hblank, hfeed⟩
    rw [read, hheaded.readHeaders]
    exact readBody_append hlength hfits hbody rest

end Frame
end LanguageClient
