import LanguageClient.Json.Printer
import LanguageClient.Json.Reader
import Mathlib.Data.List.TakeDrop
import Mathlib.Tactic.Common

namespace LanguageClient

namespace Text

theorem isDigit_of_mem_toDigits {c : Char} {n : Nat} (h : c ∈ Nat.toDigits 10 n) :
    isDigit c = true :=
  Nat.isDigit_of_mem_toDigits (by decide) (by decide) h

theorem head?_toDigits_ne {n : Nat} (h : 0 < n) : (Nat.toDigits 10 n).head? ≠ some '0' := by
  induction n using Nat.base_induction 10 (by decide) with
  | single m hm =>
    rw [Nat.toDigits_of_lt_base hm]
    simpa using Nat.pos_iff_ne_zero.mp h
  | digit m k hk hm ih =>
    rw [← Nat.toDigits_append_toDigits (by decide) hm hk, List.head?_append]
    cases hhead : (Nat.toDigits 10 m).head? with
    | none => simp at hhead
    | some c =>
      rw [hhead] at ih
      exact ih hm

end Text

namespace Json

section Numbers

/-- A whole number that 64 bits hold, with a sign or without. -/
def IsWord (n : Int) : Prop :=
  -0x8000000000000000 ≤ n ∧ n < UInt64.size

instance (n : Int) : Decidable (IsWord n) :=
  inferInstanceAs (Decidable (_ ∧ _))

/-- What follows a number does not go on with it. -/
def EndsNumber (rest : List Char) : Prop :=
  ∀ c ∈ rest.head?, Text.isDigit c = false ∧ c ≠ '.' ∧ c ≠ 'e' ∧ c ≠ 'E'

theorem le_ofDigitChars (ds : List Char) (v : Nat) : v ≤ Nat.ofDigitChars 10 ds v := by
  rw [Nat.ofDigitChars_eq_ofDigitChars_zero]
  have hpow : 0 < 10 ^ ds.length := Nat.pow_pos (by decide)
  exact Nat.le_trans (Nat.le_mul_of_pos_left v hpow) (Nat.le_add_right _ _)

/-- A number that 64 bits hold leaves no digit over. -/
theorem absorb_eq {ds : List Char} {v : Nat} (h : Nat.ofDigitChars 10 ds v < UInt64.size) :
    absorb v ds = (Nat.ofDigitChars 10 ds v, 0) := by
  induction ds generalizing v with
  | nil => rfl
  | cons d ds ih =>
    rw [Nat.ofDigitChars_cons] at h ⊢
    have hfits : 10 * v + Text.digitValue d < UInt64.size :=
      Nat.lt_of_le_of_lt (le_ofDigitChars ds _) h
    rw [absorb]
    exact (if_pos hfits).trans (ih h)

theorem value?_whole (negative : Bool) {n : Nat} (h : n < UInt64.size) :
    NumberText.value? ⟨negative, Nat.toDigits 10 n, none, none⟩ = some (wholeValue negative n) := by
  have habsorb : absorb 0 (Nat.toDigits 10 n) = (n, 0) := by
    have hdigits : Nat.ofDigitChars 10 (Nat.toDigits 10 n) 0 = n := Nat.ofDigitChars_ten_toDigits
    rw [absorb_eq (by rwa [hdigits]), hdigits]
  simp [NumberText.value?, habsorb]

variable {rest : List Char}

theorem span_toDigits (n : Nat) (hrest : EndsNumber rest) :
    (Nat.toDigits 10 n ++ rest).span Text.isDigit = (Nat.toDigits 10 n, rest) := by
  have hdigits : ∀ c ∈ Nat.toDigits 10 n, Text.isDigit c = true :=
    fun c hc => Text.isDigit_of_mem_toDigits hc
  rw [List.span_eq_takeWhile_dropWhile, List.takeWhile_append_of_pos hdigits,
    List.dropWhile_append_of_pos hdigits]
  cases rest with
  | nil => simp
  | cons c rest =>
    have hc : Text.isDigit c = false := (hrest c rfl).1
    simp [hc]

/-- A number is known from its digits, if something else comes behind them. -/
theorem toDigits_append_inj {m n : ℕ} {us vs : List Char} (hu : EndsNumber us)
    (hv : EndsNumber vs) (h : Nat.toDigits 10 m ++ us = Nat.toDigits 10 n ++ vs) :
    m = n ∧ us = vs := by
  have hspan := congrArg (List.span Text.isDigit) h
  rw [span_toDigits m hu, span_toDigits n hv] at hspan
  obtain ⟨hdigits, htail⟩ := Prod.mk.inj hspan
  refine ⟨?_, htail⟩
  calc
    m = Nat.ofDigitChars 10 (Nat.toDigits 10 m) 0 := Nat.ofDigitChars_ten_toDigits.symm
    _ = Nat.ofDigitChars 10 (Nat.toDigits 10 n) 0 := by rw [hdigits]
    _ = n := Nat.ofDigitChars_ten_toDigits

theorem toDigits_ne_zero_cons (n : Nat) (d : Char) (ds : List Char) :
    Nat.toDigits 10 n ≠ '0' :: d :: ds := by
  intro h
  obtain hn | hn := Nat.eq_zero_or_pos n
  · rw [hn, Nat.toDigits_zero] at h
    cases h
  · exact Text.head?_toDigits_ne hn (by rw [h]; rfl)

theorem head?_toDigits_append_ne {c : Char} (hc : Text.isDigit c = false) (n : Nat)
    (cs : List Char) : Nat.toDigits 10 n ++ rest ≠ c :: cs := by
  obtain ⟨d, ds, hds⟩ := List.exists_cons_of_ne_nil (Nat.toDigits_ne_nil (n := n) (b := 10))
  rintro h
  rw [hds] at h
  have hd : d = c := (List.cons.inj h).1
  have hdigit : Text.isDigit d = true := Text.isDigit_of_mem_toDigits (hds ▸ List.mem_cons_self)
  rw [hd, hc] at hdigit
  cases hdigit

theorem number?_toDigits (negative : Bool) (n : Nat) (hrest : EndsNumber rest) :
    number? ((if negative then ['-'] else []) ++ (Nat.toDigits 10 n ++ rest)) =
      (NumberText.value? ⟨negative, Nat.toDigits 10 n, none, none⟩).map (·, rest) := by
  have hspan := span_toDigits n hrest
  unfold number?
  split
  rename_i negative' cs hsign
  have hparts : negative' = negative ∧ cs = Nat.toDigits 10 n ++ rest := by
    cases negative with
    | true => cases hsign; exact ⟨rfl, rfl⟩
    | false =>
      split at hsign
      · rename_i hminus
        exact absurd hminus (head?_toDigits_append_ne rfl n _)
      · cases hsign; exact ⟨rfl, rfl⟩
  obtain ⟨rfl, rfl⟩ := hparts
  simp only [hspan]
  split
  · rename_i hnil
    exact absurd hnil Nat.toDigits_ne_nil
  · rename_i d ds hzero
    exact absurd hzero (toDigits_ne_zero_cons n d ds)
  · cases rest with
    | nil => exact Option.map_eq_bind.symm
    | cons c rest =>
      obtain ⟨-, hpoint, he, hE⟩ := hrest c rfl
      split
      · rename_i hcons
        exact absurd (List.cons.inj hcons).1 hpoint
      · simp only [Option.bind_eq_bind, Option.bind_some, if_neg (not_or.mpr ⟨he, hE⟩)]
        exact Option.map_eq_bind.symm

theorem number?_intText {n : Int} (hn : IsWord n) (hrest : EndsNumber rest) :
    number? (intText n ++ rest) = some (.int n, rest) := by
  obtain ⟨hlow, hhigh⟩ := hn
  cases n with
  | ofNat k =>
    have hk : k < UInt64.size := Int.ofNat_lt.mp hhigh
    have hread := number?_toDigits false k hrest
    rw [value?_whole false hk] at hread
    exact hread
  | negSucc k =>
    have hk : k + 1 ≤ 0x8000000000000000 := by omega
    have hread := number?_toDigits true (k + 1) hrest
    rw [value?_whole true (Nat.lt_of_le_of_lt hk (by decide))] at hread
    have hvalue : wholeValue true (k + 1) = .int (.negSucc k) := by
      have hfits : ¬ (k + 1 = 0 ∨ Nat.pow 2 63 < k + 1) := by
        rw [show Nat.pow 2 63 = 0x8000000000000000 from rfl]
        omega
      unfold wholeValue
      rw [if_neg (by decide), if_neg hfits]
      rfl
    rw [hvalue] at hread
    exact hread

theorem intText_eq_cons (n : Int) :
    ∃ c cs, intText n = c :: cs ∧ (Text.isDigit c = true ∨ c = '-') := by
  cases n with
  | ofNat k =>
    obtain ⟨c, cs, h⟩ := List.exists_cons_of_ne_nil (Nat.toDigits_ne_nil (n := k) (b := 10))
    exact ⟨c, cs, h, .inl (Text.isDigit_of_mem_toDigits (h ▸ List.mem_cons_self))⟩
  | negSucc k => exact ⟨'-', Nat.toDigits 10 (k + 1), rfl, .inr rfl⟩

end Numbers

section Strings

variable {acc : List Char} {rest : List Char}

theorem hex4?_control : ∀ n < 0x20, hex4? '0' '0' (hexDigit (n / 16)) (hexDigit n) = some n := by
  decide

/-- What is written for a character is read as that character. -/
theorem stringRest?_escape (c : Char) :
    stringRest? acc (escape c ++ rest) = stringRest? (c :: acc) rest := by
  unfold escape
  split
  case h_8 =>
    rename_i hquote hslash _ _ _ _ _
    split
    · rename_i hcontrol
      have hn : c.toNat < 0xD800 ∨ 0xDFFF < c.toNat := .inl (by omega)
      show stringRest? acc ('\\' :: 'u' :: '0' :: '0' :: _ :: _ :: rest) = _
      rw [stringRest?, hex4?_control _ hcontrol]
      simp only [if_pos hn, Char.ofNat_toNat]
    · rename_i hplain
      show stringRest? acc (c :: rest) = _
      rw [stringRest?]
      · rw [if_neg (not_or.mpr ⟨hplain, hslash⟩)]
      · exact hquote
      · exact fun _ _ _ _ _ h _ => hslash h
      · exact fun _ _ h _ => hslash h
  all_goals rfl

theorem stringRest?_flatMap_escape (cs : List Char) :
    stringRest? acc (cs.flatMap escape ++ '"' :: rest) =
      some (String.ofList (acc.reverse ++ cs), rest) := by
  induction cs generalizing acc with
  | nil => simp [stringRest?]
  | cons c cs ih =>
    rw [List.flatMap_cons, List.append_assoc, stringRest?_escape, ih]
    simp

theorem stringRest?_quote (s : String) :
    stringRest? [] (s.toList.flatMap escape ++ '"' :: rest) = some (s, rest) := by
  rw [stringRest?_flatMap_escape]
  simp

end Strings

end Json
end LanguageClient
