import LanguageClient.Frame.Header
import LanguageClient.Proofs.Json.Scalar
import LanguageClient.Proofs.Text.Trim
import LanguageClient.Proofs.Text.Utf8

namespace LanguageClient

namespace Text

theorem isBlank_of_isDigit {c : Char} (h : isDigit c = true) : isBlank c = false := by
  have hrange : 0x30 ≤ c.toNat ∧ c.toNat ≤ 0x39 := by
    simpa [isDigit, Char.le_def, UInt32.le_iff_toNat_le] using h
  simp [isBlank]
  omega

theorem natBelow?_toDigits {bound n : Nat} (h : n < bound) :
    natBelow? bound (Nat.toDigits 10 n) = some n := by
  have hdigits : (Nat.toDigits 10 n).all isDigit = true :=
    List.all_eq_true.mpr fun c hc => isDigit_of_mem_toDigits hc
  have hplus (rest : List Char) : Nat.toDigits 10 n ++ [] ≠ '+' :: rest :=
    Json.head?_toDigits_append_ne rfl n rest
  rw [List.append_nil] at hplus
  have hvalue : Nat.ofDigitChars 10 (Nat.toDigits 10 n) 0 = n := Nat.ofDigitChars_ten_toDigits
  unfold natBelow?
  split
  · rename_i hsign
    exact absurd hsign (hplus _)
  · simp [hdigits, hvalue, h]

end Text

namespace Frame

theorem Line.ofBytes_encode (line : List Char) :
    Line.ofBytes (Utf8.encode line) = Line.ofText line := by
  rw [Line.ofBytes, Utf8.decode_encode]

section FirstLine

variable {line rest : Bytes}

theorem firstLine_append (h : lineFeed ∉ line) :
    firstLine (line ++ lineFeed :: rest) = line ++ [lineFeed] := by
  have hline : ∀ b ∈ line, (b != lineFeed) = true := fun b hb =>
    bne_iff_ne.mpr (ne_of_mem_of_not_mem hb h)
  rw [firstLine, List.takeWhile_append_of_pos hline, List.dropWhile_append_of_pos hline]
  simp

theorem afterLine_append (h : lineFeed ∉ line) : afterLine (line ++ lineFeed :: rest) = rest := by
  have hline : ∀ b ∈ line, (b != lineFeed) = true := fun b hb =>
    bne_iff_ne.mpr (ne_of_mem_of_not_mem hb h)
  rw [afterLine, List.dropWhile_append_of_pos hline]
  simp

end FirstLine

theorem lineFeed_not_mem_encode {cs : List Char} (h : '\n' ∉ cs) : lineFeed ∉ Utf8.encode cs := by
  intro hmem
  obtain ⟨c, hc, hb⟩ := List.mem_flatMap.mp hmem
  have hnat : c.toNat = 10 := Utf8.toNat_of_mem_encodeChar hb (by decide)
  have hfeed : c = '\n' := by rw [← Char.ofNat_toNat c, hnat]
  exact h (hfeed ▸ hc)

theorem readHeaders_line {atEnd started : Bool} {length : Option Nat} {line : List Char}
    {rest : Bytes} (h : '\n' ∉ line) :
    readHeaders atEnd started length (Utf8.encode line ++ lineFeed :: rest) =
      match Line.ofText (line ++ ['\n']) with
      | .error fault => .failed fault rest
      | .ok .blank => .complete length rest
      | .ok (.length n) => readHeaders atEnd true (some n) rest
      | .ok .other => readHeaders atEnd true length rest := by
  have hfeed := lineFeed_not_mem_encode h
  have hbytes : Utf8.encode line ++ [lineFeed] = Utf8.encode (line ++ ['\n']) := by
    simp [Utf8.encode, Utf8.encodeChar, lineFeed]
  have hread : Line.ofBytes (firstLine (Utf8.encode line ++ lineFeed :: rest)) =
      Line.ofText (line ++ ['\n']) := by
    rw [firstLine_append hfeed, hbytes, Line.ofBytes_encode]
  cases hline : Line.ofText (line ++ ['\n']) with
  | error fault =>
    rw [readHeaders, dif_neg (by simp), if_neg (by simp), hread, hline, afterLine_append hfeed]
  | ok what =>
    cases what <;>
      rw [readHeaders, dif_neg (by simp), if_neg (by simp), hread, hline, afterLine_append hfeed]

/-- What is written in front of a body: its length, and a blank line. -/
def lengthLine (n : Nat) : List Char :=
  lengthName.toList ++ ':' :: ' ' :: (Nat.toDigits 10 n ++ ['\r'])

theorem Line.ofText_lengthLine {n : Nat} (h : n < UInt64.size) :
    Line.ofText (lengthLine n ++ ['\n']) = .ok (.length n) := by
  have hdigit : ∀ c ∈ Nat.toDigits 10 n, Text.isBlank c = false :=
    fun c hc => Text.isBlank_of_isDigit (Text.isDigit_of_mem_toDigits hc)
  have hhead : ∀ c ∈ (Nat.toDigits 10 n).head?, Text.isBlank c = false :=
    fun c hc => hdigit c (List.mem_of_mem_head? hc)
  have hlast : ∀ c ∈ (Nat.toDigits 10 n).getLast?, Text.isBlank c = false :=
    fun c hc => hdigit c (List.mem_of_getLast? hc)
  have hline : Text.trim (lengthLine n ++ ['\n']) =
      lengthName.toList ++ ':' :: ' ' :: Nat.toDigits 10 n := by
    have hsplit : lengthLine n ++ ['\n'] =
        [] ++ ((lengthName.toList ++ ':' :: ' ' :: Nat.toDigits 10 n) ++ ['\r', '\n']) := by
      simp [lengthLine]
    have hstart : ∀ c ∈ (lengthName.toList ++ ':' :: ' ' :: Nat.toDigits 10 n).head?,
        Text.isBlank c = false := by simp [lengthName, Text.isBlank]
    have hend : ∀ c ∈ (lengthName.toList ++ ':' :: ' ' :: Nat.toDigits 10 n).getLast?,
        Text.isBlank c = false := by
      have hdigits := List.getLast?_eq_some_getLast (Nat.toDigits_ne_nil (n := n) (b := 10))
      simpa [List.getLast?_append, List.getLast?_cons, hdigits] using hlast _ hdigits
    rw [hsplit, Text.trim_append (by simp) (by simp [Text.isBlank]) hstart hend]
  have hvalue : Text.trim (' ' :: Nat.toDigits 10 n) = Nat.toDigits 10 n := by
    have hblank : Text.trim ([' '] ++ (Nat.toDigits 10 n ++ [])) = Nat.toDigits 10 n :=
      Text.trim_append (by simp [Text.isBlank]) (by simp) hhead hlast
    rwa [List.append_nil] at hblank
  have hname : ∀ c ∈ lengthName.toList, (c != ':') = true := by simp [lengthName]
  have hdrop : (lengthName.toList ++ ':' :: ' ' :: Nat.toDigits 10 n).dropWhile (· != ':') =
      ':' :: ' ' :: Nat.toDigits 10 n := by
    rw [List.dropWhile_append_of_pos hname]
    rfl
  have htake : (lengthName.toList ++ ':' :: ' ' :: Nat.toDigits 10 n).takeWhile (· != ':') =
      lengthName.toList := by
    rw [List.takeWhile_append_of_pos hname]
    rfl
  have htrim : Text.trim lengthName.toList = lengthName.toList := by decide
  have hread : Text.natBelow? UInt64.size (Nat.toDigits 10 n) = some n :=
    Text.natBelow?_toDigits h
  simp [Line.ofText, hline, hdrop, htake, htrim, hvalue, hread]

/-- The header in front of a body is read as its length, whatever stands behind it. -/
theorem readHeaders_lengthLine {n : Nat} (h : n < UInt64.size) (atEnd : Bool) (rest : Bytes) :
    readHeaders atEnd false none (Utf8.encode (lengthLine n) ++ lineFeed ::
      (Utf8.encode ['\r'] ++ lineFeed :: rest)) = .complete (some n) rest := by
  have hfeed : '\n' ∉ lengthLine n := by
    have hdigits : '\n' ∉ Nat.toDigits 10 n := fun hmem => by
      have hdigit := Text.isDigit_of_mem_toDigits hmem
      cases hdigit
    have hname : '\n' ∉ lengthName.toList := by decide
    simp [lengthLine, hdigits, hname]
  have hblank : Line.ofText (['\r'] ++ ['\n']) = .ok .blank := rfl
  rw [readHeaders_line hfeed, Line.ofText_lengthLine h]
  simp only []
  rw [readHeaders_line (by decide), hblank]

end Frame
end LanguageClient
