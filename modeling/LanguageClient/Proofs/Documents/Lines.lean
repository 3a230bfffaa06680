import LanguageClient.OpenDocuments
import Mathlib.Tactic.Common

namespace LanguageClient

/-- The pieces between the line ends of a text. A carriage return and a line feed behind it are one
line end. -/
def textLines : List Char → List (List Char)
  | [] => [[]]
  | '\r' :: '\n' :: rest => [] :: textLines rest
  | '\r' :: rest => [] :: textLines rest
  | '\n' :: rest => [] :: textLines rest
  | c :: rest =>
    match textLines rest with
    | [] => [[c]]
    | line :: more => (c :: line) :: more

/-- The length of a line in UTF-16 units. -/
def width16 (line : List Char) : Nat :=
  line.foldr (fun c n => units16 c + n) 0

theorem textLines_ne_nil (cs : List Char) : textLines cs ≠ [] := by
  fun_cases textLines cs <;> simp

theorem modifyHead_zero_add (ns : List Nat) : ns.modifyHead (0 + ·) = ns := by
  cases ns <;> simp

theorem lineLengthsFrom_eq (current : Nat) (cs : List Char) :
    lineLengthsFrom current cs = ((textLines cs).map width16).modifyHead (current + ·) := by
  fun_induction lineLengthsFrom current cs with
  | case1 current => simp [textLines, width16]
  | case2 current rest ih =>
    rw [modifyHead_zero_add] at ih
    simp [textLines, width16, ih]
  | case3 current rest hne ih =>
    rw [modifyHead_zero_add] at ih
    simp [textLines, width16, ih]
  | case4 current rest ih =>
    rw [modifyHead_zero_add] at ih
    simp [textLines, width16, ih]
  | case5 current c rest h1 h2 h3 ih =>
    rw [ih, textLines]
    · cases hlines : textLines rest with
      | nil => exact absurd hlines (textLines_ne_nil rest)
      | cons line more => simp [width16, Nat.add_assoc]
    all_goals assumption

theorem lineLengths_eq (text : String) :
    lineLengths text = (textLines text.toList).map width16 := by
  unfold lineLengths
  rw [lineLengthsFrom_eq]
  cases (textLines text.toList).map width16 with
  | nil => rfl
  | cons n ns => simp

/-- The position lies on a line of the text, or at its end. -/
def Position.Inside (p : Position) (text : String) : Prop :=
  ∃ line, (textLines text.toList)[p.line.toNat]? = some line ∧ p.character.toNat ≤ width16 line

theorem OpenDocument.holds_iff {d : OpenDocument} {text : String} (h : d.lines = lineLengths text)
    (p : Position) : d.holds p = true ↔ p.Inside text := by
  unfold holds Position.Inside
  rw [h, lineLengths_eq, List.getElem?_map]
  cases (textLines text.toList)[p.line.toNat]? with
  | none => simp
  | some line => simp

end LanguageClient
