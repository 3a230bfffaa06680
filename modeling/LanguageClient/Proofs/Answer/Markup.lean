import LanguageClient.Answer.Hover
import LanguageClient.Proofs.Text.Trim
import Mathlib.Data.List.Basic

namespace LanguageClient

namespace Json

mutual

/-- What stands in an array, from left to right and at any depth. Any other value stands alone. -/
def leaves : Json → List Json
  | .arr items => leavesOf items
  | v => [v]

def leavesOf : List Json → List Json
  | [] => []
  | v :: rest => leaves v ++ leavesOf rest

end

def valueText (v : Json) : String :=
  match v.get? "value" with
  | some (.str s) => s
  | _ => ""

def leafText (v : Json) : String :=
  match v with
  | .str s => s
  | .obj _ =>
    match v.get? "language" with
    | some (.str language) => "```" ++ language ++ "\n" ++ v.valueText ++ "\n```"
    | _ => v.valueText
  | _ => ""

/-- The texts of the leaves that have any. -/
def leafTexts (v : Json) : List String :=
  (v.leaves.map leafText).filter (· ≠ "")

theorem leaves_of_not_array {v : Json} (h : ∀ items, v ≠ .arr items) : v.leaves = [v] := by
  cases v with
  | arr items => exact absurd rfl (h items)
  | null | bool | int | float | str | obj => rfl

theorem leavesOf_eq (items : List Json) : leavesOf items = items.flatMap leaves := by
  induction items with
  | nil => rfl
  | cons v rest ih => rw [leavesOf, ih, List.flatMap_cons]

theorem leafTexts_arr (items : List Json) : leafTexts (.arr items) = items.flatMap leafTexts := by
  unfold leafTexts
  rw [leaves, leavesOf_eq, List.map_flatMap, List.filter_flatMap]

mutual

theorem not_array_of_mem_leaves {v w : Json} (h : w ∈ v.leaves) : ∀ items, w ≠ .arr items := by
  cases v with
  | arr items => exact not_array_of_mem_leavesOf h
  | null | bool | int | float | str | obj =>
    obtain rfl := List.mem_singleton.mp h
    exact nofun

theorem not_array_of_mem_leavesOf {vs : List Json} {w : Json} (h : w ∈ leavesOf vs) :
    ∀ items, w ≠ .arr items := by
  cases vs with
  | nil => cases h
  | cons v rest =>
    obtain h | h := List.mem_append.mp h
    · exact not_array_of_mem_leaves h
    · exact not_array_of_mem_leavesOf h

end

theorem leaves_arr_leaves (v : Json) : (arr v.leaves).leaves = v.leaves := by
  have halone : ∀ w ∈ v.leaves, w.leaves = [w] := fun w hw =>
    leaves_of_not_array (not_array_of_mem_leaves hw)
  calc (arr v.leaves).leaves
    _ = v.leaves.flatMap leaves := leavesOf_eq v.leaves
    _ = v.leaves.flatMap fun w => [w] := List.flatMap_congr halone
    _ = v.leaves := List.flatMap_singleton' v.leaves

end Json

section Joining

/-- Texts under one another with an empty line between. -/
def stacked (texts : List String) : String :=
  "\n\n".intercalate texts

variable {xs ys ts : List String}

theorem stacked_eq_empty (h : ∀ s ∈ xs, s ≠ "") : stacked xs = "" ↔ xs = [] := by
  refine ⟨fun hempty => ?_, fun hnil => hnil ▸ rfl⟩
  cases xs with
  | nil => rfl
  | cons x xs =>
    refine absurd ?_ (h x List.mem_cons_self)
    cases xs with
    | nil => simpa [stacked] using hempty
    | cons y xs => simp [stacked] at hempty

theorem ne_empty_of_mem_filter {s : String} (h : s ∈ ts.filter (· != "")) : s ≠ "" := by
  simpa using (List.mem_filter.mp h).2

theorem paragraphs_cons (hxs : ∀ s ∈ xs, s ≠ "") (hys : ∀ s ∈ ys, s ≠ "")
    (h : paragraphs ts = stacked ys) : paragraphs (stacked xs :: ts) = stacked (xs ++ ys) := by
  by_cases hx : xs = []
  · subst hx
    exact h
  have hkept : stacked xs ≠ "" := mt (stacked_eq_empty hxs).mp hx
  have hfilter : (stacked xs :: ts).filter (· != "") = stacked xs :: ts.filter (· != "") :=
    List.filter_cons_of_pos (by simpa using hkept)
  have hrest : stacked (ts.filter (· != "")) = stacked ys := h
  unfold paragraphs
  rw [hfilter]
  by_cases hy : ys = []
  · subst hy
    have hnil : ts.filter (· != "") = [] :=
      (stacked_eq_empty fun _ => ne_empty_of_mem_filter).mp hrest
    rw [hnil, List.append_nil, String.intercalate_singleton]
  · have hmore : ts.filter (· != "") ≠ [] := fun hnil =>
      hy ((stacked_eq_empty hys).mp (hrest.symm.trans (hnil ▸ rfl)))
    rw [String.intercalate_cons_of_ne_nil hmore]
    exact (congrArg _ hrest).trans (String.intercalate_append_of_ne_nil hx hy).symm

end Joining

theorem ne_empty_of_mem_leafTexts {v : Json} {s : String} (h : s ∈ v.leafTexts) : s ≠ "" := by
  simpa using (List.mem_filter.mp h).2

theorem valueText_obj (fields : List (String × Json)) :
    (Json.obj fields).valueText = ((Json.field? "value" fields).bind Json.str?).getD "" := by
  show (match Json.field? "value" fields with
    | some (.str s) => s
    | _ => "") = _
  cases Json.field? "value" fields with
  | none => rfl
  | some w => cases w <;> rfl

theorem markupText_of_leaf {v : Json} (h : ∀ items, v ≠ .arr items) :
    markupText v = v.leafText := by
  cases v with
  | arr items => exact absurd rfl (h items)
  | obj fields =>
    simp only [markupText, Json.leafText, valueText_obj, Json.get?]
    cases Json.field? "language" fields with
    | none => rfl
    | some w =>
      cases w with
      | str language => simp [Json.str?, codeBlock, toString, String.append_assoc]
      | null | bool | int | float | arr | obj => rfl
  | null | bool | int | float | str => rfl

theorem markupText_eq_of_leaf {v : Json} (h : ∀ items, v ≠ .arr items) :
    markupText v = stacked v.leafTexts := by
  unfold Json.leafTexts
  rw [markupText_of_leaf h, Json.leaves_of_not_array h]
  by_cases hempty : v.leafText = "" <;> simp [stacked, hempty]

mutual

/-- The text of a value is that of its leaves, through all arrays. -/
theorem markupText_eq (v : Json) : markupText v = stacked v.leafTexts := by
  cases v with
  | arr items =>
    rw [markupText, Json.leafTexts_arr]
    exact paragraphs_markupTexts items
  | null | bool | int | float | str | obj =>
    exact markupText_eq_of_leaf (by nofun)

theorem paragraphs_markupTexts (items : List Json) :
    paragraphs (markupTexts items) = stacked (items.flatMap Json.leafTexts) := by
  cases items with
  | nil => rfl
  | cons v rest =>
    rw [markupTexts, markupText_eq v, List.flatMap_cons]
    refine paragraphs_cons (fun _ => ne_empty_of_mem_leafTexts) (fun s hs => ?_)
      (paragraphs_markupTexts rest)
    obtain ⟨w, -, hw⟩ := List.mem_flatMap.mp hs
    exact ne_empty_of_mem_leafTexts hw

end

theorem leafTexts_of_empty {v : Json} (h : markupText v = "") : v.leafTexts = [] := by
  rw [markupText_eq] at h
  exact (stacked_eq_empty fun _ => ne_empty_of_mem_leafTexts).mp h

/-- A part without a text leaves no trace, at no place. -/
theorem markupText_arr_of_empty {part : Json} (h : markupText part = "") (front back : List Json) :
    markupText (.arr (front ++ part :: back)) = markupText (.arr (front ++ back)) := by
  simp only [markupText_eq, Json.leafTexts_arr, List.flatMap_append, List.flatMap_cons,
    leafTexts_of_empty h, List.nil_append]

namespace Hover

variable {reply c : Json} {h : Hover}

theorem ofAnswer_of_contents (hc : reply.get? "contents" = some c) :
    ofAnswer reply =
      if Text.isBlankText (markupText c) then none
      else some ⟨markupText c, (reply.get? "range").bind Range.ofJson?⟩ := by
  simp only [ofAnswer, hc]

theorem isBlankText_iff {s : String} : Text.isBlankText s = true ↔ Text.trim s.toList = [] := by
  rw [Text.isBlankText, List.all_eq_true, Text.trim_eq_nil_iff]

theorem ofAnswer_eq_none_iff :
    ofAnswer reply = none ↔ reply = .null ∨ reply.get? "contents" = none ∨
      ∃ c, reply.get? "contents" = some c ∧ Text.trim (markupText c).toList = [] := by
  cases hc : reply.get? "contents" with
  | none => simp [ofAnswer, hc]
  | some c =>
    have hnull : reply ≠ .null := by
      rintro rfl
      cases hc
    rw [ofAnswer_of_contents hc]
    simp [hnull, isBlankText_iff]

theorem contents_of_ofAnswer (h' : ofAnswer reply = some h) :
    ∃ c, reply.get? "contents" = some c ∧ h.contents = markupText c ∧
      Text.trim h.contents.toList ≠ [] := by
  cases hc : reply.get? "contents" with
  | none => simp [ofAnswer, hc] at h'
  | some c =>
    rw [ofAnswer_of_contents hc] at h'
    split at h'
    · cases h'
    · rename_i hblank
      cases h'
      exact ⟨c, rfl, rfl, mt isBlankText_iff.mpr hblank⟩

end Hover

/-- Marked-up content is the texts of its leaves, from left to right, with an empty line between
any two. Values with the same leaves have the same text, and a part without a text can be left out.
A hover shows such a text, and there is none exactly if there is nothing to show. -/
theorem markupText_eq_intercalate_leafTexts :
    (∀ v : Json, markupText v = "\n\n".intercalate v.leafTexts) ∧
      (∀ v w : Json, v.leaves = w.leaves → markupText v = markupText w) ∧
      (∀ v : Json, markupText (.arr v.leaves) = markupText v) ∧
      (∀ front part back, markupText part = "" →
        markupText (.arr (front ++ part :: back)) = markupText (.arr (front ++ back))) ∧
      ∀ reply : Json,
        (Hover.ofAnswer reply = none ↔ reply = .null ∨ reply.get? "contents" = none ∨
          ∃ c, reply.get? "contents" = some c ∧ Text.trim (markupText c).toList = []) ∧
        ∀ h, Hover.ofAnswer reply = some h → ∃ c, reply.get? "contents" = some c ∧
          h.contents = markupText c ∧ Text.trim h.contents.toList ≠ [] := by
  have hcongr (v w : Json) (h : v.leaves = w.leaves) : markupText v = markupText w := by
    rw [markupText_eq, markupText_eq, Json.leafTexts, Json.leafTexts, h]
  refine ⟨markupText_eq, hcongr, fun v => hcongr _ _ v.leaves_arr_leaves, ?_, fun reply => ?_⟩
  · exact fun front part back h => markupText_arr_of_empty h front back
  · exact ⟨Hover.ofAnswer_eq_none_iff, fun h => Hover.contents_of_ofAnswer⟩

/-- Code and text, nested in two ways, with parts between them that have no text. -/
theorem markupText_eq_intercalate_leafTexts_nested :
    let code := Json.ofFields [("language", .str "go"), ("value", .str "f()")]
    let deep := Json.arr [.arr [], .arr [code, .arr [.null, .arr [.str "calls f"]]], .str ""]
    let shallow := Json.arr [code, .null, .arr [.str "calls f", .str ""]]
    deep.leaves = shallow.leaves ∧ markupText deep = markupText shallow ∧
      markupText deep = "```go\nf()\n```\n\ncalls f" ∧
      markupText (.arr []) = "" ∧ markupText (.arr [.arr [], code]) = markupText (.arr [code]) ∧
      ∃ h, Hover.ofAnswer (.ofFields [("contents", deep)]) = some h ∧
        Text.trim h.contents.toList ≠ [] := by
  intro code deep shallow
  obtain ⟨-, hsame, -, hempty, hhover⟩ := markupText_eq_intercalate_leafTexts
  have hleaves : deep.leaves = shallow.leaves := rfl
  have hnothing : markupText (.arr []) = "" := rfl
  refine ⟨hleaves, hsame _ _ hleaves, by decide +kernel, hnothing, hempty [] _ [code] hnothing, ?_⟩
  obtain ⟨h, hh⟩ : ∃ h, Hover.ofAnswer (.ofFields [("contents", deep)]) = some h :=
    Option.isSome_iff_exists.mp (by decide +kernel)
  obtain ⟨-, -, -, hshown⟩ := (hhover _).2 h hh
  exact ⟨h, hh, hshown⟩

end LanguageClient
