import LanguageClient.Proofs.Json.Scalar
import LanguageClient.Proofs.Table
import LanguageClient.Proofs.Text.Utf8

namespace LanguageClient

namespace Json

/-- A value without doubles, whose numbers fit 64 bits, whose objects are in order, and whose arrays
and objects nest at most this deep. -/
inductive Plain : Nat → Json → Prop
  | null {depth : Nat} : Plain depth .null
  | bool {depth : Nat} (b : Bool) : Plain depth (.bool b)
  | int {depth : Nat} {n : Int} (word : IsWord n) : Plain depth (.int n)
  | str {depth : Nat} (s : String) : Plain depth (.str s)
  | arr {depth : Nat} {items : List Json} (plain : ∀ v ∈ items, Plain depth v) :
      Plain (depth + 1) (.arr items)
  | obj {depth : Nat} {fields : List (String × Json)}
      (sorted : fields.Pairwise fun e f => e.1 < f.1) (plain : ∀ e ∈ fields, Plain depth e.2) :
      Plain (depth + 1) (.obj fields)

theorem Plain.ofFields {depth : Nat} {fields : List (String × Json)}
    (hkeys : (fields.map (·.1)).Nodup) (h : ∀ e ∈ fields, Plain depth e.2) :
    Plain (depth + 1) (.ofFields fields) := by
  obtain ⟨hsorted, hperm⟩ := Table.ascends_ofEntries hkeys
  exact .obj hsorted fun e he => h e (hperm.mem_iff.mp he)

theorem skipSpace_cons {c : Char} (h : isSpace c = false) (cs : List Char) :
    skipSpace (c :: cs) = c :: cs := by
  simp [skipSpace, h]

section Starting

/-- A text begins with something, and that is neither white space nor the end of an array. -/
def Starts (cs : List Char) : Prop :=
  ∃ c t, cs = c :: t ∧ isSpace c = false ∧ c ≠ ']'

variable {depth : Nat} {v : Json}

theorem starts_intText (n : Int) : Starts (intText n) := by
  obtain ⟨c, cs, h, hc⟩ := intText_eq_cons n
  refine ⟨c, cs, h, ?_, ?_⟩
  · have hne (d : Char) (hd : Text.isDigit d = false) (hd' : d ≠ '-') : c ≠ d := by
      rintro rfl
      obtain hc | hc := hc
      · rw [hd] at hc
        cases hc
      · exact hd' hc
    simp [isSpace, hne ' ' rfl, hne '\t' rfl, hne '\n' rfl, hne '\r' rfl]
  · rintro rfl
    obtain hc | hc := hc <;> cases hc

theorem Plain.starts (h : Plain depth v) : Starts v.text := by
  cases h with
  | null => exact ⟨_, _, rfl, rfl, by decide⟩
  | bool b => cases b <;> exact ⟨_, _, rfl, rfl, by decide⟩
  | int => exact starts_intText _
  | str | arr | obj => exact ⟨_, _, rfl, rfl, by decide⟩

theorem Starts.append {cs : List Char} (h : Starts cs) (rest : List Char) :
    Starts (cs ++ rest) := by
  obtain ⟨c, t, rfl, hc⟩ := h
  exact ⟨c, t ++ rest, rfl, hc⟩

theorem Starts.skipSpace {cs : List Char} (h : Starts cs) : skipSpace cs = cs := by
  obtain ⟨c, t, rfl, hc, -⟩ := h
  exact skipSpace_cons hc t

end Starting

section Parts

theorem itemsText_eq (items : List Json) :
    itemsText items = [','].intercalate (items.map text) := by
  induction items with
  | nil => rfl
  | cons v items ih =>
    cases items with
    | nil => simp [itemsText]
    | cons w items =>
      rw [itemsText, ih]
      simp [List.intercalate_cons_cons]

def fieldText (e : String × Json) : List Char :=
  quote e.1 ++ ':' :: e.2.text

theorem fieldsText_eq (fields : List (String × Json)) :
    fieldsText fields = [','].intercalate (fields.map fieldText) := by
  induction fields with
  | nil => rfl
  | cons e fields ih =>
    obtain ⟨k, v⟩ := e
    cases fields with
    | nil => simp [fieldsText, fieldText]
    | cons f fields =>
      rw [fieldsText, ih]
      simp [List.intercalate_cons_cons, fieldText]

theorem infix_intercalate {p : List Char} {parts : List (List Char)} (h : p ∈ parts) :
    p <:+: [','].intercalate parts := by
  induction parts with
  | nil => cases h
  | cons q parts ih =>
    cases parts with
    | nil =>
      obtain rfl := List.mem_singleton.mp h
      simp [List.intercalate_singleton]
    | cons r parts =>
      rw [List.intercalate_cons_cons, List.append_assoc]
      obtain rfl | h := List.mem_cons.mp h
      · exact (List.prefix_append _ _).isInfix
      · exact (ih h).trans ((List.suffix_append _ _).trans (List.suffix_append _ _)).isInfix

theorem length_le_intercalate (parts : List (List Char)) :
    parts.length ≤ ([','].intercalate parts).length + 1 := by
  induction parts with
  | nil => simp
  | cons q parts ih =>
    cases parts with
    | nil => simp
    | cons r parts =>
      rw [List.intercalate_cons_cons]
      simp only [List.length_append, List.length_cons, List.length_nil] at ih ⊢
      omega

theorem length_text_le_itemsText {v : Json} {items : List Json} (h : v ∈ items) :
    v.text.length ≤ (itemsText items).length := by
  rw [itemsText_eq]
  exact (infix_intercalate (List.mem_map_of_mem h)).length_le

theorem length_text_le_fieldsText {e : String × Json} {fields : List (String × Json)}
    (h : e ∈ fields) : e.2.text.length ≤ (fieldsText fields).length := by
  have hlength : e.2.text.length ≤ (fieldText e).length := by
    simp only [fieldText, List.length_append, List.length_cons]
    omega
  rw [fieldsText_eq]
  exact Nat.le_trans hlength (infix_intercalate (List.mem_map_of_mem h)).length_le

theorem length_le_itemsText (items : List Json) : items.length ≤ (itemsText items).length + 1 := by
  have hparts := length_le_intercalate (items.map text)
  rwa [← itemsText_eq, List.length_map] at hparts

theorem length_le_fieldsText (fields : List (String × Json)) :
    fields.length ≤ (fieldsText fields).length + 1 := by
  have hparts := length_le_intercalate (fields.map fieldText)
  rwa [← fieldsText_eq, List.length_map] at hparts

theorem starts_itemsText {items : List Json} (hne : items ≠ [])
    (h : ∀ v ∈ items, Starts v.text) : Starts (itemsText items) := by
  cases items with
  | nil => exact absurd rfl hne
  | cons v items =>
    have hv := h v List.mem_cons_self
    cases items with
    | nil => exact hv
    | cons w items => exact hv.append _

theorem fieldsText_eq_quote (e : String × Json) (fields : List (String × Json)) :
    ∃ t, fieldsText (e :: fields) = '"' :: t := by
  obtain ⟨k, v⟩ := e
  cases fields with
  | nil => exact ⟨_, rfl⟩
  | cons f fields => exact ⟨_, rfl⟩

end Parts

section Containers

variable {item : Reading} {fuel : Nat} {v : Json} {rest : List Char}

theorem endsNumber_nil : EndsNumber [] := by
  intro c hc
  cases hc

theorem endsNumber_cons {c : Char} (h : c = ',' ∨ c = ']' ∨ c = '}') (cs : List Char) :
    EndsNumber (c :: cs) := by
  intro d hd
  obtain rfl : c = d := by simpa using hd
  obtain rfl | rfl | rfl := h <;> decide

/-- A value is read back from its text, whatever comes behind it. -/
def ReadBy (item : Reading) (v : Json) : Prop :=
  ∀ rest, EndsNumber rest → item (v.text ++ rest) = some (v, rest)

theorem itemsRest?_comma (hstart : Starts v.text) (hread : ReadBy item v) (acc : List Json) :
    itemsRest? item (fuel + 1) acc (v.text ++ ',' :: rest) = itemsRest? item fuel (v :: acc) rest := by
  rw [itemsRest?, (hstart.append _).skipSpace, hread _ (endsNumber_cons (by simp) _)]
  simp only [skipSpace_cons (c := ',') rfl]

theorem itemsRest?_bracket (hstart : Starts v.text) (hread : ReadBy item v) (acc : List Json) :
    itemsRest? item (fuel + 1) acc (v.text ++ ']' :: rest) =
      some (.arr (v :: acc).reverse, rest) := by
  rw [itemsRest?, (hstart.append _).skipSpace, hread _ (endsNumber_cons (by simp) _)]
  simp only [skipSpace_cons (c := ']') rfl]

theorem itemsRest?_itemsText {items : List Json} (hne : items ≠ [])
    (hstart : ∀ v ∈ items, Starts v.text) (hread : ∀ v ∈ items, ReadBy item v)
    (hfuel : items.length ≤ fuel) (acc : List Json) :
    itemsRest? item fuel acc (itemsText items ++ ']' :: rest) =
      some (.arr (acc.reverse ++ items), rest) := by
  induction items generalizing fuel acc with
  | nil => exact absurd rfl hne
  | cons v items ih =>
    obtain ⟨hv, hstart⟩ := List.forall_mem_cons.mp hstart
    obtain ⟨hrv, hread⟩ := List.forall_mem_cons.mp hread
    cases fuel with
    | zero => cases hfuel
    | succ fuel =>
      cases items with
      | nil =>
        rw [itemsText, itemsRest?_bracket hv hrv]
        simp
      | cons w items =>
        rw [itemsText, List.append_assoc, List.cons_append, itemsRest?_comma hv hrv,
          ih (by simp) hstart hread (Nat.le_of_succ_le_succ hfuel)]
        simp

theorem fieldsRest?_comma (key : String) (hstart : Starts v.text) (hread : ReadBy item v)
    (acc : List (String × Json)) :
    fieldsRest? item (fuel + 1) acc (fieldText (key, v) ++ ',' :: rest) =
      fieldsRest? item fuel (Table.set key v acc) rest := by
  have htext : fieldText (key, v) ++ ',' :: rest =
      '"' :: (key.toList.flatMap escape ++ '"' :: ':' :: (v.text ++ ',' :: rest)) := by
    simp [fieldText, quote]
  rw [htext, fieldsRest?, skipSpace_cons (c := '"') rfl]
  simp only [stringRest?_quote, skipSpace_cons (c := ':') rfl, (hstart.append _).skipSpace,
    hread _ (endsNumber_cons (c := ',') (by simp) _), skipSpace_cons (c := ',') rfl]

theorem fieldsRest?_brace (key : String) (hstart : Starts v.text) (hread : ReadBy item v)
    (acc : List (String × Json)) :
    fieldsRest? item (fuel + 1) acc (fieldText (key, v) ++ '}' :: rest) =
      some (.obj (Table.set key v acc), rest) := by
  have htext : fieldText (key, v) ++ '}' :: rest =
      '"' :: (key.toList.flatMap escape ++ '"' :: ':' :: (v.text ++ '}' :: rest)) := by
    simp [fieldText, quote]
  rw [htext, fieldsRest?, skipSpace_cons (c := '"') rfl]
  simp only [stringRest?_quote, skipSpace_cons (c := ':') rfl, (hstart.append _).skipSpace,
    hread _ (endsNumber_cons (c := '}') (by simp) _), skipSpace_cons (c := '}') rfl]

theorem fieldsRest?_fieldsText {fields acc : List (String × Json)} (hne : fields ≠ [])
    (hsorted : (acc ++ fields).Pairwise fun e f => e.1 < f.1)
    (hstart : ∀ e ∈ fields, Starts e.2.text) (hread : ∀ e ∈ fields, ReadBy item e.2)
    (hfuel : fields.length ≤ fuel) :
    fieldsRest? item fuel acc (fieldsText fields ++ '}' :: rest) =
      some (.obj (acc ++ fields), rest) := by
  induction fields generalizing fuel acc with
  | nil => exact absurd rfl hne
  | cons e fields ih =>
    obtain ⟨k, v⟩ := e
    obtain ⟨hv, hstart⟩ := List.forall_mem_cons.mp hstart
    obtain ⟨hrv, hread⟩ := List.forall_mem_cons.mp hread
    have hset : Table.set k v acc = acc ++ [(k, v)] :=
      Table.set_of_forall_lt (fun e he =>
        (List.pairwise_append.mp hsorted).2.2 e he (k, v) List.mem_cons_self) v
    cases fuel with
    | zero => cases hfuel
    | succ fuel =>
      cases fields with
      | nil =>
        have htext : fieldsText [(k, v)] = fieldText (k, v) := rfl
        rw [htext, fieldsRest?_brace k hv hrv, hset]
      | cons f fields =>
        have htext : fieldsText ((k, v) :: f :: fields) ++ '}' :: rest =
            fieldText (k, v) ++ ',' :: (fieldsText (f :: fields) ++ '}' :: rest) := by
          simp [fieldsText, fieldText]
        have hsorted' : (acc ++ [(k, v)] ++ f :: fields).Pairwise fun e f => e.1 < f.1 := by
          simpa using hsorted
        rw [htext, fieldsRest?_comma k hv hrv, hset,
          ih (by simp) hsorted' hstart hread (Nat.le_of_succ_le_succ hfuel)]
        simp

end Containers

variable {fuel depth : Nat} {rest : List Char}

theorem value?_of_number {c : Char} {cs : List Char} (h : Text.isDigit c = true ∨ c = '-') :
    value? fuel depth (c :: cs) = number? (c :: cs) := by
  have hne (d : Char) (hd : Text.isDigit d = false ∧ d ≠ '-') : c ≠ d := by
    rintro rfl
    obtain h | h := h
    · rw [hd.1] at h
      cases h
    · exact hd.2 h
  rw [value?]
  all_goals exact fun _ heq => hne _ ⟨rfl, by decide⟩ (List.cons.inj heq).1

theorem readBy_arr {items : List Json} (hstart : ∀ v ∈ items, Starts v.text)
    (hread : ∀ v ∈ items, ReadBy (value? fuel depth) v) (hfuel : items.length ≤ fuel) :
    ReadBy (value? fuel (depth + 1)) (.arr items) := by
  intro rest _
  have htext : (Json.arr items).text ++ rest = '[' :: (itemsText items ++ ']' :: rest) := by
    simp [text]
  rw [htext, value?]
  by_cases hne : items = []
  · subst hne
    rfl
  · have hall : itemsRest? (value? fuel depth) fuel [] (itemsText items ++ ']' :: rest) =
        some (.arr items, rest) := itemsRest?_itemsText hne hstart hread hfuel []
    obtain ⟨c, t, heq, hspace, hc⟩ := (starts_itemsText hne hstart).append (']' :: rest)
    rw [heq] at hall ⊢
    rw [skipSpace_cons hspace]
    split
    · rename_i hbracket
      exact absurd (List.cons.inj hbracket).1 hc
    · exact hall

theorem readBy_obj {fields : List (String × Json)} (hsorted : fields.Pairwise fun e f => e.1 < f.1)
    (hstart : ∀ e ∈ fields, Starts e.2.text) (hread : ∀ e ∈ fields, ReadBy (value? fuel depth) e.2)
    (hfuel : fields.length ≤ fuel) : ReadBy (value? fuel (depth + 1)) (.obj fields) := by
  intro rest _
  have htext : (Json.obj fields).text ++ rest = '{' :: (fieldsText fields ++ '}' :: rest) := by
    simp [text]
  rw [htext, value?]
  cases fields with
  | nil => rfl
  | cons e fields =>
    have hall : fieldsRest? (value? fuel depth) fuel [] (fieldsText (e :: fields) ++ '}' :: rest) =
        some (.obj (e :: fields), rest) :=
      fieldsRest?_fieldsText (List.cons_ne_nil e fields) hsorted hstart hread hfuel
    obtain ⟨t, heq⟩ := fieldsText_eq_quote e fields
    rw [heq] at hall ⊢
    rw [List.cons_append, skipSpace_cons (c := '"') rfl]
    exact hall

/-- Every plain value is read back from its text. No container holds more items than the text has
characters. -/
theorem Plain.readBy {v : Json} (h : Plain depth v) (hfuel : v.text.length ≤ fuel) :
    ReadBy (value? fuel depth) v := by
  induction h with
  | null => intro rest _; simp [text, value?]
  | bool b => intro rest _; cases b <;> simp [text, value?]
  | int word =>
    intro rest hrest
    obtain ⟨c, cs, heq, hc⟩ := intText_eq_cons _
    rw [text, heq, List.cons_append, value?_of_number hc, ← List.cons_append, ← heq,
      number?_intText word hrest]
  | str s =>
    intro rest _
    have htext : (Json.str s).text ++ rest = '"' :: (s.toList.flatMap escape ++ '"' :: rest) := by
      simp [text, quote]
    rw [htext, value?, stringRest?_quote]
    rfl
  | @arr depth items plain ih =>
    have hlength : (Json.arr items).text.length = (itemsText items).length + 2 := by simp [text]
    have hcount := length_le_itemsText items
    refine readBy_arr (fun v hv => (plain v hv).starts) (fun v hv => ih v hv ?_) (by omega)
    have hle := length_text_le_itemsText hv
    omega
  | @obj depth fields sorted plain ih =>
    have hlength : (Json.obj fields).text.length = (fieldsText fields).length + 2 := by simp [text]
    have hcount := length_le_fieldsText fields
    refine readBy_obj sorted (fun e he => (plain e he).starts) (fun e he => ih e he ?_) (by omega)
    have hle := length_text_le_fieldsText he
    omega

/-- The whole text, and nothing behind it. -/
theorem Plain.ofChars?_text {v : Json} (h : Plain maxDepth v) : ofChars? v.text = some v := by
  have hread := h.readBy (Nat.le_refl _) [] endsNumber_nil
  rw [List.append_nil] at hread
  rw [ofChars?, h.starts.skipSpace, hread]
  rfl

theorem Plain.ofBytes?_text {v : Json} (h : Plain maxDepth v) :
    ofBytes? (Utf8.encode v.text) = some v := by
  rw [ofBytes?, Utf8.decode?_encode, Option.bind_some, h.ofChars?_text]

end Json
end LanguageClient
