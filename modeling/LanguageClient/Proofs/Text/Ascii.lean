import LanguageClient.Proofs.Text.Decoding
import LanguageClient.Text.Ascii

namespace LanguageClient

theorem Utf8.mem_encode {c : Char} (h : c.toNat < 0x80) {cs : List Char} :
    c.toNat.toUInt8 ∈ encode cs ↔ c ∈ cs := by
  have hnat : c.toNat.toUInt8.toNat = c.toNat := toNat_toUInt8 (by omega)
  rw [encode, List.mem_flatMap]
  constructor
  · rintro ⟨d, hd, hmem⟩
    have heq : d.toNat = c.toNat := (toNat_of_mem_encodeChar hmem (by omega)).trans hnat
    rwa [← Char.toNat_inj.mp heq]
  · intro hmem
    exact ⟨c, hmem, by simp [encodeChar, h]⟩

namespace Text

def IsUpper (c : Char) : Prop :=
  'A' ≤ c ∧ c ≤ 'Z'

variable {c d : Char} {cs : List Char}

theorem isUpper_iff : IsUpper c ↔ 65 ≤ c.toNat ∧ c.toNat ≤ 90 :=
  Iff.rfl

theorem toNat_lowerChar (h : IsUpper c) : (lowerChar c).toNat = c.toNat + 32 := by
  have hc := isUpper_iff.mp h
  unfold lowerChar
  rw [if_pos (show 'A' ≤ c ∧ c ≤ 'Z' from h)]
  exact Utf8.toNat_ofNat_of_valid (by omega)

theorem lowerChar_eq_self (h : ¬ IsUpper c) : lowerChar c = c :=
  if_neg h

theorem eq_of_lowerChar (h : lowerChar c = d) :
    c = d ∨ (97 ≤ d.toNat ∧ d.toNat ≤ 122) ∧ c.toNat + 32 = d.toNat := by
  by_cases hc : IsUpper c
  · have hd := toNat_lowerChar hc
    rw [h] at hd
    rw [isUpper_iff] at hc
    right
    omega
  · exact .inl ((lowerChar_eq_self hc).symm.trans h)

theorem not_isUpper_lowerChar (c : Char) : ¬ IsUpper (lowerChar c) := by
  by_cases hc : IsUpper c
  · have hd := toNat_lowerChar hc
    rw [isUpper_iff] at hc ⊢
    omega
  · rwa [lowerChar_eq_self hc]

theorem map_lowerChar_eq_self (h : ∀ c ∈ cs, ¬ IsUpper c) : cs.map lowerChar = cs :=
  (List.map_congr_left fun c hc => lowerChar_eq_self (h c hc)).trans (List.map_id cs)

theorem mem_map_lowerChar (h : c.toNat < 65) : c ∈ cs.map lowerChar ↔ c ∈ cs := by
  rw [List.mem_map]
  constructor
  · rintro ⟨d, hd, heq⟩
    obtain rfl | ⟨hletter, -⟩ := eq_of_lowerChar heq
    · exact hd
    · omega
  · intro hc
    exact ⟨c, hc, lowerChar_eq_self (by rw [isUpper_iff]; omega)⟩

end Text
end LanguageClient
