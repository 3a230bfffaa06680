import LanguageClient.Text.Utf8
import Mathlib.Tactic.Common

namespace LanguageClient.Utf8

theorem toNat_toUInt8 {k : Nat} (h : k < 256) : k.toUInt8.toNat = k :=
  UInt8.toNat_ofNat_of_lt' h

theorem encodeChar_ne_nil (c : Char) : encodeChar c ≠ [] := by
  dsimp only [encodeChar]
  split_ifs <;> simp

theorem encode_ne_nil {cs : List Char} (h : cs ≠ []) : encode cs ≠ [] := by
  cases cs with
  | nil => exact absurd rfl h
  | cons c cs => exact List.append_ne_nil_of_left_ne_nil (encodeChar_ne_nil c) _

theorem toNat_of_mem_encodeChar {b : UInt8} {c : Char} (h : b ∈ encodeChar c)
    (hascii : b.toNat < 0x80) : c.toNat = b.toNat := by
  have hvalid : c.toNat < 0xD800 ∨ 0xDFFF < c.toNat ∧ c.toNat < 0x110000 := c.valid
  have hbeyond {k : Nat} (hk : 0x80 ≤ k ∧ k < 256) : b ≠ k.toUInt8 := by
    rintro rfl
    rw [toNat_toUInt8 hk.2] at hascii
    omega
  unfold encodeChar at h
  extract_lets n at h
  have hn : n = c.toNat := rfl
  clear_value n
  split_ifs at h <;> simp only [List.mem_cons, List.not_mem_nil, or_false] at h
  · rw [h, toNat_toUInt8 (by omega), hn]
  · obtain h | h := h <;> exact absurd h (hbeyond (by omega))
  · obtain h | h | h := h <;> exact absurd h (hbeyond (by omega))
  · obtain h | h | h | h := h <;> exact absurd h (hbeyond (by omega))

theorem begin?_toUInt8 {k : Nat} (h : k < 256) :
    begin? k.toUInt8 =
      if k < 0xC2 then none
      else if k < 0xE0 then some ⟨k - 0xC0, 1, 1, 0x80, 0xBF⟩
      else if k = 0xE0 then some ⟨0, 1, 2, 0xA0, 0xBF⟩
      else if k = 0xED then some ⟨0xD, 1, 2, 0x80, 0x9F⟩
      else if k < 0xF0 then some ⟨k - 0xE0, 1, 2, 0x80, 0xBF⟩
      else if k = 0xF0 then some ⟨0, 1, 3, 0x90, 0xBF⟩
      else if k < 0xF4 then some ⟨k - 0xF0, 1, 3, 0x80, 0xBF⟩
      else if k = 0xF4 then some ⟨4, 1, 3, 0x80, 0x8F⟩
      else none := by
  simp [begin?, UInt8.lt_iff_toNat_lt, ← UInt8.toNat_inj, toNat_toUInt8 h]

/-- The first of three bytes lets in the second: what it shuts out are overlong forms and
surrogates. -/
theorem begin?_of_three {n : Nat} (hlow : 0x800 ≤ n) (hhigh : n < 0x10000)
    (hvalid : n < 0xD800 ∨ 0xDFFF < n) :
    ∃ b, begin? (0xE0 + n / 4096).toUInt8 = some b ∧ b.code = n / 4096 ∧ b.owed = 2 ∧
      b.low.toNat ≤ 0x80 + n / 64 % 64 ∧ 0x80 + n / 64 % 64 ≤ b.high.toNat := by
  rw [begin?_toUInt8 (by omega), if_neg (by omega), if_neg (by omega)]
  by_cases h0 : n / 4096 = 0
  · rw [if_pos (by omega)]
    exact ⟨_, rfl, h0.symm, rfl, by simp; omega, by simp; omega⟩
  rw [if_neg (by omega)]
  by_cases hD : n / 4096 = 0xD
  · rw [if_pos (by omega)]
    exact ⟨_, rfl, hD.symm, rfl, by simp, by simp; omega⟩
  · rw [if_neg (by omega), if_pos (by omega)]
    exact ⟨_, rfl, by simp, rfl, by simp, by simp; omega⟩

/-- The first of four bytes lets in the second: what it shuts out are overlong forms and numbers
beyond the last character. -/
theorem begin?_of_four {n : Nat} (hlow : 0x10000 ≤ n) (hhigh : n < 0x110000) :
    ∃ b, begin? (0xF0 + n / 262144).toUInt8 = some b ∧ b.code = n / 262144 ∧ b.owed = 3 ∧
      b.low.toNat ≤ 0x80 + n / 4096 % 64 ∧ 0x80 + n / 4096 % 64 ≤ b.high.toNat := by
  rw [begin?_toUInt8 (by omega), if_neg (by omega), if_neg (by omega), if_neg (by omega),
    if_neg (by omega), if_neg (by omega)]
  by_cases h0 : n / 262144 = 0
  · rw [if_pos (by omega)]
    exact ⟨_, rfl, h0.symm, rfl, by simp; omega, by simp; omega⟩
  rw [if_neg (by omega)]
  by_cases h4 : n / 262144 = 4
  · rw [if_neg (by omega), if_pos (by omega)]
    exact ⟨_, rfl, h4.symm, rfl, by simp, by simp; omega⟩
  · rw [if_pos (by omega)]
    exact ⟨_, rfl, by simp, rfl, by simp, by simp; omega⟩

namespace Scan

variable {ps : List Piece}

theorem step_owed {c : Begun} {k : Nat} (hk : k < 256) (hlow : c.low.toNat ≤ k)
    (hhigh : k ≤ c.high.toNat) (howed : 1 < c.owed) :
    step ⟨ps, some c⟩ k.toUInt8 =
      ⟨ps, some ⟨c.code * 64 + (k - 0x80), c.seen + 1, c.owed - 1, 0x80, 0xBF⟩⟩ := by
  have hrange : c.low ≤ k.toUInt8 ∧ k.toUInt8 ≤ c.high := by
    simp only [UInt8.le_iff_toNat_le, toNat_toUInt8 hk]
    exact ⟨hlow, hhigh⟩
  simp [step, hrange, toNat_toUInt8 hk, Nat.not_le.mpr howed]

theorem step_last {c : Begun} {k : Nat} (hk : k < 256) (hlow : c.low.toNat ≤ k)
    (hhigh : k ≤ c.high.toNat) (howed : c.owed = 1) :
    step ⟨ps, some c⟩ k.toUInt8 = ⟨.char (Char.ofNat (c.code * 64 + (k - 0x80))) :: ps, none⟩ := by
  have hrange : c.low ≤ k.toUInt8 ∧ k.toUInt8 ≤ c.high := by
    simp only [UInt8.le_iff_toNat_le, toNat_toUInt8 hk]
    exact ⟨hlow, hhigh⟩
  simp [step, hrange, toNat_toUInt8 hk, howed]

theorem step_begin {c : Begun} {k : Nat} (hk : k < 256) (hlong : 0x80 ≤ k)
    (hc : begin? k.toUInt8 = some c) : step ⟨ps, none⟩ k.toUInt8 = ⟨ps, some c⟩ := by
  have hbyte : ¬ k.toUInt8 < 0x80 := by
    simp only [UInt8.lt_iff_toNat_lt, toNat_toUInt8 hk]
    exact Nat.not_lt.mpr hlong
  simp [step, start, hbyte, hc]

theorem step_ascii {k : Nat} (hk : k < 0x80) :
    step ⟨ps, none⟩ k.toUInt8 = ⟨.char (Char.ofNat k) :: ps, none⟩ := by
  have hnat : k.toUInt8.toNat = k := toNat_toUInt8 (by omega)
  have hbyte : k.toUInt8 < 0x80 := by
    simp only [UInt8.lt_iff_toNat_lt, hnat]
    exact hk
  simp [step, start, hbyte, hnat]

/-- The bytes of a character are read as that character. -/
theorem foldl_step_encodeChar (c : Char) :
    (encodeChar c).foldl step ⟨ps, none⟩ = ⟨.char c :: ps, none⟩ := by
  have hvalid : c.toNat < 0xD800 ∨ 0xDFFF < c.toNat ∧ c.toNat < 0x110000 := c.valid
  have hchar {n : Nat} (h : n = c.toNat) : Char.ofNat n = c := by rw [h, Char.ofNat_toNat]
  unfold encodeChar
  extract_lets n
  have hn : n = c.toNat := rfl
  clear_value n
  rw [← hn] at hvalid
  -- one case for each length of a character, from one byte to four
  split
  · rename_i h
    rw [List.foldl_cons, step_ascii h, hchar hn]
    rfl
  split
  · have hbegin := begin?_toUInt8 (k := 0xC0 + n / 64) (by omega)
    rw [if_neg (by omega), if_pos (by omega)] at hbegin
    rw [List.foldl_cons, step_begin (by omega) (by omega) hbegin, List.foldl_cons,
      step_last (by omega) (by simp) (by simp; omega) rfl, hchar (by simp; omega)]
    rfl
  split
  · obtain ⟨b, hbegin, hcode, howed, hlow, hhigh⟩ :=
      begin?_of_three (n := n) (by omega) (by omega) (by omega)
    rw [List.foldl_cons, step_begin (by omega) (by omega) hbegin, List.foldl_cons,
      step_owed (by omega) hlow hhigh (by omega), List.foldl_cons,
      step_last (by omega) (by simp) (by simp; omega) (by simp [howed]),
      hchar (by simp [hcode]; omega)]
    rfl
  · obtain ⟨b, hbegin, hcode, howed, hlow, hhigh⟩ :=
      begin?_of_four (n := n) (by omega) (by omega)
    rw [List.foldl_cons, step_begin (by omega) (by omega) hbegin, List.foldl_cons,
      step_owed (by omega) hlow hhigh (by omega), List.foldl_cons,
      step_owed (by omega) (by simp) (by simp; omega) (by simp [howed]), List.foldl_cons,
      step_last (by omega) (by simp) (by simp; omega) (by simp [howed]),
      hchar (by simp [hcode]; omega)]
    rfl

theorem foldl_step_encode (cs : List Char) :
    (encode cs).foldl step ⟨ps, none⟩ = ⟨(cs.map .char).reverse ++ ps, none⟩ := by
  induction cs generalizing ps with
  | nil => rfl
  | cons c cs ih =>
    have hcons : encode (c :: cs) = encodeChar c ++ encode cs := rfl
    rw [hcons, List.foldl_append, foldl_step_encodeChar, ih]
    simp

end Scan

theorem scan_encode (cs : List Char) : scan (encode cs) = cs.map .char := by
  rw [scan, Scan.foldl_step_encode]
  simp [Scan.finish]

theorem collect_char (at_ : Nat) (chars cs : List Char) :
    collect at_ chars (cs.map .char) = .ok (chars.reverse ++ cs) := by
  induction cs generalizing at_ chars with
  | nil => simp [collect]
  | cons c cs ih => simp [collect, ih]

theorem decode_encode (cs : List Char) : decode (encode cs) = .ok cs := by
  rw [decode, scan_encode, collect_char]
  rfl

theorem decode?_encode (cs : List Char) : decode? (encode cs) = some cs := by
  rw [decode?, decode_encode]
  rfl

end LanguageClient.Utf8
