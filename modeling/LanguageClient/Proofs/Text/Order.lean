import LanguageClient.Proofs.Text.Utf8
import Mathlib.Data.List.Lex
import Mathlib.Data.String.Basic

namespace LanguageClient

namespace Utf8

theorem toUInt8_lt {m n : Nat} (hm : m < 256) (hn : n < 256) : m.toUInt8 < n.toUInt8 ↔ m < n := by
  rw [UInt8.lt_iff_toNat_lt, toNat_toUInt8 hm, toNat_toUInt8 hn]

theorem toUInt8_inj {m n : Nat} (hm : m < 256) (hn : n < 256) : m.toUInt8 = n.toUInt8 ↔ m = n := by
  rw [← UInt8.toNat_inj, toNat_toUInt8 hm, toNat_toUInt8 hn]

/-- The bytes of two characters decide, whatever comes behind. -/
theorem encodeChar_append_lt {c d : Char} (h : c < d) (bs cs : Bytes) :
    encodeChar c ++ bs < encodeChar d ++ cs := by
  have hlt : c.toNat < d.toNat := h
  have hd : d.toNat < 0xD800 ∨ 0xDFFF < d.toNat ∧ d.toNat < 0x110000 := d.valid
  unfold encodeChar
  dsimp only
  generalize c.toNat = m at *
  generalize d.toNat = n at *
  split_ifs <;>
    simp (disch := omega) only [List.cons_append, List.nil_append, List.cons_lt_cons_iff,
      toUInt8_lt, toUInt8_inj] <;>
    omega

theorem encode_lt {cs ds : List Char} (h : cs < ds) : encode cs < encode ds := by
  induction h with
  | @nil d ds =>
    obtain ⟨b, bs, hb⟩ := List.exists_cons_of_ne_nil (encodeChar_ne_nil d)
    have hcons : encode (d :: ds) = b :: (bs ++ encode ds) := by
      rw [encode, List.flatMap_cons, hb]
      rfl
    rw [hcons]
    exact List.nil_lt_cons b _
  | @cons c cs ds _ ih => exact List.Lex.append_left _ ih (encodeChar c)
  | @rel c cs d ds hlt => exact encodeChar_append_lt hlt (encode cs) (encode ds)

end Utf8

theorem utf8_lt_iff {s t : String} : utf8 s < utf8 t ↔ s < t := by
  have hmono {s t : String} (h : s < t) : utf8 s < utf8 t :=
    Utf8.encode_lt (String.lt_iff_toList_lt.mp h)
  refine ⟨fun h => ?_, hmono⟩
  obtain hlt | rfl | hgt := lt_trichotomy s t
  · exact hlt
  · exact absurd h (List.lt_irrefl _)
  · exact absurd h (List.lt_asymm (hmono hgt))

end LanguageClient
