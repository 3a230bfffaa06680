import LanguageClient.Proofs.Text.Utf8
import Mathlib.Algebra.Group.Nat.Defs

namespace LanguageClient.Utf8

/-- The last bytes of a character's encoding, six bits each. -/
def tailBytes : Nat → Nat → Bytes
  | 0, _ => []
  | k + 1, n => (0x80 + n / 64 ^ k % 64).toUInt8 :: tailBytes k n

/-- Every character of which the rest is still owed begins with these bytes. -/
structure Begun.Opens (c : Begun) (front : Bytes) : Prop where
  owed : 0 < c.owed
  low : 0x80 ≤ c.low.toNat
  high : c.high.toNat ≤ 0xBF
  encoding : ∀ n, n / 64 ^ c.owed = c.code →
    c.low.toNat ≤ 0x80 + n / 64 ^ (c.owed - 1) % 64 →
    0x80 + n / 64 ^ (c.owed - 1) % 64 ≤ c.high.toNat →
    encodeChar (Char.ofNat n) = front ++ tailBytes c.owed n

section Opening

variable {b low high : UInt8} {n code seen : Nat}

theorem toNat_ofNat_of_valid (h : n < 0xD800 ∨ 0xDFFF < n ∧ n < 0x110000) :
    (Char.ofNat n).toNat = n := by
  rw [Char.ofNat, dif_pos h]
  rfl

theorem eq_toUInt8 {k : Nat} (h : k = b.toNat) : k.toUInt8 = b := by
  rw [h]
  exact UInt8.ofNat_toNat

theorem opens_two (hlow : 0x80 ≤ low.toNat) (hhigh : high.toNat ≤ 0xBF)
    (hb : 0xC0 + code = b.toNat) (hcode : 2 ≤ code ∧ code < 32) :
    Begun.Opens ⟨code, seen, 1, low, high⟩ [b] := by
  refine ⟨Nat.one_pos, hlow, hhigh, fun n hn _ _ => ?_⟩
  simp only [Nat.pow_one] at hn
  have hchar : (Char.ofNat n).toNat = n := toNat_ofNat_of_valid (by omega)
  simp only [encodeChar, hchar]
  rw [if_neg (by omega), if_pos (by omega), hn, eq_toUInt8 hb]
  simp [tailBytes]

theorem opens_three (hlow : 0x80 ≤ low.toNat) (hhigh : high.toNat ≤ 0xBF)
    (hb : 0xE0 + code = b.toNat)
    (hvalid : ∀ n, n / 4096 = code → low.toNat ≤ 0x80 + n / 64 % 64 →
      0x80 + n / 64 % 64 ≤ high.toNat →
      0x800 ≤ n ∧ n < 0x10000 ∧ (n < 0xD800 ∨ 0xDFFF < n)) :
    Begun.Opens ⟨code, seen, 2, low, high⟩ [b] := by
  refine ⟨Nat.two_pos, hlow, hhigh, fun n hn hlow hhigh => ?_⟩
  obtain ⟨hlong, hshort, hrange⟩ := hvalid n hn (by simpa using hlow) (by simpa using hhigh)
  have hchar : (Char.ofNat n).toNat = n := toNat_ofNat_of_valid (by omega)
  replace hn : n / 4096 = code := hn
  simp only [encodeChar, hchar]
  rw [if_neg (by omega), if_neg (by omega), if_pos hshort, hn, eq_toUInt8 hb]
  simp [tailBytes]

theorem opens_four (hlow : 0x80 ≤ low.toNat) (hhigh : high.toNat ≤ 0xBF)
    (hb : 0xF0 + code = b.toNat)
    (hvalid : ∀ n, n / 262144 = code → low.toNat ≤ 0x80 + n / 4096 % 64 →
      0x80 + n / 4096 % 64 ≤ high.toNat → 0x10000 ≤ n ∧ n < 0x110000) :
    Begun.Opens ⟨code, seen, 3, low, high⟩ [b] := by
  refine ⟨Nat.succ_pos 2, hlow, hhigh, fun n hn hlow hhigh => ?_⟩
  obtain ⟨hlong, hshort⟩ := hvalid n hn (by simpa using hlow) (by simpa using hhigh)
  have hchar : (Char.ofNat n).toNat = n := toNat_ofNat_of_valid (by omega)
  replace hn : n / 262144 = code := hn
  simp only [encodeChar, hchar]
  rw [if_neg (by omega), if_neg (by omega), if_neg (by omega), hn, eq_toUInt8 hb]
  simp [tailBytes]

theorem opens_begin? {c : Begun} (h : begin? b = some c) : c.Opens [b] := by
  have hb := b.toNat_lt
  have hbegin := begin?_toUInt8 hb
  rw [eq_toUInt8 rfl, h] at hbegin
  split_ifs at hbegin
  · obtain rfl := Option.some.inj hbegin
    exact opens_two (by decide) (by decide) (by omega) (by omega)
  · obtain rfl := Option.some.inj hbegin
    exact opens_three (by decide) (by decide) (by omega) fun n => by simp; omega
  · obtain rfl := Option.some.inj hbegin
    exact opens_three (by decide) (by decide) (by omega) fun n => by simp; omega
  · obtain rfl := Option.some.inj hbegin
    exact opens_three (by decide) (by decide) (by omega) fun n => by simp; omega
  · obtain rfl := Option.some.inj hbegin
    exact opens_four (by decide) (by decide) (by omega) fun n => by simp; omega
  · obtain rfl := Option.some.inj hbegin
    exact opens_four (by decide) (by decide) (by omega) fun n => by simp; omega
  · obtain rfl := Option.some.inj hbegin
    exact opens_four (by decide) (by decide) (by omega) fun n => by simp; omega

theorem encodeChar_ascii (h : b < 0x80) : encodeChar (Char.ofNat b.toNat) = [b] := by
  have hb : b.toNat < 0x80 := by simpa [UInt8.lt_iff_toNat_lt] using h
  have hchar : (Char.ofNat b.toNat).toNat = b.toNat := toNat_ofNat_of_valid (by omega)
  simp only [encodeChar, hchar]
  rw [if_pos hb, eq_toUInt8 rfl]

end Opening

namespace Begun

variable {c : Begun} {front : Bytes} {b : UInt8}

theorem Opens.next (h : c.Opens front) (hlow : c.low ≤ b) (hhigh : b ≤ c.high) (n : Nat)
    (hn : n / 64 ^ (c.owed - 1) = c.code * 64 + (b.toNat - 0x80)) :
    encodeChar (Char.ofNat n) = front ++ b :: tailBytes (c.owed - 1) n := by
  obtain ⟨owed, howed⟩ := Nat.exists_eq_succ_of_ne_zero (Nat.ne_of_gt h.owed)
  have hlow' := h.low
  have hhigh' := h.high
  rw [UInt8.le_iff_toNat_le] at hlow hhigh
  have hdiv : n / 64 ^ c.owed = c.code := by
    rw [howed, Nat.pow_succ, ← Nat.div_div_eq_div_mul]
    rw [howed, Nat.succ_sub_one] at hn
    omega
  have hmod : 0x80 + n / 64 ^ (c.owed - 1) % 64 = b.toNat := by omega
  have hencode := h.encoding n hdiv (by omega) (by omega)
  rw [hencode, howed, tailBytes, Nat.succ_sub_one]
  rw [howed, Nat.succ_sub_one] at hmod
  rw [eq_toUInt8 hmod]

theorem Opens.step (h : c.Opens front) (hlow : c.low ≤ b) (hhigh : b ≤ c.high)
    (howed : ¬ c.owed ≤ 1) :
    Opens ⟨c.code * 64 + (b.toNat - 0x80), c.seen + 1, c.owed - 1, 0x80, 0xBF⟩ (front ++ [b]) := by
  refine ⟨Nat.sub_pos_of_lt (Nat.lt_of_not_le howed), by simp, by simp, fun n hn _ _ => ?_⟩
  rw [h.next hlow hhigh n hn, List.append_assoc]
  rfl

theorem Opens.last (h : c.Opens front) (hlow : c.low ≤ b) (hhigh : b ≤ c.high)
    (howed : c.owed ≤ 1) :
    encodeChar (Char.ofNat (c.code * 64 + (b.toNat - 0x80))) = front ++ [b] := by
  have hzero : c.owed - 1 = 0 := Nat.sub_eq_zero_of_le howed
  have hnext := h.next hlow hhigh (c.code * 64 + (b.toNat - 0x80)) (by simp [hzero])
  rwa [hzero, tailBytes] at hnext

end Begun

/-- The bytes read so far: the characters found, and the bytes of one that has begun. -/
def Scan.Reads (s : Scan) (bs : Bytes) : Prop :=
  ∀ cs, s.pieces = (cs.map .char).reverse →
    match s.begun with
    | none => bs = encode cs
    | some c => ∃ front, bs = encode cs ++ front ∧ c.Opens front

theorem encode_append (cs ds : List Char) : encode (cs ++ ds) = encode cs ++ encode ds :=
  List.flatMap_append

theorem encode_singleton (c : Char) : encode [c] = encodeChar c := by
  simp [encode]

namespace Scan

variable {s : Scan} {bs : Bytes}

theorem eq_of_pieces_cons {ps : List Piece} {c : Char} {cs : List Char}
    (h : .char c :: ps = (cs.map Piece.char).reverse) :
    ∃ ds, cs = ds ++ [c] ∧ ps = (ds.map Piece.char).reverse := by
  obtain rfl | ⟨ds, d, rfl⟩ := cs.eq_nil_or_concat
  · cases h
  · rw [List.concat_eq_append, List.map_append, List.reverse_append] at h
    obtain ⟨hc, hps⟩ := List.cons.inj h
    cases hc
    exact ⟨ds, List.concat_eq_append, hps⟩

theorem not_malformed_cons {ps : List Piece} {n : Nat} {cs : List Char} :
    .malformed n :: ps ≠ (cs.map Piece.char).reverse := by
  intro h
  have hmem : Piece.malformed n ∈ (cs.map Piece.char).reverse := h ▸ List.mem_cons_self
  simp at hmem

theorem Reads.start (h : s.Reads bs) (hnone : s.begun = none) (b : UInt8) :
    (s.start b).Reads (bs ++ [b]) := by
  unfold Scan.start
  split
  case isTrue hascii =>
    intro cs hcs
    obtain ⟨ds, rfl, hds⟩ := eq_of_pieces_cons hcs
    have hread := h ds hds
    rw [hnone] at hread
    show bs ++ [b] = encode (ds ++ [Char.ofNat b.toNat])
    rw [encode_append, encode_singleton, encodeChar_ascii hascii]
    exact congrArg (· ++ [b]) hread
  case isFalse =>
    split
    · exact fun cs hcs => absurd hcs not_malformed_cons
    · rename_i c hbegin
      intro cs hcs
      have hread := h cs hcs
      rw [hnone] at hread
      exact ⟨[b], congrArg (· ++ [b]) hread, opens_begin? hbegin⟩

theorem Reads.step (h : s.Reads bs) (b : UInt8) : (s.step b).Reads (bs ++ [b]) := by
  unfold Scan.step
  cases hbegun : s.begun with
  | none => exact h.start hbegun b
  | some c =>
    simp only
    split
    case isTrue hrange =>
      split
      case isTrue howed =>
        intro cs hcs
        obtain ⟨ds, rfl, hds⟩ := eq_of_pieces_cons hcs
        have hread := h ds hds
        rw [hbegun] at hread
        obtain ⟨front, hfront, hopens⟩ := hread
        show bs ++ [b] = encode (ds ++ [Char.ofNat _])
        rw [encode_append, encode_singleton, hopens.last hrange.1 hrange.2 howed, hfront,
          List.append_assoc]
      case isFalse howed =>
        intro cs hcs
        have hread := h cs hcs
        rw [hbegun] at hread
        obtain ⟨front, hfront, hopens⟩ := hread
        refine ⟨front ++ [b], ?_, hopens.step hrange.1 hrange.2 howed⟩
        rw [hfront, List.append_assoc]
    case isFalse =>
      -- what does not go on is malformed, and stays so
      have hmalformed : Reads ⟨.malformed c.seen :: s.pieces, none⟩ bs :=
        fun cs hcs => absurd hcs not_malformed_cons
      exact hmalformed.start rfl b

theorem Reads.foldl (h : s.Reads bs) (cs : Bytes) : (cs.foldl Scan.step s).Reads (bs ++ cs) := by
  induction cs generalizing s bs with
  | nil => simpa using h
  | cons b cs ih =>
    have hnext := ih (h.step b)
    rwa [List.append_assoc] at hnext

theorem reads_nil : Reads {} [] := by
  intro cs hcs
  have hcs : cs = [] := by simpa using hcs.symm
  rw [hcs]
  rfl

end Scan

theorem eq_map_of_collect {at_ : Nat} {chars cs : List Char} {ps : List Piece}
    (h : collect at_ chars ps = .ok cs) : ∃ ds, ps = ds.map .char ∧ cs = chars.reverse ++ ds := by
  induction ps generalizing at_ chars with
  | nil =>
    cases h
    exact ⟨[], rfl, by simp⟩
  | cons p ps ih =>
    cases p with
    | char c =>
      obtain ⟨ds, rfl, rfl⟩ := ih h
      exact ⟨c :: ds, rfl, by simp⟩
    | malformed n => cases h
    | cut n => cases h

/-- Reading accepts exactly what writing produces. -/
theorem decode_eq_ok_iff {bs : Bytes} {cs : List Char} : decode bs = .ok cs ↔ bs = encode cs := by
  constructor
  · intro h
    obtain ⟨ds, hscan, hcs⟩ := eq_map_of_collect h
    rw [List.reverse_nil, List.nil_append] at hcs
    subst hcs
    have hreads := Scan.reads_nil.foldl bs
    rw [List.nil_append] at hreads
    unfold scan at hscan
    generalize bs.foldl Scan.step {} = s at hreads hscan
    obtain ⟨ps, begun⟩ := s
    cases begun with
    | none => exact hreads cs (by rw [← hscan, Scan.finish, List.reverse_reverse])
    | some c =>
      have hcut : Piece.cut c.seen ∈ cs.map Piece.char := by
        rw [← hscan]
        simp [Scan.finish]
      simp at hcut
  · rintro rfl
    exact decode_encode cs

theorem decode?_eq_some_iff {bs : Bytes} {cs : List Char} :
    decode? bs = some cs ↔ bs = encode cs := by
  rw [← decode_eq_ok_iff, decode?]
  cases decode bs <;> simp [Except.toOption]

theorem scan_eq_of_lossy {bs : Bytes} (h : '\uFFFD' ∉ lossy bs) :
    scan bs = (lossy bs).map .char := by
  rw [lossy, List.mem_map, not_exists] at h
  rw [lossy, List.map_map]
  conv_lhs => rw [← List.map_id (scan bs)]
  refine List.map_congr_left fun p hp => ?_
  cases p with
  | char c => rfl
  | malformed n => exact absurd ⟨hp, rfl⟩ (h _)
  | cut n => exact absurd ⟨hp, rfl⟩ (h _)

/-- Where no replacement is shown, what is shown are the bytes themselves. -/
theorem encode_lossy {bs : Bytes} (h : '\uFFFD' ∉ lossy bs) : encode (lossy bs) = bs := by
  refine (decode_eq_ok_iff.mp ?_).symm
  rw [decode, scan_eq_of_lossy h, collect_char, List.reverse_nil, List.nil_append]

end LanguageClient.Utf8
