import LanguageClient.FileUri
import LanguageClient.Proofs.Path.Steps

namespace LanguageClient.FileUri

theorem upperHex_injective : ∀ m n : Fin 16, upperHex m.val = upperHex n.val → m = n := by
  decide

theorem upperHex_mod (n : Nat) : upperHex n = upperHex (n % 16) := by
  unfold upperHex
  rw [Nat.mod_mod]

theorem mod_eq_of_upperHex {m n : Nat} (h : upperHex m = upperHex n) : m % 16 = n % 16 := by
  rw [upperHex_mod m, upperHex_mod n] at h
  have hfin := upperHex_injective ⟨m % 16, Nat.mod_lt _ (by decide)⟩
    ⟨n % 16, Nat.mod_lt _ (by decide)⟩ h
  exact congrArg Fin.val hfin

theorem toNat_ofNat_byte (b : UInt8) : (Char.ofNat b.toNat).toNat = b.toNat := by
  have hlt : b.toNat < 256 := b.toNat_lt
  have hvalid : b.toNat.isValidChar := .inl (by omega)
  rw [Char.ofNat, dif_pos hvalid]
  rfl

theorem eq_of_ofNat_byte {a b : UInt8} (h : Char.ofNat a.toNat = Char.ofNat b.toNat) : a = b := by
  have hnat := congrArg Char.toNat h
  rw [toNat_ofNat_byte, toNat_ofNat_byte] at hnat
  exact UInt8.toNat_inj.mp hnat

theorem ofNat_of_isPlain {b : UInt8} (h : isPlain b = true) :
    (0x20 < b.toNat ∧ b.toNat < 0x7F) ∧
      ∀ c ∈ ['#', '%', '/', '?', '\\'], Char.ofNat b.toNat ≠ c := by
  unfold isPlain at h
  simp only [Bool.and_eq_true, Bool.not_eq_true', List.any_eq_false, beq_iff_eq,
    decide_eq_true_eq, UInt8.lt_iff_toNat_lt] at h
  obtain ⟨hprintable, hnone⟩ := h
  refine ⟨hprintable, ?_⟩
  intro c hc heq
  have hescaped : ∀ c ∈ ['#', '%', '/', '?', '\\'],
      c ∈ ['"', '#', '%', '/', '<', '>', '?', '\\', '`', '{', '}'] := by simp
  have hnat := congrArg Char.toNat heq
  rw [toNat_ofNat_byte] at hnat
  exact hnone c (hescaped c hc) hnat.symm

/-- A character that the URI of a file may have within a step. -/
structure IsStepChar (c : Char) : Prop where
  visible : 0x20 < c.toNat
  ascii : c.toNat < 0x7F
  ne_hash : c ≠ '#'
  ne_question : c ≠ '?'
  ne_slash : c ≠ '/'
  ne_backslash : c ≠ '\\'

theorem isStepChar_upperHex (n : Nat) : IsStepChar (upperHex n) := by
  have hall : ∀ k : Fin 16, let c := upperHex k.val
      0x20 < c.toNat ∧ c.toNat < 0x7F ∧ c ≠ '#' ∧ c ≠ '?' ∧ c ≠ '/' ∧ c ≠ '\\' := by
    decide
  rw [upperHex_mod]
  obtain ⟨hvisible, hascii, hhash, hquestion, hslash, hback⟩ :=
    hall ⟨n % 16, Nat.mod_lt _ (by decide)⟩
  exact ⟨hvisible, hascii, hhash, hquestion, hslash, hback⟩

theorem isStepChar_of_mem_encodeByte {b : UInt8} {c : Char} (h : c ∈ encodeByte b) :
    IsStepChar c := by
  unfold encodeByte at h
  split at h
  · rename_i hplain
    obtain ⟨hprintable, hne⟩ := ofNat_of_isPlain hplain
    obtain rfl := List.mem_singleton.mp h
    exact ⟨by rw [toNat_ofNat_byte]; exact hprintable.1,
      by rw [toNat_ofNat_byte]; exact hprintable.2,
      hne '#' (by decide), hne '?' (by decide), hne '/' (by decide), hne '\\' (by decide)⟩
  · simp only [List.mem_cons, List.not_mem_nil, or_false] at h
    obtain rfl | rfl | rfl := h
    · exact ⟨by decide, by decide, by decide, by decide, by decide, by decide⟩
    · exact isStepChar_upperHex _
    · exact isStepChar_upperHex _

theorem isStepChar_of_mem_bytes {bs : Bytes} {c : Char} (h : c ∈ bs.flatMap encodeByte) :
    IsStepChar c := by
  obtain ⟨b, -, hb⟩ := List.mem_flatMap.mp h
  exact isStepChar_of_mem_encodeByte hb

/-- A byte can be told from the front of what is written. -/
theorem encodeByte_append_inj {a b : UInt8} {xs ys : List Char}
    (h : encodeByte a ++ xs = encodeByte b ++ ys) : a = b ∧ xs = ys := by
  unfold encodeByte at h
  -- a plain byte is never written as a percent sign, with which every escape begins
  by_cases ha : isPlain a = true <;> by_cases hb : isPlain b = true
  · rw [if_pos ha, if_pos hb] at h
    obtain ⟨hc, hrest⟩ := List.cons.inj h
    exact ⟨eq_of_ofNat_byte hc, hrest⟩
  · rw [if_pos ha, if_neg hb] at h
    exact absurd (List.cons.inj h).1 ((ofNat_of_isPlain ha).2 '%' (by decide))
  · rw [if_neg ha, if_pos hb] at h
    exact absurd (List.cons.inj h).1.symm ((ofNat_of_isPlain hb).2 '%' (by decide))
  · rw [if_neg ha, if_neg hb] at h
    obtain ⟨-, h⟩ := List.cons.inj h
    obtain ⟨hhigh, h⟩ := List.cons.inj h
    obtain ⟨hlow, hrest⟩ := List.cons.inj h
    have hhigh := mod_eq_of_upperHex hhigh
    have hlow := mod_eq_of_upperHex hlow
    have hla : a.toNat < 256 := a.toNat_lt
    have hlb : b.toNat < 256 := b.toNat_lt
    exact ⟨UInt8.toNat_inj.mp (by omega), hrest⟩

theorem encodeBytes_injective {xs ys : Bytes} (h : xs.flatMap encodeByte = ys.flatMap encodeByte) :
    xs = ys := by
  have hne (b : UInt8) : encodeByte b ≠ [] := by
    unfold encodeByte
    split <;> simp
  induction xs generalizing ys with
  | nil =>
    cases ys with
    | nil => rfl
    | cons y ys => simp [hne y] at h
  | cons x xs ih =>
    cases ys with
    | nil => simp [hne x] at h
    | cons y ys =>
      rw [List.flatMap_cons, List.flatMap_cons] at h
      obtain ⟨rfl, hrest⟩ := encodeByte_append_inj h
      rw [ih hrest]

/-- What is written behind a step is nothing, or begins with a slash. -/
def BeginsWithSlash (cs : List Char) : Prop :=
  cs = [] ∨ ∃ rest, cs = '/' :: rest

theorem append_inj_of_slash {xs ys us vs : List Char} (hx : '/' ∉ xs) (hy : '/' ∉ ys)
    (hu : BeginsWithSlash us) (hv : BeginsWithSlash vs) (h : xs ++ us = ys ++ vs) :
    xs = ys ∧ us = vs := by
  induction xs generalizing ys with
  | nil =>
    cases ys with
    | nil => exact ⟨rfl, h⟩
    | cons y ys =>
      exfalso
      obtain rfl | ⟨rest, rfl⟩ := hu
      · cases h
      · have heq : '/' = y := (List.cons.inj h).1
        exact hy (heq ▸ List.mem_cons_self)
  | cons x xs ih =>
    cases ys with
    | nil =>
      exfalso
      obtain rfl | ⟨rest, rfl⟩ := hv
      · cases h
      · have heq : x = '/' := (List.cons.inj h).1
        exact hx (heq ▸ List.mem_cons_self)
    | cons y ys =>
      obtain ⟨rfl, htail⟩ := List.cons.inj h
      have hx' : '/' ∉ xs := fun hmem => hx (List.mem_cons_of_mem _ hmem)
      have hy' : '/' ∉ ys := fun hmem => hy (List.mem_cons_of_mem _ hmem)
      obtain ⟨rfl, hrest⟩ := ih hx' hy' htail
      exact ⟨rfl, hrest⟩

theorem beginsWithSlash_steps (steps : List Path.Step) :
    BeginsWithSlash (steps.flatMap encodeStep) := by
  cases steps with
  | nil => exact .inl rfl
  | cons s steps => exact .inr ⟨_, rfl⟩

theorem slash_notMem_bytes (bs : Bytes) : '/' ∉ bs.flatMap encodeByte := by
  intro hmem
  exact (isStepChar_of_mem_bytes hmem).ne_slash rfl

theorem encodeSteps_injective {ss ts : List Path.Step} (hs : ∀ s ∈ ss, s.IsPlain)
    (ht : ∀ t ∈ ts, t.IsPlain) (h : ss.flatMap encodeStep = ts.flatMap encodeStep) : ss = ts := by
  induction ss generalizing ts with
  | nil =>
    cases ts with
    | nil => rfl
    | cons t ts => cases h
  | cons s ss ih =>
    cases ts with
    | nil => cases h
    | cons t ts =>
      rw [List.flatMap_cons, List.flatMap_cons] at h
      obtain ⟨-, h⟩ := List.cons.inj h
      obtain ⟨hbytes, hrest⟩ := append_inj_of_slash (slash_notMem_bytes _) (slash_notMem_bytes _)
        (beginsWithSlash_steps ss) (beginsWithSlash_steps ts) h
      have heq : s = t := (hs s List.mem_cons_self).eq_of_bytes (ht t List.mem_cons_self)
        (encodeBytes_injective hbytes)
      have hrest := ih (fun s hmem => hs s (List.mem_cons_of_mem _ hmem))
        (fun t hmem => ht t (List.mem_cons_of_mem _ hmem)) hrest
      rw [heq, hrest]

/-- The text of a URI behind its scheme. -/
def written (below : List Path.Step) : List Char :=
  if below = [] then ['/'] else below.flatMap encodeStep

theorem ofPath?_eq_some {p : Path} {uri : String} :
    ofPath? p = some uri ↔
      ∃ below, p.steps = .root :: below ∧ uri = String.ofList (scheme ++ written below) := by
  unfold ofPath?
  constructor
  · intro h
    split at h
    · rename_i hp
      exact ⟨[], hp, by simpa [written] using h.symm⟩
    · rename_i below hne hp
      have hbelow : below ≠ [] := fun heq => hne heq
      exact ⟨below, hp, by simpa [written, hbelow] using h.symm⟩
    · cases h
  · rintro ⟨below, hp, rfl⟩
    rw [hp]
    cases below <;> simp [written]

theorem written_injective {ss ts : List Path.Step} (hs : ∀ s ∈ ss, s.IsPlain)
    (ht : ∀ t ∈ ts, t.IsPlain) (h : written ss = written ts) : ss = ts := by
  -- a single slash is the root alone: below it, bytes follow
  have hroot {t : Path.Step} {ts : List Path.Step} (ht : t.IsPlain) :
      (t :: ts).flatMap encodeStep ≠ ['/'] := by
    intro heq
    rw [List.flatMap_cons] at heq
    obtain ⟨-, heq⟩ := List.cons.inj heq
    have hempty : t.bytes.flatMap encodeByte = ([] : Bytes).flatMap encodeByte :=
      (List.append_eq_nil_iff.mp heq).1
    exact ht.bytes_ne_nil (encodeBytes_injective hempty)
  unfold written at h
  cases ss with
  | nil =>
    cases ts with
    | nil => rfl
    | cons t ts => exact absurd h.symm (hroot (ht t List.mem_cons_self))
  | cons s ss =>
    cases ts with
    | nil => exact absurd h (hroot (hs s List.mem_cons_self))
    | cons t ts => exact encodeSteps_injective hs ht h

theorem exists_uri_of_isAbsolute {p : Path} (h : p.isAbsolute = true) :
    ∃ uri, ofPath? p = some uri :=
  ⟨_, ofPath?_eq_some.mpr ⟨p.below, Path.steps_of_isAbsolute h, rfl⟩⟩

theorem ofPath?_congr {p q : Path} (h : p.steps = q.steps) : ofPath? p = ofPath? q := by
  unfold ofPath?
  rw [h]

theorem eq_slash_or_isStepChar {below : List Path.Step} {c : Char} (h : c ∈ written below) :
    c = '/' ∨ IsStepChar c := by
  unfold written at h
  split at h
  · exact .inl (List.mem_singleton.mp h)
  · obtain ⟨s, -, hs⟩ := List.mem_flatMap.mp h
    obtain rfl | hs := List.mem_cons.mp hs
    · exact .inl rfl
    · exact .inr (isStepChar_of_mem_bytes hs)

theorem exists_written_eq_cons (below : List Path.Step) : ∃ rest, written below = '/' :: rest := by
  unfold written
  cases below with
  | nil => exact ⟨[], rfl⟩
  | cons s below => exact ⟨_, rfl⟩

theorem steps_eq_of_ofPath? {p q : Path} {uri : String} (hp : ofPath? p = some uri)
    (hq : ofPath? q = some uri) : p.steps = q.steps := by
  obtain ⟨ss, hps, rfl⟩ := ofPath?_eq_some.mp hp
  obtain ⟨ts, hqs, heq⟩ := ofPath?_eq_some.mp hq
  have hlist := congrArg String.toList heq
  rw [String.toList_ofList, String.toList_ofList] at hlist
  have hwritten := List.append_cancel_left hlist
  rw [hps, hqs, written_injective (fun s hs => Path.isPlain_of_steps hps hs)
    (fun t ht => Path.isPlain_of_steps hqs ht) hwritten]

/-- The URI of an absolute path is that of no other path, and none of its characters has to be
escaped. -/
theorem ofPath?_faithful {p q : Path} (hp : p.isAbsolute = true) :
    (ofPath? p = ofPath? q ↔ p.steps = q.steps) ∧
      ∃ uri rest, ofPath? p = some uri ∧ uri.toList = "file:///".toList ++ rest ∧
        ∀ c ∈ rest, 0x20 < c.toNat ∧ c.toNat < 0x7F ∧ c ≠ '#' ∧ c ≠ '?' := by
  obtain ⟨uri, huri⟩ := exists_uri_of_isAbsolute hp
  constructor
  · constructor
    · intro h
      exact steps_eq_of_ofPath? huri (h ▸ huri)
    · exact ofPath?_congr
  · obtain ⟨below, hsteps, rfl⟩ := ofPath?_eq_some.mp huri
    obtain ⟨rest, hrest⟩ := exists_written_eq_cons below
    refine ⟨_, rest, huri, ?_, ?_⟩
    · rw [String.toList_ofList, hrest]
      rfl
    · intro c hc
      have hmem : c ∈ written below := by
        rw [hrest]
        exact List.mem_cons_of_mem _ hc
      obtain rfl | h := eq_slash_or_isStepChar hmem
      · decide
      · exact ⟨h.visible, h.ascii, h.ne_hash, h.ne_question⟩

theorem ofPath?_faithful_percent :
    (Path.ofText "/a b").isAbsolute = true ∧
      ofPath? (Path.ofText "/a b") = ofPath? (Path.ofText "//a b/.") ∧
      ofPath? (Path.ofText "/a b") ≠ ofPath? (Path.ofText "/a%20b") := by
  have hp : (Path.ofText "/a b").isAbsolute = true := by decide
  refine ⟨hp, (ofPath?_faithful hp).1.mpr (by decide), ?_⟩
  rw [ne_eq, (ofPath?_faithful hp).1]
  decide

end LanguageClient.FileUri
