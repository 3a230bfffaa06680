import LanguageClient.Proofs.FileUri.Encoding
import LanguageClient.Proofs.Text.Ascii
import Mathlib.Data.List.TakeWhile

namespace LanguageClient.FileUri

open LanguageClient.Path (slash dot IsName)

theorem utf8_ofNat_byte {b : UInt8} (h : b < 0x80) :
    Utf8.encode [Char.ofNat b.toNat] = [b] := by
  rw [Utf8.encode_singleton, Utf8.encodeChar_ascii h]

theorem decode_cons {b : UInt8} (h : b ≠ percent) (rest : Bytes) :
    decode (b :: rest) = b :: decode rest := by
  cases rest with
  | nil => rfl
  | cons hi rest =>
    cases rest with
    | nil => rfl
    | cons lo rest => rw [decode, if_neg h]

theorem hexValue?_upperHex : ∀ k : Fin 16, Text.hexValue? (upperHex k.val) = some k.val := by
  decide

theorem utf8_upperHex : ∀ k : Fin 16,
    ∃ b : UInt8, Utf8.encodeChar (upperHex k.val) = [b] ∧ Char.ofNat b.toNat = upperHex k.val := by
  intro k
  refine ⟨(upperHex k.val).toNat.toUInt8, ?_⟩
  revert k
  decide

/-- The three characters of an escaped byte are read as that byte. -/
theorem decode_escaped (b : UInt8) (rest : Bytes) :
    decode (Utf8.encode ['%', upperHex (b.toNat / 16), upperHex b.toNat] ++ rest) =
      b :: decode rest := by
  have hb : b.toNat < 256 := b.toNat_lt
  -- both digits are below sixteen, where all that is needed of them has been decided
  let h : Fin 16 := ⟨b.toNat / 16, by omega⟩
  let l : Fin 16 := ⟨b.toNat % 16, by omega⟩
  have hhigh : upperHex (b.toNat / 16) = upperHex h.val := rfl
  have hlow : upperHex b.toNat = upperHex l.val := upperHex_mod _
  obtain ⟨hi, hhi, hhigh'⟩ := utf8_upperHex h
  obtain ⟨lo, hlo, hlow'⟩ := utf8_upperHex l
  have hbytes : Utf8.encode ['%', upperHex (b.toNat / 16), upperHex b.toNat] =
      [percent, hi, lo] := by
    rw [hhigh, hlow]
    simp only [Utf8.encode, List.flatMap_cons, List.flatMap_nil, hhi, hlo]
    rfl
  have hread : hexByte? hi lo = some b := by
    have hsum : 16 * h.val + l.val = b.toNat := by
      change 16 * (b.toNat / 16) + b.toNat % 16 = b.toNat
      omega
    rw [hexByte?, hhigh', hlow', hexValue?_upperHex, hexValue?_upperHex]
    change some (16 * h.val + l.val).toUInt8 = some b
    rw [hsum]
    simp
  rw [hbytes]
  simp only [List.cons_append, List.nil_append]
  rw [decode, if_pos rfl, hread]

theorem decode_encodeByte (b : UInt8) (rest : Bytes) :
    decode (Utf8.encode (encodeByte b) ++ rest) = b :: decode rest := by
  unfold encodeByte
  split
  · rename_i hplain
    obtain ⟨hprintable, hne⟩ := ofNat_of_isPlain hplain
    have hpercent : b ≠ percent := by
      rintro rfl
      exact hne '%' (by decide) rfl
    have hascii : b < 0x80 := by
      rw [UInt8.lt_iff_toNat_lt]
      change b.toNat < 128
      omega
    rw [utf8_ofNat_byte hascii]
    exact decode_cons hpercent rest
  · exact decode_escaped b rest

def encodeName (n : Bytes) : List Char :=
  n.flatMap encodeByte

theorem decode_encodeName (n : Bytes) : decode (Utf8.encode (encodeName n)) = n := by
  induction n with
  | nil => rfl
  | cons b n ih =>
    rw [encodeName, List.flatMap_cons, Utf8.encode_append, decode_encodeByte]
    congr 1

/-- The texts that have this one as their lower case. -/
def spellings : List Char → List (List Char)
  | [] => [[]]
  | d :: ds =>
    let fronts := if 97 ≤ d.toNat ∧ d.toNat ≤ 122 then [d, Char.ofNat (d.toNat - 32)] else [d]
    fronts.flatMap fun c => (spellings ds).map (c :: ·)

theorem mem_spellings (cs : List Char) : cs ∈ spellings (cs.map Text.lowerChar) := by
  induction cs with
  | nil => exact List.mem_singleton.mpr rfl
  | cons c cs ih =>
    rw [List.map_cons, spellings, List.mem_flatMap]
    refine ⟨c, ?_, List.mem_map_of_mem ih⟩
    obtain heq | ⟨hletter, hnat⟩ := Text.eq_of_lowerChar (c := c) rfl
    · rw [← heq]
      split
      case isTrue => exact List.mem_cons_self
      case isFalse => exact List.mem_singleton.mpr rfl
    · rw [if_pos hletter, ← hnat, Nat.add_sub_cancel, Char.ofNat_toNat]
      exact List.mem_cons_of_mem _ (List.mem_singleton.mpr rfl)

theorem mem_spellings_lower (cs : List Char) :
    cs ∈ spellings (Text.lower (String.ofList cs)).toList := by
  rw [Text.lower, String.toList_ofList, String.toList_ofList]
  exact mem_spellings cs

theorem decode_of_isUpward {segment : List Char} (h : isUpward segment = true) :
    decode (Utf8.encode segment) = [dot, dot] := by
  have hdots : ∀ s ∈ ["..", "%2e%2e", "%2e.", ".%2e"], ∀ cs ∈ spellings s.toList,
      decode (Utf8.encode cs) = [dot, dot] := by decide
  exact hdots _ (List.contains_iff_mem.mp h) segment (mem_spellings_lower segment)

theorem decode_of_isIdle {segment : List Char} (h : isIdle segment = true) :
    decode (Utf8.encode segment) = [dot] := by
  have hdot : ∀ s ∈ [".", "%2e"], ∀ cs ∈ spellings s.toList,
      decode (Utf8.encode cs) = [dot] := by decide
  exact hdot _ (List.contains_iff_mem.mp h) segment (mem_spellings_lower segment)

variable {n : Bytes} {names : List Bytes}

theorem not_isUpward_encodeName (h : IsName n) : isUpward (encodeName n) = false := by
  rw [Bool.eq_false_iff]
  intro hup
  apply h.ne_dots
  rw [← decode_encodeName n, decode_of_isUpward hup]

theorem not_isIdle_encodeName (h : IsName n) : isIdle (encodeName n) = false := by
  rw [Bool.eq_false_iff]
  intro hidle
  apply h.ne_dot
  rw [← decode_encodeName n, decode_of_isIdle hidle]

theorem isBreak_eq_false {c : Char} (h : 0x20 < c.toNat) : isBreak c = false := by
  have hne (d : Char) (hd : d.toNat ≤ 0x20) : c ≠ d := by
    rintro rfl
    omega
  simp [isBreak, hne '\t' (by decide), hne '\n' (by decide), hne '\r' (by decide)]

theorem bare_encodeName (n : Bytes) : bare (encodeName n) = encodeName n := by
  rw [bare, List.filter_eq_self]
  intro c hc
  rw [isBreak_eq_false (isStepChar_of_mem_bytes hc).visible]
  rfl

theorem done_along {w : Walk} (hdone : w.done ≠ []) (h : ∀ n ∈ names, IsName n) :
    (w.along (names.map encodeName)).done = (names.map encodeName).reverse ++ w.done := by
  induction names generalizing w with
  | nil => rfl
  | cons n names ih =>
    obtain ⟨hn, hnames⟩ := List.forall_mem_cons.mp h
    have hdone' : w.done.isEmpty = false := by simpa using hdone
    have henter (last : Bool) : w.enter last (encodeName n) = w.add (encodeName n) := by
      simp [Walk.enter, Walk.settle, hdone', bare_encodeName, not_isUpward_encodeName hn,
        not_isIdle_encodeName hn]
    rw [List.map_cons, Walk.along, henter, ih (List.cons_ne_nil _ _) hnames, List.reverse_cons,
      List.append_assoc, List.singleton_append]
    rfl

theorem splitOnP_encodeName (n : Bytes) : (encodeName n).splitOnP isSlash = [encodeName n] := by
  apply List.splitOnP_eq_singleton
  intro c hc
  have hchar := isStepChar_of_mem_bytes hc
  simp [isSlash, hchar.ne_slash, hchar.ne_backslash]

/-- The text of a URI behind the slash at the front of the path. -/
def body : List Bytes → List Char
  | [] => []
  | n :: names => encodeName n ++ (names.map Path.Step.name).flatMap encodeStep

theorem written_names (names : List Bytes) : written (names.map .name) = '/' :: body names := by
  cases names <;> rfl

theorem splitOnP_body (n : Bytes) (names : List Bytes) :
    (body (n :: names)).splitOnP isSlash = (n :: names).map encodeName := by
  induction names generalizing n with
  | nil => simp [body, splitOnP_encodeName]
  | cons m names ih =>
    have hbody : body (n :: m :: names) = encodeName n ++ '/' :: body (m :: names) := rfl
    rw [hbody, List.splitOnP_append_cons _ _ rfl, splitOnP_encodeName, ih]
    rfl

theorem isStepChar_of_mem_body {c : Char} (h : c ∈ body names) : c = '/' ∨ IsStepChar c := by
  have hwritten : c ∈ written (names.map .name) := by
    rw [written_names]
    exact List.mem_cons_of_mem _ h
  exact eq_slash_or_isStepChar hwritten

theorem dropEmptyFront_cons {s : List Char} (h : s ≠ []) (ss : List (List Char)) :
    dropEmptyFront (s :: ss) = s :: ss := by
  cases s with
  | nil => exact absurd rfl h
  | cons c s => rfl

theorem encodeName_ne_nil (h : n ≠ []) : encodeName n ≠ [] := by
  intro hempty
  apply h
  rw [← decode_encodeName n, hempty]
  rfl

theorem closeDrive_eq (bs : Bytes) : closeDrive bs = bs ∨ closeDrive bs = bs ++ [slash] := by
  unfold closeDrive
  split
  · split
    · exact .inr rfl
    · exact .inl rfl
  · exact .inl rfl

theorem steps_closeDrive {bs : Bytes} (h : (Path.mk bs).isAbsolute = true) :
    (Path.mk (closeDrive bs)).steps = (Path.mk bs).steps := by
  obtain hsame | hslash := closeDrive_eq bs
  · rw [hsame]
  · have habsolute : (Path.mk (bs ++ [slash])).isAbsolute = true := by
      obtain ⟨rest, rfl⟩ := Path.isAbsolute_iff.mp h
      rfl
    rw [hslash, Path.steps_of_isAbsolute habsolute, Path.steps_of_isAbsolute h,
      Path.below_append_slash]

theorem flatMap_decode (names : List Bytes) :
    (names.map encodeName).flatMap (fun s => slash :: decode (Utf8.encode s)) =
      names.flatMap (slash :: ·) := by
  rw [List.flatMap_map]
  simp only [decode_encodeName]

/-- The slash at the front, which no host precedes, makes an empty segment. -/
theorem segments_body (names : List Bytes) :
    segments ('/' :: body names) = [] :: (body names).splitOnP isSlash := by
  have hwhole : ('/' :: body names).takeWhile (fun c => c != '?' && c != '#') =
      '/' :: body names := by
    rw [List.takeWhile_eq_self_iff]
    intro c hc
    obtain rfl | hc := List.mem_cons.mp hc
    · rfl
    · obtain rfl | hchar := isStepChar_of_mem_body hc
      · rfl
      · simp [hchar.ne_question, hchar.ne_hash]
  rw [segments, hwhole]
  exact List.splitOnP_append_cons [] _ rfl

theorem done_walk {n : Bytes} (h : ∀ m ∈ n :: names, IsName m) :
    (walk ('/' :: body (n :: names))).done.reverse = [] :: (n :: names).map encodeName := by
  have hfront : Walk.enter {} false [] = Walk.add {} [] := rfl
  rw [walk, segments_body, splitOnP_body, Walk.along, List.map_cons, List.isEmpty_cons, hfront,
    ← List.map_cons, done_along (List.cons_ne_nil _ _) h, List.reverse_append, List.reverse_reverse]
  rfl

theorem steps_walk (h : ∀ n ∈ names, IsName n) :
    (walk ('/' :: body names)).path.steps = .root :: names.map .name := by
  rw [← Path.steps_rooted h]
  cases names with
  | nil => decide
  | cons n names =>
    have hne : encodeName n ≠ [] := encodeName_ne_nil (h n List.mem_cons_self).ne_nil
    have hdropped : dropEmptyFront ([] :: (n :: names).map encodeName) =
        (n :: names).map encodeName := dropEmptyFront_cons hne _
    rw [Walk.path, done_walk h, hdropped, flatMap_decode]
    exact steps_closeDrive rfl

theorem trimmed_eq {cs : List Char} (h : ∀ c ∈ cs, 0x20 < c.toNat) :
    trimmed (String.ofList cs) = cs := by
  have hfront {ds : List Char} (hds : ∀ c ∈ ds, 0x20 < c.toNat) :
      ds.dropWhile (· ≤ ' ') = ds := by
    cases ds with
    | nil => rfl
    | cons d ds =>
      apply List.dropWhile_cons_of_neg
      have hd : ' ' < d := hds d List.mem_cons_self
      simpa using hd
  rw [trimmed, String.toList_ofList, hfront h, hfront fun c hc => h c (List.mem_reverse.mp hc),
    List.reverse_reverse]

theorem visible_of_mem_scheme {c : Char} (h : c ∈ scheme) : 0x20 < c.toNat := by
  have hall : scheme.all (fun c => 0x20 < c.toNat) = true := rfl
  simpa using List.all_eq_true.mp hall c h

theorem toPath?_eq {uri : String} {cs : List Char} (h : trimmed uri = scheme ++ '/' :: cs) :
    toPath? uri = some (walk ('/' :: cs)).path := by
  unfold toPath?
  rw [h]
  rfl

/-- The URI of a path that does not go up is read as that path. -/
theorem toPath?_ofPath? {p : Path} (h : p.isAbsolute = true) (hup : .up ∉ p.steps) :
    ∃ uri q, ofPath? p = some uri ∧ toPath? uri = some q ∧ q.steps = p.steps := by
  obtain ⟨names, hnames, hsteps⟩ := Path.exists_names h hup
  have huri : ofPath? p = some (String.ofList (scheme ++ written (names.map .name))) :=
    ofPath?_eq_some.mpr ⟨_, hsteps, rfl⟩
  have htrimmed : trimmed (String.ofList (scheme ++ written (names.map .name))) =
      scheme ++ '/' :: body names := by
    rw [trimmed_eq, written_names]
    intro c hc
    obtain hc | hc := List.mem_append.mp hc
    · exact visible_of_mem_scheme hc
    · obtain rfl | hchar := eq_slash_or_isStepChar hc
      · decide
      · exact hchar.visible
  exact ⟨_, _, huri, toPath?_eq htrimmed, by rw [steps_walk hnames, hsteps]⟩

/-- A name spelt as a dot may be in a URI, and one that is not text. -/
theorem toPath?_ofPath?_dot :
    (Path.mk [0x2F, 0x25, 0x32, 0x65, 0x2F, 0xFF]).isAbsolute = true ∧
      .up ∉ (Path.mk [0x2F, 0x25, 0x32, 0x65, 0x2F, 0xFF]).steps ∧
      ∃ uri q, ofPath? ⟨[0x2F, 0x25, 0x32, 0x65, 0x2F, 0xFF]⟩ = some uri ∧ toPath? uri = some q ∧
        q.steps = [.root, .name [0x25, 0x32, 0x65], .name [0xFF]] := by
  have habsolute : (Path.mk [0x2F, 0x25, 0x32, 0x65, 0x2F, 0xFF]).isAbsolute = true := by decide
  have hup : .up ∉ (Path.mk [0x2F, 0x25, 0x32, 0x65, 0x2F, 0xFF]).steps := by decide
  obtain ⟨uri, q, huri, hq, hsteps⟩ := toPath?_ofPath? habsolute hup
  exact ⟨habsolute, hup, uri, q, huri, hq, hsteps.trans (by decide)⟩

end LanguageClient.FileUri
