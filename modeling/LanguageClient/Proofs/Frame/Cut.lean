import LanguageClient.Proofs.Frame.RoundTrip

namespace LanguageClient

namespace Frame

theorem take_encode {cs : List Char} (h : ∀ c ∈ cs, c.toNat < 0x80) (i : Nat) :
    (Utf8.encode cs).take i = Utf8.encode (cs.take i) := by
  induction cs generalizing i with
  | nil => simp [Utf8.encode]
  | cons c cs ih =>
    obtain ⟨hc, hcs⟩ := List.forall_mem_cons.mp h
    have hone : Utf8.encodeChar c = [c.toNat.toUInt8] := by simp [Utf8.encodeChar, hc]
    cases i with
    | zero => rfl
    | succ i =>
      have hrest := ih hcs i
      simp only [Utf8.encode, List.flatMap_cons, List.take_succ_cons, hone] at hrest ⊢
      rw [List.singleton_append, List.take_succ_cons, hrest, List.singleton_append]

theorem lengthLine_ascii (n : Nat) : ∀ c ∈ lengthLine n, c.toNat < 0x80 ∧ c ≠ '\n' := by
  intro c hc
  obtain hc | rfl | rfl | hc | rfl : c ∈ lengthName.toList ∨ c = ':' ∨ c = ' ' ∨
      c ∈ Nat.toDigits 10 n ∨ c = '\r' := by simpa [lengthLine] using hc
  · have hletters :
        lengthName.toList.all (fun c => decide (c.toNat < 0x80 ∧ c ≠ '\n')) = true := by decide
    exact of_decide_eq_true (List.all_eq_true.mp hletters c hc)
  · decide
  · decide
  · have hdigit := Text.isDigit_of_mem_toDigits hc
    have hrange : 0x30 ≤ c.toNat ∧ c.toNat ≤ 0x39 := by
      simpa [Text.isDigit, Char.le_def, UInt32.le_iff_toNat_le] using hdigit
    refine ⟨by omega, ?_⟩
    rintro rfl
    exact absurd hrange.1 (by decide)
  · decide

section Headers

variable {started : Bool} {length : Option Nat}

theorem readHeaders_nil : readHeaders true true length [] = .failed .headerCutShort [] := by
  rw [readHeaders]
  rfl

theorem readHeaders_unfinished {line : List Char} (hfeed : '\n' ∉ line)
    (hblank : Line.ofText line ≠ .ok .blank) :
    ∃ fault, readHeaders true started length (Utf8.encode line) = .failed fault [] := by
  have hbytes := lineFeed_not_mem_encode hfeed
  have hall : ∀ b ∈ Utf8.encode line, (b != lineFeed) = true := fun b hb =>
    bne_iff_ne.mpr (ne_of_mem_of_not_mem hb hbytes)
  have hdrop := List.dropWhile_eq_nil_iff.mpr hall
  have hfirst : firstLine (Utf8.encode line) = Utf8.encode line := by
    rw [firstLine, List.takeWhile_eq_self_iff.mpr hall, hdrop]
    simp
  have hafter : afterLine (Utf8.encode line) = [] := by
    rw [afterLine, hdrop]
    rfl
  have hbytesNe : Utf8.encode line ≠ [] := by
    cases line with
    | nil => exact absurd rfl hblank
    | cons c cs => simp [Utf8.encode, Utf8.encodeChar_ne_nil]
  have hread : Line.ofBytes (firstLine (Utf8.encode line)) = Line.ofText line := by
    rw [hfirst, Line.ofBytes_encode]
  rw [readHeaders, dif_neg hbytesNe, if_neg (by simp), hread, hafter]
  cases hline : Line.ofText line with
  | error fault => exact ⟨fault, rfl⟩
  | ok what =>
    cases what with
    | blank => exact absurd hline hblank
    | length n => exact ⟨.headerCutShort, readHeaders_nil⟩
    | other => exact ⟨.headerCutShort, readHeaders_nil⟩

theorem readHeaders_carriageReturn (n : Nat) :
    readHeaders true true (some n) (Utf8.encode ['\r']) = .complete (some n) [] := by
  rw [readHeaders]
  rfl

theorem readHeaders_take_lengthLine {n i : Nat} (hi : 0 < i) :
    ∃ fault, readHeaders true started length ((Utf8.encode (lengthLine n)).take i) =
      .failed fault [] := by
  rw [take_encode fun c hc => (lengthLine_ascii n c hc).1]
  obtain ⟨i, rfl⟩ := Nat.exists_eq_succ_of_ne_zero (Nat.ne_of_gt hi)
  -- whatever is left of the line, it begins with the name
  have hhead : 'C' ∈ (lengthLine n).take (i + 1) := by
    simp [lengthLine, lengthName]
  apply readHeaders_unfinished
  case hfeed => exact fun hmem => (lengthLine_ascii n '\n' (List.mem_of_mem_take hmem)).2 rfl
  case hblank =>
    intro hline
    have htrim := Text.trim_ne_nil hhead (by decide)
    unfold Line.ofText at hline
    simp only [List.isEmpty_iff, htrim, if_false] at hline
    split at hline
    · cases hline
    · split at hline
      · cases hline
      · split at hline <;> cases hline

end Headers

theorem readBody_short {n : Nat} {bs : Bytes} (hfits : n ≤ maxBody) (hshort : bs.length < n) :
    readBody true n bs = .failed .bodyCutShort [] := by
  rw [readBody, if_neg (Nat.not_lt.mpr hfits), if_pos hshort]
  rfl

theorem length_encode_text_pos {v : Json} (h : Fits v) : 0 < (Utf8.encode v.text).length := by
  obtain ⟨c, cs, htext, -⟩ := h.plain.starts
  rw [htext, Utf8.encode, List.flatMap_cons, List.length_append]
  exact Nat.add_pos_left (List.length_pos_iff.mpr (Utf8.encodeChar_ne_nil c)) _

/-- A frame that is cut off anywhere is an error, and all that is left of it is used up. -/
theorem read_take_write {v : Json} (h : Fits v) {i : Nat} (hi : 0 < i)
    (hlt : i < (write v).length) : ∃ fault, read true ((write v).take i) = .failed fault [] := by
  have hsize : (Utf8.encode v.text).length < UInt64.size :=
    Nat.lt_of_le_of_lt h.length (by decide)
  have hpos := length_encode_text_pos h
  have hfits := h.length
  rw [write_eq] at hlt ⊢
  generalize Utf8.encode v.text = body at hsize hpos hfits hlt ⊢
  obtain hline | hline := Nat.lt_or_ge (Utf8.encode (lengthLine body.length)).length i
  case inr =>
    -- inside the line with the length
    obtain ⟨fault, hread⟩ := readHeaders_take_lengthLine hi
    exact ⟨fault, by rw [read, List.take_append_of_le_length hline, hread]⟩
  obtain ⟨j, rfl⟩ := Nat.exists_eq_add_of_lt hline
  rw [Nat.add_assoc, List.take_length_add_append, List.take_succ_cons]
  have hfeed : '\n' ∉ lengthLine body.length := fun hmem => (lengthLine_ascii _ _ hmem).2 rfl
  have hshort (k : Nat) (hk : k < body.length) :
      readBody true body.length (body.take k) = .failed .bodyCutShort [] :=
    readBody_short hfits (Nat.lt_of_le_of_lt (List.length_take_le k body) hk)
  obtain _ | _ | k := j
  · -- behind the line with the length
    refine ⟨.headerCutShort, ?_⟩
    rw [read, List.take_zero, readHeaders_line hfeed, Line.ofText_lengthLine hsize]
    simp only [readHeaders_nil]
  · -- inside the blank line, which is complete without its line feed
    refine ⟨.bodyCutShort, ?_⟩
    have hreturn : (Utf8.encode ['\r'] ++ lineFeed :: body).take 1 = Utf8.encode ['\r'] := rfl
    rw [read, hreturn, readHeaders_line hfeed, Line.ofText_lengthLine hsize]
    simp only [readHeaders_carriageReturn]
    exact hshort 0 hpos
  · -- behind the header
    refine ⟨.bodyCutShort, ?_⟩
    have hbody : (Utf8.encode ['\r'] ++ lineFeed :: body).take (k + 1 + 1) =
        Utf8.encode ['\r'] ++ lineFeed :: body.take k := rfl
    rw [read, hbody, readHeaders_lengthLine hsize]
    refine hshort k ?_
    have hreturn : (Utf8.encode ['\r']).length = 1 := rfl
    simp only [List.length_append, List.length_cons, hreturn] at hlt
    omega

section Stream

variable {vs front back ws us : List Json}

theorem readMany_append {atEnd : Bool} (h : ∀ v ∈ front, Fits v) (rest : Bytes) :
    readMany atEnd front.length (writeAll front ++ rest) = some (front, rest) := by
  induction front with
  | nil => rfl
  | cons v front ih =>
    obtain ⟨hv, hfront⟩ := List.forall_mem_cons.mp h
    have hcons : writeAll (v :: front) ++ rest = write v ++ (writeAll front ++ rest) := by
      simp [writeAll]
    rw [hcons, List.length_cons, readMany, read_write hv]
    simp only [ih hfront, Option.map_some]

theorem readMany_succ {atEnd : Bool} {n : Nat} {bs rest : Bytes}
    (h : readMany atEnd (n + 1) bs = some (ws, rest)) :
    ∃ v us t, ws = v :: us ∧ read atEnd bs = .frame v t ∧ readMany atEnd n t = some (us, rest) := by
  rw [readMany] at h
  split at h
  case h_2 => cases h
  case h_1 v t hframe =>
    obtain ⟨⟨us, left⟩, hus, heq⟩ := Option.map_eq_some_iff.mp h
    obtain ⟨rfl, rfl⟩ := Prod.mk.inj heq
    exact ⟨v, us, t, rfl, hframe, hus⟩

/-- What is read of a stream up to a place where no further frame is found is settled. -/
theorem readMany_settled {atEnd : Bool} {m n : Nat} {bs rest left : Bytes}
    (hread : readMany atEnd m bs = some (ws, rest)) (hread' : readMany atEnd n bs = some (us, left))
    (hstop : ∀ v t, read atEnd rest ≠ .frame v t) (hstop' : ∀ v t, read atEnd left ≠ .frame v t) :
    ws = us ∧ rest = left := by
  induction m generalizing n bs ws us with
  | zero =>
    obtain ⟨rfl, rfl⟩ := Prod.mk.inj (Option.some.inj hread)
    cases n with
    | zero => exact Prod.mk.inj (Option.some.inj hread')
    | succ n =>
      obtain ⟨v, -, t, -, hframe, -⟩ := readMany_succ hread'
      exact absurd hframe (hstop v t)
  | succ m ih =>
    obtain ⟨v, ws, t, rfl, hframe, hws⟩ := readMany_succ hread
    cases n with
    | zero =>
      obtain ⟨rfl, rfl⟩ := Prod.mk.inj (Option.some.inj hread')
      exact absurd hframe (hstop' v t)
    | succ n =>
      obtain ⟨u, us, t', rfl, hframe', hus⟩ := readMany_succ hread'
      obtain ⟨rfl, rfl⟩ := Reading.frame.inj (hframe.symm.trans hframe')
      obtain ⟨rfl, rfl⟩ := ih hws hus
      exact ⟨rfl, rfl⟩

/-- A place in a stream of frames lies between two of them or inside one. -/
theorem place_of_le {n : Nat} (hn : n ≤ (writeAll vs).length) :
    (∃ front back, vs = front ++ back ∧ n = (writeAll front).length) ∨
      ∃ front v back i, vs = front ++ v :: back ∧ 0 < i ∧ i < (write v).length ∧
        n = (writeAll front).length + i := by
  induction vs generalizing n with
  | nil =>
    exact .inl ⟨[], [], rfl, Nat.le_zero.mp hn⟩
  | cons v vs ih =>
    have hcons (front : List Json) :
        (writeAll (v :: front)).length = (write v).length + (writeAll front).length := by
      simp [writeAll]
    rw [hcons] at hn
    obtain rfl | hpos := Nat.eq_zero_or_pos n
    · exact .inl ⟨[], v :: vs, rfl, rfl⟩
    obtain hlt | hle := Nat.lt_or_ge n (write v).length
    · exact .inr ⟨[], v, vs, n, rfl, hpos, hlt, (Nat.zero_add n).symm⟩
    obtain ⟨m, rfl⟩ := Nat.exists_eq_add_of_le hle
    obtain ⟨front, back, rfl, rfl⟩ | ⟨front, u, back, i, rfl, hi, hlt, rfl⟩ :=
        ih (Nat.le_of_add_le_add_left hn)
    · exact .inl ⟨v :: front, back, rfl, (hcons front).symm⟩
    · exact .inr ⟨v :: front, u, back, i, rfl, hi, hlt, by rw [hcons, Nat.add_assoc]⟩

theorem take_writeAll (front back : List Json) (i : Nat) :
    (writeAll (front ++ back)).take ((writeAll front).length + i) =
      writeAll front ++ (writeAll back).take i := by
  have happend : writeAll (front ++ back) = writeAll front ++ writeAll back :=
    List.flatMap_append
  rw [happend, List.take_length_add_append]

/-- Frames written one behind the other, and the stream cut off. Where the cut falls inside a
frame, exactly the frames in front of it are read, and the next reading is an error. The stream
reads as ended exactly where the cut falls between two frames, behind all that was read. -/
theorem readMany_take_writeAll (h : ∀ v ∈ vs, Fits v) :
    (∀ front v back i, vs = front ++ v :: back → 0 < i → i < (write v).length →
      ∃ rest fault,
        readMany true front.length ((writeAll vs).take ((writeAll front).length + i)) =
          some (front, rest) ∧
        read true rest = .failed fault []) ∧
    ∀ n ≤ (writeAll vs).length, ∀ ws,
      (∃ rest, readMany true ws.length ((writeAll vs).take n) = some (ws, rest) ∧
        read true rest = .ended) ↔
      ∃ back, vs = ws ++ back ∧ n = (writeAll ws).length := by
  -- a cut is inside one of the frames or between two of them
  have hinside : ∀ front v back i, vs = front ++ v :: back → 0 < i → i < (write v).length →
      ∃ rest fault,
        readMany true front.length ((writeAll vs).take ((writeAll front).length + i)) =
          some (front, rest) ∧
        read true rest = .failed fault [] := by
    rintro front v back i rfl hi hlt
    obtain ⟨hfront, hv, -⟩ := by simpa [or_imp, forall_and] using h
    obtain ⟨fault, hread⟩ := read_take_write hv hi hlt
    refine ⟨(write v).take i, fault, ?_, hread⟩
    have hcut : (writeAll (v :: back)).take i = (write v).take i := by
      rw [writeAll, List.flatMap_cons, List.take_append_of_le_length hlt.le]
    rw [take_writeAll, hcut, readMany_append hfront]
  have hboundary : ∀ front back, vs = front ++ back →
      readMany true front.length ((writeAll vs).take (writeAll front).length) =
        some (front, []) := by
    rintro front back rfl
    have hfront : ∀ v ∈ front, Fits v := fun v hv => h v (List.mem_append_left back hv)
    have hcut := take_writeAll front back 0
    rw [Nat.add_zero, List.take_zero] at hcut
    rw [hcut, readMany_append hfront]
  refine ⟨hinside, fun n hn ws => ⟨?_, ?_⟩⟩
  · rintro ⟨rest, hread, hended⟩
    have hstop : ∀ v t, read true rest ≠ .frame v t := by simp [hended]
    obtain ⟨front, back, rfl, rfl⟩ | ⟨front, v, back, i, hvs, hi, hlt, rfl⟩ := place_of_le hn
    · have hstop' : ∀ v t, read true [] ≠ .frame v t := by simp [read_nil]
      obtain ⟨rfl, -⟩ := readMany_settled hread (hboundary front back rfl) hstop hstop'
      exact ⟨back, rfl, rfl⟩
    · obtain ⟨rest', fault, hread', hfailed⟩ := hinside front v back i hvs hi hlt
      have hstop' : ∀ v t, read true rest' ≠ .frame v t := by simp [hfailed]
      obtain ⟨-, rfl⟩ := readMany_settled hread hread' hstop hstop'
      rw [hended] at hfailed
      cases hfailed
  · rintro ⟨back, hvs, rfl⟩
    exact ⟨[], hboundary ws back hvs, read_nil⟩

/-- The second frame is cut off inside the number of its length, which then reads as a shorter
one; and the stream is cut off in front of that frame. -/
theorem readMany_take_writeAll_shortened :
    (∀ v ∈ [.obj [], .str "0123456789"], Fits v) ∧
      (write (.str "0123456789")).take 17 = utf8 "Content-Length: 1" ∧
      (∃ rest fault,
        readMany true 1 ((writeAll [.obj [], .str "0123456789"]).take
          ((writeAll [.obj []]).length + 17)) = some ([.obj []], rest) ∧
        read true rest = .failed fault []) ∧
      ∃ rest,
        readMany true 1 ((writeAll [.obj [], .str "0123456789"]).take
          (writeAll [.obj []]).length) = some ([.obj []], rest) ∧
        read true rest = .ended := by
  have hfits : ∀ v ∈ [.obj [], .str "0123456789"], Fits v := by
    intro v hv
    obtain rfl | rfl := by simpa using hv
    · exact ⟨.obj .nil (by simp), by decide +kernel⟩
    · exact ⟨.str _, by decide +kernel⟩
  have hcut := readMany_take_writeAll hfits
  refine ⟨hfits, by decide +kernel, ?_, ?_⟩
  · exact hcut.1 [.obj []] (.str "0123456789") [] 17 rfl (by decide) (by decide +kernel)
  · have hplace : (writeAll [.obj []]).length ≤
        (writeAll [.obj [], .str "0123456789"]).length := by decide +kernel
    exact (hcut.2 _ hplace [.obj []]).mpr ⟨[.str "0123456789"], rfl, rfl⟩

end Stream

end Frame
end LanguageClient
