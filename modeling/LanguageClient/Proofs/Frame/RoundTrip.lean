import LanguageClient.Frame.Stream
import LanguageClient.Proofs.Frame.Header
import LanguageClient.Proofs.Json.ReadBack

namespace LanguageClient.Frame

/-- Reads this many frames one behind the other; `none` if one of them is not there. -/
def readMany (atEnd : Bool) : Nat → Bytes → Option (List Json × Bytes)
  | 0, bs => some ([], bs)
  | n + 1, bs =>
    match read atEnd bs with
    | .frame v rest => (readMany atEnd n rest).map fun (vs, rest) => (v :: vs, rest)
    | _ => none

/-- A value that a frame can carry: its text is not longer than a body may be. -/
structure Fits (v : Json) : Prop where
  plain : v.Plain Json.maxDepth
  length : (Utf8.encode v.text).length ≤ maxBody

variable {atEnd : Bool}

theorem write_eq (v : Json) :
    write v = Utf8.encode (lengthLine (Utf8.encode v.text).length) ++ lineFeed ::
      (Utf8.encode ['\r'] ++ lineFeed :: Utf8.encode v.text) := by
  have hheader : utf8 s!"{lengthName}: {(Utf8.encode v.text).length}\r\n\r\n" =
      Utf8.encode (lengthLine (Utf8.encode v.text).length ++ ['\n', '\r', '\n']) := by
    simp [utf8, lengthLine, toString]
  have hfeed : Utf8.encodeChar '\n' = [lineFeed] := rfl
  rw [write, hheader]
  simp [Utf8.encode, hfeed]

theorem readBody_append {n : Nat} {body : Bytes} (hn : body.length = n) (hfits : n ≤ maxBody)
    {v : Json} (hbody : Json.ofBytes? body = some v) (rest : Bytes) :
    readBody atEnd n (body ++ rest) = .frame v rest := by
  subst hn
  have hlong : ¬ (body ++ rest).length < body.length := by simp
  rw [readBody, if_neg (Nat.not_lt.mpr hfits), if_neg hlong, List.take_left, List.drop_left, hbody]

/-- One frame is read back, whether or not the input is known to be complete. -/
theorem read_write {v : Json} (h : Fits v) (rest : Bytes) :
    read atEnd (write v ++ rest) = .frame v rest := by
  have hsize : (Utf8.encode v.text).length < UInt64.size :=
    Nat.lt_of_le_of_lt h.length (by decide)
  have hshape : write v ++ rest =
      Utf8.encode (lengthLine (Utf8.encode v.text).length) ++ lineFeed ::
        (Utf8.encode ['\r'] ++ lineFeed :: (Utf8.encode v.text ++ rest)) := by
    simp [write_eq]
  rw [read, hshape, readHeaders_lengthLine hsize]
  exact readBody_append rfl h.length h.plain.ofBytes?_text rest

theorem read_nil : read true [] = .ended := by
  simp [read, readHeaders]

/-- Frames written one behind the other are read back in order; then the reader stands at what
follows them, and the end of the input there is a clean one. -/
theorem readMany_writeAll {vs : List Json} (h : ∀ v ∈ vs, Fits v) :
    (∀ atEnd t, readMany atEnd vs.length (writeAll vs ++ t) = some (vs, t)) ∧
      readMany true vs.length (writeAll vs) = some (vs, []) ∧ read true [] = .ended := by
  have hall (atEnd : Bool) (t : Bytes) :
      readMany atEnd vs.length (writeAll vs ++ t) = some (vs, t) := by
    induction vs with
    | nil => rfl
    | cons v vs ih =>
      obtain ⟨hv, hvs⟩ := List.forall_mem_cons.mp h
      have hcons : writeAll (v :: vs) ++ t = write v ++ (writeAll vs ++ t) := by simp [writeAll]
      rw [hcons, List.length_cons, readMany, read_write hv]
      simp only [ih hvs, Option.map_some]
  exact ⟨hall, by simpa using hall true [], read_nil⟩

/-- A header inside a string, a nested value and an empty object. -/
def samples : List Json :=
  [.obj [("text", .str "Content-Length: 3\r\n\r\n\"é𝄞\\\x00"), ("version", .int (-1))],
    .arr [.arr [.null, .bool true], .int 0xFFFFFFFFFFFFFFFF], .obj []]

theorem readMany_writeAll_samples :
    (∀ v ∈ samples, Fits v) ∧
      ((∀ atEnd t, readMany atEnd samples.length (writeAll samples ++ t) = some (samples, t)) ∧
        readMany true samples.length (writeAll samples) = some (samples, []) ∧
        read true [] = .ended) := by
  have hfits : ∀ v ∈ samples, Fits v := by
    intro v hv
    obtain rfl | rfl | rfl := by simpa [samples] using hv
    · refine ⟨.obj (by decide) ?_, by decide +kernel⟩
      rintro e he
      obtain rfl | rfl := by simpa using he
      · exact .str _
      · exact .int (by decide)
    · refine ⟨.arr ?_, by decide +kernel⟩
      rintro w hw
      obtain rfl | rfl := by simpa using hw
      · refine .arr ?_
        rintro u hu
        obtain rfl | rfl := by simpa using hu
        · exact .null
        · exact .bool true
      · exact .int (by decide)
    · exact ⟨.obj .nil (by simp), by decide +kernel⟩
  exact ⟨hfits, readMany_writeAll hfits⟩

end LanguageClient.Frame
