import LanguageClient.Proofs.Json.Scalar
import LanguageClient.Proofs.Link.Publishing

namespace LanguageClient.Diagnostic

variable {d : Diagnostic} {path : Path}

theorem ordinal?_eq_some_iff {n k : UInt32} : ordinal? n = some k ↔ k.toNat = n.toNat + 1 := by
  have hk : k.toNat < UInt32.size := k.toNat_lt_size
  have hadd : (n + 1).toNat = (n.toNat + 1) % UInt32.size := UInt32.toNat_add n 1
  unfold ordinal?
  split
  · rename_i hlt
    rw [Option.some_inj, ← UInt32.toNat_inj, hadd, Nat.mod_eq_of_lt hlt, eq_comm]
  · rename_i hge
    exact ⟨nofun, fun hsum => by omega⟩

theorem ordinal?_eq_none_iff {n : UInt32} : ordinal? n = none ↔ n.toNat + 1 = UInt32.size := by
  have hn : n.toNat < UInt32.size := n.toNat_lt_size
  unfold ordinal?
  split
  · rename_i hlt
    exact ⟨nofun, fun hlast => by omega⟩
  · rename_i hge
    exact ⟨fun _ => by omega, fun _ => rfl⟩

theorem display_of_display?_eq_some {line : String} (h : d.display? path = some line) :
    line = d.display path := by
  unfold display? at h
  obtain ⟨l, hl, h⟩ := Option.bind_eq_some_iff.mp h
  obtain ⟨c, hc, h⟩ := Option.bind_eq_some_iff.mp h
  rw [display, ← ordinal?_eq_some_iff.mp hl, ← ordinal?_eq_some_iff.mp hc]
  exact (Option.some.inj h).symm

theorem display?_eq_none_iff : d.display? path = none ↔
    d.range.start.line.toNat + 1 = UInt32.size ∨ d.range.start.character.toNat + 1 = UInt32.size := by
  rw [← ordinal?_eq_none_iff, ← ordinal?_eq_none_iff]
  unfold display?
  cases ordinal? d.range.start.line <;> cases ordinal? d.range.start.character <;> simp

def remark (d : Diagnostic) : String :=
  s!" {d.severity.label}: [{d.source}] {d.message}"

theorem toList_lineAt (path : Path) (line character : ℕ) (d : Diagnostic) :
    (d.lineAt path line character).toList =
      path.display.toList ++ ':' :: (Nat.toDigits 10 line ++
        ':' :: (Nat.toDigits 10 character ++ ':' :: d.remark.toList)) := by
  simp [lineAt, remark, toString]

/-- The numbers of a place are known from the line. -/
theorem lineAt_inj {k l m n : ℕ} : d.lineAt path k l = d.lineAt path m n ↔ k = m ∧ l = n := by
  refine ⟨fun h => ?_, by rintro ⟨rfl, rfl⟩; rfl⟩
  have hcolon (cs : List Char) : Json.EndsNumber (':' :: cs) := by
    rintro c ⟨⟩
    decide
  have hlist := congrArg String.toList h
  rw [toList_lineAt, toList_lineAt] at hlist
  obtain ⟨hline, hrest⟩ := Json.toDigits_append_inj (hcolon _) (hcolon _)
    (List.cons.inj (List.append_cancel_left hlist)).2
  exact ⟨hline, (Json.toDigits_append_inj (hcolon _) (hcolon _) (List.cons.inj hrest).2).1⟩

theorem display_inj {p q : Path} : d.display p = d.display q ↔ p.display = q.display := by
  rw [display, display, ← String.toList_inj, toList_lineAt, toList_lineAt,
    List.append_left_inj, String.toList_inj]

/-- A server can publish any diagnostic whatever. -/
theorem exists_publication (uri : String) (d : Diagnostic) :
    ∃ v, Publication.ofJson? v = some ⟨uri, [d]⟩ := by
  obtain ⟨code, hcode, hlevel⟩ : ∃ code : ℤ, (0 < code ∧ code < 5) ∧
      Report.level (some code) = d.severity := by
    cases d.severity with
    | error => exact ⟨1, by decide, rfl⟩
    | warning => exact ⟨2, by decide, rfl⟩
    | information => exact ⟨3, by decide, rfl⟩
    | hint => exact ⟨4, by decide, rfl⟩
  let r : Report := ⟨d.range, some code, some d.source, d.message⟩
  have hwritable : ∀ r' ∈ [r], r'.Writable := by
    simp [r, Report.Writable, Json.IsWord]
    omega
  have hlegible : ∀ r' ∈ [r], r'.Legible := by
    simp [r, Report.Legible]
    omega
  have hread := (Report.publication_of_reports (Report.reports_jsonAll uri hwritable)).1 hlegible
  refine ⟨_, hread.trans ?_⟩
  simp [r, Report.diagnostic, hlevel]

/-- A server can publish any diagnostic whatever. The numbers in its line are those of the place,
each one more in the natural numbers, if a word of 32 bits has room for them; otherwise there is no
line, and the program panics. -/
theorem display_counts_from_one (path : Path) (uri : String) (d : Diagnostic) :
    (∃ v, Publication.ofJson? v = some ⟨uri, [d]⟩) ∧
      (∀ k l : ℕ, d.display? path = some (d.lineAt path k l) ↔
        (k = d.range.start.line.toNat + 1 ∧ l = d.range.start.character.toNat + 1) ∧
          k < UInt32.size ∧ l < UInt32.size) ∧
      (d.display? path = none ↔
        d.range.start.line.toNat + 1 = UInt32.size ∨
          d.range.start.character.toNat + 1 = UInt32.size) := by
  refine ⟨exists_publication uri d, fun k l => ?_, display?_eq_none_iff⟩
  have hline := d.range.start.line.toNat_lt_size
  have hcharacter := d.range.start.character.toNat_lt_size
  constructor
  · intro h
    obtain ⟨rfl, rfl⟩ := lineAt_inj.mp (display_of_display?_eq_some h)
    have hsome : ¬ d.display? path = none := by simp [h]
    rw [display?_eq_none_iff, not_or] at hsome
    omega
  · rintro ⟨⟨rfl, rfl⟩, hk, hl⟩
    cases h : d.display? path with
    | none =>
      rw [display?_eq_none_iff] at h
      omega
    | some line => rw [display_of_display?_eq_some h, display]

/-- It is not so that every diagnostic that is published has a line which counts from one: there is
none for a diagnostic in the last line. -/
theorem display_of_last_line :
    ¬ ∀ (v : Json) (p : Publication), Publication.ofJson? v = some p → ∀ d ∈ p.diagnostics,
      ∀ path, d.display? path = some
        (d.lineAt path (d.range.start.line.toNat + 1) (d.range.start.character.toNat + 1)) := by
  intro h
  let d : Diagnostic := ⟨⟨⟨4294967295, 0⟩, ⟨4294967295, 1⟩⟩, .error, "expected", "rustc"⟩
  obtain ⟨v, hv⟩ := exists_publication "file:///ws/src/main.rs" d
  have hline := h v _ hv d List.mem_cons_self (.ofText "src/main.rs")
  have hnone : d.display? (.ofText "src/main.rs") = none := display?_eq_none_iff.mpr (.inl (by decide))
  rw [hnone] at hline
  cases hline

end LanguageClient.Diagnostic
