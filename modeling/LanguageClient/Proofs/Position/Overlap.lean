import LanguageClient.Proofs.Position

namespace LanguageClient.Range

variable {a b r : Range}

/-- The place is in the range: it does not come before the start, and it comes before the stop. -/
def Contains (r : Range) (p : Position) : Prop :=
  ¬ p < r.start ∧ p < r.stop

/-- Some place is in both. -/
def Shares (a b : Range) : Prop :=
  ∃ p, a.Contains p ∧ b.Contains p

/-- Nothing is in the first range, and all the way from its stop back to its start it is inside the
second one, without touching an end. -/
def VoidInside (a b : Range) : Prop :=
  (∀ p, ¬ a.Contains p) ∧ ∀ p, ¬ p < a.stop → ¬ a.start < p → b.start < p ∧ p < b.stop

theorem contains_iff_key {p : Position} :
    r.Contains p ↔ r.start.key ≤ p.key ∧ p.key < r.stop.key := by
  rw [Contains, Position.lt_iff_key, Position.lt_iff_key, not_lt]

theorem overlaps_iff_key :
    a.overlaps b = true ↔ a.start.key < b.stop.key ∧ b.start.key < a.stop.key := by
  simp [overlaps, Position.lt_iff_key]

/-- There is something in a range if and only if it starts before it stops. -/
theorem exists_contains_iff : (∃ p, r.Contains p) ↔ r.start.key < r.stop.key := by
  simp only [contains_iff_key]
  constructor
  · rintro ⟨p, hstart, hstop⟩
    exact hstart.trans_lt hstop
  · intro h
    exact ⟨r.start, le_rfl, h⟩

theorem shares_comm : a.Shares b ↔ b.Shares a := by
  simp only [Shares, and_comm]

theorem shares_of_start_le (h : a.start.key ≤ b.start.key) (hb : b.start.key < b.stop.key)
    (hstop : b.start.key < a.stop.key) : a.Shares b :=
  ⟨b.start, contains_iff_key.mpr ⟨h, hstop⟩, contains_iff_key.mpr ⟨le_rfl, hb⟩⟩

theorem shares_iff_key :
    a.Shares b ↔ a.overlaps b = true ∧ a.start.key < a.stop.key ∧ b.start.key < b.stop.key := by
  rw [overlaps_iff_key]
  constructor
  · rintro ⟨p, hpa, hpb⟩
    have ha := exists_contains_iff.mp ⟨p, hpa⟩
    have hb := exists_contains_iff.mp ⟨p, hpb⟩
    rw [contains_iff_key] at hpa hpb
    exact ⟨⟨hpa.1.trans_lt hpb.2, hpb.1.trans_lt hpa.2⟩, ha, hb⟩
  · rintro ⟨⟨hab, hba⟩, ha, hb⟩
    obtain h | h := le_total a.start.key b.start.key
    · exact shares_of_start_le h hb hba
    · exact shares_comm.mp (shares_of_start_le h ha hab)

theorem voidInside_iff_key :
    a.VoidInside b ↔ a.stop.key ≤ a.start.key ∧ b.start.key < a.stop.key ∧
      a.start.key < b.stop.key := by
  rw [VoidInside, ← not_exists, exists_contains_iff, not_lt]
  simp only [Position.lt_iff_key, not_lt]
  refine and_congr_right fun hvoid => ⟨fun h => ?_, fun h p hstop hstart => ?_⟩
  · exact ⟨(h a.stop le_rfl hvoid).1, (h a.start hvoid le_rfl).2⟩
  · exact ⟨h.1.trans_le hstop, hstart.trans_lt h.2⟩

/-- Two ranges overlap if they share a place, or if one of them has nothing in it and lies inside
the other. To share a place is to overlap where neither of them is void. -/
theorem overlaps_iff_shares_or_void (a b : Range) :
    (a.overlaps b = true ↔ a.Shares b ∨ a.VoidInside b ∨ b.VoidInside a) ∧
      (a.Shares b ↔ a.overlaps b = true ∧ (∃ p, a.Contains p) ∧ ∃ p, b.Contains p) := by
  rw [exists_contains_iff, exists_contains_iff]
  refine ⟨?_, shares_iff_key⟩
  rw [shares_iff_key, voidInside_iff_key, voidInside_iff_key, overlaps_iff_key]
  constructor
  · rintro ⟨hab, hba⟩
    obtain ha | ha := lt_or_ge a.start.key a.stop.key
    · obtain hb | hb := lt_or_ge b.start.key b.stop.key
      · exact .inl ⟨⟨hab, hba⟩, ha, hb⟩
      · exact .inr (.inr ⟨hb, hab, hba⟩)
    · exact .inr (.inl ⟨ha, hba, hab⟩)
  · rintro (⟨h, -, -⟩ | ⟨ha, hstart, hstop⟩ | ⟨hb, hstart, hstop⟩)
    · exact h
    · exact ⟨hstop, hstart⟩
    · exact ⟨hstart, hstop⟩

/-- It is not so that ranges overlap only if they share a place: a caret shares none. -/
theorem caret_overlaps : ¬ ∀ a b : Range, a.overlaps b = true ↔ a.Shares b := by
  intro h
  have hshares : Shares ⟨⟨0, 5⟩, ⟨0, 5⟩⟩ ⟨⟨0, 0⟩, ⟨0, 9⟩⟩ := (h _ _).mp (by decide)
  exact absurd (shares_iff_key.mp hshares).2.1 (lt_irrefl _)

end LanguageClient.Range
