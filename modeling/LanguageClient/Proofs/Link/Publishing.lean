import LanguageClient.Feed
import LanguageClient.Proofs.Answer.Edits
import LanguageClient.Proofs.Frame.RoundTrip
import LanguageClient.Proofs.Link.Routing
import LanguageClient.Proofs.Position

namespace LanguageClient

namespace Json

/-- What stands for a whole number in a value that was read: beyond 64 bits it is a double. -/
def IsWhole (n : Int) (v : Json) : Prop :=
  if IsWord n then v = .int n else ∃ bits, v = .float bits

theorem isWhole_word (n : UInt64) (v : Json) : v.IsWhole n.toNat ↔ v = .nat n.toNat := by
  have hword : IsWord n.toNat :=
    ⟨Int.le_trans (by decide) (Int.natCast_nonneg _), Int.ofNat_lt.mpr n.toNat_lt_size⟩
  unfold IsWhole
  rw [if_pos hword]
  rfl

theorem eq_of_isWhole {m n : Int} {v : Json} (hm : v.IsWhole m) (hn : v.IsWhole n)
    (hbounds : 0 ≤ n ∧ n < UInt64.size) : m = n := by
  have hv : v = .int n := by
    unfold IsWhole at hn
    rwa [if_pos ⟨Int.le_trans (by decide) hbounds.1, hbounds.2⟩] at hn
  subst hv
  unfold IsWhole at hm
  split at hm
  · exact (Json.int.inj hm).symm
  · obtain ⟨bits, hbits⟩ := hm
    cases hbits

theorem not_isWhole_null (n : Int) : ¬ null.IsWhole n := by
  unfold IsWhole
  split <;> simp

theorem plain_uint32 {depth : Nat} (n : UInt32) : Plain depth (.nat n.toNat) := by
  have hn : n.toNat < UInt64.size := Nat.lt_trans n.toNat_lt_size (by decide)
  exact .int ⟨Int.le_trans (by decide) (Int.natCast_nonneg _), Int.ofNat_lt.mpr hn⟩

end Json

theorem Position.plain_json {depth : Nat} (p : Position) : Json.Plain (depth + 1) p.json :=
  Json.Plain.ofFields (by simp) (by simp [Json.plain_uint32])

theorem Range.plain_json {depth : Nat} (r : Range) : Json.Plain (depth + 2) r.json :=
  Json.Plain.ofFields (by simp) (by simp [Position.plain_json])

/-- What a server says about one place in a document. -/
structure Report where
  range : Range
  severity : Option Int
  source : Option String
  message : String

namespace Report

def GivenBy (r : Report) (v : Json) : Prop :=
  v.IsRecord 4 ∧ v.Holds 0 "range" r.range.GivenBy ∧
    v.MayHold 1 "severity" Json.IsWhole r.severity ∧
    v.MayHold 2 "source" (fun s w => w = .str s) r.source ∧
    v.Holds 3 "message" (· = .str r.message)

/-- What a severity says, of whatever size it is. -/
def level : Option Int → Severity
  | some 1 => .error
  | some 2 => .warning
  | some 3 => .information
  | some 4 => .hint
  | _ => .warning

def diagnostic (r : Report) : Diagnostic where
  range := r.range
  severity := level r.severity
  message := r.message
  source := r.source.getD "unknown"

/-- The severity, if there is one, is an unsigned 64-bit number. -/
def Legible (r : Report) : Prop :=
  ∀ n, r.severity = some n → 0 ≤ n ∧ n < UInt64.size

end Report

/-- The value tells of one document, by its URI, and has these reports about it, in this order. -/
def Reports (uri : String) (reports : List Report) (v : Json) : Prop :=
  v.IsRecord 2 ∧ v.Holds 0 "uri" (· = .str uri) ∧
    v.Holds 1 "diagnostics" (Json.Lists Report.GivenBy reports)

namespace Report

section Severities

variable {r : Report}

/-- The number that a severity is read as. -/
def wholeOf (code : Option UInt64) : Option Int :=
  code.map fun n => (n.toNat : Int)

theorem level_wholeOf (code : Option UInt64) :
    level (wholeOf code) =
      (code.bind fun n => Severity.ofCode? n.toNat).getD .warning := by
  cases code with
  | none => rfl
  | some n =>
    rw [wholeOf, Option.map_some, Option.bind_some]
    generalize n.toNat = m
    match m with
    | 0 | 1 | 2 | 3 | 4 => rfl
    | m + 5 =>
      have hcode : Severity.ofCode? (m + 5) = none := rfl
      rw [hcode]
      unfold level
      split <;> simp_all <;> omega

theorem legible_iff : r.Legible ↔ ∃ code, r.severity = wholeOf code := by
  unfold Legible
  cases r.severity with
  | none => exact iff_of_true nofun ⟨none, rfl⟩
  | some n =>
    constructor
    · intro h
      obtain ⟨hpos, hlt⟩ := h n rfl
      have hword : n.toNat < UInt64.size := by omega
      refine ⟨some (.ofNat n.toNat), ?_⟩
      rw [wholeOf, Option.map_some, UInt64.toNat_ofNat_of_lt' hword, Int.toNat_of_nonneg hpos]
    · rintro ⟨code, hcode⟩ m hm
      cases code with
      | none => cases hcode
      | some w =>
        cases hm
        rw [← Option.some.inj hcode.symm]
        exact ⟨Int.natCast_nonneg _, Int.ofNat_lt.mpr w.toNat_lt_size⟩

end Severities

section Reading

variable {v : Json} {r : Report} {d : Diagnostic}

theorem mayHold_wholeOf {code : Option UInt64} :
    v.MayHold 1 "severity" (fun n w => w = .nat n.toNat) code ↔
      v.MayHold 1 "severity" Json.IsWhole (wholeOf code) := by
  cases code with
  | none => exact Iff.rfl
  | some n =>
    show v.Holds _ _ _ ↔ v.Holds _ _ (Json.IsWhole n.toNat)
    simp only [Json.Holds, Json.isWhole_word]

theorem ofJson?_eq_some :
    Diagnostic.ofJson? v = some d ↔ ∃ r : Report, r.GivenBy v ∧ r.Legible ∧ r.diagnostic = d := by
  simp only [GivenBy, and_assoc, exists_and_left]
  refine Json.record?_eq_some fun s hs => ?_
  simp only [Option.bind_eq_bind, Option.bind_eq_some_iff,
    Json.required_eq_some hs Range.reads_ofJson?, Json.optional_eq_some hs Json.reads_word? rfl,
    Json.optional_eq_some hs Json.reads_str? rfl, Json.required_eq_some hs Json.reads_str?,
    mayHold_wholeOf]
  constructor
  · rintro ⟨range, hrange, code, hcode, source, hsource, message, hmessage, heq⟩
    cases heq
    refine ⟨⟨range, wholeOf code, source, message⟩, hrange, hcode, hsource, hmessage,
      legible_iff.mpr ⟨code, rfl⟩, ?_⟩
    rw [← level_wholeOf]
    rfl
  · rintro ⟨⟨range, severity, source, message⟩, hrange, hseverity, hsource, hmessage, hlegible, rfl⟩
    obtain ⟨code, rfl⟩ := legible_iff.mp hlegible
    refine ⟨range, hrange, code, hseverity, source, hsource, message, hmessage, ?_⟩
    rw [← level_wholeOf]
    rfl

theorem severity_eq {r' : Report} (h : r.GivenBy v) (h' : r'.GivenBy v) (hlegible : r'.Legible) :
    r.severity = r'.severity := by
  have hnone {n : Int} (hsome : v.MayHold 1 "severity" Json.IsWhole (some n))
      (hmissing : v.MayHold 1 "severity" Json.IsWhole none) : False := by
    obtain ⟨w, hw, hwhole⟩ := hsome
    obtain hnull | ⟨fields, rfl, hfield⟩ := hmissing
    · cases hw.symm.trans hnull
      exact Json.not_isWhole_null n hwhole
    · cases hw.symm.trans hfield
  have hseverity := h.2.2.1
  have hseverity' := h'.2.2.1
  cases hr : r.severity <;> cases hr' : r'.severity <;> rw [hr] at hseverity <;>
    rw [hr'] at hseverity'
  case none.some => exact (hnone hseverity' hseverity).elim
  case some.none => exact (hnone hseverity hseverity').elim
  case some.some m n =>
    obtain ⟨w, hw, hm⟩ := hseverity
    obtain ⟨w', hw', hn⟩ := hseverity'
    cases hw.symm.trans hw'
    exact congrArg some (Json.eq_of_isWhole hm hn (hlegible n hr'))

theorem ofJson?_of_legible (h : r.GivenBy v) (hlegible : r.Legible) :
    Diagnostic.ofJson? v = some r.diagnostic :=
  ofJson?_eq_some.mpr ⟨r, h, hlegible, rfl⟩

theorem ofJson?_of_not_legible (h : r.GivenBy v) (hnot : ¬ r.Legible) :
    Diagnostic.ofJson? v = none := by
  -- whatever was read would be read of a report with the same severity
  refine Option.eq_none_iff_forall_ne_some.mpr fun d hd => hnot ?_
  obtain ⟨r', h', hlegible, -⟩ := ofJson?_eq_some.mp hd
  unfold Legible
  rwa [severity_eq h h' hlegible]

theorem mapM_of_legible {reports : List Report} {items : List Json}
    (h : List.Forall₂ GivenBy reports items) (hlegible : ∀ r ∈ reports, r.Legible) :
    items.mapM Diagnostic.ofJson? = some (reports.map diagnostic) := by
  induction h with
  | nil => rfl
  | cons hr _ ih =>
    obtain ⟨hfirst, hrest⟩ := List.forall_mem_cons.mp hlegible
    simp [List.mapM_cons, ofJson?_of_legible hr hfirst, ih hrest]

theorem mapM_of_not_legible {reports : List Report} {items : List Json}
    (h : List.Forall₂ GivenBy reports items) (hnot : ∃ r ∈ reports, ¬ r.Legible) :
    items.mapM Diagnostic.ofJson? = none := by
  induction h with
  | nil => cases List.not_mem_nil hnot.choose_spec.1
  | @cons r w _ _ hr _ ih =>
    by_cases hfirst : r.Legible
    · have hrest := ih (by simpa [hfirst] using hnot)
      simp [List.mapM_cons, ofJson?_of_legible hr hfirst, hrest]
    · simp [List.mapM_cons, ofJson?_of_not_legible hr hfirst]

/-- What is handed on of a publication: all of it, in order, or nothing. -/
theorem publication_of_reports {uri : String} {reports : List Report}
    (h : Reports uri reports v) :
    ((∀ r ∈ reports, r.Legible) →
        Publication.ofJson? v = some ⟨uri, reports.map diagnostic⟩) ∧
      ((∃ r ∈ reports, ¬ r.Legible) → Publication.ofJson? v = none) := by
  obtain ⟨hrecord, ⟨_, huri, rfl⟩, w, hw, items, rfl, hitems⟩ := h
  have hread : Publication.ofJson? v =
      (items.mapM Diagnostic.ofJson?).map (⟨uri, ·⟩) := by
    refine Option.ext fun x => Iff.trans (Json.record?_eq_some fun s hs => ?_)
      (and_iff_right hrecord)
    simp [Json.Source.required, Json.Source.defaulted, Json.value?_of_source? hs, huri, hw,
      Json.list?, Option.bind_eq_some_iff]
  rw [hread]
  exact ⟨fun hall => by rw [mapM_of_legible hitems hall]; rfl,
    fun hnot => by rw [mapM_of_not_legible hitems hnot]; rfl⟩

end Reading

section Writing

def json (r : Report) : Json :=
  .ofFields <| [("range", r.range.json), ("message", .str r.message)] ++
    (r.severity.map fun n => ("severity", .int n)).toList ++
    (r.source.map fun s => ("source", .str s)).toList

def jsonAll (uri : String) (reports : List Report) : Json :=
  .ofFields [("uri", .str uri), ("diagnostics", .arr (reports.map json))]

/-- The severities are numbers that a value can hold. -/
def Writable (r : Report) : Prop :=
  ∀ n, r.severity = some n → Json.IsWord n

theorem givenBy_json {r : Report} (h : r.Writable) : r.GivenBy r.json := by
  obtain ⟨range, severity, source, message⟩ := r
  cases severity <;> cases source <;>
    simp_all [Writable, GivenBy, json, Json.IsRecord, Json.Holds, Json.MayHold, Json.member?,
      Json.ofFields, Json.field?, Table.ofEntries, Range.givenBy_json, Json.IsWhole]

theorem reports_jsonAll (uri : String) {reports : List Report}
    (h : ∀ r ∈ reports, r.Writable) : Reports uri reports (jsonAll uri reports) := by
  have hall : List.Forall₂ GivenBy reports (reports.map json) := by
    rw [List.forall₂_map_right_iff, List.forall₂_same]
    exact fun r hr => givenBy_json (h r hr)
  simpa [Reports, jsonAll, Json.IsRecord, Json.Holds, Json.member?, Json.ofFields,
    Json.field?, Table.ofEntries, Json.Lists] using hall

variable {depth : Nat}

theorem plain_json {r : Report} (h : r.Writable) : Json.Plain (depth + 3) r.json := by
  obtain ⟨range, severity, source, message⟩ := r
  have hseverity : ∀ n, severity = some n → Json.Plain (depth + 2) (.int n) :=
    fun n hn => .int (h n hn)
  refine Json.Plain.ofFields (by cases severity <;> cases source <;> simp) ?_
  cases severity <;> cases source <;> simp_all [Range.plain_json, Json.Plain.str]

theorem plain_jsonAll (uri : String) {reports : List Report} (h : ∀ r ∈ reports, r.Writable) :
    Json.Plain (depth + 5) (jsonAll uri reports) := by
  have hall : Json.Plain (depth + 4) (.arr (reports.map json)) := by
    refine .arr fun v hv => ?_
    obtain ⟨r, hr, rfl⟩ := List.mem_map.mp hv
    exact plain_json (h r hr)
  exact Json.Plain.ofFields (by simp) (by simp [hall, Json.Plain.str])

end Writing

end Report

namespace Mailbox

variable {α : Type} {m : Mailbox α}

def HasRoom (m : Mailbox α) : Prop :=
  m.isOpen = true ∧ m.waiting.length < m.capacity

instance (m : Mailbox α) : Decidable m.HasRoom :=
  inferInstanceAs (Decidable (_ ∧ _))

theorem post_of_hasRoom (h : m.HasRoom) (a : α) :
    m.post a = { m with waiting := m.waiting ++ [a] } := by
  rw [post, if_pos (by simpa [HasRoom] using h)]

theorem post_of_not_hasRoom (h : ¬ m.HasRoom) (a : α) : m.post a = m := by
  rw [post, if_neg (by simpa [HasRoom] using h)]

end Mailbox

namespace Feed

variable {f : Feed} {v p : Json} {rest : Bytes}

theorem readNext?_of_publication (hreading : f.link.reading = true)
    (hframe : Frame.read f.link.inputEnded f.link.input = .frame v rest)
    (hv : v.Bears (some (.notification Link.publicationMethod (some p)))) :
    f.readNext? = some
      { link := { f.link with input := rest }
        mailbox := ((Publication.ofJson? p).map f.mailbox.post).getD f.mailbox } := by
  have hlink : f.link.readNext? = some ({ f.link with input := rest }, Publication.ofJson? p) := by
    simp [Link.readNext?, hreading, hframe, Link.route, hv.ofJson?]
  unfold readNext?
  rw [hlink]
  cases Publication.ofJson? p <;> rfl

/-- A publication is read whatever the queue is like, and the link is none the worse for it. If all
its severities are unsigned 64-bit numbers, or missing, then it is put into the queue, once, with all
its reports as they stand: severities that mean nothing are warnings. Otherwise nothing is queued. -/
theorem publication_posted_iff_legible {uri : String} {reports : List Report}
    (hreading : f.link.reading = true)
    (hframe : Frame.read f.link.inputEnded f.link.input = .frame v rest)
    (hv : v.Bears (some (.notification Link.publicationMethod (some p))))
    (hp : Reports uri reports p) :
    ∃ f', f.readNext? = some f' ∧ f'.link = { f.link with input := rest } ∧
      (f.mailbox.HasRoom → (∀ r ∈ reports, r.Legible) → f'.mailbox = { f.mailbox with
        waiting := f.mailbox.waiting ++ [⟨uri, reports.map Report.diagnostic⟩] }) ∧
      (¬ f.mailbox.HasRoom → f'.mailbox = f.mailbox) ∧
      ((∃ r ∈ reports, ¬ r.Legible) → f'.mailbox = f.mailbox) := by
  obtain ⟨hall, hnot⟩ := Report.publication_of_reports hp
  refine ⟨_, readNext?_of_publication hreading hframe hv, rfl, fun hroom hlegible => ?_,
    fun hroom => ?_, fun hodd => ?_⟩
  · rw [hall hlegible]
    exact Mailbox.post_of_hasRoom hroom _
  · cases Publication.ofJson? p with
    | none => rfl
    | some publication => exact Mailbox.post_of_not_hasRoom hroom publication
  · rw [hnot hodd]
    rfl

/-- What a server sends with these reports. -/
def announcement (reports : List Report) : Json :=
  Message.notification Link.publicationMethod (some (Report.jsonAll "file:///a" reports))

/-- It has arrived, and there is room for it. -/
def arrived (reports : List Report) : Feed where
  link := { Link.start "lua" with input := Frame.write (announcement reports) }
  mailbox := { capacity := 1 }

theorem read_arrived {reports : List Report} (h : ∀ r ∈ reports, r.Writable)
    (hlength : (Utf8.encode (announcement reports).text).length ≤ Frame.maxBody) :
    Frame.read false (arrived reports).link.input = .frame (announcement reports) [] := by
  have hparams : Json.Plain 126 (Report.jsonAll "file:///a" reports) := Report.plain_jsonAll _ h
  have hplain : Json.Plain Json.maxDepth (announcement reports) :=
    Json.Plain.ofFields (by simp) (by simp [hparams, Json.Plain.str])
  have hread : Frame.read false (Frame.write (announcement reports) ++ []) = .frame _ [] :=
    Frame.read_write ⟨hplain, hlength⟩ []
  rwa [List.append_nil] at hread

theorem bears_announcement (reports : List Report) :
    (announcement reports).Bears (some (.notification Link.publicationMethod
      (some (Report.jsonAll "file:///a" reports)))) := by
  obtain ⟨i?, hi⟩ := Json.exists_bears (announcement reports)
  have hread : some _ = i? := (Incoming.ofJson?_notification _ _).symm.trans hi.ofJson?
  rwa [← hread] at hi

def spot : Range :=
  ⟨⟨3, 0⟩, ⟨3, 8⟩⟩

/-- One severity is out of range, one is missing, and one means something. -/
def oddReports : List Report :=
  [⟨spot, some 5, none, "unused"⟩, ⟨spot, none, some "lint", "shadowed"⟩,
    ⟨spot, some 1, none, "undefined"⟩]

theorem publication_posted_iff_legible_oddReports :
    Frame.read false (arrived oddReports).link.input = .frame (announcement oddReports) [] ∧
      (announcement oddReports).Bears (some (.notification Link.publicationMethod
        (some (Report.jsonAll "file:///a" oddReports)))) ∧
      Reports "file:///a" oddReports (Report.jsonAll "file:///a" oddReports) ∧
      (arrived oddReports).mailbox.HasRoom ∧ (∀ r ∈ oddReports, r.Legible) ∧
      ((arrived oddReports).readNext?.map fun f => f.mailbox.waiting) =
        some [⟨"file:///a", [⟨spot, .warning, "unused", "unknown"⟩,
          ⟨spot, .warning, "shadowed", "lint"⟩, ⟨spot, .error, "undefined", "unknown"⟩]⟩] := by
  have hroom : (arrived oddReports).mailbox.HasRoom := by decide
  have hwritable : ∀ r ∈ oddReports, r.Writable := by
    simp [oddReports, Report.Writable, Json.IsWord]
  have hlegible : ∀ r ∈ oddReports, r.Legible := by
    simp [oddReports, Report.Legible]
  have hframe := read_arrived hwritable (by decide +kernel)
  have hv := bears_announcement oddReports
  have hp := Report.reports_jsonAll "file:///a" hwritable
  refine ⟨hframe, hv, hp, hroom, hlegible, ?_⟩
  obtain ⟨f', hf', -, hmailbox, -⟩ :=
    publication_posted_iff_legible (f := arrived oddReports) rfl hframe hv hp
  rw [hf', Option.map_some, hmailbox hroom hlegible]
  rfl

/-- A severity below zero loses the report beside it too. -/
def negativeReports : List Report :=
  [⟨spot, some (-1), none, "unused"⟩, ⟨spot, some 2, none, "shadowed"⟩]

/-- It is not so that every publication for which there is room is queued, whatever whole numbers
its severities are. -/
theorem publication_lost :
    ¬ ∀ (f : Feed) (v p : Json) (rest : Bytes) (uri : String) (reports : List Report),
      f.link.reading = true → Frame.read f.link.inputEnded f.link.input = .frame v rest →
      v.Bears (some (.notification Link.publicationMethod (some p))) → Reports uri reports p →
      f.mailbox.HasRoom →
      ∃ f', f.readNext? = some f' ∧ f'.mailbox.waiting =
        f.mailbox.waiting ++ [⟨uri, reports.map Report.diagnostic⟩] := by
  intro h
  have hwritable : ∀ r ∈ negativeReports, r.Writable := by
    simp [negativeReports, Report.Writable, Json.IsWord]
  have hframe := read_arrived hwritable (by decide +kernel)
  have hp := Report.reports_jsonAll "file:///a" hwritable
  obtain ⟨f', hf', hwaiting⟩ := h (arrived negativeReports) _ _ [] _ _ rfl hframe
    (bears_announcement negativeReports) hp (by decide)
  rw [readNext?_of_publication rfl hframe (bears_announcement negativeReports),
    (Report.publication_of_reports hp).2 (by simp [negativeReports, Report.Legible])] at hf'
  cases hf'
  cases hwaiting

end Feed
end LanguageClient
