import LanguageClient.Proofs.Documents.Mentions
import LanguageClient.Proofs.Message
import Mathlib.Data.List.Forall2

namespace LanguageClient

namespace Json

variable {v : Json} {key : String}

def IsObject (v : Json) : Prop :=
  ∃ fields, v = .obj fields

/-- The field is missing or `null`. -/
def Lacks (v : Json) (key : String) : Prop :=
  v.get? key = none ∨ v.get? key = some .null

/-- The value is an array whose items describe these things, one each. -/
def Lists {α : Type} (describes : α → Json → Prop) (xs : List α) (v : Json) : Prop :=
  ∃ items, v = .arr items ∧ List.Forall₂ describes xs items

end Json

section Describing

def Position.DescribedBy (p : Position) (v : Json) : Prop :=
  v.IsObject ∧ v.get? "line" = some (.nat p.line.toNat) ∧
    v.get? "character" = some (.nat p.character.toNat)

def Range.DescribedBy (r : Range) (v : Json) : Prop :=
  v.IsObject ∧ (∃ w, v.get? "start" = some w ∧ r.start.DescribedBy w) ∧
    ∃ w, v.get? "end" = some w ∧ r.stop.DescribedBy w

def TextEdit.DescribedBy (e : TextEdit) (v : Json) : Prop :=
  v.IsObject ∧ (∃ w, v.get? "range" = some w ∧ e.range.DescribedBy w) ∧
    v.get? "newText" = some (.str e.newText)

/-- A document by its URI, and perhaps the version that is meant. -/
def DocumentEdit.TargetedBy (d : DocumentEdit) (v : Json) : Prop :=
  v.IsObject ∧ v.get? "uri" = some (.str d.uri) ∧
    match d.version with
    | some n => v.get? "version" = some (.int n.toInt)
    | none => v.Lacks "version"

structure DocumentEdit.DescribedBy (d : DocumentEdit) (v : Json) : Prop where
  object : v.IsObject
  target : ∃ w, v.get? "textDocument" = some w ∧ d.TargetedBy w
  edits : ∃ w, v.get? "edits" = some w ∧ Json.Lists TextEdit.DescribedBy d.edits w

/-- An item that creates, renames or deletes a file. It names no document. -/
def IsFileOperation (v : Json) : Prop :=
  (∃ kind ∈ ["create", "rename", "delete"], v.get? "kind" = some (.str kind)) ∧
    v.get? "textDocument" = none

/-- Items that describe these edits of documents, with operations on files anywhere between them. -/
inductive Interleaves : List DocumentEdit → List Json → Prop
  | nil : Interleaves [] []
  | edit {d : DocumentEdit} {v : Json} {ds : List DocumentEdit} {vs : List Json}
      (described : d.DescribedBy v) (rest : Interleaves ds vs) : Interleaves (d :: ds) (v :: vs)
  | operation {v : Json} {ds : List DocumentEdit} {vs : List Json} (operation : IsFileOperation v)
      (rest : Interleaves ds vs) : Interleaves ds (v :: vs)

/-- A field of a table that gives the edits of one document. -/
def EntryDescribedBy (entry : String × List TextEdit) (field : String × Json) : Prop :=
  field.1 = entry.1 ∧ Json.Lists TextEdit.DescribedBy entry.2 field.2

/-- The edits that an answer gives in a table, with its fields in any order. -/
def TableDescribedBy (entries : List (String × List TextEdit)) (v : Json) : Prop :=
  ∃ fields, v = .ofFields fields ∧ (fields.map (·.1)).Nodup ∧
    List.Forall₂ EntryDescribedBy entries fields

/-- An answer as the protocol has it. The edits stand in a table, or document by document, or both,
or there are none. -/
structure WorkspaceEdit.DescribedBy (table? : Option (List (String × List TextEdit)))
    (documents? : Option (List DocumentEdit)) (v : Json) : Prop where
  object : v.IsObject
  table : match table? with
    | some entries => ∃ w, v.get? "changes" = some w ∧ TableDescribedBy entries w
    | none => v.Lacks "changes"
  documents : match documents? with
    | some ds => ∃ items, v.get? "documentChanges" = some (.arr items) ∧ Interleaves ds items
    | none => v.Lacks "documentChanges"

end Describing

namespace Json

section Decoding

variable {α : Type} {v w : Json} {key : String} {decode : Json → Option α} {place : Nat}

theorem required_of_get? {fields : List (String × Json)} {x : α}
    (hkey : (Json.obj fields).get? key = some w) (hw : decode w = some x) :
    (Source.named fields).required place key decode = some x :=
  (required_named hkey place decode).trans hw

theorem optional_of_lacks {fields : List (String × Json)} (h : (Json.obj fields).Lacks key) :
    (Source.named fields).optional place key decode = some none := by
  obtain h | h := h
  · have hfield : field? key fields = none := h
    simp [Source.optional, Source.value?, hfield]
  · have hfield : field? key fields = some .null := h
    simp [Source.optional, Source.value?, hfield, nullable]

theorem optional_named {fields : List (String × Json)} {x : α}
    (hkey : (Json.obj fields).get? key = some w) (hnull : w ≠ .null) (hw : decode w = some x) :
    (Source.named fields).optional place key decode = some (some x) := by
  have hfield : field? key fields = some w := hkey
  have hnullable : nullable decode w = (decode w).map some := by
    cases w with
    | null => exact absurd rfl hnull
    | _ => rfl
  simp [Source.optional, Source.value?, hfield, hnullable, hw]

theorem mapM_of_forall₂ {β : Type} {describes : α → β → Prop} {decode : β → Option α}
    (hdecode : ∀ x y, describes x y → decode y = some x) {xs : List α} {ys : List β}
    (h : List.Forall₂ describes xs ys) : ys.mapM decode = some xs := by
  induction h with
  | nil => rfl
  | cons hxy _ ih => simp [List.mapM_cons, hdecode _ _ hxy, ih]

theorem list?_of_lists {describes : α → Json → Prop}
    (hdecode : ∀ x v, describes x v → decode v = some x) {xs : List α}
    (h : Lists describes xs v) : list? decode v = some xs := by
  obtain ⟨items, rfl, hitems⟩ := h
  exact mapM_of_forall₂ hdecode hitems

theorem int32?_int (n : Int32) : (int n.toInt).int32? = some n := by
  have h : -0x80000000 ≤ n.toInt ∧ n.toInt < 0x80000000 := ⟨n.le_toInt, n.toInt_lt⟩
  unfold int32?
  rw [int?_int, Option.bind_eq_bind, Option.bind_some, if_pos h, Int32.ofInt_toInt]

end Decoding

end Json

section Reading

theorem Position.ofJson?_of_described {p : Position} {v : Json} (h : p.DescribedBy v) :
    Position.ofJson? v = some p := by
  obtain ⟨⟨fields, rfl⟩, hline, hcharacter⟩ := h
  simp [Position.ofJson?, Json.record?_obj, Json.required_of_get? hline (Json.uint32?_nat _),
    Json.required_of_get? hcharacter (Json.uint32?_nat _)]

theorem Range.ofJson?_of_described {r : Range} {v : Json} (h : r.DescribedBy v) :
    Range.ofJson? v = some r := by
  obtain ⟨⟨fields, rfl⟩, ⟨w, hstart, hw⟩, w', hstop, hw'⟩ := h
  simp [Range.ofJson?, Json.record?_obj,
    Json.required_of_get? hstart (Position.ofJson?_of_described hw),
    Json.required_of_get? hstop (Position.ofJson?_of_described hw')]

theorem TextEdit.ofJson?_of_described (e : TextEdit) (v : Json) (h : e.DescribedBy v) :
    TextEdit.ofJson? v = some e := by
  obtain ⟨⟨fields, rfl⟩, ⟨w, hrange, hw⟩, htext⟩ := h
  simp [TextEdit.ofJson?, Json.record?_obj,
    Json.required_of_get? hrange (Range.ofJson?_of_described hw),
    Json.required_of_get? htext (Json.str?_str _)]

theorem DocumentEdit.target?_of_targeted {d : DocumentEdit} {v : Json} (h : d.TargetedBy v) :
    DocumentEdit.target? v = some (d.uri, d.version) := by
  obtain ⟨⟨fields, rfl⟩, huri, hversion⟩ := h
  have hread : (Json.Source.named fields).optional 1 "version" Json.int32? = some d.version := by
    cases hd : d.version with
    | none =>
      rw [hd] at hversion
      exact Json.optional_of_lacks hversion
    | some n =>
      rw [hd] at hversion
      exact Json.optional_named hversion nofun (Json.int32?_int n)
  simp [DocumentEdit.target?, Json.record?_obj,
    Json.required_of_get? huri (Json.str?_str _), hread]

theorem DocumentEdit.ofJson?_of_described {d : DocumentEdit} {v : Json} (h : d.DescribedBy v) :
    DocumentEdit.ofJson? v = some d := by
  obtain ⟨fields, rfl⟩ := h.object
  obtain ⟨w, htarget, hw⟩ := h.target
  obtain ⟨w', hedits, hw'⟩ := h.edits
  have hlist := Json.list?_of_lists TextEdit.ofJson?_of_described hw'
  simp [DocumentEdit.ofJson?, htarget, Json.record?_obj,
    Json.required_of_get? htarget (DocumentEdit.target?_of_targeted hw),
    Json.required_of_get? hedits hlist]

theorem DocumentEdit.ofJson?_of_fileOperation {v : Json} (h : IsFileOperation v) :
    DocumentEdit.ofJson? v = none := by
  simp [DocumentEdit.ofJson?, h.2]

theorem Interleaves.filterMap {ds : List DocumentEdit} {vs : List Json} (h : Interleaves ds vs) :
    vs.filterMap DocumentEdit.ofJson? = ds := by
  induction h with
  | nil => rfl
  | edit described _ ih =>
    rw [List.filterMap_cons_some (DocumentEdit.ofJson?_of_described described), ih]
  | operation operation _ ih =>
    rw [List.filterMap_cons_none (DocumentEdit.ofJson?_of_fileOperation operation), ih]

theorem decode_of_entryDescribed (entry : String × List TextEdit) (field : String × Json)
    (h : EntryDescribedBy entry field) :
    ((Json.list? TextEdit.ofJson? field.2).map (field.1, ·)) = some entry := by
  obtain ⟨hkey, hedits⟩ := h
  rw [Json.list?_of_lists TextEdit.ofJson?_of_described hedits, hkey, Option.map_some]

theorem keys_of_described {entries : List (String × List TextEdit)}
    {fields : List (String × Json)} (h : List.Forall₂ EntryDescribedBy entries fields) :
    fields.map (·.1) = entries.map (·.1) := by
  induction h with
  | nil => rfl
  | cons hentry _ ih => exact congrArg₂ List.cons hentry.1 ih

theorem exists_table {entries : List (String × List TextEdit)} {v : Json}
    (h : TableDescribedBy entries v) :
    ∃ table, Json.table? (Json.list? TextEdit.ofJson?) v = some table ∧ table.Perm entries ∧
      Table.Ascends table := by
  obtain ⟨fields, rfl, hnodup, hentries⟩ := h
  obtain ⟨hascends, hperm⟩ := Table.ascends_ofEntries hnodup
  -- the entries go along when the fields are put in order
  obtain ⟨table, htable, hsame⟩ := List.perm_comp_forall₂ hperm hentries.flip
  have hdescribed : List.Forall₂ EntryDescribedBy table (Table.ofEntries fields) := htable.flip
  refine ⟨table, Json.mapM_of_forall₂ decode_of_entryDescribed hdescribed, hsame, ?_⟩
  rw [Table.ascends_iff, ← keys_of_described hdescribed, ← Table.ascends_iff]
  exact hascends

end Reading

namespace WorkspaceEdit

/-- The edits that a client is to take from such an answer, each once. Those document by document
win over those in the table, which are taken by URI. -/
def Tells (table? : Option (List (String × List TextEdit)))
    (documents? : Option (List DocumentEdit)) (edits : List (String × TextEdit)) : Prop :=
  match documents?, table? with
  | some ds, _ => edits = ds.flatMap fun d => d.edits.map (d.uri, ·)
  | none, some entries => ∃ table, table.Perm entries ∧ Table.Ascends table ∧
      edits = table.flatMap fun (uri, es) => es.map (uri, ·)
  | none, none => edits = []

/-- All edits of an answer that is as the protocol has it are read. -/
theorem edits_of_described {table? : Option (List (String × List TextEdit))}
    {documents? : Option (List DocumentEdit)} {v : Json} (h : DescribedBy table? documents? v) :
    Tells table? documents? (ofAnswer v).edits := by
  unfold Tells
  obtain ⟨fields, rfl⟩ := h.object
  -- the table is read whether or not there are documents, and counts only without them
  have htable : ∃ t?, (Json.Source.named fields).optional 0 "changes"
      (Json.table? (Json.list? TextEdit.ofJson?)) = some t? ∧
        match table? with
        | some entries => ∃ table, t? = some table ∧ table.Perm entries ∧ Table.Ascends table
        | none => t? = none := by
    have hchanges := h.table
    cases table? with
    | none => exact ⟨none, Json.optional_of_lacks hchanges, rfl⟩
    | some entries =>
      obtain ⟨w, hw, hentries⟩ := hchanges
      obtain ⟨table, hread, hperm, hascends⟩ := exists_table hentries
      have hnull : w ≠ .null := by
        obtain ⟨-, rfl, -⟩ := hentries
        exact nofun
      exact ⟨some table, Json.optional_named hw hnull hread, table, rfl, hperm, hascends⟩
  obtain ⟨t?, hoptional, ht⟩ := htable
  have hdocuments := h.documents
  cases documents? with
  | some ds =>
    obtain ⟨items, hitems, hinterleaves⟩ := hdocuments
    have hread : (Json.Source.named fields).optional 1 "documentChanges" Json.arr? =
        some (some items) := Json.optional_named hitems nofun rfl
    simp [ofAnswer, ofJson?, Json.record?_obj, hoptional, hread, hinterleaves.filterMap, edits]
  | none =>
    have hread : (Json.Source.named fields).optional 1 "documentChanges" Json.arr? = some none :=
      Json.optional_of_lacks hdocuments
    have hanswer : ofAnswer (.obj fields) = .changes (t?.getD []) := by
      simp [ofAnswer, ofJson?, Json.record?_obj, hoptional, hread]
    rw [hanswer]
    cases table? with
    | none =>
      rw [show t? = none from ht]
      rfl
    | some entries =>
      obtain ⟨table, rfl, hperm, hascends⟩ := ht
      exact ⟨table, hperm, hascends, rfl⟩

end WorkspaceEdit

namespace Query

/-- A rename comes to edits that all put in the new name, or it is refused for the first one that
does not. -/
theorem read_rename (language : String) (at_ : Position) (newName : String) (v : Json) :
    ((∀ e ∈ (WorkspaceEdit.ofAnswer v).edits, e.2.newText = newName) ∧
      (rename at_ newName).read language v = .ok (.edit (WorkspaceEdit.ofAnswer v))) ∨
    ∃ front bad back, (WorkspaceEdit.ofAnswer v).edits = front ++ bad :: back ∧
      (∀ e ∈ front, e.2.newText = newName) ∧ bad.2.newText ≠ newName ∧
      (rename at_ newName).read language v =
        .error (.misnamed language newName bad.2.newText) := by
  cases hfind : (WorkspaceEdit.ofAnswer v).edits.find? fun e => e.2.newText != newName with
  | none =>
    refine .inl ⟨fun e he => ?_, by simp [read, hfind]⟩
    simpa using List.find?_eq_none.mp hfind e he
  | some bad =>
    obtain ⟨hbad, front, back, heq, hfront⟩ := List.find?_eq_some_iff_append.mp hfind
    refine .inr ⟨front, bad, back, heq, fun e he => ?_, by simpa using hbad,
      by simp [read, hfind]⟩
    simpa using hfront e he

end Query
end LanguageClient
