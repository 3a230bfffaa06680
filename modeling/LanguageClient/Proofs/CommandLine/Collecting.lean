import LanguageClient.CommandLine.Run
import LanguageClient.Proofs.Diagnostic
import LanguageClient.Proofs.Text.Decoding

namespace LanguageClient

namespace Path

/-- The path is text, in which nothing had to be replaced to show it. -/
def IsReadable (p : Path) : Prop :=
  '\uFFFD' ∉ Utf8.lossy p.bytes

instance (p : Path) : Decidable p.IsReadable :=
  inferInstanceAs (Decidable (_ ∉ _))

theorem eq_of_display_eq {p q : Path} (hq : q.IsReadable) (h : p.display = q.display) : p = q := by
  have hlossy : Utf8.lossy p.bytes = Utf8.lossy q.bytes := String.ofList_injective h
  have hp : p.IsReadable := by
    unfold IsReadable
    rwa [hlossy]
  have hbytes : p.bytes = q.bytes :=
    (Utf8.encode_lossy hp).symm.trans ((congrArg Utf8.encode hlossy).trans (Utf8.encode_lossy hq))
  cases p
  cases q
  cases hbytes
  rfl

end Path

theorem Json.strings_injective : Function.Injective Json.strings := fun _ _ h =>
  List.map_injective_iff.mpr (fun _ _ => Json.str.inj) (Json.arr.inj h)

namespace CommandLine

open Rehearsal

section Options

variable {α β : Type} {f : α → Option β} {xs : List α}

theorem mapM_eq_some {ys : List β} :
    xs.mapM f = some ys ↔ List.Forall₂ (fun x y => f x = some y) xs ys := by
  induction xs generalizing ys with
  | nil =>
    rw [List.mapM_nil, List.forall₂_nil_left_iff]
    exact ⟨fun h => (Option.some.inj h).symm, fun h => congrArg some h.symm⟩
  | cons x xs ih =>
    rw [List.mapM_cons, List.forall₂_cons_left_iff]
    simp only [Option.bind_eq_bind, Option.bind_eq_some_iff, ih]
    constructor
    · rintro ⟨y, hy, ys, hys, ⟨rfl⟩⟩
      exact ⟨y, ys, hy, hys, rfl⟩
    · rintro ⟨y, ys, hy, hys, rfl⟩
      exact ⟨y, hy, ys, hys, rfl⟩

theorem mapM_eq_none : xs.mapM f = none ↔ ∃ x ∈ xs, f x = none := by
  induction xs with
  | nil => simp
  | cons x xs ih =>
    rw [List.mapM_cons, List.exists_mem_cons_iff, ← ih]
    cases f x <;> cases xs.mapM f <;> simp

theorem forall₂_iff_of_mapM {R : α → β → Prop} {ys : List β} (h : xs.mapM f = some ys) :
    List.Forall₂ R xs ys ↔ ∀ x ∈ xs, ∀ y, f x = some y → R x y := by
  rw [mapM_eq_some] at h
  induction h with
  | nil => simp
  | cons hxy _ ih =>
    rw [List.forall₂_cons, ih, List.forall_mem_cons, hxy]
    simp

end Options

/-- The line shows the diagnostic under a path that leads to the same file as `q`. -/
def ShownUnder (ws : Workspace) (q : Path) (d : Diagnostic) (line : String) : Prop :=
  ∃ p, ws.resolve p = ws.resolve q ∧ d.display? p = some line

/-- What is printed of a publication has its URI and a line for each diagnostic, in order. -/
def Prints (shows : Diagnostic → String → Prop) (p : Publication) (item : Json) : Prop :=
  item.get? "uri" = some (.str p.uri) ∧
    ∃ lines, item.get? "lines" = some (.strings lines) ∧ List.Forall₂ shows p.diagnostics lines

section Publications

variable {shows : Diagnostic → String → Prop} {path : Path} {p : Publication} {item : Json}

theorem publicationJson?_eq_none :
    publicationJson? path p = none ↔ ∃ d ∈ p.diagnostics, d.display? path = none := by
  rw [← mapM_eq_none]
  unfold publicationJson?
  cases p.diagnostics.mapM (Diagnostic.display? path) <;> simp

theorem prints_of_publicationJson? (h : publicationJson? path p = some item) :
    Prints shows p item ↔
      ∀ d ∈ p.diagnostics, ∀ line, d.display? path = some line → shows d line := by
  obtain ⟨lines, hmade, hitem⟩ := Option.bind_eq_some_iff.mp h
  obtain rfl := Option.some.inj hitem
  rw [← forall₂_iff_of_mapM hmade, Prints]
  constructor
  · rintro ⟨-, lines', hprinted, hshows⟩
    have hlines : lines = lines' := by
      refine Json.strings_injective (Option.some.inj ?_)
      rw [← hprinted]
      simp [Table.ofEntries]
    exact hlines ▸ hshows
  · exact fun hshows => ⟨by simp [Table.ofEntries], lines, by simp [Table.ofEntries], hshows⟩

end Publications

variable {w w' : World} {file : Path} {ms : ℕ} {v : Json}

/-- All that has been received is printed, under the path of the file. -/
theorem collect_eq_ok (h : collect w file ms = (.ok v, w')) :
    ∃ items, v = .arr items ∧ List.Forall₂ (fun e item =>
      publicationJson? (w.workspace.root.append file) e.publication = some item)
        w'.events items := by
  unfold collect at h
  extract_lets path at h
  split at h
  · cases h
  · split at h
    · cases h
    · dsimp only at h
      split at h
      · rename_i items hitems
        cases h
        exact ⟨items, rfl, mapM_eq_some.mp hitems⟩
      · cases h

theorem shownUnder_iff {ws : Workspace} {path q : Path} {d : Diagnostic} {line : String}
    (h : path.IsReadable) (hline : d.display? path = some line) :
    ShownUnder ws q d line ↔ ws.resolve q = ws.resolve path := by
  constructor
  · rintro ⟨p, hp, hshown⟩
    have hsame : d.display p = d.display path :=
      (Diagnostic.display_of_display?_eq_some hshown).symm.trans
        (Diagnostic.display_of_display?_eq_some hline)
    rw [← Path.eq_of_display_eq h (Diagnostic.display_inj.mp hsame)]
    exact hp.symm
  · exact fun hq => ⟨path, hq.symm, hline⟩

/-- Every publication that has been received is printed, in order, with a line for each of its
diagnostics; and all lines are those of the file that was asked for. So if the path of that file can
be read at all, a publication about a document has its lines under that document's path if and only
if it is the same file. -/
theorem lines_are_of_the_file_asked_for (h : collect w file ms = (.ok v, w')) :
    let asked := w.workspace.root.append file
    ∃ items, v = .arr items ∧
      List.Forall₂ (fun e item =>
        Prints (ShownUnder w.workspace asked) e.publication item ∧
          (asked.IsReadable → e.publication.diagnostics ≠ [] →
            ∀ q, FileUri.toPath? e.publication.uri = some q →
              (Prints (ShownUnder w.workspace q) e.publication item ↔
                w.workspace.resolve q = w.workspace.resolve asked))) w'.events items := by
  intro asked
  obtain ⟨items, rfl, hitems⟩ := collect_eq_ok h
  refine ⟨items, rfl, hitems.imp fun e item hitem => ?_⟩
  refine ⟨(prints_of_publicationJson? hitem).mpr fun d _ line hline => ⟨asked, rfl, hline⟩,
    fun hasked hsome q hq => ?_⟩
  rw [prints_of_publicationJson? hitem]
  constructor
  · intro hall
    obtain ⟨d, hd⟩ := List.exists_mem_of_ne_nil _ hsome
    -- the line is there, or nothing would have been printed
    obtain ⟨line, hline⟩ : ∃ line, d.display? asked = some line := by
      refine Option.ne_none_iff_exists'.mp fun hnone => ?_
      rw [publicationJson?_eq_none.mpr ⟨d, hd, hnone⟩] at hitem
      cases hitem
    exact (shownUnder_iff hasked hline).mp (hall d hd line hline)
  · exact fun hsame d _ line hline => (shownUnder_iff hasked hline).mpr hsame

/-- What a server has to say of a document. -/
def complaint (uri : String) : Publication :=
  ⟨uri, [⟨Feed.spot, .error, "undefined", "unknown"⟩]⟩

def complaintNotice (uri : String) : Json :=
  Message.notification Link.publicationMethod
    (some (Report.jsonAll uri [⟨Feed.spot, some 1, none, "undefined"⟩]))

/-- The server of this world complains of two documents as soon as one of them is opened. -/
def talkative : World where
  workspace := ⟨{ servers := [("lua", ⟨"lua-server", [], "lua", ["lua"]⟩)] }, .ofText "/w",
    "file:///w", 1, []⟩
  files := ⟨[([utf8 "w", utf8 "a.lua"], some [])]⟩
  scripted := some "lua-server"
  settles := false
  plans := [("lua", [.server [("textDocument/didOpen",
    [{ after := [complaintNotice "file:///w/b.lua", complaintNotice "file:///w/x/../a.lua"] }])]])]
  receiver := some ⟨"", none⟩

theorem exists_collect_talkative :
    ∃ v w', collect talkative (.ofText "a.lua") 10 = (.ok v, w') ∧
      w'.events.map (·.publication) =
        [complaint "file:///w/b.lua", complaint "file:///w/x/../a.lua"] := by
  have hrun : (collect talkative (.ofText "a.lua") 10).1.isOk = true ∧
      (collect talkative (.ofText "a.lua") 10).2.events.map (·.publication) =
        [complaint "file:///w/b.lua", complaint "file:///w/x/../a.lua"] := by
    decide +kernel
  generalize collect talkative (.ofText "a.lua") 10 = run at hrun ⊢
  obtain ⟨r, w'⟩ := run
  cases r with
  | ok v => exact ⟨v, w', rfl, hrun.2⟩
  | error m => cases hrun.1

/-- The neighbour's diagnostics do not come under the neighbour's path, and the file's own do. -/
theorem lines_are_of_the_file_asked_for_talkative :
    ∃ v w', collect talkative (.ofText "a.lua") 10 = (.ok v, w') ∧
      (Path.ofText "/w/a.lua").IsReadable ∧ ∃ other own, v = .arr [other, own] ∧
        ¬ Prints (ShownUnder talkative.workspace (.ofText "/w/b.lua"))
          (complaint "file:///w/b.lua") other ∧
        Prints (ShownUnder talkative.workspace (.ofText "/w/a.lua"))
          (complaint "file:///w/x/../a.lua") own := by
  obtain ⟨v, w', hcollect, hevents⟩ := exists_collect_talkative
  have hasked : (talkative.workspace.root.append (.ofText "a.lua")).IsReadable := by decide
  obtain ⟨items, hv, hitems⟩ := lines_are_of_the_file_asked_for hcollect
  obtain ⟨e, es, he, hother, hes⟩ := List.map_eq_cons_iff.mp hevents
  obtain ⟨e', es', rfl, hown, hnone⟩ := List.map_eq_cons_iff.mp hes
  obtain rfl := List.map_eq_nil_iff.mp hnone
  rw [he] at hitems
  obtain ⟨other, items', ⟨-, hfirst⟩, hitems', rfl⟩ := List.forall₂_cons_left_iff.mp hitems
  obtain ⟨own, items'', ⟨-, hsecond⟩, hend, rfl⟩ := List.forall₂_cons_left_iff.mp hitems'
  obtain rfl := List.forall₂_nil_left_iff.mp hend
  rw [hother] at hfirst
  rw [hown] at hsecond
  refine ⟨v, w', hcollect, hasked, other, own, hv, ?_, ?_⟩
  · rw [hfirst hasked (by decide) _ (by decide +kernel)]
    decide
  · rw [hsecond hasked (by decide) _ (by decide +kernel)]
    decide

/-- It is not so that the lines of a publication always come under the path of its own document. -/
theorem neighbour_comes_under_the_file_asked_for :
    ¬ ∀ (w w' : World) (file : Path) (ms : ℕ) (v : Json), collect w file ms = (.ok v, w') →
      ∃ items, v = .arr items ∧ List.Forall₂ (fun e item =>
        ∀ q, FileUri.toPath? e.publication.uri = some q →
          Prints (ShownUnder w.workspace q) e.publication item) w'.events items := by
  intro h
  obtain ⟨v, w', hcollect, hevents⟩ := exists_collect_talkative
  obtain ⟨items, hv, hshown⟩ := h _ _ _ _ _ hcollect
  obtain ⟨items', hv', hmade⟩ := collect_eq_ok hcollect
  obtain rfl := Json.arr.inj (hv.symm.trans hv')
  obtain ⟨e, es, he, hother, -⟩ := List.map_eq_cons_iff.mp hevents
  rw [he] at hshown hmade
  obtain ⟨item, rest, hitem, -, rfl⟩ := List.forall₂_cons_left_iff.mp hmade
  have hprints := (List.forall₂_cons.mp hshown).1 (.ofText "/w/b.lua")
    (by rw [hother]; decide +kernel)
  rw [prints_of_publicationJson? hitem, hother] at hprints
  obtain ⟨line, hline⟩ : ∃ line, (Diagnostic.mk Feed.spot .error "undefined" "unknown").display?
      (talkative.workspace.root.append (.ofText "a.lua")) = some line := by
    refine Option.ne_none_iff_exists'.mp fun hnone => ?_
    exact absurd (Diagnostic.display?_eq_none_iff.mp hnone) (by decide)
  have hsame := (shownUnder_iff (by decide) hline).mp
    (hprints _ List.mem_cons_self line hline)
  exact absurd hsame (by decide)

end CommandLine
end LanguageClient
