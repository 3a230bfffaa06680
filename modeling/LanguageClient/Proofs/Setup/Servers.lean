import LanguageClient.Proofs.Setup.Building
import LanguageClient.Proofs.Text.Ascii
import LanguageClient.Proofs.Text.Trim

namespace LanguageClient.Setup

/-- An extension as it is stored: it neither is empty nor begins with a dot, and has no capitals. -/
structure IsNormal (extension : String) : Prop where
  ne_empty : extension ≠ ""
  head?_ne : extension.toList.head? ≠ some '.'
  not_isUpper : ∀ c ∈ extension.toList, ¬ Text.IsUpper c

theorem isNormal_normalExtension {e : String} (h : normalExtension e ≠ "") :
    IsNormal (normalExtension e) := by
  have htoList : (normalExtension e).toList =
      ((Text.trim e.toList).dropWhile (· == '.')).map Text.lowerChar := String.toList_ofList
  constructor
  case ne_empty => exact h
  case head?_ne =>
    rw [htoList, List.head?_map]
    intro hdot
    obtain ⟨c, hc, hlower⟩ := Option.map_eq_some_iff.mp hdot
    have hhead := List.head?_dropWhile_not (· == '.') (Text.trim e.toList)
    rw [hc] at hhead
    obtain rfl | ⟨hletter, -⟩ := Text.eq_of_lowerChar hlower
    · simp at hhead
    · exact absurd hletter.1 (by decide)
  case not_isUpper =>
    intro c hc
    rw [htoList] at hc
    obtain ⟨d, -, rfl⟩ := List.mem_map.mp hc
    exact Text.not_isUpper_lowerChar d

/-- What was checked of a server. A language id may still be missing. -/
structure Server.Checked (s : Server) : Prop where
  command : Text.trim s.command.toList ≠ []
  languageId : s.languageId = "" ∨ Text.trim s.languageId.toList ≠ []
  extensions : ∀ e ∈ s.extensions, IsNormal e

theorem Server.checked_of_make {command : String} {args extensions : List String}
    {languageId : Option String} {s : Server}
    (h : make command args languageId extensions = .ok s) : s.Checked := by
  unfold make at h
  split at h
  case isTrue => cases h
  case isFalse hcommand =>
    split at h
    case isTrue => cases h
    case isFalse hid =>
      cases h
      constructor
      case command =>
        rw [ne_eq, ← Text.isBlankText_iff]
        exact hcommand
      case languageId =>
        cases languageId with
        | none => exact .inl rfl
        | some id =>
          right
          rw [ne_eq, ← Text.isBlankText_iff]
          exact hid
      case extensions =>
        intro e he
        obtain ⟨hmem, hne⟩ := List.mem_filter.mp he
        obtain ⟨e, -, rfl⟩ := List.mem_map.mp hmem
        exact isNormal_normalExtension (by simpa using hne)

theorem Server.Given.checked {s : Server} (h : s.Given) : s.Checked := by
  obtain ⟨_, _, _, _, hmake⟩ := h.exists_make
  exact checked_of_make hmake

/-- A server under its language. Only that language itself may be a blank language id. -/
structure Server.Sound (language : String) (s : Server) : Prop where
  command : Text.trim s.command.toList ≠ []
  languageId : Text.trim s.languageId.toList = [] → s.languageId = language
  extensions : ∀ e ∈ s.extensions, IsNormal e

theorem Server.Checked.named {s : Server} (h : s.Checked) (language : String) :
    (s.named language).Sound language := by
  unfold Server.named
  split
  case isTrue => exact ⟨h.command, fun _ => rfl, h.extensions⟩
  case isFalse hid =>
    obtain hempty | hblank := h.languageId
    · exact absurd hempty hid
    · exact ⟨h.command, fun htrim => absurd htrim hblank, h.extensions⟩

theorem Made.sound {c : Setup} (h : c.Made) {language : String} {s : Server}
    (hs : (language, s) ∈ c.servers) : s.Sound language := by
  induction h with
  | empty => cases hs
  | withServer key _ hserver ih =>
    obtain heq | hs := Table.mem_set hs
    · cases heq
      exact hserver.checked.named _
    · exact ih hs
  | withTimeouts _ _ ih => exact ih hs

/-- However a setup is had, each of its servers has a command that is not blank and extensions in
their normal form. Its language id is not blank either, unless none was stated and the language
whose name fills in is. -/
theorem servers_are_sound {c : Setup} (h : c.Built) {language : String} {s : Server}
    (hs : (language, s) ∈ c.servers) :
    Text.trim s.command.toList ≠ [] ∧
      (Text.trim s.languageId.toList = [] → s.languageId = language) ∧
      ∀ e ∈ s.extensions,
        e ≠ "" ∧ e.toList.head? ≠ some '.' ∧ ∀ c ∈ e.toList, ¬ ('A' ≤ c ∧ c ≤ 'Z') := by
  have hsound := h.made.sound hs
  refine ⟨hsound.command, hsound.languageId, fun e he => ?_⟩
  have hnormal := hsound.extensions e he
  exact ⟨hnormal.ne_empty, hnormal.head?_ne, hnormal.not_isUpper⟩

/-- One server, with its extension as people write it and no language id. -/
def unnamed (language : String) : Json :=
  .obj [("servers", .obj [(language, .obj [("command", .str "rust-analyzer"),
    ("file_extensions", .arr [.str " .RS"])])])]

theorem servers_are_sound_unnamed :
    Setup.ofJson false (unnamed "rust") =
      .ok { servers := [("rust", ⟨"rust-analyzer", [], "rust", ["rs"]⟩)] } ∧
    Text.trim "rust-analyzer".toList ≠ [] ∧ (Text.trim "rust".toList = [] → "rust" = "rust") ∧
    ∀ e ∈ ["rs"],
      e ≠ "" ∧ e.toList.head? ≠ some '.' ∧ ∀ c ∈ e.toList, ¬ ('A' ≤ c ∧ c ≤ 'Z') := by
  have hread : Setup.ofJson false (unnamed "rust") =
      .ok { servers := [("rust", ⟨"rust-analyzer", [], "rust", ["rs"]⟩)] } := rfl
  have hserver := servers_are_sound (.ofJson hread) List.mem_cons_self
  exact ⟨hread, hserver⟩

/-- A blank language is taken for a language id as it is. -/
theorem languageId_of_blank_language :
    ∃ c : Setup, Setup.ofJson false (unnamed "") = .ok c ∧
      ∃ s, ("", s) ∈ c.servers ∧ Text.trim s.languageId.toList = [] :=
  ⟨{ servers := [("", ⟨"rust-analyzer", [], "", ["rs"]⟩)] }, rfl, _, List.mem_cons_self, rfl⟩

end LanguageClient.Setup
