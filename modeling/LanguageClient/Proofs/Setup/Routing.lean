import LanguageClient.Proofs.Path.Extension
import LanguageClient.Proofs.Setup.Routes
import LanguageClient.Proofs.Setup.Servers
import LanguageClient.Proofs.Text.Order

namespace LanguageClient.Setup

open LanguageClient.Path (slash dot)

variable {c : Setup} {p : Path} {language extension : String}

theorem languageForPath?_eq_some_iff :
    c.languageForPath? p = some language ↔
      ∃ text, p.extension? = some (utf8 text) ∧
        Table.get? (Text.lower text) c.routes = some language := by
  rw [languageForPath?, Option.bind_eq_bind, Option.bind_eq_some_iff]
  simp only [Option.bind_eq_bind, Option.bind_eq_some_iff, Utf8.decode?_eq_some_iff]
  constructor
  · rintro ⟨_, hextension, cs, rfl, hroute⟩
    refine ⟨String.ofList cs, ?_, ?_⟩
    · rw [utf8, String.toList_ofList]
      exact hextension
    · rw [Text.lower, String.toList_ofList]
      exact hroute
  · rintro ⟨text, hextension, hroute⟩
    exact ⟨_, hextension, text.toList, rfl, hroute⟩

theorem dot_mem_utf8 {s : String} : dot ∈ utf8 s ↔ '.' ∈ s.toList :=
  Utf8.mem_encode (c := '.') (by decide)

/-- The text behind the last dot of a file name decides. -/
theorem languageForPath?_iff (h : c.servers.Ascends) :
    c.languageForPath? p = some language ↔
      ∃ stem text, stem ≠ [] ∧ p.fileName? = some (stem ++ dot :: utf8 text) ∧
        '.' ∉ text.toList ∧ c.Claims language (Text.lower text) ∧
        ∀ l, c.Claims l (Text.lower text) → utf8 language ≤ utf8 l := by
  have hle {s t : String} : utf8 s ≤ utf8 t ↔ s ≤ t :=
    List.not_lt.symm.trans ((not_congr utf8_lt_iff).trans String.not_lt)
  simp only [languageForPath?_eq_some_iff, Path.extension?_eq_some_iff, dot_mem_utf8,
    get?_routes_eq_some_iff h, hle]
  constructor
  · rintro ⟨text, ⟨stem, hstem, hname, hdot⟩, hclaims, hleast⟩
    exact ⟨stem, text, hstem, hname, hdot, hclaims, hleast⟩
  · rintro ⟨stem, text, hstem, hname, hdot, hclaims, hleast⟩
    exact ⟨text, ⟨stem, hstem, hname, hdot⟩, hclaims, hleast⟩

/-- How a setup routes. The language of a path is the first, in the order of bytes, of those whose
servers store the extension of its file name in lower case. Servers of different languages may be
added in any order, one that is replaced later might as well not have been added, and reading a
table comes to the same as adding its servers one by one. -/
theorem routing_is_settled (hc : c.Built) :
    (∀ p language, c.languageForPath? p = some language ↔
      ∃ stem text, stem ≠ [] ∧ p.fileName? = some (stem ++ dot :: utf8 text) ∧
        '.' ∉ text.toList ∧ c.Claims language (Text.lower text) ∧
        ∀ l, c.Claims l (Text.lower text) → utf8 language ≤ utf8 l) ∧
    (∀ calls calls', (∀ l, calls.filter (·.1 == l) = calls'.filter (·.1 == l)) →
      c.withServers calls = c.withServers calls') ∧
    (∀ before after language server, language ∈ after.map (·.1) →
      c.withServers (before ++ (language, server) :: after) = c.withServers (before ++ after)) ∧
    ∀ spare v c', Setup.ofJson spare v = .ok c' ↔
      IsRecord spare 2 v ∧ ∃ calls t, StatesServers spare v calls ∧ StatesTimeouts spare v t ∧
        c' = (({} : Setup).withTimeouts t).withServers calls := by
  have hascends := hc.made.ascends
  refine ⟨fun p language => languageForPath?_iff hascends,
    fun calls calls' h => withServers_eq_of_filter hascends h,
    fun before after language server h => withServers_replaced hascends server h,
    fun spare v c' => ofJson_eq_ok⟩

def overlapping : List (String × Server) :=
  [("b", ⟨"b-ls", [], "b", ["rs"]⟩), ("a", ⟨"a-ls", [], "a", ["md", "rs"]⟩)]

theorem built_overlapping : (({} : Setup).withServers overlapping).Built := by
  have hb : Server.make "b-ls" [] (some "b") [".rs"] = .ok ⟨"b-ls", [], "b", ["rs"]⟩ := rfl
  have ha : Server.make "a-ls" [] (some "a") ["md", "RS "] =
    .ok ⟨"a-ls", [], "a", ["md", "rs"]⟩ := rfl
  exact (Built.empty.withServer "b" (.make hb)).withServer "a" (.make ha)

theorem routing_is_settled_overlapping :
    let c := ({} : Setup).withServers overlapping
    c.Built ∧
    (∃ stem text, stem ≠ [] ∧
      (Path.ofText "/ws/main.Rs").fileName? = some (stem ++ dot :: utf8 text) ∧
      '.' ∉ text.toList ∧ c.Claims "a" (Text.lower text) ∧
      ∀ l, c.Claims l (Text.lower text) → utf8 "a" ≤ utf8 l) ∧
    c.withServers overlapping = c.withServers overlapping.reverse ∧
    c.withServers (("a", ⟨"other", [], "a", ["rs"]⟩) :: overlapping) =
      c.withServers overlapping := by
  intro c
  obtain ⟨hroute, horder, hreplaced, -⟩ := routing_is_settled built_overlapping
  refine ⟨built_overlapping, (hroute _ "a").mp (by decide +kernel), horder _ _ fun l => ?_,
    hreplaced [] overlapping "a" _ (by decide)⟩
  by_cases hb : "b" = l
  · subst hb
    rfl
  · simp [overlapping, List.filter_cons, hb]

/-- In any directory, a name that carries a stored extension has its language, whatever the case of
its letters. An extension with a dot in it is one that no path has. -/
theorem extensions_are_reached (hc : c.Built) (he : (extension, language) ∈ c.routes)
    {text : String} (hcase : Text.lower text = Text.lower extension) :
    ('.' ∉ extension.toList → ∀ (dir : Path) (stem : Bytes), stem ≠ [] →
      slash ∉ stem ++ dot :: utf8 text →
      c.languageForPath? (dir.append ⟨stem ++ dot :: utf8 text⟩) = some language) ∧
    ('.' ∈ extension.toList → ∀ p : Path, p.extension? ≠ some (utf8 text)) := by
  have hascends := hc.made.ascends
  have hroute := (ascends_routes c).get?_of_mem he
  obtain ⟨⟨server, hserver, hmem⟩, -⟩ := (get?_routes_eq_some_iff hascends).mp hroute
  have hnormal := (hc.made.sound (Table.mem_of_get? hserver)).extensions extension hmem
  have hlower : Text.lower text = extension := by
    rw [hcase, Text.lower, Text.map_lowerChar_eq_self hnormal.not_isUpper, String.ofList_toList]
  have hdot : '.' ∈ extension.toList ↔ dot ∈ utf8 text := by
    rw [dot_mem_utf8, ← hlower, Text.lower, String.toList_ofList]
    exact Text.mem_map_lowerChar (by decide)
  constructor
  · intro hnodot dir stem hstem hslash
    have htext : utf8 text ≠ [] := by
      refine Utf8.encode_ne_nil fun hnil => hnormal.ne_empty ?_
      rw [← hlower, Text.lower, hnil]
      rfl
    have hname := Path.fileName?_append dir (Path.isName_of_extension hstem htext hslash)
    exact languageForPath?_eq_some_iff.mpr ⟨text,
      Path.extension?_eq_some_iff.mpr ⟨stem, hstem, hname, mt hdot.mpr hnodot⟩, hlower ▸ hroute⟩
  · intro hwith p hp
    obtain ⟨stem, -, -, hnot⟩ := Path.extension?_eq_some_iff.mp hp
    exact hnot (hdot.mp hwith)

theorem extensions_are_reached_anyCase :
    let c := ({} : Setup).withServers overlapping
    ("rs", "a") ∈ c.routes ∧ Text.lower "rS" = Text.lower "rs" ∧
    c.languageForPath? ((Path.ofText "/ws").append ⟨utf8 "a.b" ++ dot :: utf8 "rS"⟩) =
      some "a" := by
  intro c
  have hroute : ("rs", "a") ∈ c.routes := by decide +kernel
  have hcase : Text.lower "rS" = Text.lower "rs" := by decide +kernel
  exact ⟨hroute, hcase, (extensions_are_reached built_overlapping hroute hcase).1 (by decide) _ _
    (by decide) (by decide)⟩

/-- A server for an extension with a dot in it. -/
def declarations : Setup :=
  ({} : Setup).withServer "typescript" ⟨"typescript-language-server", [], "typescript", ["d.ts"]⟩

theorem dotted_extension_unreached :
    declarations.Built ∧ ("d.ts", "typescript") ∈ declarations.routes ∧
    declarations.languageForPath? ((Path.ofText "/ws").append ⟨utf8 "a" ++ dot :: utf8 "d.ts"⟩) =
      none := by
  have hmake : Server.make "typescript-language-server" [] (some "typescript") [".d.ts"] =
    .ok ⟨"typescript-language-server", [], "typescript", ["d.ts"]⟩ := rfl
  exact ⟨Built.empty.withServer _ (.make hmake), by decide +kernel, by decide +kernel⟩

end LanguageClient.Setup
