import LanguageClient.Proofs.Table
import LanguageClient.Setup

namespace LanguageClient.Setup

variable {c : Setup} {extension language : String}

theorem get?_addRoute (k language extension : String) (routes : Table String) :
    Table.get? k (addRoute language routes extension) =
      (Table.get? k routes).or (if extension = k then some language else none) := by
  unfold addRoute
  split
  case h_1 found hfound =>
    by_cases hk : extension = k
    · subst hk
      simp [hfound]
    · simp [hk]
  case h_2 hnone =>
    rw [Table.get?_set]
    by_cases hk : extension = k
    · subst hk
      simp [hnone]
    · simp [hk]

theorem get?_foldl_addRoute (k language : String) (extensions : List String)
    (routes : Table String) :
    Table.get? k (extensions.foldl (addRoute language) routes) =
      (Table.get? k routes).or (if k ∈ extensions then some language else none) := by
  induction extensions generalizing routes with
  | nil => simp
  | cons e extensions ih =>
    rw [List.foldl_cons, ih, get?_addRoute, Option.or_assoc]
    by_cases he : e = k
    · simp [he]
    · simp [he, Ne.symm he]

/-- What stands in the table already is kept, and the first server that has the extension decides
where there is nothing. -/
theorem get?_routes (c : Setup) (k : String) :
    Table.get? k c.routes = (c.servers.find? fun (_, s) => s.extensions.contains k).map (·.1) := by
  have hfold (servers : Table Server) (routes : Table String) :
      Table.get? k (servers.foldl
        (fun routes (language, s) => s.extensions.foldl (addRoute language) routes) routes) =
      (Table.get? k routes).or
        ((servers.find? fun (_, s) => s.extensions.contains k).map (·.1)) := by
    induction servers generalizing routes with
    | nil => simp
    | cons entry servers ih =>
      obtain ⟨language, s⟩ := entry
      rw [List.foldl_cons, ih, get?_foldl_addRoute, Option.or_assoc, List.find?_cons]
      by_cases hk : k ∈ s.extensions <;> simp [hk]
  rw [routes, hfold, Table.get?_nil, Option.none_or]

theorem ascends_addRoute {routes : Table String} (h : routes.Ascends) (language e : String) :
    (addRoute language routes e).Ascends := by
  unfold addRoute
  split
  · exact h
  · exact h.set

theorem ascends_routes (c : Setup) : c.routes.Ascends :=
  List.foldlRecOn c.servers _ .nil fun _ hroutes entry _ =>
    List.foldlRecOn entry.2.extensions _ hroutes fun _ h e _ => ascends_addRoute h entry.1 e

def Claims (c : Setup) (language extension : String) : Prop :=
  ∃ server, c.server? language = some server ∧ extension ∈ server.extensions

/-- The least of the languages that claim an extension has it. -/
theorem get?_routes_eq_some_iff (h : c.servers.Ascends) :
    Table.get? extension c.routes = some language ↔
      c.Claims language extension ∧ ∀ l, c.Claims l extension → language ≤ l := by
  have hfirst {l : String} (hl : Table.get? extension c.routes = some l) :
      c.Claims l extension ∧ ∀ l', c.Claims l' extension → l ≤ l' := by
    rw [get?_routes] at hl
    obtain ⟨⟨l, server⟩, hfind, rfl⟩ := Option.map_eq_some_iff.mp hl
    obtain ⟨hserver, before, behind, hservers, hbefore⟩ := List.find?_eq_some_iff_append.mp hfind
    have hmem : (l, server) ∈ c.servers := List.mem_of_find?_eq_some hfind
    refine ⟨⟨server, h.get?_of_mem hmem, by simpa using hserver⟩, ?_⟩
    rintro l' ⟨server', hget, hextension⟩
    have hmem' : (l', server') ∈ before ++ (l, server) :: behind :=
      hservers ▸ Table.mem_of_get? hget
    have hbehind := (List.pairwise_append.mp (hservers ▸ h)).2.1
    obtain hmem' | hmem' := List.mem_append.mp hmem'
    · -- nobody in front of the one that was found has the extension
      simpa [hextension] using hbefore _ hmem'
    · obtain heq | hmem' := List.mem_cons.mp hmem'
      · cases heq
        exact String.le_refl l
      · exact String.not_lt.mp (String.lt_asymm ((List.pairwise_cons.mp hbehind).1 _ hmem'))
  refine ⟨hfirst, fun ⟨hclaims, hleast⟩ => ?_⟩
  obtain ⟨server, hget, hextension⟩ := hclaims
  obtain ⟨l, hl⟩ : ∃ l, Table.get? extension c.routes = some l := by
    rw [get?_routes, ← Option.isSome_iff_exists, Option.isSome_map, List.find?_isSome]
    exact ⟨_, Table.mem_of_get? hget, by simpa using hextension⟩
  obtain ⟨hl', hleast'⟩ := hfirst hl
  rw [hl, String.le_antisymm (hleast' language ⟨server, hget, hextension⟩) (hleast l hl')]

end LanguageClient.Setup
