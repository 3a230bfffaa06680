namespace LanguageClient

/-- Entries sorted by key; no key occurs twice. -/
abbrev Table (α : Type) := List (String × α)

namespace Table

variable {α : Type}

def set (key : String) (v : α) : Table α → Table α
  | [] => [(key, v)]
  | (k, w) :: rest =>
    if key < k then (key, v) :: (k, w) :: rest
    else if key = k then (key, v) :: rest
    else (k, w) :: set key v rest

/-- A table from entries in any order; of a repeated key the last value stays. -/
def ofEntries (entries : List (String × α)) : Table α :=
  entries.foldl (fun t e => set e.1 e.2 t) []

def get? (key : String) (t : Table α) : Option α :=
  (List.find? (fun e => e.1 == key) t).map (·.2)

end Table
end LanguageClient
