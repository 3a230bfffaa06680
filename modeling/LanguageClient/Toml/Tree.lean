import LanguageClient.Json.Basic

namespace LanguageClient.Toml

/-- How a table came about: on the way to another one, through a dotted key, or on its own. -/
inductive Origin where
  | implied | dotted | stated
  deriving DecidableEq, Repr

/-- What a key stands for while a document is read. The tables of an array are kept latest
first. -/
inductive Node where
  | value (v : Json)
  | table (origin : Origin) (entries : List (String × Node))
  | tables (items : List (List (String × Node)))
  deriving Inhabited

abbrev Entries := Table Node

/-- Follows a path of keys and changes the table at its end; tables that are missing are made. In
an array of tables the way leads into the last one. Values cannot be entered, nor can dotted keys
enter a table that was stated on its own. -/
def within (dotted : Bool) (change : Origin → Entries → Option Entries) :
    List String → Origin → Entries → Option Entries
  | [], origin, entries => change origin entries
  | key :: path, _, entries =>
    match Table.get? key entries with
    | none =>
      let origin := if dotted then .dotted else .implied
      (within dotted change path origin []).map fun inner =>
        Table.set key (.table origin inner) entries
    | some (.table origin inner) =>
      if dotted && origin == .stated then none
      else (within dotted change path origin inner).map fun inner =>
        Table.set key (.table origin inner) entries
    | some (.tables (last :: before)) =>
      (within dotted change path .stated last).map fun inner =>
        Table.set key (.tables (inner :: before)) entries
    | some _ => none

/-- States the table at a path. It may only have been implied before. -/
def stateTable (path : List String) (key : String) (entries : Entries) : Option Entries :=
  within false (fun _ at_ =>
    match Table.get? key at_ with
    | none => some (Table.set key (.table .stated []) at_)
    | some (.table .implied inner) => some (Table.set key (.table .stated inner) at_)
    | some _ => none) path .stated entries

def beginItem (path : List String) (key : String) (entries : Entries) : Option Entries :=
  within false (fun _ at_ =>
    match Table.get? key at_ with
    | none => some (Table.set key (.tables [[]]) at_)
    | some (.tables items) => some (Table.set key (.tables ([] :: items)) at_)
    | some _ => none) path .stated entries

/-- Sets a key that has no value yet. A dotted key only adds to tables that dotted keys made. -/
def setValue (path : List String) (key : String) (v : Json) (origin : Origin)
    (entries : Entries) : Option Entries :=
  within true (fun origin at_ =>
    if (origin == .dotted) == path.isEmpty then none
    else match Table.get? key at_ with
      | none => some (Table.set key (.value v) at_)
      | some _ => none) path origin entries

def setBelow (header path : List String) (key : String) (v : Json) (entries : Entries) :
    Option Entries :=
  within false (setValue path key v) header .stated entries

mutual

def Node.json : Node → Json
  | .value v => v
  | .table _ entries => .obj (entriesJson entries)
  | .tables items => .arr (itemsJson items).reverse

def entriesJson : List (String × Node) → List (String × Json)
  | [] => []
  | (key, n) :: rest => (key, n.json) :: entriesJson rest

def itemsJson : List (List (String × Node)) → List Json
  | [] => []
  | entries :: rest => .obj (entriesJson entries) :: itemsJson rest

end

end LanguageClient.Toml
