import SourceAtlas.Toml.Value
/-!
Tables in the making. A table is opened by its header, by a header below it, or by a dotted key; the
same table may be opened again only in ways that add to it.
-/

namespace SourceAtlas.Toml

/-- How a table came to be. -/
inductive Origin where
  /-- It has a header of its own, or is the document. -/
  | header
  /-- A header below it names it. -/
  | implied
  /-- A dotted key names it. -/
  | dotted
  deriving DecidableEq, Repr

/-- What a key stands for. -/
inductive Item where
  | value (v : Value)
  | table (origin : Origin) (entries : List (String × Item))
  /-- The tables of one repeated header, in their order. -/
  | tables (all : List (List (String × Item)))
  deriving Inhabited

/-- The entries of a table. -/
abbrev Entries := List (String × Item)

/-- Entries with one key set. -/
def setItem (key : String) (item : Item) (entries : Entries) : Entries :=
  Json.setMember key item entries

/-- The change of the table under a key, which is opened if it is missing: a value is no table, and
of a repeated header the last table counts. -/
def changeAt (key : String) (opened : Origin) (allowed : Origin → Bool)
    (change : Origin → Entries → Option Entries) (entries : Entries) : Option Entries :=
  match entries.lookup key with
  | none => (change opened []).map fun e => setItem key (.table opened e) entries
  | some (.value _) => none
  | some (.table origin inner) =>
    if allowed origin then (change origin inner).map fun e => setItem key (.table origin e) entries
    else none
  | some (.tables all) =>
    match all.reverse with
    | [] => none
    | last :: before =>
      (change .header last).map fun e => setItem key (.tables (e :: before).reverse) entries

/-- The change of the table that a header names, the tables above it implied. -/
def within (change : Entries → Option Entries) : List String → Entries → Option Entries
  | [], entries => change entries
  | key :: keys, entries =>
    changeAt key .implied (fun _ => true) (fun _ inner => within change keys inner) entries

/-- A value assigned to a dotted key. The last key is new; the table it stands in is the one where
the assignment started, or one of dotted keys, and on the way to it no table has a header. `origin`
is the origin of the table that was reached, if any was. -/
def assign (value : Value) (origin : Option Origin) : List String → Entries → Option Entries
  | [], _ => none
  | [key], entries =>
    if origin.all (· == .dotted) && (entries.lookup key).isNone then
      some (setItem key (.value value) entries)
    else none
  | key :: keys, entries =>
    changeAt key .dotted (· != .header) (fun origin inner => assign value (some origin) keys inner)
      entries

/-- The table of a header opened. One that a header below it implied is opened for good; any other
is there already. -/
def openTable (key : String) (entries : Entries) : Option Entries :=
  match entries.lookup key with
  | none => some (setItem key (.table .header []) entries)
  | some (.table .implied inner) => some (setItem key (.table .header inner) entries)
  | some _ => none

/-- One more table of a repeated header. -/
def addTable (key : String) (entries : Entries) : Option Entries :=
  match entries.lookup key with
  | none => some (setItem key (.tables [[]]) entries)
  | some (.tables all) => some (setItem key (.tables (all ++ [[]])) entries)
  | some _ => none

mutual

/-- The value that an item has become. -/
def Item.toValue : Item → Value
  | .value v => v
  | .table _ entries => .table (entryValues entries)
  | .tables all => .array (tableValues all)

/-- The values of a table's entries. -/
def entryValues : List (String × Item) → List (String × Value)
  | [] => []
  | (key, item) :: rest => (key, item.toValue) :: entryValues rest

/-- The values of several tables. -/
def tableValues : List (List (String × Item)) → List Value
  | [] => []
  | entries :: rest => .table (entryValues entries) :: tableValues rest

end

end SourceAtlas.Toml
