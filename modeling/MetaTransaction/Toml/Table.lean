import MetaTransaction.Json.Basic

/-!
# TOML tables

A document is built statement by statement. A table remembers how it came about, because that
decides what may still be added to it: a header may open a table once, a dotted key may add only to
tables that dotted keys made, and a value is closed.
-/

namespace MetaTransaction.Toml

/-- How a table came about. -/
inductive Origin
  /-- as a part of the path of a header -/
  | path
  /-- by its own header -/
  | header
  /-- as a part of a dotted key -/
  | dotted
deriving DecidableEq, Repr

/-- What a key stands for while a document is built. -/
inductive Node
  | value (value : Json)
  | table (origin : Origin) (entries : List (String × Node))
  /-- an array of tables, of which the last one is open; the earlier ones come last first -/
  | tables (earlier : List (List (String × Node))) (last : List (String × Node))

/-- The entries of a table in the order of the document. -/
abbrev Table := List (String × Node)

namespace Table

/-- Changes what a key stands for; a new key comes last. -/
def alter? (key : String) (change : Option Node → Option Node) : Table → Option Table
  | [] => (change none).map fun node => [(key, node)]
  | (name, node) :: rest =>
    if name = key then (change (some node)).map fun node => (name, node) :: rest
    else (alter? key change rest).map ((name, node) :: ·)

/-- A change of the table at a path, where missing tables are made and arrays of tables stand for
their last one. -/
def descend (change : Table → Option Table) : List String → Table → Option Table
  | [], table => change table
  | key :: path, table =>
    table.alter? key fun
      | none => (descend change path []).map (.table .path)
      | some (.table origin entries) => (descend change path entries).map (.table origin)
      | some (.tables earlier last) => (descend change path last).map (.tables earlier)
      | some (.value _) => none

/-- Gives a value to a key, which may be dotted. -/
def assign (value : Json) : List String → Table → Option Table
  | [], _ => none
  | [key], table =>
    table.alter? key fun
      | none => some (.value value)
      | some _ => none
  | key :: next :: path, table =>
    table.alter? key fun
      | none => (assign value (next :: path) []).map (.table .dotted)
      | some (.table .dotted entries) =>
        (assign value (next :: path) entries).map (.table .dotted)
      | some (.table .path entries) =>
        if path.isEmpty then none else (assign value (next :: path) entries).map (.table .path)
      | some (.tables earlier last) =>
        if path.isEmpty then none else (assign value (next :: path) last).map (.tables earlier)
      | some (.table .header _) => none
      | some (.value _) => none

/-- What a header makes of the last key of its path. -/
def opened : Option Node → Option Node
  | none => some (.table .header [])
  | some (.table .path entries) => some (.table .header entries)
  | some _ => none

/-- What a header of an array of tables makes of the last key of its path. -/
def appended : Option Node → Option Node
  | none => some (.tables [] [])
  | some (.tables earlier last) => some (.tables (last :: earlier) [])
  | some _ => none

/-- Changes what the last key of a path stands for. -/
def alterAt? (change : Option Node → Option Node) (path : List String) (table : Table) :
    Option Table :=
  match path.getLast? with
  | none => none
  | some key => table.descend (alter? key change) path.dropLast

mutual

/-- The value of a table. -/
def members : Table → List (Option String × Json)
  | [] => []
  | (key, node) :: rest => (some key, json node) :: members rest

/-- The value that a key stands for. -/
def json : Node → Json
  | .value value => value
  | .table _ entries => .object (members entries)
  | .tables earlier last => .array (jsonOfTables earlier [.object (members last)])

/-- The values of tables, last first, before other values. -/
def jsonOfTables (tables : List Table) (later : List Json) : List Json :=
  match tables with
  | [] => later
  | table :: earlier => jsonOfTables earlier (.object (members table) :: later)

end

/-- The value of a table as a whole. -/
def toJson (table : Table) : Json := .object table.members

/-- The table of assignments in their order. -/
def ofAssignments? (assignments : List (List String × Json)) : Option Table :=
  assignments.foldlM (fun table (path, value) => table.assign value path) []

end Table

end MetaTransaction.Toml
