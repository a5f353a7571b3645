import EntitlementAuthority.Config.Setting

/-!
# The tables of a TOML document

Tables are filled line by line. Which of them may still be extended depends on how they came
about.

* `Node` — a value, a table or a list of tables in a document that is being read.
* `Node.insert?` — enters a value under a dotted key.
* `Node.openTable?`, `Node.openItem?` — headers of tables and of items of a list of tables.
* `Node.setting` — the setting that has been read.
-/

namespace EntitlementAuthority.Toml

/-- How a table came about. -/
inductive Origin where
  /-- By a header of its own, or as the document. -/
  | header
  /-- By the header of a table in it. -/
  | implied
  /-- By a dotted key. -/
  | dotted
deriving DecidableEq, Repr

/-- What stands under a key. -/
inductive Node where
  | value (v : Setting)
  | table (origin : Origin) (entries : List (String × Node))
  /-- The tables of a list, the last one first. -/
  | tables (items : List (List (String × Node)))

namespace Node

/-- What stands under the keys of a table. -/
abbrev Entries := List (String × Node)

/-- Puts a node in the place of the one under a key, or at the end. -/
def put (key : String) (n : Node) : Entries → Entries
  | [] => [(key, n)]
  | e :: es => if e.1 = key then (key, n) :: es else e :: put key n es

/-- Puts a node at the end, even if there is one under its key. -/
def putLast (key : String) (n : Node) (es : Entries) : Entries :=
  es.filter (fun e => e.1 != key) ++ [(key, n)]

/-- Changes the table at the end of a path; tables that are missing are made. A dotted key must
not lead into a table with a header. -/
def within? (dotted : Bool) (change : Origin → Entries → Option Entries) :
    List String → Origin → Entries → Option Entries
  | [], origin, es => change origin es
  | key :: path, _, es =>
    match es.lookup key with
    | none => do
      let origin := if dotted then .dotted else .implied
      some (put key (.table origin (← within? dotted change path origin [])) es)
    | some (.table origin inner) => do
      if dotted && origin == .header then none
      else some (put key (.table origin (← within? dotted change path origin inner)) es)
    -- a path that leads through a list of tables means the last of them
    | some (.tables (last :: before)) => do
      some (put key (.tables ((← within? dotted change path .header last) :: before)) es)
    | some (.tables []) => none
    | some (.value _) => none

/-- Enters a value under a key that is free. -/
def insertNew? (key : String) (v : Setting) (es : Entries) : Option Entries :=
  match es.lookup key with
  | none => some (es ++ [(key, .value v)])
  | some _ => none

/-- Enters a value under a dotted key. The table that it leads to must have been made by dotted
keys. -/
def insert? (path : List String) (v : Setting) (es : Entries) : Option Entries :=
  match path.getLast? with
  | none => none
  | some key =>
    within? true
      (fun origin inner =>
        if path.length = 1 ∨ origin = .dotted then insertNew? key v inner else none)
      path.dropLast .header es

/-- Opens the table of a header, which comes last in the table around it. It must not have had one,
and dotted keys must not have made it. -/
def openTable? (path : List String) (es : Entries) : Option Entries :=
  match path.getLast? with
  | none => none
  | some key =>
    within? false
      (fun _ inner =>
        match inner.lookup key with
        | none => some (put key (.table .header []) inner)
        -- a header further up that leads through this table does not count as its own
        | some (.table .implied entries) => some (putLast key (.table .header entries) inner)
        | some _ => none)
      path.dropLast .header es

/-- Opens a new table in a list of tables. -/
def openItem? (path : List String) (es : Entries) : Option Entries :=
  match path.getLast? with
  | none => none
  | some key =>
    within? false
      (fun _ inner =>
        match inner.lookup key with
        | none => some (put key (.tables [[]]) inner)
        | some (.tables items) => some (put key (.tables ([] :: items)) inner)
        | some _ => none)
      path.dropLast .header es

mutual

/-- The setting that a node has become. -/
def setting : Node → Setting
  | value v => v
  | table _ entries => .table (settings entries)
  | tables items => .list (tableSettings items).reverse

/-- The settings under the keys of a table. -/
def settings : List (String × Node) → List (String × Setting)
  | [] => []
  | (key, n) :: es => (key, setting n) :: settings es

/-- The tables of a list. -/
def tableSettings : List (List (String × Node)) → List Setting
  | [] => []
  | item :: items => .table (settings item) :: tableSettings items

end

end Node

end EntitlementAuthority.Toml
