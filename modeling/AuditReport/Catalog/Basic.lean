import AuditReport.Catalog.Column

/-! Catalogs: columns with distinct keys over joins in an order in which every join follows the one
it keys off. A catalog is built by `Catalog.of`, which names the first contradiction among the
declarations. -/

namespace AuditReport

/-- A contradiction among the declarations of a catalog. -/
inductive CatalogError where
  | duplicateColumn (key : String)
  | duplicateName
  | joinBeforeDependency (name dependency : String)
  | noOperators (key : String)
  | foreignOperators (key : String) (operators : List Operator)
  | unknownJoin (key name : String)
  | redefinedJoin (key name : String)
  | joinsOutOfOrder (key : String)
  deriving DecidableEq, Repr

/-- The wording of a contradiction. -/
def CatalogError.message : CatalogError → String
  | duplicateColumn key => "Duplicate column key: " ++ key
  | duplicateName => "Join aliases must be unique"
  | joinBeforeDependency name dependency =>
    "Join '" ++ name ++ "' is ordered before its dependency '" ++ dependency ++ "'"
  | noOperators key => "Column '" ++ key ++ "' is filterable but allows no operators"
  | foreignOperators key operators =>
    "Column '" ++ key ++ "' allows operators outside its type: " ++
      ", ".intercalate ((operators.map Operator.name).mergeSort fun s t => !(t < s))
  | unknownJoin key name => "Column '" ++ key ++ "' uses unknown join '" ++ name ++ "'"
  | redefinedJoin key name => "Column '" ++ key ++ "' redefines join '" ++ name ++ "'"
  | joinsOutOfOrder key => "Column '" ++ key ++ "' lists joins out of dependency order"

namespace Catalog

/-- The first key that an earlier column has too. -/
def repeatedKey? : (seen : List String) → List Column → Option String
  | _, [] => none
  | seen, c :: rest => if seen.contains c.key then some c.key else repeatedKey? (c.key :: seen) rest

/-- The position of the join with a name. -/
def position? (joins : List Join) (name : String) : Option Nat := joins.findIdx? (·.name == name)

/-- No join stands before the one it keys off. -/
def checkJoins (joins : List Join) : Except CatalogError Unit :=
  joins.forM fun j =>
    match j.dependency? with
    | none => pure ()
    | some dependency =>
      match position? joins dependency, position? joins j.name with
      | some p, some q =>
        if q ≤ p then throw (.joinBeforeDependency j.name dependency) else pure ()
      | _, _ => pure ()

/-- The joins of a column are those of the catalog, in its order. `least` is the position of the
join before. -/
def checkColumnJoins (joins : List Join) (key : String) : (least : Nat) → List Join →
    Except CatalogError Unit
  | _, [] => pure ()
  | least, j :: rest =>
    match position? joins j.name with
    | none => throw (.unknownJoin key j.name)
    | some p =>
      if joins[p]? ≠ some j then throw (.redefinedJoin key j.name)
      else if p < least then throw (.joinsOutOfOrder key)
      else checkColumnJoins joins key p rest

/-- A column allows some operator if it is filterable, none that its kind does not admit, and lists
its joins in order. -/
def checkColumn (joins : List Join) (c : Column) : Except CatalogError Unit := do
  if c.operators.isEmpty && c.filterable then throw (.noOperators c.key)
  let foreign := Operator.all.filter fun op => c.operators.contains op && !c.admissible.contains op
  if !foreign.isEmpty then throw (.foreignOperators c.key foreign)
  checkColumnJoins joins c.key 0 c.joins

/-- All rules of a catalog, in the order in which they are reported. -/
def check (columns : List Column) (joins : List Join) : Except CatalogError Unit := do
  match repeatedKey? [] columns with
  | some key => throw (.duplicateColumn key)
  | none =>
    if !decide (joins.map Join.name).Nodup then throw .duplicateName
    checkJoins joins
    columns.forM (checkColumn joins)

end Catalog

/-- Columns and joins without contradiction. -/
structure Catalog where
  columns : List Column
  joins : List Join
  checked : Catalog.check columns joins = .ok ()

namespace Catalog

/-- The catalog of some columns and joins, unless they contradict one another. -/
def of (columns : List Column) (joins : List Join) : Except CatalogError Catalog :=
  match h : check columns joins with
  | .ok () => .ok ⟨columns, joins, h⟩
  | .error e => .error e

/-- The column with a key. -/
def column? (c : Catalog) (key : String) : Option Column := c.columns.find? (·.key == key)

/-- The join with a name. -/
def join? (c : Catalog) (name : String) : Option Join := c.joins.find? (·.name == name)

/-- The names of the joins that the known columns among `keys` ask for. -/
def requiredNames (c : Catalog) (keys : List String) : List String :=
  keys.flatMap fun key => ((c.column? key).map fun col => col.joins.map Join.name).getD []

/-- The joins that the known columns among `keys` ask for, each once, in the catalog's order. -/
def requiredJoins (c : Catalog) (keys : List String) : List Join :=
  c.joins.filter fun j => (c.requiredNames keys).contains j.name

/-- The columns that filters may use. -/
def filterableColumns (c : Catalog) : List Column := c.columns.filter (·.filterable)

/-- The columns that sort keys may use. -/
def sortableColumns (c : Catalog) : List Column := c.columns.filter (·.sortable)

/-- The columns that descriptions and exports show. -/
def visibleColumns (c : Catalog) : List Column := c.columns.filter (!·.filterOnly)

/-- Every document path that a report row can be built from, each once. -/
def paths (c : Catalog) : List String := (c.columns.flatMap Column.paths).eraseDups

end Catalog

end AuditReport
