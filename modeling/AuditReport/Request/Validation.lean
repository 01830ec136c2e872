import AuditReport.Catalog.Basic
import AuditReport.Request.Rejection
import AuditReport.Request.Report
import AuditReport.Value.Text

/-! Checks of a request against a catalog, made before anything is built from it. The first
violation turns the request down. -/

namespace AuditReport.Validation

/-- The column with a key, which must exist. -/
def requireColumn (catalog : Catalog) (key : String) : Except Rejection Column :=
  match catalog.column? key with
  | some c => .ok c
  | none => .error (.unknownColumn key)

/-- A range holds both bounds, and neither is null. -/
def checkRange (key : String) (v : Value) : Except Rejection Unit :=
  match v.fields.get? "from", v.fields.get? "to" with
  | some low, some high =>
    match low, high with
    | .null, _ | _, .null => .error (.openRange key)
    | _, _ => .ok ()
  | _, _ => .error (.rangeRequired key)

/-- A value of the operator's shape: a range, a non-empty list of scalars, or a scalar. -/
def checkShape (operator : Operator) (key : String) : Value → Except Rejection Unit
  | .null => .error (.valueRequired operator key)
  | v =>
    if operator = .between then checkRange key v
    else match v with
      | .object _ => .error (.rangeNotAccepted operator key)
      | .list items =>
        if !operator.takesList then .error (.listNotAccepted operator key)
        else if items.isEmpty then .error (.emptyList operator key)
        else if items.all fun
          | .null => false
          | item => item.isScalar
        then .ok ()
        else .error (.nestedValue operator key)
      | _ => .ok ()

/-- The values that a filter compares with. -/
def comparedValues : Value → List Value
  | .list items => items
  | v => [v]

/-- The value is one of some names. -/
def isChoice (choices : List String) : Value → Bool
  | .text s => choices.contains s
  | _ => false

/-- Every value is one of the fixed values of the column. -/
def checkChoices (choices : List String) (key : String) (v : Value) : Except Rejection Unit :=
  match (comparedValues v).find? (!isChoice choices ·) with
  | some bad => .error (.withText (.notAChoice · key choices) bad.shown?)
  | none => .ok ()

/-- One filter: a known and filterable column, an operator that it allows, and a value of the
operator's shape. -/
def checkFilter (catalog : Catalog) (f : Filter) : Except Rejection Unit := do
  let c ← requireColumn catalog f.column
  if !c.filterable then throw (.notFilterable f.column)
  if !c.operators.contains f.operator then
    throw (.operatorNotAllowed f.operator f.column c.orderedOperators)
  if f.operator.isValueless then return
  checkShape f.operator c.key f.value
  match c.choices with
  | some (choice :: more) => checkChoices (choice :: more) c.key f.value
  | _ => return

/-- One sort key: a known and sortable column. -/
def checkSortKey (catalog : Catalog) (k : SortKey) : Except Rejection Unit := do
  let c ← requireColumn catalog k.column
  if !c.sortable then throw (.notSortable k.column)

/-- The filters in order, then the sort keys in order. -/
def check (catalog : Catalog) (filters : List Filter) (sort : List SortKey) :
    Except Rejection Unit := do
  filters.forM (checkFilter catalog)
  sort.forM (checkSortKey catalog)

/-- The columns of an export, all of them known. -/
def checkColumns (catalog : Catalog) (keys : List String) : Except Rejection Unit :=
  keys.forM fun key => (requireColumn catalog key).map fun _ => ()

end AuditReport.Validation
