/-! The filter operators, the data types of columns, and which operators a type admits. -/

namespace AuditReport

/-- What a filter asks of a column. -/
inductive Operator where
  | eq | neq | isIn | notIn | contains | startsWith | endsWith | gt | gte | lt | lte
  | before | after | between | isNull | isNotNull
  deriving DecidableEq, Repr

namespace Operator

/-- All operators, in the order in which they are listed to users. -/
def all : List Operator :=
  [eq, neq, isIn, notIn, contains, startsWith, endsWith, gt, gte, lt, lte, before, after, between,
    isNull, isNotNull]

/-- The name of an operator in requests. -/
def name : Operator → String
  | eq => "eq"
  | neq => "neq"
  | isIn => "in"
  | notIn => "nin"
  | contains => "contains"
  | startsWith => "startsWith"
  | endsWith => "endsWith"
  | gt => "gt"
  | gte => "gte"
  | lt => "lt"
  | lte => "lte"
  | before => "before"
  | after => "after"
  | between => "between"
  | isNull => "isNull"
  | isNotNull => "isNotNull"

/-- The operator with a name. -/
def ofName? (s : String) : Option Operator := all.find? (·.name == s)

/-- The operator takes no value. -/
def isValueless : Operator → Bool
  | isNull | isNotNull => true
  | _ => false

/-- The operator takes a list of values. -/
def takesList : Operator → Bool
  | isIn | notIn => true
  | _ => false

end Operator

/-- The kind of data in a column. -/
inductive DataType where
  | string | number | date | boolean | enumeration | id
  deriving DecidableEq, Repr

namespace DataType

/-- All data types. -/
def all : List DataType := [string, number, date, boolean, enumeration, id]

/-- The name of a data type in column descriptions. -/
def name : DataType → String
  | string => "string"
  | number => "number"
  | date => "date"
  | boolean => "boolean"
  | enumeration => "enum"
  | id => "id"

/-- The data type with a name. -/
def ofName? (s : String) : Option DataType := all.find? (·.name == s)

/-- Operators on a choice among fixed values, and on identities. -/
def choiceOperators : List Operator := [.eq, .neq, .isIn, .notIn, .isNull, .isNotNull]

/-- The operators that a column of the type may allow. A column may narrow but never widen them. -/
def operators : DataType → List Operator
  | string => [.eq, .neq, .isIn, .notIn, .contains, .startsWith, .endsWith, .isNull, .isNotNull]
  | number => [.eq, .neq, .gt, .gte, .lt, .lte, .between, .isNull, .isNotNull]
  | date => [.eq, .before, .after, .between, .isNull, .isNotNull]
  | boolean => [.eq, .neq, .isNull, .isNotNull]
  | enumeration => choiceOperators
  | id => choiceOperators

end DataType

/-- The operators that a column over several stored fields may allow. -/
def virtualOperators : List Operator := [.eq, .isIn, .contains]

end AuditReport
