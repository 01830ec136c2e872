import AuditReport.Catalog.Operator

/-! Why a request is turned down, and the wording of each reason. -/

namespace AuditReport

/-- A reason to turn a request down. Texts named `shown` are the texts of offending values. -/
inductive Rejection where
  | unknownColumn (key : String)
  | notFilterable (key : String)
  | notSortable (key : String)
  | operatorNotAllowed (operator : Operator) (key : String) (allowed : List Operator)
  | valueRequired (operator : Operator) (key : String)
  | rangeRequired (key : String)
  | openRange (key : String)
  | rangeNotAccepted (operator : Operator) (key : String)
  | listNotAccepted (operator : Operator) (key : String)
  | emptyList (operator : Operator) (key : String)
  | nestedValue (operator : Operator) (key : String)
  | notAChoice (shown key : String) (choices : List String)
  | noRange (key : String)
  | invalidId (shown key : String)
  | invalidNumber (shown key : String)
  | numberOutOfRange (shown key : String)
  | numberNotFinite (shown key : String)
  | invalidDate (shown key : String)
  | invalidBoolean (shown key : String)
  | operatorNotSupported (operator : Operator) (key : String)
  | unknownProvider (name : String) (providers : List String)
  /-- An integer in a value is too long for the text that a wording or a pattern would be made
  with. This is a fault of the program and no reason that the caller is told. -/
  | unprintable
  deriving DecidableEq, Repr

namespace Rejection

/-- The reason whose wording holds a text, if there is that text. -/
def withText (reason : String → Rejection) (shown? : Option String) : Rejection :=
  (shown?.map reason).getD unprintable

/-- "Operator … on column …". -/
def operatorOn (operator : Operator) (key : String) : String :=
  "Operator '" ++ operator.name ++ "' on column '" ++ key ++ "'"

/-- A complaint about a value of a column. -/
def about (complaint shown middle key : String) : String :=
  complaint ++ " '" ++ shown ++ "' " ++ middle ++ " column '" ++ key ++ "'"

/-- The shape of a range, as named in messages. -/
def rangeShape : String := "\x7bfrom, to\x7d range"

/-- The wording of a reason. -/
def message : Rejection → String
  | unknownColumn key => "Unknown column: " ++ key
  | notFilterable key => "Column '" ++ key ++ "' is not filterable"
  | notSortable key => "Column '" ++ key ++ "' is not sortable"
  | operatorNotAllowed operator key allowed =>
    "Operator '" ++ operator.name ++ "' is not allowed for column '" ++ key ++
      "'. Allowed operators: " ++ ", ".intercalate (allowed.map Operator.name)
  | valueRequired operator key => operatorOn operator key ++ " requires a value"
  | rangeRequired key => operatorOn .between key ++ " requires a " ++ rangeShape
  | openRange key => "Range bounds for column '" ++ key ++ "' must not be null"
  | rangeNotAccepted operator key => operatorOn operator key ++ " does not accept a range"
  | listNotAccepted operator key => operatorOn operator key ++ " does not accept a list"
  | emptyList operator key => operatorOn operator key ++ " requires at least one value"
  | nestedValue operator key => operatorOn operator key ++ " accepts only scalar values"
  | notAChoice shown key choices =>
    about "Invalid value" shown "for" key ++ ". Allowed values: " ++ ", ".intercalate choices
  | noRange key => "Column '" ++ key ++ "' requires a " ++ rangeShape
  | invalidId shown key => about "Invalid id" shown "for" key
  | invalidNumber shown key => about "Invalid number" shown "for" key
  | numberOutOfRange shown key => about "Number" shown "is out of range for" key
  | numberNotFinite shown key => about "Number" shown "is not finite for" key
  | invalidDate shown key => about "Invalid date" shown "for" key
  | invalidBoolean shown key => about "Invalid boolean" shown "for" key
  | operatorNotSupported operator key =>
    "Operator '" ++ operator.name ++ "' is not supported for column '" ++ key ++ "'"
  | unknownProvider name providers =>
    "Unknown OTA provider '" ++ name ++ "'. Allowed providers: " ++ ", ".intercalate providers
  | unprintable => ""

end Rejection

end AuditReport
