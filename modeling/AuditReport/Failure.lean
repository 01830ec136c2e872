import AuditReport.Pipeline.Build
import AuditReport.Request.Schema

/-! Everything that can go wrong while a report is made, by cause. -/

namespace AuditReport

/-- A fault of the program itself or of data that it does not expect. -/
inductive Crash where
  /-- A list or an object where a key is needed. -/
  | notAKey
  /-- Values of kinds that have no common order. -/
  | notComparable
  /-- A value of a kind that the operation does not work on. -/
  | wrongKind
  /-- A document was expected. -/
  | notADocument
  /-- A field that must be there is not. -/
  | missingField
  /-- A date outside the years 1 to 9999, or a number outside the range of doubles. -/
  | outOfRange
  /-- A number that has no integer part. -/
  | notAnInteger
  /-- An integer with too many digits to be printed. -/
  | unprintable
  /-- A work list that no worker can be given. -/
  | noWorkers
  /-- A text with a character that a sheet cannot hold. -/
  | unwritableCharacter
  /-- A text with a lone surrogate. -/
  | unencodable
  /-- A value with too many lists and objects inside one another. -/
  | tooDeep
  /-- Any other fault, with its text. -/
  | internal (message : String)
  deriving DecidableEq, Repr

/-- The name under which a crash is logged. -/
def Crash.name : Crash → String
  | notAKey | notComparable | wrongKind => "TypeError"
  | notADocument => "AttributeError"
  | missingField => "KeyError"
  | outOfRange => "OverflowError"
  | notAnInteger | unprintable | noWorkers => "ValueError"
  | unwritableCharacter => "IllegalCharacterError"
  | unencodable => "UnicodeEncodeError"
  | tooDeep => "RecursionError"
  | internal _ => "RuntimeError"

/-- The text of a crash, where it has one. -/
def Crash.text : Crash → String
  | internal message => message
  | _ => ""

/-- Why an operation of the report failed. -/
inductive Failure where
  | rejected (r : Rejection)
  | denied (action : String)
  | storeFailed (message : String)
  | misordered (e : OrderError)
  | malformed (issues : List Schema.Issue)
  /-- A query for all rows where one for a page is needed. -/
  | notAPage
  /-- A query for a page where one for all rows is needed. -/
  | notAnExport
  | crashed (c : Crash)
  deriving Repr

namespace Failure

/-- What is denied to everyone but super admins. -/
def deniedMessage (action : String) : String := "Only super admins can " ++ action

/-- The failure of a request that is turned down. -/
def ofRejection : Rejection → Failure
  | .unprintable => crashed .unprintable
  | r => rejected r

/-- The failure of turning a value into its stored form. -/
def ofCoercion : CoercionError → Failure
  | .rejected r => ofRejection r
  | .outOfCalendar => crashed .outOfRange

/-- The failure of building a query. -/
def ofBuild : BuildError → Failure
  | .coercion e => ofCoercion e
  | .misordered e => misordered e

/-- The wording for a query of the wrong form. -/
def needsPageMessage : String := "run_paginated needs a pipeline ending in a Facet stage"

@[inherit_doc needsPageMessage] def needsExportMessage : String :=
  "run_export needs a pipeline ending in a Project stage"

/-- The name under which a failure is logged. -/
def name : Failure → String
  | rejected _ => "ReportValidationError"
  | denied _ => "ReportAuthorizationError"
  | storeFailed _ => "ReportExecutionError"
  | misordered _ => "PipelineOrderError"
  | malformed _ => "ValidationError"
  | notAPage | notAnExport => "ValueError"
  | crashed c => c.name

/-- The wording of a failure. -/
def message : Failure → String
  | rejected r => r.message
  | denied action => deniedMessage action
  | storeFailed message => message
  | misordered e => e.message
  | malformed _ => ""
  | notAPage => needsPageMessage
  | notAnExport => needsExportMessage
  | crashed c => c.text

/-- The status of a failure that is told to the caller; any other failure is the program's own. -/
def status? : Failure → Option Nat
  | rejected _ => some 400
  | denied _ => some 403
  | storeFailed _ => some 502
  | _ => none

end Failure

end AuditReport
