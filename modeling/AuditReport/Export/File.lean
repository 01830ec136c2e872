import AuditReport.Export.Csv
import AuditReport.Export.Sheet
import AuditReport.Request.Report

/-! Export files: their names, media types and contents. -/

namespace AuditReport

/-- The content of an export file. -/
inductive FileContent where
  | text (s : String)
  | sheet (s : Sheet)
  deriving Repr

namespace ExportFormat

/-- The name of an export file with the text of the day, or of the moment, at which it is made. -/
def fileName (format : ExportFormat) (made : String) : String :=
  "global-report-" ++ made ++ "." ++ format.name

/-- The media type of the format. -/
def mediaType : ExportFormat → String
  | csv => "text/csv; charset=utf-8"
  | xlsx => "application/vnd.openxmlformats-officedocument.spreadsheetml.sheet"

/-- The file of a table. -/
def render (format : ExportFormat) (t : Table) : Except Crash FileContent :=
  match format with
  | csv => (Csv.write t).map .text
  | xlsx => (Sheet.ofTable t).map .sheet

end ExportFormat

end AuditReport
