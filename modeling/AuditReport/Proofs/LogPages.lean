import AuditReport.Http.Api
import AuditReport.Proofs.LogSelection
import AuditReport.Proofs.PageTiling

/-! Pages of the log. A question with a filter fails for every page and for the count alike, or its
pages cut the selected entries, the latest first, into pieces. Limits and offsets have to fit into
words; others are refused. -/

namespace AuditReport

open Calendar (Moment)
open Fallible

namespace LogTable

open LogCall (noon)

variable {t : LogTable} {f : LogFilter} {now : Moment} {a b : LogEntry} {all es : List LogEntry}

/-! ## The order of entries -/

/-- The first pages of a limit, joined. -/
def pages (t : LogTable) (f : LogFilter) (limit count : Nat) (now : Moment) :
    Answer (List LogEntry) :=
  ((List.range count).mapM fun k => t.page f limit (k * limit : Nat) now).map List.flatten

section

variable (hfound : t.found f now = .ok es) {limit : Nat} (hlimit : limit < Number.wordBound)
include hfound hlimit

end

end LogTable

end AuditReport
