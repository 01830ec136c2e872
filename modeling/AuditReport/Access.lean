import AuditReport.Failure
import AuditReport.Text.Character

/-! Who may use the report. -/

namespace AuditReport

/-- The caller, as named by the gateway. -/
structure User where
  id : Option String
  role : Option String
  deriving DecidableEq, Repr

/-- The role that may use the report. -/
def superAdminRole : String := "super_admin"

/-- The caller's role is that of super admins, blanks around it and case aside. -/
def User.isSuperAdmin (u : User) : Bool :=
  Text.fold (Text.trim (u.role.getD "")) == superAdminRole

/-- Decides whether a caller may use the report. -/
abbrev Authorizer := User → Bool

/-- Super admins only. -/
def superAdminsOnly : Authorizer := User.isSuperAdmin

/-- Fails unless the caller may perform an action. -/
def ensureAuthorized (authorizer : Authorizer) (u : User) (action : String) : Except Failure Unit :=
  if authorizer u then .ok () else .error (.denied action)

end AuditReport
