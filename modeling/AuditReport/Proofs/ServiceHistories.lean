import AuditReport.Service

/-! Histories of a service: requests, changes of what the store holds, and settings of the clock, in
any order. -/

namespace AuditReport.Service

variable {T : Type}

/-- What happens around a service: someone asks for something, the store comes to hold something
else, or the clock is set. -/
inductive Event (T : Type) where
  | asked (caller : User) (operation : Operation)
  | stored (store : Store)
  | timed (now : T)

/-- A caller with the answer to what was asked. -/
abbrev Told := User × Except Failure Answer

variable [LE T] [DecidableLE T] [Timeline T]

/-- Whom an event has the service tell something, and the backend that it leaves. -/
def react (s : Service) (b : Backend T) : Event T → List Told × Backend T
  | .asked caller operation =>
    let out := (s.perform caller operation).run.run b
    ([(caller, out.1)], out.2)
  | .stored store => ([], { b with store })
  | .timed now => ([], { b with now })

/-- All that is told in the course of a history, and the backend at its end. -/
def serve (s : Service) (b : Backend T) : List (Event T) → List Told × Backend T
  | [] => ([], b)
  | e :: rest =>
    let first := s.react b e
    let last := serve s first.2 rest
    (first.1 ++ last.1, last.2)

end AuditReport.Service
