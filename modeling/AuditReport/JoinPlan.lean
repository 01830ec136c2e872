import AuditReport.Catalog.Basic

/-! Which joins a set of columns needs, in which order, and which of them are unwound early. -/

namespace AuditReport

/-- Planned joins in order, and the names of those among them that a later join keys off. -/
structure JoinPlan where
  joins : List Join
  eager : List String
  deriving DecidableEq, Repr

namespace JoinPlan

/-- The names of the planned joins. -/
def names (p : JoinPlan) : List String := p.joins.map Join.name

/-- The names that are unwound after all joins. -/
def deferred (p : JoinPlan) : List String := p.names.filter (!p.eager.contains ·)

/-- Adds to some names all that their joins key off, directly or through others. As every join
follows the one it keys off, one pass from the last join to the first suffices. -/
def close (joins : List Join) (names : List String) : List String :=
  joins.foldr (fun j selected =>
    if selected.contains j.name then
      match j.dependency? with
      | some dependency => dependency :: selected
      | none => selected
    else selected) names

/-- The least plan for some columns: the joins they ask for and all those these key off. -/
def ofColumns (catalog : Catalog) (keys : List String) : JoinPlan :=
  let selected := close catalog.joins (catalog.requiredNames keys)
  let joins := catalog.joins.filter fun j => selected.contains j.name
  ⟨joins, (joins.map Join.name).filter fun a => joins.any (·.dependency? == some a)⟩

end JoinPlan

end AuditReport
