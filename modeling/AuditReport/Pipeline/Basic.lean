import AuditReport.Pipeline.Stage

/-! Queries: sequences of stages in an order that the store can evaluate. `Pipeline.of` names the
first stage that is out of order. -/

namespace AuditReport

/-- Why a sequence of stages is not a query. -/
inductive OrderError where
  | empty
  | afterLaterPhase (kind : String) (index : Nat)
  | joinedTwice (name : String)
  | dependencyNotReady (name dependency : String)
  | unwindWithoutJoin (name : String)
  | unwoundTwice (name : String)
  | terminalNotLast (kind : String)
  | noTerminal
  deriving DecidableEq, Repr

/-- The wording of an order error. -/
def OrderError.message : OrderError → String
  | empty => "A pipeline needs at least a terminal stage"
  | afterLaterPhase kind index =>
    kind ++ " at position " ++ toString index ++ " appears after a later phase"
  | joinedTwice name => "Join '" ++ name ++ "' appears twice"
  | dependencyNotReady name dependency =>
    "Join '" ++ name ++ "' needs '" ++ dependency ++ "' joined and unwound first"
  | unwindWithoutJoin name => "Unwind '" ++ name ++ "' has no preceding join"
  | unwoundTwice name => "Alias '" ++ name ++ "' is unwound twice"
  | terminalNotLast kind => kind ++ " must be the final stage"
  | noTerminal => "A pipeline must end with a Facet or Project stage"

namespace Pipeline

/-- What is known of the stages so far. -/
structure Progress where
  index : Nat
  phase : Nat
  joined : List String
  unwound : List String
  deriving DecidableEq, Repr

/-- Before the first stage. -/
def Progress.start : Progress := ⟨0, 0, [], []⟩

/-- Takes one stage into account; `isLast` says whether any follow. -/
def Progress.step (p : Progress) (isLast : Bool) (s : Stage) : Except OrderError Progress :=
  if s.phase < p.phase then .error (.afterLaterPhase s.kind p.index)
  else
    let p := { p with index := p.index + 1, phase := s.phase }
    match s with
    | .join j =>
      if p.joined.contains j.name then .error (.joinedTwice j.name)
      else match j.dependency? with
        | some dependency =>
          if p.unwound.contains dependency then .ok { p with joined := j.name :: p.joined }
          else .error (.dependencyNotReady j.name dependency)
        | none => .ok { p with joined := j.name :: p.joined }
    | .unwind name =>
      if !p.joined.contains name then .error (.unwindWithoutJoin name)
      else if p.unwound.contains name then .error (.unwoundTwice name)
      else .ok { p with unwound := name :: p.unwound }
    | s => if s.isTerminal && !isLast then .error (.terminalNotLast s.kind) else .ok p

/-- Checks the stages in order; the last one must be terminal. -/
def checkFrom (p : Progress) : List Stage → Except OrderError Unit
  | [] => .error .empty
  | [s] => do
    let _ ← p.step true s
    if s.isTerminal then .ok () else .error .noTerminal
  | s :: t :: rest => do
    let p ← p.step false s
    checkFrom p (t :: rest)

/-- The rules for the order of stages. -/
def check (stages : List Stage) : Except OrderError Unit := checkFrom .start stages

end Pipeline

/-- Stages in an order that the store can evaluate. -/
structure Pipeline where
  stages : List Stage
  ordered : Pipeline.check stages = .ok ()

namespace Pipeline

/-- The query with the given stages, if they are in order. -/
def of (stages : List Stage) : Except OrderError Pipeline :=
  match h : check stages with
  | .ok () => .ok ⟨stages, h⟩
  | .error e => .error e

/-- The query yields one page and a count, not all rows. -/
def isPage (p : Pipeline) : Bool := p.stages.getLast?.any Stage.isPage

/-- The names of the joins, in order. -/
def joinNames (p : Pipeline) : List String := (p.stages.filterMap Stage.join?).map Join.name

/-- The query as the store takes it. -/
def toValues (p : Pipeline) : List Value := p.stages.map Stage.toValue

end Pipeline

end AuditReport
