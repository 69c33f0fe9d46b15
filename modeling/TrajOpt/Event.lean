import TrajOpt.Number.Text

/-!
# Events

What a run reports while it computes: warnings about slow functions and about slacks that remain,
and, on request, one line for every inner and outer iteration. An event holds the numbers of the
moment; its level and its text are functions on it.
-/

namespace TrajOpt

/-- How a solve ended. -/
inductive Status where
  | solved
  | maxIterations
  | lineSearchFailed
  | backwardPassFailed
  | unknown
  deriving DecidableEq

/-- The name of a status. -/
def Status.text : Status → String
  | solved => "SOLVED"
  | maxIterations => "MAX_ITERATIONS"
  | lineSearchFailed => "LINE_SEARCH_FAILED"
  | backwardPassFailed => "BACKWARD_PASS_FAILED"
  | unknown => "UNKNOWN"

/-- All statuses. -/
def Status.all : List Status :=
  [.solved, .maxIterations, .lineSearchFailed, .backwardPassFailed, .unknown]

/-- The status of the given name. -/
def Status.ofText? (name : String) : Option Status := Status.all.find? fun s => s.text == name

/-- The stages whose iterates a history tells apart. -/
inductive Stage where
  | unconstrained
  | infeasible
  | feasible
  deriving DecidableEq

namespace Stage

/-- The number that stands for the stage. -/
def tag : Stage → Nat
  | unconstrained => 0
  | infeasible => 1
  | feasible => 2

/-- The stage that a number stands for. -/
def ofTag? : Int → Option Stage
  | 0 => some unconstrained
  | 1 => some infeasible
  | 2 => some feasible
  | _ => none

/-- The name of a stage. -/
def text : Stage → String
  | unconstrained => "unconstrained"
  | infeasible => "infeasible"
  | feasible => "feasible"

theorem ofTag?_tag (s : Stage) : ofTag? s.tag = some s := by cases s <;> rfl

end Stage

/-- How urgent an event is. -/
inductive Level where
  | debug
  | info
  | warning
  deriving DecidableEq

namespace Level

/-- The name of a level. -/
def text : Level → String
  | debug => "DEBUG"
  | info => "INFO"
  | warning => "WARNING"

/-- The level of the given name. -/
def ofText? (name : String) : Option Level := [debug, info, warning].find? fun l => l.text == name

/-- The levels in increasing order. -/
def rank : Level → Nat
  | debug => 0
  | info => 1
  | warning => 2

end Level

/-- What a run reports, with numbers in `α`. -/
inductive Event (α : Type) where
  /-- A function is evaluated outside the traced computation. -/
  | slowFunction (name : String) (inPlace : Bool)
  /-- The slack controls of an infeasible start did not vanish. -/
  | slackRemains (slack tolerance : α)
  /-- The regularization of the backward pass was raised. -/
  | regularizationRaised (weight : α)
  /-- One accepted step of the inner solver. -/
  | innerIteration (iteration : Nat) (cost decrease gradient step weight violation : α)
  /-- One iteration of the outer loop. -/
  | outerIteration (stage : Stage) (iteration : Nat) (cost violation : α) (inner : Nat)
      (status : Status) (penalty : α)
  /-- The single inner solve of a problem without constraints. -/
  | unconstrainedSolve (cost : α) (iterations : Nat) (status : Status)

namespace Event

/-- The level of an event. -/
def level {α : Type} : Event α → Level
  | slowFunction .. | slackRemains .. => .warning
  | regularizationRaised .. => .debug
  | innerIteration .. | outerIteration .. | unconstrainedSolve .. => .info

/-- The text of an event. -/
def text : Event Float → String
  | slowFunction name inPlace =>
    let reason := if inPlace then "written in-place" else "not traceable by JAX"
    s!"{name} is {reason}; evaluating it through a host callback, which is slow. " ++
      "Write it with jax.numpy and return the result for best performance."
  | slackRemains slack tolerance =>
    "infeasible start did not remove the slack controls (max |w| = " ++ scientificText 3 slack ++
      " > " ++ scientificText 1 tolerance ++
      "); solving the original problem from this warm start anyway"
  | regularizationRaised weight => "regularization increased to " ++ scientificText 3 weight
  | innerIteration iteration cost decrease gradient step weight violation =>
    "iter " ++ Text.padLeft 3 ' ' (toString iteration) ++
      ": cost " ++ scientificText 6 cost ++ "  dJ " ++ scientificText 3 decrease ++
      "  grad " ++ scientificText 3 gradient ++ "  alpha " ++ fixedText 4 step ++
      "  rho " ++ scientificText 2 weight ++ "  c_max " ++ scientificText 3 violation
  | outerIteration stage iteration cost violation inner status penalty =>
    stage.text ++ s!" outer iter {iteration}: cost " ++ scientificText 6 cost ++
      "  c_max " ++ scientificText 3 violation ++ s!"  inner iters {inner} (" ++ status.text ++
      ")  mu max " ++ scientificText 2 penalty
  | unconstrainedSolve cost iterations status =>
    "unconstrained solve: cost " ++ scientificText 6 cost ++ s!"  iters {iterations} (" ++
      status.text ++ ")"

/-- The line of a log that shows an event. -/
def line (e : Event Float) : String := e.level.text ++ " " ++ e.text

/-- The lines of all events of at least the given level. -/
def lines (least : Level) (events : List (Event Float)) : List String :=
  (events.filter fun e => least.rank ≤ e.level.rank).map line

end Event

end TrajOpt
