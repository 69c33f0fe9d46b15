import TrajOpt.Error

/-!
# Solver options

The options of the inner solver, of the outer loop and of the infeasible start. Budgets and flags
are kept as they were given; the other options are numbers of a type `ν`.

Every check is a comparison that has to come out as stated. Some of them ask whether a forbidden
relation holds, which a value that is not a number never fulfils.

## Main definitions

* `Options`, `Options.standard` - the options and their defaults.
* `Options.check` - the conditions under which options are accepted.
* `Options.create`, `Options.replace` - options from named values.
-/

namespace TrajOpt

/-- The options of a solver. -/
structure Options (ν : Type) where
  /-- The largest number of inner iterations. -/
  iterations : Numeral
  /-- The largest number of outer iterations of a stage. -/
  iterationsOuter : Numeral
  /-- The largest number of step sizes that a line search tries. -/
  iterationsLineSearch : Numeral
  /-- The cost change below which the outer loop may stop. -/
  eps : ν
  /-- The violation below which the constraints count as met. -/
  epsConstraint : ν
  /-- The cost change at which the inner solver stops on feasible paths. -/
  costTolerance : ν
  /-- The cost change at which the inner solver stops while constraints are violated. -/
  costToleranceIntermediate : ν
  /-- The size of the control changes below which the inner solver stops. -/
  gradientTolerance : ν
  /-- The bounds between which the actual decrease may stand to the expected one. -/
  c1 : ν
  c2 : ν
  /-- The penalty that every constraint starts with. -/
  penaltyInitial : ν
  /-- The factor by which penalties grow. -/
  penaltyFactor : ν
  penaltyMax : ν
  /-- The fraction of its previous value that the violation must fall below if penalties are not to
  grow. -/
  decreaseFraction : ν
  /-- The weight of the cost of slack controls. -/
  slackWeight : ν
  /-- The regularization of the backward pass: its start, its growth, the value below which it is
  dropped, and the value above which the inner solver gives up. -/
  regInitial : ν
  regFactor : ν
  regMin : ν
  regMax : ν
  /-- Whether every iteration is reported. -/
  verbose : Numeral
  /-- Whether every outer iterate is kept. -/
  cache : Numeral

/-- The budgets of a solver. -/
inductive Budget where
  | iterations
  | outer
  | lineSearch
  deriving DecidableEq

namespace Options

variable {ν μ : Type}

/-- The same options with every number replaced. -/
def map (f : ν → μ) (o : Options ν) : Options μ where
  iterations := o.iterations
  iterationsOuter := o.iterationsOuter
  iterationsLineSearch := o.iterationsLineSearch
  eps := f o.eps
  epsConstraint := f o.epsConstraint
  costTolerance := f o.costTolerance
  costToleranceIntermediate := f o.costToleranceIntermediate
  gradientTolerance := f o.gradientTolerance
  c1 := f o.c1
  c2 := f o.c2
  penaltyInitial := f o.penaltyInitial
  penaltyFactor := f o.penaltyFactor
  penaltyMax := f o.penaltyMax
  decreaseFraction := f o.decreaseFraction
  slackWeight := f o.slackWeight
  regInitial := f o.regInitial
  regFactor := f o.regFactor
  regMin := f o.regMin
  regMax := f o.regMax
  verbose := o.verbose
  cache := o.cache

/-- The default options. -/
def standard [Arith ν] [OfScientific ν] : Options ν where
  iterations := .int 500
  iterationsOuter := .int 50
  iterationsLineSearch := .int 20
  eps := 1e-5
  epsConstraint := 1e-3
  costTolerance := 1e-5
  costToleranceIntermediate := 1e-3
  gradientTolerance := 1e-5
  c1 := 1e-8
  c2 := 10.0
  penaltyInitial := 1.0
  penaltyFactor := 10.0
  penaltyMax := 1e8
  decreaseFraction := 0.25
  slackWeight := 1.0
  regInitial := 0.0
  regFactor := 1.6
  regMin := 1e-8
  regMax := 1e8
  verbose := .truth false
  cache := .truth true

/-- A budget as it was given. -/
def budget (o : Options ν) : Budget → Numeral
  | .iterations => o.iterations
  | .outer => o.iterationsOuter
  | .lineSearch => o.iterationsLineSearch

/-- The name of a budget. -/
def budgetText : Budget → String
  | .iterations => "iterations"
  | .outer => "iterations_outerloop"
  | .lineSearch => "iterations_linesearch"

/-- A budget has to be a positive integer, in whatever kind it is given. -/
def checkBudget (o : Options ν) (b : Budget) : Except (Error ν) Unit :=
  let value := o.budget b
  match value.truncate with
  | .error reason => .error (.noInteger reason)
  | .ok k =>
    if value.toFloat == Float.ofInt k && 1 ≤ k then .ok ()
    else .error (.budget (budgetText b) value)

/-- The numbers that have to be positive. -/
def positives (o : Options ν) : List (String × ν) :=
  [("eps", o.eps), ("eps_constraint", o.epsConstraint), ("cost_tolerance", o.costTolerance),
    ("cost_tolerance_intermediate", o.costToleranceIntermediate),
    ("gradient_tolerance", o.gradientTolerance), ("penalty_initial", o.penaltyInitial),
    ("infeasible_regularization", o.slackWeight), ("bp_reg_min", o.regMin)]

variable [Arith ν]

/-- Whether the options are accepted, and if not, the first condition that they miss. -/
def check (o : Options ν) : Except (Error ν) Unit := do
  o.checkBudget .iterations
  o.checkBudget .outer
  o.checkBudget .lineSearch
  for (name, value) in o.positives do
    if value ≤ 0 then throw (.notPositive name value)
  unless 0 < o.c1 ∧ o.c1 < o.c2 do throw (.lineSearchBounds o.c1 o.c2)
  if o.penaltyFactor ≤ 1 then throw (.notAboveOne "mu_al_update" o.penaltyFactor)
  if o.penaltyMax < o.penaltyInitial then throw .penaltyBounds
  unless 0 < o.decreaseFraction ∧ o.decreaseFraction < 1 do
    throw (.decreaseFraction o.decreaseFraction)
  if o.regFactor ≤ 1 then throw (.notAboveOne "bp_reg_increase_factor" o.regFactor)
  if o.regInitial < 0 ∨ o.regMax ≤ o.regMin then throw .regularizationBounds

/-- The budget as a natural number. -/
def budgetNat (o : Options ν) (b : Budget) : Nat :=
  match (o.budget b).truncate with
  | .ok k => k.toNat
  | .error _ => 0

/-- The budget of a loop that counts, which needs an integer given as such. -/
def counted (o : Options ν) (b : Budget) : Except (Error ν) Nat :=
  match (o.budget b).int? with
  | some k => .ok k.toNat
  | none => .error .notCountable

end Options

namespace Options

/-- All options under their names. -/
def toList (o : Options Numeral) : List (String × Numeral) :=
  [("iterations", o.iterations), ("iterations_outerloop", o.iterationsOuter),
    ("iterations_linesearch", o.iterationsLineSearch), ("eps", o.eps),
    ("eps_constraint", o.epsConstraint), ("cost_tolerance", o.costTolerance),
    ("cost_tolerance_intermediate", o.costToleranceIntermediate),
    ("gradient_tolerance", o.gradientTolerance), ("c1", o.c1), ("c2", o.c2),
    ("penalty_initial", o.penaltyInitial), ("mu_al_update", o.penaltyFactor),
    ("penalty_max", o.penaltyMax), ("constraint_decrease_ratio", o.decreaseFraction),
    ("infeasible_regularization", o.slackWeight), ("bp_reg_initial", o.regInitial),
    ("bp_reg_increase_factor", o.regFactor), ("bp_reg_min", o.regMin), ("bp_reg_max", o.regMax),
    ("verbose", o.verbose), ("cache", o.cache)]

/-- The options with one of them changed, if there is one of that name. -/
def set? (o : Options Numeral) (name : String) (value : Numeral) : Option (Options Numeral) :=
  match name with
  | "iterations" => some { o with iterations := value }
  | "iterations_outerloop" => some { o with iterationsOuter := value }
  | "iterations_linesearch" => some { o with iterationsLineSearch := value }
  | "eps" => some { o with eps := value }
  | "eps_constraint" => some { o with epsConstraint := value }
  | "cost_tolerance" => some { o with costTolerance := value }
  | "cost_tolerance_intermediate" => some { o with costToleranceIntermediate := value }
  | "gradient_tolerance" => some { o with gradientTolerance := value }
  | "c1" => some { o with c1 := value }
  | "c2" => some { o with c2 := value }
  | "penalty_initial" => some { o with penaltyInitial := value }
  | "mu_al_update" => some { o with penaltyFactor := value }
  | "penalty_max" => some { o with penaltyMax := value }
  | "constraint_decrease_ratio" => some { o with decreaseFraction := value }
  | "infeasible_regularization" => some { o with slackWeight := value }
  | "bp_reg_initial" => some { o with regInitial := value }
  | "bp_reg_increase_factor" => some { o with regFactor := value }
  | "bp_reg_min" => some { o with regMin := value }
  | "bp_reg_max" => some { o with regMax := value }
  | "verbose" => some { o with verbose := value }
  | "cache" => some { o with cache := value }
  | _ => none

/-- The options with several of them changed, and the names that no option has. -/
def setAll (o : Options Numeral) (changes : List (String × Numeral)) :
    Options Numeral × List String :=
  changes.foldl (fun (o, unknown) (name, value) =>
    match o.set? name value with
    | some o => (o, unknown)
    | none => (o, unknown ++ [name])) (o, [])

/-- The default options with the given changes. -/
def create (changes : List (String × Numeral)) : Except (Error Numeral) (Options Numeral) :=
  let (o, unknown) := (standard : Options Numeral).setAll changes
  match unknown with
  | name :: _ => .error (.unexpectedField .options name)
  | [] => do
    o.check
    return o

/-- These options with the given changes. -/
def replace (o : Options Numeral) (changes : List (String × Numeral)) :
    Except (Error Numeral) (Options Numeral) :=
  let (o, unknown) := o.setAll changes
  if unknown.isEmpty then do
    o.check
    return o
  else .error (.unknownOptions (unknown.mergeSort fun a b => a ≤ b))

end Options

end TrajOpt
