import TrajOpt.Solver
import TrajOpt.Path.Line
import TrajOpt.Function.Derivative
import TrajOpt.Dynamics.Systems
import TrajOpt.Objective.SwingUp
import TrajOpt.Number.Reading
import TrajOpt.Proofs.Outcome
import TrajOpt.Proofs.Descent.Moves
import TrajOpt.Proofs.Descent.Progress
import TrajOpt.Proofs.History
import TrajOpt.Proofs.Solve.Rounds
import TrajOpt.Proofs.Solve.Coherence
import TrajOpt.Proofs.Objective.Constraints
import TrajOpt.Proofs.Solve.Soundness
import TrajOpt.Proofs.Scalar.Binary64
import TrajOpt.Proofs.Scalar.Rounding
import TrajOpt.Proofs.Scalar.Double
import TrajOpt.Proofs.Linear.Matrix
import TrajOpt.Proofs.Linear.Cholesky
import TrajOpt.Proofs.Descent.Riccati
import TrajOpt.Proofs.Options
import TrajOpt.Proofs.Linear.Forms
import TrajOpt.Proofs.Linear.Blocks
import TrajOpt.Proofs.Problem.Quadratic
import TrajOpt.Proofs.Lagrangian
import TrajOpt.Proofs.Descent.Convexity
import TrajOpt.Proofs.Problem.LinearQuadratic
import TrajOpt.Proofs.Descent.LinearQuadratic
import TrajOpt.Proofs.Descent.Stationarity
import TrajOpt.Proofs.Solve.Penalties
import TrajOpt.Proofs.Problem.Slack
import TrajOpt.Proofs.Solve.HandOver
import TrajOpt.Proofs.Solve.Stages
import TrajOpt.Proofs.Solve.Failures
import TrajOpt.Proofs.Solve.Records
import TrajOpt.Proofs.Solve.Reporting
import TrajOpt.Proofs.Scalar.Product
import TrajOpt.Proofs.Scalar.Operations
import TrajOpt.Proofs.Descent.Termination
import TrajOpt.Proofs.Solve.Budgets
import TrajOpt.Proofs.Solve.Convergence
import TrajOpt.Proofs.Descent.ExpectedChange
import TrajOpt.Proofs.Linear.Tensor
import TrajOpt.Proofs.Objective.Building
import TrajOpt.Proofs.Objective.Update
import TrajOpt.Proofs.Descent.ExpectedDecrease
import TrajOpt.Proofs.Descent.FullStep
import TrajOpt.Proofs.Descent.Schedule
import TrajOpt.Proofs.Descent.Success
import TrajOpt.Proofs.History.Attempts
import TrajOpt.Proofs.Lagrangian.Update
import TrajOpt.Proofs.Scalar.Extended
import TrajOpt.Proofs.Objective.Encoding
import TrajOpt.Proofs.Function.Affine
import TrajOpt.Proofs.Objective.Layout
import TrajOpt.Proofs.Objective.Jacobians
import TrajOpt.Proofs.Problem.Jacobians
import TrajOpt.Proofs.Function.Counting
import TrajOpt.Proofs.Function.Quadratic
import TrajOpt.Proofs.Objective.ControlWeight
import TrajOpt.Proofs.Dynamics.Flow
import TrajOpt.Proofs.Dynamics.Expansion
import TrajOpt.Proofs.Dynamics.Order
import TrajOpt.Proofs.Dynamics.Integration
import TrajOpt.Proofs.Number.Numeral
import TrajOpt.Proofs.Options.Soundness
import TrajOpt.Proofs.Function.Failures
import TrajOpt.Proofs.Function.Forms
import TrajOpt.Proofs.Dynamics.Forms
import TrajOpt.Proofs.Solve.Warnings
import TrajOpt.Proofs.Solve.SlackWarning
import TrajOpt.Proofs.Linear.Definite
import TrajOpt.Proofs.Path.ClosedLoop
import TrajOpt.Proofs.Problem.TotalCost
