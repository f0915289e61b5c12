import RecedingHorizon.Argument.Basic
import RecedingHorizon.Argument.Checked
import RecedingHorizon.Blocks.Kronecker
import RecedingHorizon.Blocks.Matrix
import RecedingHorizon.Blocks.Partition
import RecedingHorizon.Blocks.Store
import RecedingHorizon.Catalogue
import RecedingHorizon.Condensing.Assembly
import RecedingHorizon.Condensing.Blocks
import RecedingHorizon.Condensing.Conditioning
import RecedingHorizon.Condensing.Prediction
import RecedingHorizon.Condensing.Program
import RecedingHorizon.Constraint.Box
import RecedingHorizon.Constraint.Polytope
import RecedingHorizon.Constraint.Projection
import RecedingHorizon.Controller.ClosedLoop
import RecedingHorizon.Controller.Plan
import RecedingHorizon.Controller.Setup
import RecedingHorizon.Decimal.Binary
import RecedingHorizon.Decimal.Rounding
import RecedingHorizon.Decimal.Text
import RecedingHorizon.Decimal.Unit
import RecedingHorizon.Error
import RecedingHorizon.Gradient.Certificate
import RecedingHorizon.Gradient.Condition
import RecedingHorizon.Gradient.Iteration
import RecedingHorizon.Gradient.Minimization
import RecedingHorizon.Gradient.Space
import RecedingHorizon.Gradient.StepRule
import RecedingHorizon.Linear.Complex
import RecedingHorizon.Linear.Matrix
import RecedingHorizon.Linear.Stacked
import RecedingHorizon.Linear.Vector
import RecedingHorizon.Numeric.BracketedRoot
import RecedingHorizon.Numeric.Cholesky
import RecedingHorizon.Numeric.Elimination
import RecedingHorizon.Numeric.Floating
import RecedingHorizon.Numeric.Jacobi
import RecedingHorizon.Numeric.Kernels
import RecedingHorizon.Numeric.MatrixEquation
import RecedingHorizon.Numeric.NonnegativeLeastSquares
import RecedingHorizon.Numeric.QuadraticProgram
import RecedingHorizon.Numeric.Reflection
import RecedingHorizon.Numeric.Spectrum
import RecedingHorizon.Numeric.Worksheet
import RecedingHorizon.Pipeline.Event
import RecedingHorizon.Pipeline.Run
import RecedingHorizon.Pipeline.Stage
import RecedingHorizon.Problem.Constrained
import RecedingHorizon.Problem.Cost
import RecedingHorizon.Problem.Regulator
import RecedingHorizon.Problem.Specification
import RecedingHorizon.Problem.TerminalWeight
import RecedingHorizon.Program.Inequality
import RecedingHorizon.Program.LeastDistance
import RecedingHorizon.Report
import RecedingHorizon.Scalar
import RecedingHorizon.Scalar.Bounds
import RecedingHorizon.Scalar.Checked
import RecedingHorizon.Scalar.Extended
import RecedingHorizon.Scalar.Floating
import RecedingHorizon.Scalar.Logarithm
import RecedingHorizon.Status
import RecedingHorizon.System.Linear
import RecedingHorizon.System.Rollout
import RecedingHorizon.Tensor.Basic
import RecedingHorizon.Tensor.Broadcast
import RecedingHorizon.Tensor.Norm
import RecedingHorizon.Tensor.Product
import RecedingHorizon.Text.Integer
import RecedingHorizon.Text.Lowercase
import RecedingHorizon.Text.Printable
import RecedingHorizon.Text.Quoted
import RecedingHorizon.Proofs.Exact.Cholesky
import RecedingHorizon.Proofs.Exact.Matrix
import RecedingHorizon.Proofs.Exact.Stacked
import RecedingHorizon.Proofs.Prediction.Trajectory
import RecedingHorizon.Proofs.Prediction.Rollout
import RecedingHorizon.Proofs.Condensing.Cost
import RecedingHorizon.Proofs.Condensing.Constraints
import RecedingHorizon.Proofs.Prediction.Feedback
import RecedingHorizon.Proofs.Condensing.Substitution
import RecedingHorizon.Proofs.Condensing.Riccati
import RecedingHorizon.Proofs.Constraint.Box
import RecedingHorizon.Proofs.Gradient.Convergence
import RecedingHorizon.Proofs.Controller.Accuracy
import RecedingHorizon.Proofs.Gradient.Certificate
import RecedingHorizon.Proofs.Blocks.Equal
import RecedingHorizon.Proofs.Condensing.Telescoping
import RecedingHorizon.Proofs.Condensing.Toeplitz
import RecedingHorizon.Proofs.Condensing.InfiniteHorizon
import RecedingHorizon.Proofs.Controller.Definiteness
import RecedingHorizon.Proofs.Controller.Feasibility
import RecedingHorizon.Proofs.Gradient.Solve
import RecedingHorizon.Proofs.Pipeline.Delivery
import RecedingHorizon.Proofs.Gradient.Stopping
import RecedingHorizon.Proofs.Gradient.Strategy
import RecedingHorizon.Proofs.Exact.Complex
import RecedingHorizon.Proofs.Exact.Circle
import RecedingHorizon.Proofs.Condensing.Symbol
import RecedingHorizon.Proofs.Condensing.Frequency
import RecedingHorizon.Proofs.Condensing.ConditionBound
import RecedingHorizon.Proofs.Condensing.Assembly
import RecedingHorizon.Proofs.Problem.Shapes
import RecedingHorizon.Proofs.Tensor.Spread
import RecedingHorizon.Proofs.Blocks.Partition
import RecedingHorizon.Proofs.Blocks.Writing
import RecedingHorizon.Proofs.Blocks.Family
import RecedingHorizon.Proofs.Gradient.Tests
import RecedingHorizon.Proofs.Gradient.Stationary
import RecedingHorizon.Proofs.Controller.WarmStart
import RecedingHorizon.Proofs.Program.ScaledIdentity
import RecedingHorizon.Proofs.Gradient.LeastCount
import RecedingHorizon.Proofs.Tensor.Inner
import RecedingHorizon.Proofs.Gradient.Comparison
import RecedingHorizon.Proofs.Gradient.Recurrence
import RecedingHorizon.Proofs.Pipeline.Interleaving
import RecedingHorizon.Proofs.Constraint.Faces
import RecedingHorizon.Proofs.Blocks.Tiling
import RecedingHorizon.Proofs.Tensor.Shapes
import RecedingHorizon.Proofs.Prediction.Outputs
import RecedingHorizon.Proofs.Prediction.Reachability
import RecedingHorizon.Proofs.Blocks.Indexing
import RecedingHorizon.Proofs.Constraint.Sizes
import RecedingHorizon.Proofs.Blocks.Kronecker
