/-!
# Catalogue

The version of the library and the names under which its parts are known to a user of the command
interface, each list in alphabetical order.
-/

namespace RecedingHorizon.Catalogue

def version : String := "0.1.0"

/-- The line that names the library and its version. -/
def headline : String := "predictivecontrol version: " ++ version

def names : List String :=
  ["Best", "BlockMatrix", "CondensedMPC", "CondensedQP", "Conjugate", "ConstantStep",
    "ConstrainedLQR", "DimensionError", "DomainError", "FGMResult", "Gradient", "InfeasibleError",
    "InvalidInputError", "LinearSystem", "MPCResult", "NumericalError", "PredictiveControlError",
    "Status", "TerminalWeight", "VariableStep", "__version__", "block_kron", "cold_start_delta",
    "condense", "condition_bound", "condition_number", "equality_constraints",
    "fast_gradient_method", "hessian", "inequality_constraints", "linear_coefficients",
    "upper_iteration_bound"]

/-- The part that builds problems and controls them. -/
def controlNames : List String :=
  ["BoxConstraints", "CondensedMPC", "CondensedQP", "ConstrainedLQR", "LinearSystem", "MPCResult",
    "PolytopeConstraints", "TerminalWeight", "condense", "condition_bound", "condition_number",
    "dlqr_gain", "equality_constraints", "hessian", "inequality_constraints",
    "initial_propagation", "input_initial_propagation", "input_prediction",
    "linear_coefficients", "prediction"]

/-- The part that minimizes. -/
def gradientNames : List String :=
  ["Best", "Conjugate", "ConstantStep", "FGMState", "FastGradientIterator", "Gradient", "StepSize",
    "StopCondition", "VariableStep", "apply", "cold_start_delta", "conjugate_residual",
    "fast_gradient_method", "halt", "identity_projection", "loop", "solve_inequality_qp",
    "upper_iteration_bound"]

end RecedingHorizon.Catalogue
