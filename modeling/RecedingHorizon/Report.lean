import RecedingHorizon.Decimal.Text
import RecedingHorizon.Status

/-!
# Reports

The texts in which results are shown to a reader: one line or a framed summary for a run of the
solver, a few lines for a prediction, and a table row for every iteration that is watched.
-/

namespace RecedingHorizon.Report

/-- A run of the solver in one line. -/
def run (status : Status) (iterations : String) (seconds : Float) : String :=
  let time := Decimal.fixed 4 seconds
  s!"FGMResult(status={status.text}, iterations={iterations}, time={time}s)"

/-- A line of fifty equal characters. -/
def rule (c : Char) : String := String.ofList (List.replicate 50 c)

/-- A run of the solver with the eigenvalue bounds that it used. -/
def runSummary (status : Status) (iterations : String) (seconds largest smallest : Float) :
    List String :=
  [rule '=', "Fast Gradient Method Summary", rule '=',
    "Status:           " ++ status.text,
    "Iterations:       " ++ iterations,
    "Solve time:       " ++ Decimal.fixed 4 seconds ++ " s",
    rule '-',
    "L (max eig):      " ++ Decimal.scientific 6 largest,
    "mu (min eig):     " ++ Decimal.scientific 6 smallest,
    rule '=']

/-- A prediction over a horizon. -/
def prediction (status : String) (cost seconds : Float) (horizon : Nat) : List String :=
  ["MPCResult(",
    "  status=" ++ status ++ ",",
    "  cost=" ++ Decimal.fixed 4 cost ++ ",",
    "  solve_time=" ++ Decimal.fixed 2 (seconds * 1000.0) ++ "ms,",
    s!"  horizon={horizon}",
    ")"]

/-- The head of the table of iterations. -/
def iterationHead : String := "Iteration | Residual (Conjugate)"

/-- The row of an iteration: its number, right-aligned in three columns, and its residual. -/
def iterationRow (iteration : Nat) (residual : Float) : String :=
  let count := (toString iteration).toList
  let number := String.ofList (List.replicate (3 - count.length) ' ' ++ count)
  s!"   {number}    |   " ++ Decimal.scientific 4 residual

end RecedingHorizon.Report
