import RecedingHorizon.Scalar.Floating

/-!
# Roots between two points

Finds a zero of a function that changes sign between two points. A step goes to the zero of the line
or of the parabola through the last points where that shortens the bracket fast enough, and to its
middle otherwise; the search ends when the bracket is no longer than the tolerance.
-/

namespace RecedingHorizon.BracketedRoot

/-- The absolute tolerance on the root. -/
def tolerance : Float := 2e-12

/-- The tolerance relative to the root, four units in the last place. -/
def relativeTolerance : Float := 8.881784197001252e-16

/-- The last two points, the end of the bracket on the other side, and the last two step lengths. -/
structure Search where
  before : Float
  beforeValue : Float
  current : Float
  currentValue : Float
  opposite : Float
  oppositeValue : Float
  earlierStep : Float
  step : Float

/-- Strictly opposite signs. -/
def changesSign (x y : Float) : Bool := (x < 0.0 && 0.0 < y) || (0.0 < x && y < 0.0)

/-- The bracket, with the better of its ends as the current point. -/
def Search.arrange (s : Search) : Search :=
  let s :=
    if changesSign s.beforeValue s.currentValue then
      let step := s.current - s.before
      { s with opposite := s.before, oppositeValue := s.beforeValue, earlierStep := step, step }
    else s
  if s.oppositeValue.abs < s.currentValue.abs then
    { s with
      before := s.current, beforeValue := s.currentValue
      current := s.opposite, currentValue := s.oppositeValue
      opposite := s.current, oppositeValue := s.currentValue }
  else s

/-- The step to the zero of the interpolating line or parabola. -/
def Search.interpolate (s : Search) : Float :=
  if s.before == s.opposite then
    -s.currentValue * (s.current - s.before) / (s.currentValue - s.beforeValue)
  else
    let slopeBefore := (s.beforeValue - s.currentValue) / (s.before - s.current)
    let slopeOpposite := (s.oppositeValue - s.currentValue) / (s.opposite - s.current)
    let rise := s.oppositeValue * slopeOpposite - s.beforeValue * slopeBefore
    let bend := slopeOpposite * slopeBefore * (s.oppositeValue - s.beforeValue)
    let numerator := -s.currentValue * rise
    numerator / bend

/-- The search after `fuel` more steps at most; nothing if the bracket is still too long. -/
def search (f : Float → Float) : (fuel : Nat) → Search → Option Float
  | 0, _ => none
  | fuel + 1, s =>
    let s := s.arrange
    let close := (tolerance + relativeTolerance * s.current.abs) / 2.0
    let half := (s.opposite - s.current) / 2.0
    if s.currentValue == 0.0 || half.abs < close then some s.current
    else
      -- Interpolation is only trusted if the steps and the values have been shrinking and its own step
      -- is short enough. Otherwise the bracket is halved.
      let (earlierStep, step) :=
        if s.earlierStep.abs > close && s.currentValue.abs < s.beforeValue.abs then
          let trial := s.interpolate
          let limit := min s.earlierStep.abs (3.0 * half.abs - close)
          if 2.0 * trial.abs < limit then (s.step, trial) else (half, half)
        else (half, half)
      -- A step is never shorter than the accuracy, so that the search does not stand still.
      let move := if step.abs > close then step else if half > 0.0 then close else -close
      let next := s.current + move
      let value := f next
      if value.isNaN then none
      else
        search f fuel
          { s with
            before := s.current, beforeValue := s.currentValue
            current := next, currentValue := value, earlierStep, step }

/-- A zero of `f` between `a` and `b`. -/
def find (f : Float → Float) (a b : Float) : Option Float :=
  let fa := f a
  let fb := f b
  if fa.isNaN || fb.isNaN then none
  else if fa == 0.0 then some a
  else if fb == 0.0 then some b
  else if changesSign fa fb then
    search f 100
      { before := a, beforeValue := fa, current := b, currentValue := fb
        opposite := 0.0, oppositeValue := 0.0, earlierStep := 0.0, step := 0.0 }
  else none

end RecedingHorizon.BracketedRoot
