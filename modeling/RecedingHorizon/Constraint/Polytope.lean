import RecedingHorizon.Tensor.Product
import RecedingHorizon.Argument.Basic

/-!
# Polytopes

The set of points `x` with `G x ≤ g`, one row per inequality. The residual `G x - g` of a point is
non-positive exactly in the rows that it satisfies.
-/

namespace RecedingHorizon

/-- The inequalities `coefficients * x ≤ bounds`. -/
structure Polytope (α : Type) (m n : Nat) where
  coefficients : Mat α m n
  bounds : Vec α m

namespace Polytope

variable {α : Type} {m n : Nat} [Scalar α]

/-- The left side less the right side, row by row. -/
def residual (p : Polytope α m n) (x : Vec α n) : Vec α m := p.coefficients.mulVec x - p.bounds

/-- Every row holds up to a tolerance. -/
def isSatisfied (p : Polytope α m n) (x : Vec α n) (tolerance : α) : Bool :=
  (p.residual x).allEntries fun r => decide (r ≤ tolerance)

def residualOf (p : Polytope α m n) (x : Tensor α) : Except Fault (Tensor α) := do
  Tensor.sub (← Tensor.product (.ofMat p.coefficients) x) (.ofVec p.bounds)

def isSatisfiedBy (p : Polytope α m n) (x : Tensor α) (tolerance : α) : Except Fault Bool := do
  return (← p.residualOf x).allEntries fun r => decide (r ≤ tolerance)

/-- The largest amount by which a row is exceeded; zero when there are no rows. -/
def violation (p : Polytope α m n) (x : Tensor α) : Except Fault α := do
  if m = 0 then return 0
  let excess := (← p.residualOf x).map (Scalar.maximum · 0)
  excess.largest Scalar.maximum

end Polytope

structure SomePolytope (α : Type) where
  {rows : Nat}
  {columns : Nat}
  polytope : Polytope α rows columns

/-- The polytope of a coefficient array and a bound array, which is flattened first. -/
def Polytope.ofTensors {α : Type} (coefficients bounds : Tensor α) :
    Except Fault (SomePolytope α) :=
  match coefficients with
  | ⟨[m, n], cells⟩ =>
    let entries := bounds.toList
    if h : entries.length = m then
      .ok { polytope := (⟨⟨cells⟩, Vec.ofList entries h⟩ : Polytope α m n) }
    else .error .polytopeRows
  | ⟨shape, _⟩ => .error (.notTwoDimensional "G" shape)

namespace Polytope

variable {α : Type} {m n : Nat}

theorem ofTensors_ofMat_ofVec (G : Mat α m n) (g : Vec α m) :
    ofTensors (.ofMat G) (.ofVec g) = .ok { polytope := ⟨G, g⟩ } := by
  have entries : (Tensor.ofVec g).toList = g.toList := Tensor.toList_ofVec g
  have rows : (Tensor.ofVec g).toList.length = m := by
    rw [entries, Vector.length_toList]
  have bounds : Vec.ofList (Tensor.ofVec g).toList rows = g := by
    apply Vector.toArray_inj.mp
    simp only [Vec.ofList, entries]
    exact g.toArray.toArray_toList
  unfold ofTensors Tensor.ofMat
  simp only [dif_pos rows, bounds]

theorem residualOf_ofVec [Scalar α] (p : Polytope α m n) (x : Vec α n) :
    p.residualOf (.ofVec x) = .ok (.ofVec (p.residual x)) := by
  rw [residualOf, Tensor.product_ofMat_ofVec]
  exact Tensor.sub_ofVec _ _

theorem isSatisfiedBy_ofVec [Scalar α] (p : Polytope α m n) (x : Vec α n) (tolerance : α) :
    p.isSatisfiedBy (.ofVec x) tolerance = .ok (p.isSatisfied x tolerance) := by
  rw [isSatisfiedBy, residualOf_ofVec]
  exact congrArg Except.ok (congrArg (List.all · _) (Tensor.toList_ofVec (p.residual x)))

/-- A point satisfies a polytope exactly if no entry of its residual exceeds the tolerance. -/
theorem isSatisfied_iff [Scalar α] (p : Polytope α m n) (x : Vec α n) (tolerance : α) :
    p.isSatisfied x tolerance = true ↔ ∀ i, p.residual x i ≤ tolerance := by
  have all := Tensor.allEntries_ofVec (fun r => decide (r ≤ tolerance)) (p.residual x)
  simp only [decide_eq_true_eq] at all
  rw [← all, Tensor.allEntries, Tensor.toList_ofVec]
  rfl

end Polytope

end RecedingHorizon
