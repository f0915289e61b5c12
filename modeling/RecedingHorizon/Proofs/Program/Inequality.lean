import RecedingHorizon.Program.Inequality
import RecedingHorizon.Proofs.Program.LeastDistance

/-!
# The program of the nearest point

The point of a polytope nearest to the origin is a quadratic program with the identity as its
quadratic term. Without rows it is the shortest solution of a linear system, and with rows the
identity is recognised as a multiple of itself and the program goes to the method for the shortest
vector; both ways lead to the nearest point (`solve_nearestToOrigin`).
-/

namespace RecedingHorizon

open Matrix

variable {k m n : Nat}

/-- A vector whose image is as near to `y` as any other one's. -/
def IsLeastSquares (M : Mat ℝ k m) (y : Vec ℝ k) (u : Vec ℝ m) : Prop :=
  ∀ w, Vec.norm (M.mulVec u - y) ≤ Vec.norm (M.mulVec w - y)

theorem isLeastSquares_zeros (M : Mat ℝ k m) : IsLeastSquares M (Vec.zeros k) (Vec.zeros m) := by
  intro w
  have fixed : M.mulVec (Vec.zeros m) - Vec.zeros k = Vec.zeros k := by
    apply Vec.get_inj.mp
    rw [Vec.get_sub, Mat.get_mulVec, Vec.get_zeros, mulVec_zero, Vec.get_zeros, sub_zero]
  rw [fixed, Vec.norm_le_norm_iff, Vec.dot_self_eq_zero.mpr rfl]
  exact Vec.dot_self_nonneg _

theorem IsLeastSquares.eq_zeros {x : Vec ℝ n}
    (least : IsLeastSquares (Mat.identity n) (Vec.zeros n) x) : x = Vec.zeros n := by
  -- The image of the zero vector is at distance zero.
  have compared := (Vec.norm_le_norm_iff _ _).mp (least (Vec.zeros n))
  simp only [Vec.dot_eq, Vec.get_sub, Mat.get_mulVec, Mat.toMatrix_identity, one_mulVec,
    Vec.get_zeros, sub_zero, dotProduct_zero] at compared
  rw [← Vec.dot_eq] at compared
  exact Vec.eq_zeros_of_dot_self_le compared

namespace InequalityProgram

variable {α : Type}

theorem listed_ofVec (v : Vec α n) : solve.listed (.ofVec v) = ⟨n, v⟩ := by
  rw [solve.listed, Tensor.toList_ofVec]
  obtain ⟨⟨entries⟩, rfl⟩ := v
  rfl

theorem solve_ofMat [Scalar α] (kit : Kernels α) (P : Mat α n n) (q : Vec α n) (G : Mat α m n)
    (g : Vec α m) :
    solve kit ⟨.ofMat P, .ofVec q, .ofMat G, .ofVec g⟩ = (minimizer kit P q G g).map .ofVec := by
  unfold solve
  dsimp only
  rw [listed_ofVec, listed_ofVec]
  dsimp only
  rw [Tensor.matrixOfSize_ofMat, Tensor.matrixOfSize_ofMat]
  rfl

theorem agrees_self (x : ℝ) : agrees x x = true := by
  simp [agrees]

theorem isScaledIdentity_identity (columns : 0 < n) :
    isScaledIdentity (Mat.identity n : Mat ℝ n n) = .ok true := by
  have corner : (Mat.identity n : Mat ℝ n n) ⟨0, columns⟩ ⟨0, columns⟩ = 1 := by
    simp [Mat.identity]
  -- The corner entry is the factor, and the identity scaled by it is the identity.
  have same : Mat.scale 1 (Mat.identity n : Mat ℝ n n) = Mat.identity n := by
    apply Mat.toMatrix_inj.mp
    rw [Mat.toMatrix_scale, one_smul]
  simp only [isScaledIdentity, dif_pos columns, corner, same, List.zipWith_self]
  simp [agrees_self]

/-- A program with rows and without a linear term whose quadratic term passes for a multiple of the
identity is left to the method for the shortest vector. -/
theorem minimizer_of_isScaledIdentity (kit : Kernels ℝ) {P : Mat ℝ n n} (G : Mat ℝ m n) (g : Vec ℝ m)
    (rows : m ≠ 0) (recognised : isScaledIdentity P = .ok true) :
    minimizer kit P (Vec.zeros n) G g = leastDistance kit.nonnegativeLeastSquares G g := by
  have linear : (Vec.zeros n : Vec ℝ n).toList.any (· != 0) = false := by
    simp [Vec.zeros]
  rw [minimizer, if_neg rows, linear, recognised]
  simp [bind, Except.bind]

theorem nearestToOrigin_ofMat (G : Mat ℝ m n) (g : Vec ℝ m) :
    nearestToOrigin (.ofMat G) (.ofVec g) =
      .ok ⟨.ofMat (Mat.identity n), .ofVec (Vec.zeros n), .ofMat G, .ofVec g⟩ :=
  congrArg (fun bounds => Except.ok (InequalityProgram.mk _ _ _ bounds)) (Tensor.flatten_ofVec g)

section Shortest

variable {kit : Kernels ℝ} {G : Mat ℝ m n} {g : Vec ℝ m} (columns : 0 < n)
variable (fitted : ∃ w, kit.leastSquares (Mat.identity n) (Vec.zeros n) = .ok w ∧
  IsLeastSquares (Mat.identity n) (Vec.zeros n) w)
variable (dual : ∃ u,
  kit.nonnegativeLeastSquares (LeastDistance.dual G g) (LeastDistance.direction n) = .ok u ∧
  IsNonnegativeLeastSquares (LeastDistance.dual G g) (LeastDistance.direction n) u)
variable (nonempty : (Polytope.region ⟨G, g⟩).Nonempty)

include columns fitted dual nonempty

theorem minimizer_identity :
    ∃ x, IsNearest (Polytope.region ⟨G, g⟩) (Vec.zeros n) x ∧
      minimizer kit (Mat.identity n) (Vec.zeros n) G g =
        if 1 + Vec.dot x x < 10 ^ 12 then .ok x else .error .emptyConstraintSet := by
  by_cases none : m = 0
  · -- Without rows every point is allowed, and the shortest one is the origin.
    subst none
    obtain ⟨w, answered, least⟩ := fitted
    have zero : Vec.zeros n ∈ Polytope.region ⟨G, g⟩ := fun i => i.elim0
    have negated : Vector.map (- ·) (Vec.zeros n : Vec ℝ n) = Vec.zeros n := by
      simp [Vec.zeros]
    have length : (1 : ℝ) + Vec.dot (Vec.zeros n) (Vec.zeros n) < 10 ^ 12 := by
      rw [Vec.dot_eq, Vec.get_zeros, dotProduct_zero]
      norm_num
    refine ⟨Vec.zeros n, isNearest_self zero, ?_⟩
    simp only [minimizer, if_pos, answered, least.eq_zeros, bind, Except.bind, negated, if_pos length]
    rfl
  · -- The quadratic term is recognised and the linear one is zero.
    obtain ⟨u, answered, minimal⟩ := dual
    obtain ⟨x, nearest, found⟩ := LeastDistance.leastDistance_eq answered minimal nonempty
    refine ⟨x, nearest, ?_⟩
    rw [minimizer_of_isScaledIdentity kit G g none (isScaledIdentity_identity columns), found]

/-- The shortest point of a polytope that has one is what the program answers, unless the point is
so far away that the polytope counts as empty. -/
theorem solve_nearestToOrigin :
    ∃ x, IsNearest (Polytope.region ⟨G, g⟩) (Vec.zeros n) x ∧
      (nearestToOrigin (.ofMat G) (.ofVec g) >>= solve kit) =
        if 1 + Vec.dot x x < 10 ^ 12 then .ok (.ofVec x) else .error .emptyConstraintSet := by
  obtain ⟨x, nearest, found⟩ := minimizer_identity columns fitted dual nonempty
  refine ⟨x, nearest, ?_⟩
  rw [nearestToOrigin_ofMat]
  change solve kit _ = _
  rw [solve_ofMat, found, apply_ite (Except.map Tensor.ofVec)]
  rfl

end Shortest

end InequalityProgram

end RecedingHorizon
