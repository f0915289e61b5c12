import RecedingHorizon.Proofs.Exact.Kernels
import RecedingHorizon.Proofs.Program.Inequality
import RecedingHorizon.Proofs.Program.Shortest

/-!
# When a polytope counts as empty

The program of the shortest point is refused as having no point exactly when all points that it has
are longer than a fixed length of about `10⁶` (`solve_identity_eq_error_iff_distant`). An empty
polytope is always refused, and so is a half-space that lies too far from the origin
(`solve_identity_distantRay`).
-/

namespace RecedingHorizon

open Matrix

variable {m n : Nat}

namespace LeastDistance

variable {G : Mat ℝ m n} {g : Vec ℝ m}
variable {nonnegative : Mat ℝ (n + 1) m → Vec ℝ (n + 1) → Except Fault (Vec ℝ m)}

/-- There is a point or the answer that there is none, and no other fault. -/
theorem exists_eq_ok_or_eq_error (exact : FindsDual nonnegative G g) :
    (∃ x, leastDistance nonnegative G g = .ok x) ∨
      leastDistance nonnegative G g = .error .emptyConstraintSet := by
  obtain ⟨u, answered, -⟩ := exact
  rw [leastDistance_of_ok answered]
  split
  · exact .inr rfl
  · exact .inl ⟨_, rfl⟩

theorem leastDistance_eq_error_iff (exact : FindsDual nonnegative G g) :
    leastDistance nonnegative G g = .error .emptyConstraintSet ↔
      ∀ z ∈ Polytope.region ⟨G, g⟩, 10 ^ 12 ≤ 1 + Vec.dot z z := by
  constructor
  · intro refused z inside
    obtain ⟨u, answered, minimal⟩ := exact
    obtain ⟨x, nearest, found⟩ := leastDistance_eq answered minimal ⟨z, inside⟩
    rw [refused] at found
    split at found
    · cases found
    · next far =>
      -- The shortest point is far away, and every other one further.
      have shorter := (nearest.isShortest (Polytope.isConvex_region _)).dot_self_le inside
      linarith [not_lt.mp far]
  · intro distant
    rcases exists_eq_ok_or_eq_error exact with ⟨x, returned⟩ | refused
    · have far := distant x (isShortest_of_leastDistance exact returned).mem
      exact absurd (near_of_leastDistance exact returned) far.not_gt
    · exact refused

end LeastDistance

namespace InequalityProgram

open LeastDistance

variable {kit : Kernels ℝ} {G : Mat ℝ m n} {g : Vec ℝ m}

theorem solve_of_isScaledIdentity (kit : Kernels ℝ) {P : Mat ℝ n n} (G : Mat ℝ m n) (g : Vec ℝ m)
    (rows : 0 < m) (recognised : isScaledIdentity P = .ok true) :
    solve kit ⟨.ofMat P, .ofVec (Vec.zeros n), .ofMat G, .ofVec g⟩ =
      (leastDistance kit.nonnegativeLeastSquares G g).map .ofVec := by
  rw [solve_ofMat, minimizer_of_isScaledIdentity kit G g rows.ne' recognised]

theorem bind_nearestToOrigin (kit : Kernels ℝ) (G : Mat ℝ m n) (g : Vec ℝ m) (rows : 0 < m)
    (columns : 0 < n) : (nearestToOrigin (.ofMat G) (.ofVec g) >>= solve kit) =
      (leastDistance kit.nonnegativeLeastSquares G g).map .ofVec := by
  rw [nearestToOrigin_ofMat]
  exact solve_of_isScaledIdentity kit G g rows (isScaledIdentity_identity columns)

/-- The program of the shortest point is refused exactly when the polytope has no point below a fixed
length, and is answered with the shortest one otherwise. -/
theorem solve_identity_eq_error_iff_distant (rows : 0 < m) (columns : 0 < n)
    (exact : FindsDual kit.nonnegativeLeastSquares G g) :
    (solve kit ⟨.ofMat (Mat.identity n), .ofVec (Vec.zeros n), .ofMat G, .ofVec g⟩ =
        .error .emptyConstraintSet ↔
      ∀ z ∈ Polytope.region ⟨G, g⟩, 10 ^ 12 ≤ 1 + Vec.dot z z) ∧
    ((∃ z ∈ Polytope.region ⟨G, g⟩, 1 + Vec.dot z z < 10 ^ 12) →
      ∃ x, IsShortest (Polytope.region ⟨G, g⟩) x ∧
        solve kit ⟨.ofMat (Mat.identity n), .ofVec (Vec.zeros n), .ofMat G, .ofVec g⟩ =
          .ok (.ofVec x)) := by
  rw [solve_of_isScaledIdentity kit G g rows (isScaledIdentity_identity columns)]
  constructor
  · rw [← leastDistance_eq_error_iff exact]
    -- The answer is only wrapped, so that a fault stays a fault.
    cases leastDistance kit.nonnegativeLeastSquares G g with
    | error fault => simp [Except.map]
    | ok x => simp [Except.map]
  · rintro ⟨z, inside, near⟩
    rcases exists_eq_ok_or_eq_error exact with ⟨x, returned⟩ | refused
    · refine ⟨x, isShortest_of_leastDistance exact returned, ?_⟩
      rw [returned]
      rfl
    · have far := (leastDistance_eq_error_iff exact).mp refused z inside
      exact absurd near far.not_gt

end InequalityProgram

/-! ### Half-spaces -/

/-- The row of the half-space on the far side of the plane through `v` with the normal `a`. -/
noncomputable def halfSpaceRow (a : Vec ℝ n) : Mat ℝ 1 n := Mat.ofFn fun _ j => -a j

noncomputable def halfSpaceBound (a v : Vec ℝ n) : Vec ℝ 1 := Vec.ofFn fun _ => -Vec.dot a v

theorem mulVec_halfSpaceRow (a z : Vec ℝ n) (i : Fin 1) :
    (halfSpaceRow a).mulVec z i = -Vec.dot a z := by
  rw [Mat.get_mulVec, halfSpaceRow, Mat.toMatrix_ofFn, mulVec, Vec.dot_eq, ← neg_dotProduct]
  rfl

theorem mem_halfSpace {a v z : Vec ℝ n} :
    z ∈ Polytope.region ⟨halfSpaceRow a, halfSpaceBound a v⟩ ↔ Vec.dot a v ≤ Vec.dot a z := by
  have row (i : Fin 1) : (halfSpaceRow a).mulVec z i ≤ halfSpaceBound a v i ↔
      Vec.dot a v ≤ Vec.dot a z := by
    rw [mulVec_halfSpaceRow, halfSpaceBound, Vec.ofFn_get, neg_le_neg_iff]
  constructor
  · intro inside
    exact (row 0).mp (inside 0)
  · intro beyond i
    exact (row i).mpr beyond

/-- A multiple of its normal is the shortest point of a half-space, with the factor as multiplier. -/
theorem LeastDistance.hasMultipliers_halfSpace (a : Vec ℝ n) {s : ℝ} (nonneg : 0 ≤ s) :
    HasMultipliers (halfSpaceRow a) (halfSpaceBound a (a.map (s * ·))) (a.map (s * ·))
      (Vec.ofFn fun _ => s) := by
  constructor
  · exact mem_halfSpace.mpr le_rfl
  · intro i
    rwa [Vec.ofFn_get]
  · have none : halfSpaceBound a (a.map (s * ·)) - (halfSpaceRow a).mulVec (a.map (s * ·)) =
        Vec.zeros 1 := by
      apply Vec.get_inj.mp
      funext i
      rw [Vec.get_sub, Pi.sub_apply, mulVec_halfSpaceRow, halfSpaceBound, Vec.ofFn_get, sub_self,
        Vec.get_zeros, Pi.zero_apply]
    rw [none, Vec.dot_eq, Vec.get_zeros, dotProduct_zero]
  · apply Vec.get_inj.mp
    funext i
    rw [Mat.get_mulVec, Mat.toMatrix_transpose, halfSpaceRow, Mat.toMatrix_ofFn, Vec.get_neg,
      Vec.get_scale, mulVec, dotProduct, Fin.sum_univ_one]
    simp [mul_comm]

/-- Methods that answer every least-squares problem with the same weight for every column. -/
noncomputable def Kernels.weighing (weight : ℝ) : Kernels ℝ :=
  { (unable : Kernels ℝ) with
    nonnegativeLeastSquares := fun _ _ => .ok (Vec.ofFn fun _ => weight) }

theorem LeastDistance.findsDual_halfSpace (a : Vec ℝ n) {s : ℝ} (nonneg : 0 ≤ s) :
    FindsDual (Kernels.weighing
        ((1 + Vec.dot (a.map (s * ·)) (a.map (s * ·)))⁻¹ * s)).nonnegativeLeastSquares
      (halfSpaceRow a) (halfSpaceBound a (a.map (s * ·))) := by
  refine (hasMultipliers_halfSpace a nonneg).findsDual (congrArg Except.ok ?_)
  apply Vec.get_inj.mp
  rw [Vec.get_scale, Vec.get_ofFn, Vec.get_ofFn]
  rfl

theorem Vec.scale_one (a : Vec ℝ n) : a.map ((1 : ℝ) * ·) = a := by
  apply get_inj.mp
  rw [get_scale, one_smul]

/-- The point of the plane on its normal is the shortest one. -/
theorem LeastDistance.hasMultipliers_halfSpace_self (a : Vec ℝ n) :
    HasMultipliers (halfSpaceRow a) (halfSpaceBound a a) a (Vec.ofFn fun _ => 1) := by
  have multipliers := hasMultipliers_halfSpace a zero_le_one
  rwa [Vec.scale_one] at multipliers

theorem LeastDistance.findsDual_halfSpace_self (a : Vec ℝ n) :
    FindsDual (Kernels.weighing (1 + Vec.dot a a)⁻¹).nonnegativeLeastSquares
      (halfSpaceRow a) (halfSpaceBound a a) := by
  have exact := findsDual_halfSpace a zero_le_one
  rwa [Vec.scale_one, mul_one] at exact

/-- If the origin belongs to a polytope, it is the shortest point, and no row counts. -/
theorem LeastDistance.findsDual_of_mem {G : Mat ℝ m n} {g : Vec ℝ m}
    (inside : Vec.zeros n ∈ Polytope.region ⟨G, g⟩) :
    FindsDual (Kernels.weighing 0).nonnegativeLeastSquares G g := by
  have multipliers : HasMultipliers G g (Vec.zeros n) (Vec.zeros m) := by
    refine ⟨inside, fun j => ?_, ?_, ?_⟩
    · rw [Vec.get_zeros]
      exact le_rfl
    · rw [Vec.dot_eq, Vec.get_zeros, zero_dotProduct]
    · apply Vec.get_inj.mp
      rw [Mat.get_mulVec, Vec.get_zeros, mulVec_zero, Vec.get_neg, Vec.get_zeros, neg_zero]
  refine multipliers.findsDual (congrArg Except.ok ?_)
  apply Vec.get_inj.mp
  rw [Vec.get_scale, Vec.get_zeros, smul_zero, Vec.get_ofFn]
  rfl

theorem Vec.scale_single (s : ℝ) : (#v[1] : Vec ℝ 1).map (s * ·) = #v[s] := by
  apply get_inj.mp
  rw [get_scale]
  funext i
  obtain rfl := Subsingleton.elim i 0
  exact mul_one s

theorem Vec.dot_single (s : ℝ) : dot (#v[s] : Vec ℝ 1) #v[s] = s * s := by
  rw [dot_eq, dotProduct, Fin.sum_univ_one]
  rfl

namespace InequalityProgram

open LeastDistance

/-- The numbers from `10⁷` on are refused, although there are some. -/
theorem solve_identity_distantRay :
    (Polytope.region ⟨halfSpaceRow #v[1], halfSpaceBound #v[1] #v[10 ^ 7]⟩).Nonempty ∧
      solve (Kernels.weighing ((1 + 10 ^ 7 * 10 ^ 7)⁻¹ * 10 ^ 7))
          ⟨.ofMat (Mat.identity 1), .ofVec (Vec.zeros 1), .ofMat (halfSpaceRow #v[1]),
            .ofVec (halfSpaceBound #v[1] #v[10 ^ 7])⟩ = .error .emptyConstraintSet := by
  have multipliers := hasMultipliers_halfSpace #v[1] (by norm_num : (0 : ℝ) ≤ 10 ^ 7)
  have exact := findsDual_halfSpace #v[1] (by norm_num : (0 : ℝ) ≤ 10 ^ 7)
  rw [Vec.scale_single] at multipliers exact
  rw [Vec.dot_single] at exact
  refine ⟨⟨_, multipliers.mem⟩, ?_⟩
  refine (solve_identity_eq_error_iff_distant one_pos one_pos exact).1.mpr fun z inside => ?_
  have longer := multipliers.isShortest.dot_self_le inside
  rw [Vec.dot_single] at longer
  linarith

end InequalityProgram

end RecedingHorizon
