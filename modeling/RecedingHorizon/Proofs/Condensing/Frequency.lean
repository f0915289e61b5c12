import RecedingHorizon.Proofs.Condensing.Symbol

/-!
# Quadratic forms by frequencies

A stack has a transform, which adds up its parts with powers of `z`. If the blocks of a matrix are the
averages of a matrix function on the circle with these powers, its quadratic form is the average of the
form of that function at the transform (`average_form_transform`). So the function takes values on both
sides of every quotient of the form, and it does so on whole arcs of the circle
(`exists_eventually_form`).
-/

namespace RecedingHorizon

open Matrix Metric Real Topology ComplexOrder

variable {N m : Nat}

namespace Vec

/-- A vector as a complex one. -/
noncomputable def overComplex (x : Vec ℝ m) : Fin m → ℂ := fun a => (x a : ℝ)

theorem star_overComplex (x : Vec ℝ m) : star x.overComplex = x.overComplex :=
  funext fun a => Complex.conj_ofReal (x a)

theorem form_overComplex (M : Mat ℝ m m) (x y : Vec ℝ m) :
    x.overComplex ⬝ᵥ M.overComplex *ᵥ y.overComplex =
      ((x.get ⬝ᵥ M.toMatrix *ᵥ y.get : ℝ) : ℂ) := by
  have product : M.overComplex *ᵥ y.overComplex = Complex.ofRealHom ∘ (M.toMatrix *ᵥ y.get) :=
    funext fun a => (RingHom.map_mulVec Complex.ofRealHom M.toMatrix y.get a).symm
  rw [product]
  exact (RingHom.map_dotProduct Complex.ofRealHom x.get _).symm

/-- The transform of a stack at a point: the sum of its parts, each with a power of the point. -/
noncomputable def transform (y : Vec ℝ (N * m)) (z : ℂ) : Fin m → ℂ :=
  ∑ s : Fin N, z ^ (-(s.val : ℤ)) • (y.part s).overComplex

/-- A quadratic form is the sum of the bilinear forms of its blocks. -/
theorem form_eq_sum (T : Mat ℝ (N * m) (N * m)) (y : Vec ℝ (N * m)) :
    y.get ⬝ᵥ T.toMatrix *ᵥ y.get =
      ∑ s, ∑ t, (y.part s).get ⬝ᵥ (T.block s t).toMatrix *ᵥ (y.part t).get := by
  have blocks : T = Mat.ofBlocks T.block := by simp
  rw [← Mat.get_mulVec, dotProduct_get]
  refine Finset.sum_congr rfl fun s _ => ?_
  conv_lhs => rw [blocks, Mat.get_part_mulVec_ofBlocks]
  rw [dotProduct_sum]

theorem form_transform {z : ℂ} (onCircle : z ∈ sphere (0 : ℂ) 1) (Φ : Matrix (Fin m) (Fin m) ℂ)
    (y : Vec ℝ (N * m)) : star (y.transform z) ⬝ᵥ Φ *ᵥ y.transform z =
      ∑ q : Fin N × Fin N, (y.part q.1).overComplex ⬝ᵥ
        (z ^ ((q.1.val : ℤ) - q.2.val) • Φ) *ᵥ (y.part q.2).overComplex := by
  have mirrored : star (y.transform z) = ∑ s : Fin N, z ^ (s.val : ℤ) • (y.part s).overComplex := by
    simp only [transform, star_sum, star_smul, star_overComplex, Circle.star_zpow onCircle, neg_neg]
  have powers (s t : Fin N) :
      z ^ ((s.val : ℤ) - t.val) = z ^ (s.val : ℤ) * z ^ (-(t.val : ℤ)) := by
    rw [← zpow_add₀ (Circle.ne_zero_of_mem onCircle), sub_eq_add_neg]
  rw [mirrored, transform, Fintype.sum_prod_type, sum_dotProduct]
  refine Finset.sum_congr rfl fun s _ => ?_
  rw [mulVec_sum, dotProduct_sum]
  refine Finset.sum_congr rfl fun t _ => ?_
  simp only [smul_dotProduct, mulVec_smul, dotProduct_smul, smul_mulVec, powers, smul_eq_mul]
  ring

theorem continuousOn_transform (y : Vec ℝ (N * m)) : ContinuousOn y.transform (sphere 0 1) :=
  continuousOn_finsetSum _ fun s _ =>
    (Circle.continuousOn_zpow (-(s.val : ℤ))).smul continuousOn_const

section

variable {T : Mat ℝ (N * m) (N * m)} {Φ : ℂ → Matrix (Fin m) (Fin m) ℂ}
  (continuous : ∀ a b, ContinuousOn (fun z => Φ z a b) (sphere 0 1))

include continuous

theorem continuousOn_form_transform (y : Vec ℝ (N * m)) :
    ContinuousOn (fun z => star (y.transform z) ⬝ᵥ Φ z *ᵥ y.transform z) (sphere 0 1) :=
  Circle.continuousOn_form continuous y.continuousOn_transform.star y.continuousOn_transform

/-- If the blocks of a matrix are the averages of a function with the powers of `z`, its quadratic form
is the average of the form of the function. -/
theorem average_form_transform
    (blocks : ∀ (s t : Fin N) (a b : Fin m),
      circleAverage (fun z => z ^ ((s.val : ℤ) - t.val) * Φ z a b) 0 1 =
        (T.block s t).overComplex a b)
    (y : Vec ℝ (N * m)) :
    circleAverage (fun z => star (y.transform z) ⬝ᵥ Φ z *ᵥ y.transform z) 0 1 =
      ((y.get ⬝ᵥ T.toMatrix *ᵥ y.get : ℝ) : ℂ) := by
  have shifted (s t : Fin N) (a b : Fin m) :
      ContinuousOn (fun z => (z ^ ((s.val : ℤ) - t.val) • Φ z) a b) (sphere 0 1) :=
    (Circle.continuousOn_zpow _).mul (continuous a b)
  have sums : Set.EqOn (fun z => star (y.transform z) ⬝ᵥ Φ z *ᵥ y.transform z)
      (fun z => ∑ q : Fin N × Fin N, (y.part q.1).overComplex ⬝ᵥ
        (z ^ ((q.1.val : ℤ) - q.2.val) • Φ z) *ᵥ (y.part q.2).overComplex)
      (sphere 0 |(1 : ℝ)|) := by
    intro z onCircle
    rw [abs_one] at onCircle
    exact form_transform onCircle (Φ z) y
  -- The average is taken term by term, and each term is the form of one block.
  rw [circleAverage_congr_sphere sums, circleAverage_fun_sum fun q _ =>
    (Circle.continuousOn_form (shifted q.1 q.2) continuousOn_const
      continuousOn_const).circleIntegrable zero_le_one, form_eq_sum, Fintype.sum_prod_type]
  push_cast
  refine Finset.sum_congr rfl fun s _ => Finset.sum_congr rfl fun t _ => ?_
  rw [Circle.average_form (shifted s t) (blocks s t), form_overComplex]

end

/-- The square of the length of a stack is the average of that of its transform. -/
theorem average_length (y : Vec ℝ (N * m)) :
    circleAverage (fun z => star (y.transform z) ⬝ᵥ y.transform z) 0 1 =
      ((y.get ⬝ᵥ y.get : ℝ) : ℂ) := by
  -- The length is the form of the identity, whose blocks are the averages of the powers.
  have blocks (s t : Fin N) (a b : Fin m) :
      circleAverage (fun z : ℂ => z ^ ((s.val : ℤ) - t.val) *
        (1 : Matrix (Fin m) (Fin m) ℂ) a b) 0 1 =
          ((ConstrainedLqr.repeated N (Mat.identity m : Mat ℝ m m)).block s t).overComplex a b := by
    simp only [mul_comm _ ((1 : Matrix (Fin m) (Fin m) ℂ) a b)]
    rw [Circle.average_const_mul, Circle.average_zpow, Mat.block_repeated]
    rcases eq_or_ne s t with same | other
    · rw [if_pos (by omega), if_pos same, Mat.overComplex_identity, mul_one]
    · rw [if_neg (by omega), if_neg other, Mat.overComplex_zero, mul_zero]
      rfl
  have form := average_form_transform (Φ := fun _ => 1) (fun a b => continuousOn_const) blocks y
  simp only [one_mulVec] at form
  rw [form, Mat.dotProduct_repeated, dotProduct_get]
  simp

theorem continuousOn_length (y : Vec ℝ (N * m)) :
    ContinuousOn (fun z => star (y.transform z) ⬝ᵥ y.transform z) (sphere 0 1) := by
  simpa using continuousOn_form_transform (y := y) (Φ := fun _ => 1) fun _ _ => continuousOn_const

theorem average_length_re (y : Vec ℝ (N * m)) :
    circleAverage (fun z => (star (y.transform z) ⬝ᵥ y.transform z).re) 0 1 = y.get ⬝ᵥ y.get := by
  rw [Circle.average_re y.continuousOn_length, average_length, Complex.ofReal_re]

theorem eq_zero_of_length_eq_zero {v : Fin m → ℂ} (short : (star v ⬝ᵥ v).re = 0) : v = 0 := by
  have nonneg := dotProduct_star_self_nonneg v
  exact dotProduct_star_self_eq_zero.mp
    (Complex.ext short (Complex.nonneg_iff.mp nonneg).2.symm)

section

variable {T : Mat ℝ (N * m) (N * m)} {Φ : ℂ → Matrix (Fin m) (Fin m) ℂ}
  (continuous : ∀ a b, ContinuousOn (fun z => Φ z a b) (sphere 0 1))
  (blocks : ∀ (s t : Fin N) (a b : Fin m),
    circleAverage (fun z => z ^ ((s.val : ℤ) - t.val) * Φ z a b) 0 1 =
      (T.block s t).overComplex a b)

include continuous blocks

/-- A multiple of what the function exceeds a quotient of the form by is zero on average. -/
theorem average_excess {y : Vec ℝ (N * m)} {r : ℝ}
    (quotient : y.get ⬝ᵥ T.toMatrix *ᵥ y.get = r * (y.get ⬝ᵥ y.get)) (sign : ℝ) :
    circleAverage (fun z =>
      sign * ((star (y.transform z) ⬝ᵥ Φ z *ᵥ y.transform z).re -
        r * (star (y.transform z) ⬝ᵥ y.transform z).re)) 0 1 = 0 := by
  have form := continuousOn_form_transform continuous y
  have length := y.continuousOn_length
  have average : circleAverage (fun z => (star (y.transform z) ⬝ᵥ Φ z *ᵥ y.transform z).re) 0 1 =
      r * (y.get ⬝ᵥ y.get) := by
    rw [Circle.average_re form, average_form_transform continuous blocks, Complex.ofReal_re, quotient]
  have scaled : circleAverage (fun z => r * (star (y.transform z) ⬝ᵥ y.transform z).re) 0 1 =
      r * (y.get ⬝ᵥ y.get) := by
    rw [← average_length_re]
    exact circleAverage_fun_smul (a := r)
  have difference := circleAverage_fun_sub
    ((Complex.continuous_re.comp_continuousOn form).circleIntegrable zero_le_one)
    ((continuousOn_const (c := r)).mul (Complex.continuous_re.comp_continuousOn length)
      |>.circleIntegrable zero_le_one)
  have zero : circleAverage (fun z => (star (y.transform z) ⬝ᵥ Φ z *ᵥ y.transform z).re -
      r * (star (y.transform z) ⬝ᵥ y.transform z).re) 0 1 = 0 :=
    difference.trans (sub_eq_zero.mpr (average.trans scaled.symm))
  refine (circleAverage_fun_smul (a := sign)).trans ?_
  rw [zero, smul_zero]

/-- With the sign one, there is an arc on which the function is at least what the form is in relation
to the square of the length; with the sign minus one, an arc on which it is at most that. -/
theorem exists_eventually_form {y : Vec ℝ (N * m)} (nonzero : y.get ≠ 0) {r : ℝ}
    (quotient : y.get ⬝ᵥ T.toMatrix *ᵥ y.get = r * (y.get ⬝ᵥ y.get)) (sign : ℝ) :
    ∃ z₀ ∈ sphere (0 : ℂ) 1, ∀ᶠ z in 𝓝[sphere 0 1] z₀, y.transform z ≠ 0 ∧
      0 ≤ sign * ((star (y.transform z) ⬝ᵥ Φ z *ᵥ y.transform z).re -
        r * (star (y.transform z) ⬝ᵥ y.transform z).re) := by
  have formRe := Complex.continuous_re.comp_continuousOn (continuousOn_form_transform continuous y)
  have lengthRe := Complex.continuous_re.comp_continuousOn y.continuousOn_length
  -- A function that is zero on average is nonnegative on an arc, and only stays zero where the length is.
  obtain ⟨z₀, onCircle, near⟩ := Circle.exists_eventually_nonneg
    (continuousOn_const.mul (formRe.sub (continuousOn_const.mul lengthRe))) lengthRe
    (average_excess continuous blocks quotient sign)
    (by
      change circleAverage (fun z => (star (y.transform z) ⬝ᵥ y.transform z).re) 0 1 ≠ 0
      rw [average_length_re]
      exact dotProduct_self_eq_zero.not.mpr nonzero)
    (fun z short => by
      have zero := eq_zero_of_length_eq_zero short
      simp [zero])
  refine ⟨z₀, onCircle, near.mono fun z away => ⟨fun zero => away.1 ?_, away.2⟩⟩
  simp [zero]

end

end Vec

end RecedingHorizon
