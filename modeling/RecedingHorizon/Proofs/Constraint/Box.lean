import RecedingHorizon.Proofs.Constraint.Nearest

/-!
# Projections onto boxes

A box between two vectors of bounds is a convex set, and moving every entry into its interval answers
each point with the nearest one (`Box.projects_region`), as long as the box has a point at all.
-/

namespace RecedingHorizon

open Matrix

variable {n : Nat}

/-! ### Intervals -/

namespace Extended

/-- A number lies between two bounds. -/
def Between (l u : Extended ℝ) (x : ℝ) : Prop := le l (finite x) = true ∧ le (finite x) u = true

variable {l u : Extended ℝ}

theorem maximum_finite (x y : ℝ) : maximum (finite x) (finite y) = finite (max x y) := by
  rw [maximum, lt_finite, max_def_lt]
  simp only [isUndefined, Bool.or_self, Bool.false_eq_true, if_false, decide_eq_true_eq]
  split_ifs <;> rfl

theorem minimum_finite (x y : ℝ) : minimum (finite x) (finite y) = finite (min x y) := by
  rw [minimum, lt_finite, min_def_lt]
  simp only [isUndefined, Bool.or_self, Bool.false_eq_true, if_false, decide_eq_true_eq]
  split_ifs <;> grind

theorem clamp_finite (a b x : ℝ) :
    clamp (finite a) (finite b) (finite x) = finite (min (max x a) b) := by
  rw [clamp, maximum_finite, minimum_finite]

theorem mul_self_sub_le {x c w : ℝ} (between : x ≤ c ∧ c ≤ w ∨ w ≤ c ∧ c ≤ x) :
    (x - c) * (x - c) ≤ (x - w) * (x - w) := by
  rcases between with ⟨left, right⟩ | ⟨left, right⟩ <;> nlinarith

/-- A number moved into an interval is a number of the interval, and no other one is nearer. -/
theorem exists_clamp_eq {z : ℝ} (inside : Between l u z) (x : ℝ) :
    ∃ c, clamp l u (finite x) = finite c ∧ Between l u c ∧
      ∀ w, Between l u w → (x - c) * (x - c) ≤ (x - w) * (x - w) := by
  obtain ⟨above, below⟩ := inside
  -- An open end moves nothing; an end that no number satisfies contradicts `z`.
  cases l with
  | undefined => cases above
  | top => cases above
  | bottom =>
    cases u with
    | undefined => cases below
    | bottom => cases below
    | top => exact ⟨x, rfl, ⟨rfl, rfl⟩, fun w _ => mul_self_sub_le (by grind)⟩
    | finite b =>
      refine ⟨min x b, minimum_finite x b, ⟨rfl, by simp⟩, fun w inside => mul_self_sub_le ?_⟩
      have under : w ≤ b := of_decide_eq_true inside.2
      grind
  | finite a =>
    have raised : maximum (finite x) (finite a) = finite (max x a) := maximum_finite x a
    cases u with
    | undefined => cases below
    | bottom => cases below
    | top =>
      refine ⟨max x a, congrArg (minimum · top) raised, ⟨by simp, rfl⟩,
        fun w inside => mul_self_sub_le ?_⟩
      have beyond : a ≤ w := of_decide_eq_true inside.1
      grind
    | finite b =>
      have ordered : a ≤ b := (of_decide_eq_true above).trans (of_decide_eq_true below)
      refine ⟨min (max x a) b, ?_, ⟨by simp [ordered], by simp⟩,
        fun w inside => mul_self_sub_le ?_⟩
      · rw [clamp, raised, minimum_finite]
      · have beyond : a ≤ w := of_decide_eq_true inside.1
        have under : w ≤ b := of_decide_eq_true inside.2
        grind

/-- A lower and an upper bound that do not cross leave room for a number. -/
theorem exists_between {l u : Extended ℝ} (lower : l = .bottom ∨ ∃ a, l = .finite a)
    (upper : u = .top ∨ ∃ b, u = .finite b) (uncrossed : lt u l = false) : ∃ x, Between l u x := by
  rcases lower with rfl | ⟨a, rfl⟩ <;> rcases upper with rfl | ⟨b, rfl⟩
  · exact ⟨0, rfl, rfl⟩
  · exact ⟨b, rfl, by simp⟩
  · exact ⟨a, by simp, rfl⟩
  · have ordered : a ≤ b := by simpa using uncrossed
    exact ⟨a, by simp, by simpa using ordered⟩

theorem Between.convex {x z : ℝ} (first : Between l u x) (second : Between l u z) {s t : ℝ}
    (nonneg : 0 ≤ s) (nonneg' : 0 ≤ t) (sum : s + t = 1) : Between l u (s * x + t * z) := by
  obtain ⟨above, below⟩ := first
  obtain ⟨above', below'⟩ := second
  constructor
  · cases l with
    | undefined => cases above
    | top => cases above
    | bottom => rfl
    | finite a =>
      have first : a ≤ x := of_decide_eq_true above
      have second : a ≤ z := of_decide_eq_true above'
      rw [le_finite, decide_eq_true_eq]
      calc a = s * a + t * a := by rw [← add_mul, sum, one_mul]
        _ ≤ s * x + t * z := by gcongr
  · cases u with
    | undefined => cases below
    | bottom => cases below
    | top => rfl
    | finite b =>
      have first : x ≤ b := of_decide_eq_true below
      have second : z ≤ b := of_decide_eq_true below'
      rw [le_finite, decide_eq_true_eq]
      calc s * x + t * z ≤ s * b + t * b := by gcongr
        _ = b := by rw [← add_mul, sum, one_mul]

end Extended

/-! ### Boxes of vectors -/

namespace Box

variable {lower upper : Vec (Extended ℝ) n} {size : Int}

/-- The points between two vectors of bounds. -/
def region (lower upper : Vec (Extended ℝ) n) : Set (Vec ℝ n) :=
  {x | ∀ i, Extended.Between (lower i) (upper i) (x i)}

theorem isConvex_region : IsConvex (region lower upper) := by
  rintro _ ⟨x, first, rfl⟩ _ ⟨z, second, rfl⟩ s t nonneg nonneg' sum
  refine ⟨Vec.ofFn (s • x.get + t • z.get), fun i => ?_, Vec.get_ofFn _⟩
  rw [Vec.ofFn_get]
  exact (first i).convex (second i) nonneg nonneg' sum

theorem project_ofVec (x : Vec ℝ n) :
    project ⟨.ofVec lower, .ofVec upper, size⟩ (.ofVec x) =
      .ok (.ofVec (Vec.ofFn fun i =>
        (Extended.clamp (lower i) (upper i) (.finite (x i))).toScalar)) := by
  have raised := Tensor.combine_ofVec (fun x l => (Extended.ofScalar x).maximum l) x lower
  have moved := Tensor.combine_ofVec Extended.minimum
    (Vector.zipWith (fun x l => (Extended.ofScalar x).maximum l) x lower) upper
  simp only [project, raised, moved, Tensor.map_ofVec, bind, Except.bind, pure, Except.pure]
  refine congrArg (fun y => Except.ok (Tensor.ofVec y)) (Vec.ext fun i => ?_)
  rw [Vec.ofFn_get, Vec.get_map, Vec.get_zipWith, Vec.get_zipWith]
  rfl

/-- The projection onto a box that has a point answers every point with the nearest one. -/
theorem projects_region (nonempty : (region lower upper).Nonempty) :
    Projects (forVectors (project ⟨.ofVec lower, .ofVec upper, size⟩)) (region lower upper) := by
  obtain ⟨z, inside⟩ := nonempty
  intro x
  choose p moved member nearest using fun i => Extended.exists_clamp_eq (inside i) (x i)
  refine ⟨Vec.ofFn p, ?_, fun i => by simpa using member i, fun w within => ?_⟩
  · rw [forVectors_eq_ok, project_ofVec]
    simp only [moved]
    rfl
  · rw [Vec.norm_le_norm_iff, Vec.dot_eq, Vec.dot_eq]
    apply Finset.sum_le_sum
    intro i _
    simpa using nearest i (w i) (within i)

end Box

/-- The identity projects onto the whole space. -/
theorem Projection.projects_identity :
    Projects (forVectors (identity (α := ℝ)).apply) (Set.univ : Set (Vec ℝ n)) := by
  refine fun x => ⟨x, forVectors_eq_ok.mpr rfl, Set.mem_univ x, fun w _ => ?_⟩
  have same : Vec.dot (x - x) (x - x) = 0 := by simp [Vec.dot_eq]
  rw [Vec.norm_le_norm_iff, same]
  exact Vec.dot_self_nonneg _

theorem isConvex_univ : IsConvex (Set.univ : Set (Vec ℝ n)) := by
  have whole : Vector.get '' (Set.univ : Set (Vec ℝ n)) = Set.univ :=
    Set.eq_univ_of_forall fun f => ⟨Vec.ofFn f, Set.mem_univ _, Vec.get_ofFn f⟩
  rw [IsConvex, whole]
  exact convex_univ

end RecedingHorizon
