import Mathlib.Analysis.Convex.Basic
import RecedingHorizon.Constraint.Projection
import RecedingHorizon.Proofs.Exact.Vector

/-!
# Nearest points of a set

A projection answers every point with a point of the set to which no other one is nearer. In a
convex set this is the point from which the whole set lies on the far side
(`IsNearest.dot_le_zero`).
-/

namespace RecedingHorizon

open Matrix

variable {n : Nat}

section

variable {α : Type}

/-- A projection of arrays, for vectors. -/
def forVectors (project : Tensor α → Except Fault (Tensor α)) (x : Vec α n) :
    Except Fault (Vec α n) := do
  match (← project (.ofVec x)).toVec? n with
  | some y => return y
  | none => throw .incompatibleShapes

theorem forVectors_eq_ok {project : Tensor α → Except Fault (Tensor α)} {x p : Vec α n} :
    forVectors project x = .ok p ↔ project (.ofVec x) = .ok (.ofVec p) := by
  simp only [forVectors, bind, Except.bind]
  cases project (.ofVec x) with
  | error f => simp
  | ok t =>
    constructor
    · intro read
      match shaped : t.toVec? n with
      | none => simp [shaped, throw, throwThe, MonadExceptOf.throw] at read
      | some y =>
        simp only [shaped, pure, Except.pure, Except.ok.injEq] at read
        rw [Tensor.eq_ofVec_of_toVec? shaped, read]
    · intro same
      cases same
      simp [pure, Except.pure]

theorem Projection.applyVec_eq [Scalar α] (p : Projection α) :
    (p.applyVec : Vec α n → Except Fault (Vec α n)) = forVectors p.apply := by
  funext x
  unfold Projection.applyVec forVectors
  apply bind_congr
  intro t
  cases t.toVec? n <;> rfl

end

variable {X : Set (Vec ℝ n)}

/-- A point of a set to which no other point of the set is nearer. -/
structure IsNearest (X : Set (Vec ℝ n)) (t p : Vec ℝ n) : Prop where
  mem : p ∈ X
  norm_le : ∀ z ∈ X, Vec.norm (t - p) ≤ Vec.norm (t - z)

/-- A point of the set is nearest to itself. -/
theorem isNearest_self {p : Vec ℝ n} (inside : p ∈ X) : IsNearest X p p := by
  refine ⟨inside, fun z _ => (Vec.norm_le_norm_iff _ _).mpr ?_⟩
  rw [Vec.dot_eq, Vec.get_sub, sub_self, zero_dotProduct]
  exact Vec.dot_self_nonneg _

/-- A set that is convex when its vectors are read as functions. -/
def IsConvex (X : Set (Vec ℝ n)) : Prop := Convex ℝ (Vector.get '' X)

theorem IsConvex.exists_between (convex : IsConvex X) {x z : Vec ℝ n}
    (first : x ∈ X) (second : z ∈ X) {s : ℝ} (nonneg : 0 ≤ s) (atMost : s ≤ 1) :
    ∃ y ∈ X, y.get = x.get + s • (z.get - x.get) := by
  have member := convex (Set.mem_image_of_mem _ first) (Set.mem_image_of_mem _ second)
    (sub_nonneg.mpr atMost) nonneg (sub_add_cancel 1 s)
  obtain ⟨y, inside, read⟩ := member
  refine ⟨y, inside, read.trans ?_⟩
  rw [sub_smul, one_smul, smul_sub]
  abel

/-- A linear term that a quadratic one bounds on every part of a segment is not positive. -/
theorem nonpos_of_forall_le_mul {c d : ℝ} (nonneg : 0 ≤ d)
    (bounded : ∀ s, 0 ≤ s → s ≤ 1 → 2 * (s * c) ≤ s * s * d) : c ≤ 0 := by
  by_contra positive
  rw [not_le] at positive
  have sum : 0 < c + d := by linarith
  -- The part of the way at which the linear term outweighs the quadratic one.
  have part := bounded (c / (c + d)) (by positivity) ((div_le_one sum).mpr (by linarith))
  have cleared : c / (c + d) * (c + d) = c := div_mul_cancel₀ c sum.ne'
  have small : 0 < c / (c + d) := by positivity
  nlinarith

/-- Seen from the nearest point, the set lies on the far side of the point that was projected. -/
theorem IsNearest.dot_le_zero (convex : IsConvex X) {t p z : Vec ℝ n}
    (nearest : IsNearest X t p) (inside : z ∈ X) : Vec.dot (t - p) (z - p) ≤ 0 := by
  apply nonpos_of_forall_le_mul (Vec.dot_self_nonneg (z - p))
  -- No point on the segment from `p` to `z` is nearer to `t` than `p` is.
  intro s nonneg atMost
  obtain ⟨y, member, read⟩ := convex.exists_between nearest.mem inside nonneg atMost
  have nearer := (Vec.norm_le_norm_iff _ _).mp (nearest.norm_le y member)
  have moved : t.get - y.get = (t.get - p.get) - s • (z.get - p.get) := by
    rw [read]
    abel
  simp only [Vec.dot_eq, Vec.get_sub, moved] at nearer ⊢
  generalize t.get - p.get = a at nearer ⊢
  generalize z.get - p.get = d at nearer ⊢
  have expanded : (a - s • d) ⬝ᵥ (a - s • d) =
      a ⬝ᵥ a - 2 * (s * (a ⬝ᵥ d)) + s * s * (d ⬝ᵥ d) := by
    simp only [dotProduct_sub, sub_dotProduct, smul_dotProduct, dotProduct_smul, smul_eq_mul,
      dotProduct_comm d a]
    ring
  linarith

/-- A convex set has one nearest point at most. -/
theorem IsNearest.eq_of_isConvex (convex : IsConvex X) {t p q : Vec ℝ n}
    (nearest : IsNearest X t p) (nearest' : IsNearest X t q) : q = p := by
  -- Each of the two points lies on the far side of the other one.
  have towards := nearest.dot_le_zero convex nearest'.mem
  have back := nearest'.dot_le_zero convex nearest.mem
  have apart : Vec.dot (q - p) (q - p) ≤ 0 := by
    simp only [Vec.dot_sub_left, Vec.dot_sub_right] at towards back ⊢
    linarith
  have none := congrArg Vector.get (Vec.eq_zeros_of_dot_self_le apart)
  rw [Vec.get_sub, Vec.get_zeros, sub_eq_zero] at none
  exact Vec.get_inj.mp none

/-- Every other point of a convex set is farther away than the nearest one. -/
theorem IsNearest.norm_lt (convex : IsConvex X) {t p z : Vec ℝ n} (nearest : IsNearest X t p)
    (inside : z ∈ X) (other : z ≠ p) : Vec.norm (t - p) < Vec.norm (t - z) := by
  by_contra near
  have nearest' : IsNearest X t z :=
    ⟨inside, fun w member => (not_lt.mp near).trans (nearest.norm_le w member)⟩
  exact other (nearest.eq_of_isConvex convex nearest')

/-- The points of a convex set that are nearest to two points are not farther apart than these. -/
theorem IsNearest.norm_sub_le (convex : IsConvex X) {s t p q : Vec ℝ n}
    (nearest : IsNearest X s p) (nearest' : IsNearest X t q) :
    Vec.norm (p - q) ≤ Vec.norm (s - t) := by
  rw [Vec.norm_le_norm_iff]
  -- Each of the two points lies on the far side of the other one; what is left is a square.
  have towards := nearest.dot_le_zero convex nearest'.mem
  have back := nearest'.dot_le_zero convex nearest.mem
  have square := Vec.dot_self_nonneg (s - t - (p - q))
  simp only [Vec.dot_sub_left, Vec.dot_sub_right] at towards back square ⊢
  simp only [Vec.dot_comm t s, Vec.dot_comm p s, Vec.dot_comm q s, Vec.dot_comm p t,
    Vec.dot_comm q t, Vec.dot_comm q p] at towards back square ⊢
  linarith

/-- A map that takes every point to the nearest one of a set. -/
structure IsProjection (X : Set (Vec ℝ n)) (p : Vec ℝ n → Vec ℝ n) : Prop where
  mem : ∀ t, p t ∈ X
  fixed : ∀ t, p (p t) = p t
  dot_le_zero : ∀ t, ∀ z ∈ X, Vec.dot (t - p t) (z - p t) ≤ 0
  norm_lt : ∀ t, ∀ z ∈ X, z ≠ p t → Vec.norm (t - p t) < Vec.norm (t - z)
  norm_sub_le : ∀ s t, Vec.norm (p s - p t) ≤ Vec.norm (s - t)

theorem IsConvex.isProjection (convex : IsConvex X) {p : Vec ℝ n → Vec ℝ n}
    (nearest : ∀ t, IsNearest X t (p t)) : IsProjection X p where
  mem t := (nearest t).mem
  fixed t := (isNearest_self (nearest t).mem).eq_of_isConvex convex (nearest (p t))
  dot_le_zero t _ inside := (nearest t).dot_le_zero convex inside
  norm_lt t _ inside other := (nearest t).norm_lt convex inside other
  norm_sub_le s t := (nearest s).norm_sub_le convex (nearest t)

/-- A projection: it answers every point with a nearest one of the set. -/
def Projects (project : Vec ℝ n → Except Fault (Vec ℝ n)) (X : Set (Vec ℝ n)) : Prop :=
  ∀ t, ∃ p, project t = .ok p ∧ IsNearest X t p

theorem Projects.isNearest {project : Vec ℝ n → Except Fault (Vec ℝ n)}
    (projects : Projects project X) {t p : Vec ℝ n} (answered : project t = .ok p) :
    IsNearest X t p := by
  obtain ⟨q, same, nearest⟩ := projects t
  rw [answered] at same
  cases same
  exact nearest

end RecedingHorizon
