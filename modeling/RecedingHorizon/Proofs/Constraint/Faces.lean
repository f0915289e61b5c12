import RecedingHorizon.Proofs.Constraint.Stages

/-!
# The faces of a box

A box is a polytope with one row for each of its finite bounds, and the two agree on every point. A point
passes the rows up to a tolerance exactly if it lies in the box up to that tolerance
(`forall_rows_iff`, `isSatisfied_ofFaces_iff`). Both violations are the least tolerance with which the point passes
(`exists_violation`, `Polytope.exists_violation`), and that is the largest distance that an entry is moved
when the point is projected onto the box (`abs_sub_clamp_le_iff`). All of this together is
`box_agrees_with_faces`.
-/

namespace RecedingHorizon

variable {n m : Nat}

/-! ### Largest entries -/

theorem foldl_max_le_iff {first t : ℝ} {rest : List ℝ} :
    rest.foldl max first ≤ t ↔ first ≤ t ∧ ∀ y ∈ rest, y ≤ t := by
  induction rest generalizing first with
  | nil => simp
  | cons y rest ih =>
    rw [List.foldl_cons, ih]
    simp [and_assoc]

/-- The largest of several numbers, in whatever way they are written as values that can be compared. -/
theorem Tensor.exists_largest {β : Type} {orLarger : β → β → β} {written : ℝ → β}
    (larger : ∀ a b, orLarger (written a) (written b) = written (max a b)) (positive : 0 < n)
    (v : Vec ℝ n) :
    ∃ w, (Tensor.ofVec (v.map written)).largest orLarger = .ok (written w) ∧
      ∀ t, w ≤ t ↔ ∀ i, v i ≤ t := by
  have entries : (Tensor.ofVec (v.map written)).toList = v.toList.map written := by
    rw [Tensor.toList_ofVec, Vector.toList_map]
  rw [Tensor.largest, entries]
  match listed : v.toList with
  | [] =>
    have none := congrArg List.length listed
    rw [Vector.length_toList, List.length_nil] at none
    omega
  | first :: rest =>
    refine ⟨rest.foldl max first, ?_, fun t => ?_⟩
    · rw [List.map_cons]
      dsimp only
      rw [List.foldl_map, List.foldl_hom written larger]
    · have members : (∀ y ∈ v.toList, y ≤ t) ↔ ∀ i, v i ≤ t := Vec.forall_mem_toList
      rw [foldl_max_le_iff, ← members, listed, List.forall_mem_cons]

/-- The least upper bound of finitely many numbers is the largest of them. -/
theorem isGreatest_of_forall_le_iff (positive : 0 < n) {e : Fin n → ℝ} {v : ℝ}
    (least : ∀ t, v ≤ t ↔ ∀ i, e i ≤ t) : IsGreatest (Set.range e) v := by
  have : Nonempty (Fin n) := ⟨⟨0, positive⟩⟩
  obtain ⟨i, largest⟩ := Finite.exists_max e
  have below : ∀ j, e j ≤ v := (least v).mp le_rfl
  have attained : v = e i := le_antisymm ((least (e i)).mpr largest) (below i)
  refine ⟨⟨i, attained.symm⟩, ?_⟩
  rintro _ ⟨j, rfl⟩
  exact below j

/-! ### Intervals -/

/-- A lower and an upper bound that do not cross; each of them is a number or missing. -/
inductive IsInterval : Extended ℝ → Extended ℝ → Prop
  | whole : IsInterval .bottom .top
  | above (a : ℝ) : IsInterval (.finite a) .top
  | below (b : ℝ) : IsInterval .bottom (.finite b)
  | between {a b : ℝ} : a ≤ b → IsInterval (.finite a) (.finite b)

namespace Extended

variable {l u : Extended ℝ}

theorem isInterval (lower : l = .bottom ∨ ∃ a, l = .finite a) (upper : u = .top ∨ ∃ b, u = .finite b)
    (uncrossed : lt u l = false) : IsInterval l u := by
  rcases lower with rfl | ⟨a, rfl⟩ <;> rcases upper with rfl | ⟨b, rfl⟩
  · exact .whole
  · exact .below b
  · exact .above a
  · exact .between (by simpa using uncrossed)

open Box (Within)

theorem toScalar_orLarger (a b : ℝ) : (orLarger (.finite a) (.finite b)).toScalar = max a b := by
  rw [orLarger, lt_finite, max_def_lt]
  simp only [decide_eq_true_eq]
  split <;> rfl

/-- How far a number lies below a lower bound, and when that is little. -/
theorem exists_shortfall (lower : l = .bottom ∨ ∃ a, l = .finite a) (x : ℝ) :
    ∃ s, (l - .finite x).maximum 0 = .finite s ∧
      ∀ t, s ≤ t ↔ 0 ≤ t ∧ le (l - .finite t) (.finite x) = true := by
  rcases lower with rfl | ⟨a, rfl⟩
  · exact ⟨0, rfl, fun t => (and_iff_left rfl).symm⟩
  · refine ⟨max (a + -x) 0, maximum_finite _ _, fun t => ?_⟩
    have passes : le (.finite a - .finite t) (.finite x) = decide (a + -t ≤ x) := rfl
    rw [passes, decide_eq_true_eq, max_le_iff, and_comm]
    refine and_congr_right fun _ => ⟨fun _ => ?_, fun _ => ?_⟩ <;> linarith

/-- How far a number lies above an upper bound, and when that is little. -/
theorem exists_excess (upper : u = .top ∨ ∃ b, u = .finite b) (x : ℝ) :
    ∃ s, (.finite x - u).maximum 0 = .finite s ∧
      ∀ t, s ≤ t ↔ 0 ≤ t ∧ le (.finite x) (u + .finite t) = true := by
  rcases upper with rfl | ⟨b, rfl⟩
  · exact ⟨0, rfl, fun t => (and_iff_left rfl).symm⟩
  · refine ⟨max (x + -b) 0, maximum_finite _ _, fun t => ?_⟩
    have passes : le (.finite x) (.finite b + .finite t) = decide (x ≤ b + t) := rfl
    rw [passes, decide_eq_true_eq, max_le_iff, and_comm]
    refine and_congr_right fun _ => ⟨fun _ => ?_, fun _ => ?_⟩ <;> linarith

/-- A number is moved into an interval by no more than a tolerance exactly if it lies between the bounds up
to that tolerance. -/
theorem abs_sub_clamp_le_iff (interval : IsInterval l u) {t : ℝ} (nonneg : 0 ≤ t) (x : ℝ) :
    |x - (clamp l u (.finite x)).toScalar| ≤ t ↔ Within t l u x := by
  -- The clamp is a maximum, a minimum or both, and a bound that is missing is always kept.
  cases interval with
  | whole =>
    have stays : (clamp .bottom .top (.finite x)).toScalar = x := rfl
    have within : Within t .bottom .top x := ⟨rfl, rfl⟩
    simp [stays, within, nonneg]
  | above a =>
    have moved : (clamp (.finite a) .top (.finite x)).toScalar = max x a :=
      congrArg (fun y => (minimum y .top).toScalar) (maximum_finite x a)
    have within : Within t (.finite a) .top x ↔ a + -t ≤ x := by
      refine (and_iff_left rfl).trans ?_
      exact decide_eq_true_iff
    rw [moved, within]
    grind
  | below b =>
    have moved : (clamp .bottom (.finite b) (.finite x)).toScalar = min x b :=
      congrArg toScalar (minimum_finite x b)
    have within : Within t .bottom (.finite b) x ↔ x ≤ b + t := by
      refine (and_iff_right rfl).trans ?_
      exact decide_eq_true_iff
    rw [moved, within]
    grind
  | @between a b ordered =>
    have moved : (clamp (.finite a) (.finite b) (.finite x)).toScalar = min (max x a) b :=
      congrArg toScalar (clamp_finite a b x)
    have within : Within t (.finite a) (.finite b) x ↔ a + -t ≤ x ∧ x ≤ b + t :=
      and_congr decide_eq_true_iff decide_eq_true_iff
    rw [moved, within]
    grind

end Extended

/-! ### Violations -/

namespace Polytope

/-- The violation of the rows of a polytope is the least tolerance with which a point passes them. -/
theorem exists_violation (p : Polytope ℝ m n) (x : Vec ℝ n) :
    ∃ v, p.violation (.ofVec x) = .ok v ∧ ∀ t, v ≤ t ↔ 0 ≤ t ∧ p.isSatisfied x t = true := by
  rcases Nat.eq_zero_or_pos m with rfl | positive
  · -- Without rows every point passes, and nothing is exceeded.
    have none : (p.residual x).toList = [] := by
      rw [← List.length_eq_zero_iff, Vector.length_toList]
    refine ⟨0, by rw [violation, if_pos rfl]; rfl, fun t => ?_⟩
    simp [isSatisfied, Vec.allEntries, none]
  · have larger (a b : ℝ) : Scalar.maximum (id a) (id b) = id (max a b) := by
      simp [Scalar.maximum, max_def_lt]
    obtain ⟨v, found, least⟩ :=
      Tensor.exists_largest larger positive ((p.residual x).map (Scalar.maximum · 0))
    rw [Vector.map_id] at found
    refine ⟨v, ?_, fun t => ?_⟩
    · rw [violation, if_neg positive.ne', residualOf_ofVec]
      exact found
    · have entry (i : Fin m) :
          (p.residual x).map (Scalar.maximum · 0) i = max (p.residual x i) 0 := by
        rw [Vec.get_map]
        exact larger _ _
      rw [least, isSatisfied_iff]
      simp only [entry, max_le_iff]
      exact ⟨fun all => ⟨(all ⟨0, positive⟩).2, fun i => (all i).1⟩,
        fun ⟨nonneg, all⟩ i => ⟨all i, nonneg⟩⟩

end Polytope

namespace Box

variable {lower upper : Vec (Extended ℝ) n} {size : Int}

/-- The violation of a box is the least tolerance with which a point lies in it. -/
theorem exists_violation (positive : 0 < n)
    (lowerKind : ∀ i, lower i = .bottom ∨ ∃ a, lower i = .finite a)
    (upperKind : ∀ i, upper i = .top ∨ ∃ b, upper i = .finite b) (size : Int) (x : Vec ℝ n) :
    ∃ v, violation ⟨.ofVec lower, .ofVec upper, size⟩ (.ofVec x) = .ok v ∧
      ∀ t, v ≤ t ↔ 0 ≤ t ∧ ∀ i, Within t (lower i) (upper i) (x i) := by
  choose s short shortLe using fun i => Extended.exists_shortfall (lowerKind i) (x i)
  choose e far farLe using fun i => Extended.exists_excess (upperKind i) (x i)
  have below : Vector.zipWith (fun l x => (l - Extended.ofScalar x).maximum 0) lower x =
      (Vec.ofFn s).map .finite := by
    apply Vec.ext
    intro i
    simp only [Vec.get_zipWith, Vec.get_map, Vec.ofFn_get]
    exact short i
  have above : Vector.zipWith (fun x u => (Extended.ofScalar x - u).maximum 0) x upper =
      (Vec.ofFn e).map .finite := by
    apply Vec.ext
    intro i
    simp only [Vec.get_zipWith, Vec.get_map, Vec.ofFn_get]
    exact far i
  -- The largest entry of each side is at most a tolerance exactly if all its entries are.
  obtain ⟨low, largestLow, lowLe⟩ :=
    Tensor.exists_largest Extended.maximum_finite positive (Vec.ofFn s)
  obtain ⟨high, largestHigh, highLe⟩ :=
    Tensor.exists_largest Extended.maximum_finite positive (Vec.ofFn e)
  refine ⟨max low high, ?_, fun t => ?_⟩
  · simp only [violation, Tensor.combine_ofVec, below, above, largestLow, largestHigh, bind,
      Except.bind, pure, Except.pure, Extended.toScalar_orLarger]
  · simp only [max_le_iff, lowLe, highLe, Vec.ofFn_get, shortLe, farLe]
    constructor
    · rintro ⟨below, above⟩
      exact ⟨(below ⟨0, positive⟩).1, fun i => ⟨(below i).2, (above i).2⟩⟩
    · rintro ⟨nonneg, within⟩
      exact ⟨fun i => ⟨nonneg, (within i).1⟩, fun i => ⟨nonneg, (within i).2⟩⟩

/-! ### Rows -/

/-- The outward normal of a face: `sign` in entry `i`, zero elsewhere. -/
def normal (n : Nat) (sign : ℝ) (i : Nat) : Vec ℝ n := Vec.ofFn fun j => if j.val = i then sign else 0

theorem dot_normal (sign : ℝ) (i : Fin n) (x : Vec ℝ n) :
    Vec.dot (normal n sign i.val) x = sign * x i := by
  rw [Vec.dot_eq, normal, Vec.get_ofFn]
  simp [dotProduct, Fin.val_inj]

/-- The faces on one side of a box, one for each finite bound. -/
def facesOn (n : Nat) (sign : ℝ) (bounds : List (Extended ℝ)) : List (Vec ℝ n × ℝ) :=
  bounds.zipIdx.filterMap fun (bound, i) => bound.finite?.map fun b => (normal n sign i, b)

theorem mem_facesOn {sign b : ℝ} {g : Vec ℝ n} {bounds : List (Extended ℝ)} :
    (g, b) ∈ facesOn n sign bounds ↔ ∃ i, bounds[i]? = some (.finite b) ∧ g = normal n sign i := by
  simp only [facesOn, List.mem_filterMap, Prod.exists, List.mem_zipIdx_iff_getElem?]
  constructor
  · rintro ⟨bound, i, listed, kept⟩
    obtain ⟨c, finite, same⟩ := Option.map_eq_some_iff.mp kept
    cases same
    cases bound with
    | finite a =>
      cases finite
      exact ⟨i, listed, rfl⟩
    | _ => cases finite
  · rintro ⟨i, listed, rfl⟩
    exact ⟨.finite b, i, listed, rfl⟩

theorem getElem?_toList_eq_some {β : Type} {v : Vec β n} {i : Nat} {y : β} :
    v.toList[i]? = some y ↔ ∃ j : Fin n, j.val = i ∧ v j = y := by
  rw [List.getElem?_eq_some_iff]
  constructor
  · rintro ⟨inside, same⟩
    rw [Vector.length_toList] at inside
    exact ⟨⟨i, inside⟩, rfl, same⟩
  · rintro ⟨j, rfl, same⟩
    exact ⟨by rw [Vector.length_toList]; exact j.isLt, same⟩

theorem rows_eq (n : Nat) (lower upper : List (Extended ℝ)) :
    rows n lower upper = facesOn n (-1) (lower.map Extended.neg) ++ facesOn n 1 upper := rfl

/-- The rows on the upper side of a box are passed up to a tolerance exactly if no entry is above its bound
by more. -/
theorem forall_facesOn_upper_iff (kind : ∀ i, upper i = .top ∨ ∃ b, upper i = .finite b) (x : Vec ℝ n)
    (t : ℝ) :
    (∀ face ∈ facesOn n 1 upper.toList, Vec.dot face.1 x - face.2 ≤ t) ↔
      ∀ i, Extended.le (.finite (x i)) (upper i + .finite t) = true := by
  simp only [Prod.forall, mem_facesOn, getElem?_toList_eq_some]
  constructor
  · intro passed i
    rcases kind i with missing | ⟨b, finite⟩
    · rw [missing]
      rfl
    · have row := passed (normal n 1 i.val) b ⟨i.val, ⟨i, rfl, finite⟩, rfl⟩
      rw [dot_normal] at row
      rw [finite]
      refine decide_eq_true ?_
      linarith
  · rintro within g c ⟨_, ⟨i, rfl, listed⟩, rfl⟩
    have row := within i
    rw [listed] at row
    have passes : x i ≤ c + t := of_decide_eq_true row
    rw [dot_normal]
    linarith

/-- The same of the lower side, whose rows are those of the negated bounds. -/
theorem forall_facesOn_lower_iff (kind : ∀ i, lower i = .bottom ∨ ∃ a, lower i = .finite a) (x : Vec ℝ n)
    (t : ℝ) :
    (∀ face ∈ facesOn n (-1) (lower.map Extended.neg).toList, Vec.dot face.1 x - face.2 ≤ t) ↔
      ∀ i, Extended.le (lower i - .finite t) (.finite (x i)) = true := by
  simp only [Prod.forall, mem_facesOn, getElem?_toList_eq_some, Vec.get_map]
  constructor
  · intro passed i
    rcases kind i with missing | ⟨a, finite⟩
    · rw [missing]
      rfl
    · have row := passed (normal n (-1) i.val) (-a) ⟨i.val, ⟨i, rfl, by rw [finite]; rfl⟩, rfl⟩
      rw [dot_normal] at row
      rw [finite]
      refine decide_eq_true ?_
      linarith
  · rintro within g c ⟨_, ⟨i, rfl, listed⟩, rfl⟩
    rcases kind i with missing | ⟨a, finite⟩
    · -- A missing bound has no row.
      rw [missing] at listed
      cases listed
    · have row := within i
      rw [finite] at row listed
      cases listed
      have passes : a + -t ≤ x i := of_decide_eq_true row
      rw [dot_normal]
      linarith

/-- A point passes all rows up to a tolerance exactly if it lies in the box up to that tolerance. -/
theorem forall_rows_iff (lowerKind : ∀ i, lower i = .bottom ∨ ∃ a, lower i = .finite a)
    (upperKind : ∀ i, upper i = .top ∨ ∃ b, upper i = .finite b) (x : Vec ℝ n) (t : ℝ) :
    (∀ face ∈ rows n lower.toList upper.toList, Vec.dot face.1 x - face.2 ≤ t) ↔
      ∀ i, Within t (lower i) (upper i) (x i) := by
  have negated : lower.toList.map Extended.neg = (lower.map Extended.neg).toList :=
    Vector.toList_map.symm
  rw [rows_eq, negated, List.forall_mem_append, forall_facesOn_lower_iff lowerKind,
    forall_facesOn_upper_iff upperKind]
  exact forall_and.symm

/-- The polytope with the given rows. -/
def ofFaces (faces : List (Vec ℝ n × ℝ)) : Polytope ℝ faces.toArray.size n :=
  ⟨⟨faces.toArray.toVector.map Prod.fst⟩, faces.toArray.toVector.map Prod.snd⟩

theorem isSatisfied_ofFaces_iff {faces : List (Vec ℝ n × ℝ)} {x : Vec ℝ n} {t : ℝ} :
    (ofFaces faces).isSatisfied x t = true ↔ ∀ face ∈ faces, Vec.dot face.1 x - face.2 ≤ t := by
  have entry (i : Fin faces.toArray.size) : (ofFaces faces).residual x i =
      Vec.dot (faces.get ⟨i.val, i.isLt⟩).1 x - (faces.get ⟨i.val, i.isLt⟩).2 := by
    rw [Polytope.residual, Vec.get_sub, Pi.sub_apply, Mat.mulVec, Vec.ofFn_get]
    simp only [ofFaces, Mat.row, Vec.get_map]
    rfl
  rw [Polytope.isSatisfied_iff]
  simp only [entry]
  constructor
  · intro passes face member
    obtain ⟨i, inside, rfl⟩ := List.mem_iff_getElem.mp member
    exact passes ⟨i, inside⟩
  · intro passes i
    exact passes _ (List.get_mem faces ⟨i.val, i.isLt⟩)

theorem toPolytope_ofVec (lower upper : Vec (Extended ℝ) n) :
    toPolytope ⟨.ofVec lower, .ofVec upper, n⟩ =
      .ok { polytope := ofFaces (rows n lower.toList upper.toList) } := by
  have whole : ¬((n : Int) < 0) := by omega
  have sized : ¬(n + n ≠ 2 * n) := by omega
  rw [← Tensor.toList_ofVec lower, ← Tensor.toList_ofVec upper]
  unfold toPolytope Tensor.ofVec
  simp only [if_neg whole, if_neg sized, Int.toNat_natCast]
  rfl

/-! ### Accepted boxes -/

theorem uncrossed_of_between {α : Type} [Scalar α] {lower upper : Vec (Extended α) n} {box : Box α}
    (accepted : between (.ofVec lower) (.ofVec upper) size = .ok box) (i : Fin n) :
    Extended.lt (upper i) (lower i) = false := by
  obtain ⟨k, -, accepted⟩ := bind_eq_ok accepted
  obtain ⟨k', -, accepted⟩ := bind_eq_ok accepted
  split at accepted
  · cases accepted
  · rw [Tensor.combine_ofVec] at accepted
    dsimp only [bind, Except.bind] at accepted
    split at accepted
    · cases accepted
    · next none =>
      have apart := (Tensor.anyEntry_ofVec id _).mp (Bool.eq_false_iff.mpr none) i
      rwa [Vec.get_zipWith] at apart

/-- In whatever way the bounds of a box are given, they are compared before it is accepted. -/
theorem between_of_ofArguments {α : Type} [Scalar α] {low high : Argument (Extended α)}
    {size? : Option Int} {box : Box α} (accepted : ofArguments low high size? = .ok box) :
    between box.lower box.upper box.size = .ok box := by
  -- With a given size and without one, the comparison comes last.
  have compared : ∃ l u k, between l u k = .ok box := by
    obtain ⟨l, -, accepted⟩ := bind_eq_ok accepted
    cases size? with
    | some k =>
      obtain ⟨_, -, accepted⟩ := bind_eq_ok accepted
      obtain ⟨u, -, compared⟩ := bind_eq_ok accepted
      exact ⟨l, u, _, compared⟩
    | none =>
      obtain ⟨_, -, accepted⟩ := bind_eq_ok accepted
      obtain ⟨_, -, accepted⟩ := bind_eq_ok accepted
      obtain ⟨u, -, compared⟩ := bind_eq_ok accepted
      exact ⟨l, u, _, compared⟩
  obtain ⟨l, u, k, compared⟩ := compared
  cases between_eq_ok compared
  exact compared

/-- Two vectors of bounds that do not cross, as the only arguments. -/
theorem ofArguments_ofVec (uncrossed : ∀ i, Extended.lt (upper i) (lower i) = false) :
    ofArguments (.array (.ofVec lower)) (.array (.ofVec upper)) none =
      .ok ⟨.ofVec lower, .ofVec upper, n⟩ :=
  between_ofVec lower upper uncrossed n

/-! ### Both together -/

/-- A box, in whatever way its bounds are given, and the polytope of its finite bounds agree on every point:
whether it lies within a tolerance, and how far it lies outside. That is the largest distance that an entry
has to be moved to lie in the box, and it is within a tolerance exactly if the point is. -/
theorem box_agrees_with_faces {low high : Argument (Extended ℝ)} {size? : Option Int}
    {lower upper : Vec (Extended ℝ) n} (positive : 1 ≤ n)
    (accepted : ofArguments low high size? = .ok ⟨.ofVec lower, .ofVec upper, n⟩)
    (lowerKind : ∀ i, lower i = .bottom ∨ ∃ a, lower i = .finite a)
    (upperKind : ∀ i, upper i = .top ∨ ∃ b, upper i = .finite b) :
    let box : Box ℝ := ⟨.ofVec lower, .ofVec upper, n⟩
    ∃ (m : Nat) (faces : Polytope ℝ m n), box.toPolytope = .ok { polytope := faces } ∧
      ∀ x : Vec ℝ n,
        (∀ tolerance, ∃ verdict, faces.isSatisfiedBy (.ofVec x) tolerance = .ok verdict ∧
          box.isSatisfied (.ofVec x) tolerance = .ok verdict) ∧
        ∃ (v : ℝ) (y : Vec ℝ n), faces.violation (.ofVec x) = .ok v ∧
          box.violation (.ofVec x) = .ok v ∧
          ((∀ i, (lower i).isFinite = false ∧ (upper i).isFinite = false) → v = 0) ∧
          box.project (.ofVec x) = .ok (.ofVec y) ∧
          IsGreatest (Set.range fun i => |x i - y i|) v ∧
          ∀ tolerance, 0 ≤ tolerance →
            (v ≤ tolerance ↔ box.isSatisfied (.ofVec x) tolerance = .ok true) := by
  intro box
  have interval (i : Fin n) : IsInterval (lower i) (upper i) :=
    Extended.isInterval (lowerKind i) (upperKind i)
      (uncrossed_of_between (between_of_ofArguments accepted) i)
  refine ⟨_, _, toPolytope_ofVec lower upper, fun x => ⟨fun t => ?_, ?_⟩⟩
  · obtain ⟨verdict, answered, holds⟩ := exists_isSatisfied lower upper n x t
    refine ⟨verdict, ?_, answered⟩
    rw [Polytope.isSatisfiedBy_ofVec, Except.ok.injEq, Bool.eq_iff_iff, holds,
      isSatisfied_ofFaces_iff]
    exact forall_rows_iff lowerKind upperKind x t
  · obtain ⟨w, rowsExceeded, rowsLeast⟩ :=
      (ofFaces (rows n lower.toList upper.toList)).exists_violation x
    obtain ⟨v, exceeded, least⟩ := exists_violation positive lowerKind upperKind n x
    -- Both are the least tolerance for the same condition.
    have same : w = v := by
      refine eq_of_forall_ge_iff fun t => ?_
      rw [rowsLeast, least, isSatisfied_ofFaces_iff, forall_rows_iff lowerKind upperKind]
    have moved (t : ℝ) : v ≤ t ↔ ∀ i, |x i - clamped lower upper x i| ≤ t := by
      rw [least]
      simp only [clamped, Vec.ofFn_get]
      constructor
      · rintro ⟨nonneg, within⟩ i
        exact (Extended.abs_sub_clamp_le_iff (interval i) nonneg (x i)).mpr (within i)
      · intro near
        have nonneg : 0 ≤ t := (abs_nonneg _).trans (near ⟨0, positive⟩)
        exact ⟨nonneg, fun i =>
          (Extended.abs_sub_clamp_le_iff (interval i) nonneg (x i)).mp (near i)⟩
    refine ⟨v, clamped lower upper x, same ▸ rowsExceeded, exceeded, fun free => ?_,
      project_ofVec x, isGreatest_of_forall_le_iff positive moved, fun t nonneg => ?_⟩
    · -- Where no bound is finite, every point lies in the box without any tolerance.
      have within (i : Fin n) : Within 0 (lower i) (upper i) (x i) := by
        obtain ⟨openBelow, openAbove⟩ := free i
        rcases lowerKind i with low | ⟨a, low⟩ <;> rcases upperKind i with high | ⟨b, high⟩ <;>
          simp only [low, high, Extended.isFinite_finite, reduceCtorEq] at openBelow openAbove ⊢
        exact ⟨rfl, rfl⟩
      exact le_antisymm ((least 0).mpr ⟨le_rfl, within⟩) ((least v).mp le_rfl).1
    · rw [least, isSatisfied_eq_true_iff, and_iff_right nonneg]

/-- A box that is open below in one entry and open above in the other one. A point that lies above the one
upper bound by two and below the one lower bound by one violates it by two. -/
theorem box_agrees_with_faces_openBox :
    let lower : Vec (Extended ℝ) 2 := #v[.bottom, .finite (-1)]
    let upper : Vec (Extended ℝ) 2 := #v[.finite 1, .top]
    let box : Box ℝ := ⟨.ofVec lower, .ofVec upper, 2⟩
    1 ≤ 2 ∧ ofArguments (.array (.ofVec lower)) (.array (.ofVec upper)) none = .ok box ∧
      (∀ i, lower i = .bottom ∨ ∃ a, lower i = .finite a) ∧
      (∀ i, upper i = .top ∨ ∃ b, upper i = .finite b) ∧
      ∃ (m : Nat) (faces : Polytope ℝ m 2), box.toPolytope = .ok { polytope := faces } ∧
        faces.violation (.ofVec #v[3, -2]) = .ok 2 ∧ box.violation (.ofVec #v[3, -2]) = .ok 2 := by
  intro lower upper box
  have positive : 1 ≤ 2 := by decide
  have accepted : ofArguments (.array (.ofVec lower)) (.array (.ofVec upper)) none = .ok box :=
    ofArguments_ofVec fun i => by fin_cases i <;> rfl
  have lowerKind (i : Fin 2) : lower i = .bottom ∨ ∃ a, lower i = .finite a := by
    fin_cases i
    · exact .inl rfl
    · exact .inr ⟨-1, rfl⟩
  have upperKind (i : Fin 2) : upper i = .top ∨ ∃ b, upper i = .finite b := by
    fin_cases i
    · exact .inr ⟨1, rfl⟩
    · exact .inl rfl
  obtain ⟨m, faces, built, agrees⟩ := box_agrees_with_faces positive accepted lowerKind upperKind
  obtain ⟨-, v, y, rowsExceeded, exceeded, -, -, ⟨⟨i, attained⟩, -⟩, within⟩ := agrees #v[3, -2]
  have nonneg : 0 ≤ v := attained ▸ abs_nonneg _
  have passes (t : ℝ) : box.isSatisfied (.ofVec #v[3, -2]) t = .ok true ↔ 2 ≤ t := by
    rw [isSatisfied_eq_true_iff, Fin.forall_fin_two]
    constructor
    · rintro ⟨⟨-, first⟩, -⟩
      have enough : (3 : ℝ) ≤ 1 + t := of_decide_eq_true first
      linarith
    · intro enough
      refine ⟨⟨rfl, decide_eq_true (show (3 : ℝ) ≤ 1 + t by linarith)⟩,
        decide_eq_true (show -1 + -t ≤ (-2 : ℝ) by linarith), rfl⟩
  have two : v = 2 := le_antisymm ((within 2 zero_le_two).mpr ((passes 2).mpr le_rfl))
    ((passes v).mp ((within v nonneg).mp le_rfl))
  rw [two] at rowsExceeded exceeded
  exact ⟨positive, accepted, lowerKind, upperKind, m, faces, built, rowsExceeded, exceeded⟩

end Box

end RecedingHorizon
