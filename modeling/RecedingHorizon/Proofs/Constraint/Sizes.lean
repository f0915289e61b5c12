import RecedingHorizon.Proofs.Constraint.Faces
import RecedingHorizon.Proofs.Tensor.Shapes

/-!
# Sizes of boxes

The bounds of an accepted box are two vectors of one length, in order entry by entry. Its size is this length
if no size was declared or one of the bounds was a number, and then everything can be asked of the box
(`Box.IsWellSized`). Next to two vectors of bounds a declared size is kept as it is, and not compared with
anything: the box then serves points as its bounds do, and only its polytope asks for the size
(`Box.sizes_of_accepted`).
-/

namespace RecedingHorizon

/-! ### Entries of two vectors -/

theorem commonLength?_comm (m n : Nat) : commonLength? m n = commonLength? n m := by
  simp only [commonLength?]
  grind

theorem commonLength?_absorb {m n k : Nat} (common : commonLength? m n = some k) :
    commonLength? k n = some k := by
  simp only [commonLength?] at common ⊢
  grind

theorem commonLength?_of_pos {m n : Nat} (positive : 1 ≤ m) (positive' : 1 ≤ n) :
    commonLength? m n = if m = n ∨ m = 1 ∨ n = 1 then some (max m n) else none := by
  simp only [commonLength?]
  grind

namespace Tensor

variable {α β γ : Type} {m n k : Nat}

/-- Vectors are combined if their lengths have a common one, and the result has this length. -/
theorem exists_combine_ofVec (f : α → β → γ) (common : commonLength? m n = some k) (x : Vec α m)
    (y : Vec β n) : ∃ z : Vec γ k, combine f (ofVec x) (ofVec y) = .ok (ofVec z) := by
  have shapes : commonShape? (ofVec x).shape (ofVec y).shape = some [k] := by
    have single := commonShape?_single m [] n
    rwa [common] at single
  obtain ⟨t, combined, shape⟩ := exists_combine f shapes
  obtain ⟨z, rfl⟩ := eq_ofVec_of_shape shape
  exact ⟨z, combined⟩

theorem combine_ofVec_eq_error (f : α → β → γ) (none : commonLength? m n = none) (x : Vec α m)
    (y : Vec β n) : combine f (ofVec x) (ofVec y) = .error .incompatibleShapes := by
  have single := commonShape?_single m [] n
  rw [none] at single
  exact combine_eq_error f single

theorem exists_largest_ofVec (orLarger : α → α → α) (positive : 1 ≤ n) (v : Vec α n) :
    ∃ w, (ofVec v).largest orLarger = .ok w := by
  have filled : 0 < v.toList.length := by rwa [Vector.length_toList]
  obtain ⟨first, rest, listed⟩ := List.exists_cons_of_length_pos filled
  exact ⟨_, by rw [largest, toList_ofVec, listed]⟩

end Tensor

/-! ### Bounds -/

section

variable {α : Type} [Scalar α] {n : Nat}

/-- A number or an infinity. -/
inductive Extended.IsDefined : Extended α → Prop
  | bottom : IsDefined .bottom
  | finite {a : α} : Scalar.isUndefined a = false → IsDefined (.finite a)
  | top : IsDefined .top

/-- One of two defined bounds is at most the other one, if this holds for numbers. -/
theorem Extended.le_of_lt_eq_false
    (comparable : ∀ a b : α, Scalar.isUndefined a = false → Scalar.isUndefined b = false →
      ¬b < a → a ≤ b)
    {l u : Extended α} (defined : l.IsDefined) (defined' : u.IsDefined)
    (uncrossed : lt u l = false) : le l u = true := by
  cases defined with
  | bottom => cases defined' <;> rfl
  | top =>
    cases defined' with
    | top => rfl
    | _ => cases uncrossed
  | finite number =>
    cases defined' with
    | bottom => cases uncrossed
    | top => rfl
    | finite number' =>
      rw [lt_finite, decide_eq_false_iff_not] at uncrossed
      rw [le_finite, decide_eq_true_eq]
      exact comparable _ _ number number' uncrossed

namespace Argument

/-- What bounds are given as: a number for every entry, or a vector. -/
inductive IsBound : Argument (Extended α) → Prop
  | number {bound : Argument (Extended α)} {x : Extended α} :
      bound.isSingle = true → bound.toBounds = .ok (.scalar x) → x.IsDefined → IsBound bound
  | vector {n : Nat} {v : Vec (Extended α) n} : (∀ i, (v i).IsDefined) → IsBound (.array (.ofVec v))

/-- The bounds of all entries: a number once for every entry, and a vector as it stands. -/
inductive StandsFor : Argument (Extended α) → Vec (Extended α) n → Prop
  | number {bound : Argument (Extended α)} {x : Extended α} :
      bound.isSingle = true → bound.toBounds = .ok (.scalar x) →
        StandsFor bound (Vector.replicate n x)
  | vector (v : Vec (Extended α) n) : StandsFor (.array (.ofVec v)) v

end Argument

end

namespace Box

variable {α : Type} [Scalar α] {m n k : Nat} {size : Int}

/-! ### Points -/

/-- Whatever is asked of a box about a point is answered, and the projection has `k` entries. -/
structure Answers (box : Box α) (x : Tensor α) (k : Nat) : Prop where
  project : ∃ y : Vec α k, box.project x = .ok (.ofVec y)
  isSatisfied : ∀ tolerance, ∃ verdict, box.isSatisfied x tolerance = .ok verdict
  violation : ∃ v, box.violation x = .ok v

/-- Nothing can be asked of a box about a point, because their lengths do not fit. -/
structure Refuses (box : Box α) (x : Tensor α) : Prop where
  project : box.project x = .error .incompatibleShapes
  isSatisfied : ∀ tolerance, box.isSatisfied x tolerance = .error .incompatibleShapes
  violation : box.violation x = .error .incompatibleShapes

theorem answers_of_common (positive : 1 ≤ k) (common : commonLength? m n = some k)
    (lower upper : Vec (Extended α) n) (size : Int) (x : Vec α m) :
    Answers ⟨.ofVec lower, .ofVec upper, size⟩ (.ofVec x) k where
  project := by
    obtain ⟨raised, first⟩ :=
      Tensor.exists_combine_ofVec (fun x l => (Extended.ofScalar x).maximum l) common x lower
    -- The result of the first combination has the common length, which the other side fits as well.
    obtain ⟨moved, second⟩ :=
      Tensor.exists_combine_ofVec Extended.minimum (commonLength?_absorb common) raised upper
    refine ⟨moved.map Extended.toScalar, ?_⟩
    simp only [Box.project, first, second, bind, Except.bind, Tensor.map_ofVec, pure, Except.pure]
  isSatisfied tolerance := by
    obtain ⟨above, first⟩ := Tensor.exists_combine_ofVec
      (fun x l => Extended.le (l - Extended.ofScalar tolerance) (.ofScalar x)) common x lower
    obtain ⟨below, second⟩ := Tensor.exists_combine_ofVec
      (fun x u => Extended.le (.ofScalar x) (u + Extended.ofScalar tolerance)) common x upper
    simp only [Box.isSatisfied, first, second, bind, Except.bind, pure, Except.pure]
    split <;> exact ⟨_, rfl⟩
  violation := by
    have common' : commonLength? n m = some k := by rw [commonLength?_comm, common]
    obtain ⟨below, first⟩ := Tensor.exists_combine_ofVec
      (fun l x => (l - Extended.ofScalar x).maximum 0) common' lower x
    obtain ⟨above, second⟩ := Tensor.exists_combine_ofVec
      (fun x u => (Extended.ofScalar x - u).maximum 0) common x upper
    obtain ⟨low, largest⟩ := Tensor.exists_largest_ofVec Extended.maximum positive below
    obtain ⟨high, largest'⟩ := Tensor.exists_largest_ofVec Extended.maximum positive above
    simp only [Box.violation, first, second, largest, largest', bind, Except.bind, pure, Except.pure]
    exact ⟨_, rfl⟩

theorem refuses_of_none (none : commonLength? m n = none) (lower upper : Vec (Extended α) n)
    (size : Int) (x : Vec α m) : Refuses ⟨.ofVec lower, .ofVec upper, size⟩ (.ofVec x) where
  project := by
    simp only [Box.project, Tensor.combine_ofVec_eq_error _ none, bind, Except.bind]
  isSatisfied tolerance := by
    simp only [Box.isSatisfied, Tensor.combine_ofVec_eq_error _ none, bind, Except.bind]
  violation := by
    rw [commonLength?_comm] at none
    simp only [Box.violation, Tensor.combine_ofVec_eq_error _ none, bind, Except.bind]

/-- A box serves the points that have as many entries as there are bounds. A single bound serves all points,
and a single entry is compared with all bounds. -/
theorem answers_or_refuses (positive : 1 ≤ n) (lower upper : Vec (Extended α) n) (size : Int)
    (positive' : 1 ≤ m) (x : Vec α m) :
    if m = n ∨ m = 1 ∨ n = 1 then Answers ⟨.ofVec lower, .ofVec upper, size⟩ (.ofVec x) (max m n)
    else Refuses ⟨.ofVec lower, .ofVec upper, size⟩ (.ofVec x) := by
  have common := commonLength?_of_pos positive' positive
  split
  · next suited =>
    rw [if_pos suited] at common
    exact answers_of_common (le_max_of_le_left positive') common lower upper size x
  · next apart =>
    rw [if_neg apart] at common
    exact refuses_of_none common lower upper size x

/-! ### Well-sized boxes -/

/-- The size of a box is the number of its bounds, these are in order, and the box is of use as one of its
size. -/
structure IsWellSized (box : Box α) : Prop where
  bounds : ∃ (n : Nat) (lower upper : Vec (Extended α) n), box = ⟨.ofVec lower, .ofVec upper, n⟩ ∧
    ∀ i, Extended.le (lower i) (upper i) = true
  answers {n : Nat} (x : Vec α n) : 1 ≤ n → (n : Int) = box.size → box.Answers (.ofVec x) n
  faces : ∃ faces, box.toPolytope = .ok faces ∧ (faces.columns : Int) = box.size
  stages (N : Nat) : 1 ≤ N → ∃ stages, box.repeat N = .ok stages ∧ stages.size = N * box.size

theorem exists_toPolytope (lower upper : Vec (Extended α) n) :
    ∃ faces, toPolytope ⟨.ofVec lower, .ofVec upper, n⟩ = .ok faces ∧ faces.columns = n := by
  have whole : ¬((n : Int) < 0) := by omega
  have sized : ¬(n + n ≠ 2 * n) := by omega
  unfold toPolytope Tensor.ofVec
  simp only [if_neg whole, Int.toNat_natCast, if_neg sized]
  exact ⟨_, rfl, rfl⟩

/-- The polytope of a box has as many columns as the size says, and so this has to be the number of bounds. -/
theorem size_eq_of_toPolytope {lower upper : Vec (Extended α) n} {faces : SomePolytope α}
    (converted : toPolytope ⟨.ofVec lower, .ofVec upper, size⟩ = .ok faces) : size = n := by
  unfold toPolytope Tensor.ofVec at converted
  dsimp only at converted
  split at converted
  · cases converted
  · split at converted
    · cases converted
    · omega

/-- A box with as many bounds as its size says is well-sized. -/
theorem isWellSized {lower upper : Vec (Extended α) n}
    (ordered : ∀ i, Extended.le (lower i) (upper i) = true)
    (uncrossed : ∀ i, Extended.lt (upper i) (lower i) = false) :
    IsWellSized ⟨.ofVec lower, .ofVec upper, n⟩ where
  bounds := ⟨n, lower, upper, rfl, ordered⟩
  answers x positive sized := by
    obtain rfl := Int.ofNat_inj.mp sized
    exact answers_of_common positive (if_pos rfl) lower upper _ x
  faces := by
    obtain ⟨faces, converted, columns⟩ := exists_toPolytope lower upper
    exact ⟨faces, converted, congrArg _ columns⟩
  stages N _ := ⟨_, repeat_ofVec uncrossed n, Int.natCast_mul N n⟩

/-- The box of all stages is well-sized, whatever size the box of one stage has. -/
theorem exists_repeat {lower upper : Vec (Extended α) n}
    (ordered : ∀ i, Extended.le (lower i) (upper i) = true)
    (uncrossed : ∀ i, Extended.lt (upper i) (lower i) = false) (size : Int) (N : Nat) :
    ∃ stages, «repeat» ⟨.ofVec lower, .ofVec upper, size⟩ N = .ok stages ∧ stages.IsWellSized ∧
      stages.size = N * n := by
  refine ⟨_, repeat_ofVec uncrossed size, isWellSized (fun i => ?_) (fun i => ?_),
    Int.natCast_mul N n⟩ <;> rw [Vec.stack_get, Vec.stack_get]
  · exact ordered _
  · exact uncrossed _

/-! ### Accepted boxes -/

theorem length_eq_of_between {lower : Vec (Extended α) m} {upper : Vec (Extended α) n} {box : Box α}
    (accepted : between (.ofVec lower) (.ofVec upper) size = .ok box) : m = n := by
  obtain ⟨rows, first, accepted⟩ := bind_eq_ok accepted
  obtain ⟨rows', second, accepted⟩ := bind_eq_ok accepted
  cases first
  cases second
  split at accepted
  · cases accepted
  · next same => exact not_not.mp same

/-- A number is one bound for each of the entries that were declared, and a vector is taken as it stands. -/
theorem side_eq_ok {bound : Argument (Extended α)} (given : bound.IsBound) {size? : Option Int}
    {bounds : Tensor (Extended α)} (read : side bound size? = .ok bounds) :
    ∃ (n : Nat) (v : Vec (Extended α) n), bounds = .ofVec v ∧ bound.StandsFor v ∧
      (∀ i, (v i).IsDefined) ∧ (bound.isSingle = true → size? = some (n : Int)) := by
  -- A number is repeated to the size, which has to be given and not negative. A vector stays.
  cases given with
  | @number _ x single value defined =>
    unfold side at read
    rw [if_pos single] at read
    cases size? with
    | none => cases read
    | some size =>
      simp only [value, bind, Except.bind] at read
      split at read
      · cases read
      · next nonneg =>
        cases read
        refine ⟨size.toNat, Vector.replicate size.toNat x, rfl, .number single value, fun i => ?_,
          fun _ => congrArg some (by omega)⟩
        have entry : Vector.replicate size.toNat x i = x := Vector.getElem_replicate i.isLt
        rwa [entry]
  | @vector n v defined =>
    cases read
    exact ⟨n, v, rfl, .vector v, defined, fun single => by cases single⟩

/-- The bounds of an accepted box are vectors of one length. The size is the one that was declared, or else
their length. -/
theorem ofArguments_eq_ok {low high : Argument (Extended α)} (lowBound : low.IsBound)
    (highBound : high.IsBound) {size? : Option Int} {box : Box α}
    (accepted : ofArguments low high size? = .ok box) :
    ∃ (n : Nat) (lower upper : Vec (Extended α) n),
      box = ⟨.ofVec lower, .ofVec upper, size?.getD n⟩ ∧
      (low.StandsFor lower ∧ ∀ i, (lower i).IsDefined) ∧
      (high.StandsFor upper ∧ ∀ i, (upper i).IsDefined) ∧
      (low.isSingle = true ∨ high.isSingle = true → size?.getD n = n) := by
  have compared := between_of_ofArguments accepted
  obtain ⟨l, readLow, accepted⟩ := bind_eq_ok accepted
  obtain ⟨n, lower, rfl, standsLow, definedLow, sizeLow⟩ := side_eq_ok lowBound readLow
  -- A size that was not declared is the number of lower bounds.
  have sized : ∃ u, side high (some (size?.getD n)) = .ok u ∧
      between (.ofVec lower) u (size?.getD n) = .ok box := by
    cases size? <;>
    · obtain ⟨_, counted, accepted⟩ := bind_eq_ok accepted
      cases counted
      exact bind_eq_ok accepted
  obtain ⟨u, readHigh, accepted⟩ := sized
  obtain ⟨n', upper, rfl, standsHigh, definedHigh, sizeHigh⟩ := side_eq_ok highBound readHigh
  obtain rfl := length_eq_of_between accepted
  refine ⟨n, lower, upper, between_eq_ok accepted, ⟨standsLow, definedLow⟩,
    ⟨standsHigh, definedHigh⟩, ?_⟩
  rintro (single | single)
  · rw [sizeLow single, Option.getD_some]
  · exact Option.some.inj (sizeHigh single)

/-- The bounds of an accepted box are two vectors of one length in order. Its size is the declared one if
there is one. The box is well-sized if and only if this is the number of bounds, and so in any case if one of
the bounds was a number. Its points do not depend on the size, but its polytope does; the box of all stages
is always well-sized. -/
theorem sizes_of_accepted
    (comparable : ∀ a b : α, Scalar.isUndefined a = false → Scalar.isUndefined b = false →
      ¬b < a → a ≤ b)
    {low high : Argument (Extended α)} (lowBound : low.IsBound) (highBound : high.IsBound)
    {size? : Option Int} {box : Box α} (accepted : ofArguments low high size? = .ok box) :
    ∃ (n : Nat) (lower upper : Vec (Extended α) n),
      box = ⟨.ofVec lower, .ofVec upper, size?.getD n⟩ ∧
      low.StandsFor lower ∧ high.StandsFor upper ∧
      (∀ i, Extended.le (lower i) (upper i) = true) ∧
      (box.IsWellSized ↔ size? = none ∨ size? = some (n : Int)) ∧
      (low.isSingle = true ∨ high.isSingle = true → box.IsWellSized) ∧
      (1 ≤ n → ∀ {m : Nat} (x : Vec α m), 1 ≤ m →
        if m = n ∨ m = 1 ∨ n = 1 then box.Answers (.ofVec x) (max m n) else box.Refuses (.ofVec x)) ∧
      ((∃ faces, box.toPolytope = .ok faces) ↔ box.size = n) ∧
      ∀ N : Nat, ∃ stages, box.repeat N = .ok stages ∧ stages.IsWellSized ∧ stages.size = N * n := by
  obtain ⟨n, lower, upper, rfl, ⟨standsLow, definedLow⟩, ⟨standsHigh, definedHigh⟩, single⟩ :=
    ofArguments_eq_ok lowBound highBound accepted
  have uncrossed := uncrossed_of_between (between_of_ofArguments accepted)
  have ordered (i : Fin n) : Extended.le (lower i) (upper i) = true :=
    Extended.le_of_lt_eq_false comparable (definedLow i) (definedHigh i) (uncrossed i)
  have declared : size?.getD n = (n : Int) ↔ size? = none ∨ size? = some (n : Int) := by
    cases size? <;> simp
  have converted : (∃ faces, toPolytope ⟨.ofVec lower, .ofVec upper, size?.getD n⟩ = .ok faces) ↔
      size?.getD n = (n : Int) := by
    refine ⟨fun ⟨_, faces⟩ => size_eq_of_toPolytope faces, fun same => ?_⟩
    obtain ⟨faces, converted, -⟩ := exists_toPolytope lower upper
    exact ⟨faces, by rw [same, converted]⟩
  -- A box that has a polytope has the right size, and then everything else follows.
  have wellSized : IsWellSized ⟨.ofVec lower, .ofVec upper, size?.getD n⟩ ↔
      size?.getD n = (n : Int) := by
    constructor
    · intro sized
      obtain ⟨faces, found, -⟩ := sized.faces
      exact converted.mp ⟨faces, found⟩
    · intro same
      rw [same]
      exact isWellSized ordered uncrossed
  exact ⟨n, lower, upper, rfl, standsLow, standsHigh, ordered, wellSized.trans declared,
    fun number => wellSized.mpr (single number), fun positive {_} x positive' =>
    answers_or_refuses positive lower upper _ positive' x, converted, exists_repeat ordered uncrossed _⟩

/-- One of two bounds is missing below, once with a number above and once with a vector and a third entry
that was only declared. -/
theorem sizes_of_accepted_declaredThree :
    let low : Argument (Extended ℝ) := .array (.ofVec #v[.finite 0, .bottom])
    let high : Argument (Extended ℝ) := .array (.ofVec #v[.finite 1, .top])
    (∀ a b : ℝ, Scalar.isUndefined a = false → Scalar.isUndefined b = false → ¬b < a → a ≤ b) ∧
      low.IsBound ∧ high.IsBound ∧
      (∃ box, ofArguments low (.whole 1) none = .ok box ∧ box.IsWellSized) ∧
      ∃ box, ofArguments low high (some 3) = .ok box ∧ ¬box.IsWellSized ∧
        (¬∃ faces, box.toPolytope = .ok faces) ∧
        ∃ stages, box.repeat (2 : ℕ) = .ok stages ∧ stages.size = 4 := by
  intro low high
  have comparable (a b : ℝ) (_ : Scalar.isUndefined a = false) (_ : Scalar.isUndefined b = false)
      (uncrossed : ¬b < a) : a ≤ b := not_lt.mp uncrossed
  have lowBound : low.IsBound := .vector fun i => by
    fin_cases i
    · exact .finite rfl
    · exact .bottom
  have highBound : high.IsBound := .vector fun i => by
    fin_cases i
    · exact .finite rfl
    · exact .top
  have one : Argument.IsBound (.whole 1 : Argument (Extended ℝ)) := .number rfl rfl (.finite rfl)
  have ordered : ¬(1 : ℝ) < 0 := not_lt.mpr zero_le_one
  have mixed : ofArguments low (.whole 1) none = .ok ⟨_, _, 2⟩ :=
    between_ofVec #v[.finite 0, .bottom] (Vector.replicate 2 (.finite ((1 : ℤ) : ℝ)))
      (fun i => by
        fin_cases i
        · exact decide_eq_false (by simp)
        · rfl) 2
  have declared : ofArguments low high (some 3) = .ok ⟨_, _, 3⟩ :=
    between_ofVec #v[.finite 0, .bottom] #v[.finite 1, .top]
      (fun i => by
        fin_cases i
        · exact decide_eq_false ordered
        · rfl) 3
  refine ⟨comparable, lowBound, highBound, ⟨_, mixed, ?_⟩, _, declared, ?_⟩
  · obtain ⟨_, _, _, _, _, _, _, -, number, -⟩ := sizes_of_accepted comparable lowBound one mixed
    exact number (.inr rfl)
  · obtain ⟨n, lower, upper, same, -, -, -, sized, -, -, faces, stages⟩ :=
      sizes_of_accepted comparable lowBound highBound declared
    obtain rfl : n = 2 := (List.cons.inj (congrArg (·.lower.shape) same)).1.symm
    refine ⟨?_, ?_, ?_⟩
    · rw [sized]
      simp
    · rw [faces]
      decide
    · obtain ⟨stages, repeated, -, size⟩ := stages 2
      exact ⟨stages, repeated, size⟩

end Box

end RecedingHorizon
