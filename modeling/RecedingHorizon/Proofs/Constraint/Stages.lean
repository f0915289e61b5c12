import RecedingHorizon.Proofs.Constraint.Box
import RecedingHorizon.Proofs.Exact.Stacked
import RecedingHorizon.Proofs.Problem.Acceptance

/-!
# Boxes of all stages

A box that holds in every stage is repeated along the stages (`repeat_ofVec`). Its points are the
stacks whose parts all lie in the box of one stage (`mem_region_stack`), up to a tolerance as well
(`isSatisfied_stack`), and a stack is moved into it part by part (`project_stack`). Together with
the box of one stage itself, that is `box_projects_stagewise`.
-/

namespace RecedingHorizon

variable {n m N : Nat}

namespace Box

theorem getElem?_flatten_replicate {α : Type} (v : Vec α m) (width : 0 < m) {i : Nat}
    (within : i < N * m) :
    (List.replicate N v.toList).flatten[i]? = some (v ⟨i % m, Nat.mod_lt i width⟩) := by
  induction N generalizing i with
  | zero => exact absurd within (by simp)
  | succ N ih =>
    rw [List.replicate_succ, List.flatten_cons]
    -- An index of the first copy, or one of a later copy, which is the same one copy earlier.
    by_cases early : i < m
    · rw [List.getElem?_append_left (by simpa using early),
        List.getElem?_eq_getElem (by simpa using early), Vector.getElem_toList]
      simp only [Nat.mod_eq_of_lt early]
      rfl
    · have later : i - m < N * m := by
        rw [Nat.succ_mul] at within
        omega
      rw [List.getElem?_append_right (by simpa using early), Vector.length_toList, ih later]
      simp only [Nat.mod_eq_sub_mod (not_lt.mp early)]

/-- A vector of bounds is repeated for every stage. -/
theorem tile_ofVec {α : Type} (N : Nat) (bounds : Vec (Extended α) m) :
    tile N (.ofVec bounds) = .ofVec (Vec.stack fun _ : Fin N => bounds) := by
  have tiled : tile N (.ofVec bounds) =
      .ofList (List.replicate N (Tensor.ofVec bounds).toList).flatten := rfl
  rw [tiled, Tensor.toList_ofVec, ← Tensor.ofList_toList (Vec.stack fun _ : Fin N => bounds)]
  refine congrArg Tensor.ofList (List.ext_getElem? fun i => ?_)
  -- Both lists have `N * m` entries; inside, entry `i` is the bound at the position of `i`.
  rcases Nat.lt_or_ge i (N * m) with within | beyond
  · have width : 0 < m := Stacked.width_pos ⟨i, within⟩
    rw [getElem?_flatten_replicate bounds width within,
      List.getElem?_eq_getElem (by simpa using within), Vector.getElem_toList]
    exact congrArg some (Vec.stack_get (fun _ : Fin N => bounds) ⟨i, within⟩).symm
  · rw [List.getElem?_eq_none (by simpa using beyond),
      List.getElem?_eq_none (by simpa using beyond)]

/-- The points of the box of all stages are the stacks of points of the box of one stage. -/
theorem mem_region_stack {lower upper : Vec (Extended ℝ) m} {z : Vec ℝ (N * m)} :
    z ∈ region (Vec.stack fun _ : Fin N => lower) (Vec.stack fun _ : Fin N => upper) ↔
      ∀ k, z.part k ∈ region lower upper := by
  constructor
  · intro inside k i
    have entry := inside (Stacked.index k i)
    rwa [Vec.stack_get, Vec.stack_get, Stacked.position_index, ← Vec.part_get] at entry
  · intro inside i
    have entry := inside (Stacked.stage i) (Stacked.position i)
    rw [Vec.part_get, Stacked.index_stage_position] at entry
    rwa [Vec.stack_get, Vec.stack_get]

variable {α : Type} [Scalar α]

theorem between_eq_ok {lower upper : Tensor (Extended α)} {size : Int} {box : Box α}
    (accepted : between lower upper size = .ok box) : box = ⟨lower, upper, size⟩ := by
  obtain ⟨rows, -, accepted⟩ := bind_eq_ok accepted
  obtain ⟨rows', -, accepted⟩ := bind_eq_ok accepted
  split at accepted
  · cases accepted
  obtain ⟨crossed, -, accepted⟩ := bind_eq_ok accepted
  split at accepted
  · cases accepted
  cases accepted
  rfl

/-- Bounds that do not cross in any entry are accepted. -/
theorem between_ofVec (lower upper : Vec (Extended α) m)
    (uncrossed : ∀ i, Extended.lt (upper i) (lower i) = false) (size : Int) :
    between (.ofVec lower) (.ofVec upper) size = .ok ⟨.ofVec lower, .ofVec upper, size⟩ := by
  have none : (Tensor.ofVec (Vector.zipWith (fun l u => Extended.lt u l) lower upper)).anyEntry id =
      false := by
    rw [Tensor.anyEntry_ofVec]
    intro i
    rw [Vec.get_zipWith]
    exact uncrossed i
  simp only [between, length, Tensor.shape_ofVec, Tensor.combine_ofVec, none, bind, Except.bind,
    ne_eq, not_true_eq_false, if_false, Bool.false_eq_true, pure, Except.pure]

theorem repeat_eq_ok {lower upper : Vec (Extended α) m} {size : Int} {box : Box α}
    (accepted : «repeat» ⟨.ofVec lower, .ofVec upper, size⟩ N = .ok box) :
    ∃ size', box = ⟨.ofVec (Vec.stack fun _ : Fin N => lower),
      .ofVec (Vec.stack fun _ : Fin N => upper), size'⟩ := by
  have counted : ¬((N : Int) < 0 ∧ (Tensor.ofVec lower).size ≠ 0) := by omega
  rw [«repeat», if_neg counted, Int.toNat_natCast, tile_ofVec, tile_ofVec] at accepted
  obtain ⟨rows, -, accepted⟩ := bind_eq_ok accepted
  exact ⟨rows, between_eq_ok accepted⟩

/-- Repeating a box whose bounds do not cross repeats its bounds. -/
theorem repeat_ofVec {lower upper : Vec (Extended α) m}
    (uncrossed : ∀ i, Extended.lt (upper i) (lower i) = false) (size : Int) :
    «repeat» ⟨.ofVec lower, .ofVec upper, size⟩ N =
      .ok ⟨.ofVec (Vec.stack fun _ : Fin N => lower), .ofVec (Vec.stack fun _ : Fin N => upper),
        (N * m : Nat)⟩ := by
  have counted : ¬((N : Int) < 0 ∧ (Tensor.ofVec lower).size ≠ 0) := by omega
  have stages := between_ofVec (Vec.stack fun _ : Fin N => lower)
    (Vec.stack fun _ : Fin N => upper)
    (fun i => by
      rw [Vec.stack_get, Vec.stack_get]
      exact uncrossed _)
    (N * m : Nat)
  simp only [«repeat», if_neg counted, Int.toNat_natCast, tile_ofVec, length, Tensor.shape_ofVec,
    bind, Except.bind, stages]

/-! ### Points up to a tolerance -/

/-- A number lies between two bounds, up to a tolerance. -/
def Within (tolerance : ℝ) (l u : Extended ℝ) (x : ℝ) : Prop :=
  Extended.le (l - .finite tolerance) (.finite x) = true ∧
    Extended.le (.finite x) (u + .finite tolerance) = true

theorem within_zero {l u : Extended ℝ} {x : ℝ} : Within 0 l u x ↔ Extended.Between l u x := by
  have lower : l - .finite 0 = l := by
    cases l with
    | finite a => exact congrArg Extended.finite (sub_zero a)
    | _ => rfl
  have upper : u + .finite 0 = u := by
    cases u with
    | finite b => exact congrArg Extended.finite (add_zero b)
    | _ => rfl
  rw [Within, lower, upper, Extended.Between]

/-- The check of a point answers, and it holds if every entry lies between its bounds. -/
theorem exists_isSatisfied (lower upper : Vec (Extended ℝ) m) (size : Int) (x : Vec ℝ m)
    (tolerance : ℝ) :
    ∃ verdict, isSatisfied ⟨.ofVec lower, .ofVec upper, size⟩ (.ofVec x) tolerance = .ok verdict ∧
      (verdict = true ↔ ∀ i, Within tolerance (lower i) (upper i) (x i)) := by
  have above := Tensor.allEntries_ofVec id (Vector.zipWith
    (fun x l => Extended.le (l - .finite tolerance) (.finite x)) x lower)
  have below := Tensor.allEntries_ofVec id (Vector.zipWith
    (fun x u => Extended.le (.finite x) (u + .finite tolerance)) x upper)
  simp only [Vec.get_zipWith, id] at above below
  have compared := Tensor.combine_ofVec
    (fun x l => Extended.le (l - .finite tolerance) (.ofScalar x)) x lower
  have compared' := Tensor.combine_ofVec
    (fun x u => Extended.le (.ofScalar x) (u + .finite tolerance)) x upper
  have slack : Extended.ofScalar tolerance = .finite tolerance := rfl
  simp only [isSatisfied, slack, compared, compared', bind, Except.bind, pure, Except.pure]
  -- The upper bounds are looked at only if the lower ones hold.
  split
  · next failing =>
    refine ⟨false, rfl, iff_of_false Bool.false_ne_true fun within => ?_⟩
    rw [Bool.not_eq_true'] at failing
    exact absurd (above.mpr fun i => (within i).1) (Bool.eq_false_iff.mp failing)
  · next passing =>
    rw [Bool.not_eq_true', Bool.not_eq_false] at passing
    refine ⟨_, rfl, below.trans ⟨fun under i => ⟨above.mp passing i, under i⟩,
      fun within i => (within i).2⟩⟩

theorem isSatisfied_eq_true_iff {lower upper : Vec (Extended ℝ) m} {size : Int} {x : Vec ℝ m}
    {tolerance : ℝ} :
    isSatisfied ⟨.ofVec lower, .ofVec upper, size⟩ (.ofVec x) tolerance = .ok true ↔
      ∀ i, Within tolerance (lower i) (upper i) (x i) := by
  obtain ⟨verdict, answered, holds⟩ := exists_isSatisfied lower upper size x tolerance
  rw [answered, Except.ok.injEq, holds]

theorem mem_region_iff {lower upper : Vec (Extended ℝ) m} {size : Int} {x : Vec ℝ m} :
    x ∈ region lower upper ↔
      isSatisfied ⟨.ofVec lower, .ofVec upper, size⟩ (.ofVec x) 0 = .ok true := by
  simp only [isSatisfied_eq_true_iff, within_zero]
  rfl

theorem isSatisfied_stack (lower upper : Vec (Extended ℝ) m) (size size' : Int)
    (xs : Fin N → Vec ℝ m) (tolerance : ℝ) :
    isSatisfied ⟨.ofVec (Vec.stack fun _ : Fin N => lower),
        .ofVec (Vec.stack fun _ : Fin N => upper), size'⟩ (.ofVec (Vec.stack xs)) tolerance =
        .ok true ↔
      ∀ k, isSatisfied ⟨.ofVec lower, .ofVec upper, size⟩ (.ofVec (xs k)) tolerance = .ok true := by
  simp only [isSatisfied_eq_true_iff, Vec.stack_get]
  constructor
  · intro all k i
    simpa using all (Stacked.index k i)
  · exact fun all i => all (Stacked.stage i) (Stacked.position i)

/-! ### Points moved into a box -/

/-- The point with every entry moved into its interval. -/
noncomputable def clamped (lower upper : Vec (Extended ℝ) m) (x : Vec ℝ m) : Vec ℝ m :=
  Vec.ofFn fun i => (Extended.clamp (lower i) (upper i) (.finite (x i))).toScalar

theorem project_stack (lower upper : Vec (Extended ℝ) m) (size : Int) (xs : Fin N → Vec ℝ m) :
    project ⟨.ofVec (Vec.stack fun _ : Fin N => lower), .ofVec (Vec.stack fun _ : Fin N => upper),
        size⟩ (.ofVec (Vec.stack xs)) =
      .ok (.ofVec (Vec.stack fun k => clamped lower upper (xs k))) := by
  rw [project_ofVec]
  refine congrArg (fun y => Except.ok (Tensor.ofVec y)) (Vec.ext fun i => ?_)
  simp only [Vec.ofFn_get, Vec.stack_get, clamped]

theorem isNearest_clamped {lower upper : Vec (Extended ℝ) m}
    (nonempty : (region lower upper).Nonempty) (x : Vec ℝ m) :
    IsNearest (region lower upper) x (clamped lower upper x) := by
  have projects : Projects (forVectors (project ⟨.ofVec lower, .ofVec upper, 0⟩))
      (region lower upper) := projects_region nonempty
  exact projects.isNearest (forVectors_eq_ok.mpr (project_ofVec x))

/-- A box with some of its bounds open moves every point to the nearest one that it has, and the box
of all stages does so in every stage. -/
theorem box_projects_stagewise {lower upper : Vec (Extended ℝ) m}
    (lowerKind : ∀ i, lower i = .bottom ∨ ∃ a, lower i = .finite a)
    (upperKind : ∀ i, upper i = .top ∨ ∃ b, upper i = .finite b)
    (ordered : ∀ i, Extended.le (lower i) (upper i) = true) (size : Int) :
    ∃ (box : Box ℝ) (p : Vec ℝ m → Vec ℝ m),
      between (.ofVec lower) (.ofVec upper) size = .ok box ∧
      (∀ x, box.project (.ofVec x) = .ok (.ofVec (p x))) ∧
      (∀ x, x ∈ region lower upper ↔ box.isSatisfied (.ofVec x) 0 = .ok true) ∧
      IsProjection (region lower upper) p ∧
      ∀ N : ℕ, ∃ stages, box.repeat N = .ok stages ∧
        ∀ xs : Fin N → Vec ℝ m,
          stages.project (.ofVec (Vec.stack xs)) = .ok (.ofVec (Vec.stack fun k => p (xs k))) ∧
          ∀ tolerance, ∃ verdict,
            stages.isSatisfied (.ofVec (Vec.stack xs)) tolerance = .ok verdict ∧
            (verdict = true ↔ ∀ k, box.isSatisfied (.ofVec (xs k)) tolerance = .ok true) := by
  have uncrossed (i : Fin m) : Extended.lt (upper i) (lower i) = false :=
    Extended.lt_eq_false_of_le (ordered i)
  -- Every interval has a number, so that the box has a point.
  choose x inside using fun i => Extended.exists_between (lowerKind i) (upperKind i) (uncrossed i)
  have nonempty : (region lower upper).Nonempty := ⟨Vec.ofFn x, fun i => by simpa using inside i⟩
  refine ⟨_, clamped lower upper, between_ofVec lower upper uncrossed size, project_ofVec,
    fun x => mem_region_iff, isConvex_region.isProjection (isNearest_clamped nonempty), fun N => ?_⟩
  refine ⟨_, repeat_ofVec uncrossed size, fun xs =>
    ⟨project_stack lower upper _ xs, fun tolerance => ?_⟩⟩
  obtain ⟨verdict, answered, -⟩ := exists_isSatisfied (Vec.stack fun _ : Fin N => lower)
    (Vec.stack fun _ : Fin N => upper) (N * m : Nat) (Vec.stack xs) tolerance
  refine ⟨verdict, answered, ?_⟩
  rw [← isSatisfied_stack lower upper size (N * m : Nat), answered, Except.ok.injEq]

/-- A box that is open below in one entry and open above in another one, in two stages. -/
theorem box_projects_stagewise_openBox :
    let lower : Vec (Extended ℝ) 3 := #v[.bottom, .finite (-1), .finite 0]
    let upper : Vec (Extended ℝ) 3 := #v[.finite 1, .finite 1, .top]
    (∀ i, lower i = .bottom ∨ ∃ a, lower i = .finite a) ∧
      (∀ i, upper i = .top ∨ ∃ b, upper i = .finite b) ∧
      (∀ i, Extended.le (lower i) (upper i) = true) ∧
      ∃ (box : Box ℝ) (p : Vec ℝ 3 → Vec ℝ 3),
        between (.ofVec lower) (.ofVec upper) 3 = .ok box ∧
        IsProjection (region lower upper) p ∧ p #v[2, 0, -4] = #v[1, 0, 0] ∧
        ∃ stages, box.repeat (2 : ℕ) = .ok stages ∧ ∀ x y,
          stages.project (.ofVec (Vec.stack ![x, y])) = .ok (.ofVec (Vec.stack ![p x, p y])) := by
  intro lower upper
  have lowerKind (i : Fin 3) : lower i = .bottom ∨ ∃ a, lower i = .finite a := by
    fin_cases i
    · exact .inl rfl
    · exact .inr ⟨-1, rfl⟩
    · exact .inr ⟨0, rfl⟩
  have upperKind (i : Fin 3) : upper i = .top ∨ ∃ b, upper i = .finite b := by
    fin_cases i
    · exact .inr ⟨1, rfl⟩
    · exact .inr ⟨1, rfl⟩
    · exact .inl rfl
  have ordered (i : Fin 3) : Extended.le (lower i) (upper i) = true := by
    fin_cases i
    · rfl
    · exact decide_eq_true (show (-1 : ℝ) ≤ 1 by norm_num)
    · rfl
  obtain ⟨box, p, accepted, moves, -, isProjection, staged⟩ :=
    box_projects_stagewise lowerKind upperKind ordered 3
  obtain ⟨stages, repeated, parts⟩ := staged 2
  refine ⟨lowerKind, upperKind, ordered, box, p, accepted, isProjection, ?_, stages, repeated,
    fun x y => ?_⟩
  · have moved := moves #v[2, 0, -4]
    rw [between_eq_ok accepted, project_ofVec, Except.ok.injEq] at moved
    have same := congrArg (fun point => point.toVec? 3) moved
    simp only [Tensor.toVec?_ofVec, Option.some.injEq] at same
    rw [← same]
    refine Vec.ext fun i => ?_
    rw [Vec.ofFn_get]
    fin_cases i
    · change (Extended.minimum (.finite 2) (.finite 1)).toScalar = 1
      rw [Extended.minimum_finite]
      exact min_eq_right (by norm_num)
    · change (Extended.clamp (.finite (-1)) (.finite 1) (.finite 0)).toScalar = 0
      rw [Extended.clamp_finite, max_eq_left (by norm_num)]
      exact min_eq_left (by norm_num)
    · change (Extended.minimum (Extended.maximum (.finite (-4)) (.finite 0)) .top).toScalar = 0
      rw [Extended.maximum_finite, max_eq_right (by norm_num)]
      rfl
  · have both : (fun k => p (![x, y] k)) = ![p x, p y] := by
      funext k
      fin_cases k <;> rfl
    rw [(parts ![x, y]).1, both]

end Box

end RecedingHorizon
