import Mathlib.Algebra.GroupWithZero.Basic
import RecedingHorizon.Proofs.Exact.Scalar
import RecedingHorizon.Proofs.Tensor.Shapes
import RecedingHorizon.System.Linear

/-!
# Sizes of what a system returns

A system that is made from arguments, and every one that comes from it by feedback, moves from each state
under each input to a state, and a sequence of inputs leads through one state more than it has inputs, as
long as there is anything to cut the sequence into. The output is another matter: the feedthrough matrix is
held against the number of inputs only, so that it may have a different number of rows than the output
matrix. A single row on either side is then repeated, which makes the output longer if it is the output
matrix that has one, and other rows cannot be added (`outputOf_shape_iff`).
-/

namespace RecedingHorizon

/-- A list with at least two entries ends with two of them. -/
theorem exists_last_two {s : List Nat} (long : 2 ≤ s.length) : ∃ lead r k, s = lead ++ [r, k] := by
  match reversed : s.reverse with
  | [] => simp_all
  | [k] =>
    have length := congrArg List.length reversed
    simp at length
    omega
  | k :: r :: rest =>
    refine ⟨rest.reverse, r, k, ?_⟩
    rw [← List.reverse_reverse s, reversed]
    simp

namespace LinearSystem

variable {α : Type} [Scalar α] {n m : Nat}

/-- The systems that can be made: from arguments, and then by feedback any number of times. -/
inductive Obtained : LinearSystem α n m → Prop
  | constructed {s : LinearSystem α n m} {a b c d : Argument α} {interval : α} :
      ofArguments a b c d interval = .ok { system := s } → Obtained s
  | prestabilized {s closed : LinearSystem α n m} {gain : Argument α} :
      Obtained s → s.prestabilized gain = .ok closed → Obtained closed

/-- The second axis of a feedthrough matrix has one entry for each input. -/
theorem shape_of_readFeedthrough {d : Argument α} {D : Tensor α}
    (read : readFeedthrough m d = .ok (some D)) : ∃ r rest, D.shape = r :: m :: rest := by
  unfold readFeedthrough at read
  split at read
  · cases read
  · obtain ⟨t, -, read⟩ := bind_eq_ok read
    dsimp only at read
    split at read
    · next r k rest axes =>
      by_cases columns : k = m
      · rw [if_pos columns] at read
        cases read
        exact ⟨r, rest, columns ▸ axes⟩
      · rw [if_neg columns] at read
        cases read
    · cases read

theorem prestabilized_eq_ok {s closed : LinearSystem α n m} {gain : Argument α}
    (made : s.prestabilized gain = .ok closed) : ∃ K, closed = s.closedLoop K := by
  obtain ⟨K, -, made⟩ := bind_eq_ok made
  split at made
  · next K _ => exact ⟨K, (Except.ok.inj made).symm⟩
  · cases made

theorem Obtained.feedthrough {s : LinearSystem α n m} (obtained : Obtained s) :
    ∀ D ∈ s.feedthrough?, ∃ r rest, D.shape = r :: m :: rest := by
  induction obtained with
  | constructed made =>
    obtain ⟨A, -, made⟩ := bind_eq_ok made
    obtain ⟨B, -, made⟩ := bind_eq_ok made
    split at made
    · dsimp only at made
      split at made
      · obtain ⟨square, made⟩ := dite_eq_ok made
        obtain ⟨tall, made⟩ := dite_eq_ok made
        obtain ⟨C, -, made⟩ := bind_eq_ok made
        obtain ⟨D, read, made⟩ := bind_eq_ok made
        cases made
        rintro D rfl
        exact shape_of_readFeedthrough read
      · cases made
    · cases made
  | prestabilized _ made ih =>
    -- Feedback changes the state matrix only.
    obtain ⟨K, rfl⟩ := prestabilized_eq_ok made
    exact ih

/-! ### States -/

theorem nextOf_ofVec (s : LinearSystem α n m) (x : Vec α n) (u : Vec α m) :
    s.nextOf (.ofVec x) (.ofVec u) = .ok (.ofVec (s.next x u)) := by
  simp only [nextOf, Tensor.product_ofMat_ofVec, bind, Except.bind, Tensor.add_ofVec]
  rfl

theorem length_trajectory (s : LinearSystem α n m) (x : Vec α n) (inputs : List (Vec α m)) :
    (s.trajectory x inputs).length = inputs.length + 1 := by
  induction inputs generalizing x with
  | nil => rfl
  | cons u rest ih => rw [trajectory, List.length_cons, List.length_cons, ih]

theorem exists_simulate_of_size (s : LinearSystem α n m) (x : Vec α n) {N : Nat} {u : Tensor α}
    (size : u.size = N * m) (width : m ≠ 0) :
    ∃ states, s.simulate (.ofVec x) u = .ok states ∧ states.length = N + 1 := by
  obtain ⟨inputs, cut, count⟩ : ∃ inputs, cutInputs? m u.toList = some inputs ∧ inputs.length = N :=
    ⟨_, cutInputs?_eq_some width (u.length_toList.trans size), by simp⟩
  have fits := Tensor.fitTo_shape (Tensor.ofVec x)
  rw [Tensor.shape_ofVec] at fits
  refine ⟨s.trajectory x inputs, ?_, by rw [length_trajectory, count]⟩
  simp only [simulate, cut, fits, bind, Except.bind, pure, Except.pure, Tensor.toVec?_ofVec]

/-! ### Outputs -/

section

variable {s : LinearSystem α n m} {x : Vec α n} {u : Vec α m}

/-- Without a feedthrough matrix, or without an output matrix that it is added to, the output has one entry
for each row. -/
theorem exists_outputOf (missing : s.output? = none ∨ s.feedthrough? = none) :
    ∃ y : Vec α s.outputs, s.outputOf (.ofVec x) (.ofVec u) = .ok (.ofVec y) := by
  obtain ⟨A, B, output?, feedthrough?, interval⟩ := s
  cases output? with
  | none => exact ⟨x, rfl⟩
  | some C =>
    obtain rfl : feedthrough? = none := missing.resolve_left (Option.some_ne_none C)
    refine ⟨C.2.mulVec x, ?_⟩
    simp only [outputOf, Tensor.product_ofMat_ofVec, bind, Except.bind]
    rfl

/-- With a feedthrough matrix there is an output if it has a column for each input, and a row for each row
of the output matrix or a single one on either side. -/
theorem outputOf_shape_iff {p : Nat} {C : Mat α p n} (given : s.output? = some ⟨p, C⟩) {D : Tensor α}
    (through : s.feedthrough? = some D) {lead : List Nat} {r k : Nat} (axes : D.shape = lead ++ [r, k])
    {shape : List Nat} :
    (∃ y, s.outputOf (.ofVec x) (.ofVec u) = .ok y ∧ y.shape = shape) ↔
      k = m ∧ ∃ length, commonLength? p r = some length ∧ shape = lead ++ [length] := by
  have opened : s.outputOf (.ofVec x) (.ofVec u) =
      D.product (.ofVec u) >>= Tensor.add (.ofVec (C.mulVec x)) := by
    simp only [outputOf, given, through, Tensor.product_ofMat_ofVec]
    rfl
  -- The columns decide whether there is a product, and the rows whether it can be added.
  by_cases columns : k = m
  · subst columns
    obtain ⟨pushed, multiplied, shaped⟩ := Tensor.exists_product_ofVec axes u
    have both : commonShape? (Tensor.ofVec (C.mulVec x)).shape pushed.shape =
        (commonLength? p r).map fun length => lead ++ [length] := by
      rw [shaped]
      exact commonShape?_single p lead r
    rw [opened, multiplied]
    change (∃ y, Tensor.add _ pushed = .ok y ∧ y.shape = shape) ↔ _
    cases common : commonLength? p r with
    | none =>
      rw [common, Option.map_none] at both
      rw [Tensor.add, Tensor.combine_eq_error _ both]
      simp
    | some length =>
      rw [common, Option.map_some] at both
      obtain ⟨y, added, sized⟩ := Tensor.exists_combine (· + ·) both
      rw [Tensor.add, added]
      simp [sized, eq_comm]
  · rw [opened, Tensor.product_ofVec_eq_error axes columns]
    simp [columns, bind, Except.bind]

end

/-- What the feedthrough matrix makes of an input can be added to the output without changing the number of
its entries. -/
def FeedthroughFits (s : LinearSystem α n m) : Prop :=
  ∀ C ∈ s.output?, ∀ D ∈ s.feedthrough?, ∃ lead r, D.shape = lead ++ [r, m] ∧
    (r = s.outputs ∨ r = 1) ∧ (lead.prod = 1 ∨ s.outputs = 0)

theorem commonLength?_eq_left_iff {p r : Nat} : commonLength? p r = some p ↔ r = p ∨ r = 1 := by
  simp only [commonLength?]
  grind

theorem foldr_mul_concat (lead : List Nat) (length : Nat) :
    (lead ++ [length]).foldr (· * ·) 1 = lead.prod * length := by
  rw [← List.prod_eq_foldr, List.prod_append, List.prod_singleton]

/-- So many copies of a common length have the first length together if and only if that is the common one,
and there is a single copy unless it is zero. -/
theorem exists_commonLength?_iff {p q r : Nat} :
    (∃ length, commonLength? p r = some length ∧ q * length = p) ↔
      (r = p ∨ r = 1) ∧ (q = 1 ∨ p = 0) := by
  rw [← commonLength?_eq_left_iff, ← mul_left_eq_self₀]
  constructor
  · rintro ⟨length, common, size⟩
    suffices same : length = p by
      subst same
      exact ⟨common, size⟩
    simp only [commonLength?] at common
    split_ifs at common with equal single other
    · exact Option.some.inj common.symm
    · -- A single row cannot be repeated and remain a single one.
      obtain rfl : r = length := Option.some.inj common
      rw [single] at size
      exact (Nat.eq_one_of_mul_eq_one_left size).trans single.symm
    · exact Option.some.inj common.symm
  · rintro ⟨common, size⟩
    exact ⟨p, common, size⟩

section

variable {s : LinearSystem α n m}

/-- Either nothing is added to the output, or the feedthrough matrix has at least two axes. -/
theorem Obtained.cases (obtained : Obtained s) :
    (s.output? = none ∨ s.feedthrough? = none) ∨
      ∃ C D lead r k, s.output? = some ⟨s.outputs, C⟩ ∧ s.feedthrough? = some D ∧
        D.shape = lead ++ [r, k] := by
  cases given : s.output? with
  | none => exact .inl (.inl rfl)
  | some C =>
    cases through : s.feedthrough? with
    | none => exact .inl (.inr rfl)
    | some D =>
      obtain ⟨p, C⟩ := C
      obtain rfl : s.outputs = p := by rw [outputs, given]
      obtain ⟨a, rest, axes⟩ := obtained.feedthrough D through
      obtain ⟨lead, r, k, same⟩ := exists_last_two (s := a :: m :: rest) (by simp)
      exact .inr ⟨C, D, lead, r, k, rfl, rfl, axes.trans same⟩

omit [Scalar α] in
theorem not_missing {C : Σ p, Mat α p n} {D : Tensor α} (given : s.output? = some C)
    (through : s.feedthrough? = some D) : ¬(s.output? = none ∨ s.feedthrough? = none) := by
  simp [given, through]

/-- A shape is split in one way into its last two axes and the ones before. -/
theorem append_pair_inj {lead lead' : List Nat} {r k r' k' : Nat}
    (same : lead ++ [r, k] = lead' ++ [r', k']) : lead = lead' ∧ r = r' ∧ k = k' := by
  obtain ⟨first, last⟩ := List.append_inj' same rfl
  exact ⟨first, by simpa using last⟩

/-- The output has as many entries as there are outputs exactly if the feedthrough matrix fits. -/
theorem exists_output_of_size_iff (obtained : Obtained s) (x : Vec α n) (u : Vec α m) :
    (∃ y, s.outputOf (.ofVec x) (.ofVec u) = .ok y ∧ y.size = s.outputs) ↔ s.FeedthroughFits := by
  obtain missing | ⟨C, D, lead, r, k, given, through, axes⟩ := obtained.cases
  · obtain ⟨y, shown⟩ := exists_outputOf missing (x := x) (u := u)
    refine iff_of_true ⟨_, shown, by simp [Tensor.size]⟩ ?_
    rintro C given D through
    exact (not_missing given through missing).elim
  · have shapes (shape : List Nat) :
        (∃ y, s.outputOf (.ofVec x) (.ofVec u) = .ok y ∧ y.shape = shape) ↔
          k = m ∧ ∃ length, commonLength? s.outputs r = some length ∧ shape = lead ++ [length] :=
      outputOf_shape_iff given through axes
    -- The number of entries depends on the shape only, and the shape is known.
    have counted : (∃ y, s.outputOf (.ofVec x) (.ofVec u) = .ok y ∧ y.size = s.outputs) ↔
        k = m ∧ ∃ length, commonLength? s.outputs r = some length ∧ lead.prod * length = s.outputs := by
      constructor
      · rintro ⟨y, shown, size⟩
        obtain ⟨columns, length, common, shape⟩ := (shapes _).mp ⟨y, shown, rfl⟩
        rw [Tensor.size, shape, foldr_mul_concat] at size
        exact ⟨columns, length, common, size⟩
      · rintro ⟨columns, length, common, size⟩
        obtain ⟨y, shown, shape⟩ := (shapes _).mpr ⟨columns, length, common, rfl⟩
        rw [← foldr_mul_concat, ← shape] at size
        exact ⟨y, shown, size⟩
    rw [counted, exists_commonLength?_iff]
    constructor
    · rintro ⟨rfl, rows, single⟩ C - E through'
      obtain rfl : D = E := Option.some.inj (through.symm.trans through')
      exact ⟨lead, r, axes, rows, single⟩
    · intro fits
      obtain ⟨lead', r', axes', rows, single⟩ := fits _ given D through
      obtain ⟨rfl, rfl, rfl⟩ := append_pair_inj (axes.symm.trans axes')
      exact ⟨rfl, rows, single⟩

theorem exists_output_ofVec_iff (obtained : Obtained s) (x : Vec α n) (u : Vec α m) :
    (∃ y : Vec α s.outputs, s.outputOf (.ofVec x) (.ofVec u) = .ok (.ofVec y)) ↔
      ∀ C ∈ s.output?, ∀ D ∈ s.feedthrough?, D.shape = [s.outputs, m] ∨ D.shape = [1, m] := by
  obtain missing | ⟨C, D, lead, r, k, given, through, axes⟩ := obtained.cases
  · refine iff_of_true (exists_outputOf missing) ?_
    rintro C given D through
    exact (not_missing given through missing).elim
  -- Whether the output is a vector only depends on its shape.
  · have vector : (∃ y : Vec α s.outputs, s.outputOf (.ofVec x) (.ofVec u) = .ok (.ofVec y)) ↔
        ∃ y, s.outputOf (.ofVec x) (.ofVec u) = .ok y ∧ y.shape = [s.outputs] := by
      constructor
      · rintro ⟨y, shown⟩
        exact ⟨_, shown, rfl⟩
      · rintro ⟨y, shown, shape⟩
        obtain ⟨v, rfl⟩ := Tensor.eq_ofVec_of_shape shape
        exact ⟨v, shown⟩
    rw [vector, outputOf_shape_iff given through axes]
    constructor
    · rintro ⟨rfl, length, common, shape⟩ C - E through'
      obtain rfl : D = E := Option.some.inj (through.symm.trans through')
      obtain ⟨rfl, last⟩ := List.append_inj' (show [] ++ [s.outputs] = lead ++ [length] from shape) rfl
      obtain rfl : s.outputs = length := List.singleton_inj.mp last
      rw [axes]
      rcases commonLength?_eq_left_iff.mp common with rfl | rfl
      · exact .inl rfl
      · exact .inr rfl
    · intro fits
      have two : ∃ r', D.shape = [r', m] ∧ (r' = s.outputs ∨ r' = 1) := by
        rcases fits _ given D through with same | single
        · exact ⟨_, same, .inl rfl⟩
        · exact ⟨_, single, .inr rfl⟩
      obtain ⟨r', axes', rows⟩ := two
      obtain ⟨rfl, rfl, rfl⟩ := append_pair_inj (show lead ++ [r, k] = [] ++ [r', m] from axes.symm.trans axes')
      exact ⟨rfl, s.outputs, commonLength?_eq_left_iff.mpr rows, rfl⟩

end

/-- A system that can be made moves from states to states, by itself and under every feedback of the right
size, and is simulated over any number of inputs unless it has none in a step. Its output has the right
number of entries exactly if the feedthrough matrix fits. -/
theorem sizes_of_obtained {s : LinearSystem α n m} (obtained : Obtained s) :
    (∀ D ∈ s.feedthrough?, ∃ r rest, D.shape = r :: m :: rest) ∧
    (∀ K : Mat α m n, ∃ closed, s.prestabilized (.array (.ofMat K)) = .ok closed ∧ Obtained closed ∧
      closed.outputs = s.outputs ∧ (closed.FeedthroughFits ↔ s.FeedthroughFits)) ∧
    ∀ (x : Vec α n) (u : Vec α m),
      (∃ x' : Vec α n, s.nextOf (.ofVec x) (.ofVec u) = .ok (.ofVec x')) ∧
      (∀ (N : Nat) (inputs : Tensor α), inputs.size = N * m →
        if m = 0 then s.simulate (.ofVec x) inputs = .error .incompatibleShapes
        else ∃ states, s.simulate (.ofVec x) inputs = .ok states ∧ states.length = N + 1) ∧
      ((∃ y, s.outputOf (.ofVec x) (.ofVec u) = .ok y ∧ y.size = s.outputs) ↔ s.FeedthroughFits) ∧
      ((∃ y : Vec α s.outputs, s.outputOf (.ofVec x) (.ofVec u) = .ok (.ofVec y)) ↔
        ∀ C ∈ s.output?, ∀ D ∈ s.feedthrough?, D.shape = [s.outputs, m] ∨ D.shape = [1, m]) := by
  refine ⟨obtained.feedthrough, fun K => ?_, fun x u => ⟨⟨_, s.nextOf_ofVec x u⟩, fun N inputs size => ?_,
    exists_output_of_size_iff obtained x u, exists_output_ofVec_iff obtained x u⟩⟩
  · have made := s.prestabilized_ofMat K
    exact ⟨_, made, obtained.prestabilized made, rfl, Iff.rfl⟩
  · split
    · next none =>
      -- Inputs without entries cannot be counted.
      subst none
      rfl
    · next width => exact s.exists_simulate_of_size x size width

/-- A system with one state and two outputs, to which the input is added with different weights, under a
feedback. -/
theorem sizes_of_obtained_twoOutputs :
    let A : Mat ℝ 1 1 := Mat.ofFn fun _ _ => 2
    let B : Mat ℝ 1 1 := Mat.ofFn fun _ _ => 1
    let C : Mat ℝ 2 1 := Mat.ofFn fun i _ => i.val
    let D : Mat ℝ 2 1 := Mat.ofFn fun i _ => 1 + i.val
    let s : LinearSystem ℝ 1 1 := ⟨A, B, some ⟨2, C⟩, some (.ofMat D), 1⟩
    ofArguments (.array (.ofMat A)) (.array (.ofMat B)) (.array (.ofMat C)) (.array (.ofMat D)) 1 =
        .ok { system := s } ∧
      Obtained (s.closedLoop B) ∧ (s.closedLoop B).outputs = 2 ∧
      ∀ (x : Vec ℝ 1) (u : Vec ℝ 1) (inputs : Mat ℝ 3 1),
        (∃ y : Vec ℝ 2, (s.closedLoop B).outputOf (.ofVec x) (.ofVec u) = .ok (.ofVec y)) ∧
        ∃ states, (s.closedLoop B).simulate (.ofVec x) (.ofMat inputs) = .ok states ∧ states.length = 4 := by
  intro A B C D s
  have built : ofArguments (.array (.ofMat A)) (.array (.ofMat B)) (.array (.ofMat C))
      (.array (.ofMat D)) 1 = .ok { system := s } := rfl
  have obtained : Obtained (s.closedLoop B) :=
    (Obtained.constructed built).prestabilized (s.prestabilized_ofMat B)
  obtain ⟨-, -, sizes⟩ := sizes_of_obtained obtained
  refine ⟨built, obtained, rfl, fun x u inputs => ?_⟩
  obtain ⟨-, simulated, -, shown⟩ := sizes x u
  refine ⟨shown.mpr ?_, simulated 3 (.ofMat inputs) rfl⟩
  rintro C - D ⟨⟩
  exact .inl rfl

end LinearSystem

end RecedingHorizon
