import RecedingHorizon.Proofs.Blocks.Tiling

/-!
# Blocks by number

A block is looked up in the table of offsets, and so a number below zero counts from the end of this table,
which has one entry more than there are blocks (`Partition.target`). Every pair of numbers has one of three
outcomes: it addresses a block, it is refused with the data as before, or it stands for no places at all, so
that nothing is read and what is written is lost (`index_outcomes_of_positive`). By convention a number
below zero would count from the last block; this is kept by numbers that are not negative or that are
refused, and by no others.
-/

namespace RecedingHorizon

namespace Partition

variable {sizes : List Int} {count n p : Nat} {i : Int}

/-- What an index leads to. -/
inductive Target where
  | block (p : Nat)
  /-- The range from the end of the axis back to its beginning, which has no places. -/
  | gap
  | outside

/-- Where an index leads among so many blocks. A negative one counts from the end of the table of offsets,
which has one entry more than there are blocks. -/
def target (count : Nat) (i : Int) : Target :=
  if 0 ≤ i then if i < count then .block i.toNat else .outside
  else if i = -1 then .gap
  else if -(count + 1 : Int) ≤ i then .block (i + (count + 1)).toNat else .outside

/-- The block that an index names by convention: a negative one counts from the last block. -/
def ByConvention (count : Nat) (i : Int) (p : Nat) : Prop :=
  -(count : Int) ≤ i ∧ i < count ∧ (p : Int) = i % count

theorem length_offsetsFrom (first : Int) (sizes : List Int) :
    (offsetsFrom first sizes).length = sizes.length + 1 := by
  induction sizes generalizing first with
  | nil => rfl
  | cons size rest ih => rw [offsetsFrom, List.length_cons, ih, List.length_cons]

theorem entry?_of_nonneg {table : List Int} (nonneg : 0 ≤ i) : entry? table i = table[i.toNat]? :=
  if_pos nonneg

theorem entry?_of_neg {table : List Int} (negative : i < 0) (inside : -(table.length : Int) ≤ i) :
    entry? table i = table[(i + table.length).toNat]? :=
  (if_neg (Int.not_le.mpr negative)).trans (if_pos inside)

theorem entry?_eq_none {table : List Int} (outside : i < -(table.length : Int) ∨ table.length ≤ i) :
    entry? table i = none := by
  unfold entry?
  split
  · exact List.getElem?_eq_none (by omega)
  · exact if_neg (by omega)

theorem length_offsets (sizes : List Int) : (offsets sizes).length = sizes.length + 1 :=
  length_offsetsFrom 0 sizes

theorem target_eq_outside_iff :
    target count i = .outside ↔ i < -(count + 1 : Int) ∨ (count : Int) ≤ i := by
  unfold target
  split_ifs <;> simp only [false_iff, true_iff, not_or] <;> omega

theorem target_of_nonneg (nonneg : 0 ≤ i) (inside : i < count) : target count i = .block i.toNat := by
  rw [target, if_pos nonneg, if_pos inside]

/-- A negative number leads to the block after the one that it names by convention. -/
theorem succ_of_byConvention {p' : Nat} (leads : target count i = .block p) (negative : i < 0)
    (named : ByConvention count i p') : p = p' + 1 := by
  obtain ⟨below, -, same⟩ := named
  rw [← Int.add_emod_right, Int.emod_eq_of_lt (by omega) (by omega)] at same
  unfold target at leads
  split_ifs at leads <;> cases leads <;> omega

theorem byConvention_of_nonneg (nonneg : 0 ≤ i) (inside : i < count) : ByConvention count i i.toNat :=
  ⟨by omega, inside, by rw [Int.emod_eq_of_lt nonneg inside, Int.toNat_of_nonneg nonneg]⟩

theorem lt_of_target (leads : target count i = .block p) : p < count := by
  unfold target at leads
  split_ifs at leads <;> cases leads <;> omega

theorem ends_eq_error_of_outside (outside : target sizes.length i = .outside) :
    ends sizes i = .error .outOfRange := by
  unfold ends
  rcases target_eq_outside_iff.mp outside with below | above
  · rw [entry?_eq_none (i := i) (.inl (by rw [length_offsets]; omega))]
  · rw [entry?_eq_none (i := i + 1) (.inr (by rw [length_offsets]; omega))]
    split
    · next absent => cases absent
    · rfl

theorem ends_of_target (leads : target sizes.length i = .block p) : ends sizes i = ends sizes p := by
  have table := length_offsets sizes
  unfold target at leads
  split_ifs at leads with nonneg inside last within <;> cases leads
  · rw [Int.toNat_of_nonneg nonneg]
  · have place : (i + (sizes.length + 1)).toNat = (i + (offsets sizes).length).toNat := by omega
    have next : (i + 1 + (offsets sizes).length).toNat =
        ((i + (sizes.length + 1)).toNat + 1 : Int).toNat := by omega
    rw [ends, ends, entry?_of_neg (by omega) (by omega), entry?_of_neg (by omega) (by omega),
      entry?_of_nonneg (by omega), entry?_of_nonneg (by omega), next, Int.toNat_natCast, place]

theorem ends_gap (sizes : List Int) : ends sizes (-1) = .ok (start sizes sizes.length, start sizes 0) := by
  have last : entry? (offsets sizes) (-1) = some (start sizes sizes.length) := by
    have place : (-1 + (offsets sizes).length : Int).toNat = sizes.length := by
      rw [length_offsets]
      omega
    rw [entry?_of_neg (by omega) (by rw [length_offsets]; omega), place, offsets,
      getElem?_offsetsFrom 0 le_rfl, zero_add]
  have first : entry? (offsets sizes) (-1 + 1) = some (start sizes 0) := by
    rw [entry?_of_nonneg (by omega)]
    exact (getElem?_offsetsFrom 0 (Nat.zero_le _)).trans (congrArg some (zero_add _))
  rw [ends, last, first]

/-- The range of a block number that leads to a block is the one of this block. -/
theorem spanOf_of_target {α : Type} (leads : target sizes.length i = .block p) (n : Nat) :
    BlockMatrix.spanOf n sizes (.whole i : Argument α) =
      BlockMatrix.spanOf n sizes (.whole p : Argument α) := by
  simp only [BlockMatrix.spanOf, Argument.toIndex, bind, Except.bind, ends_of_target leads]

theorem spanOf_eq_error_of_outside {α : Type} (outside : target sizes.length i = .outside) (n : Nat) :
    BlockMatrix.spanOf n sizes (.whole i : Argument α) = .error .outOfRange := by
  simp only [BlockMatrix.spanOf, Argument.toIndex, bind, Except.bind, ends_eq_error_of_outside outside]

theorem eq_outOfRange_of_spanOf {α : Type} {fault : Fault}
    (failed : BlockMatrix.spanOf n sizes (.whole i : Argument α) = .error fault) :
    fault = .outOfRange := by
  simp only [BlockMatrix.spanOf, Argument.toIndex, bind, Except.bind, ends] at failed
  split at failed
  · next found =>
    split at found <;> cases found
    cases failed
    rfl
  · cases failed

theorem spanOf_gap {α : Type} (cuts : Cuts sizes n) :
    ∃ span, BlockMatrix.spanOf n sizes (.whole (-1) : Argument α) = .ok span ∧ span.length = 0 := by
  have clipped : (Span.clip n n 0).length = 0 := by simp [Span.clip, Span.bound]
  refine ⟨Span.clip n n 0, ?_, clipped⟩
  simp only [BlockMatrix.spanOf, Argument.toIndex, bind, Except.bind, ends_gap, start_zero, start_length,
    cuts.total_eq, pure, Except.pure]

theorem Cuts.contains_start (cuts : Cuts sizes n) (inside : p < sizes.length)
    (positive : ∀ size ∈ sizes, 0 < size) : Contains sizes p (start sizes p).toNat := by
  have first := cuts.start_nonneg p
  have size := positive _ (List.getElem_mem inside)
  rw [Contains, start_succ inside]
  omega

theorem toNat_getD_pos (inside : p < sizes.length) (positive : ∀ size ∈ sizes, 0 < size) :
    0 < (sizes.getD p 0).toNat := by
  have size := positive _ (List.getElem_mem inside)
  rw [List.getD_eq_getElem _ _ inside]
  omega

theorem Cuts.lt_of_contains (cuts : Cuts sizes n) {a : Nat} (contains : Contains sizes p a) : a < n := by
  have last := cuts.start_le (p + 1)
  have before := contains.2
  omega

theorem Cuts.eq_of_contains (cuts : Cuts sizes n) {p' a : Nat} (inside : p < sizes.length)
    (inside' : p' < sizes.length) (contains : Contains sizes p a) (contains' : Contains sizes p' a) :
    p = p' :=
  (cuts.existsUnique_contains (cuts.lt_of_contains contains)).unique ⟨inside, contains⟩
    ⟨inside', contains'⟩

theorem exists_spanOf {α : Type} (cuts : Cuts sizes n) (inside : target sizes.length i ≠ .outside) :
    ∃ span, BlockMatrix.spanOf n sizes (.whole i : Argument α) = .ok span ∧
      (target sizes.length i = .gap → span.length = 0) := by
  cases leads : target sizes.length i with
  | outside => exact absurd leads inside
  | gap =>
    obtain rfl : i = -1 := by
      unfold target at leads
      split_ifs at leads
      assumption
    obtain ⟨span, found, empty⟩ := spanOf_gap (α := α) cuts
    exact ⟨span, found, fun _ => empty⟩
  | block p =>
    refine ⟨cuts.span (lt_of_target leads), ?_, fun other => by cases other⟩
    rw [spanOf_of_target leads, cuts.spanOf_eq (lt_of_target leads)]

end Partition

/-- A range without places has none that a place of the axis is. -/
theorem Span.position?_of_empty {n : Nat} {s : Span n} (empty : s.length = 0) (a : Fin n) :
    s.position? a = none := dif_neg (by omega)

/-- A shape with a place in it has a positive size. -/
theorem foldr_ne_zero_of_forall₂ {position shape : List Nat}
    (within : List.Forall₂ (· < ·) position shape) : shape.foldr (· * ·) 1 ≠ 0 := by
  induction within with
  | nil => exact one_ne_zero
  | cons inside _ ih => exact Nat.mul_ne_zero (by omega) ih

namespace BlockMatrix

open RecedingHorizon.Partition

variable {α : Type}

/-- Every block was given a positive size. -/
def SizesPositive (M : BlockMatrix α) : Prop :=
  (∀ size ∈ M.rows, 0 < size) ∧ ∀ columns ∈ M.columns?, ∀ size ∈ columns, 0 < size

/-- The numbers that two arguments are. A vector takes one number; its only column may stand beside it. -/
def Numbered : BlockMatrix α → (row column : Argument α) → (i j : Int) → Prop
  | vector _ _, row, column, i, j => row = .whole i ∧ j = 0 ∧ (column = .nothing ∨ column = .whole 0)
  | matrix _ _ _, row, column, i, j => row = .whole i ∧ column = .whole j

/-- The matrix after an attempt to overwrite a block. One that fails leaves it as it is. -/
def overwritten [Scalar α] (M : BlockMatrix α) (row column value : Argument α) : BlockMatrix α :=
  match M.writeBlock row column value with
  | .ok M' => M'
  | .error _ => M

/-- Reading and writing fails with a fault of an index, and the data stay as they are. -/
structure Refuses [Scalar α] (M : BlockMatrix α) (row column : Argument α) : Prop where
  read : ∃ fault, M.block row column = .error fault ∧ fault.kind = .index
  write (value : Argument α) :
    (∃ fault, M.writeBlock row column value = .error fault ∧ fault.kind = .index) ∧
      M.overwritten row column value = M

/-- What is read has no entries. A value that can be repeated to no entries is accepted, but whatever is
written, the data stay as they are. -/
structure Loses [Scalar α] (M : BlockMatrix α) (row column : Argument α) : Prop where
  read : ∃ B, M.block row column = .ok B ∧ B.size = 0 ∧
    ∀ value v, value.toTensor = .ok v → FitsPlace v.shape B.shape →
      M.writeBlock row column value = .ok M
  write (value : Argument α) : M.overwritten row column value = M

/-- Block `(p, q)` is what is read, and what is overwritten by a value that fits it; nothing else is
written. -/
structure Addresses [Scalar α] (M : BlockMatrix α) (row column : Argument α) (p q : Nat) : Prop where
  inside : p < M.rows.length ∧ q < M.columnCount
  read : ∃ B, M.block row column = .ok B ∧ B.shape = M.blockSizes p q ∧
    ∀ position, List.Forall₂ (· < ·) position B.shape →
      B.read position = M.toTensor.read (M.place p q position)
  write (value : Argument α) (v : Tensor α) : value.toTensor = .ok v →
    FitsPlace v.shape (M.blockSizes p q) → ∃ M', M.writeBlock row column value = .ok M'
  written (value : Argument α) (M' : BlockMatrix α) : M.writeBlock row column value = .ok M' →
    ∃ v, value.toTensor = .ok v ∧ M.IsWritten row column p q v M'

section

variable [Scalar α] {M : BlockMatrix α} {row column row' column' : Argument α} {i j : Int} {p q : Nat}

omit [Scalar α] in
theorem blockSizes_eq (M : BlockMatrix α) (p q : Nat) :
    M.blockSizes p q = (M.givenSizes p q).map Int.toNat := by
  cases M <;> rfl

theorem addresses_of_names (cut : M.IsCut) (named : M.Names row column p q) :
    M.Addresses row column p q := by
  obtain ⟨blocks, tiled⟩ := exists_isTiledBy cut
  have inside : p < M.rows.length ∧ q < M.columnCount := by
    cases M with
    | vector data rows => exact ⟨named.1, named.2.1 ▸ Nat.one_pos⟩
    | matrix data rows columns => exact ⟨named.1, named.2.1⟩
  refine ⟨inside, ⟨blocks p q, tiled.block _ _ _ _ named, ?_, fun position within => ?_⟩,
    fun value v given fits => ?_, fun value M' written => isWritten_of_writeBlock cut named written⟩
  · rw [blockSizes_eq, ← tiled.shape p q inside.1 inside.2, List.map_map]
    exact (List.map_id _).symm
  · exact tiled.read p q position inside.1 inside.2 within
  · obtain ⟨M', written, -⟩ := exists_writeBlock cut named given fits
    exact ⟨M', written⟩

/-- Two pairs of arguments stand for the same places, whatever the data are. -/
def SamePlaces (M : BlockMatrix α) (row column row' column' : Argument α) : Prop :=
  ∀ M' : BlockMatrix α, M'.rows = M.rows → M'.columns? = M.columns? →
    M'.block row column = M'.block row' column' ∧
    ∀ value, M'.writeBlock row column value = M'.writeBlock row' column' value

/-- Arguments of a vector with the same places for every length stand for the same places. -/
theorem samePlaces_vector {n : Nat} {data : Vec α n} {rows : List Int}
    (spans : ∀ n, vectorSpan n rows row column = vectorSpan n rows row' column') :
    (vector data rows).SamePlaces row column row' column' := by
  intro M' sameRows sameColumns
  cases M' with
  | matrix => cases sameColumns
  | vector data' rows' =>
    obtain rfl : rows' = rows := sameRows
    have reads : (vector data' rows').block row column = (vector data' rows').block row' column' := by
      simp only [block, spans]
    refine ⟨reads, fun value => ?_⟩
    rw [writeBlock, writeBlock, reads]
    simp only [setBlock, spans]

/-- The same of a matrix. -/
theorem samePlaces_matrix {m n : Nat} {data : Mat α m n} {rows columns : List Int}
    (spans : ∀ m n, matrixSpans m n rows columns row column = matrixSpans m n rows columns row' column') :
    (matrix data rows columns).SamePlaces row column row' column' := by
  intro M' sameRows sameColumns
  cases M' with
  | vector => cases sameColumns
  | matrix data' rows' columns' =>
    obtain rfl : rows' = rows := sameRows
    obtain rfl : columns' = columns := Option.some.inj sameColumns
    have reads : (matrix data' rows' columns').block row column =
        (matrix data' rows' columns').block row' column' := by
      simp only [block, spans]
    refine ⟨reads, fun value => ?_⟩
    rw [writeBlock, writeBlock, reads]
    simp only [setBlock, spans]

/-- Numbers that lead to a block stand for the same places as the position of that block. -/
theorem exists_names_of_target (numbered : M.Numbered row column i j)
    (down : target M.rows.length i = .block p) (across : target M.columnCount j = .block q) :
    ∃ row' column', M.Names row' column' p q ∧ M.SamePlaces row column row' column' := by
  cases M with
  | vector data rows =>
    obtain ⟨rfl, rfl, only⟩ := numbered
    -- A vector has one column of blocks, so the second number can only lead to the first of them.
    obtain rfl : 0 = q := Target.block.inj across
    refine ⟨.whole p, column, ⟨lt_of_target down, rfl, rfl, only⟩, samePlaces_vector fun n => ?_⟩
    replace down : target rows.length i = .block p := down
    rw [vectorSpan, vectorSpan, spanOf_of_target down]
  | matrix data rows columns =>
    obtain ⟨rfl, rfl⟩ := numbered
    refine ⟨.whole p, .whole q, ⟨lt_of_target down, lt_of_target across, rfl, rfl⟩,
      samePlaces_matrix fun m n => ?_⟩
    replace down : target rows.length i = .block p := down
    replace across : target columns.length j = .block q := across
    rw [matrixSpans, matrixSpans, spanOf_of_target down, spanOf_of_target across]
    rfl

theorem Addresses.congr (named : M.Addresses row' column' p q)
    (same : M.SamePlaces row column row' column') : M.Addresses row column p q := by
  obtain ⟨reads, writes⟩ := same M rfl rfl
  refine ⟨named.inside, ?_, fun value v given fits => ?_, fun value M' written => ?_⟩
  · rw [reads]
    exact named.read
  · rw [writes]
    exact named.write value v given fits
  · rw [writes] at written
    obtain ⟨v, given, result⟩ := named.written value M' written
    refine ⟨v, given, result.rows, result.columns, result.shape, ?_, result.outside⟩
    rw [(same M' result.rows result.columns).1]
    exact result.block

/-- Numbers that lead to a block address it. -/
theorem addresses_of_target (cut : M.IsCut) (numbered : M.Numbered row column i j)
    (down : target M.rows.length i = .block p) (across : target M.columnCount j = .block q) :
    M.Addresses row column p q := by
  obtain ⟨row', column', named, same⟩ := exists_names_of_target numbered down across
  exact (addresses_of_names cut named).congr same

theorem refuses_of_block (fault : Fault) (index : fault.kind = .index)
    (unread : M.block row column = .error fault) : M.Refuses row column := by
  refine ⟨⟨fault, unread, index⟩, fun value => ?_⟩
  have unwritten : M.writeBlock row column value = .error fault := by
    rw [writeBlock, unread]
    rfl
  exact ⟨⟨fault, unwritten, index⟩, by rw [overwritten, unwritten]⟩

/-- Nothing else is looked at if there is no range of rows. -/
theorem refuses_vector_of_spanOf {n : Nat} {data : Vec α n} {rows : List Int} {fault : Fault}
    (index : fault.kind = .index) (absent : spanOf n rows row = .error fault) :
    (vector data rows).Refuses row column := by
  refine refuses_of_block fault index ?_
  simp only [block, vectorSpan, absent, bind, Except.bind]

theorem refuses_matrix_of_spanOf {m n : Nat} {data : Mat α m n} {rows columns : List Int} {fault : Fault}
    (index : fault.kind = .index) (absent : spanOf m rows row = .error fault) :
    (matrix data rows columns).Refuses row column := by
  refine refuses_of_block fault index ?_
  simp only [block, matrixSpans, absent, bind, Except.bind]

theorem overwritten_eq_self {value : Argument α}
    (unchanged : ∀ M', M.writeBlock row column value = .ok M' → M' = M) :
    M.overwritten row column value = M := by
  unfold overwritten
  split
  · next M' written => exact unchanged M' written
  · rfl

/-- A number that leads outside is refused, along whichever axis. -/
theorem refuses_of_outside (numbered : M.Numbered row column i j)
    (outside : target M.rows.length i = .outside ∨ target M.columnCount j = .outside) :
    M.Refuses row column := by
  cases M with
  | @vector n data rows =>
    obtain ⟨rfl, rfl, only⟩ := numbered
    rcases outside with above | beside
    · exact refuses_vector_of_spanOf rfl (spanOf_eq_error_of_outside above n)
    · cases beside
  | @matrix m n data rows columns =>
    obtain ⟨rfl, rfl⟩ := numbered
    -- The first number is looked at first, so that its fault comes before one of the second number.
    cases down : spanOf m rows (.whole i : Argument α) with
    | error fault =>
      cases eq_outOfRange_of_spanOf down
      exact refuses_matrix_of_spanOf rfl down
    | ok span =>
      rcases outside with above | beside
      · cases down.symm.trans (spanOf_eq_error_of_outside above m)
      · have across : spanOf n columns (.whole j : Argument α) = .error .outOfRange :=
          spanOf_eq_error_of_outside beside n
        refine refuses_of_block .outOfRange rfl ?_
        simp only [block, matrixSpans, down, across, bind, Except.bind, Argument.isGiven, Bool.not_true,
          Bool.false_eq_true, if_false]

theorem isFirstColumn_whole (other : j ≠ 0) : isFirstColumn (.whole j : Argument α) = false := by
  unfold isFirstColumn
  split
  · next absent => cases absent
  · next only => exact absurd (Argument.whole.inj only) other
  · next absent => cases absent
  · next absent => cases absent
  · rfl

/-- Numbers that a block cannot have are refused: one of a second column of a vector, or no column of a
matrix. -/
theorem refuses_of_not_numbered (column_whole : column = .nothing ∨ ∃ j, column = .whole j)
    (unnumbered : ∀ j, ¬M.Numbered (.whole i) column i j) : M.Refuses (.whole i) column := by
  cases M with
  | @vector n data rows =>
    have other : isFirstColumn column = false := by
      rcases column_whole with rfl | ⟨j, rfl⟩
      · exact absurd ⟨rfl, rfl, .inl rfl⟩ (unnumbered 0)
      · exact isFirstColumn_whole fun only => unnumbered 0 ⟨rfl, rfl, .inr (only ▸ rfl)⟩
    -- The first number is looked at before the second one, so that its fault may come first.
    cases span : spanOf n rows (.whole i : Argument α) with
    | error fault =>
      cases eq_outOfRange_of_spanOf span
      exact refuses_vector_of_spanOf rfl span
    | ok span' =>
      refine refuses_of_block .columnBlockOfVector rfl ?_
      simp only [block, vectorSpan, span, other, bind, Except.bind, Bool.false_eq_true, if_false]
      rfl
  | @matrix m n data rows columns =>
    -- Any two numbers belong to a block of a matrix, so the second one is missing.
    have missing : column = .nothing := by
      rcases column_whole with rfl | ⟨j, rfl⟩
      · rfl
      · exact absurd ⟨rfl, rfl⟩ (unnumbered j)
    subst missing
    cases down : spanOf m rows (.whole i : Argument α) with
    | error fault =>
      cases eq_outOfRange_of_spanOf down
      exact refuses_matrix_of_spanOf rfl down
    | ok span =>
      refine refuses_of_block .columnBlockMissing rfl ?_
      simp only [block, matrixSpans, down, bind, Except.bind, Argument.isGiven, Bool.not_false, if_true]
      rfl

/-- Without places nothing is written into a vector. -/
theorem eq_of_setBlock_vector {n : Nat} {data : Vec α n} {rows : List Int} {span : Span n}
    (spans : vectorSpan n rows row column = .ok span) (empty : span.length = 0) {v : Tensor α}
    (written : (vector data rows).setBlock row column v = .ok M) : M = vector data rows := by
  obtain ⟨span', x, found, -, rfl⟩ := setBlock_vector_eq_ok written
  cases spans.symm.trans found
  refine congrArg (fun data => vector data rows) (Vec.ext fun a => ?_)
  rw [replacedPart_get, Span.position?_of_empty empty]

/-- Nor into a matrix, if there are no places along one of its axes. -/
theorem eq_of_setBlock_matrix {m n : Nat} {data : Mat α m n} {rows columns : List Int} {down : Span m}
    {across : Span n} (spans : matrixSpans m n rows columns row column = .ok (down, across))
    (empty : down.length = 0 ∨ across.length = 0) {v : Tensor α}
    (written : (matrix data rows columns).setBlock row column v = .ok M) :
    M = matrix data rows columns := by
  obtain ⟨down', across', X, found, -, rfl⟩ := setBlock_matrix_eq_ok written
  cases spans.symm.trans found
  refine congrArg (fun data => matrix data rows columns) (Mat.ext fun a b => ?_)
  -- An entry is only replaced if it has a position along both axes.
  rw [replaced_entry]
  rcases empty with above | beside
  · rw [Span.position?_of_empty above]
  · rw [Span.position?_of_empty beside]
    split
    · next absent => cases absent
    · rfl

/-- A vector without places for a block loses what is written into it, although every value that can be
repeated to none is accepted. -/
theorem loses_of_vectorSpan {n : Nat} {data : Vec α n} {rows : List Int} {span : Span n}
    (spans : vectorSpan n rows row column = .ok span) (empty : span.length = 0) :
    (vector data rows).Loses row column := by
  have reads : (vector data rows).block row column =
      .ok (.ofVec (Vec.ofFn fun k => data (span.place k))) := by
    simp only [block, spans, bind, Except.bind, pure, Except.pure]
  have unchanged (value : Argument α) (M' : BlockMatrix α)
      (written : (vector data rows).writeBlock row column value = .ok M') : M' = vector data rows := by
    obtain ⟨v, -, written⟩ := exists_setBlock_of_writeBlock written
    exact eq_of_setBlock_vector spans empty written
  refine ⟨⟨_, reads, ?_, fun value v given fits => ?_⟩,
    fun value => overwritten_eq_self (unchanged value)⟩
  · simp [Tensor.size, empty]
  -- A value that can be repeated to no places is accepted and, by `unchanged`, has no effect.
  · obtain ⟨u, fitted, shaped, -⟩ := Tensor.fitTo_of_fits fits
    obtain ⟨x, rfl⟩ : ∃ x : Vec α span.length, u = .ofVec x := Tensor.eq_ofVec_of_shape shaped
    have accepted : ∃ M', (vector data rows).writeBlock row column value = .ok M' := by
      simp only [Tensor.shape_ofVec] at fitted
      simp only [writeBlock, reads, EntryType.read_scalar, given, setBlock, spans, fitted,
        Tensor.toVec?_ofVec, bind, Except.bind, pure, Except.pure]
      exact ⟨_, rfl⟩
    obtain ⟨M', written⟩ := accepted
    rw [written, unchanged value M' written]

/-- The same of a matrix, if there are no places along one of its axes. -/
theorem loses_of_matrixSpans {m n : Nat} {data : Mat α m n} {rows columns : List Int} {down : Span m}
    {across : Span n} (spans : matrixSpans m n rows columns row column = .ok (down, across))
    (empty : down.length = 0 ∨ across.length = 0) : (matrix data rows columns).Loses row column := by
  have reads : (matrix data rows columns).block row column =
      .ok (.ofMat (Mat.ofFn fun k l => data (down.place k) (across.place l))) := by
    simp only [block, spans, bind, Except.bind, pure, Except.pure]
  have unchanged (value : Argument α) (M' : BlockMatrix α)
      (written : (matrix data rows columns).writeBlock row column value = .ok M') :
      M' = matrix data rows columns := by
    obtain ⟨v, -, written⟩ := exists_setBlock_of_writeBlock written
    exact eq_of_setBlock_matrix spans empty written
  refine ⟨⟨_, reads, ?_, fun value v given fits => ?_⟩,
    fun value => overwritten_eq_self (unchanged value)⟩
  · rcases empty with above | beside
    · simp [Tensor.size, above]
    · simp [Tensor.size, beside]
  · obtain ⟨u, fitted, shaped, -⟩ := Tensor.fitTo_of_fits fits
    obtain ⟨X, rfl⟩ : ∃ X : Mat α down.length across.length, u = .ofMat X :=
      Tensor.eq_ofMat_of_shape shaped
    have accepted : ∃ M', (matrix data rows columns).writeBlock row column value = .ok M' := by
      simp only [Tensor.shape_ofMat] at fitted
      simp only [writeBlock, reads, EntryType.read_scalar, given, setBlock, spans, fitted,
        Tensor.toMat?_ofMat, bind, Except.bind, pure, Except.pure]
      exact ⟨_, rfl⟩
    obtain ⟨M', written⟩ := accepted
    rw [written, unchanged value M' written]

theorem loses_of_gap (cut : M.IsCut) (numbered : M.Numbered row column i j)
    (down : target M.rows.length i ≠ .outside) (across : target M.columnCount j ≠ .outside)
    (gap : target M.rows.length i = .gap ∨ target M.columnCount j = .gap) : M.Loses row column := by
  cases M with
  | @vector n data rows =>
    obtain ⟨rfl, rfl, only⟩ := numbered
    have cuts : Cuts rows n := cut
    have only : isFirstColumn column = true := by
      rcases only with rfl | rfl <;> rfl
    obtain ⟨span, found, empty⟩ := exists_spanOf (α := α) cuts down
    have last : target rows.length i = .gap := by
      rcases gap with above | beside
      · exact above
      · cases beside
    have spans : vectorSpan n rows (.whole i) column = .ok span := by
      simp only [vectorSpan, found, only, bind, Except.bind, pure, Except.pure, if_true]
    exact loses_of_vectorSpan spans (empty last)
  | @matrix m n data rows columns =>
    obtain ⟨rfl, rfl⟩ := numbered
    obtain ⟨cutsDown, cutsAcross⟩ := cut
    obtain ⟨span, found, empty⟩ := exists_spanOf (α := α) cutsDown down
    obtain ⟨span', found', empty'⟩ := exists_spanOf (α := α) cutsAcross across
    have spans : matrixSpans m n rows columns (.whole i : Argument α) (.whole j) = .ok (span, span') := by
      simp only [matrixSpans, found, found', bind, Except.bind, pure, Except.pure, Argument.isGiven,
        Bool.not_true, Bool.false_eq_true, if_false]
    exact loses_of_matrixSpans spans (gap.imp empty empty')

omit [Scalar α] in
/-- Every block has a place, which belongs to no other block. -/
theorem exists_own_place (cut : M.IsCut) (positive : M.SizesPositive)
    (inside : p < M.rows.length ∧ q < M.columnCount) :
    ∃ position, List.Forall₂ (· < ·) position (M.blockSizes p q) ∧
      List.Forall₂ (· < ·) (M.place p q position) M.shape ∧
      ∀ p' q', p' < M.rows.length → q' < M.columnCount → M.Covers p' q' (M.place p q position) →
        p = p' ∧ q = q' := by
  -- The first place of a block with a positive size belongs to no other block.
  cases M with
  | @vector n data rows =>
    obtain ⟨row, single⟩ := inside
    replace row : p < rows.length := row
    obtain rfl : q = 0 := Nat.lt_one_iff.mp single
    have cuts : Cuts rows n := cut
    have own := cuts.contains_start row positive.1
    have size : 0 < (rows.getD p 0).toNat := toNat_getD_pos row positive.1
    refine ⟨[0], .cons size .nil, .cons (cuts.lt_of_contains own) .nil,
      fun p' q' row' single' covers => ?_⟩
    exact ⟨cuts.eq_of_contains row row' own covers, (Nat.lt_one_iff.mp single').symm⟩
  | @matrix m n data rows columns =>
    obtain ⟨row, column⟩ := inside
    replace row : p < rows.length := row
    replace column : q < columns.length := column
    have down : Cuts rows m := cut.1
    have across : Cuts columns n := cut.2
    have above := down.contains_start row positive.1
    have beside := across.contains_start column (positive.2 columns rfl)
    have height : 0 < (rows.getD p 0).toNat := toNat_getD_pos row positive.1
    have width : 0 < (columns.getD q 0).toNat := toNat_getD_pos column (positive.2 columns rfl)
    refine ⟨[0, 0], .cons height (.cons width .nil),
      .cons (down.lt_of_contains above) (.cons (across.lt_of_contains beside) .nil),
      fun p' q' row' column' covers => ?_⟩
    exact ⟨down.eq_of_contains row row' above covers.1,
      across.eq_of_contains column column' beside covers.2⟩

omit [Scalar α] in
theorem place_eq {M' : BlockMatrix α} (rows : M'.rows = M.rows) (columns : M'.columns? = M.columns?)
    (p q : Nat) : M'.place p q = M.place p q := by
  cases M <;> cases M' <;> cases rows <;> cases columns <;> rfl

omit [Scalar α] in
theorem Numbered.congr {M' : BlockMatrix α} (columns : M'.columns? = M.columns?)
    (numbered : M.Numbered row column i j) : M'.Numbered row column i j := by
  cases M <;> cases M' <;> cases columns <;> exact numbered

/-- Numbers that lead to a block address no other one. -/
theorem eq_of_addresses [Nontrivial α] (cut : M.IsCut) (positive : M.SizesPositive)
    (numbered : M.Numbered row column i j) (down : target M.rows.length i = .block p)
    (across : target M.columnCount j = .block q) {p' q' : Nat} (other : M.Addresses row column p' q') :
    p = p' ∧ q = q' := by
  have named := addresses_of_target cut numbered down across
  obtain ⟨position, within, index, own⟩ := exists_own_place cut positive named.inside
  refine own p' q' other.inside.1 other.inside.2 ?_
  by_contra uncovered
  -- What is written into the block arrives at its place, which the other block does not have.
  obtain ⟨x, changed⟩ : ∃ x : α, M.toTensor.read (M.place p q position) ≠ some x := by
    cases M.toTensor.read (M.place p q position) with
    | none => exact ⟨Classical.arbitrary α, fun absent => by cases absent⟩
    | some y =>
      obtain ⟨x, differs⟩ := exists_ne y
      exact ⟨x, fun same => differs (Option.some.inj same).symm⟩
  obtain ⟨M', written⟩ := named.write (.array (.scalar x)) (.scalar x) rfl (.nil _)
  obtain ⟨v, given, result⟩ := named.written _ M' written
  cases given
  obtain ⟨v, given, result'⟩ := other.written _ M' written
  cases given
  obtain ⟨B, found, shape, reads⟩ := result.block
  have counted : M'.columnCount = M.columnCount := by rw [columnCount, columnCount, result.columns]
  obtain ⟨B', found', -, reads'⟩ := (addresses_of_target (cut.of_writeBlock written)
    (numbered.congr result.columns) (result.rows ▸ down) (counted ▸ across)).read
  obtain rfl : B = B' := Except.ok.inj (found.symm.trans found')
  rw [← shape] at within
  have arrived := (reads position within).symm.trans (reads' position within)
  rw [place_eq result.rows result.columns, result'.outside _ index uncovered] at arrived
  exact changed arrived.symm

/-- By convention, numbers address the block that they name or are refused. -/
def FollowsConvention (M : BlockMatrix α) (row column : Argument α) (i j : Int) : Prop :=
  M.Refuses row column ∨
    ∃ p q, ByConvention M.rows.length i p ∧ ByConvention M.columnCount j q ∧ M.Addresses row column p q

theorem not_refuses_of_read {B : Tensor α} (read : M.block row column = .ok B) :
    ¬M.Refuses row column := by
  rintro ⟨⟨fault, unread, -⟩, -⟩
  cases read.symm.trans unread

/-- A block has entries, so that numbers that stand for no places address none. -/
theorem not_addresses_of_loses (cut : M.IsCut) (positive : M.SizesPositive)
    (lost : M.Loses row column) : ¬M.Addresses row column p q := by
  intro named
  obtain ⟨position, within, -⟩ := exists_own_place cut positive named.inside
  obtain ⟨B, found, empty, -⟩ := lost.read
  obtain ⟨B', found', shape, -⟩ := named.read
  obtain rfl : B = B' := Except.ok.inj (found.symm.trans found')
  rw [← shape] at within
  exact foldr_ne_zero_of_forall₂ within empty

/-- The three outcomes of two numbers. -/
theorem outcome_of_numbered (cut : M.IsCut) (numbered : M.Numbered row column i j) :
    match target M.rows.length i, target M.columnCount j with
    | .block p, .block q => M.Addresses row column p q
    | .outside, _ | _, .outside => M.Refuses row column
    | .gap, _ | _, .gap => M.Loses row column := by
  cases down : target M.rows.length i with
  | outside => exact refuses_of_outside numbered (.inl down)
  | gap =>
    cases across : target M.columnCount j with
    | outside => exact refuses_of_outside numbered (.inr across)
    | gap => exact loses_of_gap cut numbered (by simp [down]) (by simp [across]) (.inl down)
    | block q => exact loses_of_gap cut numbered (by simp [down]) (by simp [across]) (.inl down)
  | block p =>
    cases across : target M.columnCount j with
    | outside => exact refuses_of_outside numbered (.inr across)
    | gap => exact loses_of_gap cut numbered (by simp [down]) (by simp [across]) (.inr across)
    | block q => exact addresses_of_target cut numbered down across

/-- Numbers that are not negative keep the convention. -/
theorem followsConvention_of_nonneg (cut : M.IsCut) (numbered : M.Numbered row column i j) (first : 0 ≤ i)
    (second : 0 ≤ j) : M.FollowsConvention row column i j := by
  by_cases inside : i < M.rows.length ∧ j < M.columnCount
  · refine .inr ⟨_, _, byConvention_of_nonneg first inside.1, byConvention_of_nonneg second inside.2, ?_⟩
    exact addresses_of_target cut numbered (target_of_nonneg first inside.1)
      (target_of_nonneg second inside.2)
  · refine .inl (refuses_of_outside numbered ?_)
    rw [target_eq_outside_iff, target_eq_outside_iff]
    omega

/-- A negative number breaks the convention, unless it or the other one is refused. -/
theorem not_followsConvention_of_neg [Nontrivial α] (cut : M.IsCut) (positive : M.SizesPositive)
    (numbered : M.Numbered row column i j) (negative : i < 0 ∨ j < 0)
    (down : target M.rows.length i ≠ .outside) (across : target M.columnCount j ≠ .outside) :
    ¬M.FollowsConvention row column i j := by
  intro follows
  by_cases gap : target M.rows.length i = .gap ∨ target M.columnCount j = .gap
  · have lost := loses_of_gap cut numbered down across gap
    obtain ⟨B, found, -⟩ := lost.read
    rcases follows with refused | ⟨p, q, -, -, named⟩
    · exact not_refuses_of_read found refused
    · exact not_addresses_of_loses cut positive lost named
  · obtain ⟨p, down⟩ : ∃ p, target M.rows.length i = .block p := by
      cases leads : target M.rows.length i <;> simp_all
    obtain ⟨q, across⟩ : ∃ q, target M.columnCount j = .block q := by
      cases leads : target M.columnCount j <;> simp_all
    have actual := addresses_of_target cut numbered down across
    rcases follows with refused | ⟨p', q', first, second, named⟩
    · obtain ⟨B, found, -⟩ := actual.read
      exact not_refuses_of_read found refused
    · -- Along an axis with a negative number, the block is the one after the block that is named.
      obtain ⟨sameRow, sameColumn⟩ := eq_of_addresses cut positive numbered down across named
      rcases negative with above | beside
      · have next := succ_of_byConvention down above first
        omega
      · have next := succ_of_byConvention across beside second
        omega

/-- The convention is kept by numbers that are not negative or that are refused, and by no others. -/
theorem followsConvention_iff [Nontrivial α] (cut : M.IsCut) (positive : M.SizesPositive)
    (numbered : M.Numbered row column i j) :
    M.FollowsConvention row column i j ↔ 0 ≤ i ∧ 0 ≤ j ∨
      target M.rows.length i = .outside ∨ target M.columnCount j = .outside := by
  constructor
  · intro follows
    by_contra kept
    push Not at kept
    obtain ⟨negative, down, across⟩ := kept
    refine not_followsConvention_of_neg cut positive numbered ?_ down across follows
    omega
  · rintro (⟨first, second⟩ | outside)
    · exact followsConvention_of_nonneg cut numbered first second
    · exact .inl (refuses_of_outside numbered outside)

end

/-- Among blocks of positive sizes, two numbers address the block that they lead to, or are refused, or stand
for no places. A negative number leads to the block after the one that it names by convention, or to none, so
that the convention is kept exactly if no number is negative or one is refused. A number of a second column
of a vector is refused, and so is a missing column of a matrix. -/
theorem index_outcomes_of_positive [Scalar α] {data : Tensor α} {rows : List Int}
    {columns? : Option (List Int)} {M : BlockMatrix α} (built : ofTensor data rows columns? = .ok M)
    (positive : M.SizesPositive) :
    (∀ row column i j, M.Numbered row column i j →
      match target M.rows.length i, target M.columnCount j with
      | .block p, .block q => M.Addresses row column p q
      | .outside, _ | _, .outside => M.Refuses row column
      | .gap, _ | _, .gap => M.Loses row column) ∧
    (∀ row column i j, Nontrivial α → M.Numbered row column i j →
      (M.FollowsConvention row column i j ↔ 0 ≤ i ∧ 0 ≤ j ∨
        (i < -(M.rows.length + 1 : Int) ∨ M.rows.length ≤ i) ∨
        (j < -(M.columnCount + 1 : Int) ∨ M.columnCount ≤ j))) ∧
    ∀ column i, column = .nothing ∨ (∃ j, column = .whole j) →
      (∀ j, ¬M.Numbered (.whole i) column i j) → M.Refuses (.whole i) column := by
  obtain ⟨-, -, sameRows, sameColumns⟩ := of_ofTensor built
  have cut : M.IsCut := by
    refine isCut_of_ofTensor built (fun size member => ?_) fun columns given size member => ?_
    · exact (positive.1 size (sameRows ▸ member)).le
    · obtain rfl : columns? = some columns := given
      exact (positive.2 columns sameColumns size member).le
  refine ⟨fun row column i j numbered => outcome_of_numbered cut numbered,
    fun row column i j nontrivial numbered => ?_,
    fun column i whole unnumbered => refuses_of_not_numbered whole unnumbered⟩
  rw [followsConvention_iff cut positive numbered, target_eq_outside_iff, target_eq_outside_iff]

/-- Uneven blocks of a matrix with three rows. Both -2 and 1 lead to the last block of rows, of which only the
second one is right; -1 leads nowhere, and -4 is refused. -/
theorem index_outcomes_of_positive_uneven :
    let sums : Mat ℝ 3 4 := Mat.ofFn fun i j => 4 * i.val + j.val
    let M : BlockMatrix ℝ := matrix sums [1, 2] [3, 1]
    ofTensor (.ofMat sums) [1, 2] (some [3, 1]) = .ok M ∧ M.SizesPositive ∧
      M.Addresses (.whole (-2)) (.whole 0) 1 0 ∧ M.Addresses (.whole 1) (.whole 0) 1 0 ∧
      ¬M.FollowsConvention (.whole (-2)) (.whole 0) (-2) 0 ∧
      M.FollowsConvention (.whole 1) (.whole 0) 1 0 ∧
      M.Loses (.whole (-1)) (.whole 0) ∧ M.Refuses (.whole (-4)) (.whole 0) ∧
      M.Refuses (.whole 1) .nothing := by
  intro sums M
  have built : ofTensor (.ofMat sums) [1, 2] (some [3, 1]) = .ok M := rfl
  have positive : M.SizesPositive := by
    simp [M, SizesPositive, BlockMatrix.rows, BlockMatrix.columns?]
  obtain ⟨outcomes, follows, refuses⟩ := index_outcomes_of_positive built positive
  have numbered (i j : Int) : M.Numbered (.whole i) (.whole j) i j := ⟨rfl, rfl⟩
  have counts : M.rows.length = 2 ∧ M.columnCount = 2 := ⟨rfl, rfl⟩
  refine ⟨built, positive, outcomes _ _ _ _ (numbered (-2) 0), outcomes _ _ _ _ (numbered 1 0), ?_, ?_,
    outcomes _ _ _ _ (numbered (-1) 0), outcomes _ _ _ _ (numbered (-4) 0), ?_⟩
  · rw [follows _ _ _ _ inferInstance (numbered (-2) 0), counts.1, counts.2]
    decide
  · rw [follows _ _ _ _ inferInstance (numbered 1 0)]
    decide
  · refine refuses .nothing 1 (.inl rfl) fun j named => ?_
    cases named.2

-- A number that is written at the index -1 of a vector is accepted and lost.
example [Scalar α] (x y z : α) :
    let M : BlockMatrix α := vector #v[x, y] [1, 1]
    M.writeBlock (.whole (-1)) .nothing (.real z) = .ok M :=
  rfl

end BlockMatrix

end RecedingHorizon
