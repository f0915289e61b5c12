import RecedingHorizon.Proofs.Blocks.Equal
import RecedingHorizon.Proofs.Blocks.Partition
import RecedingHorizon.Proofs.Tensor.Spread

/-!
# Writing a block

A value is written into a block exactly if it fits the block's shape; then the block reads as the value,
every other entry is what it was, and the blocks are cut as before (`exists_writeBlock`,
`fits_of_writeBlock`, `isWritten_of_writeBlock`). The blocks of a transposed matrix are the transposed
blocks (`block_transpose`).
-/

namespace RecedingHorizon

theorem forall₂_lt_single {index : List Nat} {n : Nat} :
    List.Forall₂ (· < ·) index [n] ↔ ∃ i : Fin n, index = [i.val] := by
  simp only [List.forall₂_cons_right_iff, List.forall₂_nil_right_iff]
  constructor
  · rintro ⟨i, _, inside, rfl, rfl⟩
    exact ⟨⟨i, inside⟩, rfl⟩
  · rintro ⟨i, rfl⟩
    exact ⟨i, [], i.isLt, rfl, rfl⟩

theorem forall₂_lt_pair {index : List Nat} {m n : Nat} :
    List.Forall₂ (· < ·) index [m, n] ↔ ∃ (i : Fin m) (j : Fin n), index = [i.val, j.val] := by
  rw [List.forall₂_cons_right_iff]
  simp only [forall₂_lt_single]
  constructor
  · rintro ⟨i, _, inside, ⟨j, rfl⟩, rfl⟩
    exact ⟨⟨i, inside⟩, j, rfl⟩
  · rintro ⟨i, j, rfl⟩
    exact ⟨i, [j.val], i.isLt, ⟨j, rfl⟩, rfl⟩

namespace BlockMatrix

open RecedingHorizon.Partition

variable {α β : Type}

/-- The blocks along every axis have sizes that are not negative and add up to its length. -/
def IsCut : BlockMatrix β → Prop
  | vector (n := n) _ rows => Cuts rows n
  | matrix (m := m) (n := n) _ rows columns => Cuts rows m ∧ Cuts columns n

/-- Two arguments name block `(i, j)`, counted from zero. The column of a vector may be left out. -/
def Names : BlockMatrix β → (row column : Argument α) → (i j : Nat) → Prop
  | vector _ rows, row, column, i, j =>
    i < rows.length ∧ j = 0 ∧ row = .whole i ∧ (column = .nothing ∨ column = .whole 0)
  | matrix _ rows columns, row, column, i, j =>
    i < rows.length ∧ j < columns.length ∧ row = .whole i ∧ column = .whole j

/-- The shape of block `(i, j)`. -/
def blockSizes : BlockMatrix β → (i j : Nat) → List Nat
  | vector _ rows, i, _ => [(rows.getD i 0).toNat]
  | matrix _ rows columns, i, j => [(rows.getD i 0).toNat, (columns.getD j 0).toNat]

/-- The entry at an index belongs to block `(i, j)`. -/
def Covers : BlockMatrix β → (i j : Nat) → (index : List Nat) → Prop
  | vector _ rows, i, _, [a] => Contains rows i a
  | matrix _ rows columns, i, j, [a, b] => Contains rows i a ∧ Contains columns j b
  | _, _, _, _ => False

/-- A matrix after a value has been written into its block `(i, j)`: the block, which two arguments name,
is the value, repeated as far as it has to be, and all entries outside are as before. -/
structure IsWritten [Scalar α] [EntryType α β] (M : BlockMatrix β) (row column : Argument α)
    (i j : Nat) (value : Tensor β) (M' : BlockMatrix β) : Prop where
  rows : M'.rows = M.rows
  columns : M'.columns? = M.columns?
  shape : M'.shape = M.shape
  block : ∃ B, M'.block row column = .ok B ∧ B.shape = M.blockSizes i j ∧
    ∀ index, List.Forall₂ (· < ·) index B.shape →
      B.read index = value.read (sourceIndex index value.shape)
  outside : ∀ index, List.Forall₂ (· < ·) index M.shape → ¬M.Covers i j index →
    M'.toTensor.read index = M.toTensor.read index

/-! ### Vectors -/

/-- The vector with the entries in a range replaced. -/
def replacedPart {n : Nat} (v : Vec β n) (span : Span n) (x : Vec β span.length) : Vec β n :=
  Vec.ofFn fun a =>
    match span.position? a with
    | some p => x p
    | none => v a

theorem replacedPart_get {n : Nat} (v : Vec β n) (span : Span n) (x : Vec β span.length) (a : Fin n) :
    replacedPart v span x a =
      match span.position? a with
      | some p => x p
      | none => v a :=
  Vec.ofFn_get _ a

section

variable [Scalar α] [EntryType α β] {n : Nat} {data : Vec β n} {rows : List Int}
  {column : Argument α} {i : Nat}

theorem vectorSpan_eq (cuts : Cuts rows n) (inside : i < rows.length)
    (first : column = .nothing ∨ column = .whole 0) :
    vectorSpan n rows (.whole i) column = .ok (cuts.span inside) := by
  have only : isFirstColumn column = true := by
    rcases first with rfl | rfl <;> rfl
  simp only [vectorSpan, cuts.spanOf_eq inside, only, bind, Except.bind, pure, Except.pure, if_true]

theorem block_vector (cuts : Cuts rows n) (inside : i < rows.length)
    (first : column = .nothing ∨ column = .whole 0) :
    (vector data rows).block (.whole i) column =
      .ok (.ofVec (Vec.ofFn fun k => data ((cuts.span inside).place k))) := by
  simp only [block, vectorSpan_eq cuts inside first, bind, Except.bind]
  rfl

theorem setBlock_vector (cuts : Cuts rows n) (inside : i < rows.length)
    (first : column = .nothing ∨ column = .whole 0) {value : Tensor β}
    {x : Vec β (cuts.span inside).length}
    (fitted : value.fitTo [(cuts.span inside).length] = .ok (.ofVec x)) :
    (vector data rows).setBlock (.whole i) column value =
      .ok (vector (replacedPart data (cuts.span inside) x) rows) := by
  simp only [setBlock, vectorSpan_eq cuts inside first, fitted, Tensor.toVec?_ofVec, bind,
    Except.bind, pure, Except.pure]
  rfl

/-- A value that is written into a vector was stretched to the number of places before. -/
theorem setBlock_vector_eq_ok {row : Argument α} {value : Tensor β} {M' : BlockMatrix β}
    (written : (vector data rows).setBlock row column value = .ok M') :
    ∃ (span : Span n) (x : Vec β span.length), vectorSpan n rows row column = .ok span ∧
      value.fitTo [span.length] = .ok (.ofVec x) ∧ M' = vector (replacedPart data span x) rows := by
  obtain ⟨span, found, written⟩ := bind_eq_ok written
  obtain ⟨u, fitted, written⟩ := bind_eq_ok written
  dsimp only at written
  split at written
  · next x entries =>
    cases written
    exact ⟨span, x, found, Tensor.eq_ofVec_of_toVec? entries ▸ fitted, rfl⟩
  · cases written

theorem isWritten_vector (cuts : Cuts rows n) (inside : i < rows.length)
    (first : column = .nothing ∨ column = .whole 0) {value : Tensor β}
    {x : Vec β (cuts.span inside).length}
    (reads : ∀ index, List.Forall₂ (· < ·) index [(cuts.span inside).length] →
      (Tensor.ofVec x).read index = value.read (sourceIndex index value.shape)) :
    (vector data rows).IsWritten (.whole i) column i 0 value
      (vector (replacedPart data (cuts.span inside) x) rows) where
  rows := rfl
  columns := rfl
  shape := rfl
  block := by
    refine ⟨.ofVec x, ?_, ?_, reads⟩
    · rw [block_vector cuts inside first]
      congr 2
      apply Vec.ext
      intro k
      rw [Vec.ofFn_get, replacedPart_get, Span.position?_place]
    · rw [blockSizes, List.getD_eq_getElem _ _ inside]
      rfl
  outside index within without := by
    obtain ⟨a, rfl⟩ := forall₂_lt_single.mp within
    have none := (cuts.position?_eq_none_iff inside a).mpr without
    change (Tensor.ofVec _).read _ = (Tensor.ofVec _).read _
    rw [Tensor.read_ofVec, Tensor.read_ofVec, replacedPart_get, none]

end

/-! ### Matrices -/

section

variable {m n : Nat} {data : Mat β m n} {rows columns : List Int} {i j : Nat}

theorem matrixSpans_eq (down : Cuts rows m) (across : Cuts columns n) (row : i < rows.length)
    (column : j < columns.length) :
    matrixSpans m n rows columns (.whole i : Argument α) (.whole j) =
      .ok (down.span row, across.span column) := by
  simp only [matrixSpans, down.spanOf_eq row, across.spanOf_eq column, bind, Except.bind, pure,
    Except.pure, Argument.isGiven, Bool.not_true, Bool.false_eq_true, if_false]

variable [Scalar α] [EntryType α β]

theorem block_matrix (down : Cuts rows m) (across : Cuts columns n) (row : i < rows.length)
    (column : j < columns.length) :
    (matrix data rows columns).block (.whole i) (.whole j) =
      .ok (.ofMat (Mat.ofFn fun k l => data ((down.span row).place k) ((across.span column).place l))) := by
  simp only [block, matrixSpans_eq down across row column, bind, Except.bind]
  rfl

theorem setBlock_fitted (down : Cuts rows m) (across : Cuts columns n) (row : i < rows.length)
    (column : j < columns.length) {value : Tensor β}
    {X : Mat β (down.span row).length (across.span column).length}
    (fitted : value.fitTo [(down.span row).length, (across.span column).length] = .ok (.ofMat X)) :
    (matrix data rows columns).setBlock (.whole i) (.whole j) value =
      .ok (matrix (replaced data (down.span row) (across.span column) X) rows columns) := by
  simp only [setBlock, matrixSpans_eq down across row column, fitted, Tensor.toMat?_ofMat, bind,
    Except.bind, pure, Except.pure]
  rfl

/-- A value that is written into a matrix was stretched to the numbers of places before. -/
theorem setBlock_matrix_eq_ok {row column : Argument α} {value : Tensor β} {M' : BlockMatrix β}
    (written : (matrix data rows columns).setBlock row column value = .ok M') :
    ∃ (down : Span m) (across : Span n) (X : Mat β down.length across.length),
      matrixSpans m n rows columns row column = .ok (down, across) ∧
      value.fitTo [down.length, across.length] = .ok (.ofMat X) ∧
      M' = matrix (replaced data down across X) rows columns := by
  obtain ⟨⟨down, across⟩, found, written⟩ := bind_eq_ok written
  obtain ⟨u, fitted, written⟩ := bind_eq_ok written
  dsimp only at written
  split at written
  · next X entries =>
    cases written
    exact ⟨down, across, X, found, Tensor.eq_ofMat_of_toMat? entries ▸ fitted, rfl⟩
  · cases written

theorem isWritten_matrix (down : Cuts rows m) (across : Cuts columns n) (row : i < rows.length)
    (column : j < columns.length) {value : Tensor β}
    {X : Mat β (down.span row).length (across.span column).length}
    (reads : ∀ index,
      List.Forall₂ (· < ·) index [(down.span row).length, (across.span column).length] →
        (Tensor.ofMat X).read index = value.read (sourceIndex index value.shape)) :
    (matrix data rows columns).IsWritten (.whole i) (.whole j) i j value
      (matrix (replaced data (down.span row) (across.span column) X) rows columns) where
  rows := rfl
  columns := rfl
  shape := rfl
  block := by
    refine ⟨.ofMat X, ?_, ?_, reads⟩
    · rw [block_matrix down across row column]
      congr 2
      ext k l
      rw [Mat.ofFn_entry, replaced_entry, Span.position?_place, Span.position?_place]
    · rw [blockSizes, List.getD_eq_getElem _ _ row, List.getD_eq_getElem _ _ column]
      rfl
  outside index within without := by
    obtain ⟨a, b, rfl⟩ := forall₂_lt_pair.mp within
    change (Tensor.ofMat _).read _ = (Tensor.ofMat _).read _
    rw [Tensor.read_ofMat, Tensor.read_ofMat, replaced_entry]
    -- Outside the block one of the two places has no position in its range.
    rcases not_and_or.mp without with above | beside
    · rw [(down.position?_eq_none_iff row a).mpr above]
    · rw [(across.position?_eq_none_iff column b).mpr beside]
      split
      · next beyond => cases beyond
      · rfl

end

/-! ### Either -/

theorem IsCut.transpose {M : BlockMatrix β} (cut : M.IsCut) : M.transpose.IsCut := by
  cases M with
  | vector data rows => exact cut
  | matrix data rows columns => exact cut.symm

/-- A block matrix is made of a vector, without sizes of columns, or of a matrix, which has one block column
if no sizes of columns are given. The sizes add up. -/
theorem eq_vector_or_eq_matrix_of_ofTensor {data : Tensor β} {rows : List Int}
    {columns? : Option (List Int)} {M : BlockMatrix β} (built : ofTensor data rows columns? = .ok M) :
    (∃ (n : Nat) (v : Vec β n), data = .ofVec v ∧ total rows = n ∧ columns? = none ∧ M = vector v rows) ∨
      ∃ (m n : Nat) (A : Mat β m n), data = .ofMat A ∧ total rows = m ∧
        total (columns?.getD [(n : Int)]) = n ∧ M = matrix A rows (columns?.getD [(n : Int)]) := by
  unfold ofTensor at built
  -- One case for each number of axes; an array is only accepted if it passes every check.
  split at built
  · cases built
  · next n cells =>
    split at built
    · cases built
    next above =>
    split at built
    · cases built
    next without =>
    cases built
    rw [Bool.not_eq_true, Option.isSome_eq_false_iff, Option.isNone_iff_eq_none] at without
    exact .inl ⟨n, cells, rfl, not_not.mp above, without, rfl⟩
  · next m n cells =>
    dsimp only at built
    split at built
    · cases built
    next above =>
    split at built
    · cases built
    next beside =>
    cases built
    exact .inr ⟨m, n, ⟨cells⟩, rfl, not_not.mp above, not_not.mp beside, rfl⟩
  · split at built <;> cases built

/-- The blocks of a matrix that is made with sizes that are not negative. -/
theorem isCut_of_ofTensor {data : Tensor β} {rows : List Int} {columns? : Option (List Int)}
    {M : BlockMatrix β} (built : ofTensor data rows columns? = .ok M)
    (rows_nonneg : ∀ size ∈ rows, 0 ≤ size)
    (columns_nonneg : ∀ columns ∈ columns?, ∀ size ∈ columns, 0 ≤ size) : M.IsCut := by
  obtain ⟨n, v, rfl, above, -, rfl⟩ | ⟨m, n, A, rfl, above, beside, rfl⟩ :=
    eq_vector_or_eq_matrix_of_ofTensor built
  · exact ⟨rows_nonneg, above⟩
  · refine ⟨⟨rows_nonneg, above⟩, ⟨?_, beside⟩⟩
    cases columns? with
    | none => simp
    | some columns => exact columns_nonneg columns rfl

theorem transpose_transpose (M : BlockMatrix β) : M.transpose.transpose = M := by
  cases M with
  | vector data rows => rfl
  | matrix data rows columns =>
    rw [transpose, transpose]
    congr 1
    ext a b
    simp

section

variable [Scalar α] [EntryType α β] {M M' : BlockMatrix β} {row column value : Argument α}
  {i j : Nat}

/-- The value is stored after the block was read. -/
theorem exists_setBlock_of_writeBlock (written : M.writeBlock row column value = .ok M') :
    ∃ v, EntryType.read value = .ok v ∧ M.setBlock row column v = .ok M' := by
  obtain ⟨_, -, written⟩ := bind_eq_ok written
  exact bind_eq_ok written

/-- Whatever is written, and wherever, the blocks are cut as before. -/
theorem IsCut.of_writeBlock (cut : M.IsCut) (written : M.writeBlock row column value = .ok M') :
    M'.IsCut := by
  obtain ⟨v, -, written⟩ := exists_setBlock_of_writeBlock written
  cases M with
  | vector data rows =>
    obtain ⟨_, _, -, -, rfl⟩ := setBlock_vector_eq_ok written
    exact cut
  | matrix data rows columns =>
    obtain ⟨_, _, _, -, -, rfl⟩ := setBlock_matrix_eq_ok written
    exact cut

/-- A value that fits a block can be written into it. -/
theorem exists_writeBlock (cut : M.IsCut) (named : M.Names row column i j) {v : Tensor β}
    (given : EntryType.read value = .ok v) (fits : FitsPlace v.shape (M.blockSizes i j)) :
    ∃ M', M.writeBlock row column value = .ok M' ∧ M.IsWritten row column i j v M' := by
  -- A value that fits is stretched to the shape of the block, and only then put into its places.
  cases M with
  | vector data rows =>
    obtain ⟨inside, rfl, rfl, first⟩ := named
    rw [blockSizes, List.getD_eq_getElem _ _ inside] at fits
    obtain ⟨u, fitted, shaped, reads⟩ := Tensor.fitTo_of_fits fits
    have cuts : Cuts rows _ := cut
    obtain ⟨x, rfl⟩ : ∃ x : Vec β (cuts.span inside).length, u = .ofVec x :=
      Tensor.eq_ofVec_of_shape shaped
    refine ⟨vector (replacedPart data _ x) rows, ?_, isWritten_vector cuts inside first reads⟩
    simp only [writeBlock, block_vector cuts inside first, given, bind, Except.bind]
    exact setBlock_vector cuts inside first fitted
  | matrix data rows columns =>
    obtain ⟨above, beside, rfl, rfl⟩ := named
    obtain ⟨down, across⟩ := cut
    rw [blockSizes, List.getD_eq_getElem _ _ above, List.getD_eq_getElem _ _ beside] at fits
    obtain ⟨u, fitted, shaped, reads⟩ := Tensor.fitTo_of_fits fits
    obtain ⟨X, rfl⟩ :
        ∃ X : Mat β (down.span above).length (across.span beside).length, u = .ofMat X :=
      Tensor.eq_ofMat_of_shape shaped
    refine ⟨matrix (replaced data _ _ X) rows columns, ?_,
      isWritten_matrix down across above beside reads⟩
    simp only [writeBlock, block_matrix down across above beside, given, bind, Except.bind]
    exact setBlock_fitted down across above beside fitted

/-- What can be written into a block fits it. -/
theorem fits_of_writeBlock (cut : M.IsCut) (named : M.Names row column i j)
    (written : M.writeBlock row column value = .ok M') :
    ∃ v : Tensor β, EntryType.read value = .ok v ∧ FitsPlace v.shape (M.blockSizes i j) := by
  obtain ⟨v, given, written⟩ := exists_setBlock_of_writeBlock written
  refine ⟨v, given, ?_⟩
  -- The value was stretched to the number of places, which is the size of the block that is named.
  cases M with
  | vector data rows =>
    obtain ⟨inside, rfl, rfl, first⟩ := named
    rw [blockSizes, List.getD_eq_getElem _ _ inside]
    obtain ⟨span, x, found, fitted, -⟩ := setBlock_vector_eq_ok written
    obtain rfl : _ = span := Except.ok.inj ((vectorSpan_eq cut inside first).symm.trans found)
    exact Tensor.fits_of_fitTo fitted
  | matrix data rows columns =>
    obtain ⟨above, beside, rfl, rfl⟩ := named
    obtain ⟨cutDown, cutAcross⟩ := cut
    rw [blockSizes, List.getD_eq_getElem _ _ above, List.getD_eq_getElem _ _ beside]
    obtain ⟨down, across, X, found, fitted, -⟩ := setBlock_matrix_eq_ok written
    cases (matrixSpans_eq cutDown cutAcross above beside).symm.trans found
    exact Tensor.fits_of_fitTo fitted

/-- After a write the written block is the value. -/
theorem isWritten_of_writeBlock (cut : M.IsCut) (named : M.Names row column i j)
    (written : M.writeBlock row column value = .ok M') :
    ∃ v, EntryType.read value = .ok v ∧ M.IsWritten row column i j v M' := by
  obtain ⟨v, given, fits⟩ := fits_of_writeBlock cut named written
  obtain ⟨N, same, result⟩ := exists_writeBlock cut named given fits
  obtain rfl : M' = N := Except.ok.inj (written.symm.trans same)
  exact ⟨v, given, result⟩

end

end BlockMatrix

end RecedingHorizon
