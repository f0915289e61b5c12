import RecedingHorizon.Proofs.Blocks.Writing
import RecedingHorizon.Proofs.Exact.Scalar

/-!
# Blocks that tile the data

Block sizes are accepted if they add up to the lengths of the axes, and only their sums are looked at.
As long as none is negative the blocks then tile the data: they have the sizes they were given, every
entry lies in one block and in no other, and the blocks put beside and below one another are the data
(`exists_isTiledBy`). A negative size is accepted all the same, and then the blocks do not have the sizes
they were given (`sizesNonneg_of_isTiledBy`) and may overlap.

Along one axis this is a statement about the sums of the first sizes: the blocks up to a number hold
together what comes before the next one (`flatMap_piece_eq_take`).
-/

namespace RecedingHorizon

namespace Partition

variable {β : Type} {sizes : List Int} {n i a : Nat}

theorem start_zero (sizes : List Int) : start sizes 0 = 0 := by simp [start]

theorem start_length (sizes : List Int) : start sizes sizes.length = total sizes := by
  rw [start, List.take_length, total_eq_sum]

/-- The part of a list that a block takes. -/
def piece (sizes : List Int) (xs : List β) (i : Nat) : List β :=
  (xs.drop (start sizes i).toNat).take (sizes.getD i 0).toNat

namespace Cuts

variable (cuts : Cuts sizes n)

include cuts

theorem start_succ_toNat (inside : i < sizes.length) :
    (start sizes (i + 1)).toNat = (start sizes i).toNat + (sizes.getD i 0).toNat := by
  rw [start_succ inside, List.getD_eq_getElem _ _ inside,
    Int.toNat_add (cuts.start_nonneg i) (cuts.size_nonneg inside)]

theorem start_mono {i j : Nat} (before : i ≤ j) : start sizes i ≤ start sizes j := by
  obtain ⟨k, rfl⟩ := Nat.exists_eq_add_of_le before
  rw [start, start, List.take_add, List.sum_append, le_add_iff_nonneg_right]
  refine List.sum_nonneg fun size member => cuts.nonneg size ?_
  exact List.mem_of_mem_drop (List.mem_of_mem_take member)

/-- The places of a block are counted from where it begins. -/
theorem contains_iff (inside : i < sizes.length) :
    Contains sizes i a ↔ ∃ p < (sizes.getD i 0).toNat, (start sizes i).toNat + p = a := by
  have first := cuts.start_nonneg i
  have size := cuts.size_nonneg inside
  rw [Contains, start_succ inside, List.getD_eq_getElem _ _ inside]
  constructor
  · rintro ⟨after, before⟩
    exact ⟨a - (start sizes i).toNat, by omega, by omega⟩
  · rintro ⟨p, within, rfl⟩
    omega

omit cuts in
theorem exists_contains (count : Nat) (early : (a : Int) < start sizes count) :
    ∃ i < count, Contains sizes i a := by
  induction count with
  | zero =>
    rw [start_zero] at early
    omega
  | succ count ih =>
    -- Either an earlier block has the place already or the last one has it.
    by_cases earlier : (a : Int) < start sizes count
    · obtain ⟨i, before, contains⟩ := ih earlier
      exact ⟨i, by omega, contains⟩
    · exact ⟨count, by omega, not_lt.mp earlier, early⟩

/-- Every place of the axis belongs to one block and to no other. -/
theorem existsUnique_contains (onAxis : a < n) :
    ∃! i, i < sizes.length ∧ Contains sizes i a := by
  have early : (a : Int) < start sizes sizes.length := by
    rw [start_length, cuts.total_eq]
    exact_mod_cast onAxis
  obtain ⟨i, inside, contains⟩ := exists_contains sizes.length early
  refine ⟨i, ⟨inside, contains⟩, ?_⟩
  rintro j ⟨-, other⟩
  -- Of two blocks the first one ends before the second one begins.
  rcases Nat.lt_trichotomy i j with before | same | after
  · have order : start sizes (i + 1) ≤ start sizes j := cuts.start_mono before
    have := contains.2
    have := other.1
    omega
  · exact same.symm
  · have order : start sizes (j + 1) ≤ start sizes i := cuts.start_mono after
    have := contains.1
    have := other.2
    omega

/-- The blocks up to a number hold what comes before the next one. -/
theorem flatMap_piece_eq_take (xs : List β) {count : Nat} (within : count ≤ sizes.length) :
    (List.range count).flatMap (piece sizes xs) = xs.take (start sizes count).toNat := by
  induction count with
  | zero => simp [start_zero]
  | succ count ih =>
    -- One more block continues where the earlier ones end.
    rw [List.range_succ, List.flatMap_append, ih (Nat.le_of_succ_le within), List.flatMap_singleton,
      cuts.start_succ_toNat within, List.take_add]
    rfl

/-- The blocks of a list in order are the list. -/
theorem flatMap_piece (xs : List β) (length : xs.length = n) :
    (List.range sizes.length).flatMap (piece sizes xs) = xs := by
  rw [cuts.flatMap_piece_eq_take xs le_rfl, start_length, cuts.total_eq, Int.toNat_natCast, ← length,
    List.take_length]

theorem length_span (inside : i < sizes.length) :
    (cuts.span inside).length = (sizes.getD i 0).toNat := by
  rw [List.getD_eq_getElem _ _ inside]
  rfl

theorem cast_length_span (inside : i < sizes.length) :
    ((cuts.span inside).length : Int) = sizes.getD i 0 := by
  rw [cuts.length_span inside, Int.toNat_of_nonneg]
  rw [List.getD_eq_getElem _ _ inside]
  exact cuts.size_nonneg inside

theorem length_piece (inside : i < sizes.length) (xs : List β) (length : xs.length = n) :
    (piece sizes xs i).length = (sizes.getD i 0).toNat := by
  have fits := (cuts.span inside).start_add_length_le
  rw [cuts.length_span inside] at fits
  simp only [span] at fits
  rw [piece, List.length_take, List.length_drop, length]
  omega

/-- What is read at the places of a block, as a part of the list of all entries. -/
theorem toList_places {γ : Type} (v : Vec β n) (f : β → γ) (inside : i < sizes.length) :
    (Vec.ofFn fun p => f (v ((cuts.span inside).place p))).toList =
      (piece sizes v.toList i).map f := by
  apply List.ext_getElem
  · rw [List.length_map, cuts.length_piece inside _ v.length_toList, Vector.length_toList,
      cuts.length_span inside]
  · intro p _ _
    simp only [Vector.getElem_toList, Vector.getElem_ofFn, List.getElem_map, piece, List.getElem_take,
      List.getElem_drop]
    rfl

end Cuts

end Partition

namespace Tensor

variable {α : Type} {m n : Nat}

/-- The rows of an array as lists; an entry of a vector is a row of its own. -/
def rowLists (t : Tensor α) : List (List α) := t.slices.map toList

theorem rowLists_ofVec (v : Vec α n) : (ofVec v).rowLists = v.toList.map fun x => [x] :=
  List.map_map

theorem rowLists_ofMat (M : Mat α m n) : (ofMat M).rowLists = M.rows.toList.map Vector.toList := by
  refine List.map_map.trans (congrArg (M.rows.toList.map ·) ?_)
  funext row
  exact toList_ofVec row

end Tensor

namespace BlockMatrix

open RecedingHorizon.Partition

variable {α : Type}

/-! ### Tilings -/

/-- Arrays put beside one another, each given by its rows. The height matters if there are none. -/
def sideBySide (height : Nat) (arrays : List (List (List α))) : List (List α) :=
  arrays.foldr (List.zipWith (· ++ ·)) (List.replicate height [])

theorem sideBySide_map {β : Type} (rows : List β) (f : Nat → β → List α) (js : List Nat) :
    sideBySide rows.length (js.map fun j => rows.map (f j)) =
      rows.map fun row => js.flatMap fun j => f j row := by
  induction js with
  | nil => exact List.map_const'.symm
  | cons j js ih =>
    have first : sideBySide rows.length ((j :: js).map fun j => rows.map (f j)) =
        List.zipWith (· ++ ·) (rows.map (f j))
          (sideBySide rows.length (js.map fun j => rows.map (f j))) := rfl
    rw [first, ih, List.zipWith_map, List.zipWith_self]
    rfl

/-- The number of block columns; a vector has a single one. -/
def columnCount (M : BlockMatrix α) : Nat := (M.columns?.map List.length).getD 1

/-- The sizes that block `(i, j)` was given. -/
def givenSizes : BlockMatrix α → (i j : Nat) → List Int
  | vector _ rows, i, _ => [rows.getD i 0]
  | matrix _ rows columns, i, j => [rows.getD i 0, columns.getD j 0]

/-- Where the data have what stands at a position of block `(i, j)`. -/
def place : BlockMatrix α → (i j : Nat) → (position : List Nat) → List Nat
  | vector _ rows, i, _, position => List.zipWith (· + ·) [(start rows i).toNat] position
  | matrix _ rows columns, i, j, position =>
    List.zipWith (· + ·) [(start rows i).toNat, (start columns j).toNat] position

/-- The rows of all blocks, put beside and below one another in order. -/
def assembled (M : BlockMatrix α) (blocks : Nat → Nat → Tensor α) : List (List α) :=
  (List.range M.rows.length).flatMap fun i =>
    sideBySide (M.rows.getD i 0).toNat ((List.range M.columnCount).map fun j => (blocks i j).rowLists)

/-- If every block is a part of the rows of a list, cut further by columns, then so are all together. -/
theorem assembled_eq {β : Type} {M : BlockMatrix α} {blocks : Nat → Nat → Tensor α} {n : Nat}
    (cuts : Cuts M.rows n) {rows : List β} (length : rows.length = n) (cell : Nat → β → List α)
    (parts : ∀ i < M.rows.length, ∀ j < M.columnCount,
      (blocks i j).rowLists = (piece M.rows rows i).map (cell j)) :
    M.assembled blocks = rows.map fun row => (List.range M.columnCount).flatMap fun j => cell j row := by
  have band : ∀ i ∈ List.range M.rows.length,
      sideBySide (M.rows.getD i 0).toNat
          ((List.range M.columnCount).map fun j => (blocks i j).rowLists) =
        (piece M.rows rows i).map fun row => (List.range M.columnCount).flatMap fun j => cell j row := by
    intro i member
    have inside := List.mem_range.mp member
    have each : ((List.range M.columnCount).map fun j => (blocks i j).rowLists) =
        (List.range M.columnCount).map fun j => (piece M.rows rows i).map (cell j) :=
      List.map_congr_left fun j column => parts i inside j (List.mem_range.mp column)
    rw [each, ← cuts.length_piece inside rows length, sideBySide_map]
  rw [assembled, List.flatMap_congr band, ← List.map_flatMap, cuts.flatMap_piece rows length]

/-- The blocks tile the data. -/
structure IsTiledBy [Scalar α] (M : BlockMatrix α) (blocks : Nat → Nat → Tensor α) : Prop where
  /-- They are what is read by their numbers. -/
  block (row column : Argument α) (i j : Nat) : M.Names row column i j →
    M.block row column = .ok (blocks i j)
  /-- They have the sizes that they were given. -/
  shape (i j : Nat) : i < M.rows.length → j < M.columnCount →
    (blocks i j).shape.map Nat.cast = M.givenSizes i j
  /-- They hold the entries from the place on where they begin. -/
  read (i j : Nat) (position : List Nat) : i < M.rows.length → j < M.columnCount →
    List.Forall₂ (· < ·) position (blocks i j).shape →
    (blocks i j).read position = M.toTensor.read (M.place i j position)
  /-- Every entry lies in one of them and in no other. -/
  once (index : List Nat) : List.Forall₂ (· < ·) index M.shape →
    ∃! b : Nat × Nat, (b.1 < M.rows.length ∧ b.2 < M.columnCount) ∧
      ∃ position, List.Forall₂ (· < ·) position (blocks b.1 b.2).shape ∧
        M.place b.1 b.2 position = index
  /-- Put together in order they are the data. -/
  assembled : M.assembled blocks = M.toTensor.rowLists

/-- The block with the given numbers, if there is one. -/
def blockAt [Scalar α] (M : BlockMatrix α) (i j : Nat) : Tensor α :=
  match M.block (.whole i) (.whole j) with
  | .ok block => block
  | .error _ => M.toTensor

theorem blockAt_eq [Scalar α] {M : BlockMatrix α} {i j : Nat} {block : Tensor α}
    (found : M.block (.whole i) (.whole j) = .ok block) : M.blockAt i j = block := by
  rw [blockAt, found]

section

variable [Scalar α] {n : Nat} {data : Vec α n} {rows : List Int} {i : Nat}

theorem blockAt_vector (cuts : Cuts rows n) (inside : i < rows.length) :
    (vector data rows).blockAt i 0 =
      .ofVec (Vec.ofFn fun k => data ((cuts.span inside).place k)) :=
  blockAt_eq (block_vector cuts inside (.inr rfl))

theorem exists_place_vector (cuts : Cuts rows n) (inside : i < rows.length) {a : Nat} :
    (∃ position, List.Forall₂ (· < ·) position ((vector data rows).blockAt i 0).shape ∧
      (vector data rows).place i 0 position = [a]) ↔ Contains rows i a := by
  rw [blockAt_vector cuts inside, cuts.contains_iff inside]
  simp only [Tensor.shape_ofVec, forall₂_lt_single]
  constructor
  · rintro ⟨_, ⟨p, rfl⟩, same⟩
    exact ⟨p, cuts.length_span inside ▸ p.isLt, List.singleton_inj.mp same⟩
  · rintro ⟨p, within, same⟩
    exact ⟨[p], ⟨⟨p, cuts.length_span inside ▸ within⟩, rfl⟩, congrArg (fun a => [a]) same⟩

theorem isTiledBy_vector (cuts : Cuts rows n) :
    (vector data rows).IsTiledBy (vector data rows).blockAt where
  block row column i j named := by
    obtain ⟨inside, rfl, rfl, first⟩ := named
    rw [blockAt_vector cuts inside]
    exact block_vector cuts inside first
  shape i j inside single := by
    obtain rfl : j = 0 := Nat.lt_one_iff.mp single
    rw [blockAt_vector cuts inside]
    exact congrArg (fun size => [size]) (cuts.cast_length_span inside)
  read i j position inside single within := by
    obtain rfl : j = 0 := Nat.lt_one_iff.mp single
    rw [blockAt_vector cuts inside] at within ⊢
    obtain ⟨p, rfl⟩ := forall₂_lt_single.mp within
    rw [Tensor.read_ofVec, Vec.ofFn_get]
    exact (Tensor.read_ofVec data ((cuts.span inside).place p)).symm
  once index within := by
    obtain ⟨a, rfl⟩ := forall₂_lt_single.mp within
    -- An entry lies in one block of rows, and there is only one column of blocks.
    obtain ⟨i, ⟨inside, contains⟩, only⟩ := cuts.existsUnique_contains a.isLt
    refine ⟨(i, 0), ⟨⟨inside, Nat.one_pos⟩, (exists_place_vector cuts inside).mpr contains⟩, ?_⟩
    rintro ⟨k, j⟩ ⟨⟨within, single⟩, placed⟩
    obtain rfl : j = 0 := Nat.lt_one_iff.mp single
    rw [only k ⟨within, (exists_place_vector cuts within).mp placed⟩]
  assembled := by
    have parts : ∀ i < rows.length, ∀ j < 1, ((vector data rows).blockAt i j).rowLists =
        (piece rows data.toList i).map fun x => [x] := by
      intro i inside j single
      obtain rfl : j = 0 := Nat.lt_one_iff.mp single
      rw [blockAt_vector cuts inside, Tensor.rowLists_ofVec]
      rw [cuts.toList_places data (fun x => x) inside, List.map_id']
    rw [assembled_eq (M := vector data rows) cuts data.length_toList (fun _ x => [x]) parts]
    exact (Tensor.rowLists_ofVec data).symm

end

section

variable [Scalar α] {m n : Nat} {data : Mat α m n} {rows columns : List Int} {i j : Nat}

theorem blockAt_matrix (down : Cuts rows m) (across : Cuts columns n) (row : i < rows.length)
    (column : j < columns.length) :
    (matrix data rows columns).blockAt i j =
      .ofMat (Mat.ofFn fun k l => data ((down.span row).place k) ((across.span column).place l)) :=
  blockAt_eq (block_matrix down across row column)

theorem exists_place_matrix (down : Cuts rows m) (across : Cuts columns n) (row : i < rows.length)
    (column : j < columns.length) {a b : Nat} :
    (∃ position, List.Forall₂ (· < ·) position ((matrix data rows columns).blockAt i j).shape ∧
      (matrix data rows columns).place i j position = [a, b]) ↔
      Contains rows i a ∧ Contains columns j b := by
  rw [blockAt_matrix down across row column, down.contains_iff row, across.contains_iff column]
  simp only [Tensor.shape_ofMat, forall₂_lt_pair]
  constructor
  · rintro ⟨_, ⟨p, q, rfl⟩, same⟩
    obtain ⟨above, beside⟩ := List.cons.inj same
    exact ⟨⟨p, down.length_span row ▸ p.isLt, above⟩,
      q, across.length_span column ▸ q.isLt, List.singleton_inj.mp beside⟩
  · rintro ⟨⟨p, above, rfl⟩, q, beside, rfl⟩
    exact ⟨[p, q], ⟨⟨p, down.length_span row ▸ above⟩, ⟨q, across.length_span column ▸ beside⟩, rfl⟩, rfl⟩

theorem isTiledBy_matrix (down : Cuts rows m) (across : Cuts columns n) :
    (matrix data rows columns).IsTiledBy (matrix data rows columns).blockAt where
  block row column i j named := by
    obtain ⟨above, beside, rfl, rfl⟩ := named
    rw [blockAt_matrix down across above beside]
    exact block_matrix down across above beside
  shape i j row column := by
    rw [blockAt_matrix down across row column]
    exact congrArg₂ (fun p q => [p, q]) (down.cast_length_span row) (across.cast_length_span column)
  read i j position row column within := by
    rw [blockAt_matrix down across row column] at within ⊢
    obtain ⟨p, q, rfl⟩ := forall₂_lt_pair.mp within
    rw [Tensor.read_ofMat, Mat.ofFn_entry]
    exact (Tensor.read_ofMat data ((down.span row).place p) ((across.span column).place q)).symm
  once index within := by
    obtain ⟨a, b, rfl⟩ := forall₂_lt_pair.mp within
    obtain ⟨i, ⟨row, above⟩, onlyRow⟩ := down.existsUnique_contains a.isLt
    obtain ⟨j, ⟨column, beside⟩, onlyColumn⟩ := across.existsUnique_contains b.isLt
    refine ⟨(i, j), ⟨⟨row, column⟩, (exists_place_matrix down across row column).mpr ⟨above, beside⟩⟩, ?_⟩
    -- The numbers of a block are told by one axis each.
    rintro ⟨k, l⟩ ⟨⟨row, column⟩, placed⟩
    obtain ⟨above, beside⟩ := (exists_place_matrix down across row column).mp placed
    rw [onlyRow k ⟨row, above⟩, onlyColumn l ⟨column, beside⟩]
  assembled := by
    have parts : ∀ i < rows.length, ∀ j < columns.length,
        ((matrix data rows columns).blockAt i j).rowLists =
          (piece rows data.rows.toList i).map fun row => piece columns row.toList j := by
      intro i row j column
      -- A row of the block is what the columns of the block take of a row of the data.
      have rowsOf := down.toList_places data.rows
        (fun cells => Vec.ofFn fun l => cells ((across.span column).place l)) row
      have cellsOf (cells : Vec α n) := across.toList_places cells (fun x => x) column
      simp only [List.map_id'] at cellsOf
      rw [blockAt_matrix down across row column, Tensor.rowLists_ofMat]
      refine (congrArg (List.map Vector.toList) rowsOf).trans ?_
      rw [List.map_map]
      exact List.map_congr_left fun cells _ => cellsOf cells
    rw [assembled_eq (M := matrix data rows columns) down data.rows.length_toList
      (fun j row => piece columns row.toList j) parts]
    refine Eq.trans ?_ (Tensor.rowLists_ofMat data).symm
    refine List.map_congr_left fun row _ => ?_
    exact across.flatMap_piece row.toList row.length_toList

end

/-! ### Acceptance -/

/-- The sizes of the blocks add up to the lengths of the axes; only an array with two axes can have
sizes of columns. -/
def AddUp : (shape : List Nat) → (rows : List Int) → (columns? : Option (List Int)) → Prop
  | [n], rows, columns? => rows.sum = n ∧ columns? = none
  | [m, n], rows, columns? => rows.sum = m ∧ ∀ columns ∈ columns?, columns.sum = n
  | _, _, _ => False

/-- No block was given a negative size. -/
def SizesNonneg (M : BlockMatrix α) : Prop :=
  (∀ size ∈ M.rows, 0 ≤ size) ∧ ∀ columns ∈ M.columns?, ∀ size ∈ columns, 0 ≤ size

section

variable {data : Tensor α} {rows : List Int} {columns? : Option (List Int)} {M : BlockMatrix α}

theorem exists_ofTensor (fits : AddUp data.shape rows columns?) :
    ∃ M, ofTensor data rows columns? = .ok M := by
  obtain ⟨shape, cells⟩ := data
  match shape, cells, fits with
  | [n], cells, fits =>
    obtain ⟨above, rfl⟩ := fits
    exact ⟨vector (n := n) cells rows, by simp [ofTensor, total_eq_sum, above]⟩
  | [m, n], cells, fits =>
    obtain ⟨above, beside⟩ := fits
    have beside : (columns?.getD [(n : Int)]).sum = n := by
      cases columns? with
      | none => simp
      | some columns => exact beside columns rfl
    exact ⟨matrix (m := m) (n := n) ⟨cells⟩ rows (columns?.getD [(n : Int)]), by
      simp [ofTensor, total_eq_sum, above, beside]⟩

/-- A block matrix has the data and the sizes it was made from, and these add up. -/
theorem of_ofTensor (built : ofTensor data rows columns? = .ok M) :
    AddUp data.shape rows columns? ∧ M.toTensor = data ∧ M.rows = rows ∧
      M.columns? = columns?.or (data.shape[1]?.map fun n : Nat => [(n : Int)]) := by
  obtain ⟨n, v, rfl, above, rfl, rfl⟩ | ⟨m, n, A, rfl, above, beside, rfl⟩ :=
    eq_vector_or_eq_matrix_of_ofTensor built
  · rw [total_eq_sum] at above
    exact ⟨⟨above, rfl⟩, rfl, rfl, rfl⟩
  · rw [total_eq_sum] at above beside
    refine ⟨⟨above, ?_⟩, rfl, rfl, ?_⟩
    · rintro columns rfl
      exact beside
    · cases columns? <;> rfl

/-- Sizes that do not add up are refused as a bad value, as are data with more than two axes. -/
theorem kind_of_ofTensor {fault : Fault} (refused : ofTensor data rows columns? = .error fault)
    (axes : data.shape ≠ []) : fault.kind = .value := by
  unfold ofTensor at refused
  split at refused
  · exact absurd rfl axes
  · split at refused
    · cases refused
      rfl
    · split at refused <;> cases refused
      rfl
  · dsimp only at refused
    split at refused
    · cases refused
      rfl
    · split at refused <;> cases refused
      rfl
  · split at refused <;> cases refused <;> rfl

end

section

variable [Scalar α] {M : BlockMatrix α}

theorem exists_isTiledBy (cut : M.IsCut) : ∃ blocks, M.IsTiledBy blocks := by
  cases M with
  | vector data rows => exact ⟨_, isTiledBy_vector cut⟩
  | matrix data rows columns => exact ⟨_, isTiledBy_matrix cut.1 cut.2⟩

theorem nonneg_of_getD {sizes : List Int} (each : ∀ i < sizes.length, 0 ≤ sizes.getD i 0) :
    ∀ size ∈ sizes, 0 ≤ size := by
  intro size member
  obtain ⟨i, inside, rfl⟩ := List.getElem_of_mem member
  have nonneg := each i inside
  rwa [List.getD_eq_getElem _ _ inside] at nonneg

/-- The size of an array is not negative, so that a negative size is not the size of a block. -/
theorem sizesNonneg_of_isTiledBy {blocks : Nat → Nat → Tensor α} (tiled : M.IsTiledBy blocks)
    (nonempty : 0 ∉ M.blockShape) : M.SizesNonneg := by
  have given (i j : Nat) (row : i < M.rows.length) (column : j < M.columnCount) :
      ∀ size ∈ M.givenSizes i j, 0 ≤ size := by
    rw [← tiled.shape i j row column]
    intro size member
    obtain ⟨length, -, rfl⟩ := List.mem_map.mp member
    exact Int.natCast_nonneg length
  -- Each size is the one of a block in the first row or column, which exist.
  cases M with
  | vector data rows =>
    refine ⟨nonneg_of_getD fun i inside => ?_, by rintro _ ⟨⟩⟩
    exact given i 0 inside Nat.one_pos _ List.mem_cons_self
  | matrix data rows columns =>
    have counts : rows.length ≠ 0 ∧ columns.length ≠ 0 := by
      simpa [blockShape, eq_comm] using nonempty
    have row : 0 < rows.length := Nat.pos_of_ne_zero counts.1
    have column : 0 < columns.length := Nat.pos_of_ne_zero counts.2
    refine ⟨nonneg_of_getD fun i inside => ?_, ?_⟩
    · exact given i 0 inside column _ List.mem_cons_self
    · rintro _ ⟨⟩
      refine nonneg_of_getD fun j inside => ?_
      exact given 0 j row inside _ (List.mem_cons_of_mem _ List.mem_cons_self)

/-- A vector or a matrix can be cut into blocks exactly if the sizes add up, and is refused with a bad
value otherwise. The blocks tile the data if no size is negative and, unless there are no blocks at all,
only then. -/
theorem blocks_tile_of_nonneg (data : Tensor α) (rows : List Int) (columns? : Option (List Int)) :
    ((∃ M, ofTensor data rows columns? = .ok M) ↔ AddUp data.shape rows columns?) ∧
    (∀ fault, data.shape ≠ [] → ofTensor data rows columns? = .error fault → fault.kind = .value) ∧
    ∀ M, ofTensor data rows columns? = .ok M →
      M.toTensor = data ∧ M.rows = rows ∧
      M.columns? = columns?.or (data.shape[1]?.map fun n : Nat => [(n : Int)]) ∧
      (M.SizesNonneg → ∃ blocks, M.IsTiledBy blocks) ∧
      (0 ∉ M.blockShape → (∃ blocks, M.IsTiledBy blocks) → M.SizesNonneg) := by
  refine ⟨⟨?_, exists_ofTensor⟩, fun fault axes refused => kind_of_ofTensor refused axes, ?_⟩
  · rintro ⟨M, built⟩
    exact (of_ofTensor built).1
  · intro M built
    obtain ⟨-, same, sameRows, sameColumns⟩ := of_ofTensor built
    refine ⟨same, sameRows, sameColumns, fun nonneg => ?_, ?_⟩
    · refine exists_isTiledBy (isCut_of_ofTensor built (sameRows ▸ nonneg.1) ?_)
      rintro columns rfl
      exact nonneg.2 columns sameColumns
    · rintro nonempty ⟨blocks, tiled⟩
      exact sizesNonneg_of_isTiledBy tiled nonempty

end

/-- Uneven blocks of a matrix with three rows. The last block is a column. -/
theorem blocks_tile_of_nonneg_uneven :
    let sums : Mat ℝ 3 4 := Mat.ofFn fun i j => 4 * i.val + j.val
    ∃ M, ofTensor (.ofMat sums) [1, 2] (some [3, 1]) = .ok M ∧ M.SizesNonneg ∧
      ∃ blocks, M.IsTiledBy blocks ∧ (blocks 1 1).shape = [2, 1] ∧
        (blocks 1 1).read [1, 0] = some 11 := by
  intro sums
  obtain ⟨-, -, tiled⟩ := blocks_tile_of_nonneg (.ofMat sums) [1, 2] (some [3, 1])
  have nonneg : (matrix sums [1, 2] [3, 1]).SizesNonneg := by
    simp [SizesNonneg, BlockMatrix.rows, BlockMatrix.columns?]
  obtain ⟨-, -, -, tiles, -⟩ := tiled (matrix sums [1, 2] [3, 1]) rfl
  obtain ⟨blocks, tiling⟩ := tiles nonneg
  have shape : (blocks 1 1).shape = [2, 1] :=
    List.map_injective_iff.mpr Nat.cast_injective (tiling.shape 1 1 (by decide) (by decide))
  refine ⟨_, rfl, nonneg, blocks, tiling, shape, ?_⟩
  rw [tiling.read 1 1 [1, 0] (by decide) (by decide) (by simp [shape])]
  refine (Tensor.read_ofMat sums ⟨2, by decide⟩ ⟨3, by decide⟩).trans ?_
  simp [sums]
  norm_num

-- With a negative size in between, the last block takes an entry that the first one has already.
example [Scalar α] (x y : α) :
    let M : BlockMatrix α := vector #v[x, y] [2, -1, 1]
    ofTensor (.ofVec #v[x, y]) [2, -1, 1] none = .ok M ∧
      M.block (.whole 0) .nothing = .ok (.ofVec #v[x, y]) ∧
      M.block (.whole 2) .nothing = .ok (.ofVec #v[y]) :=
  ⟨rfl, rfl, rfl⟩

end BlockMatrix

end RecedingHorizon
