import RecedingHorizon.Blocks.Entry
import RecedingHorizon.Blocks.Partition

/-!
# Block matrices

Vectors and matrices that remember how their axes are cut into blocks. A block is read as an array
and overwritten in place, by entries of the type that the array stores; transposition exchanges the two
partitions along with the axes.
-/

namespace RecedingHorizon

/-- A vector or a matrix of entries of type `β` with the sizes of its blocks. -/
inductive BlockMatrix (β : Type) where
  | vector {n : Nat} (data : Vec β n) (rows : List Int)
  | matrix {m n : Nat} (data : Mat β m n) (rows columns : List Int)

namespace BlockMatrix

variable {α β : Type}

def toTensor : BlockMatrix β → Tensor β
  | vector data _ => .ofVec data
  | matrix data _ _ => .ofMat data

def rows : BlockMatrix β → List Int
  | vector _ rows => rows
  | matrix _ rows _ => rows

/-- The sizes of the column blocks; a vector has none. -/
def columns? : BlockMatrix β → Option (List Int)
  | vector _ _ => none
  | matrix _ _ columns => some columns

/-- The number of entries along each axis. -/
def shape (M : BlockMatrix β) : List Nat := M.toTensor.shape

/-- The number of blocks along each axis. -/
def blockShape : BlockMatrix β → List Nat
  | vector _ rows => [rows.length]
  | matrix _ rows columns => [rows.length, columns.length]

def description (M : BlockMatrix β) : String :=
  "BlockMatrix(shape=" ++ shapeText M.shape ++ ", blocks=" ++ shapeText M.blockShape ++ ")"

/-- An array with the given block sizes, which have to add up to its lengths. Without column sizes
a matrix has one block column; a vector cannot have any. -/
def ofTensor (data : Tensor β) (rows : List Int) (columns? : Option (List Int)) :
    Except Fault (BlockMatrix β) :=
  match data with
  | ⟨[], _⟩ => .error .outOfRange
  | ⟨[n], cells⟩ =>
    if Partition.total rows ≠ n then .error (.rowBlocks (Partition.total rows) n)
    else if columns?.isSome then .error .columnBlocksOfVector
    else
      let v : Vec β n := cells
      .ok (vector v rows)
  | ⟨[m, n], cells⟩ =>
    let columns := columns?.getD [(n : Int)]
    if Partition.total rows ≠ m then .error (.rowBlocks (Partition.total rows) m)
    else if Partition.total columns ≠ n then .error (.columnBlocks (Partition.total columns) n)
    else
      let M : Mat β m n := ⟨cells⟩
      .ok (matrix M rows columns)
  -- The number of axes is only refused after the sizes of the rows.
  | ⟨m :: shape, _⟩ =>
    if Partition.total rows ≠ m then .error (.rowBlocks (Partition.total rows) m)
    else .error (.blockDataRank (shape.length + 1))

/-- An array with block sizes that were read from arguments. Whether the column sizes could be read
only matters for a matrix whose row sizes fit. -/
def ofArguments (data : Tensor β) (rows : Except Fault (List Int))
    (columns? : Option (Except Fault (List Int))) : Except Fault (BlockMatrix β) := do
  let rows ← rows
  match data, columns? with
  | ⟨[m, _], _⟩, some columns =>
    if Partition.total rows ≠ m then throw (.rowBlocks (Partition.total rows) m)
    ofTensor data rows (some (← columns))
  | _, columns? => ofTensor data rows (columns?.map fun _ => [])

/-! ### Blocks -/

/-- The range of an axis that a block takes. -/
def spanOf (n : Nat) (sizes : List Int) (i : Argument α) : Except Fault (Span n) := do
  let (first, stop) ← Partition.ends sizes (← i.toIndex)
  return Span.clip n first stop

/-- Whether an index names the only block column of a vector. -/
def isFirstColumn [Scalar α] : Argument α → Bool
  | .nothing | .whole 0 | .truth false => true
  | .real x => x == 0
  | _ => false

/-- The range of rows of a block of a vector. -/
def vectorSpan [Scalar α] (n : Nat) (rows : List Int) (i j : Argument α) :
    Except Fault (Span n) := do
  let span ← spanOf n rows i
  if isFirstColumn j then return span else throw .columnBlockOfVector

/-- The ranges of rows and columns of a block of a matrix. -/
def matrixSpans (m n : Nat) (rows columns : List Int) (i j : Argument α) :
    Except Fault (Span m × Span n) := do
  let down ← spanOf m rows i
  if !j.isGiven then throw .columnBlockMissing
  let across ← spanOf n columns j
  return (down, across)

def block [Scalar α] [EntryType α β] (M : BlockMatrix β) (i j : Argument α) : Except Fault (Tensor β) :=
  match M with
  | vector (n := n) data rows => do
    let span ← vectorSpan n rows i j
    return .ofVec (Vec.ofFn fun k => data (span.place k))
  | matrix (m := m) (n := n) data rows columns => do
    let (down, across) ← matrixSpans m n rows columns i j
    return .ofMat (Mat.ofFn fun k l => data (down.place k) (across.place l))

/-- The matrix with one block overwritten by a value, which is repeated to the block's shape. -/
def setBlock [Scalar α] [EntryType α β] (M : BlockMatrix β) (i j : Argument α)
    (value : Tensor β) : Except Fault (BlockMatrix β) :=
  match M with
  | vector (n := n) data rows => do
    let span ← vectorSpan n rows i j
    let value ← value.fitTo [span.length]
    let some value := value.toVec? span.length | throw .incompatibleShapes
    -- Entries that have no position in the block stay.
    let data : Vec β n := Vec.ofFn fun k =>
      match span.position? k with
      | some p => value p
      | none => data k
    return vector data rows
  | matrix (m := m) (n := n) data rows columns => do
    let (down, across) ← matrixSpans m n rows columns i j
    let value ← value.fitTo [down.length, across.length]
    let some value := value.toMat? down.length across.length | throw .incompatibleShapes
    let data : Mat β m n := Mat.ofFn fun k l =>
      match down.position? k, across.position? l with
      | some p, some q => value p q
      | _, _ => data k l
    return matrix data rows columns

/-- The matrix with one block overwritten by an argument, of which its entries keep what they can store.
The block has to exist before the argument is looked at. -/
def writeBlock [Scalar α] [EntryType α β] (M : BlockMatrix β) (i j value : Argument α) :
    Except Fault (BlockMatrix β) := do
  let _ ← M.block i j
  M.setBlock i j (← EntryType.read value)

/-- The transposed matrix; a vector is its own transpose. -/
def transpose : BlockMatrix β → BlockMatrix β
  | vector data rows => vector data rows
  | matrix data rows columns => matrix data.transpose columns rows

/-! ### Entries -/

/-- The part of an array at an index along its first axis, counted from the end if negative. -/
def slice? (t : Tensor β) (i : Int) : Option (Tensor β) :=
  let parts := t.slices
  if 0 ≤ i then parts[i.toNat]?
  else if -(parts.length : Int) ≤ i then parts[(i + parts.length).toNat]? else none

/-- The entry or the row at a list of indices. -/
def item (M : BlockMatrix β) (key : List Int) : Except Fault (Tensor β) :=
  key.foldlM
    (fun t i =>
      match slice? t i with
      | some part => .ok part
      | none => .error .outOfRange)
    M.toTensor

end BlockMatrix

end RecedingHorizon
