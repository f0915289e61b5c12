import RecedingHorizon.Linear.Matrix

/-!
# Arrays of any rank

Arguments arrive as arrays whose shape is only known when they are read. A `Grid α shape` nests
vectors to that shape, so a grid of shape `[n]` is a vector and one of shape `[m, n]` holds the
rows of a matrix; a `Tensor` carries its shape with it. `Tensor.vector?` and `Tensor.matrix?` are
the way back to the sized types.
-/

namespace RecedingHorizon

/-- Entries nested to a shape: a scalar for the empty one. -/
def Grid (α : Type) : List Nat → Type
  | [] => α
  | n :: shape => Vector (Grid α shape) n

namespace Grid

variable {α β : Type}

/-- The grid with entry `f index` at every index. -/
def ofFn : (shape : List Nat) → (List Nat → α) → Grid α shape
  | [], f => f []
  | n :: shape, f => Vector.ofFn fun (i : Fin n) => ofFn shape fun index => f (i.val :: index)

/-- The entry at an index, if the index fits the shape. -/
def read : (shape : List Nat) → Grid α shape → List Nat → Option α
  | [], x, [] => some x
  | n :: shape, x, i :: index =>
    let x : Vector (Grid α shape) n := x
    if h : i < n then read shape x[i] index else none
  | _, _, _ => none

/-- All entries, the last index moving fastest. -/
def toList : (shape : List Nat) → Grid α shape → List α
  | [], x => [x]
  | n :: shape, x =>
    let x : Vector (Grid α shape) n := x
    x.toList.flatMap (toList shape)

def map (f : α → β) : (shape : List Nat) → Grid α shape → Grid β shape
  | [], x => f x
  | n :: shape, x =>
    let x : Vector (Grid α shape) n := x
    Vector.map (map f shape) x

def zipWith {γ : Type} (f : α → β → γ) :
    (shape : List Nat) → Grid α shape → Grid β shape → Grid γ shape
  | [], x, y => f x y
  | n :: shape, x, y =>
    let x : Vector (Grid α shape) n := x
    let y : Vector (Grid β shape) n := y
    Vector.zipWith (zipWith f shape) x y

end Grid

/-- An array together with its shape. -/
structure Tensor (α : Type) where
  shape : List Nat
  cells : Grid α shape

namespace Tensor

variable {α β : Type} {m n : Nat}

def rank (t : Tensor α) : Nat := t.shape.length

def size (t : Tensor α) : Nat := t.shape.foldr (· * ·) 1

def ofFn (shape : List Nat) (f : List Nat → α) : Tensor α := ⟨shape, Grid.ofFn shape f⟩

def scalar (a : α) : Tensor α := ⟨[], a⟩

def ofVec (v : Vec α n) : Tensor α := ⟨[n], v⟩

def ofMat (M : Mat α m n) : Tensor α := ⟨[m, n], M.rows⟩

def ofList (xs : List α) : Tensor α := ofVec xs.toArray.toVector

/-- All entries, the last index moving fastest. -/
def toList (t : Tensor α) : List α := t.cells.toList t.shape

/-- The entry at an index, if the index fits the shape. -/
def read (t : Tensor α) (index : List Nat) : Option α := t.cells.read t.shape index

def map (f : α → β) (t : Tensor α) : Tensor β := ⟨t.shape, t.cells.map f t.shape⟩

/-- The array repeated along a new first axis. -/
def replicate (count : Nat) (t : Tensor α) : Tensor α :=
  ⟨count :: t.shape, Vector.replicate count t.cells⟩

/-- All entries in one axis. -/
def flatten (t : Tensor α) : Tensor α := ofList t.toList

/-- The entries of an array in another shape of the same size. -/
def reshape? [Inhabited α] (t : Tensor α) (shape : List Nat) : Option (Tensor α) :=
  if shape.foldr (· * ·) 1 = t.size then
    let entries := t.toList.toArray
    let offset (index : List Nat) := (index.zip shape).foldl (fun o p => o * p.2 + p.1) 0
    some (ofFn shape fun index => entries.getD (offset index) default)
  else none

/-- The array with its axes in reverse order. -/
def transpose [Inhabited α] (t : Tensor α) : Tensor α :=
  ofFn t.shape.reverse fun index => (t.read index.reverse).getD default

/-- The arrays of a list along a new first axis, if they share one shape. -/
def stack? (ts : List (Tensor α)) : Option (Tensor α) :=
  match ts with
  | [] => some (ofList [])
  | first :: _ =>
    (ts.mapM fun t => if h : t.shape = first.shape then some (h ▸ t.cells) else none).map
      fun (cells : List (Grid α first.shape)) => ⟨cells.length :: first.shape, cells.toArray.toVector⟩

/-- The parts of an array along its first axis. -/
def slices (t : Tensor α) : List (Tensor α) :=
  match t with
  | ⟨[], _⟩ => []
  | ⟨n :: shape, cells⟩ =>
    let cells : Vector (Grid α shape) n := cells
    cells.toList.map fun c => ⟨shape, c⟩

/-- The vector that an array with one axis is. -/
def vector? (t : Tensor α) : Option (Σ n, Vec α n) :=
  match t with
  | ⟨[n], cells⟩ => some ⟨n, cells⟩
  | _ => none

/-- The matrix that an array with two axes is. -/
def matrix? (t : Tensor α) : Option (Σ m n, Mat α m n) :=
  match t with
  | ⟨[m, n], cells⟩ => some ⟨m, n, ⟨cells⟩⟩
  | _ => none

/-- An array of a given shape as a vector of that length. -/
def toVec? (t : Tensor α) (n : Nat) : Option (Vec α n) :=
  if h : t.shape = [n] then some (h ▸ t.cells : Grid α [n]) else none

/-- An array of a given shape as a matrix of that size. -/
def toMat? (t : Tensor α) (m n : Nat) : Option (Mat α m n) :=
  if h : t.shape = [m, n] then some ⟨(h ▸ t.cells : Grid α [m, n])⟩ else none

@[simp] theorem toVec?_ofVec (v : Vec α n) : (ofVec v).toVec? n = some v := by
  simp [toVec?, ofVec]

@[simp] theorem toMat?_ofMat (M : Mat α m n) : (ofMat M).toMat? m n = some M := by
  simp [toMat?, ofMat]

@[simp] theorem shape_ofVec (v : Vec α n) : (ofVec v).shape = [n] := rfl
@[simp] theorem shape_ofMat (M : Mat α m n) : (ofMat M).shape = [m, n] := rfl
@[simp] theorem shape_map (f : α → β) (t : Tensor α) : (t.map f).shape = t.shape := rfl

theorem eq_ofVec_of_shape {t : Tensor α} (shape : t.shape = [n]) : ∃ v : Vec α n, t = ofVec v := by
  obtain ⟨_, cells⟩ := t
  cases shape
  exact ⟨cells, rfl⟩

theorem eq_ofMat_of_shape {t : Tensor α} (shape : t.shape = [m, n]) :
    ∃ M : Mat α m n, t = ofMat M := by
  obtain ⟨_, cells⟩ := t
  cases shape
  exact ⟨⟨cells⟩, rfl⟩

theorem read_ofVec (v : Vec α n) (i : Fin n) : (ofVec v).read [i.val] = some (v i) :=
  dif_pos i.isLt

theorem read_ofMat (M : Mat α m n) (i : Fin m) (j : Fin n) :
    (ofMat M).read [i.val, j.val] = some (M i j) :=
  (dif_pos i.isLt).trans (dif_pos j.isLt)

/-- Reading a matrix with its indices in reverse order. -/
theorem ofFn_read_reverse (M : Mat α m n) (default : α) :
    (ofFn [n, m] fun index => ((ofMat M).read index.reverse).getD default) = ofMat M.transpose := by
  apply congrArg (Tensor.mk [n, m])
  apply congrArg Vector.ofFn
  funext i
  apply congrArg Vector.ofFn
  funext j
  change ((ofMat M).read [j.val, i.val]).getD _ = M j i
  rw [read_ofMat, Option.getD_some]

theorem transpose_ofMat [Inhabited α] (M : Mat α m n) :
    (ofMat M).transpose = ofMat M.transpose :=
  ofFn_read_reverse M _

@[simp] theorem toList_ofVec (v : Vec α n) : (ofVec v).toList = v.toList :=
  List.flatMap_singleton' v.toList

theorem ofList_toList (v : Vec α n) : ofList v.toList = ofVec v := by
  obtain ⟨entries, rfl⟩ := v
  exact congrArg (fun a : Array α => ofVec a.toVector) entries.toArray_toList

theorem length_toList (t : Tensor α) : t.toList.length = t.size := by
  obtain ⟨shape, cells⟩ := t
  induction shape with
  | nil => rfl
  | cons n shape ih =>
    let cells : Vector (Grid α shape) n := cells
    have each : (fun c : Grid α shape => (c.toList shape).length) =
        fun _ => shape.foldr (· * ·) 1 := funext ih
    have whole : (cells.toList.map fun c => (c.toList shape).length).sum =
        n * shape.foldr (· * ·) 1 := by
      rw [each, List.map_const', List.sum_replicate_nat, Vector.length_toList]
    exact List.length_flatMap.trans whole

theorem flatten_eq_ofVec (t : Tensor α) (sized : t.toList.length = n) :
    t.flatten = ofVec (Vec.ofList t.toList sized) := by
  rw [← ofList_toList]
  exact congrArg ofList (List.toList_toArray).symm

/-- The entries of an array form a vector. -/
theorem exists_flatten_eq (t : Tensor α) : ∃ v : Vec α t.size, t.flatten = ofVec v :=
  ⟨_, t.flatten_eq_ofVec t.length_toList⟩

theorem flatten_ofVec (v : Vec α n) : (ofVec v).flatten = ofVec v := by
  rw [flatten, toList_ofVec, ofList_toList]

@[simp] theorem toList_ofMat (M : Mat α m n) : (ofMat M).toList = M.toList :=
  congrArg (M.rows.toList.flatMap ·)
    (funext fun row : Vector α n => List.flatMap_singleton' row.toList)

theorem map_ofVec (f : α → β) (v : Vec α n) : (ofVec v).map f = ofVec (v.map f) := rfl

theorem map_ofMat (f : α → β) (M : Mat α m n) : (ofMat M).map f = ofMat (M.map f) := by
  have rows : (⟨Vector.map (Vector.map f) M.rows⟩ : Mat β m n) = M.map f := by
    ext i j
    rw [Mat.map_entry]
    change (Vector.map (Vector.map f) M.rows)[i.val][j.val] = f M.rows[i.val][j.val]
    simp
  rw [← rows]
  rfl

theorem eq_ofVec_of_toVec? {t : Tensor α} {v : Vec α n} (h : t.toVec? n = some v) : t = ofVec v := by
  obtain ⟨shape, cells⟩ := t
  unfold toVec? at h
  split at h
  · next same =>
    simp only at same
    subst same
    exact congrArg (Tensor.mk [n]) (Option.some.inj h)
  · cases h

theorem eq_ofMat_of_toMat? {t : Tensor α} {M : Mat α m n} (h : t.toMat? m n = some M) : t = ofMat M := by
  obtain ⟨shape, cells⟩ := t
  unfold toMat? at h
  split at h
  · next same =>
    simp only at same
    subst same
    cases h
    rfl
  · cases h

end Tensor

end RecedingHorizon
