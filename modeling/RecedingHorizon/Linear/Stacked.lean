import RecedingHorizon.Linear.Matrix

/-!
# Stacked vectors and matrices of blocks

A vector of `k * m` entries is a stack of `k` parts of length `m`, one for each stage of a horizon.
`Stacked.index` finds the place of an entry from its stage and its position there, and
`Stacked.stage` and `Stacked.position` go back. `Mat.ofBlocks` puts a matrix together from its
blocks and `Mat.block` reads them.
-/

namespace RecedingHorizon

namespace Stacked

variable {k m : Nat}

/-- The place of position `p` of stage `s`. -/
def index (s : Fin k) (p : Fin m) : Fin (k * m) :=
  ⟨s.val * m + p.val, by
    have stages : (s.val + 1) * m ≤ k * m := Nat.mul_le_mul_right m s.isLt
    have position := p.isLt
    rw [Nat.add_mul] at stages
    omega⟩

/-- The stages are not empty if there is a place. -/
theorem width_pos (i : Fin (k * m)) : 0 < m := by
  rcases Nat.eq_zero_or_pos m with h | h
  · subst h
    exact absurd i.isLt (by simp)
  · exact h

/-- The stage that a place belongs to. -/
def stage (i : Fin (k * m)) : Fin k :=
  ⟨i.val / m, Nat.div_lt_of_lt_mul (Nat.mul_comm k m ▸ i.isLt)⟩

/-- The position of a place in its stage. -/
def position (i : Fin (k * m)) : Fin m := ⟨i.val % m, Nat.mod_lt _ (width_pos i)⟩

@[simp] theorem stage_index (s : Fin k) (p : Fin m) : stage (index s p) = s := by
  apply Fin.ext
  change (s.val * m + p.val) / m = s.val
  have width : 0 < m := Nat.lt_of_le_of_lt (Nat.zero_le _) p.isLt
  rw [Nat.mul_comm, Nat.mul_add_div width, Nat.div_eq_of_lt p.isLt, Nat.add_zero]

@[simp] theorem position_index (s : Fin k) (p : Fin m) : position (index s p) = p := by
  apply Fin.ext
  change (s.val * m + p.val) % m = p.val
  rw [Nat.mul_comm, Nat.mul_add_mod, Nat.mod_eq_of_lt p.isLt]

@[simp] theorem index_stage_position (i : Fin (k * m)) : index (stage i) (position i) = i := by
  apply Fin.ext
  change i.val / m * m + i.val % m = i.val
  rw [Nat.mul_comm]
  exact Nat.div_add_mod i.val m

end Stacked

namespace Vec

variable {α : Type} {k m : Nat}

def stack (parts : Fin k → Vec α m) : Vec α (k * m) :=
  Vec.ofFn fun i => parts (Stacked.stage i) (Stacked.position i)

def part (x : Vec α (k * m)) (s : Fin k) : Vec α m := Vec.ofFn fun p => x (Stacked.index s p)

theorem stack_get (parts : Fin k → Vec α m) (i : Fin (k * m)) :
    stack parts i = parts (Stacked.stage i) (Stacked.position i) := by
  simp [stack]

theorem part_get (x : Vec α (k * m)) (s : Fin k) (p : Fin m) :
    x.part s p = x (Stacked.index s p) := by
  simp [part]

@[simp] theorem part_stack (parts : Fin k → Vec α m) (s : Fin k) : (stack parts).part s = parts s := by
  apply Vec.ext
  intro p
  simp [part_get, stack_get]

@[simp] theorem stack_part (x : Vec α (k * m)) : stack x.part = x := by
  apply Vec.ext
  intro i
  simp [part_get, stack_get]

end Vec

namespace Mat

variable {α : Type} {k l m n : Nat}

def ofBlocks (blocks : Fin k → Fin l → Mat α m n) : Mat α (k * m) (l * n) :=
  ofFn fun i j => blocks (Stacked.stage i) (Stacked.stage j) (Stacked.position i)
    (Stacked.position j)

/-- A column of `k` blocks. -/
def ofBlockColumn (blocks : Fin k → Mat α m n) : Mat α (k * m) n :=
  ofFn fun i j => blocks (Stacked.stage i) (Stacked.position i) j

def block (M : Mat α (k * m) (l * n)) (s : Fin k) (t : Fin l) : Mat α m n :=
  ofFn fun i j => M (Stacked.index s i) (Stacked.index t j)

/-- The matrix with one block repeated along the diagonal. -/
def repeatDiagonal [Zero α] (k : Nat) (M : Mat α m n) : Mat α (k * m) (k * n) :=
  ofBlocks fun s t => if s = t then M else 0

@[simp] theorem block_ofBlocks (blocks : Fin k → Fin l → Mat α m n) (s : Fin k) (t : Fin l) :
    (ofBlocks blocks).block s t = blocks s t := by
  ext i j
  simp [block, ofBlocks]

@[simp] theorem ofBlocks_block (M : Mat α (k * m) (l * n)) : ofBlocks M.block = M := by
  ext i j
  simp [block, ofBlocks]

end Mat

end RecedingHorizon
