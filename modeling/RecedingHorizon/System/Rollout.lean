import RecedingHorizon.Linear.Stacked
import RecedingHorizon.System.Linear

/-!
# Rollouts

A rollout applies the inputs `u = v - K x` step by step, for free variables `v` and a gain `K`.
`stateAt` and `inputAt` are the state and the input of a stage; `rollout` lists them for a horizon.
-/

namespace RecedingHorizon

variable {α : Type} [Scalar α] {N n m : Nat}

/-- The part of a stack that belongs to a stage, and zero behind the last one. -/
def Vec.partAt (v : Vec α (N * m)) (k : Nat) : Vec α m :=
  if h : k < N then v.part ⟨k, h⟩ else Vec.zeros m

namespace LinearSystem

/-- The input `v - K x`. -/
def applied (K : Mat α m n) (x : Vec α n) (v : Vec α m) : Vec α m := v - K.mulVec x

/-- The state of stage `k`, from `x` on. -/
def stateAt (s : LinearSystem α n m) (K : Mat α m n) (x : Vec α n) (v : Nat → Vec α m) :
    Nat → Vec α n
  | 0 => x
  | k + 1 =>
    let x := stateAt s K x v k
    s.next x (applied K x (v k))

/-- The input of stage `k`. -/
def inputAt (s : LinearSystem α n m) (K : Mat α m n) (x : Vec α n) (v : Nat → Vec α m) (k : Nat) :
    Vec α m :=
  applied K (s.stateAt K x v k) (v k)

/-- The states and inputs of a horizon; there is one more state than there are inputs. -/
structure Rollout (α : Type) (N n m : Nat) where
  states : Mat α (N + 1) n
  inputs : Mat α N m

/-- The rollout of a stack of free variables. -/
def rollout (s : LinearSystem α n m) (K : Mat α m n) (x : Vec α n) (v : Vec α (N * m)) :
    Rollout α N n m where
  states := ⟨Vector.ofFn fun k => s.stateAt K x v.partAt k.val⟩
  inputs := ⟨Vector.ofFn fun k => s.inputAt K x v.partAt k.val⟩

@[simp] theorem stateAt_zero (s : LinearSystem α n m) (K : Mat α m n) (x : Vec α n)
    (v : Nat → Vec α m) : s.stateAt K x v 0 = x := rfl

theorem stateAt_succ (s : LinearSystem α n m) (K : Mat α m n) (x : Vec α n) (v : Nat → Vec α m)
    (k : Nat) :
    s.stateAt K x v (k + 1) = s.next (s.stateAt K x v k) (s.inputAt K x v k) := rfl

theorem row_rollout_states (s : LinearSystem α n m) (K : Mat α m n) (x : Vec α n)
    (v : Vec α (N * m)) (k : Fin (N + 1)) :
    (s.rollout K x v).states.row k = s.stateAt K x v.partAt k.val := by
  simp [rollout, Mat.row]

theorem row_rollout_inputs (s : LinearSystem α n m) (K : Mat α m n) (x : Vec α n)
    (v : Vec α (N * m)) (k : Fin N) :
    (s.rollout K x v).inputs.row k = s.inputAt K x v.partAt k.val := by
  simp [rollout, Mat.row]

end LinearSystem

end RecedingHorizon
