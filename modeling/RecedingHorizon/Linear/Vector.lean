import RecedingHorizon.Scalar

/-!
# Vectors

A vector of `n` entries is a `Vector`, so entrywise sums, differences and multiples are the core
operations on it; `x i` reads an entry. This file adds the inner product and the norms, each as a
sum over the indices in increasing order.
-/

namespace RecedingHorizon

abbrev Vec (α : Type) (n : Nat) := Vector α n

/-- The first of a positive number of indices. -/
def firstIndex {n : Nat} : Fin (n + 1) := ⟨0, Nat.succ_pos n⟩

namespace Vec

instance {α : Type} {n : Nat} : CoeFun (Vector α n) (fun _ => Fin n → α) := ⟨Vector.get⟩

variable {α : Type} {n : Nat}

/-- The sum of `f i` over all indices, in increasing order. -/
def sumOver [Add α] [Zero α] (n : Nat) (f : Fin n → α) : α :=
  Fin.foldl n (fun total i => total + f i) 0

abbrev ofFn (f : Fin n → α) : Vec α n := Vector.ofFn f

@[simp] theorem ofFn_get (f : Fin n → α) (i : Fin n) : ofFn f i = f i := by
  change (Vector.ofFn f)[i.val] = f i
  simp

theorem ext {x y : Vec α n} (h : ∀ i, x i = y i) : x = y :=
  Vector.ext fun i hi => h ⟨i, hi⟩

theorem toList_eq_ofFn (x : Vec α n) : x.toList = List.ofFn x.get := by
  rw [← Vector.toList_ofFn]
  exact congrArg Vector.toList (ext fun i => (ofFn_get _ i).symm)

theorem forall_mem_toList {x : Vec α n} {p : α → Prop} : (∀ a ∈ x.toList, p a) ↔ ∀ i, p (x i) := by
  simp only [Vector.mem_toList_iff, Vector.mem_iff_getElem]
  constructor
  · intro all i
    exact all _ ⟨i.val, i.isLt, rfl⟩
  · rintro all _ ⟨i, within, rfl⟩
    exact all ⟨i, within⟩

def ofList (xs : List α) (h : xs.length = n) : Vec α n := ⟨xs.toArray, by simpa using h⟩

def zeros [Zero α] (n : Nat) : Vec α n := Vector.replicate n 0

def dot [Add α] [Mul α] [Zero α] (x y : Vec α n) : α := sumOver n fun i => x i * y i

variable [Scalar α]

/-- The sum of the entries' magnitudes. -/
def normOne (x : Vec α n) : α := sumOver n fun i => Scalar.abs (x i)

/-- The Euclidean length. -/
def norm (x : Vec α n) : α := Scalar.sqrt (dot x x)

def allEntries (x : Vec α n) (test : α → Bool) : Bool := x.toList.all test

end Vec

end RecedingHorizon
