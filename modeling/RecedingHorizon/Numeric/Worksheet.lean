import RecedingHorizon.Linear.Matrix
import RecedingHorizon.Scalar.Floating

/-!
# Worksheets

A table of floating-point numbers for algorithms that overwrite a matrix entry by entry, with
indices that move past its edges: outside the table every entry reads as zero and writing changes
nothing.
-/

namespace RecedingHorizon

/-- A table with `columns` entries in a row. -/
structure Worksheet where
  columns : Nat
  entries : Array Float

namespace Worksheet

def ofMat {m n : Nat} (M : Mat Float m n) : Worksheet := ⟨n, M.toList.toArray⟩

def read (w : Worksheet) (i j : Nat) : Float :=
  if j < w.columns then w.entries.getD (i * w.columns + j) 0.0 else 0.0

def write (w : Worksheet) (i j : Nat) (x : Float) : Worksheet :=
  if j < w.columns then ⟨w.columns, w.entries.setIfInBounds (i * w.columns + j) x⟩ else w

def toMat (w : Worksheet) (m n : Nat) : Mat Float m n := Mat.ofFn fun i j => w.read i j

def swapRows (w : Worksheet) (i k : Nat) : Worksheet :=
  (List.range w.columns).foldl
    (fun w j =>
      let x := w.read i j
      let y := w.read k j
      (w.write i j y).write k j x)
    w

/-- The worksheet with two of its columns exchanged, in the first `rows` rows. -/
def swapColumns (w : Worksheet) (rows j k : Nat) : Worksheet :=
  (List.range rows).foldl
    (fun w i =>
      let x := w.read i j
      let y := w.read i k
      (w.write i j y).write i k x)
    w

end Worksheet

end RecedingHorizon
