import RecedingHorizon.Linear.Complex
import RecedingHorizon.Scalar.Floating
import RecedingHorizon.Linear.Matrix

/-!
# Rotations that diagonalize

A plane rotation can make one off-diagonal entry of a symmetric matrix vanish, and one pair of
columns orthogonal. Doing so for every pair in turn, again and again, makes the matrix diagonal and
the columns orthogonal: the diagonal then holds the eigenvalues, the column lengths are the singular
values. A handful of sweeps is enough; the number of sweeps is bounded all the same.
-/

namespace RecedingHorizon.Jacobi

variable {m n : Nat}

/-- The most sweeps over all pairs. -/
def sweeps : Nat := 60

/-- All pairs of different indices, the smaller one first. -/
def pairs (n : Nat) : List (Fin n × Fin n) :=
  (List.finRange n).flatMap fun i => ((List.finRange n).filter (i < ·)).map fun j => (i, j)

/-- The tangent, cosine and sine of the rotation for two diagonal entries and a coupling. -/
def rotation (app aqq apq : Float) : Float × Float × Float :=
  let theta := (aqq - app) / (2.0 * apq)
  let size := theta.abs + Float.sqrt (theta * theta + 1.0)
  let t := if theta < 0.0 then -1.0 / size else 1.0 / size
  let c := 1.0 / Float.sqrt (t * t + 1.0)
  (t, c, t * c)

/-- A symmetric matrix with the entry in row `p` and column `q` rotated away. -/
def annihilate (M : Mat Float n n) (p q : Fin n) : Mat Float n n :=
  let apq := M p q
  if apq == 0.0 then M
  else
    let (t, c, s) := rotation (M p p) (M q q) apq
    let rowP := M.row p
    let rowQ := M.row q
    -- The diagonal entries move apart by a multiple of the entry that vanishes.
    let newP : Vec Float n := Vec.ofFn fun k =>
      if k = p then rowP p - t * apq else if k = q then 0.0 else c * rowP k - s * rowQ k
    let newQ : Vec Float n := Vec.ofFn fun k =>
      if k = q then rowQ q + t * apq else if k = p then 0.0 else s * rowP k + c * rowQ k
    let rows := M.rows.mapFinIdx fun i row h =>
      let i : Fin n := ⟨i, h⟩
      if i = p then newP else if i = q then newQ else (row.set p (newP i)).set q (newQ i)
    ⟨rows⟩

/-- Every entry off the diagonal is negligible beside the diagonal entries of its row and column. -/
def isDiagonal (M : Mat Float n n) : Bool :=
  (pairs n).all fun (p, q) =>
    let size := (M p q).abs
    size == 0.0 || size ≤ 1e-20 * Float.sqrt ((M p p).abs * (M q q).abs) || size ≤ 1e-300

/-- Sweeps until the matrix is diagonal. -/
def diagonalize : (fuel : Nat) → Mat Float n n → Mat Float n n
  | 0, M => M
  | fuel + 1, M =>
    if isDiagonal M then M
    else diagonalize fuel ((pairs n).foldl (fun M (p, q) => annihilate M p q) M)

def increasing (xs : List Float) : List Float := xs.mergeSort fun x y => decide (x ≤ y)

/-- The two eigenvalues for diagonal entries `a` and `d` and a coupling `b`. The one of larger
magnitude comes from the trace; the other one from the determinant, so that nothing cancels. -/
def coupledPair (a b d : Float) : List Float :=
  let sum := a + d
  let gap := (a - d).abs
  let twice := (b + b).abs
  -- The larger of the two is taken out of the root, so that no square overflows.
  let root :=
    if twice < gap then gap * Float.sqrt (1.0 + (twice / gap) * (twice / gap))
    else if gap < twice then twice * Float.sqrt (1.0 + (gap / twice) * (gap / twice))
    else twice * Float.sqrt 2.0
  let (large, small) := if d.abs < a.abs then (a, d) else (d, a)
  let other (first : Float) : Float := (large / first) * small - (b / first) * b
  if sum < 0.0 then
    let first := 0.5 * (sum - root)
    [first, other first]
  else if 0.0 < sum then
    let first := 0.5 * (sum + root)
    [other first, first]
  else [-0.5 * root, 0.5 * root]

/-- The coupling of two diagonal entries is lost in rounding. -/
def isNegligible (a b d : Float) : Bool :=
  b.abs ≤ Float.sqrt a.abs * Float.sqrt d.abs * 1.1102230246251565e-16

/-- The eigenvalues of the symmetric matrix whose lower triangle is given, in increasing order. -/
def eigenvalues (M : Mat Float n n) : List Float :=
  match n, M with
  | 2, M =>
    let (a, b, d) := (M 0 0, M 1 0, M 1 1)
    if isNegligible a b d then increasing [a, d] else coupledPair a b d
  | n, M =>
    let full : Mat Float n n := Mat.ofFn fun i j => if j ≤ i then M i j else M j i
    let D := diagonalize sweeps full
    increasing ((List.finRange n).map fun i => D i i)

/-- The eigenvalues of a Hermitian matrix, each of which the real symmetric matrix of twice the size
has twice. A single entry is its own eigenvalue. -/
def hermitianEigenvalues (M : Mat (Complex Float) n n) : List Float :=
  if h : n = 1 then [(M ⟨0, by omega⟩ ⟨0, by omega⟩).re] else
  let part (i j : Fin n) : Complex Float :=
    if i = j then ⟨(M i i).re, 0.0⟩ else if j < i then M i j else (M j i).conjugate
  let double : Mat Float (n + n) (n + n) := Mat.ofFn fun i j =>
    Fin.addCases
      (fun r => Fin.addCases (fun c => (part r c).re) (fun c => -(part r c).im) j)
      (fun r => Fin.addCases (fun c => (part r c).im) (fun c => (part r c).re) j) i
  everyOther (eigenvalues double)
where
  everyOther : List Float → List Float
    | x :: _ :: rest => x :: everyOther rest
    | rest => rest

/-! ### Singular values -/

/-- A matrix as the list of its columns, together with the combinations that they are of the
columns of another one. -/
structure Columns (m n : Nat) where
  column : Vector (Vec Float m) n
  mixing : Vector (Vec Float n) n

/-- The columns with the pair `p`, `q` made orthogonal. -/
def orthogonalize (s : Columns m n) (p q : Fin n) : Columns m n :=
  let x := s.column p
  let y := s.column q
  let product := Vec.dot x y
  let a := Vec.dot x x
  let b := Vec.dot y y
  if product == 0.0 || product.abs ≤ 1e-17 * Float.sqrt (a * b) then s
  else
    let (_, c, t) := rotation a b product
    let turn {k : Nat} (v w : Vec Float k) : Vec Float k × Vec Float k :=
      (Vector.zipWith (fun v w => c * v - t * w) v w, Vector.zipWith (fun v w => t * v + c * w) v w)
    let (x, y) := turn x y
    let (f, g) := turn (s.mixing p) (s.mixing q)
    ⟨(s.column.set p x).set q y, (s.mixing.set p f).set q g⟩

/-- Every pair of columns is orthogonal to working accuracy. -/
def isOrthogonal (s : Columns m n) : Bool :=
  (pairs n).all fun (p, q) =>
    let x := s.column p
    let y := s.column q
    let product := Vec.dot x y
    product == 0.0 || product.abs ≤ 1e-16 * Float.sqrt (Vec.dot x x * Vec.dot y y)

/-- Sweeps until the columns are orthogonal. -/
def decouple : (fuel : Nat) → Columns m n → Columns m n
  | 0, s => s
  | fuel + 1, s =>
    if isOrthogonal s then s
    else decouple fuel ((pairs n).foldl (fun s (p, q) => orthogonalize s p q) s)

/-- Orthogonal columns and the rotation that leads to them. -/
def columns (M : Mat Float m n) : Columns m n :=
  decouple sweeps ⟨M.transpose.rows, (Mat.identity n).rows⟩

/-- The singular values in decreasing order. -/
def singularValues (M : Mat Float m n) : List Float :=
  let lengths {m n : Nat} (M : Mat Float m n) : List Float :=
    (columns M).column.toList.map Vec.norm
  (increasing (if n ≤ m then lengths M else lengths M.transpose)).reverse

/-- The shortest of the vectors `x` for which `M x` is nearest to `y`: singular values below the
rounding error of the largest one count as zero. -/
def leastSquares (M : Mat Float m n) (y : Vec Float m) : Vec Float n :=
  let s := columns M
  let largest := (s.column.toList.map Vec.norm).foldl max 0.0
  let threshold := 2.220446049250313e-16 * Float.ofNat (max m n) * largest
  (List.finRange n).foldl
    (fun x j =>
      let column := s.column j
      let size := Vec.norm column
      if size ≤ threshold then x
      else x + (s.mixing j).map (· * (Vec.dot column y / (size * size))))
    (Vec.zeros n)

end RecedingHorizon.Jacobi
