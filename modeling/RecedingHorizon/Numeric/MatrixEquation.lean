import RecedingHorizon.Linear.Stacked
import RecedingHorizon.Numeric.Elimination
import RecedingHorizon.Numeric.Jacobi
import RecedingHorizon.Numeric.Spectrum

/-!
# Two matrix equations

The Lyapunov equation `X = A X A' + Q` is linear in the entries of `X` and solved as such. The
Riccati equation is solved through a pencil of twice the size: its solution is the slope of the
subspace that belongs to the eigenvalues inside the unit circle. A transformation of the plane turns
the pencil into one matrix and the unit circle into the imaginary axis, rotations make the matrix
triangular, and further rotations bring the wanted eigenvalues to the front.
-/

namespace RecedingHorizon.MatrixEquation

variable {k m n : Nat}

/-- The solution of `X = A X A' + Q`, unless some product of two eigenvalues of `A` is one. -/
def lyapunov (A Q : Mat Float n n) : Option (Mat Float n n) :=
  if A.anyEntry (!·.isFinite) || Q.anyEntry (!·.isFinite) then none
  else
    -- One equation for each entry of the solution, row by row.
    let system : Mat Float (n * n) (n * n) := Mat.ofBlocks fun i k => Mat.ofFn fun j l =>
      (if i = k ∧ j = l then 1.0 else 0.0) - A i k * A j l
    let right : Mat Float (n * n) 1 :=
      Mat.ofFn fun i _ => Q (Stacked.stage i) (Stacked.position i)
    (Mat.eliminate? Float.abs system right).map fun X =>
      Mat.ofFn fun i j => X.onlyColumn (Stacked.index i j)

/-! ### Complex rotations -/

/-- The rotation `[[c, s], [-s̄, c]]`. -/
structure Rotation where
  c : Float
  s : Complex Float

/-- The rotation that makes the second of two numbers vanish. -/
def Rotation.ofPair (x y : Complex Float) : Rotation :=
  let a := x.magnitude
  let b := y.magnitude
  if b == 0.0 then ⟨1.0, 0⟩
  else if a == 0.0 then ⟨0.0, y.conjugate.scale (1.0 / b)⟩
  else
    let r := hypotenuse a b
    ⟨a / r, (x.scale (1.0 / a) * y.conjugate).scale (1.0 / r)⟩

def rotateRows (r : Rotation) (M : Mat (Complex Float) m n) (i j : Fin m) :
    Mat (Complex Float) m n :=
  let x := M.row i
  let y := M.row j
  let x' : Vec (Complex Float) n := Vector.zipWith (fun x y => x.scale r.c + r.s * y) x y
  let y' : Vec (Complex Float) n :=
    Vector.zipWith (fun x y => y.scale r.c - r.s.conjugate * x) x y
  ⟨(M.rows.set i.val x' i.isLt).set j.val y' j.isLt⟩

/-- Rotates two columns the opposite way. -/
def rotateColumns (r : Rotation) (M : Mat (Complex Float) m n) (i j : Fin n) :
    Mat (Complex Float) m n :=
  ⟨M.rows.map fun row =>
    let x := row i
    let y := row j
    (row.set i.val (x.scale r.c + r.s.conjugate * y) i.isLt).set j.val (y.scale r.c - r.s * x) j.isLt⟩

/-- A matrix in new coordinates, and the coordinates. -/
structure Triangular (n : Nat) where
  matrix : Mat (Complex Float) n n
  basis : Mat (Complex Float) n n

/-- The same matrix after a rotation of two coordinates. -/
def Triangular.rotate (t : Triangular n) (r : Rotation) (i j : Fin n) : Triangular n :=
  ⟨rotateColumns r (rotateRows r t.matrix i j) i j, rotateColumns r t.basis i j⟩

/-- Makes an entry vanish that a rotation has reduced to rounding errors. -/
def Triangular.clear (t : Triangular n) (i j : Fin n) : Triangular n :=
  ⟨⟨t.matrix.rows.set i.val ((t.matrix.rows i).set j.val 0 j.isLt) i.isLt⟩, t.basis⟩

/-- The index `i + 1`, if there is one. -/
def after? (i : Fin n) : Option (Fin n) := if h : i.val + 1 < n then some ⟨i.val + 1, h⟩ else none

/-- The index `i - 1`, or the first one. -/
def before (i : Fin n) : Fin n := ⟨i.val - 1, by omega⟩

/-- Makes the entries below the first lower diagonal vanish. -/
def Triangular.reduce (t : Triangular n) : Triangular n :=
  let places := (List.finRange n).flatMap fun (k : Fin n) =>
    ((List.finRange n).reverse.filter fun i => k.val + 2 ≤ i.val).map fun i => (i, k)
  places.foldl
    (fun t (i, k) =>
      if t.matrix i k == 0 then t
      else
        (t.rotate (Rotation.ofPair (t.matrix (before i) k) (t.matrix i k)) (before i) i).clear i k)
    t

/-- The square root with a non-negative real part. -/
def root (z : Complex Float) : Complex Float :=
  let size := z.magnitude
  if size == 0.0 then 0
  else
    let re := Float.sqrt (0.5 * (size + z.re.abs))
    let im := z.im / (2.0 * re)
    if 0.0 ≤ z.re then ⟨re, im⟩ else ⟨im.abs, withSign re z.im⟩

/-- The eigenvalue of the block with rows `a b` and `c d` that is nearer to `d`. -/
def nearerEigenvalue (a b c d : Complex Float) : Complex Float :=
  let half := (a - d).scale 0.5
  let r := root (half * half + b * c)
  let sum := if 0.0 ≤ half.re * r.re + half.im * r.im then half + r else half - r
  if sum == 0 then d else d - b * c / sum

/-- The first index of the block that ends at `bottom`. -/
def Triangular.blockStart (t : Triangular n) : (fuel : Nat) → Fin n → Fin n
  | 0, k => k
  | fuel + 1, k =>
    if k.val = 0 then k
    else
      let p := before k
      let size := (t.matrix p p).sizeOne + (t.matrix k k).sizeOne
      if (t.matrix k p).sizeOne ≤ 2.220446049250313e-16 * size then k else t.blockStart fuel p

/-- One step with the given shift on the block from `top` to `bottom`. -/
def Triangular.step (t : Triangular n) (shift : Complex Float) (top bottom : Fin n) :
    Triangular n :=
  ((List.finRange n).filter fun k => top ≤ k && k < bottom).foldl
    (fun t k =>
      match after? k with
      | none => t
      | some j =>
        if k = top then
          t.rotate (Rotation.ofPair (t.matrix k k - shift) (t.matrix j k)) k j
        else
          let p := before k
          (t.rotate (Rotation.ofPair (t.matrix k p) (t.matrix j p)) k j).clear j p)
    t

/-- Steps until every entry below the diagonal is negligible. -/
def Triangular.iterate : (fuel : Nat) → Nat → Fin n → Triangular n → Option (Triangular n)
  | 0, _, _, _ => none
  | fuel + 1, count, bottom, t =>
    let top := t.blockStart n bottom
    if top = bottom then
      let cleared := if top.val = 0 then t else t.clear top (before top)
      if top.val = 0 then some cleared else iterate fuel 0 (before top) cleared
    else
      let p := before bottom
      -- Now and then another shift is taken, in case the steps run in a circle.
      let shift :=
        if count % 10 = 9 then
          t.matrix bottom bottom + Complex.ofReal (t.matrix bottom p).sizeOne
        else
          nearerEigenvalue (t.matrix p p) (t.matrix p bottom) (t.matrix bottom p)
            (t.matrix bottom bottom)
      iterate fuel (count + 1) bottom (t.step shift top bottom)

/-- A matrix made triangular by rotations. -/
def triangular? (M : Mat (Complex Float) n n) : Option (Triangular n) :=
  match n, M with
  | 0, M => some ⟨M, M⟩
  | n + 1, M =>
    (Triangular.reduce ⟨M, Mat.identity (n + 1)⟩).iterate (40 * (n + 1) + 40) 0 (Fin.last n)

/-- Exchanges the diagonal entries `k` and `k + 1`. -/
def Triangular.exchange (t : Triangular n) (k j : Fin n) : Triangular n :=
  (t.rotate (Rotation.ofPair (t.matrix k j) (t.matrix j j - t.matrix k k)) k j).clear j k

/-- Brings the diagonal entries that are wanted to the front, in their order. -/
def Triangular.sort (wanted : Complex Float → Bool) (t : Triangular n) : Triangular n :=
  -- Each pass lets every wanted entry move up by one place at least.
  (List.finRange n).foldl
    (fun t _ =>
      (List.finRange n).foldl
        (fun t k =>
          match after? k with
          | some j =>
            if !wanted (t.matrix k k) && wanted (t.matrix j j) then t.exchange k j else t
          | none => t)
        t)
    t

/-! ### The Riccati equation -/

/-- A pencil of matrices, without the rows that fix the input. -/
structure Pencil (n : Nat) where
  left : Mat Float n n
  right : Mat Float n n

/-- The rows of a pencil after its columns for the input have been rotated away from all but the
first `k` rows. -/
def compress (L : Mat Float (n + k) (n + k)) (J : Mat Float (n + k) (n + k)) : Pencil n :=
  let turn (M : Mat Float (n + k) (n + k)) (c s : Float) (i j : Fin (n + k)) :
      Mat Float (n + k) (n + k) :=
    let x := M.row i
    let y := M.row j
    ⟨(M.rows.set i (Vector.zipWith (fun x y => c * x + s * y) x y)).set j
      (Vector.zipWith (fun x y => c * y - s * x) x y)⟩
  let pivots : List (Fin k) := List.finRange k
  let (L, J) := pivots.foldl
    (fun (L, J) p =>
      -- The columns for the input are the last ones.
      let column : Fin (n + k) := p.natAdd n
      let pivot : Fin (n + k) := ⟨p.val, by omega⟩
      ((List.finRange (n + k)).filter (pivot < ·)).foldl
        (fun (L, J) i =>
          let x := L pivot column
          let y := L i column
          if y == 0.0 then (L, J)
          else
            let r := hypotenuse x y
            (turn L (x / r) (y / r) pivot i, turn J (x / r) (y / r) pivot i))
        (L, J))
    (L, J)
  let lower (M : Mat Float (n + k) (n + k)) : Mat Float n n :=
    Mat.ofFn fun i j => M ⟨i.val + k, by omega⟩ ⟨j.val, by omega⟩
  ⟨lower L, lower J⟩

/-- The pencil whose eigenvalues inside the unit circle are those of the closed loop. -/
def pencil (A : Mat Float n n) (B : Mat Float n m) (Q : Mat Float n n) (R : Mat Float m m)
    (S : Mat Float n m) : Pencil (n + n) :=
  let L : Mat Float (n + n + m) (n + n + m) :=
    ((A.beside (Mat.zeros n n)).beside B).above (((-Q).beside (Mat.identity n)).beside (-S)) |>.above
      ((S.transpose.beside (Mat.zeros m n)).beside R)
  let J : Mat Float (n + n + m) (n + n + m) :=
    (((Mat.identity n).beside (Mat.zeros n n)).beside (Mat.zeros n m)).above
      (((Mat.zeros n n).beside A.transpose).beside (Mat.zeros n m)) |>.above
      (((Mat.zeros m n).beside (-B.transpose)).beside (Mat.zeros m m))
  compress L J

/-- The matrix whose eigenvalues are `(λ + ω) / (λ - ω)` for the eigenvalues `λ` of a pencil. Of a
few points `ω` of the unit circle the one that gives the smallest matrix is taken. -/
def Pencil.transformed? (p : Pencil n) : Option (Mat (Complex Float) n n) :=
  let candidates := (List.range 7).filterMap fun k =>
    let ω : Complex Float := Complex.onCircle (0.4 + 0.9 * Float.ofNat k)
    let combine (sign : Float) : Mat (Complex Float) n n :=
      Mat.ofFn fun i j => Complex.ofReal (p.left i j) + (ω.scale sign).scale (p.right i j)
    (Mat.eliminate? Complex.magnitude (combine (-1.0)) (combine 1.0)).map fun M =>
      (M.toList.foldl (fun s z => s + z.sizeOne) 0.0, M)
  match candidates with
  | [] => none
  | first :: rest =>
    let best := rest.foldl (fun b c => if c.1 < b.1 then c else b) first
    if best.1.isFinite then some best.2 else none

/-- The sum of the magnitudes in the largest column. -/
def normOne (M : Mat Float m n) : Float :=
  (List.finRange n).foldl (fun s j => max s (Vec.normOne (M.column j))) 0.0

/-- The distance from a positive number to the next larger one. -/
def spacing (x : Float) : Float := Float.ofBits (x.abs.toBits + 1) - x.abs

/-- The matrix differs from its transpose by rounding errors only. -/
def isSymmetric (M : Mat Float n n) : Bool :=
  normOne (M - M.transpose) ≤ spacing (normOne M) * 100.0

/-- The feedback gain of a solution. -/
def gain? (A : Mat Float n n) (B : Mat Float n m) (R : Mat Float m m) (S : Mat Float n m)
    (X : Mat Float n n) : Option (Mat Float m n) :=
  Mat.eliminate? Float.abs (R + B.transpose * X * B) (B.transpose * X * A + S.transpose)

/-- A better solution from a good one: the Lyapunov equation of its closed loop. -/
def refine (A : Mat Float n n) (B : Mat Float n m) (Q : Mat Float n n) (R : Mat Float m m)
    (S : Mat Float n m) (X : Mat Float n n) : Mat Float n n :=
  let better := do
    let K ← gain? A B R S X
    let closed := A - B * K
    let radius ← (Spectrum.radius closed).toOption
    -- Too near to the unit circle the Lyapunov equation loses more than it gains.
    if radius < 0.9999 then
      let weight := Q - S * K - (S * K).transpose + K.transpose * R * K
      let Y ← lyapunov closed.transpose weight
      if Y.anyEntry (!·.isFinite) then none else some Y.symmetrize
    else none
  better.getD X

/-- The stabilizing solution of the Riccati equation. -/
def riccati (A : Mat Float n n) (B : Mat Float n m) (Q : Mat Float n n) (R : Mat Float m m)
    (S : Mat Float n m) : Option (Mat Float n n) := do
  let infinite {a b : Nat} (M : Mat Float a b) : Bool := M.anyEntry (!·.isFinite)
  if infinite A || infinite B || infinite Q || infinite R || infinite S then none
  if !isSymmetric Q || !isSymmetric R then none
  let M ← (pencil A B Q R S).transformed?
  let t ← triangular? M
  let t := t.sort fun z => z.re < 0.0
  -- The first half of the basis spans the graph of the solution.
  let upper : Mat (Complex Float) n n := Mat.ofFn fun i j => t.basis (i.castAdd n) (j.castAdd n)
  let lower : Mat (Complex Float) n n := Mat.ofFn fun i j => t.basis (i.natAdd n) (j.castAdd n)
  -- A subspace that is nearly vertical has no slope.
  let double : Mat Float (n + n) (n + n) := Mat.ofFn fun i j =>
    Fin.addCases
      (fun r => Fin.addCases (fun c => (upper r c).re) (fun c => -(upper r c).im) j)
      (fun r => Fin.addCases (fun c => (upper r c).im) (fun c => (upper r c).re) j) i
  let sizes := Jacobi.singularValues double
  match sizes.head?, sizes.getLast? with
  | some largest, some smallest =>
    if smallest < 1e-14 * largest then none
    else
      -- Of a symmetric solution this product is Hermitian.
      let product : Mat (Complex Float) n n :=
        (Mat.ofFn fun i j => (upper j i).conjugate) * lower
      let size (M : Mat (Complex Float) n n) : Float := normOne (M.map Complex.magnitude)
      let skew : Mat (Complex Float) n n :=
        Mat.ofFn fun i j => product i j - (product j i).conjugate
      if max (spacing 1000.0) (0.1 * size product) < size skew then none
      else
        let X ← Mat.eliminate? Complex.magnitude upper.transpose lower.transpose
        let X : Mat Float n n := Mat.ofFn fun i j => (X j i).re
        let X := X.symmetrize
        if infinite X then none
        else some (refine A B Q R S (refine A B Q R S X))
  | _, _ => none

end RecedingHorizon.MatrixEquation
