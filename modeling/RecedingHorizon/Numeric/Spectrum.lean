import RecedingHorizon.Numeric.Worksheet
import RecedingHorizon.Numeric.Reflection
import RecedingHorizon.Linear.Complex
import RecedingHorizon.Error

/-!
# Eigenvalues of a general matrix

The matrix is first balanced: rows and columns that isolate an eigenvalue are moved to the border,
and the rest is scaled by powers of two until rows and columns are equally large. Reflections then
bring it to a form with one diagonal below the main one, and double-shift QR steps make the entries
of that diagonal vanish one by one. What splits off at the end is a single entry or a two-by-two
block, whose eigenvalues have a closed form.
-/

namespace RecedingHorizon.Spectrum

/-- The distance from one to the next larger number. -/
def unit : Float := 2.220446049250313e-16

/-- The smallest number with full precision. -/
def tiny : Float := 2.2250738585072014e-308

/-! ### Balancing -/

/-- A row among the first `high + 1` whose entries off the diagonal vanish in these columns. -/
def isolatedRow? (w : Worksheet) (high : Nat) : Option Nat :=
  ((List.range (high + 1)).reverse).find? fun i =>
    (List.range (high + 1)).all fun j => i == j || w.read i j == 0.0

/-- A column from `low` to `high` whose entries off the diagonal vanish in these rows. -/
def isolatedColumn? (w : Worksheet) (low high : Nat) : Option Nat :=
  (List.range' low (high + 1 - low)).find? fun j =>
    (List.range' low (high + 1 - low)).all fun i => i == j || w.read i j == 0.0

/-- Exchanges two indices in rows and columns. -/
def exchange (w : Worksheet) (size i j : Nat) : Worksheet :=
  if i = j then w else (w.swapColumns size i j).swapRows i j

/-- Moves isolated eigenvalues to the end; returns how many rows and columns are left in front. -/
def moveDown (size : Nat) : (count : Nat) → Worksheet → Nat × Worksheet
  | 0, w => (0, w)
  | count + 1, w =>
    match isolatedRow? w count with
    | some i => moveDown size count (exchange w size i count)
    | none => (count + 1, w)

/-- Moves isolated eigenvalues to the front, below index `count`. -/
def moveUp (size count : Nat) : (fuel low : Nat) → Worksheet → Nat × Worksheet
  | 0, low, w => (low, w)
  | fuel + 1, low, w =>
    match isolatedColumn? w low (count - 1) with
    | some j => moveUp size count fuel (low + 1) (exchange w size j low)
    | none => (low, w)

def length (xs : List Float) : Float :=
  let largest := xs.foldl (fun m x => max m x.abs) 0.0
  if largest == 0.0 then 0.0
  else largest * Float.sqrt (xs.foldl (fun s x => s + (x / largest) * (x / largest)) 0.0)

/-- The power of two by which an index is scaled when its column and row have lengths `c` and `r`. -/
def scaling (c r : Float) : Float :=
  grow 2100 1.0 c r
where
  grow : Nat → Float → Float → Float → Float
    | 0, f, _, _ => f
    | fuel + 1, f, c, r =>
      if c < r / 2.0 ∧ c < 1e300 then grow fuel (f * 2.0) (c * 2.0) (r / 2.0)
      else shrink fuel f c r
  shrink : Nat → Float → Float → Float → Float
    | 0, f, _, _ => f
    | fuel + 1, f, c, r =>
      if r ≤ c / 2.0 ∧ r < 1e300 then shrink fuel (f / 2.0) (c / 2.0) (r * 2.0) else f

/-- One pass of scaling over the indices from `low` to `high`; says whether anything changed. -/
def scalePass (size low high : Nat) (w : Worksheet) : Bool × Worksheet :=
  (List.range' low (high + 1 - low)).foldl
    (fun (changed, w) i =>
      let inner := List.range' low (high + 1 - low)
      let c := length (inner.map fun k => w.read k i)
      let r := length (inner.map fun k => w.read i k)
      if c == 0.0 || r == 0.0 then (changed, w)
      else
        let f := scaling c r
        if f * c + r / f ≥ 0.95 * (c + r) then (changed, w)
        else
          let rows := (List.range size).foldl (fun w j => w.write i j (w.read i j / f)) w
          (true, (List.range size).foldl (fun w k => w.write k i (w.read k i * f)) rows))
    (false, w)

/-- Scales until nothing changes any more. -/
def scaleAll (size low high : Nat) : (fuel : Nat) → Worksheet → Worksheet
  | 0, w => w
  | fuel + 1, w =>
    match scalePass size low high w with
    | (true, w) => scaleAll size low high fuel w
    | (false, w) => w

/-! ### Reduction -/

/-- The matrix with one column reflected onto its first two active entries. -/
def reduceColumn (size high : Nat) (w : Worksheet) (k : Nat) : Worksheet :=
  let rest := List.range' (k + 2) (high - (k + 1))
  let r := Reflection.ofVector (w.read (k + 1) k) (rest.map fun i => w.read i k)
  let w := w.write (k + 1) k r.first
  let w := rest.foldl (fun w i => w.write i k 0.0) w
  let normal := ((k + 1, 1.0) :: rest.zip r.normal)
  -- From the right on all rows, then from the left on the columns behind.
  let w := (List.range (high + 1)).foldl
    (fun w i =>
      let s := normal.foldl (fun s (j, v) => s + w.read i j * v) 0.0
      normal.foldl (fun w (j, v) => w.write i j (w.read i j - r.weight * s * v)) w)
    w
  (List.range' (k + 1) (size - (k + 1))).foldl
    (fun w j =>
      let s := normal.foldl (fun s (i, v) => s + w.read i j * v) 0.0
      normal.foldl (fun w (i, v) => w.write i j (w.read i j - r.weight * s * v)) w)
    w

/-- The balanced matrix with zeros below its first lower diagonal. -/
def reduce (size low high : Nat) (w : Worksheet) : Worksheet :=
  (List.range' low (high - 1 - low)).foldl (reduceColumn size high) w

/-! ### Two-by-two blocks -/

/-- The eigenvalues of the block with rows `a b` and `c d`. -/
def ofBlock (a b c d : Float) : Complex Float × Complex Float :=
  if c == 0.0 || b == 0.0 then (⟨a, 0.0⟩, ⟨d, 0.0⟩)
  else if a - d == 0.0 && withSign 1.0 b != withSign 1.0 c then
    let im := Float.sqrt b.abs * Float.sqrt c.abs
    (⟨a, im⟩, ⟨d, -im⟩)
  else
    let gap := a - d
    let p := 0.5 * gap
    let large := max b.abs c.abs
    let small := min b.abs c.abs * withSign 1.0 b * withSign 1.0 c
    let scale := max p.abs large
    let z := (p / scale) * p + (large / scale) * small
    if z ≥ 4.0 * unit then
      let z := p + withSign (Float.sqrt scale * Float.sqrt z) p
      (⟨d + z, 0.0⟩, ⟨d - (large / z) * small, 0.0⟩)
    else nearlyEqual a b c d
where
  /-- The case of a complex pair, or of two real eigenvalues that are almost equal. -/
  nearlyEqual (a b c d : Float) : Complex Float × Complex Float :=
    let gap := a - d
    let p := 0.5 * gap
    let sigma := b + c
    let tau := hypotenuse sigma gap
    let cs := Float.sqrt (0.5 * (1.0 + sigma.abs / tau))
    let sn := -(p / (tau * cs)) * withSign 1.0 sigma
    let aa := a * cs + b * sn
    let bb := -a * sn + b * cs
    let cc := c * cs + d * sn
    let dd := -c * sn + d * cs
    let a := aa * cs + cc * sn
    let b := bb * cs + dd * sn
    let c := -aa * sn + cc * cs
    let d := -bb * sn + dd * cs
    let middle := 0.5 * (a + d)
    if c == 0.0 then (⟨middle, 0.0⟩, ⟨middle, 0.0⟩)
    else if b == 0.0 then (⟨middle, 0.0⟩, ⟨middle, 0.0⟩)
    else if withSign 1.0 b == withSign 1.0 c then
      let p := withSign (Float.sqrt b.abs * Float.sqrt c.abs) c
      (⟨middle + p, 0.0⟩, ⟨middle - p, 0.0⟩)
    else
      let im := Float.sqrt b.abs * Float.sqrt c.abs
      (⟨middle, im⟩, ⟨middle, -im⟩)

/-! ### Double-shift steps -/

/-- The first index of the active block that ends at `bottom`: the entry left of its diagonal is
negligible, or it is the first of all. -/
def blockStart (w : Worksheet) (low high : Nat) (smallest : Float) : (steps k : Nat) → Nat
  | 0, k => k
  | steps + 1, k =>
    if k ≤ low then low
    else
      let sub := (w.read k (k - 1)).abs
      let above := w.read (k - 1) (k - 1)
      let here := w.read k k
      let sum := above.abs + here.abs
      -- If both diagonal entries vanish, their neighbours give the scale.
      let sum :=
        if sum == 0.0 then
          sum + (if low + 2 ≤ k then (w.read (k - 1) (k - 2)).abs else 0.0)
            + (if k + 1 ≤ high then (w.read (k + 1) k).abs else 0.0)
        else sum
      let negligible :=
        if sub ≤ smallest then true
        else if sub ≤ unit * sum then
          -- A small entry is only negligible if its product with the one across the diagonal is.
          let across := (w.read (k - 1) k).abs
          let ab := max sub across
          let ba := min sub across
          let aa := max here.abs (above - here).abs
          let bb := min here.abs (above - here).abs
          let s := aa + ab
          ba * (ab / s) ≤ max smallest (unit * (bb * (aa / s)))
        else false
      if negligible then k else blockStart w low high smallest steps (k - 1)

/-- The two shifts of a step, from the block in the lower corner or, now and then, from the sizes
of the entries below the diagonal. -/
def shifts (w : Worksheet) (top bottom count : Nat) : Complex Float × Complex Float :=
  let (h11, h12, h21, h22) :=
    if count % 20 = 0 then
      let s := (w.read bottom (bottom - 1)).abs + (w.read (bottom - 1) (bottom - 2)).abs
      let h := 0.75 * s + w.read bottom bottom
      (h, -0.4375 * s, s, h)
    else if count % 10 = 0 then
      let s := (w.read (top + 1) top).abs + (w.read (top + 2) (top + 1)).abs
      let h := 0.75 * s + w.read top top
      (h, -0.4375 * s, s, h)
    else
      (w.read (bottom - 1) (bottom - 1), w.read (bottom - 1) bottom, w.read bottom (bottom - 1),
        w.read bottom bottom)
  -- Scaled by the sizes of its entries, so that no product of them overflows.
  let s := h11.abs + h12.abs + h21.abs + h22.abs
  if s == 0.0 then (⟨0.0, 0.0⟩, ⟨0.0, 0.0⟩)
  else
    let (h11, h12, h21, h22) := (h11 / s, h12 / s, h21 / s, h22 / s)
    let half := (h11 + h22) / 2.0
    let det := (h11 - half) * (h22 - half) - h12 * h21
    let root := Float.sqrt det.abs
    if det ≥ 0.0 then (⟨half * s, root * s⟩, ⟨half * s, -(root * s)⟩)
    else
      let x := half + root
      let y := half - root
      -- Two real eigenvalues are replaced by the one that is nearer to the corner, taken twice.
      let nearer := if (x - h22).abs ≤ (y - h22).abs then x * s else y * s
      (⟨nearer, 0.0⟩, ⟨nearer, 0.0⟩)

/-- Where a step starts, with the first column of the shifted square: as low as two consecutive
small entries allow. -/
def stepStart (w : Worksheet) (top : Nat) (s₁ s₂ : Complex Float) :
    (steps k : Nat) → Nat × Float × Float × Float
  | steps, k =>
    let here := w.read k k
    let next := w.read (k + 1) k
    let s := (here - s₂.re).abs + s₂.im.abs + next.abs
    let h := next / s
    let v₁ := h * w.read k (k + 1) + (here - s₁.re) * ((here - s₂.re) / s) - s₁.im * (s₂.im / s)
    let v₂ := h * (here + w.read (k + 1) (k + 1) - s₁.re - s₂.re)
    let v₃ := h * w.read (k + 2) (k + 1)
    let size := v₁.abs + v₂.abs + v₃.abs
    let (v₁, v₂, v₃) := (v₁ / size, v₂ / size, v₃ / size)
    match steps with
    | 0 => (k, v₁, v₂, v₃)
    | steps + 1 =>
      if k ≤ top then (k, v₁, v₂, v₃)
      else
        let around := (w.read (k - 1) (k - 1)).abs + here.abs + (w.read (k + 1) (k + 1)).abs
        if (w.read k (k - 1)).abs * (v₂.abs + v₃.abs) ≤ unit * v₁.abs * around then (k, v₁, v₂, v₃)
        else stepStart w top s₁ s₂ steps (k - 1)

/-- Pushes the reflection of a step one row further down. -/
def push (top bottom start : Nat) (v : Float × Float × Float) (w : Worksheet) (k : Nat) :
    Worksheet :=
  let three := k + 2 ≤ bottom
  -- The first reflection is the given one; every later one removes what the one before left behind.
  let (x, rest) :=
    if start < k then
      (w.read k (k - 1), if three then [w.read (k + 1) (k - 1), w.read (k + 2) (k - 1)]
        else [w.read (k + 1) (k - 1)])
    else (v.1, if three then [v.2.1, v.2.2] else [v.2.1])
  let r := Reflection.ofVector x rest
  let w :=
    if start < k then
      let w := (w.write k (k - 1) r.first).write (k + 1) (k - 1) 0.0
      if three then w.write (k + 2) (k - 1) 0.0 else w
    else if top < start then w.write k (k - 1) (w.read k (k - 1) * (1.0 - r.weight))
    else w
  let normal := (k, 1.0) :: (List.range' (k + 1) rest.length).zip r.normal
  let w := (List.range' k (bottom + 1 - k)).foldl
    (fun w j =>
      let s := normal.foldl (fun s (i, v) => s + v * w.read i j) 0.0
      normal.foldl (fun w (i, v) => w.write i j (w.read i j - s * (r.weight * v))) w)
    w
  -- From the right it reaches one row below its own rows.
  let last := min (k + 3) bottom
  (List.range' top (last + 1 - top)).foldl
    (fun w i =>
      let s := normal.foldl (fun s (j, v) => s + v * w.read i j) 0.0
      normal.foldl (fun w (j, v) => w.write i j (w.read i j - s * (r.weight * v))) w)
    w

/-- The eigenvalues of the rows from `low` to `bottom`, or nothing if the steps do not converge.
`count` counts the steps since the last eigenvalue split off. -/
def deflate (low high : Nat) (smallest : Float) :
    (fuel bottom count : Nat) → Worksheet → List (Complex Float) → Option (List (Complex Float))
  | 0, _, _, _, _ => none
  | fuel + 1, bottom, count, w, found =>
    let top := blockStart w low high smallest (bottom - low) bottom
    let w := if low < top then w.write top (top - 1) 0.0 else w
    -- One or two rows that are left have their eigenvalues split off; more take another step.
    if top = bottom then
      let found := ⟨w.read bottom bottom, 0.0⟩ :: found
      if top ≤ low then some found else deflate low high smallest fuel (top - 1) 0 w found
    else if top + 1 = bottom then
      let (x, y) := ofBlock (w.read top top) (w.read top bottom) (w.read bottom top)
        (w.read bottom bottom)
      let found := x :: y :: found
      if top ≤ low then some found else deflate low high smallest fuel (top - 1) 0 w found
    else
      let (s₁, s₂) := shifts w top bottom (count + 1)
      let (start, v) := stepStart w top s₁ s₂ (bottom - 2 - top) (bottom - 2)
      let w := (List.range' start (bottom - start)).foldl (push top bottom start v) w
      deflate low high smallest fuel bottom (count + 1) w found

/-- The eigenvalues of a square matrix with finite entries. -/
def eigenvalues? {n : Nat} (M : Mat Float n n) : Option (List (Complex Float)) :=
  if n = 0 then some []
  else
    let (count, w) := moveDown n n (Worksheet.ofMat M)
    let diagonal (w : Worksheet) (l : List Nat) : List (Complex Float) :=
      l.map fun i => ⟨w.read i i, 0.0⟩
    if count = 0 then some (diagonal w (List.range n))
    else
      let (low, w) := moveUp n count count 0 w
      if count ≤ low then some (diagonal w (List.range n))
      else
        let high := count - 1
        let w := reduce n low high (scaleAll n low high 100 w)
        -- Rows and columns that were moved aside have their eigenvalues on the diagonal.
        let isolated := diagonal w (List.range low ++ List.range' count (n - count))
        let active := count - low
        let smallest := tiny * (Float.ofNat active / unit)
        (deflate low high smallest (31 * max 10 active + n) high 0 w []).map (isolated ++ ·)

/-- The largest magnitude of an eigenvalue; there has to be one. -/
def radius {n : Nat} (M : Mat Float n n) : Except Fault Float :=
  if M.anyEntry (!·.isFinite) then .error .singular
  else
    match eigenvalues? M with
    | none => .error .singular
    | some [] => .error .emptyReduction
    | some (z :: rest) => .ok (rest.foldl (fun m z => Scalar.maximum m z.magnitude) z.magnitude)

end RecedingHorizon.Spectrum
