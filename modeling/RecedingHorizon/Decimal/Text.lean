import RecedingHorizon.Decimal.Binary

/-!
# Decimal text of floating-point numbers

Three texts of a number: with a fixed number of places (`fixed`), with a fixed number of digits
and an exponent (`scientific`), and with the fewest digits that read back as the same number
(`shortest`). All three round the exact value once, ties going to the even digit.

The shortest text takes the first count of digits at which rounding the exact value lands inside
the interval of reals that read back as the number. That interval ends half way to the two
neighbouring floating-point numbers, ends included when the mantissa is even.
-/

namespace RecedingHorizon.Decimal

def padded (width n : Nat) : String :=
  let digits := Nat.toDigits 10 n
  String.ofList (List.replicate (width - digits.length) '0' ++ digits)

/-- The texts of the values that are not numbers. -/
def special (x : Float) : String :=
  if x.isNaN then "nan" else if x < 0.0 then "-inf" else "inf"

/-- The sign of a number in front of its text, also of a negative zero. -/
def signed (negative : Bool) (text : String) : String := if negative then "-" ++ text else text

/-- The text with `places` digits after the point. -/
def fixed (places : Nat) (x : Float) : String :=
  match Binary.ofFloat? x with
  | none => special x
  | some b =>
    let n := roundToPower b.numerator b.denominator (-(places : Int))
    let whole := n / Nat.pow 10 places
    let rest := n % Nat.pow 10 places
    let text := if places = 0 then toString whole else toString whole ++ "." ++ padded places rest
    signed b.negative text

/-- An exponent with its sign and at least two digits. -/
def exponentText (e : Int) : String :=
  (if e < 0 then "e-" else "e+") ++ padded 2 e.natAbs

/-- The text with one digit before the point, `places` after it, and an exponent. -/
def scientific (places : Nat) (x : Float) : String :=
  match Binary.ofFloat? x with
  | none => special x
  | some b =>
    let d : Digits :=
      if b.mantissa = 0 then ⟨0, -(places : Int)⟩
      else roundSignificant b.numerator b.denominator (places + 1)
    let whole := d.digits / Nat.pow 10 places
    let rest := d.digits % Nat.pow 10 places
    let text := if places = 0 then toString whole else toString whole ++ "." ++ padded places rest
    signed b.negative (text ++ exponentText (d.exponent + places))

/-- True if the decimal number reads back as the positive binary fraction. The neighbours are half
a unit of the last place away, a quarter of one below a power of two. -/
def readsBack (b : Binary) (d : Digits) : Bool :=
  let even := b.mantissa % 2 = 0
  let narrow := b.mantissa = Binary.hiddenBit ∧ b.exponent ≠ -1074
  -- Everything in quarters of a unit of the last place.
  let (num, den) := scale d.digits 1 d.exponent
  let value := 4 * num * Nat.pow 2 (-b.exponent).toNat
  let unit := den * Nat.pow 2 b.exponent.toNat
  let lower := (4 * b.mantissa - if narrow then 1 else 2) * unit
  let upper := (4 * b.mantissa + 2) * unit
  if even then lower ≤ value ∧ value ≤ upper else lower < value ∧ value < upper

/-- The fewest digits, at least `count`, that read back; seventeen always do. -/
def shortestDigits (b : Binary) : Digits := go 17 1
where
  go : Nat → Nat → Digits
    | 0, count => roundSignificant b.numerator b.denominator count
    | fuel + 1, count =>
      let d := roundSignificant b.numerator b.denominator count
      if readsBack b d then d else go fuel (count + 1)

/-- Where the shortest text leaves positional notation: below `10 ^ -4` and from `10 ^ 16` on. -/
def positional (lead : Int) : Bool := -5 < lead ∧ lead < 16

/-- The shortest text that reads back as the number. A whole number in positional notation keeps
one zero after the point. -/
def shortest (x : Float) : String :=
  match Binary.ofFloat? x with
  | none => special x
  | some b =>
    if b.mantissa = 0 then signed b.negative "0.0"
    else
      let d := (shortestDigits b).strip
      let digits := Nat.toDigits 10 d.digits
      let text :=
        -- The point stands behind the digits, in front of them or between them.
        if positional d.lead then
          if 0 ≤ d.exponent then
            String.ofList (digits ++ List.replicate d.exponent.toNat '0') ++ ".0"
          else if d.lead < 0 then
            "0." ++ String.ofList (List.replicate (-d.lead - 1).toNat '0' ++ digits)
          else
            let whole := d.lead.toNat + 1
            String.ofList (digits.take whole) ++ "." ++ String.ofList (digits.drop whole)
        else
          let rest := digits.drop 1
          String.ofList (digits.take 1) ++
            (if rest.isEmpty then "" else "." ++ String.ofList rest) ++ exponentText d.lead
      signed b.negative text

end RecedingHorizon.Decimal
