/-!
# Rounding quotients

`roundDiv num den` is the integer nearest to `num / den`, ties going to the even neighbour. It is
all that decimal text needs: a binary fraction is a quotient of naturals, and so is its multiple
by a power of ten. `decade` finds the power of ten at or below a positive quotient.
-/

namespace RecedingHorizon.Decimal

/-- The natural number nearest to `num / den`; a tie goes to the even one. -/
def roundDiv (num den : Nat) : Nat :=
  let quotient := num / den
  let twice := 2 * (num % den)
  if twice < den then quotient
  else if den < twice then quotient + 1
  else if quotient % 2 = 0 then quotient else quotient + 1

/-- Rounding is off by at most half a unit. -/
theorem roundDiv_within_half (num den : Nat) (h : 0 < den) :
    2 * (roundDiv num den * den) ≤ 2 * num + den ∧ 2 * num ≤ 2 * (roundDiv num den * den) + den := by
  have split := Nat.div_add_mod num den
  have small := Nat.mod_lt num h
  have expand : (num / den + 1) * den = num / den * den + den := by
    rw [Nat.add_mul, Nat.one_mul]
  rw [Nat.mul_comm] at split
  unfold roundDiv
  dsimp only
  by_cases below : 2 * (num % den) < den
  · rw [if_pos below]; omega
  · rw [if_neg below]
    by_cases above : den < 2 * (num % den)
    · rw [if_pos above]; omega
    · rw [if_neg above]
      by_cases even : num / den % 2 = 0
      · rw [if_pos even]; omega
      · rw [if_neg even]; omega

def digitCount (n : Nat) : Nat := (Nat.toDigits 10 n).length

/-- A quotient scaled by a power of ten, as numerator and denominator. -/
def scale (num den : Nat) (power : Int) : Nat × Nat :=
  if 0 ≤ power then (num * Nat.pow 10 power.toNat, den) else (num, den * Nat.pow 10 (-power).toNat)

/-- The exponent `e` with `10 ^ e ≤ num / den < 10 ^ (e + 1)`, for positive `num` and `den`. -/
def decade (num den : Nat) : Int :=
  let guess : Int := digitCount num - digitCount den
  let (n, d) := scale num den (-guess)
  if d ≤ n then guess else guess - 1

/-- The nearest multiple of `10 ^ power`, as a count of that unit. -/
def roundToPower (num den : Nat) (power : Int) : Nat :=
  let (n, d) := scale num den (-power)
  roundDiv n d

/-- A decimal number `digits * 10 ^ exponent`. -/
structure Digits where
  digits : Nat
  exponent : Int
  deriving Repr, DecidableEq

/-- The decimal number with `count` significant digits that is nearest to a positive quotient. -/
def roundSignificant (num den count : Nat) : Digits :=
  let lead := decade num den
  let power := lead - (count - 1 : Nat)
  let n := roundToPower num den power
  if n = Nat.pow 10 count then ⟨Nat.pow 10 (count - 1), power + 1⟩ else ⟨n, power⟩

/-- The exponent of the leading digit. -/
def Digits.lead (d : Digits) : Int := d.exponent + (digitCount d.digits - 1 : Nat)

/-- The same number with the trailing zeros of its digits moved into the exponent. -/
def Digits.strip (d : Digits) : Digits := go (digitCount d.digits) d
where
  go : Nat → Digits → Digits
    | 0, d => d
    | fuel + 1, d =>
      if d.digits ≠ 0 ∧ d.digits % 10 = 0 then go fuel ⟨d.digits / 10, d.exponent + 1⟩ else d

end RecedingHorizon.Decimal
