import HotplugDetect.Number.Power

/-! # Binary floating-point numbers of 64 bits

Finite values as `significand * 2 ^ exponent`, rounded from ratios to the nearest value with ties to
the even significand, and written with the fewest decimal digits that round back to them.
-/

namespace HotplugDetect

/-- The significand is below `2 ^ 53`, and at least `2 ^ 52` above the least exponent. -/
structure Binary64 where
  negative : Bool
  significand : Nat
  exponent : Int
  deriving DecidableEq

namespace Binary64

def leastExponent : Int := -1074

def zero : Binary64 := ⟨false, 0, leastExponent⟩

def scaleUp (n : Nat) (e : Int) : Nat := n * twoTo e.toNat

/-- `num / den` rounded to an integer, a half to the even neighbour. -/
def roundDiv (num den : Nat) : Nat :=
  let quotient := num / den
  let twice := 2 * (num % den)
  if twice < den then quotient
  else if den < twice then quotient + 1
  else quotient + quotient % 2

/-- The exponent at which a positive ratio has 53 significant bits, or the least one. -/
def ratioExponent (num den : Nat) : Int :=
  let guess := max ((num.log2 : Int) - den.log2 - 53) leastExponent
  if twoTo 53 ≤ scaleUp num (-guess) / scaleUp den guess then guess + 1 else guess

/-- The nearest value to a ratio of natural numbers; none beyond the largest value. -/
def ofRatio (num den : Nat) : Option Binary64 :=
  if num = 0 then some zero
  else
    let e := ratioExponent num den
    let m := roundDiv (scaleUp num (-e)) (scaleUp den e)
    let value : Binary64 := if m = twoTo 53 then ⟨false, twoTo 52, e + 1⟩ else ⟨false, m, e⟩
    if 971 < value.exponent then none else some value

def numerator (x : Binary64) : Nat := scaleUp x.significand x.exponent

def denominator (x : Binary64) : Nat := scaleUp 1 (-x.exponent)

def mul (x y : Binary64) : Option Binary64 :=
  ofRatio (x.numerator * y.numerator) (x.denominator * y.denominator)

def div (x y : Binary64) : Option Binary64 :=
  ofRatio (x.numerator * y.denominator) (x.denominator * y.numerator)

def powerOfTen (k : Nat) : Option Binary64 := ofRatio (tenTo k) 1

def digitCount (n : Nat) : Nat := (Nat.toDigits 10 n).length

/-- The decimal exponent of the leading digit of a positive ratio. -/
def leadingExponent (num den : Nat) : Int :=
  let guess := (digitCount num : Int) - digitCount den
  if den * tenTo guess.toNat ≤ num * tenTo (-guess).toNat then guess else guess - 1

/-- The decimal `digits * 10 ^ exponent`. -/
structure Decimal where
  digits : Nat
  exponent : Int

/-- Whether a decimal lies among the reals that round to `x`: the ends of that interval belong to
it when the significand is even. Distances are counted in quarters of the last place. -/
def covers (x : Binary64) (d : Decimal) : Bool :=
  let below := if x.significand = twoTo 52 ∧ leastExponent < x.exponent then 1 else 2
  let quarter : Binary64 := { x with exponent := x.exponent - 2 }
  let point := d.digits * tenTo d.exponent.toNat * scaleUp 1 (-quarter.exponent)
  let unit := tenTo (-d.exponent).toNat * scaleUp 1 quarter.exponent
  let low := (4 * x.significand - below) * unit
  let high := (4 * x.significand + 2) * unit
  if x.significand % 2 = 0 then low ≤ point && point ≤ high else low < point && point < high

/-- The covered neighbour of `x` on the grid of `count` digits, the nearer one of two. -/
def onGrid (x : Binary64) (leading : Int) (count : Nat) : Option Decimal :=
  let k := leading - count + 1
  let num := x.numerator * tenTo (-k).toNat
  let den := x.denominator * tenTo k.toNat
  let lower : Decimal := ⟨num / den, k⟩
  let upper : Decimal := ⟨num / den + 1, k⟩
  match x.covers lower, x.covers upper with
  | true, true => some (if roundDiv num den = lower.digits then lower else upper)
  | true, false => some lower
  | false, true => some upper
  | false, false => none

/-- The fewest digits that round back, as a digit text and the exponent of its first digit. -/
def shortest (x : Binary64) : List Char × Int :=
  let leading := leadingExponent x.numerator x.denominator
  match (List.range 17).findSome? fun i => x.onGrid leading (i + 1) with
  | none => (['0'], 0)
  | some d =>
    let text := Nat.toDigits 10 d.digits
    ((text.reverse.dropWhile (· = '0')).reverse, d.exponent + text.length - 1)

/-- The decimal exponents that are written positionally. -/
def positional (e : Int) : Bool := -5 ≤ e && e ≤ 15

def exponentText (e : Int) : List Char :=
  (if e < 0 then '-' else '+') :: Nat.toDigits 10 e.natAbs

def magnitudeText (x : Binary64) : List Char :=
  if x.significand = 0 then ['0', '.', '0']
  else
    let (digits, e) := x.shortest
    if positional e then
      if e < 0 then ['0', '.'] ++ List.replicate (-e - 1).toNat '0' ++ digits
      else if digits.length ≤ e.toNat + 1 then
        digits ++ List.replicate (e.toNat + 1 - digits.length) '0' ++ ['.', '0']
      else digits.take (e.toNat + 1) ++ ['.'] ++ digits.drop (e.toNat + 1)
    else
      let fraction := digits.drop 1
      digits.take 1 ++ (if fraction.isEmpty then [] else '.' :: fraction) ++ 'e' :: exponentText e

def text (x : Binary64) : String :=
  String.ofList ((if x.negative then ['-'] else []) ++ x.magnitudeText)

end Binary64

end HotplugDetect
