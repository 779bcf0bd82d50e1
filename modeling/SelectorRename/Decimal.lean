/-
  Decimal numbers and the doubles next to them.

  * `Double`: a number `mantissa * 2 ^ exponent` with a mantissa of 53 bits at most.
  * `Double.round`: the double nearest to a fraction, the even one of two that are equally near.
  * `Double.ofScientific`: the double for some digits and a power of ten. Digits and power are
    rounded first, then their product or quotient.
  * `Double.shortest`: the fewest digits that lie nearer to a double than to any other.
  * `Double.text`: these digits with a point, and with an exponent if the number is large or small.
-/

namespace SelectorRename

/-- A nonnegative double. -/
structure Double where
  mantissa : Nat
  exponent : Int
  deriving DecidableEq, Repr

namespace Double

/-- The least exponent of a double. -/
def minExponent : Int := -1074

/-- The least mantissa with all 53 bits. -/
def leastNormal : Nat := 4503599627370496

/-- `num / den * 2 ^ (-e)` as a fraction of natural numbers. -/
def scaled (num den : Nat) (e : Int) : Nat × Nat :=
  if 0 ≤ e then (num, den * Nat.pow 2 e.toNat) else (num * Nat.pow 2 (-e).toNat, den)

/-- The natural number nearest to a fraction; a half goes to the even neighbour. -/
def nearest (num den : Nat) : Nat :=
  let down := num / den
  let twice := 2 * (num % den)
  if twice < den then down
  else if den < twice then down + 1
  else if down % 2 = 0 then down else down + 1

/-- The double nearest to `num / den`. -/
def round (num den : Nat) : Double :=
  let guess : Int := (num.log2 : Int) - den.log2 - 52
  let (n, d) := scaled num den guess
  let e := max minExponent (if n < leastNormal * d then guess - 1 else guess)
  let (n, d) := scaled num den e
  let m := nearest n d
  if m = 2 * leastNormal then ⟨leastNormal, e + 1⟩ else ⟨m, e⟩

/-- The value of a double as a fraction. -/
def fraction (x : Double) : Nat × Nat :=
  if 0 ≤ x.exponent then (x.mantissa * Nat.pow 2 x.exponent.toNat, 1)
  else (x.mantissa, Nat.pow 2 (-x.exponent).toNat)

/-- The rounded product of two doubles. -/
def mul (x y : Double) : Double :=
  round (x.fraction.1 * y.fraction.1) (x.fraction.2 * y.fraction.2)

/-- The rounded quotient of two doubles. -/
def div (x y : Double) : Double :=
  round (x.fraction.1 * y.fraction.2) (x.fraction.2 * y.fraction.1)

/-- A power of ten, rounded. -/
def powerOfTen (n : Nat) : Double := round (Nat.pow 10 n) 1

/-- The double for `digits * 10 ^ e`. A power too small for a double is divided out in steps. -/
def ofScientific (digits : Nat) (e : Int) : Double :=
  let x := round digits 1
  if 0 ≤ e then x.mul (powerOfTen e.toNat)
  else
    let steps := (-e).toNat / 308
    let x := (List.range (min steps 3)).foldl (fun x _ => x.div (powerOfTen 308)) x
    if 3 < steps then ⟨0, minExponent⟩ else x.div (powerOfTen ((-e).toNat % 308))

/-! ## Shortest digits -/

/-- The two ends, over `4 * den`, of what rounds to a double with value `num / den`. -/
def bounds (x : Double) : Nat × Nat :=
  let unit := x.fraction.1 / x.mantissa
  let below := if x.mantissa = leastNormal && minExponent < x.exponent then unit else 2 * unit
  (4 * x.fraction.1 - below, 4 * x.fraction.1 + 2 * unit)

/-- Whether `digits * 10 ^ e` rounds to a double. -/
def covers (x : Double) (digits : Nat) (e : Int) : Bool :=
  let (low, high) := x.bounds
  let (num, den) := (digits * Nat.pow 10 e.toNat * 4 * x.fraction.2, Nat.pow 10 (-e).toNat)
  if x.mantissa % 2 = 0 then low * den ≤ num && num ≤ high * den
  else low * den < num && num < high * den

/-- The distance of `digits * 10 ^ e` from a double, over a common denominator. -/
def distance (x : Double) (digits : Nat) (e : Int) : Nat :=
  let a := digits * Nat.pow 10 e.toNat * x.fraction.2
  let b := x.fraction.1 * Nat.pow 10 (-e).toNat
  max a b - min a b

/-- The digits in front of the point of a double. -/
def wholeDigits (x : Double) : Int :=
  let (num, den) := x.fraction
  if den ≤ num then (Nat.toDigits 10 (num / den)).length
  else 1 - ((Nat.toDigits 10 (den / num)).length : Int)

/-- The nearer one of two neighbouring numbers of digits; of two that are equally near the even one. -/
def nearer (x : Double) (down : Nat) (e : Int) : Nat :=
  let below := x.distance down e
  let above := x.distance (down + 1) e
  if below < above then down
  else if above < below then down + 1
  else if down % 2 = 0 then down else down + 1

/-- The neighbour of a double with `count` digits that rounds to it, and its power of ten. -/
def withDigits? (x : Double) (count : Nat) : Option (Nat × Int) :=
  let e := x.wholeDigits - count
  let down := x.fraction.1 * Nat.pow 10 (-e).toNat / (x.fraction.2 * Nat.pow 10 e.toNat)
  match x.covers down e, x.covers (down + 1) e with
  | true, true => some (x.nearer down e, e)
  | true, false => some (down, e)
  | false, true => some (down + 1, e)
  | false, false => none

/-- The fewest digits that round to a double, and their power of ten. -/
def shortest (x : Double) : Nat × Int :=
  ((List.range 18).findSome? x.withDigits?).getD (x.mantissa, x.exponent)

/-! ## Text -/

/-- Digits with a point behind the first `point` of them, which is in front of them all if `point`
    is zero or less. Zeros fill the gap to the point, and there is a digit on either side of it. -/
def positional (digits : List Char) (point : Int) : List Char :=
  let padded := List.replicate (1 - point).toNat '0' ++ digits
  let whole := (max point 1).toNat
  let behind := padded.drop whole
  padded.take whole ++ List.replicate (whole - padded.length) '0' ++
    '.' :: (if behind = [] then ['0'] else behind)

/-- Digits with a point behind the first one, if others follow, and the power of ten. -/
def scientific (digits : List Char) (power : Int) : List Char :=
  let behind := digits.drop 1
  digits.take 1 ++ (if behind = [] then [] else '.' :: behind) ++
    'e' :: (if power < 0 then '-' else '+') :: Nat.toDigits 10 power.natAbs

/-- The decimal text of a double. The power of ten is written out if the point is more than sixteen
    digits behind the beginning or more than four zeros in front of it. -/
def text (x : Double) : String :=
  if x.mantissa = 0 then "0.0"
  else
    let (number, e) := x.shortest
    let digits := Nat.toDigits 10 number
    let point := digits.length + e
    String.ofList (if -5 < point && point ≤ 16 then positional digits point
      else scientific digits (point - 1))

end Double

end SelectorRename
