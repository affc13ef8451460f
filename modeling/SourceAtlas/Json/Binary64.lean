/-!
Finite double-precision numbers, kept as an exact mantissa and binary exponent. `ofDecimal?` rounds a
decimal to the nearest of them; `ofScaled?` rounds its digits and then the product with a power of
ten, as it is done in double precision; `shortest` gives the fewest digits that are rounded back to a
number. All arithmetic is on natural numbers.
-/

namespace SourceAtlas

/-- The number `± mantissa · 2 ^ exponent`. -/
structure Binary64 where
  negative : Bool
  mantissa : Nat
  exponent : Int
  deriving DecidableEq, Repr

namespace Binary64

/-- The exponent below which no number has a unit. -/
def minExponent : Int := -1074

/-- The exponent of the numbers next to infinity. -/
def maxExponent : Int := 971

/-- Zero, with its sign. -/
def zero (negative : Bool) : Binary64 := ⟨negative, 0, minExponent⟩

/-- `num / den` rounded to a natural number, a half to the even neighbour. -/
def roundDiv (num den : Nat) : Nat :=
  let q := num / den
  let twice := 2 * (num % den)
  if twice > den || (twice == den && q % 2 == 1) then q + 1 else q

/-- A power of two. -/
def twoTo (n : Nat) : Nat := Nat.pow 2 n

/-- A power of ten. -/
def tenTo (n : Nat) : Nat := Nat.pow 10 n

/-- The first mantissa of full length. -/
def fullMantissa : Nat := twoTo 52

/-- `num / den` divided by `2 ^ e`, as a fraction again. -/
def scaleDown (num den : Nat) (e : Int) : Nat × Nat :=
  if 0 ≤ e then (num, den * twoTo e.toNat) else (num * twoTo (-e).toNat, den)

/-- The number nearest to a fraction, if it is finite. -/
def ofFraction? (negative : Bool) (num den : Nat) : Option Binary64 :=
  if num == 0 then some (zero negative)
  else
    let guess : Int := (num.log2 : Int) - (den.log2 : Int) - 52
    let (n, d) := scaleDown num den guess
    let e := max (if n / d < fullMantissa then guess - 1 else guess) minExponent
    let (n, d) := scaleDown num den e
    let m := roundDiv n d
    let (m, e) := if m == 2 * fullMantissa then (fullMantissa, e + 1) else (m, e)
    if e > maxExponent then none else some ⟨negative, m, e⟩

/-- The number of decimal digits of a positive number. -/
def digitCount (n : Nat) : Nat := (Nat.toDigits 10 n).length

/-- The number nearest to `digits · 10 ^ power`, if it is finite. -/
def ofDecimal? (negative : Bool) (digits : Nat) (power : Int) : Option Binary64 :=
  if digits == 0 then some (zero negative)
  else
    let top : Int := (digitCount digits : Int) + power
    if top > 310 then none
    else if top < -330 then some (zero negative)
    else if 0 ≤ power then ofFraction? negative (digits * tenTo power.toNat) 1
    else ofFraction? negative digits (tenTo (-power).toNat)

/-! ### Arithmetic -/

/-- The size of a number as a fraction. -/
def fraction (x : Binary64) : Nat × Nat :=
  (x.mantissa * twoTo x.exponent.toNat, twoTo (-x.exponent).toNat)

/-- The product, rounded, if it is finite. -/
def times? (x y : Binary64) : Option Binary64 :=
  ofFraction? (x.negative != y.negative) (x.fraction.1 * y.fraction.1) (x.fraction.2 * y.fraction.2)

/-- The quotient by a number that is not zero, rounded, if it is finite. -/
def over? (x y : Binary64) : Option Binary64 :=
  ofFraction? (x.negative != y.negative) (x.fraction.1 * y.fraction.2) (x.fraction.2 * y.fraction.1)

/-- The largest power of ten that is finite. -/
def maxPower : Nat := 308

/-- A power of ten, rounded. -/
def powerOfTen (n : Nat) : Binary64 := (ofFraction? false (tenTo n) 1).getD (zero false)

/-- The number times a power of ten, rounded. A power that is too small is applied in steps, each of
them rounded; `steps` of them are enough when no more can leave anything. -/
def scale? : (steps : Nat) → Binary64 → (power : Int) → Option Binary64
  | steps, x, power =>
    if power.natAbs ≤ maxPower then
      if 0 ≤ power then x.times? (powerOfTen power.natAbs) else x.over? (powerOfTen power.natAbs)
    else if x.mantissa == 0 then some x
    else if 0 ≤ power then none
    else match steps with
      | 0 => some (zero x.negative)
      | steps + 1 => (x.over? (powerOfTen maxPower)).bind fun y => scale? steps y (power + maxPower)

/-- The number `digits · 10 ^ power` for digits of at most 64 bits, which are rounded first, if it is
finite. -/
def ofScaled? (negative : Bool) (digits : Nat) (power : Int) : Option Binary64 :=
  (ofFraction? negative digits 1).bind fun x => scale? 2 x power

/-! ### The fewest digits -/

/-- `a · 2 ^ e ≤ b · 10 ^ k` for natural `a` and `b`. -/
def leScaled (a : Nat) (e : Int) (b : Nat) (k : Int) : Bool :=
  a * twoTo e.toNat * tenTo (-k).toNat ≤ b * tenTo k.toNat * twoTo (-e).toNat

/-- `b · 10 ^ k ≤ a · 2 ^ e` for natural `a` and `b`. -/
def geScaled (a : Nat) (e : Int) (b : Nat) (k : Int) : Bool :=
  b * tenTo k.toNat * twoTo (-e).toNat ≤ a * twoTo e.toNat * tenTo (-k).toNat

/-- The decimal `c · 10 ^ k` is rounded to this number: it lies between the halves to both
neighbours, which belong to the number with the even mantissa. -/
def reads (x : Binary64) (c : Nat) (k : Int) : Bool :=
  let e := x.exponent - 2
  let low := if x.mantissa == fullMantissa && x.exponent > minExponent then 4 * x.mantissa - 1
    else 4 * x.mantissa - 2
  let high := 4 * x.mantissa + 2
  if x.mantissa % 2 == 0 then leScaled low e c k && geScaled high e c k
  else !geScaled low e c k && !leScaled high e c k

/-- The mantissa's value divided by `10 ^ k`, as a fraction. -/
def overPower (x : Binary64) (k : Int) : Nat × Nat :=
  (x.mantissa * twoTo x.exponent.toNat * tenTo (-k).toNat,
    twoTo (-x.exponent).toNat * tenTo k.toNat)

/-- The decimal on the grid of `10 ^ k` that is rounded to this number, the nearer of two and of
equally near ones the even one. -/
def onGrid? (x : Binary64) (k : Int) : Option Nat :=
  let (num, den) := x.overPower k
  let below := num / den
  let twice := 2 * (num % den)
  let nearest := if twice < den || (twice == den && below % 2 == 0) then [below, below + 1]
    else [below + 1, below]
  nearest.find? fun c => c != 0 && x.reads c k

/-- The first grid with a decimal for this number, from coarse to fine. -/
def firstGrid (x : Binary64) : (fuel : Nat) → Int → Nat × Int
  | 0, k => (((x.overPower k).1 / (x.overPower k).2), k)
  | fuel + 1, k =>
    match x.onGrid? k with
    | some c => (c, k)
    | none => firstGrid x fuel (k - 1)

/-- The shortest decimal `c · 10 ^ k` for a number that is not zero. -/
def shortest (x : Binary64) : Nat × Int := x.firstGrid 700 310

/-! ### Text -/

/-- The digits of a decimal and the power that belongs to them, without trailing zeros. -/
def trimZeros : (fuel : Nat) → Nat × Int → Nat × Int
  | 0, d => d
  | fuel + 1, (c, k) => if c != 0 && c % 10 == 0 then trimZeros fuel (c / 10, k + 1) else (c, k)

/-- Positional from `0.00001` up to sixteen places before the point, with a signed exponent beyond; a
whole number shows its `.0`. -/
def layout (digits : List Char) (power : Int) : List Char :=
  let point : Int := digits.length + power
  if 0 ≤ power && point ≤ 16 then
    digits ++ List.replicate power.toNat '0' ++ ['.', '0']
  else if 0 < point && point ≤ 16 then
    digits.take point.toNat ++ '.' :: digits.drop point.toNat
  else if -5 < point && point ≤ 0 then
    '0' :: '.' :: List.replicate (-point).toNat '0' ++ digits
  else
    let sign := if 1 ≤ point then '+' else '-'
    let exponent := Nat.toDigits 10 (point - 1).natAbs
    digits.take 1 ++ (if digits.length == 1 then [] else '.' :: digits.drop 1) ++
      'e' :: sign :: exponent

/-- The number as written in a document. -/
def print (x : Binary64) : List Char :=
  let sign := if x.negative then ['-'] else []
  if x.mantissa == 0 then sign ++ ['0', '.', '0']
  else
    let (c, k) := trimZeros 400 x.shortest
    sign ++ layout (Nat.toDigits 10 c) k

end Binary64

end SourceAtlas
