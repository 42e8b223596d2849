/-!
# The shortest decimal that reads back

A binary floating-point number stands for every real that rounds to it. Of the decimals
among these, this module picks the one to show: of all grids `c · 10 ^ k` the coarsest one
with a point in the interval, and on it the point nearest to the number; of two equally near
points the upper one. So no decimal with fewer digits reads back as the same number.

All numbers are exact: an interval is held in multiples of `2 ^ -1075`, in which every
finite 64-bit number and every midpoint between two neighbours is a natural number.

* `Binary64.ofBits` takes a word apart into sign, class and magnitude;
* `Magnitude.interval` is the interval of the reals that round to it;
* `Interval.shortest` is the decimal to show.
-/

namespace ItemAttrs.Decimal

/-- A finite number without its sign: `mantissa · 2 ^ (exponent - 1074)`. -/
structure Magnitude where
  mantissa : Nat
  exponent : Nat
  deriving DecidableEq, Repr

/-- **What a 64-bit word says.** -/
inductive Binary64 where
  /-- A number, negative if the flag is set (zero has a sign, too). -/
  | finite (negative : Bool) (magnitude : Magnitude)
  | infinite (negative : Bool)
  | notANumber
  deriving DecidableEq, Repr

/-- The mantissa of the powers of two that are not among the smallest numbers. -/
def hiddenBit : Nat := Nat.pow 2 52

/-- **Reads a word:** one sign bit, eleven bits of exponent, fifty-two of fraction. -/
def Binary64.ofBits (bits : UInt64) : Binary64 :=
  let n := bits.toNat
  let negative := Nat.pow 2 63 ≤ n
  let biased := n / Nat.pow 2 52 % Nat.pow 2 11
  let fraction := n % Nat.pow 2 52
  if biased = 2047 then
    if fraction = 0 then .infinite negative else .notANumber
  else if biased = 0 then .finite negative ⟨fraction, 0⟩
  else .finite negative ⟨hiddenBit + fraction, biased - 1⟩

/-- An interval around a number, in multiples of `2 ^ -1075`. Its ends belong to it if
`closed` is set. -/
structure Interval where
  low : Nat
  value : Nat
  high : Nat
  closed : Bool
  deriving DecidableEq, Repr

/-- **The reals that round to a magnitude.** The ends lie midway to the neighbours, and the
neighbour below a power of two is half as far away as the one above. Midpoints round to the
number with the even mantissa. -/
def Magnitude.interval (m : Magnitude) : Interval :=
  let value := m.mantissa * Nat.pow 2 (m.exponent + 1)
  let below := if m.mantissa = hiddenBit ∧ 0 < m.exponent
    then Nat.pow 2 (m.exponent - 1) else Nat.pow 2 m.exponent
  ⟨value - below, value, value + Nat.pow 2 m.exponent, m.mantissa % 2 == 0⟩

/-- A decimal `digits · 10 ^ exponent`. -/
structure Scaled where
  digits : Nat
  exponent : Int
  deriving DecidableEq, Repr

namespace Interval

/-- The step of the grid `10 ^ k`, as a fraction of multiples of `2 ^ -1075`. -/
def gridStep : Int → Nat × Nat
  | .ofNat k => (Nat.pow 2 1075 * Nat.pow 10 k, 1)
  | .negSucc k => (Nat.pow 2 1075, Nat.pow 10 (k + 1))

/-- The point `c · 10 ^ k` lies in the interval. -/
def holds (i : Interval) (k : Int) (c : Nat) : Bool :=
  let (num, den) := gridStep k
  if i.closed then i.low * den ≤ c * num && c * num ≤ i.high * den
  else i.low * den < c * num && c * num < i.high * den

/-- **The point of the grid `10 ^ k` to show,** if the grid has one in the interval. Only the
two neighbours of the number need a look. -/
def onGrid (i : Interval) (k : Int) : Option Nat :=
  let (num, den) := gridStep k
  let c := i.value * den / num
  match i.holds k c, i.holds k (c + 1) with
  | true, true => some (if 2 * (i.value * den) < (2 * c + 1) * num then c else c + 1)
  | true, false => some c
  | false, true => some (c + 1)
  | false, false => none

/-- The coarsest of the grids `10 ^ k, 10 ^ (k - 1), …` (`steps` of them) with a point to
show. -/
def search (i : Interval) : Nat → Int → Option Scaled
  | 0, _ => none
  | steps + 1, k =>
    match i.onGrid k with
    | some c => some ⟨c, k⟩
    | none => i.search steps (k - 1)

/-- **The decimal to show.** The search starts above the largest number and ends at the grid
on which every number lies. -/
def shortest (i : Interval) : Scaled := (i.search 1384 309).getD ⟨0, 0⟩

end Interval

end ItemAttrs.Decimal
