import ItemAttrs.Decimal.Shortest

/-!
# Writing decimals

A decimal with digits `d₁d₂…dₙ` and its point after the `p`-th digit is written either
positionally or with an exponent. A `Notation` says for which `p` it is positional, and what
stands for the values that are no finite numbers.
-/

namespace ItemAttrs.Decimal

/-- **How decimals are written.** Positional notation reaches from point `leastPoint` to
point `mostPoint`; beyond, one digit stands before the point and an exponent follows. -/
structure Notation where
  leastPoint : Int
  mostPoint : Int
  infinity : String
  notANumber : String

namespace Notation

/-- The digits with a point after the first `point` of them. An integer keeps one zero after
its point. -/
def positional (digits : List Char) (point : Int) : List Char :=
  match point with
  | .ofNat p =>
    if p = 0 then ['0', '.'] ++ digits
    else if digits.length ≤ p then
      digits ++ List.replicate (p - digits.length) '0' ++ ['.', '0']
    else digits.take p ++ ['.'] ++ digits.drop p
  | .negSucc p => ['0', '.'] ++ List.replicate (p + 1) '0' ++ digits

/-- The first digit, the others behind a point if there are any, and the exponent. -/
def scientific (digits : List Char) (point : Int) : List Char :=
  let mantissa := match digits with
    | [] => []
    | [d] => [d]
    | d :: rest => d :: '.' :: rest
  mantissa ++ ['e'] ++ (toString (point - 1)).toList

/-- A decimal above zero. -/
def scaled (f : Notation) (d : Scaled) : List Char :=
  let digits := Nat.toDigits 10 d.digits
  let point := d.exponent + digits.length
  if f.leastPoint ≤ point ∧ point ≤ f.mostPoint then positional digits point
  else scientific digits point

/-- A finite number without its sign. -/
def magnitude (f : Notation) (m : Magnitude) : List Char :=
  if m.mantissa = 0 then ['0', '.', '0'] else f.scaled m.interval.shortest

/-- **The written form of a 64-bit number.** -/
def binary64 (f : Notation) : Binary64 → List Char
  | .finite negative m => (if negative then ['-'] else []) ++ f.magnitude m
  | .infinite negative => (if negative then ['-'] else []) ++ f.infinity.toList
  | .notANumber => f.notANumber.toList

end Notation

end ItemAttrs.Decimal
