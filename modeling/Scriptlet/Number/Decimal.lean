import Scriptlet.Number.Binary64

namespace Scriptlet

/-- The number `coefficient * 10^exponent`. -/
structure Decimal where
  coefficient : Nat
  exponent : Int
  deriving DecidableEq

/-- A positive float with the reals that round to it, all in units of `2^exponent`. The two ends round
to it exactly when its own mantissa is even. -/
structure Surrounds where
  low : Nat
  value : Nat
  high : Nat
  endsIncluded : Bool
  exponent : Int
  deriving DecidableEq

namespace Surrounds

open Binary64

/-- Each end lies half way to a neighbour. The neighbour below is half as far at the start of a block
of patterns, unless the block continues the spacing before it. -/
def ofPattern (p : Nat) : Surrounds :=
  let m := mantissa p
  let k := doublings p
  { low := if m = Nat.pow 2 52 ∧ 0 < k then 4 * m - 1 else 4 * m - 2
    value := 4 * m
    high := 4 * m + 2
    endsIncluded := m % 2 = 0
    exponent := (k : Int) - 1076 }

def admitsFromBelow (s : Surrounds) (x scale : Nat) : Bool :=
  if s.endsIncluded then s.low * scale ≤ x else s.low * scale < x

def admitsFromAbove (s : Surrounds) (x scale : Nat) : Bool :=
  if s.endsIncluded then x ≤ s.high * scale else x < s.high * scale

/-- The multiple of `10^k` that is nearest to the float among those that round to it. Only the two
multiples around the float can be; an exact tie between them goes up. -/
def onGrid? (s : Surrounds) (k : Int) : Option Nat :=
  let scale := Nat.pow 2 s.exponent.toNat * Nat.pow 10 (-k).toNat
  let unit := Nat.pow 2 (-s.exponent).toNat * Nat.pow 10 k.toNat
  let below := s.value * scale / unit
  let above := below + 1
  match s.admitsFromBelow (below * unit) scale, s.admitsFromAbove (above * unit) scale with
  | false, false => none
  | true, false => some below
  | false, true => some above
  | true, true => some (if 2 * (s.value * scale % unit) < unit then below else above)

/-- A grid on which no point is near the float unless it lies on the next finer one: `30103 / 100000`
is the logarithm of two, and the one added makes up for what it is off. -/
def startExponent (s : Surrounds) : Int :=
  ((s.value.log2 + 1 + s.exponent) * 30103) / 100000 + 1

end Surrounds

namespace Decimal

open Binary64

/-- Tries the grids from `10^k` down to `10^-1074`, on which every float lies. -/
def descend (s : Surrounds) (p : Nat) : Nat → Decimal
  | 0 => ⟨magnitude p * Nat.pow 5 1074, -1074⟩
  | n + 1 =>
    let k : Int := (n : Int) - 1073
    match s.onGrid? k with
    | some c => ⟨c, k⟩
    | none => descend s p n

/-- The decimal with the fewest digits that rounds to the float of a finite pattern, and of those the
nearest. -/
def shortest (p : Nat) : Decimal :=
  if p = 0 then ⟨0, 0⟩
  else
    let s := Surrounds.ofPattern p
    descend s p (s.startExponent + 1074).toNat

def digits (d : Decimal) : List Char := Nat.toDigits 10 d.coefficient

def zeros (n : Nat) : List Char := List.replicate n '0'

/-- All digits in place, with a point only where a fraction follows. -/
def positional (d : Decimal) : List Char :=
  let ds := d.digits
  let fraction := (-d.exponent).toNat
  if fraction = 0 then ds ++ zeros d.exponent.toNat
  else if fraction < ds.length then
    ds.take (ds.length - fraction) ++ '.' :: ds.drop (ds.length - fraction)
  else '0' :: '.' :: zeros (fraction - ds.length) ++ ds

/-- One digit before the point, at least one after it, and the exponent behind `E`. -/
def scientific (d : Decimal) : List Char :=
  match d.digits with
  | [] => []
  | lead :: rest =>
    lead :: '.' :: (if rest.isEmpty then ['0'] else rest) ++
      'E' :: (toString (d.exponent + rest.length)).toList

end Decimal

namespace Number

open Binary64

def signed (negative : Bool) (digits : List Char) : String :=
  String.ofList (if negative then '-' :: digits else digits)

/-- Whether the value of a pattern is zero or from a thousandth up to, and not including, ten
million. -/
def isOrdinary (p : Nat) : Bool :=
  p = 0 || unitsPerOne ≤ 1000 * magnitude p && magnitude p < Nat.pow 10 7 * unitsPerOne

/-- A number as source text shows it: always positional. -/
def literalText (x : Float) : String :=
  let p := pattern x
  if infinity < p then "NaN"
  else signed (isNegative x) (if p = infinity then "inf".toList else (Decimal.shortest p).positional)

/-- A number as programs print it: positional for ordinary magnitudes, otherwise scientific. -/
def text (x : Float) : String :=
  let p := pattern x
  if infinity < p then "NaN"
  else signed (isNegative x)
    (if p = infinity then "Infinity".toList
     else if isOrdinary p then (Decimal.shortest p).positional
     else (Decimal.shortest p).scientific)

/-- The value of a digit sequence before the point and one after it. -/
def ofDigits (whole fraction : List Char) : Float :=
  ofPattern false (nearest (Nat.ofDigitChars 10 (whole ++ fraction) 0) (Nat.pow 10 fraction.length))

end Number

end Scriptlet
