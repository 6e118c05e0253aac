namespace Scriptlet.Binary64

/-- How many units of the least spacing, `2^-1074`, make up one. -/
def unitsPerOne : Nat := Nat.pow 2 1074

/-- The pattern of infinity. Patterns below it are finite and patterns above it are no number. -/
def infinity : Nat := 2047 * Nat.pow 2 52

/-- How often the spacing of the floats has doubled below the pattern. The first two blocks of `2^52`
patterns, subnormal and normal, share one spacing. -/
def doublings (p : Nat) : Nat := p / Nat.pow 2 52 - 1

/-- The multiple of the local spacing that the pattern stands for. -/
def mantissa (p : Nat) : Nat := p - doublings p * Nat.pow 2 52

/-- The value of a pattern in units of the least spacing. -/
def magnitude (p : Nat) : Nat := mantissa p <<< doublings p

/-- The natural number nearest to `num / den`, where a half goes to the even neighbour. -/
def roundDiv (num den : Nat) : Nat :=
  let q := num / den
  let twice := 2 * (num % den)
  if twice < den then q
  else if den < twice then q + 1
  else q + q % 2

/-- The pattern whose value is nearest to `num / den`. A mantissa that rounds up to `2^53` carries
into the next block of patterns, where it stands for the same value. -/
def nearest (num den : Nat) : Nat :=
  let scaled := num * unitsPerOne
  let k := (scaled / den).log2 - 52
  min infinity (k * Nat.pow 2 52 + roundDiv scaled (den <<< k))

/-- The bits of a float below its sign. -/
def pattern (x : Float) : Nat := x.toBits.toNat % Nat.pow 2 63

/-- Whether the sign bit is set, which it is for negative zero too. -/
def isNegative (x : Float) : Bool := Nat.pow 2 63 ≤ x.toBits.toNat

/-- The float with the given sign and pattern. -/
def ofPattern (negative : Bool) (p : Nat) : Float :=
  .ofBits (.ofNat (if negative then Nat.pow 2 63 + p else p))

end Scriptlet.Binary64
