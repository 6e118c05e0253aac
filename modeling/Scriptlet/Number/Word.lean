import Scriptlet.Number.Binary64

namespace Scriptlet.Word

open Binary64

/-- The integer part of a float, clamped to the range of words. What is no number counts as zero. -/
def ofFloat (x : Float) : Int32 :=
  let whole : Int := magnitude (pattern x) / unitsPerOne
  if infinity < pattern x then 0
  else .ofIntClamp (if isNegative x then -whole else whole)

def toFloat (w : Int32) : Float :=
  ofPattern (w < 0) (nearest w.toInt.natAbs 1)

end Scriptlet.Word
