import Reckoner.Decimal.Basic

set_option autoImplicit false

namespace Reckoner.Double

/-- A finite number rounded to `places` places after the point (before it, where negative): the
exact value is rounded, a half to the even neighbour, and the decimal so found is read back. There
is no result where that is too large. Beyond 323 places nothing is rounded away, and to more than
308 places before the point nothing is left. -/
def roundTo? (x : Float) (places : Int) : Option Float :=
  if 323 < places then some x
  else if places < -308 then some (ofMagnitude (isNegative x) 0)
  else
    let top := units (magnitude x) * 10 ^ places.toNat
    let step := unit * 10 ^ (-places).toNat
    let bits := (Decimal.mk (roundHalfEven top step) (-places)).bits
    if bits = infinityBits then none else some (ofMagnitude (isNegative x) bits)

end Reckoner.Double
