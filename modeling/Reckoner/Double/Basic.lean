set_option autoImplicit false

/- Exact views of binary64 numbers. The magnitudes of all finite numbers are whole multiples of
2^-1074, and the bits of a magnitude, read as a natural number, count the magnitudes below it.
Reading and rounding are done on these naturals: `units` decodes, `nearest` encodes. -/
namespace Reckoner.Double

-- Powers of naturals are the core library's, also where an algebraic library is imported.
attribute [instance (high + 1), default_instance (high + 1)] instPowNat

/-- The bits of infinity. Those of every finite magnitude are below, those of NaN above. -/
def infinityBits : Nat := 2047 * 2 ^ 52

/-- The number of units of 2^-1074 in the magnitude with these bits. -/
def units (bits : Nat) : Nat :=
  if bits < 2 ^ 52 then bits else (bits % 2 ^ 52 + 2 ^ 52) * 2 ^ (bits / 2 ^ 52 - 1)

/-- One, counted in units. -/
def unit : Nat := 2 ^ 1074

def roundHalfEven (n d : Nat) : Nat :=
  let q := n / d
  let r := n % d
  if d < 2 * r ∨ (2 * r = d ∧ q % 2 = 1) then q + 1 else q

/-- The bits of the magnitude nearest to n / d; a tie goes to the even bits, and what rounds to
2^1024 or more is infinite. A carry out of the mantissa moves to the next exponent by itself,
because bits of neighbouring magnitudes are neighbours. -/
def nearest (n d : Nat) : Nat :=
  let scaled := n * unit
  let shift := Nat.log2 (scaled / d) - 52
  min infinityBits (shift * 2 ^ 52 + roundHalfEven scaled (d * 2 ^ shift))

def magnitude (x : Float) : Nat := x.toBits.toNat % 2 ^ 63

/-- Whether the sign bit is set; it is in -0.0, and not in NaN. -/
def isNegative (x : Float) : Bool := 2 ^ 63 ≤ x.toBits.toNat

def ofMagnitude (negative : Bool) (bits : Nat) : Float :=
  .ofBits (.ofNat (if negative then 2 ^ 63 + bits else bits))

def infinity (negative : Bool) : Float := ofMagnitude negative infinityBits

/-- The result of an undefined operation. -/
def nan : Float := 0.0 / 0.0

/-- The double nearest to n / d, or an infinity where that is too large. -/
def ofRatio (n : Int) (d : Nat) : Float := ofMagnitude (n < 0) (nearest n.natAbs d)

/-- The double nearest to a whole number; there is none where the rounded value is too large. -/
def ofInt? (n : Int) : Option Float :=
  let bits := nearest n.natAbs 1
  if bits = infinityBits then none else some (ofMagnitude (n < 0) bits)

def toRat (x : Float) : Rat :=
  let n : Int := units (magnitude x)
  mkRat (if isNegative x then -n else n) unit

/-- The whole number next to a finite number on the side of zero. -/
def truncate (x : Float) : Int :=
  let n : Int := units (magnitude x) / unit
  if isNegative x then -n else n

def floor (x : Float) : Int :=
  let n := units (magnitude x)
  if isNegative x then -(((n + (unit - 1)) / unit : Nat) : Int) else (n / unit : Nat)

def ceil (x : Float) : Int :=
  let n := units (magnitude x)
  if isNegative x then -((n / unit : Nat) : Int) else ((n + (unit - 1)) / unit : Nat)

def isWhole (x : Float) : Bool := x.isFinite && units (magnitude x) % unit == 0

def isOdd (x : Float) : Bool := isWhole x && units (magnitude x) / unit % 2 == 1

end Reckoner.Double
