/-
# The interchange format of binary64 numbers

Sign, eleven bits of exponent and fifty-two of fraction. The exponent field
counts from the subnormal spacing, so a normal number is its significand
shifted by one less than the field. Every NaN is written as the quiet one
without a payload.

Key definitions: `Binary64.ofBits`, `Binary64.toBits`.
-/
import Columnar.Binary64

namespace Columnar
namespace Binary64

/-- The number that a pattern of 64 bits stands for. -/
def ofBits (bits : UInt64) : Binary64 :=
  let negative := bits >>> 63 == 1
  let exponent := ((bits >>> 52) &&& 0x7ff).toNat
  let fraction := (bits &&& 0xfffffffffffff).toNat
  if exponent = 0x7ff then
    if fraction = 0 then infinite negative else nan
  else if exponent = 0 then ofRatio negative fraction 1
  else ofRatio negative ((0x10000000000000 + fraction) <<< (exponent - 1)) 1

/-- The bits of a magnitude: exponent field and fraction. -/
def magnitudeBits (m : Magnitude) : Nat :=
  let shift := m.units.log2 - 52
  let significand := m.units >>> shift
  if significand < 0x10000000000000 then significand
  else ((shift + 1) <<< 52) + (significand - 0x10000000000000)

/-- The pattern of 64 bits that stands for a number. -/
def toBits : Binary64 → UInt64
  | nan => 0x7ff8000000000000
  | infinite negative => (if negative then 0x8000000000000000 else 0) + 0x7ff0000000000000
  | finite negative m =>
    (if negative then 0x8000000000000000 else 0) + UInt64.ofNat (magnitudeBits m)

end Binary64
end Columnar
