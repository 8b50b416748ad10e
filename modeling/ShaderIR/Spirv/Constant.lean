import ShaderIR.Instruction

/-!
The words of numeric constants. Floats are given by the 64 bits of their double.
-/

namespace ShaderIR.Spirv

/-- The words of an integer. Narrow signed ones are extended by their sign, others by zeros. -/
def intWords (width : UInt32) (signed : Bool) (n : UInt64) : List UInt32 :=
  if 32 < width then
    let (low, high) := splitWide n
    [low, high]
  else if width = 32 then [n.toUInt32]
  else if width = 0 then [0]
  else if signed then
    -- The sign is moved to the top and back by an arithmetic shift.
    let shift := 64 - width.toUInt64
    [((n <<< shift).toInt64 >>> shift.toInt64).toUInt64.toUInt32]
  else [(n &&& ((1 <<< width.toUInt64) - 1)).toUInt32]

def oneBits : UInt64 := 0x3FF0000000000000

def zeroBits : UInt64 := 0

/-- `m / 2 ^ shift`, rounded to nearest, ties to even. -/
def roundShift (m shift : Nat) : Nat :=
  let unit := 1 <<< shift
  let q := m / unit
  let r := 2 * (m % unit)
  if r < unit || (r == unit && q % 2 == 0) then q else q + 1

/-- Exponent and fraction bits of the single nearest to a finite double. -/
def singleMagnitude (exponent fraction : Nat) : Nat :=
  -- A normal double has the value `(2 ^ 52 + fraction) * 2 ^ (exponent - 1075)`; below `2 ^ -126`,
  -- which is exponent 897, singles are spaced evenly by `2 ^ -149`.
  let magnitude :=
    if exponent = 0 then 0
    else if 897 ≤ exponent then
      ((exponent - 897) <<< 23) + roundShift ((1 <<< 52) + fraction) 29
    else roundShift ((1 <<< 52) + fraction) (29 + (897 - exponent))
  min magnitude 0x7F800000

/-- The bits of a double narrowed to single precision. A NaN stays one. -/
def singleBits (double : UInt64) : UInt32 :=
  let n := double.toNat
  let sign := n >>> 63
  let exponent := (n >>> 52) % 0x800
  let fraction := n % 0x10000000000000
  let magnitude :=
    if exponent = 0x7FF then
      if fraction = 0 then 0x7F800000
      else 0x7F800000 + (fraction >>> 29) ||| 0x400000
    else singleMagnitude exponent fraction
  ((sign <<< 31) + magnitude).toUInt32

/-- The bits of a single narrowed to half precision, ties away from zero. -/
def halfBits (single : UInt32) : UInt32 :=
  let n := single.toNat
  let sign := (n >>> 31) * 0x8000
  let exponent := (n >>> 23) % 0x100
  let mantissa := n % 0x800000
  if exponent = 0xFF then
    (sign + 0x7C00 + if mantissa = 0 then 0 else 0x200).toUInt32
  -- Exponents are biased by 127 in a single and by 15 in a half.
  else if 143 ≤ exponent then (sign + 0x7C00).toUInt32
  else if exponent ≤ 112 then
    if exponent < 102 then sign.toUInt32
    else
      let full := mantissa + 0x800000
      let shift := 126 - exponent
      (sign + (full >>> shift) + (full >>> (shift - 1)) % 2).toUInt32
  else
    (sign + ((exponent - 112) <<< 10) + (mantissa >>> 13) + (mantissa >>> 12) % 2).toUInt32

def floatWords (width : UInt32) (double : UInt64) : List UInt32 :=
  if width = 16 then [halfBits (singleBits double)]
  else if width = 64 then
    let (low, high) := splitWide double
    [low, high]
  else [singleBits double]

end ShaderIR.Spirv
