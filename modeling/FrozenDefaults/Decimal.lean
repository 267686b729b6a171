/-!
# Decimal numbers

The magnitude that a text writes in decimal digits is kept exactly. Whether
double precision can hold it depends on how it gets there: rounded once, or
worked out from its leading digits and a power of ten that are rounded before.
-/

namespace FrozenDefaults

/-- The number `digits * 10 ^ scale`. -/
structure Decimal where
  digits : Nat
  scale : Int
  deriving DecidableEq

namespace Decimal

/-- The least magnitude that rounds to no finite number of double precision. -/
def overflow : Nat := (1 <<< 1024) - (1 <<< 970)

def width (n : Nat) : Nat := (Nat.repr n).length

/-- The nearest number of 53 bits and a shift; a tie goes to the even one. -/
def roundDouble (n : Nat) : Nat :=
  let k := n.log2 - 52
  let kept := n >>> k
  let rest := n - kept <<< k
  let half := (1 <<< k) / 2
  if half < rest ∨ (half = rest ∧ 0 < k ∧ kept % 2 = 1) then (kept + 1) <<< k else kept <<< k

def leading (n : Nat) : Nat × Nat :=
  -- All numbers of nineteen digits fit a word, and of twenty digits some do.
  let k := width n - 20
  let kept := n / Nat.pow 10 k
  if kept < UInt64.size then (kept, k) else (kept / 10, k + 1)

variable (d : Decimal)

/-- Whether the number rounds to a finite number of double precision. How many digits it has settles
what is far from the bound. -/
def isFinite : Bool :=
  let order : Int := width d.digits + d.scale
  if d.digits = 0 ∨ order ≤ 300 then true
  else if 310 < order then false
  else if 0 ≤ d.scale then d.digits * Nat.pow 10 d.scale.toNat < overflow
  else d.digits < overflow * Nat.pow 10 (-d.scale).toNat

/-- Whether the product of the leading digits and a power of ten is finite when both are rounded to
double precision first. The leading digits alone always are. -/
def isFiniteByParts : Bool :=
  let (kept, left) := leading d.digits
  let scale := d.scale + left
  if kept = 0 ∨ scale < 0 then true
  else if 308 < scale then false
  else roundDouble kept * roundDouble (Nat.pow 10 scale.toNat) < overflow

end Decimal

end FrozenDefaults
