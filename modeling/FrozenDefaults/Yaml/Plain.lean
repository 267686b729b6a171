import FrozenDefaults.Datum
import FrozenDefaults.Decimal
import FrozenDefaults.Yaml.Document

/-!
# Values of YAML scalars

What the text of a scalar stands for: nothing, a truth value, a number or text.
-/

namespace FrozenDefaults

namespace Yaml

def isNull (s : String) : Bool := ["null", "Null", "NULL", "~"].contains s

def isBool (s : String) : Bool := ["true", "True", "TRUE", "false", "False", "FALSE"].contains s

def isSign (c : Char) : Bool := c == '+' || c == '-'

def digit? (radix : Nat) (c : Char) : Option Nat := do
  let d ← Hex.value? c
  if d < radix then some d else none

/-- The number that a run of digits writes. -/
def number? (radix : Nat) (cs : List Char) : Option Nat :=
  if cs.isEmpty then none
  else cs.foldlM (fun n c => do return radix * n + (← digit? radix c)) 0

/-- The number behind the mark of a radix, below a bound. -/
def radixNumber? (bound : Nat) : List Char → Option Nat
  | '0' :: mark :: cs =>
    let radix := match mark with
      | 'x' => 16
      | 'o' => 8
      | 'b' => 2
      | _ => 0
    if radix == 0 then none else (number? radix cs).filter (· < bound)
  | _ => none

def dropPlus : List Char → List Char
  | '+' :: cs => cs
  | cs => cs

def dropSign : List Char → List Char
  | c :: cs => if isSign c then cs else c :: cs
  | [] => []

/-- Digits with a zero in front are text. -/
def isPadded (cs : List Char) : Bool :=
  match dropSign cs with
  | '0' :: d :: cs => (d :: cs).all Char.isDigit
  | _ => false

/-- A natural number below a bound, with or without a plus sign. -/
def natural? (bound : Nat) (cs : List Char) : Option Nat :=
  match radixNumber? bound (dropPlus cs) with
  | some n => some n
  | none => if isPadded cs then none else (number? 10 (dropPlus cs)).filter (· < bound)

/-- The magnitude of a number with a minus sign, up to a bound. -/
def negative? (bound : Nat) : List Char → Option Nat
  | '-' :: cs =>
    match radixNumber? (bound + 1) cs with
    | some n => some n
    | none => if isPadded cs then none else (number? 10 cs).filter (· ≤ bound)
  | _ => none

/-- The digits of a decimal number in positional notation, without the point, and how many of them
stand behind the point. -/
def mantissa? (cs : List Char) : Option (List Char × Nat × List Char) :=
  let (whole, rest) := cs.span Char.isDigit
  let (part, rest) := match rest with
    | '.' :: rest => rest.span Char.isDigit
    | rest => ([], rest)
  if whole.isEmpty && part.isEmpty then none else some (whole ++ part, part.length, rest)

def power? : List Char → Option Int
  | [] => some 0
  | c :: cs =>
    if c == 'e' || c == 'E' then
      match cs with
      | '-' :: cs => (number? 10 cs).map fun n => -(n : Int)
      | cs => (number? 10 (dropPlus cs)).map fun n => (n : Int)
    else none

/-- Whether the text is a decimal number that double precision can hold. -/
def isDecimal (cs : List Char) : Bool :=
  match mantissa? (dropSign cs) with
  | none => false
  | some (digits, places, rest) =>
    match number? 10 digits, power? rest with
    | some n, some power => Decimal.isFinite ⟨n, power - places⟩
    | _, _ => false

def infinities : List String := [".inf", ".Inf", ".INF"]

def isFloat (s : String) : Bool :=
  let cs := s.toList
  match cs with
  | '+' :: c :: rest =>
    !isSign c && (infinities.contains (String.ofList (c :: rest)) || isDecimal (c :: rest))
  | '-' :: rest => infinities.contains (String.ofList rest) || isDecimal cs
  | _ => infinities.contains s || [".nan", ".NaN", ".NAN"].contains s || isDecimal cs

def wordBound : Nat := UInt64.size

/-- The integer that a text writes, if it writes one; an integer that fits two words but not one
has no value. -/
def integer? (s : String) : Option (Option Datum) :=
  let cs := s.toList
  match natural? wordBound cs, negative? (wordBound / 2) cs with
  | some n, _ => some (some (.natural n))
  | none, some 0 => some (some .minusZero)
  | none, some _ => some (some .other)
  | none, none =>
    let doubleBound := wordBound * wordBound
    if (natural? doubleBound cs).isSome || (negative? (doubleBound / 2) cs).isSome then some none
    else none

/-- The value of a plain scalar without a tag. -/
def untagged? (s : String) : Option Datum :=
  if s.isEmpty || isNull s || isBool s then some .other
  else
    match integer? s with
    | some d => d
    | none => if !isPadded s.toList && isFloat s then some .other else some (.text s)

/-- Whether there is a tag and it is one of an application. -/
def isLocal (tag : Option Tag) : Bool := tag.any Tag.isLocal

/-- The value of a scalar. A tag of the core names the kind of value that the text has to write; one
that only looks like a tag of an application says nothing about a plain scalar. -/
def value? (tag : Option Tag) (s : String) (style : Style) : Option Datum :=
  match tag with
  | none => if style == .plain then untagged? s else some (.text s)
  | some t =>
    if t.isLocal then none
    else if t == .core "null" then (if isNull s then some .other else none)
    else if t == .core "bool" then (if isBool s then some .other else none)
    else if t == .core "int" then (integer? s).bind id
    else if t == .core "float" then (if isFloat s then some .other else none)
    else if t.isMarked && style == .plain then untagged? s
    else some (.text s)

end Yaml

end FrozenDefaults
