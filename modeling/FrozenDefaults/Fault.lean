import FrozenDefaults.Layout

/-!
# Faults

Everything that can stop the collection, the copy or the listing of default
values, by cause. The wording is in `Fault.message` alone.
-/

namespace FrozenDefaults

inductive PointerFlaw where
  | padNotSingle
  | padIsFar
  | beforeSegment
  | farTag
  | tagNotStruct
  | tooManyElements
  deriving DecidableEq

/-- A step that left the range it was given, or asked for more bytes than there can be. -/
inductive Breach where
  | partOutsideSpan
  | unequalLengths
  | zeroWrap
  | overflow
  | capacity
  deriving DecidableEq

inductive Fault where
  | duplicateIdent (ident : String)
  | invalidField (node : Nat) (field : String)
  | unalignedSpan (length : Nat)
  | unalignedSegment (segment length : Nat)
  | noSegment (segment count : Nat)
  | outOfBounds (segment start stop used : Nat)
  | malformed (segment word : Nat) (flaw : PointerFlaw)
  | capability (segment word : Nat)
  | tooDeep (limit : Nat)
  | listTooShort (layout : ElementLayout) (count : UInt32) (expected actual : Nat)
  | narrowWrap (width minimum : Nat)
  | breach (what : Breach)
  deriving DecidableEq

def PointerFlaw.reason : PointerFlaw → String
  | padNotSingle => "double-far landing pad must start with a single far pointer"
  | padIsFar => "landing pad holds another far pointer"
  | beforeSegment => "offset points before the segment"
  | farTag => "far pointer where an object was expected"
  | tagNotStruct => "composite list tag is not struct shaped"
  | tooManyElements => "composite list elements exceed the list word count"

def Breach.reason : Breach → String
  | partOutsideSpan => "sub-slice escapes its parent"
  | unequalLengths => "source slice length does not match destination slice length"
  | zeroWrap => "literal wrap width must be positive"
  | overflow => "attempt to multiply with overflow"
  | capacity => "capacity overflow"

def Fault.message : Fault → String
  | duplicateIdent ident => s!"default identifier '{ident}' is already registered"
  | invalidField node field => s!"field name '{field}' of node {node} is not a valid identifier"
  | unalignedSpan length => s!"slice of {length} bytes is not word aligned"
  | unalignedSegment segment length =>
    s!"segment {segment} has {length} bytes, which is not word aligned"
  | noSegment segment count =>
    s!"segment {segment} does not exist (message has {count} segments)"
  | outOfBounds segment start stop used =>
    s!"range {start}..{stop} is out of bounds for segment {segment} ({used} bytes used)"
  | malformed segment word flaw =>
    s!"malformed pointer at segment {segment} word {word}: {flaw.reason}"
  | capability segment word =>
    s!"capability pointer at segment {segment} word {word} cannot be part of a default value"
  | tooDeep limit => s!"default value nests deeper than {limit} pointers"
  | listTooShort layout count expected actual =>
    s!"list storage holds {actual} bytes but {count} elements of kind {layout.text} need {expected}"
  | narrowWrap width minimum => s!"wrap width {width} is too small (minimum {minimum})"
  | breach what => what.reason

end FrozenDefaults
