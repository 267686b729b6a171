import FrozenDefaults.Arena

/-!
# Targets of pointers

What a pointer word of an arena leads to, through at most one landing pad. All
spans of a target lie in the used part of one segment.
-/

namespace FrozenDefaults

inductive Target where
  | struct (view : StructView)
  | list (view : ListView)
  deriving DecidableEq

/-- A word that describes an object, and where the object begins. -/
structure Tagged where
  tag : Word
  segment : Nat
  word : Nat
  deriving DecidableEq

namespace Arena

variable (a : Arena)

/-- The place that a near pointer at the given word describes. -/
def nearPlace (segment word : Nat) (p : Word) : Except Fault Tagged :=
  match Pointer.target? p word with
  | some t => .ok ⟨p, segment, t⟩
  | none => .error (.malformed segment word .beforeSegment)

/-- The place behind the landing pad of a far pointer. A double pad is a far pointer to the
object and, behind that, the word that describes it. -/
def farPlace (p : Word) : Except Fault Tagged := do
  let segment := Pointer.segment p
  let word := Pointer.padWord p
  let pad ← a.readWord segment word
  if Pointer.isDouble p then
    if Pointer.kind pad ≠ .far ∨ Pointer.isDouble pad then
      throw (.malformed segment word .padNotSingle)
    let tag ← a.readWord segment (word + 1)
    return ⟨tag, Pointer.segment pad, Pointer.padWord pad⟩
  else
    if Pointer.kind pad = .far then
      throw (.malformed segment word .padIsFar)
    nearPlace segment word pad

def place (segment word : Nat) (p : Word) : Except Fault Tagged :=
  match Pointer.kind p with
  | .capability => .error (.capability segment word)
  | .far => a.farPlace p
  | .struct | .list => nearPlace segment word p

def structAt (t : Tagged) : Except Fault StructView := do
  let d := (Pointer.dataWords t.tag).toNat
  let p := (Pointer.pointerWords t.tag).toNat
  let region : Span := ⟨t.segment, t.word * bytesPerWord, (d + p) * bytesPerWord⟩
  a.check region
  return .ofRegion region d p

/-- A composite list: its tag word, then as many words as the pointer counts. -/
def compositeAt (t : Tagged) : Except Fault ListView := do
  let words := (Pointer.elementCount t.tag).toNat
  let header ← a.readWord t.segment t.word
  if Pointer.kind header ≠ .struct then
    throw (.malformed t.segment t.word .tagNotStruct)
  let count := Pointer.tagCount header
  let d := Pointer.dataWords header
  let p := Pointer.pointerWords header
  if words < ElementLayout.stride d p * count.toNat then
    throw (.malformed t.segment t.word .tooManyElements)
  let elements : Span := ⟨t.segment, (t.word + 1) * bytesPerWord, words * bytesPerWord⟩
  a.check elements
  return ⟨elements, .composite d p, count⟩

def listAt (t : Tagged) : Except Fault ListView :=
  match ElementLayout.ofSize? (Pointer.elementSize t.tag) with
  | none => a.compositeAt t
  | some layout => do
    let count := Pointer.elementCount t.tag
    let elements : Span := ⟨t.segment, t.word * bytesPerWord, layout.storageBytes count⟩
    a.check elements
    return ⟨elements, layout, count⟩

def objectAt (t : Tagged) : Except Fault Target :=
  match Pointer.kind t.tag with
  | .struct => Target.struct <$> a.structAt t
  | .list => Target.list <$> a.listAt t
  | .far => .error (.malformed t.segment t.word .farTag)
  | .capability => .error (.capability t.segment t.word)

/-- The object that the pointer `p`, found at the given word, leads to. -/
def follow (segment word : Nat) (p : Word) : Except Fault Target := do
  a.objectAt (← a.place segment word p)

end Arena

end FrozenDefaults
