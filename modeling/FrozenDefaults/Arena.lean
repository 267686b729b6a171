import FrozenDefaults.Span

/-!
# Arenas

An arena is a list of segments of fixed capacity that only ever grows. A region
once handed out stays where it is. Bytes behind the used part of a segment are
zero, so only the used part is kept.
-/

namespace FrozenDefaults

structure Segment where
  bytes : Array UInt8
  capacity : Nat
  deriving DecidableEq

structure Arena where
  segments : Array Segment
  nextSize : Nat
  deriving DecidableEq

/-- Work on an arena. What a failed step has already changed stays changed. -/
abbrev Building := ExceptT Fault (StateM Arena)

namespace Segment

def used (s : Segment) : Nat := s.bytes.size

def extend (s : Segment) (length : Nat) : Segment :=
  { s with bytes := s.bytes ++ Array.replicate length 0 }

/-- The segment with `bs` written over what stands at `start`. -/
def overwrite (s : Segment) (start : Nat) (bs : List UInt8) : Segment :=
  { s with bytes := go s.bytes start bs }
where
  go (bytes : Array UInt8) (i : Nat) : List UInt8 → Array UInt8
    | [] => bytes
    | b :: bs => go (bytes.setIfInBounds i b) (i + 1) bs

end Segment

namespace Arena

def minSegmentSize : Nat := 128 * bytesPerWord

/-- The largest size and the largest end of a range that can be named. -/
def maxSize : Nat := UInt64.size - 1

/-- The most bytes that can be had in one block, half of the sizes there are. -/
def maxBlock : Nat := UInt64.size / 2 - 1

/-- Refuses to make a block of `n` bytes, rounded up to words, if their number is no size or is
larger than any block. -/
def checkBlock (n : Nat) : Except Fault Unit :=
  if maxSize < roundUp n then .error (.breach .overflow)
  else if maxBlock < roundUp n then .error (.breach .capacity)
  else .ok ()

def empty : Arena := ⟨#[], minSegmentSize⟩

def openSegment (a : Arena) (capacity : Nat) : Arena where
  segments := a.segments.push ⟨#[], capacity⟩
  nextSize := max a.nextSize (min (2 * capacity) maxSize)

/-- An arena whose first segment holds `n` bytes; for zero it is opened when it is needed. The
block for it can be had if `checkBlock n` passes, which is not asked here. -/
def withCapacity (n : Nat) : Arena :=
  let a : Arena := ⟨#[], max (roundUp n) minSegmentSize⟩
  if 0 < roundUp n then a.openSegment (roundUp n) else a

def ofSegmentsFrom (a : Arena) : List (List UInt8) → Except Fault Arena
  | [] => .ok a
  | bs :: rest =>
    if bs.length % bytesPerWord = 0 then
      ofSegmentsFrom { a with segments := a.segments.push ⟨bs.toArray, bs.length⟩ } rest
    else .error (.unalignedSegment a.segments.size bs.length)

/-- An arena filled with the given segments and without room in them. -/
def ofSegments (segments : List (List UInt8)) : Except Fault Arena :=
  ofSegmentsFrom empty segments

/-- Like `ofSegments`, with a first segment of at least `capacity` bytes. -/
def ofSegmentsWithCapacity (segments : List (List UInt8)) (capacity : Nat) :
    Except Fault Arena := do
  let a ← ofSegments segments
  if a.segments.isEmpty then
    return if 0 < roundUp capacity then a.openSegment (roundUp capacity) else a
  else
    return { a with
      segments := a.segments.modify 0 fun s =>
        { s with capacity := max s.capacity (roundUp capacity) } }

variable (a : Arena)

def segmentCount : Nat := a.segments.size

def toSegments : List (List UInt8) := a.segments.toList.map (·.bytes.toList)

def totalSize : Nat := a.segments.toList.foldr (fun s n => s.used + n) 0

/-- A zeroed region of whole words in one segment, if the segment exists and has room. -/
def allocIn (segment n : Nat) : Option Span × Arena :=
  match a.segments[segment]? with
  | none => (none, a)
  | some s =>
    let start := s.used
    if start + roundUp n ≤ s.capacity then
      (some ⟨segment, start, roundUp n⟩,
        { a with segments := a.segments.modify segment (·.extend (roundUp n)) })
    else (none, a)

/-- A zeroed region of whole words in a new segment. -/
def allocFresh (n : Nat) : Span × Arena :=
  let id := a.segments.size
  let opened := a.openSegment (max (roundUp n) a.nextSize)
  (⟨id, 0, roundUp n⟩,
    { opened with segments := opened.segments.modify id (·.extend (roundUp n)) })

/-- A zeroed region of whole words, in the last segment if it has room. Whether `n` bytes can be
had is asked by `Building.alloc`. A new segment has `nextSize` bytes or more, and these can be had
as long as no segment has `2 ^ 62` bytes. -/
def alloc (n : Nat) : Span × Arena :=
  match a.allocIn (a.segments.size - 1) n with
  | (some s, a) => (s, a)
  | (none, a) => a.allocFresh n

def check (s : Span) : Except Fault Unit :=
  match a.segments[s.segment]? with
  | none => .error (.noSegment s.segment a.segments.size)
  | some seg =>
    if s.stop ≤ seg.used then .ok ()
    else .error (.outOfBounds s.segment s.start (min s.stop maxSize) seg.used)

def segmentBytes (segment : Nat) : Except Fault (List UInt8) :=
  match a.segments[segment]? with
  | none => .error (.noSegment segment a.segments.size)
  | some seg => .ok seg.bytes.toList

def read (s : Span) : Except Fault (List UInt8) := do
  a.check s
  match a.segments[s.segment]? with
  | none => return []
  | some seg => return (seg.bytes.extract s.start s.stop).toList

def wordSpan (segment word : Nat) : Span := ⟨segment, word * bytesPerWord, bytesPerWord⟩

def readWord (segment word : Nat) : Except Fault Word := do
  return Word.ofBytes (← a.read (wordSpan segment word))

def patch (s : Span) (bs : List UInt8) : Arena :=
  { a with segments := a.segments.modify s.segment (·.overwrite s.start bs) }

end Arena

namespace Building

def alloc (n : Nat) : Building Span := do
  liftExcept (Arena.checkBlock n)
  modifyGet fun a => a.alloc n

/-- Fills the span with as many bytes as it has. -/
def write (s : Span) (bs : List UInt8) : Building Unit := do
  liftExcept ((← get).check s)
  if bs.length = s.length then
    modify fun a => a.patch s bs
  else
    throw (.breach .unequalLengths)

def writeWord (segment word : Nat) (w : Word) : Building Unit :=
  write (Arena.wordSpan segment word) (Word.toBytes w)

end Building

end FrozenDefaults
