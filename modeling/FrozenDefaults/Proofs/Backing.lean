import FrozenDefaults.Proofs.Calls

/-!
# The memory behind an arena

An arena keeps of a segment what is in use. The memory behind it has all bytes
of a segment from the start, and to allocate in it is to move the mark up to
which they are in use. A new region is zeroed only because nothing has written
behind the mark, neither a call nor a move to a larger segment. The memory
answers every call as the arena does, and behind its marks it stays zeroed.
-/

namespace FrozenDefaults

namespace Arena

/-- A segment with all its bytes, and the mark up to which they are in use. -/
structure Block where
  storage : Array UInt8
  used : Nat

structure Backing where
  blocks : Array Block
  nextSize : Nat

namespace Block

def zeroed (capacity : Nat) : Block := ⟨Array.replicate capacity 0, 0⟩

def full (bs : List UInt8) : Block := ⟨bs.toArray, bs.length⟩

/-- The mark is moved, and nothing is written. -/
def advance (b : Block) (n : Nat) : Block := { b with used := b.used + n }

def write (b : Block) (start : Nat) (bs : List UInt8) : Block :=
  { b with storage := Segment.overwrite.go b.storage start bs }

/-- What is in use, moved to the front of zeroed memory if more than it has is asked for. -/
def enlarge (b : Block) (capacity : Nat) : Block :=
  if b.storage.size < capacity then
    { b with
      storage := Segment.overwrite.go (Array.replicate capacity 0) 0
        (b.storage.extract 0 b.used).toList }
  else b

end Block

namespace Backing

def openBlock (m : Backing) (capacity : Nat) : Backing where
  blocks := m.blocks.push (.zeroed capacity)
  nextSize := max m.nextSize (min (2 * capacity) maxSize)

def withCapacity (n : Nat) : Backing :=
  let m : Backing := ⟨#[], max (roundUp n) minSegmentSize⟩
  if 0 < roundUp n then m.openBlock (roundUp n) else m

def ofSegmentsFrom (m : Backing) : List (List UInt8) → Except Fault Backing
  | [] => .ok m
  | bs :: rest =>
    if bs.length % bytesPerWord = 0 then
      ofSegmentsFrom { m with blocks := m.blocks.push (.full bs) } rest
    else .error (.unalignedSegment m.blocks.size bs.length)

def ofSegments (segments : List (List UInt8)) : Except Fault Backing :=
  ofSegmentsFrom ⟨#[], minSegmentSize⟩ segments

def ofSegmentsWithCapacity (segments : List (List UInt8)) (capacity : Nat) :
    Except Fault Backing := do
  let m ← ofSegments segments
  if m.blocks.isEmpty then
    return if 0 < roundUp capacity then m.openBlock (roundUp capacity) else m
  else
    return { m with blocks := m.blocks.modify 0 (·.enlarge (roundUp capacity)) }

/-- What is in use of every block. -/
def toSegments (m : Backing) : List (List UInt8) :=
  m.blocks.toList.map fun b => (b.storage.extract 0 b.used).toList

def allocIn (m : Backing) (segment n : Nat) : Option Span × Backing :=
  match m.blocks[segment]? with
  | none => (none, m)
  | some b =>
    if b.storage.size - b.used < roundUp n then (none, m)
    else (some ⟨segment, b.used, roundUp n⟩,
      { m with blocks := m.blocks.modify segment (·.advance (roundUp n)) })

def alloc (m : Backing) (n : Nat) : Span × Backing :=
  match m.allocIn (m.blocks.size - 1) n with
  | (some s, m) => (s, m)
  | (none, m) =>
    let id := m.blocks.size
    let opened := m.openBlock (max (roundUp n) m.nextSize)
    (⟨id, 0, roundUp n⟩, { opened with blocks := opened.blocks.modify id (·.advance (roundUp n)) })

def write (m : Backing) (s : Span) (bs : List UInt8) : Option Backing :=
  match m.blocks[s.segment]? with
  | none => none
  | some b =>
    if s.stop ≤ b.used ∧ bs.length = s.length then
      some { m with blocks := m.blocks.modify s.segment (·.write s.start bs) }
    else none

def read (m : Backing) (s : Span) : Option (List UInt8) :=
  match m.blocks[s.segment]? with
  | none => none
  | some b => if s.stop ≤ b.used then some (b.storage.extract s.start s.stop).toList else none

/-- The reply to a call, and the memory after it. -/
def perform (m : Backing) : Call → Reply × Backing
  | .alloc n => (.region (m.alloc n).1, (m.alloc n).2)
  | .allocIn segment n =>
    match m.allocIn segment n with
    | (some r, k) => (.region r, k)
    | (none, k) => (.refused, k)
  | .write s bs => replyOf (m.write s bs)
  | .writeWord segment word w => replyOf (m.write (wordSpan segment word) (Word.toBytes w))
where
  replyOf : Option Backing → Reply × Backing
    | some k => (.written, k)
    | none => (.refused, m)

def performAll (m : Backing) : List Call → List (Call × Reply) × Backing
  | [] => ([], m)
  | call :: calls =>
    let (reply, k) := m.perform call
    let (log, l) := k.performAll calls
    ((call, reply) :: log, l)

/-- The memory that a run of calls can begin with. -/
inductive Built : Backing → Prop
  | withCapacity (n : Nat) : Built (.withCapacity n)
  | ofSegments {segments : List (List UInt8)} {m : Backing} (h : ofSegments segments = .ok m) :
      Built m
  | ofSegmentsWithCapacity {segments : List (List UInt8)} {capacity : Nat} {m : Backing}
      (h : ofSegmentsWithCapacity segments capacity = .ok m) : Built m

end Backing

end Arena

/-- The memory behind a segment: zeros behind what is in use, up to the capacity. -/
def Segment.block (s : Segment) : Arena.Block :=
  ⟨s.bytes ++ Array.replicate (s.capacity - s.used) 0, s.used⟩

namespace Segment

variable {s : Segment}

theorem size_block (h : s.used ≤ s.capacity) : s.block.storage.size = s.capacity := by
  have hsize : s.bytes.size = s.used := rfl
  rw [block, Array.size_append, Array.size_replicate, hsize, Nat.add_sub_cancel' h]

theorem extract_block {start stop : Nat} (h : stop ≤ s.used) :
    s.block.storage.extract start stop = s.bytes.extract start stop := by
  rw [block, Array.extract_append]
  have hzero : stop - s.bytes.size = 0 := Nat.sub_eq_zero_of_le h
  rw [hzero, Array.extract_zero, Array.append_empty]

theorem extract_block_used (s : Segment) : s.block.storage.extract 0 s.block.used = s.bytes :=
  (extract_block (Nat.le_refl _)).trans Array.extract_size

theorem block_zeroed (capacity : Nat) : block ⟨#[], capacity⟩ = .zeroed capacity := by
  rw [block, Array.empty_append]
  rfl

theorem block_full (bs : List UInt8) : block ⟨bs.toArray, bs.length⟩ = .full bs := by
  have hused : used ⟨bs.toArray, bs.length⟩ = bs.length := rfl
  rw [block, hused, Nat.sub_self, Array.replicate_zero, Array.append_empty]
  rfl

/-- What is zeroed already need not be written. -/
theorem block_extend {n : Nat} (h : s.used + n ≤ s.capacity) :
    (s.extend n).block = s.block.advance n := by
  have hn : s.capacity - s.used = n + (s.capacity - (s.used + n)) := by omega
  rw [block, Arena.used_extend, Arena.Block.advance, block, hn, ← Array.replicate_append_replicate,
    ← Array.append_assoc]
  rfl

theorem overwrite_go_append_left (xs ys : Array UInt8) (start : Nat) (bs : List UInt8)
    (h : start + bs.length ≤ xs.size) :
    overwrite.go (xs ++ ys) start bs = overwrite.go xs start bs ++ ys := by
  induction bs generalizing xs start with
  | nil => rfl
  | cons b bs ih =>
    rw [List.length_cons] at h
    have hlt : start < xs.size := by omega
    have hset : (xs ++ ys).setIfInBounds start b = xs.setIfInBounds start b ++ ys := by
      rw [Array.setIfInBounds_append, if_pos hlt]
    rw [overwrite.go, hset, ih _ _ (by rw [Array.size_setIfInBounds]; omega), overwrite.go]

theorem block_overwrite {start : Nat} {bs : List UInt8} (h : start + bs.length ≤ s.used) :
    (s.overwrite start bs).block = s.block.write start bs := by
  have hused : (s.overwrite start bs).used = s.used := overwrite_go_size s.bytes start bs
  rw [block, hused, Arena.Block.write, block, overwrite_go_append_left _ _ _ _ h]
  rfl

theorem overwrite_go_all (xs : Array UInt8) (bs : List UInt8) (h : bs.length = xs.size) :
    overwrite.go xs 0 bs = bs.toArray := by
  apply Array.ext_getElem?
  intro i
  have hto : bs.toArray[i]? = bs[i]? := by simp
  rw [overwrite_go_getElem? _ _ _ _ (by omega), hto]
  by_cases hi : i < bs.length
  · rw [if_pos (by omega), Nat.sub_zero]
  · rw [if_neg (by omega), Array.getElem?_eq_none (by omega), List.getElem?_eq_none (by omega)]

/-- A move to a larger block leaves zeros behind what is in use. -/
theorem block_enlarge (h : s.used ≤ s.capacity) (capacity : Nat) :
    block { s with capacity := max s.capacity capacity } = s.block.enlarge capacity := by
  have hsize : s.bytes.toList.length = s.used := Array.length_toList
  rw [Arena.Block.enlarge, size_block h]
  by_cases hc : s.capacity < capacity
  · have hn : capacity = s.used + (capacity - s.used) := by omega
    have hmoved : overwrite.go (Array.replicate capacity 0) 0 s.bytes.toList =
        s.bytes ++ Array.replicate (capacity - s.used) 0 := by
      rw [hn, ← Array.replicate_append_replicate, overwrite_go_append_left, overwrite_go_all,
        Nat.add_sub_cancel_left]
      · rw [hsize, Array.size_replicate]
      · rw [hsize, Array.size_replicate, Nat.zero_add]
    rw [if_pos hc, extract_block_used, hmoved, Nat.max_eq_right hc.le]
    rfl
  · rw [if_neg hc, Nat.max_eq_left (Nat.le_of_not_lt hc)]

end Segment

namespace Arena

/-- The memory behind an arena. -/
def backing (a : Arena) : Backing := ⟨a.segments.map Segment.block, a.nextSize⟩

variable {a start : Arena}

theorem getElem?_backing (a : Arena) (s : Nat) :
    a.backing.blocks[s]? = a.segments[s]?.map Segment.block := Array.getElem?_map

theorem size_backing (a : Arena) : a.backing.blocks.size = a.segments.size := Array.size_map

theorem backing_push (a : Arena) (seg : Segment) (next : Nat) :
    backing ⟨a.segments.push seg, next⟩ = ⟨a.backing.blocks.push seg.block, next⟩ := by
  rw [backing, Array.map_push]
  rfl

theorem backing_modify {k : Nat} {f : Segment → Segment} {g : Block → Block}
    (h : ∀ s, a.segments[k]? = some s → (f s).block = g s.block) (next : Nat) :
    backing ⟨a.segments.modify k f, next⟩ = ⟨a.backing.blocks.modify k g, next⟩ := by
  refine congrArg (Backing.mk · next) (Array.ext_getElem? fun i => ?_)
  rw [Array.getElem?_map, Array.getElem?_modify, Array.getElem?_modify, getElem?_backing]
  by_cases hi : k = i
  · subst hi
    rw [if_pos rfl, if_pos rfl]
    cases hs : a.segments[k]? with
    | none => rfl
    | some s => exact congrArg some (h s hs)
  · rw [if_neg hi, if_neg hi]

theorem backing_openSegment (a : Arena) (capacity : Nat) :
    (a.openSegment capacity).backing = a.backing.openBlock capacity := by
  rw [openSegment, backing_push, Segment.block_zeroed]
  rfl

theorem backing_withCapacity (n : Nat) : (withCapacity n).backing = .withCapacity n := by
  have hempty : backing ⟨#[], max (roundUp n) minSegmentSize⟩ =
      ⟨#[], max (roundUp n) minSegmentSize⟩ := by
    rw [backing, Array.map_empty]
  unfold withCapacity Backing.withCapacity
  dsimp only
  split
  · rw [backing_openSegment, hempty]
  · exact hempty

theorem ofSegmentsFrom_backing (segments : List (List UInt8)) (a : Arena) :
    Backing.ofSegmentsFrom a.backing segments = (ofSegmentsFrom a segments).map backing := by
  induction segments generalizing a with
  | nil => rfl
  | cons bs rest ih =>
    rw [Backing.ofSegmentsFrom, ofSegmentsFrom]
    by_cases hbs : bs.length % bytesPerWord = 0
    · rw [if_pos hbs, if_pos hbs, ← ih, backing_push, Segment.block_full]
      rfl
    · rw [if_neg hbs, if_neg hbs, size_backing]
      rfl

theorem ofSegments_backing (segments : List (List UInt8)) :
    Backing.ofSegments segments = (ofSegments segments).map backing := by
  rw [ofSegments, ← ofSegmentsFrom_backing, backing, empty, Array.map_empty]
  rfl

theorem allocIn_backing (ha : a.Sound) (segment n : Nat) : a.backing.allocIn segment n =
    ((a.allocIn segment n).1, (a.allocIn segment n).2.backing) := by
  rw [Backing.allocIn, getElem?_backing]
  cases hseg : a.segments[segment]? with
  | none => simp only [allocIn, hseg, Option.map_none]
  | some seg =>
    have hfits := ha.fits seg (Array.mem_of_getElem? hseg)
    have hused : seg.block.used = seg.used := rfl
    simp only [Option.map_some, Segment.size_block hfits, hused]
    by_cases hc : seg.used + roundUp n ≤ seg.capacity
    · rw [allocIn_of_room hseg hc, if_neg (by omega), backing_modify (g := (·.advance (roundUp n)))]
      · rfl
      · intro s hs
        obtain rfl := Option.some.inj (hs.symm.trans hseg)
        exact Segment.block_extend hc
    · rw [if_pos (by omega), allocIn_of_full]
      intro s hs
      obtain rfl := Option.some.inj (hs.symm.trans hseg)
      omega

theorem allocFresh_backing (a : Arena) (n : Nat) :
    (a.allocFresh n).2.backing =
      let opened := a.backing.openBlock (max (roundUp n) a.nextSize)
      { opened with blocks := opened.blocks.modify a.segments.size (·.advance (roundUp n)) } := by
  rw [allocFresh, backing_modify (g := (·.advance (roundUp n))), backing_openSegment]
  · rfl
  · intro s hs
    have hsize : a.segments.size = a.segmentCount := rfl
    rw [getElem?_openSegment, if_pos hsize] at hs
    obtain rfl := Option.some.inj hs
    exact Segment.block_extend (by simp [Segment.used])

theorem alloc_backing (ha : a.Sound) (n : Nat) :
    a.backing.alloc n = ((a.alloc n).1, (a.alloc n).2.backing) := by
  rw [Backing.alloc, alloc, size_backing, allocIn_backing ha]
  cases a.allocIn (a.segments.size - 1) n with
  | mk r b =>
    cases r with
    | some r => rfl
    | none =>
      rw [allocFresh_backing]
      dsimp only
      rw [size_backing]
      rfl

theorem ofSegmentsWithCapacity_backing (segments : List (List UInt8)) (capacity : Nat) :
    Backing.ofSegmentsWithCapacity segments capacity =
      (ofSegmentsWithCapacity segments capacity).map backing := by
  rw [Backing.ofSegmentsWithCapacity, ofSegments_backing, ofSegmentsWithCapacity]
  cases h : ofSegments segments with
  | error f => rfl
  | ok a =>
    have hempty : a.backing.blocks.isEmpty = a.segments.isEmpty := by
      rw [Array.isEmpty, size_backing, Array.isEmpty]
    have hsound := sound_ofSegments h
    simp only [Except.map, bind, Except.bind, hempty]
    by_cases he : a.segments.isEmpty = true
    · rw [if_pos he, if_pos he]
      by_cases hc : 0 < roundUp capacity
      · rw [if_pos hc, if_pos hc, ← backing_openSegment]
        rfl
      · rw [if_neg hc, if_neg hc]
        rfl
    · rw [if_neg he, if_neg he]
      refine congrArg Except.ok (backing_modify (fun s hs => ?_) a.nextSize).symm
      exact Segment.block_enlarge (hsound.fits s (Array.mem_of_getElem? hs)) _

theorem Built.backing (h : start.Built) : start.backing.Built := by
  cases h with
  | withCapacity n => exact backing_withCapacity n ▸ .withCapacity n
  | ofSegments h => exact .ofSegments (by rw [ofSegments_backing, h]; rfl)
  | ofSegmentsWithCapacity h =>
    exact .ofSegmentsWithCapacity (by rw [ofSegmentsWithCapacity_backing, h]; rfl)

theorem holds_iff {s : Span} :
    a.Holds s ↔ ∃ seg, a.segments[s.segment]? = some seg ∧ s.stop ≤ seg.used := by
  constructor
  · rintro ⟨hlt, hstop⟩
    obtain ⟨seg, hseg⟩ := getElem?_of_lt hlt
    exact ⟨seg, hseg, usedIn_of_getElem? hseg ▸ hstop⟩
  · rintro ⟨seg, hseg, hstop⟩
    exact ⟨(Array.getElem?_eq_some_iff.1 hseg).1, (usedIn_of_getElem? hseg).symm ▸ hstop⟩

theorem read_backing (a : Arena) (s : Span) : a.backing.read s = (a.read s).toOption := by
  rw [Backing.read, getElem?_backing]
  by_cases h : a.Holds s
  · obtain ⟨seg, hseg, hstop⟩ := holds_iff.1 h
    rw [hseg, read_eq_extract h hseg, Option.map_some]
    exact (if_pos hstop).trans (by rw [Segment.extract_block hstop]; rfl)
  · have hread : (a.read s).toOption = none := by
      cases hr : a.read s with
      | ok bs => exact absurd (holds_of_read hr) h
      | error f => rfl
    rw [hread]
    cases hseg : a.segments[s.segment]? with
    | none => rfl
    | some seg => exact if_neg fun hstop => h (holds_iff.2 ⟨seg, hseg, hstop⟩)

theorem write_backing {s : Span} {bs : List UInt8} (h : a.Holds s) (hl : bs.length = s.length) :
    a.backing.write s bs = some (a.patch s bs).backing := by
  obtain ⟨seg, hseg, hstop⟩ := holds_iff.1 h
  rw [Backing.write, getElem?_backing, hseg, Option.map_some, patch,
    backing_modify (g := (·.write s.start bs))]
  · exact if_pos ⟨hstop, hl⟩
  · intro t ht
    obtain rfl := Option.some.inj (ht.symm.trans hseg)
    rw [Span.stop, ← hl] at hstop
    exact Segment.block_overwrite hstop

theorem write_backing_eq_none {s : Span} {bs : List UInt8}
    (h : ¬ (a.Holds s ∧ bs.length = s.length)) : a.backing.write s bs = none := by
  rw [Backing.write, getElem?_backing]
  cases hseg : a.segments[s.segment]? with
  | none => rfl
  | some seg => exact if_neg fun ⟨hstop, hl⟩ => h ⟨holds_iff.2 ⟨seg, hseg, hstop⟩, hl⟩

theorem replyOf_backing (a : Arena) (s : Span) (bs : List UInt8) :
    Backing.perform.replyOf a.backing (a.backing.write s bs) =
      ((a.perform (.write s bs)).1, (a.perform (.write s bs)).2.backing) := by
  rcases write_cases a s bs with ⟨hs, hl, h⟩ | ⟨hn, f, h⟩ <;> rw [perform, h]
  · rw [write_backing hs hl]
    rfl
  · rw [write_backing_eq_none hn]
    rfl

/-- The memory answers a call as the arena does, and goes on being the memory behind it. -/
theorem perform_backing (ha : a.Sound) (call : Call) :
    a.backing.perform call = ((a.perform call).1, (a.perform call).2.backing) := by
  cases call with
  | alloc n => rw [Backing.perform, alloc_backing ha, perform]
  | allocIn segment n =>
    rw [Backing.perform, allocIn_backing ha, perform]
    cases a.allocIn segment n with
    | mk r b => cases r <;> rfl
  | write s bs => exact replyOf_backing a s bs
  | writeWord segment word w => exact replyOf_backing a (wordSpan segment word) (Word.toBytes w)

theorem performAll_backing (ha : a.Sound) (calls : List Call) :
    a.backing.performAll calls = ((a.performAll calls).1, (a.performAll calls).2.backing) := by
  induction calls generalizing a with
  | nil => rfl
  | cons call calls ih =>
    have hnext := (a.evolves_perform call).sound ha
    rw [Backing.performAll, perform_backing ha]
    dsimp only
    rw [ih hnext]
    rfl

end Arena

end FrozenDefaults
