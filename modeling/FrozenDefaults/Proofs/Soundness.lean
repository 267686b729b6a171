import FrozenDefaults.Proofs.Store

/-!
# Sound arenas

A sound arena is filled up to word boundaries, and no segment of it holds more
than its capacity. It is tight if every segment after the first accounts for a
word: such a segment is opened only for a region that does not fit elsewhere.
All steps keep an arena sound and tight, keep the capacity of every segment and
make no used part smaller.
-/

namespace FrozenDefaults

namespace Arena

structure Sound (a : Arena) : Prop where
  whole : a.Whole
  fits : ∀ seg ∈ a.segments, seg.used ≤ seg.capacity

structure Tight (a : Arena) : Prop extends Sound a where
  few : bytesPerWord * a.segmentCount ≤ bytesPerWord + a.totalSize

/-- The places of the arena are within the reach of pointers: segments are named by 32 bits, and
offsets and landing pads count words. -/
structure Addressable (a : Arena) : Prop where
  size : a.totalSize < 2 ^ 32
  names : a.segmentCount ≤ 2 ^ 32

def capacityIn (a : Arena) (segment : Nat) : Nat :=
  (a.segments[segment]?.map Segment.capacity).getD 0

/-- What every step, also a failed one, does to an arena. -/
structure Evolves (a b : Arena) : Prop where
  grows : Grows (fun _ _ => False) a b
  capacity : ∀ s < a.segmentCount, b.capacityIn s = a.capacityIn s
  size : a.totalSize ≤ b.totalSize
  sound : a.Sound → b.Sound
  tight : a.Tight → b.Tight

/-- In `b` every segment of `a` is still there, with its capacity, and holds at the places with `P`
what it held. -/
structure Extends (P : Nat → Nat → Prop) (a b : Arena) : Prop extends Grows P a b where
  capacity : ∀ s < a.segmentCount, b.capacityIn s = a.capacityIn s

variable {a b c : Arena}

namespace Extends

variable {P : Nat → Nat → Prop}

theorem refl (P : Nat → Nat → Prop) (a : Arena) : Extends P a a := ⟨.refl P a, fun _ _ => rfl⟩

theorem trans (hab : Extends P a b) (hbc : Extends P b c) : Extends P a c where
  toGrows := hab.toGrows.trans hbc.toGrows
  capacity s hs := (hbc.capacity s (hs.trans_le hab.count)).trans (hab.capacity s hs)

end Extends

theorem capacityIn_patch (a : Arena) (s : Span) (bs : List UInt8) (t : Nat) :
    (a.patch s bs).capacityIn t = a.capacityIn t := by
  rw [capacityIn, getElem?_patch, capacityIn]
  split
  · cases a.segments[t]? <;> rfl
  · rfl

theorem capacityIn_extend (segments : Array Segment) (k n next t : Nat) :
    capacityIn ⟨segments.modify k (·.extend n), next⟩ t = capacityIn ⟨segments, next⟩ t := by
  simp only [capacityIn, getElem?_extend]
  split
  · cases segments[t]? <;> rfl
  · rfl

theorem capacityIn_openSegment (a : Arena) (capacity : Nat) {t : Nat} (ht : t < a.segmentCount) :
    (a.openSegment capacity).capacityIn t = a.capacityIn t := by
  rw [capacityIn, getElem?_openSegment, if_neg (Nat.ne_of_lt ht), capacityIn]

theorem Sound.usedIn_le_capacityIn (h : a.Sound) (s : Nat) : a.usedIn s ≤ a.capacityIn s := by
  by_cases hs : s < a.segmentCount
  · obtain ⟨seg, hseg⟩ := getElem?_of_lt hs
    rw [usedIn_of_getElem? hseg, capacityIn, hseg]
    exact h.fits seg (Array.mem_of_getElem? hseg)
  · rw [usedIn_eq_zero (Nat.le_of_not_lt hs)]
    exact Nat.zero_le _

theorem Tight.addressable (h : a.Tight) (hs : a.totalSize < 2 ^ 32) : a.Addressable := by
  have hf := h.few
  unfold bytesPerWord at hf
  exact ⟨hs, by omega⟩

namespace Evolves

theorem refl (a : Arena) : Evolves a a := ⟨.refl _ a, fun _ _ => rfl, Nat.le_refl _, id, id⟩

theorem trans (hab : Evolves a b) (hbc : Evolves b c) : Evolves a c where
  grows := hab.grows.trans hbc.grows
  capacity s hs := (hbc.capacity s (hs.trans_le hab.grows.count)).trans (hab.capacity s hs)
  size := hab.size.trans hbc.size
  sound := hbc.sound ∘ hab.sound
  tight := hbc.tight ∘ hab.tight

theorem extending {P : Nat → Nat → Prop} (h : Evolves a b) (hg : Grows P a b) : Extends P a b :=
  ⟨hg, h.capacity⟩

theorem addressable (h : Evolves a b) (hb : b.Addressable) : a.Addressable :=
  ⟨h.size.trans_lt hb.size, h.grows.count.trans hb.names⟩

/-- A step that keeps arenas sound keeps them tight if it has a word for every new segment. -/
theorem of_sound (grows : Grows (fun _ _ => False) a b)
    (capacity : ∀ s < a.segmentCount, b.capacityIn s = a.capacityIn s)
    (size : a.totalSize ≤ b.totalSize) (sound : a.Sound → b.Sound)
    (few : a.Tight → bytesPerWord * b.segmentCount ≤ bytesPerWord + b.totalSize) : Evolves a b :=
  ⟨grows, capacity, size, sound, fun h => ⟨sound h.toSound, few h⟩⟩

end Evolves

theorem evolves_patch (a : Arena) (s : Span) (bs : List UInt8) : Evolves a (a.patch s bs) := by
  refine .of_sound ⟨by simp, by simp, fun _ _ h => h.elim⟩
    (fun t _ => a.capacityIn_patch s bs t) (by simp) (fun h => ?_) (fun h => by simpa using h.few)
  refine ⟨whole_patch.2 h.whole, fun seg hseg => ?_⟩
  obtain ⟨t, ht⟩ := Array.getElem?_of_mem hseg
  rw [getElem?_patch] at ht
  by_cases hst : s.segment = t
  · rw [if_pos hst] at ht
    obtain ⟨old, hold, rfl⟩ := Option.map_eq_some_iff.1 ht
    have hu : (old.overwrite s.start bs).used = old.used :=
      Segment.overwrite_go_size old.bytes s.start bs
    rw [hu]
    exact h.fits old (Array.mem_of_getElem? hold)
  · rw [if_neg hst] at ht
    exact h.fits seg (Array.mem_of_getElem? ht)

theorem Fresh.evolves {n : Nat} {r : Span} (h : Fresh a n r b) (hn : n % bytesPerWord = 0)
    (hcapacity : ∀ s < a.segmentCount, b.capacityIn s = a.capacityIn s)
    (hfits : a.Sound → ∀ seg ∈ b.segments, seg.used ≤ seg.capacity)
    (hfew : a.Tight → bytesPerWord * b.segmentCount ≤ bytesPerWord + b.totalSize) : Evolves a b :=
  .of_sound (h.grows _) hcapacity (by rw [h.totalSize]; exact Nat.le_add_right _ _)
    (fun ha => ⟨h.whole ha.whole hn, hfits ha⟩) hfew

theorem evolves_allocIn (a : Arena) (segment n : Nat) : Evolves a (a.allocIn segment n).2 := by
  by_cases h : ∃ seg, a.segments[segment]? = some seg ∧ seg.used + roundUp n ≤ seg.capacity
  · obtain ⟨seg, hseg, hc⟩ := h
    have hs : segment < a.segments.size := (Array.getElem?_eq_some_iff.1 hseg).1
    have hf := fresh_extend (n := roundUp n) a.nextSize a.nextSize hs
    rw [allocIn_of_room hseg hc]
    refine hf.evolves (roundUp_mod n) (fun t _ => capacityIn_extend _ _ _ _ t)
      (fun ha x hx => ?_) (fun ha => ?_)
    · obtain ⟨t, ht⟩ := Array.getElem?_of_mem hx
      rw [getElem?_extend] at ht
      by_cases hst : segment = t
      · subst hst
        rw [if_pos rfl, hseg] at ht
        obtain rfl : seg.extend (roundUp n) = x := by simpa using ht
        rw [used_extend]
        exact hc
      · rw [if_neg hst] at ht
        exact ha.fits x (Array.mem_of_getElem? ht)
    · have hcount : (⟨a.segments.modify segment (·.extend (roundUp n)), a.nextSize⟩ :
          Arena).segmentCount = a.segmentCount := by simp [segmentCount]
      rw [hcount, hf.totalSize]
      exact ha.few.trans (Nat.add_le_add_left (Nat.le_add_right _ _) _)
  · rw [allocIn_of_full fun seg hseg => Nat.lt_of_not_le fun hc => h ⟨seg, hseg, hc⟩]
    exact .refl a

theorem isSome_allocIn_iff (a : Arena) (segment n : Nat) : (a.allocIn segment n).1.isSome ↔
    segment < a.segmentCount ∧ a.usedIn segment + roundUp n ≤ a.capacityIn segment := by
  by_cases hs : segment < a.segmentCount
  · obtain ⟨seg, hseg⟩ := getElem?_of_lt hs
    have hcapacity : a.capacityIn segment = seg.capacity := by simp [capacityIn, hseg]
    rw [usedIn_of_getElem? hseg, hcapacity]
    by_cases hc : seg.used + roundUp n ≤ seg.capacity
    · rw [allocIn_of_room hseg hc]
      exact iff_of_true rfl ⟨hs, hc⟩
    · rw [allocIn_of_full]
      · exact iff_of_false Bool.false_ne_true fun hroom => hc hroom.2
      · intro seg' hseg'
        obtain rfl := Option.some.inj (hseg'.symm.trans hseg)
        exact Nat.lt_of_not_le hc
  · have hnone : a.segments[segment]? = none := Array.getElem?_eq_none (Nat.le_of_not_lt hs)
    rw [allocIn_of_full]
    · exact iff_of_false Bool.false_ne_true fun hroom => hs hroom.1
    · intro seg hseg
      rw [hnone] at hseg
      cases hseg

/-- A new segment is opened for a region that is not empty, unless it is the first one. -/
theorem pos_of_allocIn_eq_none {n : Nat} (ha : a.Sound) (h0 : 0 < a.segmentCount)
    (h : (a.allocIn (a.segmentCount - 1) n).1 = none) : bytesPerWord ≤ roundUp n := by
  obtain ⟨seg, hseg⟩ := getElem?_of_lt (a := a) (s := a.segmentCount - 1) (by omega)
  have hfit := ha.fits seg (Array.mem_of_getElem? hseg)
  have hmod := roundUp_mod n
  by_cases hc : seg.used + roundUp n ≤ seg.capacity
  · rw [allocIn_of_room hseg hc] at h
    cases h
  · unfold bytesPerWord
    omega

theorem evolves_alloc (a : Arena) (n : Nat) : Evolves a (a.alloc n).2 := by
  rcases alloc_cases a n with ⟨r, b, hin, he⟩ | ⟨hin, he⟩
  · have hev := evolves_allocIn a (a.segmentCount - 1) n
    rw [hin] at hev
    rw [he]
    exact hev
  · have hf := fresh_allocFresh a n
    rw [he]
    refine hf.evolves (roundUp_mod n) (fun t ht => (capacityIn_extend _ _ _ _ t).trans
      (capacityIn_openSegment a _ ht)) (fun ha x hx => ?_) (fun ha => ?_)
    · obtain ⟨t, ht⟩ := Array.getElem?_of_mem hx
      simp only [allocFresh] at ht
      rw [getElem?_extend, getElem?_openSegment] at ht
      by_cases hst : a.segments.size = t
      · rw [if_pos hst, if_pos (show t = a.segmentCount from hst.symm)] at ht
        obtain rfl : (⟨#[], max (roundUp n) a.nextSize⟩ : Segment).extend (roundUp n) = x := by
          simpa using ht
        rw [used_extend]
        simp [Segment.used, Segment.extend]
      · rw [if_neg hst, if_neg (show ¬ t = a.segmentCount from fun h => hst h.symm)] at ht
        exact ha.fits x (Array.mem_of_getElem? ht)
    · have hcount : (a.allocFresh n).2.segmentCount = a.segmentCount + 1 := by
        simp [allocFresh, openSegment, segmentCount]
      have hfew := ha.few
      rw [hcount, hf.totalSize]
      by_cases h0 : a.segmentCount = 0
      · rw [h0]
        exact Nat.le_add_right _ _
      · have hpos := pos_of_allocIn_eq_none ha.toSound (Nat.pos_of_ne_zero h0) (by rw [hin])
        unfold bytesPerWord at hpos hfew ⊢
        omega

theorem makeRoom_of_some {slot r : Span} {n : Nat} (h : a.allocIn slot.segment n = (some r, b)) :
    a.makeRoom slot n = (⟨r, none⟩, b) := by rw [makeRoom, h]

theorem makeRoom_of_none {slot r : Span} {n : Nat} (h : a.allocIn slot.segment n = (none, b))
    (hr : b.alloc (n + bytesPerWord) = (r, c)) : a.makeRoom slot n =
      (⟨⟨r.segment, r.start + bytesPerWord, r.length - bytesPerWord⟩,
        some ⟨r.segment, r.start, bytesPerWord⟩⟩, c) := by
  simp only [makeRoom, h, hr]

theorem evolves_makeRoom (a : Arena) (slot : Span) (n : Nat) : Evolves a (a.makeRoom slot n).2 := by
  have hin := evolves_allocIn a slot.segment n
  cases he : a.allocIn slot.segment n with
  | mk r b =>
    rw [he] at hin
    cases r with
    | some r =>
      rw [makeRoom_of_some he]
      exact hin
    | none =>
      rw [makeRoom_of_none he rfl]
      exact hin.trans (evolves_alloc b _)

theorem evolves_putWord (a : Arena) (slot : Span) (w : Word) : Evolves a (a.putWord slot w) :=
  evolves_patch a slot _

theorem evolves_putTag (a : Arena) (shape : Shape) (region : Span) :
    Evolves a (a.putTag shape region) := by
  unfold putTag
  split
  · exact evolves_putWord a _ _
  · exact .refl a

theorem evolves_putLink (a : Arena) (slot : Span) (p : DeepCopy.Placement) (w : Word) :
    Evolves a (a.putLink slot p w) := by
  unfold putLink
  split
  · exact evolves_putWord a _ _
  · exact (evolves_putWord a _ _).trans (evolves_putWord _ _ _)

end Arena

namespace Value

open Arena (Evolves)

mutual

theorem evolves_store : ∀ (v : Value) (slot : Span) (a : Arena), Evolves a (v.store slot a)
  | .null, slot, a => a.evolves_putWord slot _
  | .object shape parts, slot, a => by
    by_cases h : shape = .struct 0 0
    · rw [h, store_emptyStruct]
      exact a.evolves_putWord slot _
    · rw [store_object h, Shape.fill]
      have hroom := a.evolves_makeRoom slot shape.footprint
      have hfill := evolves_storeParts shape parts
      exact ((hroom.trans (Arena.evolves_putTag _ _ _)).trans (hfill _ _ _)).trans
        (Arena.evolves_putLink _ _ _ _)

theorem evolves_storeParts (shape : Shape) : ∀ (parts : List (Part Value)) (segment start : Nat)
    (a : Arena), Evolves a (storeParts shape parts segment start a)
  | [], _, _, a => .refl a
  | ⟨data, slots⟩ :: parts, segment, start, a => by
    rw [storeParts]
    exact ((a.evolves_patch _ _).trans (evolves_storeSlots slots _ _ _)).trans
      (evolves_storeParts shape parts _ _ _)

theorem evolves_storeSlots : ∀ (vs : List Value) (segment start : Nat) (a : Arena),
    Evolves a (storeSlots vs segment start a)
  | [], _, _, a => .refl a
  | v :: vs, segment, start, a => by
    rw [storeSlots]
    exact (evolves_store v _ a).trans (evolves_storeSlots vs _ _ _)

end

theorem evolves_storePart (shape : Shape) (part : Part Value) (segment start : Nat) (a : Arena) :
    Evolves a (storePart shape part segment start a) :=
  (a.evolves_patch _ _).trans (evolves_storeSlots part.slots _ _ _)

theorem evolves_fill (shape : Shape) (parts : List (Part Value)) (region : Span) (a : Arena) :
    Evolves a (shape.fill parts region a) :=
  (a.evolves_putTag shape region).trans (evolves_storeParts shape parts _ _ _)

end Value

theorem Content.evolves_store (content : Content) (a : Arena) :
    a.Evolves (content.store a).2 := by
  cases content with
  | object shape parts => exact (a.evolves_alloc _).trans (Value.evolves_fill shape parts _ _)
  | pointer v => exact (a.evolves_alloc _).trans (v.evolves_store _ _)

end FrozenDefaults
