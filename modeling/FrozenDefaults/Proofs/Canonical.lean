import FrozenDefaults.Proofs.Fits

/-!
# Values in one segment

In an arena of one segment with room enough, a value is stored in that segment
and without landing pads. What the segment holds then does not depend on its
capacity: `Twins budget n a b` says that two arenas are one segment each with the
same bytes and that `n` more of them do not go over the budget.
-/

namespace FrozenDefaults

open Arena

namespace Arena

/-- One segment with the given bytes and with room for `n` more within the budget. -/
def Alone (budget n : Nat) (bytes : Array UInt8) (a : Arena) : Prop :=
  bytes.size + n ≤ budget ∧ ∃ c, a.segments = #[⟨bytes, c⟩] ∧ budget ≤ c

def Twins (budget n : Nat) (a b : Arena) : Prop :=
  ∃ bytes, Alone budget n bytes a ∧ Alone budget n bytes b

variable {a b : Arena} {budget m n : Nat}

namespace Alone

variable {bytes : Array UInt8} (h : Alone budget n bytes a)
include h

theorem mono (hm : m ≤ n) : Alone budget m bytes a := by
  obtain ⟨hn, hs⟩ := h
  exact ⟨by omega, hs⟩

theorem toSegments : a.toSegments = [bytes.toList] := by
  obtain ⟨_, c, hs, _⟩ := h
  rw [Arena.toSegments, hs]
  rfl

theorem totalSize_le : a.totalSize ≤ budget := by
  obtain ⟨hn, c, hs, _⟩ := h
  rw [Arena.totalSize, hs]
  exact (Nat.le_add_right _ _).trans hn

theorem segmentCount : a.segmentCount = 1 := by
  obtain ⟨_, c, hs, _⟩ := h
  rw [Arena.segmentCount, hs]
  rfl

theorem grows {budget' n' : Nat} (h' : Alone budget' n' bytes b) {P : Nat → Nat → Prop} :
    Grows P a b := by
  obtain ⟨_, c, ha, _⟩ := h
  obtain ⟨_, c', hb, _⟩ := h'
  have hseg (s : Nat) : b.segments[s]?.map Segment.bytes = a.segments[s]?.map Segment.bytes := by
    rw [ha, hb]
    cases s <;> rfl
  refine ⟨?_, fun s => ?_, fun s i _ _ => ?_⟩
  · rw [Arena.segmentCount, Arena.segmentCount, ha, hb]
    exact Nat.le_refl _
  · have hu (x : Arena) : x.usedIn s = ((x.segments[s]?.map Segment.bytes).map Array.size).getD 0 := by
      rw [Option.map_map]
      rfl
    rw [hu a, hu b, hseg]
  · have hby (x : Arena) : x.byte? s i = (x.segments[s]?.map Segment.bytes).bind (·[i]?) := by
      rw [Option.bind_map]
      rfl
    rw [hby a, hby b, hseg]

theorem patch (s : Span) (bs : List UInt8) :
    Alone budget n (if s.segment = 0 then Segment.overwrite.go bytes s.start bs else bytes)
      (a.patch s bs) := by
  obtain ⟨hn, c, hs, hc⟩ := h
  by_cases h0 : s.segment = 0
  · rw [if_pos h0]
    refine ⟨?_, c, ?_, hc⟩
    · rwa [Segment.overwrite_go_size]
    · rw [Arena.patch, hs, h0]
      rfl
  · rw [if_neg h0]
    refine ⟨hn, c, ?_, hc⟩
    rw [Arena.patch, hs]
    apply Array.ext_getElem?
    intro i
    rw [Array.getElem?_modify]
    split
    · rename_i hi
      rw [Array.getElem?_eq_none (by simp; omega)]
      rfl
    · rfl

end Alone

theorem Alone.allocIn {bytes : Array UInt8} (h : Alone budget (m + n) bytes a)
    (hn : n % bytesPerWord = 0) : ∃ a', a.allocIn 0 n = (some ⟨0, bytes.size, n⟩, a') ∧
      Alone budget m (bytes ++ Array.replicate n 0) a' := by
  obtain ⟨hmn, c, hs, hc⟩ := h
  have hroom : roundUp n = n := roundUp_eq_self hn
  have hseg : a.segments[0]? = some ⟨bytes, c⟩ := by
    rw [hs]
    rfl
  have hfit : (⟨bytes, c⟩ : Segment).used + roundUp n ≤ (⟨bytes, c⟩ : Segment).capacity := by
    have hused : bytes.size + n ≤ c := by omega
    rwa [hroom]
  have hin := allocIn_of_room hseg hfit
  rw [hroom] at hin
  refine ⟨_, hin, ?_, c, ?_, hc⟩
  · rw [Array.size_append, Array.size_replicate]
    omega
  · rw [hs]
    rfl

theorem Alone.alloc {bytes : Array UInt8} (h : Alone budget (m + n) bytes a)
    (hn : n % bytesPerWord = 0) : (a.alloc n).1 = ⟨0, bytes.size, n⟩ ∧
      Alone budget m (bytes ++ Array.replicate n 0) (a.alloc n).2 := by
  obtain ⟨a', hin, halone⟩ := h.allocIn hn
  have hlast : a.segments.size - 1 = 0 := congrArg (· - 1) h.segmentCount
  have ha : a.alloc n = (⟨0, bytes.size, n⟩, a') := by
    rw [Arena.alloc, hlast, hin]
  rw [ha]
  exact ⟨rfl, halone⟩

theorem Alone.makeRoom {bytes : Array UInt8} (h : Alone budget (m + n) bytes a)
    (hn : n % bytesPerWord = 0) {slot : Span} (hs : slot.segment = 0) :
    (a.makeRoom slot n).1 = ⟨⟨0, bytes.size, n⟩, none⟩ ∧
      Alone budget m (bytes ++ Array.replicate n 0) (a.makeRoom slot n).2 := by
  obtain ⟨a', hin, halone⟩ := h.allocIn hn
  rw [Arena.makeRoom, hs, hin]
  exact ⟨rfl, halone⟩

namespace Twins

theorem mono (h : Twins budget n a b) (hm : m ≤ n) : Twins budget m a b := by
  obtain ⟨bytes, ha, hb⟩ := h
  exact ⟨bytes, ha.mono hm, hb.mono hm⟩

theorem toSegments (h : Twins budget n a b) : a.toSegments = b.toSegments := by
  obtain ⟨bytes, ha, hb⟩ := h
  rw [ha.toSegments, hb.toSegments]

theorem patch (h : Twins budget n a b) (s : Span) (bs : List UInt8) :
    Twins budget n (a.patch s bs) (b.patch s bs) := by
  obtain ⟨bytes, ha, hb⟩ := h
  exact ⟨_, ha.patch s bs, hb.patch s bs⟩

theorem putTag (h : Twins budget n a b) (shape : Shape) (region : Span) :
    Twins budget n (a.putTag shape region) (b.putTag shape region) := by
  unfold Arena.putTag
  split
  · exact h.patch _ _
  · exact h

theorem putLink (h : Twins budget n a b) (slot : Span) (p : DeepCopy.Placement) (w : Word) :
    Twins budget n (a.putLink slot p w) (b.putLink slot p w) := by
  unfold Arena.putLink
  split
  · exact h.patch _ _
  · exact (h.patch _ _).patch _ _

theorem alloc (h : Twins budget (m + n) a b) (hn : n % bytesPerWord = 0) :
    (a.alloc n).1 = (b.alloc n).1 ∧ (a.alloc n).1.segment = 0 ∧
      Twins budget m (a.alloc n).2 (b.alloc n).2 := by
  obtain ⟨bytes, ha, hb⟩ := h
  obtain ⟨hra, ha⟩ := ha.alloc hn
  obtain ⟨hrb, hb⟩ := hb.alloc hn
  rw [hra, hrb]
  exact ⟨rfl, rfl, _, ha, hb⟩

theorem makeRoom (h : Twins budget (m + n) a b) (hn : n % bytesPerWord = 0) {slot : Span}
    (hs : slot.segment = 0) : (a.makeRoom slot n).1 = (b.makeRoom slot n).1 ∧
      (a.makeRoom slot n).1.content.segment = 0 ∧
        Twins budget m (a.makeRoom slot n).2 (b.makeRoom slot n).2 := by
  obtain ⟨bytes, ha, hb⟩ := h
  obtain ⟨hra, ha⟩ := ha.makeRoom hn hs
  obtain ⟨hrb, hb⟩ := hb.makeRoom hn hs
  rw [hra, hrb]
  exact ⟨rfl, rfl, _, ha, hb⟩

end Twins

end Arena

namespace Value

mutual

theorem twins_store {budget : Nat} : ∀ (v : Value) {m : Nat} {slot : Span} {a b : Arena},
    slot.segment = 0 → Twins budget (m + v.size) a b →
      Twins budget m (v.store slot a) (v.store slot b)
  | .null, m, slot, a, b, _, h => by
    rw [store, store]
    exact h.patch _ _
  | .object shape parts, m, slot, a, b, hs, h => by
    by_cases h0 : shape = .struct 0 0
    · subst h0
      rw [store_emptyStruct, store_emptyStruct]
      exact (h.patch _ _).mono (Nat.le_add_right _ _)
    · rw [size, Nat.add_comm shape.footprint, ← Nat.add_assoc] at h
      obtain ⟨hroom, hseg, hrest⟩ := h.makeRoom shape.footprint_mod hs
      rw [store_object h0, store_object h0, ← hroom, Shape.fill, Shape.fill]
      exact (twins_storeParts shape parts hseg (hrest.putTag _ _)).putLink _ _ _

theorem twins_storeParts {budget : Nat} (shape : Shape) : ∀ (parts : List (Part Value))
    {m segment start : Nat} {a b : Arena}, segment = 0 → Twins budget (m + partsSize parts) a b →
      Twins budget m (storeParts shape parts segment start a)
        (storeParts shape parts segment start b)
  | [], m, segment, start, a, b, _, h => by
    rw [storeParts, storeParts]
    exact h.mono (Nat.le_add_right _ _)
  | ⟨data, slots⟩ :: parts, m, segment, start, a, b, hs, h => by
    rw [partsSize, Nat.add_comm (slotsSize slots), ← Nat.add_assoc] at h
    rw [storeParts, storeParts]
    exact twins_storeParts shape parts hs (twins_storeSlots slots hs (h.patch _ _))

theorem twins_storeSlots {budget : Nat} : ∀ (vs : List Value) {m segment start : Nat} {a b : Arena},
    segment = 0 → Twins budget (m + slotsSize vs) a b →
      Twins budget m (storeSlots vs segment start a) (storeSlots vs segment start b)
  | [], m, segment, start, a, b, _, h => by
    rw [storeSlots, storeSlots]
    exact h.mono (Nat.le_add_right _ _)
  | v :: vs, m, segment, start, a, b, hs, h => by
    rw [slotsSize, Nat.add_comm v.size, ← Nat.add_assoc] at h
    rw [storeSlots, storeSlots]
    exact twins_storeSlots vs hs (twins_store v hs h)

end

end Value

theorem Content.twins_store {content : Content} {budget m : Nat} {a b : Arena}
    (h : Twins budget (m + content.size) a b) :
    (content.store a).1 = (content.store b).1 ∧
      Twins budget m (content.store a).2 (content.store b).2 := by
  cases content with
  | object shape parts =>
    rw [size, Nat.add_comm shape.footprint, ← Nat.add_assoc] at h
    obtain ⟨hr, hseg, hrest⟩ := h.alloc shape.footprint_mod
    simp only [store, Shape.settle, ← hr, Shape.fill]
    exact ⟨trivial, Value.twins_storeParts shape parts hseg (hrest.putTag _ _)⟩
  | pointer v =>
    rw [size, Nat.add_comm bytesPerWord, ← Nat.add_assoc] at h
    obtain ⟨hr, hseg, hrest⟩ := h.alloc (by decide)
    simp only [store, ← hr]
    exact ⟨trivial, Value.twins_store v hseg hrest⟩

namespace Arena

variable {a : Arena} {budget m n : Nat}

/-- Room for `n` more bytes in a single segment, which may still have to be opened. -/
def Roomy (budget n : Nat) (a : Arena) : Prop :=
  (∃ bytes, Alone budget n bytes a) ∨ a.segments = #[] ∧ n ≤ budget ∧ budget ≤ a.nextSize

namespace Roomy

variable (h : Roomy budget n a)
include h

theorem segmentCount_le : a.segmentCount ≤ 1 := by
  rcases h with ⟨bytes, h⟩ | ⟨h, _⟩
  · exact h.segmentCount.le
  · rw [Arena.segmentCount, h]
    exact Nat.zero_le _

theorem totalSize_le : a.totalSize ≤ budget := by
  rcases h with ⟨bytes, h⟩ | ⟨h, _⟩
  · exact h.totalSize_le
  · rw [Arena.totalSize, h]
    exact Nat.zero_le _

end Roomy

theorem alone_withCapacity {capacity : Nat} (hn : n ≤ budget) (hb : budget ≤ capacity)
    (h0 : 0 < capacity) : Alone budget n #[] (.withCapacity capacity) := by
  have hle := le_roundUp capacity
  refine ⟨?_, roundUp capacity, ?_, hb.trans hle⟩
  · rwa [Array.size_empty, Nat.zero_add]
  · simp only [withCapacity, if_pos (h0.trans_le hle)]
    rfl

theorem totalSize_withCapacity (n : Nat) : (withCapacity n).totalSize = 0 := by
  unfold withCapacity
  split
  · exact totalSize_openSegment _ _
  · rfl

theorem roomy_withCapacity {capacity : Nat} (hn : n ≤ budget) (hb : budget ≤ capacity) :
    Roomy budget n (.withCapacity capacity) := by
  rcases Nat.eq_zero_or_pos capacity with rfl | h0
  · exact .inr ⟨rfl, hn, hb.trans (Nat.zero_le _)⟩
  · exact .inl ⟨_, alone_withCapacity hn hb h0⟩

theorem alloc_of_isEmpty (h : a.segments = #[]) (n : Nat) :
    a.alloc n = (a.openSegment (max (roundUp n) a.nextSize)).alloc n := by
  have hseg : (a.openSegment (max (roundUp n) a.nextSize)).segments[0]? =
      some ⟨#[], max (roundUp n) a.nextSize⟩ := by
    rw [getElem?_openSegment, Arena.segmentCount, h]
    rfl
  have hfit : (⟨#[], max (roundUp n) a.nextSize⟩ : Segment).used + roundUp n ≤
      (⟨#[], max (roundUp n) a.nextSize⟩ : Segment).capacity :=
    (Nat.zero_add _).trans_le (Nat.le_max_left _ _)
  have hcount : (a.openSegment (max (roundUp n) a.nextSize)).segments.size - 1 = 0 := by
    simp [openSegment, h]
  have hnone : a.allocIn (a.segments.size - 1) n = (none, a) :=
    allocIn_of_full fun seg hs => by
      rw [h] at hs
      cases hs
  rw [alloc, alloc, hnone, hcount, allocIn_of_room hseg hfit]
  simp only [allocFresh, h]
  rfl

theorem store_of_isEmpty (h : a.segments = #[]) (content : Content) : ∃ capacity,
    a.nextSize ≤ capacity ∧ content.store a = content.store (a.openSegment capacity) := by
  cases content with
  | object shape parts =>
    refine ⟨max (roundUp shape.footprint) a.nextSize, Nat.le_max_right _ _, ?_⟩
    rw [Content.store, Shape.settle, alloc_of_isEmpty h]
    rfl
  | pointer v =>
    refine ⟨max (roundUp bytesPerWord) a.nextSize, Nat.le_max_right _ _, ?_⟩
    rw [Content.store, alloc_of_isEmpty h]
    rfl

theorem alone_openSegment (h : a.segments = #[]) {capacity : Nat} (hn : n ≤ budget)
    (hb : budget ≤ capacity) : Alone budget n #[] (a.openSegment capacity) := by
  refine ⟨?_, capacity, ?_, hb⟩
  · rwa [Array.size_empty, Nat.zero_add]
  · rw [openSegment, h]
    rfl

theorem Roomy.store {content : Content} (h : Roomy budget (m + content.size) a) :
    Roomy budget m (content.store a).2 := by
  have halone {bytes : Array UInt8} {b : Arena} (hb : Alone budget (m + content.size) bytes b) :
      Roomy budget m (content.store b).2 := by
    obtain ⟨bytes', hb', _⟩ := (Content.twins_store ⟨bytes, hb, hb⟩).2
    exact .inl ⟨bytes', hb'⟩
  rcases h with ⟨bytes, h⟩ | ⟨h, hn, hb⟩
  · exact halone h
  · obtain ⟨capacity, hc, hstore⟩ := store_of_isEmpty h content
    rw [hstore]
    exact halone (alone_openSegment h hn (hb.trans hc))

/-- A content is stored in a new arena as in one of a single segment, with any budget that the first
segment can hold. -/
theorem store_withCapacity (content : Content) {budget capacity : Nat}
    (h : budget ≤ roundUp capacity) : ∃ x, Alone budget budget #[] x ∧
      content.store (.withCapacity capacity) = content.store x := by
  by_cases h0 : 0 < roundUp capacity
  · have hempty : (⟨#[], max (roundUp capacity) minSegmentSize⟩ : Arena).segments = #[] := rfl
    refine ⟨_, alone_openSegment hempty (Nat.le_refl _) h, ?_⟩
    rw [withCapacity, if_pos h0]
  · have hempty : (withCapacity capacity).segments = #[] := by
      rw [withCapacity, if_neg h0]
    obtain ⟨c, _, hstore⟩ := store_of_isEmpty hempty content
    exact ⟨_, alone_openSegment hempty (Nat.le_refl _) (by omega), hstore⟩

theorem store_withCapacity_alike {content : Content} {m n : Nat}
    (hm : content.size ≤ roundUp m) (hn : content.size ≤ roundUp n) :
    (content.store (.withCapacity m)).1 = (content.store (.withCapacity n)).1 ∧
      (content.store (.withCapacity m)).2.toSegments =
        (content.store (.withCapacity n)).2.toSegments := by
  obtain ⟨x, hx, hxs⟩ := store_withCapacity content hm
  obtain ⟨y, hy, hys⟩ := store_withCapacity content hn
  have ht : Twins content.size (0 + content.size) x y := by
    rw [Nat.zero_add]
    exact ⟨_, hx, hy⟩
  rw [hxs, hys]
  exact ⟨(Content.twins_store ht).1, (Content.twins_store ht).2.toSegments⟩

end Arena

end FrozenDefaults
