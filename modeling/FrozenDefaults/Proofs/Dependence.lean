import FrozenDefaults.Proofs.Canonical
import FrozenDefaults.Proofs.Preservation
import FrozenDefaults.Proofs.Requirement
import FrozenDefaults.Proofs.SameSteps

/-!
# What a copy depends on

Slots, structs and lists of two arenas are the same if they have the same
values, however these are laid out and linked. A copy is the same for both, in
every arena in which it succeeds for one of them. So a copy of a copy looks like
the first one.
-/

namespace FrozenDefaults

open Arena
open DeepCopy

namespace Arena

/-- The slots have the same value, or neither has one. -/
def SameSlot (s : Arena) (x : Span) (t : Arena) (y : Span) : Prop := ∀ v, s.Means x v ↔ t.Means y v

/-- Aligned structs with sections of the same sizes, with the same data, and with the same pointers
one by one. -/
structure SameStruct (s : Arena) (v : StructView) (t : Arena) (w : StructView) : Prop where
  data : ∃ bs, s.dataOf v.data v.data.length = .ok bs ∧ t.dataOf w.data w.data.length = .ok bs
  aligned : v.pointers.Aligned ∧ w.pointers.Aligned
  length : v.pointers.length = w.pointers.length
  slots : ∀ i x y, v.pointers.word i = .ok x → w.pointers.word i = .ok y → SameSlot s x t y

/-- The lists describe the same content, or neither describes one. -/
def SameList (s : Arena) (v : ListView) (t : Arena) (w : ListView) : Prop :=
  ∀ content, s.Describes (.list v) content ↔ t.Describes (.list w) content

variable {s t : Arena}

theorem SameSlot.symm {x y : Span} (h : SameSlot s x t y) : SameSlot t y s x := fun v => (h v).symm

theorem SameStruct.symm {v w : StructView} (h : SameStruct s v t w) : SameStruct t w s v where
  data := by
    obtain ⟨bs, hv, hw⟩ := h.data
    exact ⟨bs, hw, hv⟩
  aligned := h.aligned.symm
  length := h.length.symm
  slots i x y hx hy := (h.slots i y x hy hx).symm

theorem SameList.symm {v w : ListView} (h : SameList s v t w) : SameList t w s v :=
  fun content => (h content).symm

theorem SameSlot.of_means {x y : Span} {v : Value} (hx : s.Means x v) (hy : t.Means y v) :
    SameSlot s x t y :=
  fun _ => ⟨fun h => hx.unique h ▸ hy, fun h => hy.unique h ▸ hx⟩

theorem SameList.of_describes {v w : ListView} {x : Content}
    (hv : s.Describes (.list v) x) (hw : t.Describes (.list w) x) :
    SameList s v t w :=
  fun _ => ⟨fun h => hv.unique h ▸ hw, fun h => hw.unique h ▸ hv⟩

theorem SameSlot.valueAt {x y : Span} (h : SameSlot s x t y) {limit room : Nat} {v : Value}
    (hv : s.valueAt limit room x = .ok v) : t.valueAt limit room y = .ok v := by
  have hfits := valueAt_fits hv
  obtain ⟨_, ht⟩ := (h v).1 ⟨room, valueAt_of_fits hfits hv⟩
  exact valueAt_of_fits hfits ht

theorem dataOf_take {a : Arena} {r : Span} {m n : Nat} {bs : List UInt8}
    (h : a.dataOf r n = .ok bs) (hm : m ≤ n) : a.dataOf r m = .ok (bs.take m) := by
  have hlen := length_dataOf h
  have htake : (bs.take m).length = m := by rw [List.length_take, hlen, Nat.min_eq_left hm]
  rcases Nat.eq_zero_or_pos m with rfl | h0
  · rw [List.take_zero]
    rfl
  · rw [dataOf, if_pos (h0.trans_le hm)] at h
    obtain ⟨q, hq, h⟩ := bind_eq_ok_iff.1 h
    obtain ⟨hn, rfl⟩ := Span.part_eq_ok_iff.1 hq
    obtain ⟨hheld, _, hbytes⟩ := read_eq_ok_iff.1 h
    have hread : a.read ⟨r.segment, r.start, (bs.take m).length⟩ = .ok (bs.take m) := by
      rw [htake]
      refine read_eq_ok_iff.2 ⟨hheld.sub (Nat.add_le_add_left hm _), htake, fun i hi => ?_⟩
      rw [List.getElem?_take_of_lt hi]
      exact hbytes i (Nat.lt_of_lt_of_le hi hm)
    have hdata := dataOf_of_read (by omega) hread
    rwa [htake] at hdata

/-- Of the same structs the same part is read, whatever the numbers of words asked for. -/
theorem SameStruct.partOf {v w : StructView} (h : SameStruct s v t w) {limit room d p : Nat}
    {part : Part Value} (hpart : s.partOf (s.valueAt limit room) v d p = .ok part) :
    t.partOf (t.valueAt limit room) w d p = .ok part := by
  obtain ⟨bs, hbs, hbs'⟩ := h.data
  obtain ⟨data, hdata, hpart⟩ := bind_eq_ok_iff.1 hpart
  obtain ⟨there, hthere, hpart⟩ := bind_eq_ok_iff.1 hpart
  obtain ⟨vs, hvs, hpart⟩ := bind_eq_ok_iff.1 hpart
  obtain rfl : ⟨data, vs⟩ = part := Except.ok.inj hpart
  obtain ⟨_, rfl⟩ := Span.wordCount_eq_ok_iff.1 hthere
  have hlen : v.data.length = w.data.length := (length_dataOf hbs).symm.trans (length_dataOf hbs')
  have hsame : data = bs.take (min v.data.length (d * bytesPerWord)) :=
    Except.ok.inj (hdata.symm.trans (dataOf_take hbs (Nat.min_le_left _ _)))
  rw [hlen] at hsame
  have hdata' : t.dataOf w.data (min w.data.length (d * bytesPerWord)) = .ok data := by
    rw [hsame]
    exact dataOf_take hbs' (Nat.min_le_left _ _)
  refine bind_eq_ok_iff.2 ⟨data, hdata', bind_eq_ok_iff.2 ⟨_,
    Span.wordCount_eq_ok_iff.2 ⟨h.aligned.2, rfl⟩, bind_eq_ok_iff.2 ⟨vs, ?_, rfl⟩⟩⟩
  rw [← h.length]
  refine collect_imp (fun i _ _ x _ hi => ?_) hvs
  obtain ⟨r, hr, hx⟩ := bind_eq_ok_iff.1 hi
  have hfits := (Span.part_eq_ok_iff.1 hr).1
  rw [h.length] at hfits
  have hr' := Span.part_eq_ok hfits
  exact bind_eq_ok_iff.2 ⟨_, hr', (h.slots i r _ hr hr').valueAt hx⟩

theorem SameStruct.means {v w : StructView} (h : SameStruct s v t w) {x y : Span} {far far' : Bool}
    (hx : s.Leads x far (.struct v)) (hy : t.Leads y far' (.struct w)) {u : Value}
    (hu : s.Means x u) : t.Means y u := by
  obtain ⟨limit, hu⟩ := hu
  -- There is a level left for the struct, since the word leads to it.
  have hread : s.valueAt (limit + 1) (limit + 1) x = .ok u :=
    valueAt_of_fits ((valueAt_fits hu).mono limit.le_succ) hu
  rw [hx.valueAt] at hread
  obtain ⟨part, hpart, hu⟩ := bind_eq_ok_iff.1 hread
  obtain ⟨bs, hbs, hbs'⟩ := h.data
  have hdata : v.data.length = w.data.length := (length_dataOf hbs).symm.trans (length_dataOf hbs')
  refine ⟨limit + 1, ?_⟩
  rw [hy.valueAt]
  rw [hdata, h.length] at hpart hu
  exact bind_eq_ok_iff.2 ⟨part, h.partOf hpart, hu⟩

theorem SameSlot.of_leads {v w : StructView} {x y : Span} {far far' : Bool}
    (hx : s.Leads x far (.struct v)) (hy : t.Leads y far' (.struct w)) (h : SameStruct s v t w) :
    SameSlot s x t y :=
  fun _ => ⟨h.means hx hy, h.symm.means hy hx⟩

end Arena

section Copies

variable {s t : Arena} {limit : Nat} {a b : Arena}

theorem copyStruct_run_of_same {v w view : StructView} {d p : Nat} (h : SameStruct s v t w)
    (hrun : copyStruct s limit v d p a = (.ok view, b)) :
    copyStruct t limit w d p a = (.ok view, b) := by
  obtain ⟨part, hpart⟩ := copyStruct_requires s limit v d p a view b hrun
  rw [← copyStruct_alike hpart (h.partOf hpart)]
  exact hrun

theorem copyList_run_of_same {v w view : ListView} (h : SameList s v t w)
    (hrun : copyList s limit v a = (.ok view, b)) : copyList t limit w a = (.ok view, b) := by
  obtain ⟨parts, hread⟩ := copyList_requires s limit v a view b hrun
  obtain ⟨_, hvalid, hparts⟩ := bind_eq_ok_iff.1 hread
  have hv : s.describe limit (.list v) = .ok (.object (.list v.layout v.count) parts) :=
    bind_eq_ok_iff.2 ⟨(), hvalid, bind_eq_ok_iff.2 ⟨parts, hparts, rfl⟩⟩
  have hw := ((h _).1 ⟨limit, hv⟩).describe (.of_listParts hparts)
  rw [← copyList_alike hv hw]
  exact hrun

theorem copyPointer_run_of_same {x y slot : Span} (h : SameSlot s x t y)
    (hrun : copyPointer s limit x slot a = (.ok (), b)) :
    copyPointer t limit y slot a = (.ok (), b) := by
  obtain ⟨v, hv⟩ := copyPointer_requires s limit x slot a () b hrun
  rw [← copyPointer_alike hv (h.valueAt hv)]
  exact hrun

end Copies

/-- The first segments of two new arenas are large enough for all that the arena holds, and the
places of the arena can be named. -/
structure Arena.FitsNew (a : Arena) (m n : Nat) : Prop where
  size : a.totalSize < 2 ^ 32
  first : a.totalSize ≤ roundUp m
  second : a.totalSize ≤ roundUp n

theorem Content.Fits.restored {content : Content} {limit m n : Nat} {d : Descriptor} {a : Arena}
    (hf : content.Fits limit) (hstore : content.store (.withCapacity m) = (d, a))
    (h : a.FitsNew m n) : a.describe limit d = .ok content ∧
      ∃ b, content.store (.withCapacity n) = (d, b) ∧ b.toSegments = a.toSegments := by
  have ht := tight_withCapacity m
  have hstored := hf.stored ht.toSound
  rw [hstore] at hstored
  have hsize := (Nat.le_add_left _ _).trans hstored.size
  have halike := store_withCapacity_alike (hsize.trans h.second) (hsize.trans h.first)
  rw [hstore] at halike
  obtain ⟨e, b, hb⟩ : ∃ e b, content.store (.withCapacity n) = (e, b) := ⟨_, _, rfl⟩
  rw [hb] at halike
  obtain ⟨rfl, hsegments⟩ := halike
  exact ⟨hstored.back ht.toSound ((hstored.evolves.tight ht).addressable h.size) a (.refl _ _), b,
    hb, hsegments⟩

section Recopies

variable {s : Arena} {limit m n : Nat} {a : Arena}

theorem recopyStruct {v view : StructView} {d p : Nat}
    (hrun : copyStruct s limit v d p (.withCapacity m) = (.ok view, a)) (h : a.FitsNew m n) :
    ∃ b, copyStruct a limit view d p (.withCapacity n) = (.ok view, b) ∧
      b.toSegments = a.toSegments := by
  obtain ⟨part, _, hfits, hstore⟩ := copyStruct_stores (tight_withCapacity m).toSound hrun
  obtain ⟨hread, b, hb, hsegments⟩ := hfits.restored hstore h
  obtain ⟨hblock, hpart⟩ := partOf_of_describe hread
  have hcopy := (copyStruct_realizes view d p (tight_withCapacity n).toSound).ok _
    (bind_eq_ok_iff.2 ⟨(), hblock, hpart⟩)
  rw [Content.store, footprint_struct] at hb
  obtain ⟨hview, rfl⟩ := Prod.mk.inj hb
  exact ⟨_, hcopy.trans (by rw [← Descriptor.struct.inj hview]), hsegments⟩

theorem recopyList {v view : ListView}
    (hrun : copyList s limit v (.withCapacity m) = (.ok view, a)) (h : a.FitsNew m n) :
    ∃ b, copyList a limit view (.withCapacity n) = (.ok view, b) ∧
      b.toSegments = a.toSegments := by
  obtain ⟨content, _, hfits, hstore⟩ := copyList_stores (tight_withCapacity m).toSound hrun
  obtain ⟨hread, b, hb, hsegments⟩ := hfits.restored hstore h
  obtain ⟨_, hvalid, hread⟩ := bind_eq_ok_iff.1 hread
  obtain ⟨parts, hparts, hread⟩ := bind_eq_ok_iff.1 hread
  obtain rfl := Except.ok.inj hread
  have hcopy := (copyList_realizes view (tight_withCapacity n).toSound).ok parts
    (bind_eq_ok_iff.2 ⟨(), hvalid, hparts⟩)
  obtain ⟨hview, rfl⟩ := Prod.mk.inj hb
  exact ⟨_, hcopy.trans (by rw [← Descriptor.list.inj hview]), hsegments⟩

/-- The slots are the first regions of the two arenas. -/
theorem recopyPointer {src : Span}
    (hrun : copyPointer s limit src ((withCapacity m).alloc bytesPerWord).1
      ((withCapacity m).alloc bytesPerWord).2 = (.ok (), a)) (h : a.FitsNew m n) :
    ((withCapacity n).alloc bytesPerWord).1 = ((withCapacity m).alloc bytesPerWord).1 ∧
    ∃ b, copyPointer a limit ((withCapacity m).alloc bytesPerWord).1
        ((withCapacity n).alloc bytesPerWord).1 ((withCapacity n).alloc bytesPerWord).2 =
          (.ok (), b) ∧
      b.toSegments = a.toSegments := by
  have hslot (k : Nat) : ((withCapacity k).alloc bytesPerWord).2.HasSlot
      ((withCapacity k).alloc bytesPerWord).1 := by
    obtain ⟨hr, hl, _⟩ := alloc_region (tight_withCapacity k).toSound (n := bytesPerWord) rfl
    exact ⟨hr.holds, hl, hr.aligned⟩
  have hsound (k : Nat) : ((withCapacity k).alloc bytesPerWord).2.Sound :=
    (evolves_alloc _ _).sound (tight_withCapacity k).toSound
  obtain ⟨v, hv, hdone⟩ := (copyPointer_realizes src (hsound m) (hslot m)).of_run hrun
  obtain ⟨_, rfl⟩ := Prod.mk.inj hdone
  have hfits : (Content.pointer v).Fits limit := .pointer (valueAt_fits hv)
  obtain ⟨hread, b, hb, hsegments⟩ := hfits.restored rfl h
  obtain ⟨w, hread, hw⟩ := map_eq_ok_iff.1 hread
  obtain rfl := Content.pointer.inj hw
  have hcopy := (copyPointer_realizes ((withCapacity m).alloc bytesPerWord).1 (hsound n)
    (hslot n)).ok v hread
  obtain ⟨hview, rfl⟩ := Prod.mk.inj hb
  exact ⟨Descriptor.pointer.inj hview, _, hcopy, hsegments⟩

end Recopies

/-- A copy depends on the values of its source alone. Where it succeeds it is the same for every
source with the same values, with the same result in the same arena, and a copy of a copy looks like
the first one if both are made into new arenas large enough for it. -/
theorem copies_depend_on_values (s t : Arena) (limit : Nat) :
    (∀ v w : StructView, SameStruct s v t w → ∀ (d p : Nat) (view : StructView) (a b : Arena),
      copyStruct s limit v d p a = (.ok view, b) ↔ copyStruct t limit w d p a = (.ok view, b)) ∧
    (∀ v w : ListView, SameList s v t w → ∀ (view : ListView) (a b : Arena),
      copyList s limit v a = (.ok view, b) ↔ copyList t limit w a = (.ok view, b)) ∧
    (∀ x y : Span, SameSlot s x t y → ∀ (slot : Span) (a b : Arena),
      copyPointer s limit x slot a = (.ok (), b) ↔ copyPointer t limit y slot a = (.ok (), b)) ∧
    ∀ (m n : Nat) (a : Arena), a.FitsNew m n →
      (∀ (v view : StructView) (d p : Nat),
        copyStruct s limit v d p (.withCapacity m) = (.ok view, a) →
        ∃ b, copyStruct a limit view d p (.withCapacity n) = (.ok view, b) ∧
          b.toSegments = a.toSegments) ∧
      (∀ v view : ListView, copyList s limit v (.withCapacity m) = (.ok view, a) →
        ∃ b, copyList a limit view (.withCapacity n) = (.ok view, b) ∧
          b.toSegments = a.toSegments) ∧
      ∀ src : Span,
        let first := (withCapacity m).alloc bytesPerWord
        let second := (withCapacity n).alloc bytesPerWord
        copyPointer s limit src first.1 first.2 = (.ok (), a) → second.1 = first.1 ∧
        ∃ b, copyPointer a limit first.1 second.1 second.2 = (.ok (), b) ∧
          b.toSegments = a.toSegments :=
  ⟨fun _ _ h _ _ _ _ _ => ⟨copyStruct_run_of_same h, copyStruct_run_of_same h.symm⟩,
    fun _ _ h _ _ _ => ⟨copyList_run_of_same h, copyList_run_of_same h.symm⟩,
    fun _ _ h _ _ _ => ⟨copyPointer_run_of_same h, copyPointer_run_of_same h.symm⟩,
    fun _ _ _ hfits => ⟨fun _ _ _ _ hrun => recopyStruct hrun hfits,
      fun _ _ hrun => recopyList hrun hfits, fun _ hrun => recopyPointer hrun hfits⟩⟩

/-- The value of `Arena.sample` in four segments: the struct behind a double landing pad, and its list
behind a single one. -/
def Arena.linked : Arena :=
  ⟨#[⟨(Word.toBytes (Pointer.ofFar true 0 1)).toArray, 8⟩,
    ⟨([Pointer.ofFar false 0 2, Pointer.ofStruct 0 1 1].flatMap Word.toBytes).toArray, 16⟩,
    ⟨([42, Pointer.ofFar false 0 3].flatMap Word.toBytes).toArray, 16⟩,
    ⟨([Pointer.ofList 0 .byte 3, 0x636261].flatMap Word.toBytes).toArray, 16⟩], 1024⟩

theorem copies_depend_on_values_sample :
    (∃ b, copyStruct sample 64 ⟨⟨0, 8, 8⟩, ⟨0, 16, 8⟩⟩ 2 2 crowded =
        (.ok ⟨⟨1, 0, 16⟩, ⟨1, 16, 16⟩⟩, b) ∧
      copyStruct linked 64 ⟨⟨2, 0, 8⟩, ⟨2, 8, 8⟩⟩ 2 2 crowded =
        (.ok ⟨⟨1, 0, 16⟩, ⟨1, 16, 16⟩⟩, b)) ∧
    (∃ b, copyList sample 64 ⟨⟨0, 24, 8⟩, .bytes1, 3⟩ crowded =
        (.ok ⟨⟨1, 0, 8⟩, .bytes1, 3⟩, b) ∧
      copyList linked 64 ⟨⟨3, 8, 8⟩, .bytes1, 3⟩ crowded = (.ok ⟨⟨1, 0, 8⟩, .bytes1, 3⟩, b)) ∧
    (∃ b, copyPointer sample 64 ⟨0, 0, 8⟩ ⟨0, 0, 8⟩ crowded = (.ok (), b) ∧
      copyPointer linked 64 ⟨0, 0, 8⟩ ⟨0, 0, 8⟩ crowded = (.ok (), b)) ∧
    ∃ a b, copyStruct sample 64 ⟨⟨0, 8, 8⟩, ⟨0, 16, 8⟩⟩ 1 1 (.withCapacity 24) =
        (.ok ⟨⟨0, 0, 8⟩, ⟨0, 8, 8⟩⟩, a) ∧
      copyStruct a 64 ⟨⟨0, 0, 8⟩, ⟨0, 8, 8⟩⟩ 1 1 (.withCapacity 100) =
        (.ok ⟨⟨0, 0, 8⟩, ⟨0, 8, 8⟩⟩, b) ∧ b.toSegments = a.toSegments := by
  have h := copies_depend_on_values sample linked 64
  have hpointer : SameSlot sample ⟨0, 16, 8⟩ linked ⟨2, 8, 8⟩ :=
    .of_means (v := .object (.list .bytes1 3) [⟨[97, 98, 99], []⟩]) ⟨1, rfl⟩ ⟨1, rfl⟩
  have hlists : SameList sample ⟨⟨0, 24, 8⟩, .bytes1, 3⟩ linked ⟨⟨3, 8, 8⟩, .bytes1, 3⟩ :=
    .of_describes (x := .object (.list .bytes1 3) [⟨[97, 98, 99], []⟩]) ⟨0, rfl⟩ ⟨0, rfl⟩
  have hstruct : SameStruct sample ⟨⟨0, 8, 8⟩, ⟨0, 16, 8⟩⟩ linked ⟨⟨2, 0, 8⟩, ⟨2, 8, 8⟩⟩ := by
    refine ⟨⟨[42, 0, 0, 0, 0, 0, 0, 0], rfl, rfl⟩, by decide, rfl, fun i x y hx hy => ?_⟩
    obtain ⟨hi, rfl⟩ := Span.part_eq_ok_iff.1 hx
    obtain ⟨_, rfl⟩ := Span.part_eq_ok_iff.1 hy
    simp only [bytesPerWord] at hi
    obtain rfl : i = 0 := by omega
    exact hpointer
  have hnear : sample.Leads ⟨0, 0, 8⟩ false (.struct ⟨⟨0, 8, 8⟩, ⟨0, 16, 8⟩⟩) :=
    ⟨rfl, _, rfl, by decide, by decide, by decide +kernel⟩
  have hfar : linked.Leads ⟨0, 0, 8⟩ true (.struct ⟨⟨2, 0, 8⟩, ⟨2, 8, 8⟩⟩) :=
    ⟨rfl, _, rfl, by decide, by decide, by decide +kernel⟩
  have hslot : SameSlot sample ⟨0, 0, 8⟩ linked ⟨0, 0, 8⟩ :=
    .of_leads hnear hfar hstruct
  have hs : (copyStruct sample 64 ⟨⟨0, 8, 8⟩, ⟨0, 16, 8⟩⟩ 2 2 crowded).1 =
      .ok ⟨⟨1, 0, 16⟩, ⟨1, 16, 16⟩⟩ := by decide +kernel
  have hl : (copyList sample 64 ⟨⟨0, 24, 8⟩, .bytes1, 3⟩ crowded).1 =
      .ok ⟨⟨1, 0, 8⟩, .bytes1, 3⟩ := by decide +kernel
  have hp : (copyPointer sample 64 ⟨0, 0, 8⟩ ⟨0, 0, 8⟩ crowded).1 = .ok () := by decide +kernel
  have hn : (copyStruct sample 64 ⟨⟨0, 8, 8⟩, ⟨0, 16, 8⟩⟩ 1 1 (.withCapacity 24)).1 =
      .ok ⟨⟨0, 0, 8⟩, ⟨0, 8, 8⟩⟩ := by decide +kernel
  have hs := Building.run_eq hs
  have hl := Building.run_eq hl
  have hp := Building.run_eq hp
  have hn := Building.run_eq hn
  obtain ⟨b, hb, hsegments⟩ := (h.2.2.2 24 100 _
    ⟨by decide +kernel, by decide +kernel, by decide +kernel⟩).1 _ _ _ _ hn
  exact ⟨⟨_, hs, (h.1 _ _ hstruct _ _ _ _ _).1 hs⟩, ⟨_, hl, (h.2.1 _ _ hlists _ _ _).1 hl⟩,
    ⟨_, hp, (h.2.2.1 _ _ hslot _ _ _).1 hp⟩, _, b, hn, hb, hsegments⟩

end FrozenDefaults
