import FrozenDefaults.Proofs.Filling

/-!
# A copy reads and then stores

A deep copy does what storing the value does that is read from the source, and
it fails only where the reading fails. Whether it fails or not, it changes no
place that was in use before except the slot it was given.
-/

namespace FrozenDefaults

open Arena
open Building (Realizes)
open DeepCopy (Placement)

namespace Arena

variable {a b : Arena} {slot : Span} {n : Nat} {p : Placement}

/-- The room for `n` bytes, with a landing pad or without, is new in `b`. -/
structure Room (a : Arena) (n : Nat) (p : Placement) (b : Arena) : Prop where
  evolves : Evolves a b
  grows : Grows (fun _ _ => True) a b
  content : b.HasRegion p.content n
  length : p.content.length = n
  new : ∀ s i, p.content.Covers s i → a.usedIn s ≤ i
  pad : ∀ pad, p.pad = some pad → b.HasSlot pad ∧ ∀ s i, pad.Covers s i → a.usedIn s ≤ i

theorem room_makeRoom (ha : a.Sound) (slot : Span) (hn : n % bytesPerWord = 0) :
    Room a n (a.makeRoom slot n).1 (a.makeRoom slot n).2 := by
  have hev := a.evolves_makeRoom slot n
  rcases makeRoom_cases a slot hn with ⟨r, he, _, _, hf⟩ | ⟨r, he, _, hf⟩
  · rw [he]
    refine ⟨hev, hf.grows _, ⟨hf.holds, hf.length.ge, hf.aligned ha⟩, hf.length,
      fun s i hi => hf.le_of_covers hi, fun pad hp => by cases hp⟩
  · have hregion : HasRegion (a.makeRoom slot n).2 r (bytesPerWord + n) :=
      ⟨hf.holds, by rw [hf.length, Nat.add_comm], hf.aligned ha⟩
    rw [he]
    refine ⟨hev, hf.grows _, hregion.part _ _ (Nat.le_refl _) rfl, rfl, fun s i hi =>
      hf.le_of_covers (hregion.covers_part _ _ (Nat.le_refl _) hi), fun pad hp => ?_⟩
    obtain rfl := Option.some.inj hp
    exact ⟨hregion.slot (i := 0) (by omega), fun s i hi =>
      hf.le_of_covers (hregion.covers_part 0 bytesPerWord (by omega) hi)⟩

theorem link_eq (hslot : b.HasSlot slot) (hpad : ∀ pad, p.pad = some pad → b.HasSlot pad)
    (w : Word) : DeepCopy.link slot p w b = (.ok (), b.putLink slot p w) := by
  cases hp : p.pad with
  | none =>
    simp only [DeepCopy.link, putLink, hp]
    exact Building.writeWord_of_hasSlot hslot _
  | some pad =>
    have h := hpad pad hp
    simp only [DeepCopy.link, putLink, hp]
    rw [Building.bind_ok (Building.writeWord_of_hasSlot h _)]
    exact Building.writeWord_of_hasSlot (hslot.grows (evolves_putWord b pad _).grows) _

theorem grows_putWord (h : a.HasSlot slot) (w : Word) :
    Grows (fun s i => ¬ slot.Covers s i) a (a.putWord slot w) :=
  grows_patch h.holds (by rw [Word.length_toBytes, h.length])

theorem grows_putLink {P : Nat → Nat → Prop} (hslot : b.HasSlot slot)
    (hs : ∀ s i, slot.Covers s i → ¬ P s i)
    (hpad : ∀ pad, p.pad = some pad → b.HasSlot pad ∧ ∀ s i, pad.Covers s i → ¬ P s i) (w : Word) :
    Grows P b (b.putLink slot p w) := by
  unfold putLink
  split
  · exact (grows_putWord hslot _).mono fun s i hp _ hc => hs s i hc hp
  · rename_i pad hp
    have hgrows := grows_putWord (hpad pad hp).1 (Pointer.withOffset w 0)
    exact (hgrows.mono fun s i h _ hc => (hpad pad hp).2 s i hc h).trans
      ((grows_putWord (hslot.grows hgrows) _).mono fun s i h _ hc => hs s i hc h)

end Arena

theorem footprint_eq (v : ListView) :
    DeepCopy.footprint v = (Shape.list v.layout v.count).footprint := by
  obtain ⟨s, l, count⟩ := v
  rw [Shape.footprint, Shape.partCount_mul_partBytes]
  cases l with
  | composite d p => rfl
  | _ => exact (Nat.zero_add _).symm

theorem DeepCopy.footprint_mod (v : ListView) : footprint v % bytesPerWord = 0 := by
  rw [footprint_eq]
  exact Shape.footprint_mod _

theorem DeepCopy.checkBlock_footprint (v : ListView) : checkBlock (footprint v) = .ok () := by
  rw [footprint_eq]
  exact Shape.checkBlock_list _ _

theorem pointerCount_eq {s : Span} {l : ElementLayout} {count : UInt32}
    (h : s.length = l.storageBytes count) :
    Pointer.ofList 0 l.size (DeepCopy.pointerCount ⟨s, l, count⟩) =
      (Shape.list l count).pointer := by
  cases l with
  | composite d p =>
    rw [DeepCopy.pointerCount, h]
    rfl
  | _ => rfl

theorem Arena.Room.link {a b c : Arena} {n : Nat} {p : Placement} {slot : Span} (h : Room a n p b)
    (hslot : a.HasSlot slot) (hev : Evolves b c) (w : Word) :
    DeepCopy.link slot p w c = (.ok (), c.putLink slot p w) ∧
      Grows (fun s i => ¬ (slot.Covers s i ∨ a.usedIn s ≤ i)) c (c.putLink slot p w) := by
  have hslot' := (hslot.grows h.grows).grows hev.grows
  have hpad (pad : Span) (hp : p.pad = some pad) : c.HasSlot pad := (h.pad pad hp).1.grows hev.grows
  refine ⟨link_eq hslot' hpad w, grows_putLink hslot' (fun s i hi hn => hn (.inl hi))
    (fun pad hp => ⟨hpad pad hp, fun s i hi hn => hn (.inr ((h.pad pad hp).2 s i hi))⟩) w⟩

theorem listInRegion_eq {v : ListView} {region : Span} {b : Arena}
    (hr : b.HasRegion region (DeepCopy.footprint v)) (hl : region.length = DeepCopy.footprint v) :
    DeepCopy.listInRegion v region b =
      (.ok ⟨(Shape.list v.layout v.count).body region, v.layout, v.count⟩,
        b.putTag (.list v.layout v.count) region) := by
  obtain ⟨s, l, count⟩ := v
  cases l with
  | composite d p =>
    have hle : 1 * bytesPerWord ≤ DeepCopy.footprint ⟨s, .composite d p, count⟩ :=
      (Nat.one_mul _).trans_le (Nat.le_add_right _ _)
    have hslot := hr.slot (i := 0) hle
    rw [Nat.zero_mul, Nat.add_zero] at hslot
    have hpart : region.part bytesPerWord (region.length - bytesPerWord) =
        .ok ⟨region.segment, region.start + bytesPerWord, region.length - bytesPerWord⟩ :=
      Span.part_eq_ok (by omega)
    have htag := Building.writeWord_of_hasSlot hslot (Pointer.ofTag count d p)
    exact (Building.bind_ok htag).trans ((Building.bind_ok (Building.lift_ok hpart)).trans rfl)
  | _ => rfl

/-- Where the parts of a list go, once its tag is written. -/
structure Opened (v : ListView) (region : Span) (b : Arena) : Prop where
  evolves : Evolves b (b.putTag (.list v.layout v.count) region)
  grows : Grows (fun s i => ¬ region.Covers s i) b (b.putTag (.list v.layout v.count) region)
  body : (b.putTag (.list v.layout v.count) region).HasRegion
    ((Shape.list v.layout v.count).body region) (v.layout.storageBytes v.count)
  length : ((Shape.list v.layout v.count).body region).length = v.layout.storageBytes v.count
  within : ∀ s i, ((Shape.list v.layout v.count).body region).Covers s i → region.Covers s i

theorem opened {v : ListView} {region : Span} {b : Arena}
    (hr : b.HasRegion region (DeepCopy.footprint v)) (hl : region.length = DeepCopy.footprint v) :
    Opened v region b := by
  rw [footprint_eq] at hr hl
  have hev := b.evolves_putTag (.list v.layout v.count) region
  have hlen := Shape.length_body hl
  have hle : (Shape.list v.layout v.count).headerBytes +
      ((Shape.list v.layout v.count).body region).length ≤
        (Shape.list v.layout v.count).footprint := by
    rw [hlen]
    exact Nat.le_refl _
  have htag := stored_putTag (.list v.layout v.count) hr.holds hr.aligned hl
  rw [Shape.partCount_mul_partBytes] at hlen
  have hpart := (hr.part _ _ hle (Shape.headerBytes_mod _)).evolves hev
  refine ⟨hev, htag.grows.mono fun s i hn _ hc => hn ?_, ⟨hpart.holds, hlen.ge, hpart.aligned⟩,
    hlen, fun s i hc => hr.covers_part _ _ hle hc⟩
  exact hr.covers_part 0 _ (by rw [Nat.zero_add]; exact Nat.le_add_right _ _) hc

theorem targetOf_emptyStruct {source : Arena} {value : Span → Except Fault Value} {v : StructView}
    (hal : v.pointers.Aligned) (hd : v.data.length / bytesPerWord = 0)
    (hp : v.pointers.length / bytesPerWord = 0) :
    source.targetOf value (.struct v) = .ok (.object (.struct 0 0) [⟨[], []⟩]) := by
  have hdata : source.dataOf v.data (min v.data.length (0 * bytesPerWord)) = .ok [] := by
    rw [Nat.zero_mul, Nat.min_zero]
    rfl
  have hslots : slotsOf value v.pointers (min (v.pointers.length / bytesPerWord) 0) = .ok [] := by
    rw [Nat.min_zero]
    rfl
  have hpart : source.partOf value v 0 0 = .ok ⟨[], []⟩ :=
    bind_eq_ok_iff.2 ⟨[], hdata, bind_eq_ok_iff.2 ⟨_, Span.wordCount_eq_ok_iff.2 ⟨hal, rfl⟩,
      bind_eq_ok_iff.2 ⟨[], hslots, rfl⟩⟩⟩
  simp only [targetOf, hd, hp, hpart]
  rfl

namespace CopiesSlots

variable {source a : Arena} {value : Span → Except Fault Value}
  {copySlot : Span → Span → Building Unit} {slot : Span} (hc : CopiesSlots value copySlot)
include hc

theorem copyStructTo {v : StructView} (hal : v.pointers.Aligned) (ha : a.Sound)
    (hslot : a.HasSlot slot) :
    Realizes (DeepCopy.copyStructTo source copySlot v slot) a slot.Covers
      (source.targetOf value (.struct v)) fun x => ((), x.store slot a) := by
  let d := v.data.length / bytesPerWord
  let p := v.pointers.length / bytesPerWord
  unfold DeepCopy.copyStructTo
  -- A struct without words gets no room: its pointer leads to its own slot.
  by_cases h0 : d = 0 ∧ p = 0
  · rw [if_pos h0, targetOf_emptyStruct hal h0.1 h0.2]
    apply Realizes.of_ok
    · rw [Value.store_emptyStruct]
      exact Building.writeWord_of_hasSlot hslot _
    · rw [Value.store_emptyStruct]
      exact grows_putWord hslot _
  · have hroom := room_makeRoom ha slot (n := (d + p) * bytesPerWord) (Nat.mul_mod_left _ _)
    have hplace := place_eq a slot ((d + p) * bytesPerWord)
    obtain ⟨spot, b, hb⟩ : ∃ spot b, a.makeRoom slot ((d + p) * bytesPerWord) = (spot, b) :=
      ⟨_, _, rfl⟩
    rw [hb] at hroom hplace
    rw [if_neg h0]
    refine .widen (R := fun s i => slot.Covers s i ∨ a.usedIn s ≤ i) ?_ fun s i h => h
    refine .step hplace (hroom.grows.mono fun _ _ _ _ => trivial) ?_
    refine .bind ((hc.fillStruct v (.struct d p) rfl (hroom.evolves.sound ha)
      hroom.content).widen fun s i hi => .inl (.inr (hroom.new s i hi))) fun part _ => ?_
    obtain ⟨hlink, hgrows⟩ := hroom.link hslot (Value.evolves_storePart (.struct d p) part
      spot.content.segment spot.content.start b) (Shape.struct d p).pointer
    have hstore : Value.store (.object (.struct d p) [part]) slot a = putLink slot spot
        (Shape.struct d p).pointer
        (Value.storePart (.struct d p) part spot.content.segment spot.content.start b) := by
      have hne : Shape.struct d p ≠ .struct 0 0 := fun h => h0 (Shape.struct.inj h)
      rw [Value.store_object hne, footprint_struct, hb, Shape.fill, Value.storeParts_singleton]
      rfl
    apply Realizes.of_ok
    · rw [hstore]
      exact hlink
    · rw [hstore]
      exact hgrows

theorem copyListTo (v : ListView) (ha : a.Sound) (hslot : a.HasSlot slot) :
    Realizes (DeepCopy.copyListTo source copySlot v slot) a slot.Covers
      (source.targetOf value (.list v)) fun x => ((), x.store slot a) := by
  have hroom := room_makeRoom ha slot (DeepCopy.footprint_mod v)
  have hplace := place_eq a slot (DeepCopy.footprint v)
  obtain ⟨spot, b, hb⟩ : ∃ spot b, a.makeRoom slot (DeepCopy.footprint v) = (spot, b) :=
    ⟨_, _, rfl⟩
  rw [hb] at hroom hplace
  have hopen := opened hroom.content hroom.length
  refine .widen (R := fun s i => slot.Covers s i ∨ a.usedIn s ≤ i) ?_ fun s i h => h
  refine .step hplace (hroom.grows.mono fun _ _ _ _ => trivial) ?_
  refine .step (listInRegion_eq hroom.content hroom.length) (hopen.grows.mono
    fun s i hn _ hc => hn (.inr (hroom.new s i hc))) ?_
  refine .bind ((hc.fillList (hopen.evolves.sound (hroom.evolves.sound ha)) hopen.body).widen
    fun s i hi => .inl (.inr (hroom.new s i (hopen.within s i hi)))) fun parts _ => ?_
  rw [pointerCount_eq hopen.length]
  obtain ⟨hlink, hgrows⟩ := hroom.link hslot (hopen.evolves.trans (Value.evolves_storeParts
    (.list v.layout v.count) parts spot.content.segment _ _)) (Shape.list v.layout v.count).pointer
  have hstore : Value.store (.object (.list v.layout v.count) parts) slot a = putLink slot spot
      (Shape.list v.layout v.count).pointer
      ((Shape.list v.layout v.count).fill parts spot.content b) := by
    rw [Value.store_object (fun h => by cases h), ← footprint_eq, hb]
  apply Realizes.of_ok
  · rw [hstore]
    exact hlink
  · rw [hstore]
    exact hgrows

theorem copyTarget (src : Span) (pointer : Word) (ha : a.Sound) (hslot : a.HasSlot slot) :
    Realizes (DeepCopy.copyTarget source copySlot src slot pointer) a slot.Covers
      (source.follow src.segment src.startWord pointer >>= source.targetOf value)
      fun x => ((), x.store slot a) := by
  refine .read fun t ht => ?_
  rcases follow_linkable ht with ⟨region, d, p, rfl, hal⟩ | ⟨v, rfl, _⟩
  · refine hc.copyStructTo ⟨Nat.mul_mod_left _ _, ?_⟩ ha hslot
    exact (Nat.add_mul_mod_self_right _ _ _).trans hal
  · exact hc.copyListTo v ha hslot

end CopiesSlots

theorem copyWord_realizes {source a : Arena} {descend : Span → Span → Word → Building Unit}
    {beyond : Word → Except Fault Value} {src slot : Span} (hslot : a.HasSlot slot)
    (hd : ∀ pointer, Realizes (descend src slot pointer) a slot.Covers (beyond pointer)
      fun v => ((), v.store slot a)) :
    Realizes (DeepCopy.copyWord source descend src slot) a slot.Covers
      (source.wordValue beyond src) fun v => ((), v.store slot a) := by
  refine .read fun _ _ => .lift hslot.checkSlot (.read fun pointer _ => ?_)
  by_cases hn : Pointer.isNull pointer = true
  · rw [if_pos hn, if_pos hn]
    exact .of_ok (Building.writeWord_of_hasSlot hslot _) (grows_putWord hslot _)
  · rw [if_neg hn, if_neg hn]
    exact hd pointer

theorem copiesSlots_copySlot (source : Arena) (limit room : Nat) :
    CopiesSlots (source.valueAt limit room) (DeepCopy.copySlot source limit room) := by
  induction room with
  | zero =>
    intro src slot a _ hslot
    apply copyWord_realizes hslot
    intro pointer
    exact ⟨fun v h => (by cases h), fun f h => (by cases h; rfl), .refl _ a⟩
  | succ room ih =>
    intro src slot a ha hslot
    exact copyWord_realizes hslot fun pointer => ih.copyTarget src pointer ha hslot

variable {source a : Arena} {limit : Nat}

theorem copyPointer_realizes (src : Span) {slot : Span} (ha : a.Sound) (hslot : a.HasSlot slot) :
    Realizes (DeepCopy.copyPointer source limit src slot) a slot.Covers
      (source.valueAt limit limit src) fun v => ((), v.store slot a) :=
  copiesSlots_copySlot source limit limit src slot a ha hslot

theorem alloc_region (ha : a.Sound) {n : Nat} (hn : n % bytesPerWord = 0) :
    (a.alloc n).2.HasRegion (a.alloc n).1 n ∧ (a.alloc n).1.length = n ∧
      (∀ s i, (a.alloc n).1.Covers s i → a.usedIn s ≤ i) ∧
      Grows (fun _ _ => True) a (a.alloc n).2 := by
  have hf := a.fresh_alloc_words hn
  exact ⟨⟨hf.holds, hf.length.ge, hf.aligned ha⟩, hf.length, fun s i => hf.le_of_covers, hf.grows _⟩

theorem alloc_run {n : Nat} (h : checkBlock n = .ok ()) :
    Building.alloc n a = (.ok (a.alloc n).1, (a.alloc n).2) :=
  Building.bind_ok (Building.lift_ok h)

/-- A block is asked for before anything is read. -/
theorem Building.Realizes.alloc {α β : Type} {n : Nat} {k : Span → Building β}
    {R : Nat → Nat → Prop} {r : Except Fault α} {done : α → β × Arena}
    (hg : Grows (fun s i => ¬ R s i) a (a.alloc n).2)
    (hk : Realizes (k (a.alloc n).1) (a.alloc n).2 R r done) :
    Realizes (Building.alloc n >>= k) a R (checkBlock n >>= fun _ => r) done := by
  have hrun : (modifyGet fun a => a.alloc n : Building Span) a =
      (.ok (a.alloc n).1, (a.alloc n).2) := rfl
  rw [Building.alloc, bind_assoc]
  exact .read fun _ _ => .step hrun hg hk

/-- A struct is copied by storing as much of it as is asked for, if there can be a block for it. -/
theorem copyStruct_realizes (src : StructView) (d p : Nat) (ha : a.Sound) :
    Realizes (DeepCopy.copyStruct source limit src d p) a (fun _ _ => False)
      (checkBlock ((d + p) * bytesPerWord) >>= fun _ =>
        source.partOf (source.valueAt limit limit) src d p) fun part =>
        (.ofRegion (a.alloc ((d + p) * bytesPerWord)).1 d p,
          (Shape.struct d p).settle [part] a) := by
  obtain ⟨hr, _, hnew, hg⟩ := alloc_region ha (n := (d + p) * bytesPerWord) (Nat.mul_mod_left _ _)
  have hs := (a.evolves_alloc ((d + p) * bytesPerWord)).sound ha
  refine .widen (R := fun s i => a.usedIn s ≤ i) ?_ fun s i h => .inr h
  refine .alloc (hg.mono fun _ _ _ _ => trivial) ?_
  have hc := copiesSlots_copySlot source limit limit
  refine .finish ((hc.fillStruct src (.struct d p) rfl hs hr).widen fun s i hi =>
    .inl (hnew s i hi)) fun part _ => .pure ?_
  rw [Shape.settle, footprint_struct, Shape.fill, Value.storeParts_singleton]
  rfl

theorem copyList_realizes (src : ListView) (ha : a.Sound) :
    Realizes (DeepCopy.copyList source limit src) a (fun _ _ => False)
      (src.validate >>= fun _ => source.listParts (source.valueAt limit limit) src) fun parts =>
        (⟨(Shape.list src.layout src.count).body
          (a.alloc (Shape.list src.layout src.count).footprint).1, src.layout, src.count⟩,
          (Shape.list src.layout src.count).settle parts a) := by
  obtain ⟨hr, hl, hnew, hg⟩ := alloc_region ha (DeepCopy.footprint_mod src)
  have hs := (a.evolves_alloc (DeepCopy.footprint src)).sound ha
  have hopen := opened hr hl
  refine .read fun _ _ => ?_
  refine .widen (R := fun s i => a.usedIn s ≤ i) ?_ fun s i h => .inr h
  refine .step (alloc_run (DeepCopy.checkBlock_footprint src)) (hg.mono fun _ _ _ _ => trivial) ?_
  refine .step (listInRegion_eq hr hl) (hopen.grows.mono fun s i hn _ hc => hn (hnew s i hc)) ?_
  have hc := copiesSlots_copySlot source limit limit
  refine .finish ((hc.fillList (hopen.evolves.sound hs) hopen.body).widen fun s i hi =>
    .inl (hnew s i (hopen.within s i hi))) fun parts _ => .pure ?_
  rw [Shape.settle, ← footprint_eq]
  rfl

theorem copyDescriptor_realizes (d : Descriptor) (ha : a.Sound) :
    Realizes (DeepCopy.copyDescriptor source limit d) a (fun _ _ => False)
      (source.describe limit d) fun content => content.store a := by
  cases d with
  | struct v =>
    have hd : source.describe limit (.struct v) = v.data.wordCount >>= fun d =>
        v.pointers.wordCount >>= fun p => (checkBlock ((d + p) * bytesPerWord) >>= fun _ =>
          source.partOf (source.valueAt limit limit) v d p) >>= fun part =>
            .ok (.object (.struct d p) [part]) := by
      simp only [bind_assoc]
      rfl
    rw [hd]
    refine .read fun d _ => .read fun p _ => ?_
    refine (copyStruct_realizes v d p ha).bind fun part _ => .pure ?_
    rw [Content.store, Shape.settle, footprint_struct]
    rfl
  | list v =>
    have hd : source.describe limit (.list v) = (v.validate >>= fun _ =>
        source.listParts (source.valueAt limit limit) v) >>= fun parts =>
          .ok (.object (.list v.layout v.count) parts) := (bind_assoc _ _ _).symm
    rw [hd]
    exact (copyList_realizes v ha).bind fun parts _ => .pure rfl
  | pointer src =>
    obtain ⟨hr, hl, hnew, hg⟩ := alloc_region ha (n := bytesPerWord) (by decide)
    have hslot : (a.alloc bytesPerWord).2.HasSlot (a.alloc bytesPerWord).1 :=
      ⟨hr.holds, hl, hr.aligned⟩
    rw [describe, map_eq_pure_bind]
    refine .widen (R := fun s i => a.usedIn s ≤ i) ?_ fun s i h => .inr h
    refine .step (alloc_run rfl) (hg.mono fun _ _ _ _ => trivial) ?_
    refine .bind ((copyPointer_realizes src ((a.evolves_alloc bytesPerWord).sound ha) hslot).widen
      fun s i hi => .inl (hnew s i hi)) fun v _ => .pure rfl

end FrozenDefaults
