import FrozenDefaults.Proofs.Guarding

/-!
# Copies stop only for room

The guarded copy does on the memory behind an arena what the copy does on the
arena, unless that takes a block that cannot be had, and no other guard ever
stops it. This holds for whatever words the source has, and for any slot and any
view that ends at a place of 64 bits. What keeps later steps within their spans
is checked before they begin: a pointer leads to a list only if its elements fit,
a list that is given is validated, and the room for a copy has the size of what
goes into it. Nothing is checked before the room for a struct of given size is
asked for, so that a size beyond all blocks stops the copy where a fault was due.
-/

namespace FrozenDefaults

open Arena
open Building (Stepping)
open DeepCopy (Placement elementRounds)

theorem Building.lift_still {α β : Type} {e : Except Fault α} {k : α → Building β} {a : Arena}
    (hk : ∀ x, e = .ok x → (k x a).2 = a) : ((liftExcept e >>= k) a).2 = a := by
  cases e with
  | ok x => exact hk x rfl
  | error f => rfl

namespace DeepCopy

/-- A step that ends alike for every index and changes nothing does so in any number of rounds. -/
theorem forIndices_still {step : Nat → Building Unit} {a : Arena} {r : Except Fault Unit}
    (h : ∀ i, step i a = (r, a)) (first n : Nat) : forIndices step first (n + 1) a = (r, a) := by
  induction n generalizing first with
  | zero =>
    cases r with
    | ok _ => exact Building.bind_ok (h first)
    | error f => exact Building.bind_error (h first)
  | succ n ih =>
    cases r with
    | ok _ => exact (Building.bind_ok (h first)).trans (ih (first + 1))
    | error f => exact Building.bind_error (h first)

variable {source : Arena} {copySlot : Span → Span → Building Unit} {d p : UInt16}

/-- Of an element without words nothing is copied. Its places may still be refused. -/
theorem fillElement_still (h0 : ElementLayout.stride d p = 0) (src dst : Span) (a : Arena) :
    ∃ r, ∀ i, fillElement source copySlot src dst d p i a = (r, a) := by
  obtain ⟨hd, hp⟩ : d.toNat = 0 ∧ p.toNat = 0 := Nat.add_eq_zero_iff.1 h0
  have hstep (i : Nat) : fillElement source copySlot src dst d p i a =
      fillElement source copySlot src dst d p 0 a := by
    simp only [fillElement, h0, Nat.zero_mul, Nat.mul_zero]
  suffices h : (fillElement source copySlot src dst d p 0 a).2 = a from
    ⟨_, fun i => (hstep i).trans (Prod.ext rfl h)⟩
  refine Building.lift_still fun there _ => Building.lift_still fun here _ => ?_
  simp only [StructView.ofRegion, hd, hp]
  refine Building.lift_still fun _ hcount => Building.lift_still fun _ _ => ?_
  obtain ⟨_, rfl⟩ := Span.wordCount_eq_ok_iff.1 hcount
  rw [Nat.zero_mul, Nat.zero_div, Nat.zero_min]
  rfl

theorem forIndices_elementRounds (src dst : Span) (count : UInt32) (a : Arena) :
    forIndices (fillElement source copySlot src dst d p) 0
        (elementRounds (ElementLayout.stride d p) count) a =
      forIndices (fillElement source copySlot src dst d p) 0 count.toNat a := by
  by_cases h0 : ElementLayout.stride d p = 0
  · rw [elementRounds, if_pos h0]
    cases count.toNat with
    | zero => rfl
    | succ n =>
      obtain ⟨r, hr⟩ := fillElement_still h0 src dst a
      have hmin : min (n + 1) 1 = 0 + 1 := by omega
      rw [hmin, forIndices_still hr, forIndices_still hr]
  · rw [elementRounds, if_neg h0]

end DeepCopy

/-- Its sections end at places of 64 bits. -/
structure StructView.Sized (v : StructView) : Prop where
  data : v.data.stop ≤ maxSize
  pointers : v.pointers.stop ≤ maxSize

namespace Guarded

variable {source a b : Arena} {src dst slot : Span} {n count : Nat}

theorem startWord_mul_le (h : slot.start ≤ maxSize) : slot.startWord * bytesPerWord ≤ maxSize :=
  (Nat.div_mul_le_self _ _).trans h

theorem start_le_of_stop {s : Span} (h : s.stop ≤ maxSize) : s.start ≤ maxSize :=
  (Nat.le_add_right _ _).trans h

theorem stop_le_of_within {s t : Span} (h : t.Within s) (hs : s.stop ≤ maxSize) :
    t.stop ≤ maxSize := h.2.2.trans hs

theorem sized_ofRegion {region : Span} {d p : Nat}
    (h : region.start + (d + p) * bytesPerWord ≤ maxSize) :
    (StructView.ofRegion region d p).Sized := by
  rw [Nat.add_mul] at h
  refine ⟨?_, ?_⟩ <;> simp only [StructView.ofRegion, Span.stop] <;> omega

theorem body_stop_le {v : ListView} {region : Span} (hl : region.length = DeepCopy.footprint v)
    (hs : region.stop ≤ maxSize) : ((Shape.list v.layout v.count).body region).stop ≤ maxSize := by
  have hle : (Shape.list v.layout v.count).headerBytes ≤ region.length := by
    rw [hl, footprint_eq]
    exact Nat.le_add_right _ _
  simp only [Span.stop, Shape.body] at hs ⊢
  omega

theorem footprint_add_le (v : ListView) : DeepCopy.footprint v + bytesPerWord ≤ maxSize := by
  have h := checkBlock_eq_ok_iff.1 (DeepCopy.checkBlock_footprint v)
  have hle := le_roundUp (DeepCopy.footprint v)
  have hmax : maxBlock + bytesPerWord ≤ maxSize := by decide
  omega

/-- A struct behind a pointer lies in the source, and its tag counts its words with 16 bits. -/
theorem struct_of_follow (ha : a.backing.Bounded) {segment word : Nat} {p : Word} {v : StructView}
    (h : a.follow segment word p = .ok (.struct v)) : v.Sized ∧
      (v.data.length / bytesPerWord + v.pointers.length / bytesPerWord) * bytesPerWord +
        bytesPerWord ≤ maxSize := by
  obtain ⟨t, _, hv⟩ := declaredIn_of_follow h
  have hd := (Pointer.dataWords t.tag).toNat_lt
  have hp := (Pointer.pointerWords t.tag).toNat_lt
  refine ⟨⟨?_, ?_⟩, ?_⟩
  · exact stop_le_maxSize ha hv.formed.data.1
  · exact stop_le_maxSize ha hv.formed.pointers.1
  · rw [hv.data, hv.pointers, Nat.mul_div_cancel _ (by decide), Nat.mul_div_cancel _ (by decide)]
    simp only [bytesPerWord, maxSize, UInt64.size]
    omega

theorem list_of_follow (ha : a.backing.Bounded) {segment word : Nat} {p : Word} {v : ListView}
    (h : a.follow segment word p = .ok (.list v)) : v.elements.stop ≤ maxSize := by
  obtain ⟨t, _, hv⟩ := declaredIn_of_follow h
  exact stop_le_maxSize ha hv.whole.holds

theorem forIndices_mirrors {step' : Nat → Guarded Unit} {step : Nat → Building Unit} {first : Nat}
    (ha : a.Sound) (h : ∀ i < first + count, ∀ b : Arena, b.Sound → Mirrors (step' i) (step i) b) :
    Mirrors (forIndices step' first count) (DeepCopy.forIndices step first count) a := by
  induction count generalizing first a with
  | zero => exact .pure ()
  | succ count ih =>
    refine .after ha (h first (by omega) a ha) fun _ b hb => ih hb fun i hi => ?_
    exact h i (by omega)

theorem fillBytes_mirrors (hsource : source.backing.Bounded) (ha : a.Sound) (hsrc : n ≤ src.length)
    (hdst : n ≤ dst.length) (hs : src.stop ≤ maxSize) (hd : dst.stop ≤ maxSize) :
    Mirrors (fillBytes source.backing src dst n) (DeepCopy.fillBytes source src dst n) a := by
  rw [fillBytes, DeepCopy.fillBytes]
  by_cases hn : 0 < n
  · rw [if_pos hn, if_pos hn]
    refine .lift (part_eq ((Nat.zero_add n).trans_le hsrc) hs) fun there hthere => ?_
    refine .lift (read_eq hsource there) fun bs hbs => ?_
    refine .lift (part_eq ((Nat.zero_add n).trans_le hdst) hd) fun here hhere => ?_
    refine write_mirrors ha ?_
    rw [(read_eq_ok_iff.1 hbs).2.1, (Span.part_eq_ok_iff.1 hthere).2,
      (Span.part_eq_ok_iff.1 hhere).2]
  · rw [if_neg hn, if_neg hn]
    exact .pure ()

theorem link_mirrors (ha : a.Sound) {p : Placement} (hslot : slot.start ≤ maxSize)
    (hpad : ∀ pad, p.pad = some pad → pad.start ≤ maxSize) (w : Word) :
    Mirrors (link slot p w) (DeepCopy.link slot p w) a := by
  rw [link, DeepCopy.link]
  cases hp : p.pad with
  | none => exact writeWord_mirrors ha (startWord_mul_le hslot) _
  | some pad =>
    refine .after ha (writeWord_mirrors ha (startWord_mul_le (hpad pad hp)) _) fun _ b hb => ?_
    exact writeWord_mirrors hb (startWord_mul_le hslot) _

theorem link_of_room {c : Arena} {p : Placement} (hbound : b.backing.Bounded)
    (hroom : a.Room n p b) (hc : c.Sound) (hslot : slot.start ≤ maxSize) (w : Word) :
    Mirrors (link slot p w) (DeepCopy.link slot p w) c :=
  link_mirrors hc hslot (fun pad hpad =>
    start_le_of_stop (stop_le_maxSize hbound (hroom.pad pad hpad).1.holds)) w

theorem listInRegion_mirrors (ha : a.Sound) {v : ListView} {region : Span}
    (h : region.length = DeepCopy.footprint v) (hs : region.stop ≤ maxSize) :
    Mirrors (listInRegion v region) (DeepCopy.listInRegion v region) a := by
  obtain ⟨s, l, count⟩ := v
  cases l with
  | composite d p =>
    have hle : bytesPerWord ≤ region.length := h ▸ Nat.le_add_right _ _
    have hword := startWord_mul_le (start_le_of_stop hs)
    refine .after ha (writeWord_mirrors ha hword _) fun _ b _ => ?_
    exact .lift (withoutFirst_eq hle hs) fun _ _ => .pure _
  | _ => exact .pure _

/-- Guarded or not, the step copies all slots at places of 64 bits alike, into sound arenas that
stay sound. -/
structure MirrorsSlots (copy' : Span → Span → Guarded Unit) (copy : Span → Span → Building Unit) :
    Prop where
  stepping : ∀ src slot, Stepping (copy src slot)
  mirrors : ∀ src slot (a : Arena), a.Sound → src.start ≤ maxSize → slot.start ≤ maxSize →
    Mirrors (copy' src slot) (copy src slot) a

namespace MirrorsSlots

variable {copy' : Span → Span → Guarded Unit} {copy : Span → Span → Building Unit}
  (hc : MirrorsSlots copy' copy)
include hc

theorem fillSlots (ha : a.Sound) (hsrc : count * bytesPerWord ≤ src.length)
    (hdst : count * bytesPerWord ≤ dst.length) (hs : src.stop ≤ maxSize)
    (hd : dst.stop ≤ maxSize) :
    Mirrors (fillSlots copy' src dst count) (DeepCopy.fillSlots copy src dst count) a := by
  refine forIndices_mirrors ha fun i hi b hb => ?_
  rw [Nat.zero_add] at hi
  refine .lift (word_eq hi hsrc hs) fun there hthere => ?_
  refine .lift (word_eq hi hdst hd) fun here hhere => ?_
  exact hc.mirrors _ _ b hb
    (start_le_of_stop (stop_le_of_within (Span.within_of_word hthere) hs))
    (start_le_of_stop (stop_le_of_within (Span.within_of_word hhere) hd))

variable (hsource : source.backing.Bounded)
include hsource

theorem fillStruct (ha : a.Sound) {v w : StructView} (hv : v.Sized) (hw : w.Sized) :
    Mirrors (fillStruct source.backing copy' v w) (DeepCopy.fillStruct source copy v w) a := by
  refine .after ha (fillBytes_mirrors hsource ha (Nat.min_le_left _ _) (Nat.min_le_right _ _)
    hv.data hw.data) fun _ b hb => ?_
  refine .lift rfl fun there hthere => .lift rfl fun here hhere => ?_
  obtain ⟨_, rfl⟩ := Span.wordCount_eq_ok_iff.1 hthere
  obtain ⟨_, rfl⟩ := Span.wordCount_eq_ok_iff.1 hhere
  refine hc.fillSlots hb ?_ ?_ hv.pointers hw.pointers
  · exact (Nat.mul_le_mul_right _ (Nat.min_le_left _ _)).trans (Nat.div_mul_le_self _ _)
  · exact (Nat.mul_le_mul_right _ (Nat.min_le_right _ _)).trans (Nat.div_mul_le_self _ _)

variable {d p : UInt16}

theorem fillElement (ha : a.Sound) {i : Nat} (hi : i < count)
    (hsrc : count * (ElementLayout.stride d p * bytesPerWord) ≤ src.length)
    (hdst : count * (ElementLayout.stride d p * bytesPerWord) ≤ dst.length)
    (hs : src.stop ≤ maxSize) (hd : dst.stop ≤ maxSize) :
    Mirrors (fillElement source.backing copy' src dst d p i)
      (DeepCopy.fillElement source copy src dst d p i) a := by
  have hle : i * (ElementLayout.stride d p * bytesPerWord) +
      ElementLayout.stride d p * bytesPerWord ≤
        count * (ElementLayout.stride d p * bytesPerWord) := by
    rw [← Nat.succ_mul]
    exact Nat.mul_le_mul_right _ hi
  have hoffset : i * (ElementLayout.stride d p * bytesPerWord) ≤ maxSize := by
    simp only [Span.stop] at hs
    omega
  -- The sections of an element end where the element does.
  have hfits {s t : Span} {n : Nat} (h : s.part n (ElementLayout.stride d p * bytesPerWord) = .ok t)
      (hstop : s.stop ≤ maxSize) :
      t.start + (d.toNat + p.toNat) * bytesPerWord ≤ maxSize := by
    obtain ⟨hpart, rfl⟩ := Span.part_eq_ok_iff.1 h
    simp only [Span.stop, ElementLayout.stride] at hstop hpart ⊢
    omega
  refine .guard (size_eq hoffset) ?_
  refine .lift (part_eq (hle.trans hsrc) hs) fun there hthere => ?_
  refine .guard (ofRegion_eq (hfits hthere hs)) ?_
  refine .lift (part_eq (hle.trans hdst) hd) fun here hhere => ?_
  refine .guard (ofRegion_eq (hfits hhere hd)) ?_
  exact hc.fillStruct hsource ha (sized_ofRegion (hfits hthere hs))
    (sized_ofRegion (hfits hhere hd))

theorem fillList (ha : a.Sound) {v w : ListView}
    (hv : v.layout.payloadBytes v.count ≤ v.elements.length)
    (hw : v.layout.payloadBytes v.count ≤ w.elements.length)
    (hs : v.elements.stop ≤ maxSize) (hd : w.elements.stop ≤ maxSize) :
    Mirrors (fillList source.backing copy' v w) (DeepCopy.fillList source copy v w) a := by
  obtain ⟨s, l, count⟩ := v
  rcases l.trichotomy with rfl | ⟨d, p, rfl⟩ | hl
  · rw [ElementLayout.payloadBytes_pointer] at hv hw
    exact hc.fillSlots ha hv hw hs hd
  · rw [ElementLayout.payloadBytes_composite] at hv hw
    have hall : Mirrors (forIndices (Guarded.fillElement source.backing copy' s w.elements d p) 0
        count.toNat) (DeepCopy.forIndices (DeepCopy.fillElement source copy s w.elements d p) 0
          count.toNat) a := by
      refine forIndices_mirrors ha fun i hi b hb => ?_
      rw [Nat.zero_add] at hi
      exact hc.fillElement hsource hb hi hv hw hs hd
    exact hall.congr (fun _ => rfl) (DeepCopy.forIndices_elementRounds _ _ _ _)
  · rw [fillList_bare hl]
    have hbare : Guarded.fillList source.backing copy' ⟨s, l, count⟩ w =
        fillBytes source.backing s w.elements (l.payloadBytes count) := by
      cases l <;> first | rfl | cases hl
    rw [hbare]
    exact fillBytes_mirrors hsource ha hv hw hs hd

theorem copyStructTo (ha : a.Sound) {v : StructView} (hv : v.Sized)
    (hsize : (v.data.length / bytesPerWord + v.pointers.length / bytesPerWord) * bytesPerWord +
      bytesPerWord ≤ maxSize) (hslot : slot.start ≤ maxSize) :
    Mirrors (copyStructTo source.backing copy' v slot)
      (DeepCopy.copyStructTo source copy v slot) a := by
  unfold Guarded.copyStructTo DeepCopy.copyStructTo
  by_cases h0 : v.data.length / bytesPerWord = 0 ∧ v.pointers.length / bytesPerWord = 0
  · rw [if_pos h0, if_pos h0]
    exact writeWord_mirrors ha (startWord_mul_le hslot) _
  · rw [if_neg h0, if_neg h0]
    have hroom := room_makeRoom ha slot (n := (v.data.length / bytesPerWord +
      v.pointers.length / bytesPerWord) * bytesPerWord) (Nat.mul_mod_left _ _)
    refine .guard (size_eq (by omega)) ?_
    refine .step ha (place_mirrors ha slot (Nat.mul_mod_left _ _) hsize) (Arena.place_eq a slot _)
      fun hb => ?_
    refine .assuming (.bind (.fillStruct hc.stepping _ _) fun _ => .link _ _ _) fun hbound => ?_
    have hstop := stop_le_maxSize hbound hroom.content.holds
    rw [Span.stop, hroom.length] at hstop
    refine .guard (ofRegion_eq hstop) ?_
    refine .after hb (hc.fillStruct hsource hb hv (sized_ofRegion hstop)) fun _ c hsound => ?_
    exact link_of_room hbound hroom hsound hslot _

theorem fillRegion (ha : a.Sound) {v : ListView} {region : Span}
    (hv : v.layout.payloadBytes v.count ≤ v.elements.length) (hs : v.elements.stop ≤ maxSize)
    (hr : a.HasRegion region (DeepCopy.footprint v)) (hl : region.length = DeepCopy.footprint v)
    (hstop : region.stop ≤ maxSize)
    {α : Type} {k' : ListView → Guarded α} {k : ListView → Building α}
    (hk : ∀ w b, b.Sound → Mirrors (k' w) (k w) b) :
    Mirrors (do
        let w ← listInRegion v region
        Guarded.fillList source.backing copy' v w
        k' w) (do
        let w ← DeepCopy.listInRegion v region
        DeepCopy.fillList source copy v w
        k w) a := by
  have hopen := opened hr hl
  have hb := hopen.evolves.sound ha
  refine .step ha (listInRegion_mirrors ha hl hstop) (listInRegion_eq hr hl) fun _ => ?_
  refine .after hb (hc.fillList hsource hb hv ?_ hs (body_stop_le hl hstop)) fun _ => hk _
  rw [hopen.length]
  exact v.layout.payloadBytes_le_storageBytes v.count

theorem copyListTo (ha : a.Sound) {v : ListView}
    (hv : v.layout.payloadBytes v.count ≤ v.elements.length) (hs : v.elements.stop ≤ maxSize)
    (hslot : slot.start ≤ maxSize) :
    Mirrors (copyListTo source.backing copy' v slot)
      (DeepCopy.copyListTo source copy v slot) a := by
  have hroom := room_makeRoom ha slot (DeepCopy.footprint_mod v)
  refine .step ha (place_mirrors ha slot (DeepCopy.footprint_mod v) (footprint_add_le v))
    (Arena.place_eq a slot _) fun hb => ?_
  refine .assuming (.bind (.listInRegion _ _) fun _ => .bind (.fillList hc.stepping _ _) fun _ =>
    .link _ _ _) fun hbound => ?_
  refine hc.fillRegion hsource hb hv hs hroom.content hroom.length
    (stop_le_maxSize hbound hroom.content.holds) fun _ c hsound =>
      link_of_room hbound hroom hsound hslot _

theorem copyTarget (ha : a.Sound) (hword : (src.startWord + 1) * bytesPerWord ≤ maxBlock)
    (hslot : slot.start ≤ maxSize) (pointer : Word) :
    Mirrors (copyTarget source.backing copy' src slot pointer)
      (DeepCopy.copyTarget source copy src slot pointer) a := by
  refine .lift (follow_eq hsource hword pointer) fun t ht => ?_
  cases t with
  | struct v =>
    obtain ⟨hv, hsize⟩ := struct_of_follow hsource ht
    exact hc.copyStructTo hsource ha hv hsize hslot
  | list v =>
    exact hc.copyListTo hsource ha (follow_list_room ht) (list_of_follow hsource ht) hslot

end MirrorsSlots

section Copies

variable (hsource : source.backing.Bounded)
include hsource

theorem copyWord_mirrors {descend' : Span → Span → Word → Guarded Unit}
    {descend : Span → Span → Word → Building Unit} (ha : a.Sound) (hsrc : src.start ≤ maxSize)
    (hslot : slot.start ≤ maxSize)
    (hd : ∀ pointer, (src.startWord + 1) * bytesPerWord ≤ maxBlock →
      Mirrors (descend' src slot pointer) (descend src slot pointer) a) :
    Mirrors (copyWord source.backing descend' src slot)
      (DeepCopy.copyWord source descend src slot) a := by
  refine .lift rfl fun _ _ => .lift rfl fun _ _ => ?_
  refine .lift (readWord_eq hsource (startWord_mul_le hsrc)) fun pointer hpointer => ?_
  by_cases hn : Pointer.isNull pointer = true
  · rw [if_pos hn, if_pos hn]
    exact writeWord_mirrors ha (startWord_mul_le hslot) _
  · rw [if_neg hn, if_neg hn]
    obtain ⟨bs, hbs, _⟩ := bind_eq_ok_iff.1 hpointer
    have hstop := stop_le_of_holds hsource (holds_of_read hbs)
    exact hd pointer ((Nat.succ_mul _ _).trans_le hstop)

variable (limit : Nat)

theorem mirrorsSlots_copySlot (room : Nat) :
    MirrorsSlots (copySlot source.backing limit room) (DeepCopy.copySlot source limit room) := by
  refine ⟨fun src slot => .copySlot source limit room src slot, ?_⟩
  induction room with
  | zero => exact fun src slot a ha hs hd => copyWord_mirrors hsource ha hs hd fun _ _ => .throw _
  | succ room ih =>
    have hc : MirrorsSlots (copySlot source.backing limit room)
        (DeepCopy.copySlot source limit room) :=
      ⟨fun src slot => .copySlot source limit room src slot, ih⟩
    exact fun src slot a ha hs hd => copyWord_mirrors hsource ha hs hd fun pointer hword =>
      hc.copyTarget hsource ha hword hd pointer

theorem copyStruct_mirrors (ha : a.Sound) {v : StructView} (hv : v.Sized) {d p : Nat}
    (hn : (d + p) * bytesPerWord ≤ maxBlock) :
    Mirrors (copyStruct source.backing limit v d p) (DeepCopy.copyStruct source limit v d p) a := by
  have hc := mirrorsSlots_copySlot hsource limit limit
  have hblock := checkBlock_of_words (Nat.mul_mod_left _ _) hn
  obtain ⟨hr, hl, _⟩ := alloc_region ha (n := (d + p) * bytesPerWord) (Nat.mul_mod_left _ _)
  refine .guard (size_eq (hn.trans maxBlock_le_maxSize)) ?_
  refine .step ha (buildingAlloc_mirrors ha hblock) (alloc_run hblock) fun hb => ?_
  refine .assuming (.bind (.fillStruct hc.stepping _ _) fun _ => .pure _) fun hbound => ?_
  have hstop := stop_le_maxSize hbound hr.holds
  rw [Span.stop, hl] at hstop
  refine .guard (ofRegion_eq hstop) ?_
  exact .after hb (hc.fillStruct hsource hb hv (sized_ofRegion hstop)) fun _ _ _ => .pure _

theorem copyList_mirrors (ha : a.Sound) {v : ListView} (hs : v.elements.stop ≤ maxSize) :
    Mirrors (copyList source.backing limit v) (DeepCopy.copyList source limit v) a := by
  have hc := mirrorsSlots_copySlot hsource limit limit
  have hblock := DeepCopy.checkBlock_footprint v
  obtain ⟨hr, hl, _⟩ := alloc_region ha (DeepCopy.footprint_mod v)
  refine .lift rfl fun _ hvalid => ?_
  refine .step ha (buildingAlloc_mirrors ha hblock) (alloc_run hblock) fun hb => ?_
  refine .assuming (.bind (.listInRegion _ _) fun _ => .bind (.fillList hc.stepping _ _) fun _ =>
    .pure _) fun hbound => ?_
  exact hc.fillRegion hsource hb (ListView.room_of_validate hvalid) hs hr hl
    (stop_le_maxSize hbound hr.holds) fun _ _ _ => .pure _

/-- A list that is longer than its span leaves it if nothing checks it before. -/
example : (fillList sample.backing (copyPointer sample.backing 64) ⟨⟨0, 24, 8⟩, .bytes2, 9⟩
    ⟨⟨0, 0, 24⟩, .bytes2, 9⟩ crowded.backing).1 = .error (.trap .escape) := by decide +kernel

theorem copyPointer_mirrors (ha : a.Sound) (hs : src.start ≤ maxSize) (hd : slot.start ≤ maxSize) :
    Mirrors (copyPointer source.backing limit src slot)
      (DeepCopy.copyPointer source limit src slot) a :=
  (mirrorsSlots_copySlot hsource limit limit).mirrors src slot a ha hs hd

end Copies

section Room

variable {source : Arena} {limit : Nat}

theorem alloc_of_large (ha : a.Sound) (hb : a.backing.Bounded) (hn : n % bytesPerWord = 0)
    (hlarge : maxBlock < n) (hsize : n ≤ maxSize) :
    (alloc n a.backing).1 = .error (.trap .capacity) := by
  refine (alloc_mirrors ha ((roundUp_eq_self hn).trans_le hsize)).stops hb fun hbound => ?_
  have hf := a.fresh_alloc_words hn
  have hstop := stop_le_of_holds hbound hf.holds
  rw [Span.stop, hf.length] at hstop
  omega

theorem copyStruct_of_large (ha : a.Sound) (hb : a.backing.Bounded) (src : StructView) {d p : Nat}
    (h : maxBlock < (d + p) * bytesPerWord) :
    (copyStruct source.backing limit src d p a.backing).1 = .error (.trap
      (if maxSize < (d + p) * bytesPerWord then .overflow else .capacity)) := by
  by_cases hsize : (d + p) * bytesPerWord ≤ maxSize
  · have halloc := alloc_of_large ha hb (Nat.mul_mod_left _ _) h hsize
    rw [if_neg (Nat.not_lt.2 hsize), copyStruct, size_eq hsize, bind_ok (lift_ok _),
      bind_error (Prod.ext halloc rfl)]
  · rw [if_pos (Nat.lt_of_not_le hsize), copyStruct, size, if_neg hsize]
    rfl

/-- On the memory behind the arena the guarded run is the run of the step, and ends with its result
or with a fault of its own, if all blocks that it asks for can be had. If one cannot, it is stopped
for that. All can be had if that which comes next can and, in the end, twice of what is in use. -/
structure StopsForRoom {α : Type} (g : Guarded α) (m : Building α) (a : Arena) : Prop where
  mirrors : (m a).2.backing.Bounded → g a.backing = (ofFault (m a).1, (m a).2.backing)
  ends : (m a).2.backing.Bounded → (∃ x, (g a.backing).1 = .ok x) ∨
    ∃ f, (g a.backing).1 = .error (.fault f) ∧ ∀ what, f ≠ .breach what
  stops : ¬ (m a).2.backing.Bounded → (g a.backing).1 = .error (.trap .capacity)
  room : a.nextSize ≤ maxBlock → 2 * (m a).2.totalSize ≤ maxBlock → (m a).2.backing.Bounded

theorem Mirrors.stopsForRoom {α : Type} {g : Guarded α} {m : Building α} (h : Mirrors g m a)
    (ha : a.Sound) (hb : a.backing.Bounded) (hm : Stepping m) (hc : Contained (m a).1) :
    StopsForRoom g m a := by
  refine ⟨h.agrees hb, fun hbound => ?_, h.stops hb, (hm a).bounded ha hb⟩
  rw [h.agrees hb hbound]
  cases hr : (m a).1 with
  | ok x => exact .inl ⟨x, rfl⟩
  | error f => exact .inr ⟨f, rfl, fun what hf => hc what (hr.trans (congrArg _ hf))⟩

end Room

end Guarded

section Contained

variable {source a : Arena} {limit : Nat}

theorem Contained.of_outcome {α β : Type} {r : Except Fault α} {s : Except Fault β}
    (h : outcome r = outcome s) (hs : Contained s) : Contained r := by
  rintro what rfl
  cases s with
  | ok _ => cases h
  | error f => exact hs what (congrArg _ (Except.error.inj h).symm)

theorem copyWord_of_misaligned {descend : Span → Span → Word → Building Unit} {src slot : Span}
    {f : Fault} (hs : DeepCopy.checkSlot slot = .error f) :
    (DeepCopy.copyWord source descend src slot a).1 =
      (DeepCopy.checkSlot src >>= fun _ => .error f) := by
  unfold DeepCopy.copyWord
  rw [hs]
  cases DeepCopy.checkSlot src <;> rfl

theorem contained_copyPointer (ha : a.Sound) (src slot : Span) :
    Contained (DeepCopy.copyPointer source limit src slot a).1 := by
  cases hs : DeepCopy.checkSlot slot with
  | ok _ =>
    rw [(copyPointer_run hs ha).1]
    exact (contained_valueAt limit limit src).bind fun _ _ => contained_check slot
  | error f =>
    have hrun : (DeepCopy.copyPointer source limit src slot a).1 =
        (DeepCopy.checkSlot src >>= fun _ => .error f) := by
      cases limit <;> rw [DeepCopy.copyPointer, DeepCopy.copySlot, copyWord_of_misaligned hs]
    rw [hrun, ← hs]
    exact (Contained.checkSlot src).bind fun _ _ => .checkSlot slot

end Contained

open Guarded (StopsForRoom) in
/-- Whatever words the source has, whatever list or pointer is to be copied, and whatever the slot
and the nesting limit are, a copy into a reachable arena keeps every part within its span and every
index within the storage, takes nothing from less than that, reckons with 64 bits and writes as many
bytes as there are places for. It ends with a result or with a fault, and leaves what the copy
leaves, as long as the blocks that it asks for can be had.

A copied struct does so too if there can be a block for the words it is to have. If not, it is
stopped before anything is read. -/
theorem copies_stop_only_for_room {source : Arena} (hsource : source.backing.Bounded) (limit : Nat)
    {a : Arena} (ha : a.Reachable) (hb : a.backing.Bounded) :
    (∀ (src : StructView) (d p : Nat),
      (src.Sized → (d + p) * bytesPerWord ≤ maxBlock →
        StopsForRoom (Guarded.copyStruct source.backing limit src d p)
          (DeepCopy.copyStruct source limit src d p) a) ∧
      (maxBlock < (d + p) * bytesPerWord →
        (Guarded.copyStruct source.backing limit src d p a.backing).1 = .error (.trap
          (if maxSize < (d + p) * bytesPerWord then .overflow else .capacity)))) ∧
    (∀ src : ListView, src.elements.stop ≤ maxSize →
      StopsForRoom (Guarded.copyList source.backing limit src)
        (DeepCopy.copyList source limit src) a) ∧
    ∀ src slot : Span, src.start ≤ maxSize → slot.start ≤ maxSize →
      StopsForRoom (Guarded.copyPointer source.backing limit src slot)
        (DeepCopy.copyPointer source limit src slot) a := by
  have hs := ha.sound
  refine ⟨fun src d p => ⟨fun hsrc hn => ?_, Guarded.copyStruct_of_large hs hb src⟩,
    fun src hsrc => ?_, fun src slot hsrc hslot => ?_⟩
  · exact (Guarded.copyStruct_mirrors hsource limit hs hsrc hn).stopsForRoom hs hb
      (.copyStruct source limit src d p)
      (.of_outcome (copyStruct_outcome src hs hn) (contained_structValue limit src d p))
  · exact (Guarded.copyList_mirrors hsource limit hs hsrc).stopsForRoom hs hb
      (.copyList source limit src)
      (.of_outcome (copyList_outcome src hs) (contained_listValue limit src))
  · exact (Guarded.copyPointer_mirrors hsource limit hs hsrc hslot).stopsForRoom hs hb
      (.copyPointer source limit src slot) (contained_copyPointer hs src slot)

/-- A pointer is followed to two levels, once too often, and into a slot of seven bytes. The struct
is in no segment of the source, and the list is longer than its span. A struct of 2 ^ 60 words is
too large for any block, and one of 2 ^ 61 words has more bytes than can be counted. -/
theorem copies_stop_only_for_room_sample :
    let run := Guarded.copyPointer sample.backing
    let src : Span := ⟨0, 0, 8⟩
    let s : StructView := ⟨⟨7, 0, 8⟩, ⟨7, 8, 0⟩⟩
    let struct := Guarded.copyStruct sample.backing 64 s
    (run 64 src ⟨0, 0, 8⟩ crowded.backing).1 = .ok () ∧
    (run 1 src ⟨0, 0, 8⟩ crowded.backing).1 = .error (.fault (.tooDeep 1)) ∧
    (run 64 src ⟨0, 0, 7⟩ crowded.backing).1 = .error (.fault (.unalignedSpan 7)) ∧
    (struct 1 0 crowded.backing).1 = .error (.fault (.noSegment 7 1)) ∧
    (struct (2 ^ 60) 0 crowded.backing).1 = .error (.trap .capacity) ∧
    (struct (2 ^ 60) (2 ^ 60) crowded.backing).1 = .error (.trap .overflow) ∧
    (Guarded.copyList sample.backing 64 ⟨⟨0, 24, 8⟩, .bytes2, 9⟩ crowded.backing).1 =
      .error (.fault (.listTooShort .bytes2 9 18 8)) := by
  intro run src s struct
  have hsource : sample.backing.Bounded := by decide +kernel
  have ha : crowded.Reachable := (Reachable.withCapacity 8).alloc 8
  have hb : crowded.backing.Bounded := by decide +kernel
  have h (limit : Nat) := copies_stop_only_for_room hsource limit ha hb
  have hnext : crowded.nextSize ≤ maxBlock := by decide
  have hp (limit : Nat) (slot : Span) (hslot : slot.start ≤ maxSize)
      (hsmall : 2 * (DeepCopy.copyPointer sample limit src slot crowded).2.totalSize ≤ maxBlock) :=
    have hroom := (h limit).2.2 src slot (by decide) hslot
    congrArg Prod.fst (hroom.mirrors (hroom.room hnext hsmall))
  have hstruct := ((h 64).1 s 1 0).1 ⟨by decide, by decide⟩ (by decide)
  have hlist := (h 64).2.1 ⟨⟨0, 24, 8⟩, .bytes2, 9⟩ (by decide)
  have hs := congrArg Prod.fst (hstruct.mirrors (hstruct.room hnext (by decide +kernel)))
  have hl := congrArg Prod.fst (hlist.mirrors (hlist.room hnext (by decide +kernel)))
  have hcapacity := ((h 64).1 s (2 ^ 60) 0).2 (by decide)
  have hoverflow := ((h 64).1 s (2 ^ 60) (2 ^ 60)).2 (by decide)
  rw [if_neg (by decide)] at hcapacity
  rw [if_pos (by decide)] at hoverflow
  refine ⟨(hp 64 _ (by decide) (by decide +kernel)).trans ?_,
    (hp 1 _ (by decide) (by decide +kernel)).trans ?_,
    (hp 64 _ (by decide) (by decide +kernel)).trans ?_, hs.trans ?_, hcapacity, hoverflow,
    hl.trans ?_⟩
  · decide +kernel
  · decide +kernel
  · decide +kernel
  · decide +kernel
  · decide +kernel

/-- A struct that the source does not have stops the copy, and is no fault of it. -/
theorem exists_copyStruct_trap :
    ∃ (source a : Arena) (src : StructView), source.backing.Bounded ∧ a.Reachable ∧
      a.backing.Bounded ∧ src.Sized ∧
      (Guarded.copyStruct source.backing 64 src (2 ^ 60) 0 a.backing).1 =
        .error (.trap .capacity) :=
  ⟨sample, crowded, ⟨⟨0, 0, 2 ^ 63⟩, ⟨0, 0, 0⟩⟩, by decide +kernel,
    (Reachable.withCapacity 8).alloc 8, by decide +kernel, ⟨by decide, by decide⟩,
    by decide +kernel⟩

end FrozenDefaults
