import FrozenDefaults.Proofs.Fields
import FrozenDefaults.Proofs.NormalForm
import FrozenDefaults.Proofs.Preservation

/-!
# How far a link reaches

A pointer that is copied is linked to the place that its object was given. The
offset and the number of the landing pad are cut to the bits of their fields,
and nothing asks whether they fit. If they do, as they all do in an arena of
less than 4 GiB, the slot leads to the object. If one does not, the slot leads
elsewhere, and the copy succeeds all the same.
-/

namespace FrozenDefaults

open Arena
open DeepCopy (Placement)

namespace Pointer

variable {w : Word} {home t : Nat}

/-- A word that was moved to lead forward to `t` does so if and only if the offset fits and `t` is a
place at all. -/
theorem target?_withOffset_iff (h : home < t) :
    target? (withOffset w (t - home - 1)) home = some t ↔ t ≤ home + 2 ^ 29 ∧ t < 2 ^ 63 := by
  constructor
  · intro ht
    have hhigh : offset (withOffset w (t - home - 1)) < 2 ^ 29 := BitVec.toInt_lt
    have hlow : -2 ^ 29 ≤ offset (withOffset w (t - home - 1)) := BitVec.le_toInt _
    simp only [target?, Int.bmod, UInt64.size] at ht
    split at ht
    · split at ht
      · have ht := Option.some.inj ht
        omega
      · cases ht
    · split at ht
      · have ht := Option.some.inj ht
        omega
      · cases ht
  · rintro ⟨hle, hlt⟩
    refine target?_of_offset ?_ hlt
    rw [offset_withOffset, Pointer.ofInt_toInt (by omega) (by omega)]

end Pointer

namespace Arena

variable {a c : Arena} {slot : Span} {shape : Shape} {p : Placement}

/-- The word in the slot leads to the place of the object, directly or through its landing pad. -/
def LinkedTo (c : Arena) (slot : Span) (p : Placement) : Prop :=
  ∃ w tag, c.readWord slot.segment slot.startWord = .ok w ∧
    c.place slot.segment slot.startWord w = .ok ⟨tag, p.content.segment, p.content.startWord⟩

/-- The offset to the place of the object, or the number of its landing pad, fits its field. Places
are signed numbers of 64 bits, and segments have numbers of 32. -/
def InReach (slot : Span) (p : Placement) : Prop :=
  match p.pad with
  | none => p.content.startWord ≤ slot.startWord + 2 ^ 29 ∧ p.content.startWord < 2 ^ 63
  | some pad => pad.startWord < 2 ^ 29 ∧ pad.segment < 2 ^ 32

theorem readWord_putWord (h : a.HasSlot slot) (w : Word) :
    (a.putWord slot w).readWord slot.segment slot.startWord = .ok w :=
  h.readWord (read_patch h.holds (by rw [Word.length_toBytes, h.length]))

theorem linkedTo_near_iff (hslot : c.HasSlot slot) (hpad : p.pad = none)
    (hseg : p.content.segment = slot.segment) (hlt : slot.startWord < p.content.startWord) :
    (c.putLink slot p shape.pointer).LinkedTo slot p ↔ InReach slot p := by
  rw [putLink, LinkedTo, InReach, hpad]
  simp only [readWord_putWord hslot, ← Pointer.target?_withOffset_iff (w := shape.pointer) hlt]
  constructor
  · rintro ⟨w, tag, hw, hplace⟩
    obtain rfl := Except.ok.inj hw
    rw [place_eq_nearPlace (shape.kind_link _)] at hplace
    obtain ⟨t, ht, he⟩ := nearPlace_eq_ok_iff.1 hplace
    exact ht.trans (congrArg some (Tagged.mk.inj he).2.2.symm)
  · intro ht
    refine ⟨Pointer.withOffset shape.pointer (p.content.startWord - slot.startWord - 1),
      Pointer.withOffset shape.pointer (p.content.startWord - slot.startWord - 1), rfl, ?_⟩
    rw [place_eq_nearPlace (shape.kind_link _)]
    exact nearPlace_eq_ok_iff.2 ⟨_, ht, by rw [hseg]⟩

theorem place_ofFar (c : Arena) (segment word pad : Nat) (id : UInt32) :
    c.place segment word (Pointer.ofFar false pad id) =
      c.readWord id.toNat (pad % 2 ^ 29) >>= fun w =>
        if Pointer.kind w = .far then .error (.malformed id.toNat (pad % 2 ^ 29) .padIsFar)
        else nearPlace id.toNat (pad % 2 ^ 29) w := by
  unfold place
  rw [Pointer.kind_ofFar]
  simp only [farPlace, Pointer.segment_ofFar, Pointer.padWord_ofFar_mod, Pointer.isDouble_ofFar]
  rfl

section Far

variable {pad : Span} (hslot : c.HasSlot slot) (hpadslot : c.HasSlot pad) (hpad : p.pad = some pad)
  (apart : slot.Apart pad)
include hslot hpadslot hpad

theorem readWord_slot_putLink (w : Word) :
    (c.putLink slot p w).readWord slot.segment slot.startWord =
      .ok (Pointer.ofFar false pad.startWord (UInt32.ofNat pad.segment)) := by
  rw [putLink, hpad]
  exact readWord_putWord (hslot.grows (grows_putWord hpadslot _)) _

include apart

theorem readWord_pad_putLink (w : Word) :
    (c.putLink slot p w).readWord pad.segment pad.startWord = .ok (Pointer.withOffset w 0) := by
  have hgrows := grows_putWord hpadslot (Pointer.withOffset w 0)
  have hread : (c.putWord pad (Pointer.withOffset w 0)).read pad =
      .ok (Word.toBytes (Pointer.withOffset w 0)) :=
    read_patch hpadslot.holds (by rw [Word.length_toBytes, hpadslot.length])
  rw [putLink, hpad]
  exact hpadslot.readWord ((grows_putWord (hslot.grows hgrows) _).read hread
    fun i hi hc => apart _ _ hc hi)

theorem linkedTo_far_iff (hseg : p.content.segment = pad.segment)
    (hnext : p.content.startWord = pad.startWord + 1) :
    (c.putLink slot p shape.pointer).LinkedTo slot p ↔ InReach slot p := by
  have hkind : Pointer.kind (Pointer.withOffset shape.pointer 0) ≠ .far := by
    rcases shape.kind_link 0 with hk | hk <;> rw [hk] <;> decide
  rw [LinkedTo, InReach, hpad]
  simp only [readWord_slot_putLink hslot hpadslot hpad]
  constructor
  · rintro ⟨w, tag, hw, hplace⟩
    obtain rfl := Except.ok.inj hw
    rw [place_ofFar] at hplace
    obtain ⟨w, _, hplace⟩ := bind_eq_ok_iff.1 hplace
    split at hplace
    · cases hplace
    · obtain ⟨t, htarget, he⟩ := nearPlace_eq_ok_iff.1 hplace
      obtain ⟨_, hid, rfl⟩ := Tagged.mk.inj he
      -- An offset is too short to make up for what was cut off the number of the pad.
      have hoffset := Pointer.offset_of_target? htarget (by omega)
      have hshort : Pointer.offset w < 2 ^ 29 := BitVec.toInt_lt
      have hbound := (UInt32.ofNat pad.segment).toNat_lt
      simp only [hseg] at hid
      simp only [hnext] at hoffset
      exact ⟨by omega, by omega⟩
  · rintro ⟨hword, hsegment⟩
    refine ⟨_, Pointer.withOffset shape.pointer 0, rfl, ?_⟩
    rw [place_ofFar, Nat.mod_eq_of_lt hword, UInt32.toNat_ofNat_of_lt' hsegment,
      readWord_pad_putLink hslot hpadslot hpad apart, ok_bind, if_neg hkind]
    refine nearPlace_eq_ok_iff.2 ⟨_, Pointer.target?_of_offset ?_ ?_, by rw [hseg]⟩
    · rw [shape.offset_link (by decide) (by decide)]
      simp only [hnext]
      omega
    · simp only [hnext]
      omega

end Far

/-- Once its room is filled, the slot is linked to the object if and only if the object is in
reach. -/
theorem linkedTo_makeRoom_iff {n : Nat} (ha : a.Sound) (hslot : a.HasSlot slot)
    (hn : n % bytesPerWord = 0) (hev : Evolves (a.makeRoom slot n).2 c) :
    (c.putLink slot (a.makeRoom slot n).1 shape.pointer).LinkedTo slot (a.makeRoom slot n).1 ↔
      InReach slot (a.makeRoom slot n).1 := by
  have hroom := room_makeRoom ha slot hn
  have hslot' : c.HasSlot slot := (hslot.grows hroom.grows).grows hev.grows
  rcases makeRoom_cases a slot hn with ⟨r, he, hseg, _, hf⟩ | ⟨r, he, _, hf⟩
  · have hafter : slot.startWord < r.startWord := by
      have hstop := hslot.holds.2
      rw [← hseg, ← hf.start, Span.stop, hslot.length] at hstop
      simp only [Span.startWord, bytesPerWord] at hstop ⊢
      omega
    rw [he]
    exact linkedTo_near_iff hslot' rfl hseg hafter
  · have hpad := hroom.pad ⟨r.segment, r.start, bytesPerWord⟩ (by rw [he])
    rw [he]
    refine linkedTo_far_iff hslot' (hpad.1.grows hev.grows) rfl (fun s i hc hi => ?_) rfl ?_
    · exact absurd (hslot.holds.lt_of_covers hc) (Nat.not_lt.2 (hpad.2 s i hi))
    · exact Nat.add_div_right _ (by decide)

/-- Below 4 GiB every object is in reach. -/
theorem Room.inReach {n : Nat} (h : Room a n p b) (hev : Evolves b c) (hc : c.Addressable) :
    InReach slot p := by
  unfold InReach
  split
  · have hword := startWord_lt hc (hev.grows.holds h.content.holds)
    exact ⟨by omega, by omega⟩
  · rename_i pad hp
    have hpad := hev.grows.holds (h.pad pad hp).1.holds
    exact ⟨startWord_lt hc hpad, hpad.1.trans_le hc.names⟩

section Copy

variable {source : Arena} {limit : Nat} {src : Span} {parts : List (Part Value)} (ha : a.Sound)
  (hslot : a.HasSlot slot) (hv : source.valueAt limit limit src = .ok (.object shape parts))
  (hne : shape ≠ .struct 0 0)
include ha hslot hv hne

theorem copyPointer_object : DeepCopy.copyPointer source limit src slot a =
    (.ok (), putLink slot (a.makeRoom slot shape.footprint).1 shape.pointer
      (shape.fill parts (a.makeRoom slot shape.footprint).1.content
        (a.makeRoom slot shape.footprint).2)) := by
  rw [(copyPointer_realizes src ha hslot).ok _ hv, Value.store_object hne]

theorem linkedTo_copyPointer_iff :
    (DeepCopy.copyPointer source limit src slot a).2.LinkedTo slot
        (a.makeRoom slot shape.footprint).1 ↔
      InReach slot (a.makeRoom slot shape.footprint).1 := by
  rw [copyPointer_object ha hslot hv hne]
  exact linkedTo_makeRoom_iff ha hslot shape.footprint_mod (Value.evolves_fill shape parts _ _)

theorem inReach_of_copyPointer
    (h : (DeepCopy.copyPointer source limit src slot a).2.Addressable) :
    InReach slot (a.makeRoom slot shape.footprint).1 := by
  rw [copyPointer_object ha hslot hv hne] at h
  exact (room_makeRoom ha slot shape.footprint_mod).inReach
    ((Value.evolves_fill shape parts _ _).trans (evolves_putLink _ _ _ _)) h

end Copy

/-- A copy into a slot of a reachable arena fails only where the source cannot be read: where the
object is put has no part in it. The object is filled into its place and the slot is linked to it,
which leads to that place if and only if the offset or the landing pad fits its field, as they do in
an arena of less than 4 GiB. -/
theorem copyPointer_leads_iff (source : Arena) (limit : Nat) (src : Span) (h : a.Reachable)
    (hslot : a.HasSlot slot) :
    (DeepCopy.copyPointer source limit src slot a).1 =
        (source.valueAt limit limit src).map (fun _ => ()) ∧
      ∀ shape parts, source.valueAt limit limit src = .ok (.object shape parts) →
        shape ≠ .struct 0 0 → ∃ p b, DeepCopy.place slot shape.footprint a = (.ok p, b) ∧
          (DeepCopy.copyPointer source limit src slot a).2 =
            putLink slot p shape.pointer (shape.fill parts p.content b) ∧
          ((DeepCopy.copyPointer source limit src slot a).2.LinkedTo slot p ↔ InReach slot p) ∧
          ((DeepCopy.copyPointer source limit src slot a).2.Addressable → InReach slot p) := by
  constructor
  · cases hv : source.valueAt limit limit src with
    | ok v => rw [(copyPointer_realizes src h.sound hslot).ok v hv]; rfl
    | error f => exact (copyPointer_realizes src h.sound hslot).error f hv
  · intro shape parts hv hne
    exact ⟨_, _, place_eq a slot shape.footprint,
      congrArg Prod.snd (copyPointer_object h.sound hslot hv hne),
      linkedTo_copyPointer_iff h.sound hslot hv hne, inReach_of_copyPointer h.sound hslot hv hne⟩

theorem valueAt_sample : sample.valueAt 64 64 ⟨0, 16, 8⟩ =
    .ok (.object (.list .bytes1 3) [⟨[0x61, 0x62, 0x63], []⟩]) := by rfl

/-- The list of three bytes is put behind its slot, and behind a landing pad. -/
theorem copyPointer_leads_iff_sample :
    let near := ((withCapacity 64).alloc 8).2
    (∃ p b, DeepCopy.place ⟨0, 0, 8⟩ 8 near = (.ok p, b) ∧
        (DeepCopy.copyPointer sample 64 ⟨0, 16, 8⟩ ⟨0, 0, 8⟩ near).2.LinkedTo ⟨0, 0, 8⟩ p) ∧
      ∃ p b, DeepCopy.place ⟨0, 0, 8⟩ 8 crowded = (.ok p, b) ∧
        (DeepCopy.copyPointer sample 64 ⟨0, 16, 8⟩ ⟨0, 0, 8⟩ crowded).2.LinkedTo ⟨0, 0, 8⟩ p := by
  intro near
  have hnear : near.HasSlot ⟨0, 0, 8⟩ := ⟨⟨by decide, by decide⟩, rfl, rfl⟩
  have hfar : crowded.HasSlot ⟨0, 0, 8⟩ := ⟨⟨by decide, by decide⟩, rfl, rfl⟩
  obtain ⟨p, b, hp, _, hiff, hbelow⟩ := (copyPointer_leads_iff sample 64 ⟨0, 16, 8⟩
    ((Reachable.withCapacity 64).alloc 8) hnear).2 _ _ valueAt_sample (by decide)
  obtain ⟨q, c, hq, _, hiff', hbelow'⟩ := (copyPointer_leads_iff sample 64 ⟨0, 16, 8⟩
    ((Reachable.withCapacity 8).alloc 8) hfar).2 _ _ valueAt_sample (by decide)
  exact ⟨⟨p, b, hp, hiff.2 (hbelow ⟨by decide +kernel, by decide +kernel⟩)⟩,
    q, c, hq, hiff'.2 (hbelow' ⟨by decide +kernel, by decide +kernel⟩)⟩

section Vast

theorem makeRoom_of_room {n : Nat} (hs : slot.segment < a.segmentCount)
    (hn : n % bytesPerWord = 0) (hc : a.usedIn slot.segment + n ≤ a.capacityIn slot.segment) :
    (a.makeRoom slot n).1 = ⟨⟨slot.segment, a.usedIn slot.segment, n⟩, none⟩ := by
  rcases makeRoom_cases a slot hn with ⟨⟨segment, start, length⟩, he, hseg, _, hf⟩ | ⟨r, _, haway, _⟩
  · obtain rfl : segment = slot.segment := hseg
    obtain rfl : start = a.usedIn slot.segment := hf.start
    obtain rfl : length = n := hf.length
    exact he
  · exact absurd hc (Nat.not_le.2 (haway hs).2)

theorem alloc_singleton {seg : Segment} {n : Nat} (next : Nat) (hn : n % bytesPerWord = 0)
    (hc : seg.used + n ≤ seg.capacity) :
    alloc ⟨#[seg], next⟩ n = (⟨0, seg.used, n⟩, ⟨#[seg.extend n], next⟩) := by
  have hround := roundUp_eq_self hn
  have hseg : (⟨#[seg], next⟩ : Arena).segments[0]? = some seg := rfl
  have hroom : allocIn ⟨#[seg], next⟩ 0 n = (some ⟨0, seg.used, n⟩, ⟨#[seg.extend n], next⟩) := by
    rw [allocIn_of_room hseg (hround.symm ▸ hc), hround]
    rfl
  simp only [alloc, List.size_toArray, List.length_singleton, Nat.sub_self, hroom]

/-- An arena with a slot in front and 4 GiB in use behind it. -/
def vast : Arena := (((withCapacity (2 ^ 32 + 64)).alloc 8).2.alloc (2 ^ 32)).2

theorem reachable_vast : vast.Reachable := ((Reachable.withCapacity _).alloc 8).alloc (2 ^ 32)

theorem exists_vast_eq : ∃ seg next, vast = ⟨#[seg], next⟩ ∧ seg.used = 2 ^ 32 + 8 ∧
    seg.capacity = 2 ^ 32 + 64 := by
  obtain ⟨next, hopen⟩ : ∃ next, withCapacity (2 ^ 32 + 64) = ⟨#[⟨#[], 2 ^ 32 + 64⟩], next⟩ :=
    ⟨_, rfl⟩
  have hused (n : Nat) : (Segment.extend ⟨#[], 2 ^ 32 + 64⟩ n).used = n := by
    rw [used_extend]
    exact Nat.zero_add n
  refine ⟨(Segment.extend ⟨#[], 2 ^ 32 + 64⟩ 8).extend (2 ^ 32), next, ?_, ?_, rfl⟩
  · rw [vast, hopen, alloc_singleton next rfl (by decide), alloc_singleton next rfl]
    rw [hused]
    decide
  · rw [used_extend, hused, Nat.add_comm]

/-- A copy that succeeds and is not linked to the place of its object. -/
theorem copyPointer_vast_not_linked :
    vast.Reachable ∧ vast.HasSlot ⟨0, 0, 8⟩ ∧
      sample.valueAt 64 64 ⟨0, 16, 8⟩ =
        .ok (.object (.list .bytes1 3) [⟨[0x61, 0x62, 0x63], []⟩]) ∧
      (DeepCopy.place ⟨0, 0, 8⟩ 8 vast).1 = .ok ⟨⟨0, 2 ^ 32 + 8, 8⟩, none⟩ ∧
      (DeepCopy.copyPointer sample 64 ⟨0, 16, 8⟩ ⟨0, 0, 8⟩ vast).1 = .ok () ∧
      ¬ (DeepCopy.copyPointer sample 64 ⟨0, 16, 8⟩ ⟨0, 0, 8⟩ vast).2.LinkedTo ⟨0, 0, 8⟩
        ⟨⟨0, 2 ^ 32 + 8, 8⟩, none⟩ := by
  obtain ⟨seg, next, he, hsize, hcap⟩ := exists_vast_eq
  have hused : vast.usedIn 0 = 2 ^ 32 + 8 := by
    have hseg : (⟨#[seg], next⟩ : Arena).segments[0]? = some seg := rfl
    rw [he, usedIn_of_getElem? hseg, hsize]
  have hcapacity : vast.capacityIn 0 = 2 ^ 32 + 64 := by
    rw [he]
    exact hcap
  have hcount : 0 < vast.segmentCount := by
    rw [he]
    exact Nat.zero_lt_one
  have hslot : vast.HasSlot ⟨0, 0, 8⟩ := by
    refine ⟨⟨hcount, ?_⟩, rfl, rfl⟩
    rw [hused]
    decide
  have hroom : vast.usedIn 0 + 8 ≤ vast.capacityIn 0 := by
    rw [hused, hcapacity]
    decide
  have hmake : (vast.makeRoom ⟨0, 0, 8⟩ 8).1 = ⟨⟨0, vast.usedIn 0, 8⟩, none⟩ :=
    makeRoom_of_room hcount rfl hroom
  rw [hused] at hmake
  have hplace := place_eq vast ⟨0, 0, 8⟩ 8
  have hcopy := copyPointer_object reachable_vast.sound hslot valueAt_sample (by decide)
  have hlinked := linkedTo_copyPointer_iff reachable_vast.sound hslot valueAt_sample (by decide)
  have hfootprint : (Shape.list .bytes1 3).footprint = 8 := rfl
  rw [hfootprint, hmake] at hlinked
  refine ⟨reachable_vast, hslot, valueAt_sample, by rw [hplace, hmake], by rw [hcopy], ?_⟩
  rw [hlinked]
  -- The place is one word too far away.
  exact fun hreach => absurd hreach.1 (by decide)

end Vast

end Arena

end FrozenDefaults
