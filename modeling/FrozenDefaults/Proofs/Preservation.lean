import FrozenDefaults.Proofs.Reachable
import FrozenDefaults.Proofs.Zeroed

/-!
# Deep copies preserve values

What a successful copy returns, or the slot it filled, has in the destination
the logical value that the original has in the source. The source may be any
arena, with shared or overlapping objects or broken pointers.
-/

namespace FrozenDefaults

open Arena

theorem Building.Realizes.of_run {α β : Type} {m : Building β} {a b : Arena}
    {R : Nat → Nat → Prop} {r : Except Fault α} {done : α → β × Arena} {y : β}
    (h : Realizes m a R r done) (hm : m a = (.ok y, b)) :
    ∃ x, r = .ok x ∧ done x = (y, b) := by
  cases r with
  | ok x =>
    have hx := (h.ok x rfl).symm.trans hm
    obtain ⟨h₁, h₂⟩ := Prod.mk.inj hx
    exact ⟨x, rfl, Prod.ext (Except.ok.inj h₁) h₂⟩
  | error f =>
    have hf := h.error f rfl
    rw [hm] at hf
    cases hf

namespace Part

variable {part : Part Value} {d p : Nat}

theorem length_padded_data (h : part.data.length ≤ d * bytesPerWord) :
    (part.padded d p).data.length = d * bytesPerWord := by
  rw [padded, List.length_rightpad, Nat.max_eq_left h]

theorem length_padded_slots (h : part.slots.length ≤ p) : (part.padded d p).slots.length = p := by
  rw [padded, List.length_rightpad, Nat.max_eq_left h]

theorem padded_eq_self (hd : part.data.length = d * bytesPerWord) (hp : part.slots.length = p) :
    part.padded d p = part := by
  simp [padded, List.rightpad, hd, hp]

end Part

namespace Arena

variable {source dest dest' : Arena} {limit : Nat}

theorem partOf_of_describe {v : StructView} {d p : Nat} {part : Part Value}
    (h : dest.describe limit (.struct v) = .ok (.object (.struct d p) [part])) :
    checkBlock ((d + p) * bytesPerWord) = .ok () ∧
      dest.partOf (dest.valueAt limit limit) v d p = .ok part := by
  obtain ⟨d', _, h⟩ := bind_eq_ok_iff.1 h
  obtain ⟨p', _, h⟩ := bind_eq_ok_iff.1 h
  obtain ⟨_, hblock, h⟩ := bind_eq_ok_iff.1 h
  obtain ⟨part', hpart, h⟩ := bind_eq_ok_iff.1 h
  obtain ⟨hshape, hparts⟩ := Content.object.inj (Except.ok.inj h)
  obtain ⟨rfl, rfl⟩ := Shape.struct.inj hshape
  obtain rfl := List.singleton_inj.1 hparts
  exact ⟨hblock, hpart⟩

theorem structValue_of_describe {v : StructView} {d p : Nat} {part : Part Value}
    (hpd : part.data.length = d * bytesPerWord) (hps : part.slots.length = p)
    (h : dest.describe limit (.struct v) = .ok (.object (.struct d p) [part])) :
    dest.structValue limit v d p = .ok (.object (.struct d p) [part]) := by
  refine bind_eq_ok_iff.2 ⟨part, (partOf_of_describe h).2, ?_⟩
  rw [Part.padded_eq_self hpd hps]
  rfl

theorem listValue_of_describe {v : ListView} {shape : Shape} {parts : List (Part Value)}
    (h : dest.describe limit (.list v) = .ok (.object shape parts)) :
    dest.listValue limit v = .ok (.object shape parts) := by
  obtain ⟨_, hv, h⟩ := bind_eq_ok_iff.1 h
  obtain ⟨parts', hparts, h⟩ := bind_eq_ok_iff.1 h
  obtain ⟨rfl, rfl⟩ := Content.object.inj (Except.ok.inj h)
  exact bind_eq_ok_iff.2 ⟨_, hv, bind_eq_ok_iff.2 ⟨_, hparts, rfl⟩⟩

/-- A new struct is the same whether its part is filled up or not. -/
theorem settle_padded {room d p : Nat} {part : Part Value} {a : Arena} (ha : a.Sound)
    (hd : part.data.length ≤ d * bytesPerWord) (hp : part.slots.length ≤ p)
    (hv : ∀ v ∈ part.slots, v.Fits room) :
    (Shape.struct d p).settle [part.padded d p] a = (Shape.struct d p).settle [part] a := by
  have hf := a.fresh_alloc_words (Shape.struct d p).footprint_mod
  have hs := (a.evolves_alloc (Shape.struct d p).footprint).sound ha
  rw [Shape.settle, Shape.settle, Shape.fill, Shape.fill, Value.storeParts_singleton,
    Value.storeParts_singleton]
  exact Value.storePart_padded hf.zeroed hd hp (fun v h => (hv v h).storesBack) hs (hf.aligned ha)
    (hf.length.trans (footprint_struct d p))

theorem copyStruct_stores {src view : StructView} {d p : Nat} (ha : dest.Sound)
    (h : DeepCopy.copyStruct source limit src d p dest = (.ok view, dest')) :
    ∃ part, source.partOf (source.valueAt limit limit) src d p = .ok part ∧
      (Content.object (.struct d p) [part.padded d p]).Fits limit ∧
      (Content.object (.struct d p) [part.padded d p]).store dest = (.struct view, dest') := by
  obtain ⟨part, hread, hdone⟩ := (copyStruct_realizes src d p ha).of_run h
  obtain ⟨rfl, rfl⟩ := Prod.mk.inj hdone
  obtain ⟨_, hblock, hpart⟩ := bind_eq_ok_iff.1 hread
  obtain ⟨_, hdata, hslots, hread⟩ := partOf_eq_ok hpart
  have hd : part.data.length ≤ d * bytesPerWord := by omega
  have hp : part.slots.length ≤ p := by omega
  have hfit (v : Value) (hv : v ∈ part.slots) : v.Fits limit := by
    obtain ⟨s, hs⟩ := hread v hv
    exact valueAt_fits hs
  refine ⟨part, hpart, ?_, ?_⟩
  · apply Content.Fits.of_part hblock (Part.length_padded_data hd) (Part.length_padded_slots hp)
    intro v hv
    rcases List.mem_append.1 hv with hv | hv
    · exact hfit v hv
    · rw [List.eq_of_mem_replicate hv]
      exact .null
  · rw [Content.store, settle_padded ha hd hp hfit, footprint_struct]
    rfl

theorem copyList_stores {src view : ListView} (ha : dest.Sound)
    (h : DeepCopy.copyList source limit src dest = (.ok view, dest')) :
    ∃ content, source.describe limit (.list src) = .ok content ∧ content.Fits limit ∧
      content.store dest = (.list view, dest') := by
  obtain ⟨parts, hparts, hdone⟩ := (copyList_realizes src ha).of_run h
  obtain ⟨rfl, rfl⟩ := Prod.mk.inj hdone
  obtain ⟨_, hvalid, hparts⟩ := bind_eq_ok_iff.1 hparts
  exact ⟨_, bind_eq_ok_iff.2 ⟨_, hvalid, bind_eq_ok_iff.2 ⟨parts, hparts, rfl⟩⟩,
    .of_listParts hparts, rfl⟩

theorem copyStruct_preserves {src view : StructView} {d p : Nat} (ha : dest.Sound)
    (h : DeepCopy.copyStruct source limit src d p dest = (.ok view, dest'))
    (hs : dest'.Addressable) :
    view.data.length = d * bytesPerWord ∧ view.pointers.length = p * bytesPerWord ∧
      ∃ v, source.structValue limit src d p = .ok v ∧ dest'.structValue limit view d p = .ok v := by
  obtain ⟨part, hpart, hfits, hstore⟩ := copyStruct_stores ha h
  have hstored := hfits.stored ha
  obtain ⟨hview, rfl⟩ := Prod.mk.inj hstore
  obtain rfl := Descriptor.struct.inj hview
  have hback := hstored.back ha hs _ (.refl _ _)
  cases hfits with
  | object fills _ _ =>
    have hd := fills.data _ List.mem_cons_self
    have hp := fills.slots _ List.mem_cons_self
    exact ⟨rfl, rfl, _, bind_eq_ok_iff.2 ⟨part, hpart, rfl⟩,
      structValue_of_describe hd hp hback⟩

theorem copyList_preserves {src view : ListView} (ha : dest.Sound)
    (h : DeepCopy.copyList source limit src dest = (.ok view, dest')) (hs : dest'.Addressable) :
    ∃ v, source.listValue limit src = .ok v ∧ dest'.listValue limit view = .ok v := by
  obtain ⟨content, hread, hfits, hstore⟩ := copyList_stores ha h
  have hstored := hfits.stored ha
  rw [hstore] at hstored
  have hback := hstored.back ha hs _ (.refl _ _)
  cases content with
  | object shape parts => exact ⟨_, listValue_of_describe hread, listValue_of_describe hback⟩
  | pointer v =>
    obtain ⟨_, _, hread⟩ := bind_eq_ok_iff.1 hread
    obtain ⟨_, _, hread⟩ := bind_eq_ok_iff.1 hread
    cases hread

theorem copyPointer_preserves {src slot : Span} (ha : dest.Sound) (hslot : dest.HasSlot slot)
    (h : DeepCopy.copyPointer source limit src slot dest = (.ok (), dest'))
    (hs : dest'.Addressable) : ∃ v, source.valueAt limit limit src = .ok v ∧
      dest'.valueAt limit limit slot = .ok v := by
  obtain ⟨v, hv, hdone⟩ := (copyPointer_realizes src ha hslot).of_run h
  obtain ⟨_, rfl⟩ := Prod.mk.inj hdone
  have hstored := (valueAt_fits hv).storesBack dest slot ha hslot
  exact ⟨v, hv, hstored.back ha hs _ (.refl _ _) limit⟩

/-- A deep copy into a reachable arena that returns has the logical value of the original, as long
as the places of the arena can be addressed. -/
theorem deepCopy_preserves_value (source : Arena) (limit : Nat) (h : dest.Reachable) :
    (∀ (src view : StructView) (dataWords pointerWords : Nat) (dest' : Arena),
      DeepCopy.copyStruct source limit src dataWords pointerWords dest = (.ok view, dest') →
      dest'.Addressable →
      view.data.length = dataWords * bytesPerWord ∧
        view.pointers.length = pointerWords * bytesPerWord ∧
        ∃ v, source.structValue limit src dataWords pointerWords = .ok v ∧
          dest'.structValue limit view dataWords pointerWords = .ok v) ∧
    (∀ (src view : ListView) (dest' : Arena),
      DeepCopy.copyList source limit src dest = (.ok view, dest') → dest'.Addressable →
      ∃ v, source.listValue limit src = .ok v ∧ dest'.listValue limit view = .ok v) ∧
    ∀ (src slot : Span) (dest' : Arena), dest.HasSlot slot →
      DeepCopy.copyPointer source limit src slot dest = (.ok (), dest') → dest'.Addressable →
      ∃ v, source.valueAt limit limit src = .ok v ∧ dest'.valueAt limit limit slot = .ok v :=
  ⟨fun _ _ _ _ _ hc hs => copyStruct_preserves h.sound hc hs,
    fun _ _ _ hc hs => copyList_preserves h.sound hc hs,
    fun _ _ _ hslot hc hs => copyPointer_preserves h.sound hslot hc hs⟩

/-- A pointer to a struct of one data word, with a pointer to three bytes. -/
def sample : Arena :=
  ⟨#[⟨([Pointer.ofStruct 0 1 1, 42, Pointer.ofList 0 .byte 3, 0x636261].flatMap
    Word.toBytes).toArray, 32⟩], 1024⟩

/-- An arena with one full segment, so that every copy but the smallest is placed behind a pad. -/
def crowded : Arena := ((withCapacity 8).alloc 8).2

theorem deepCopy_preserves_value_sample :
    let a := (DeepCopy.copyStruct sample 64 ⟨⟨0, 8, 8⟩, ⟨0, 16, 8⟩⟩ 2 2 crowded).2
    let b := (DeepCopy.copyList sample 64 ⟨⟨0, 24, 8⟩, .bytes1, 3⟩ crowded).2
    let c := (DeepCopy.copyPointer sample 64 ⟨0, 0, 8⟩ ⟨0, 0, 8⟩ crowded).2
    (∃ v, sample.structValue 64 ⟨⟨0, 8, 8⟩, ⟨0, 16, 8⟩⟩ 2 2 = .ok v ∧
        a.structValue 64 ⟨⟨1, 0, 16⟩, ⟨1, 16, 16⟩⟩ 2 2 = .ok v) ∧
      (∃ v, sample.listValue 64 ⟨⟨0, 24, 8⟩, .bytes1, 3⟩ = .ok v ∧
        b.listValue 64 ⟨⟨1, 0, 8⟩, .bytes1, 3⟩ = .ok v) ∧
      ∃ v, sample.valueAt 64 64 ⟨0, 0, 8⟩ = .ok v ∧ c.valueAt 64 64 ⟨0, 0, 8⟩ = .ok v := by
  have hs : (DeepCopy.copyStruct sample 64 ⟨⟨0, 8, 8⟩, ⟨0, 16, 8⟩⟩ 2 2 crowded).1 =
      .ok ⟨⟨1, 0, 16⟩, ⟨1, 16, 16⟩⟩ := by decide +kernel
  have hl : (DeepCopy.copyList sample 64 ⟨⟨0, 24, 8⟩, .bytes1, 3⟩ crowded).1 =
      .ok ⟨⟨1, 0, 8⟩, .bytes1, 3⟩ := by decide +kernel
  have hp : (DeepCopy.copyPointer sample 64 ⟨0, 0, 8⟩ ⟨0, 0, 8⟩ crowded).1 = .ok () := by
    decide +kernel
  have hslot : crowded.HasSlot ⟨0, 0, 8⟩ := ⟨⟨by decide, by decide⟩, rfl, rfl⟩
  have h := deepCopy_preserves_value sample 64 ((Reachable.withCapacity 8).alloc 8)
  exact ⟨(h.1 _ _ _ _ _ (Building.run_eq hs) ⟨by decide +kernel, by decide +kernel⟩).2.2,
    h.2.1 _ _ _ (Building.run_eq hl) ⟨by decide +kernel, by decide +kernel⟩,
    h.2.2 _ _ _ hslot (Building.run_eq hp) ⟨by decide +kernel, by decide +kernel⟩⟩

end Arena

end FrozenDefaults
