import FrozenDefaults.Proofs.Leaving

/-!
# Stored values are read back

Storing a value that fits changes, of the places in use before, the slot alone,
and the value is read back from every arena that has grown out of the result and
spared the slot and the places that were new. For this the places have to be
addressable.
-/

namespace FrozenDefaults

open Arena

theorem Arena.Leads.valueAt {c : Arena} {slot : Span} {far : Bool} {t : Target}
    (h : c.Leads slot far t) (limit room : Nat) :
    c.valueAt limit (room + 1) slot = c.targetOf (c.valueAt limit room) t := by
  obtain ⟨hchecked, w, hr, hn, _, hf⟩ := h
  rw [Arena.valueAt, wordValue, hchecked, hr]
  show (if Pointer.isNull w then _ else _) = _
  rw [hn, hf]
  rfl

namespace Value

/-- Storing the value in any slot is undone by reading. -/
def StoresBack (room : Nat) (v : Value) : Prop :=
  ∀ (a : Arena) (slot : Span), a.Sound → a.HasSlot slot →
    Stored a slot.Covers v.size (fun c => ∀ limit, c.valueAt limit room slot = .ok v)
      (v.store slot a)

/-- The trace of a value that is read back. -/
def Readable (room : Nat) : Trace := fun v slot _ c => ∀ limit, c.valueAt limit room slot = .ok v

theorem slotsAt_of_left {room limit segment start : Nat} {vs : List Value} {a c : Arena}
    (h : SlotsLeft (Readable room) segment start vs a c) :
    SlotsAt (c.valueAt limit room) segment start vs := by
  induction vs generalizing start a with
  | nil => trivial
  | cons v vs ih => exact ⟨h.1 limit, ih h.2⟩

theorem partsAt_of_left {room limit segment start : Nat} {shape : Shape}
    {parts : List (Part Value)} {a c : Arena}
    (h : PartsLeft (Readable room) shape segment start parts a c) :
    PartsAt c (c.valueAt limit room) shape segment start parts := by
  induction parts generalizing start a with
  | nil => trivial
  | cons part parts ih => exact ⟨h.1.1, slotsAt_of_left h.1.2, ih h.2⟩

theorem storesBack_null {room : Nat} : StoresBack room .null := by
  intro a slot _ hslot
  refine (stored_putWord hslot Pointer.null).weaken fun c hc limit => ?_
  cases room with
  | zero => exact wordValue_eq_ok_iff.2 ⟨hslot.checkSlot, _, hc, .inl ⟨rfl, rfl⟩⟩
  | succ room => exact wordValue_eq_ok_iff.2 ⟨hslot.checkSlot, _, hc, .inl ⟨rfl, rfl⟩⟩

theorem valueAt_of_leads {c : Arena} {slot : Span} {far : Bool} {limit room : Nat} {shape : Shape}
    {parts : List (Part Value)} {content : Span} (hleads : c.Leads slot far (shape.target content))
    (hal : content.start % bytesPerWord = 0) (fills : shape.Fills parts)
    (hl : content.length = shape.footprint)
    (h : PartsAt c (c.valueAt limit room) shape content.segment
      (content.start + shape.headerBytes) parts) :
    c.valueAt limit (room + 1) slot = .ok (.object shape parts) :=
  (hleads.valueAt limit room).trans (targetOf_target hal fills hl h)

theorem eq_nil_of_fills {parts : List (Part Value)} (fills : (Shape.struct 0 0).Fills parts) :
    parts = [⟨[], []⟩] := by
  obtain ⟨⟨data, slots⟩, rfl⟩ := List.length_eq_one_iff.1 fills.count
  obtain rfl : data = [] :=
    List.eq_nil_of_length_eq_zero ((fills.data _ List.mem_cons_self).trans (Nat.zero_mul _))
  obtain rfl : slots = [] := List.eq_nil_of_length_eq_zero (fills.slots _ List.mem_cons_self)
  rfl

theorem storesBack_emptyStruct {room : Nat} {parts : List (Part Value)}
    (fills : (Shape.struct 0 0).Fills parts) :
    StoresBack (room + 1) (.object (.struct 0 0) parts) := by
  intro a slot _ hslot
  obtain rfl := eq_nil_of_fills fills
  rw [store_emptyStruct]
  refine (stored_emptyStruct hslot).weaken fun c hc limit => ?_
  have hempty : c.read ⟨slot.segment, slot.start, 0⟩ = .ok [] :=
    read_eq_ok_iff.2 ⟨hc.2, rfl, fun i hi => absurd hi (Nat.not_lt_zero i)⟩
  exact valueAt_of_leads hc.1 hslot.aligned fills rfl ⟨hempty, trivial, trivial⟩

/-- A value that fits is read back from where it was stored. -/
theorem Fits.storesBack {room : Nat} {v : Value} (h : v.Fits room) : StoresBack room v := by
  -- By induction the values in the slots of the parts are read back.
  induction h with
  | null => exact storesBack_null
  | @object room shape parts hlink fills _ ih =>
    by_cases hs : shape = .struct 0 0
    · subst hs
      exact storesBack_emptyStruct fills
    · intro a slot ha hslot
      have hleaves : ∀ part ∈ parts, ∀ v ∈ part.slots, Leaves (Readable room) v := ih
      refine (stored_object fills hleaves hlink hs ha hslot).weaken fun c hc limit => ?_
      obtain ⟨far, content, b, hobject⟩ := hc
      exact valueAt_of_leads hobject.leads hobject.aligned fills hobject.length
        (partsAt_of_left hobject.left)

end Value

namespace Content

/-- What can be kept in place needs no pointer to it, but a block of its size. -/
inductive Fits (limit : Nat) : Content → Prop
  | object {shape : Shape} {parts : List (Part Value)} (fills : shape.Fills parts)
      (block : checkBlock shape.footprint = .ok ())
      (slots : ∀ part ∈ parts, ∀ v ∈ part.slots, v.Fits limit) : Fits limit (.object shape parts)
  | pointer {v : Value} (fits : v.Fits limit) : Fits limit (.pointer v)

variable {limit : Nat} {content : Content}

theorem Fits.of_part {d p : Nat} {part : Part Value}
    (hb : checkBlock ((d + p) * bytesPerWord) = .ok ())
    (hd : part.data.length = d * bytesPerWord)
    (hp : part.slots.length = p) (hv : ∀ v ∈ part.slots, v.Fits limit) :
    (Content.object (.struct d p) [part]).Fits limit := by
  rw [← footprint_struct] at hb
  apply Fits.object (Shape.fills_singleton rfl hd hp) hb
  intro q hq v h
  rw [List.mem_singleton.1 hq] at h
  exact hv v h

theorem Fits.of_listParts {a : Arena} {v : ListView} {parts : List (Part Value)}
    (h : a.listParts (a.valueAt limit limit) v = .ok parts) :
    (Content.object (.list v.layout v.count) parts).Fits limit := by
  obtain ⟨hfills, hread⟩ := listParts_eq_ok h
  apply Fits.object hfills (Shape.checkBlock_list _ _)
  intro part hpart w hw
  obtain ⟨s, hs⟩ := hread part hpart w hw
  exact valueAt_fits hs

theorem Fits.stored (h : content.Fits limit) {a : Arena} (ha : a.Sound) :
    Stored a (fun _ _ => False) content.size
      (fun c => c.describe limit (content.store a).1 = .ok content) (content.store a).2 := by
  cases h with
  | @object shape parts fills block slots =>
    have hf := a.fresh_alloc_words shape.footprint_mod
    have hv (part : Part Value) (hp : part ∈ parts) (v : Value) (hv : v ∈ part.slots) :=
      (slots part hp v hv).storesBack
    exact (Value.stored_settle fills hv ha).weaken fun c hc =>
      describe_target (hf.aligned ha) fills hf.length block (Value.partsAt_of_left hc)
  | @pointer v fits =>
    have hf := a.fresh_alloc_words (n := bytesPerWord) rfl
    have hev := a.evolves_alloc bytesPerWord
    have hslot := hasSlot_alloc ha
    exact ((fits.storesBack _ _ (hev.sound ha) hslot).allocated hf hev fun s i => .inr).weaken
      fun c hc => map_eq_ok_iff.2 ⟨v, hc limit, rfl⟩

end Content

end FrozenDefaults
