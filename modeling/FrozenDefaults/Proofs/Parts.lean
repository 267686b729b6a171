import FrozenDefaults.Proofs.Fits

/-!
# Parts in memory

Where the parts of an object stand in an arena, and that an object is read from
them: a struct or a list in place, and an object behind a word that describes
its shape.
-/

namespace FrozenDefaults

namespace Arena

/-- The values of consecutive slots. -/
def SlotsAt (value : Span → Except Fault Value) (segment : Nat) : (start : Nat) → List Value → Prop
  | _, [] => True
  | start, v :: vs =>
    value ⟨segment, start, bytesPerWord⟩ = .ok v ∧ SlotsAt value segment (start + bytesPerWord) vs

/-- Consecutive parts of an object of the given shape. -/
def PartsAt (a : Arena) (value : Span → Except Fault Value) (shape : Shape) (segment : Nat) :
    (start : Nat) → List (Part Value) → Prop
  | _, [] => True
  | start, part :: parts =>
    a.read ⟨segment, start, part.data.length⟩ = .ok part.data ∧
      SlotsAt value segment (start + shape.dataBytes) part.slots ∧
      PartsAt a value shape segment (start + shape.partBytes) parts

variable {a : Arena} {value : Span → Except Fault Value}

theorem collect_words {s : Span} {vs : List Value} {first : Nat}
    (hl : (first + vs.length) * bytesPerWord ≤ s.length)
    (h : SlotsAt value s.segment (s.start + first * bytesPerWord) vs) :
    collect (fun i => s.word i >>= value) first vs.length = .ok vs := by
  induction vs generalizing first with
  | nil => rfl
  | cons v vs ih =>
    have hword : s.word first =
        .ok ⟨s.segment, s.start + first * bytesPerWord, bytesPerWord⟩ := by
      apply Span.part_eq_ok
      simp only [List.length_cons, bytesPerWord] at hl ⊢
      omega
    have hrest : collect (fun i => s.word i >>= value) (first + 1) vs.length = .ok vs := by
      apply ih
      · rw [List.length_cons] at hl
        rwa [Nat.add_right_comm]
      · rw [Nat.succ_mul, ← Nat.add_assoc]
        exact h.2
    exact bind_eq_ok_iff.2 ⟨v, bind_eq_ok_iff.2 ⟨_, hword, h.1⟩, bind_eq_ok_iff.2 ⟨vs, hrest, rfl⟩⟩

theorem slotsOf_of_slotsAt {s : Span} {vs : List Value} (hl : vs.length * bytesPerWord ≤ s.length)
    (h : SlotsAt value s.segment s.start vs) : slotsOf value s vs.length = .ok vs := by
  apply collect_words
  · rwa [Nat.zero_add]
  · rwa [Nat.zero_mul, Nat.add_zero]

theorem dataOf_of_read {s : Span} {bs : List UInt8} (hl : bs.length ≤ s.length)
    (h : a.read ⟨s.segment, s.start, bs.length⟩ = .ok bs) : a.dataOf s bs.length = .ok bs := by
  rw [dataOf]
  split
  · refine bind_eq_ok_iff.2 ⟨⟨s.segment, s.start, bs.length⟩, ?_, h⟩
    exact Span.part_eq_ok (by omega)
  · rename_i h0
    rw [List.eq_nil_of_length_eq_zero (Nat.eq_zero_of_not_pos h0)]
    rfl

theorem partOf_of_slotsAt {v : StructView} {d p : Nat} {part : Part Value}
    (hdata : a.read ⟨v.data.segment, v.data.start, part.data.length⟩ = .ok part.data)
    (hd : part.data.length = min v.data.length (d * bytesPerWord)) (hal : v.pointers.Aligned)
    (hp : part.slots.length = min (v.pointers.length / bytesPerWord) p)
    (hslots : SlotsAt value v.pointers.segment v.pointers.start part.slots) :
    a.partOf value v d p = .ok part := by
  have hlen := Nat.div_mul_le_self v.pointers.length bytesPerWord
  have hthere := Span.wordCount_eq_ok_iff.2 ⟨hal, rfl⟩
  refine bind_eq_ok_iff.2 ⟨part.data, ?_, bind_eq_ok_iff.2 ⟨_, hthere,
    bind_eq_ok_iff.2 ⟨part.slots, ?_, rfl⟩⟩⟩
  · rw [← hd]
    exact dataOf_of_read (by omega) hdata
  · rw [← hp]
    refine slotsOf_of_slotsAt ?_ hslots
    refine (Nat.mul_le_mul_right _ ?_).trans hlen
    omega

theorem partOf_ofRegion_of_slotsAt {region : Span} {d p : Nat} {part : Part Value}
    (hal : region.start % bytesPerWord = 0) (hd : part.data.length = d * bytesPerWord)
    (hp : part.slots.length = p)
    (hdata : a.read ⟨region.segment, region.start, part.data.length⟩ = .ok part.data)
    (hslots : SlotsAt value region.segment (region.start + d * bytesPerWord) part.slots) :
    a.partOf value (.ofRegion region d p) d p = .ok part := by
  have hwords : p * bytesPerWord / bytesPerWord = p := Nat.mul_div_cancel p (by decide)
  refine partOf_of_slotsAt hdata ?_ ⟨Nat.mul_mod_left _ _, ?_⟩ ?_ hslots
  · rw [hd]
    exact (Nat.min_self _).symm
  · rw [StructView.ofRegion, Nat.add_mul_mod_self_right]
    exact hal
  · rw [hp, StructView.ofRegion, hwords, Nat.min_self]

theorem collect_elements {s : Span} {d p : UInt16} {count : UInt32} {parts : List (Part Value)}
    {first : Nat} (hal : s.start % bytesPerWord = 0)
    (hd : ∀ part ∈ parts, part.data.length = d.toNat * bytesPerWord)
    (hp : ∀ part ∈ parts, part.slots.length = p.toNat)
    (hl : (first + parts.length) * (ElementLayout.stride d p * bytesPerWord) ≤ s.length)
    (h : PartsAt a value (.list (.composite d p) count) s.segment
      (s.start + first * (ElementLayout.stride d p * bytesPerWord)) parts) :
    collect (a.elementOf value s d p) first parts.length = .ok parts := by
  induction parts generalizing first with
  | nil => rfl
  | cons part parts ih =>
    obtain ⟨hdata, hslots, hrest⟩ := h
    have hpart : s.part (first * (ElementLayout.stride d p * bytesPerWord))
        (ElementLayout.stride d p * bytesPerWord) =
        .ok ⟨s.segment, s.start + first * (ElementLayout.stride d p * bytesPerWord),
          ElementLayout.stride d p * bytesPerWord⟩ := by
      apply Span.part_eq_ok
      rw [← Nat.succ_mul]
      refine (Nat.mul_le_mul_right _ ?_).trans hl
      rw [List.length_cons]
      omega
    have hmod :
        (s.start + first * (ElementLayout.stride d p * bytesPerWord)) % bytesPerWord = 0 := by
      rw [← Nat.mul_assoc, Nat.add_mul_mod_self_right]
      exact hal
    have helement : a.elementOf value s d p first = .ok part :=
      bind_eq_ok_iff.2 ⟨_, hpart, partOf_ofRegion_of_slotsAt hmod (hd part List.mem_cons_self)
        (hp part List.mem_cons_self) hdata hslots⟩
    have hothers : collect (a.elementOf value s d p) (first + 1) parts.length = .ok parts := by
      apply ih (fun q hq => hd q (List.mem_cons_of_mem part hq))
        (fun q hq => hp q (List.mem_cons_of_mem part hq))
      · rw [List.length_cons] at hl
        rwa [Nat.add_right_comm]
      · rw [Shape.partBytes_composite] at hrest
        rw [Nat.succ_mul, ← Nat.add_assoc]
        exact hrest
    exact bind_eq_ok_iff.2 ⟨part, helement, bind_eq_ok_iff.2 ⟨parts, hothers, rfl⟩⟩

theorem elements_of_partsAt {s : Span} {d p : UInt16} {count : UInt32} {parts : List (Part Value)}
    (fills : (Shape.list (.composite d p) count).Fills parts)
    (hal : s.start % bytesPerWord = 0)
    (hl : parts.length * (ElementLayout.stride d p * bytesPerWord) ≤ s.length)
    (h : PartsAt a value (.list (.composite d p) count) s.segment s.start parts) :
    collect (a.elementOf value s d p) 0 parts.length = .ok parts := by
  apply collect_elements hal fills.data fills.slots
  · rwa [Nat.zero_add]
  · rwa [Nat.zero_mul, Nat.add_zero]

theorem listParts_of_partsAt {v : ListView} {parts : List (Part Value)}
    (fills : (Shape.list v.layout v.count).Fills parts) (hal : v.elements.start % bytesPerWord = 0)
    (hl : parts.length * (Shape.list v.layout v.count).partBytes ≤ v.elements.length)
    (h : PartsAt a value (.list v.layout v.count) v.elements.segment v.elements.start parts) :
    a.listParts value v = .ok parts := by
  obtain ⟨s, l, count⟩ := v
  rcases l.trichotomy with rfl | ⟨d, p, rfl⟩ | hbare
  · obtain ⟨part, rfl⟩ := List.length_eq_one_iff.1 fills.count
    have hd := List.eq_nil_of_length_eq_zero (fills.data part List.mem_cons_self)
    have hs : part.slots.length = count.toNat := fills.slots part List.mem_cons_self
    refine bind_eq_ok_iff.2 ⟨part.slots, ?_, by rw [← hd]; rfl⟩
    rw [← hs]
    refine slotsOf_of_slotsAt ?_ h.2.1
    have hbytes : (Shape.list .pointer count).partBytes = count.toNat * bytesPerWord :=
      Nat.zero_add _
    have hl : 1 * (Shape.list .pointer count).partBytes ≤ s.length := hl
    rw [hs]
    rwa [Nat.one_mul, hbytes] at hl
  · have hcount : parts.length = count.toNat := fills.count
    rw [listParts, ← hcount]
    refine elements_of_partsAt fills hal ?_ h
    rwa [ElementLayout.stride, Nat.add_mul]
  · obtain ⟨part, rfl⟩ := List.length_eq_one_iff.1
      (fills.count.trans (Shape.partCount_bare hbare count))
    have hd := fills.data part List.mem_cons_self
    have hs := fills.slots part List.mem_cons_self
    rw [Shape.payloadBytes_bare hbare] at hd
    rw [Shape.pointerWords_bare hbare] at hs
    rw [listParts_bare hbare]
    refine bind_eq_ok_iff.2 ⟨part.data, ?_, by rw [← List.eq_nil_of_length_eq_zero hs]⟩
    rw [← hd]
    refine dataOf_of_read ?_ h.1
    rw [hd]
    rw [Shape.partBytes, Shape.dataBytes_bare hbare, Shape.pointerWords_bare hbare, Nat.zero_mul,
      List.length_singleton, Nat.one_mul] at hl
    exact (l.payloadBytes_le_storageBytes count).trans hl

section Target

variable {parts : List (Part Value)} {region : Span} (hal : region.start % bytesPerWord = 0)
include hal

theorem partOf_of_partsAt {d p : Nat} (fills : (Shape.struct d p).Fills parts)
    (h : PartsAt a value (.struct d p) region.segment region.start parts) :
    ∃ part, parts = [part] ∧ a.partOf value (.ofRegion region d p) d p = .ok part := by
  obtain ⟨part, rfl⟩ := List.length_eq_one_iff.1 fills.count
  exact ⟨part, rfl, partOf_ofRegion_of_slotsAt hal (fills.data part List.mem_cons_self)
    (fills.slots part List.mem_cons_self) h.1 h.2.1⟩

theorem listParts_of_footprint {l : ElementLayout} {count : UInt32}
    (fills : (Shape.list l count).Fills parts) (hl : region.length = (Shape.list l count).footprint)
    (h : PartsAt a value (.list l count) region.segment
      (region.start + (Shape.list l count).headerBytes) parts) :
    a.listParts value ⟨(Shape.list l count).body region, l, count⟩ = .ok parts := by
  refine listParts_of_partsAt fills ?_ ?_ h
  · rw [Shape.body, Nat.add_mod, hal, (Shape.list l count).headerBytes_mod]
    rfl
  · rw [fills.count]
    exact (Shape.length_body hl).ge

variable {shape : Shape} (fills : shape.Fills parts) (hl : region.length = shape.footprint)
  (h : PartsAt a value shape region.segment (region.start + shape.headerBytes) parts)
include fills hl h

theorem targetOf_target : a.targetOf value (shape.target region) = .ok (.object shape parts) := by
  cases shape with
  | struct d p =>
    have hd : d * bytesPerWord / bytesPerWord = d := Nat.mul_div_cancel d (by decide)
    have hp : p * bytesPerWord / bytesPerWord = p := Nat.mul_div_cancel p (by decide)
    obtain ⟨part, rfl, hpart⟩ := partOf_of_partsAt hal fills h
    simp only [Shape.target, targetOf, StructView.ofRegion, hd, hp] at hpart ⊢
    exact bind_eq_ok_iff.2 ⟨part, hpart, rfl⟩
  | list l count =>
    exact bind_eq_ok_iff.2 ⟨parts, listParts_of_footprint hal fills hl h, rfl⟩

end Target

theorem validate_target {l : ElementLayout} {count : UInt32} {region : Span}
    (hl : region.length = (Shape.list l count).footprint) :
    ListView.validate ⟨(Shape.list l count).body region, l, count⟩ = .ok () := by
  refine if_neg (Nat.not_lt.2 ?_)
  rw [Shape.length_body hl, Shape.partCount_mul_partBytes]
  exact l.payloadBytes_le_storageBytes count

/-- An object in a region of its footprint is described in full. -/
theorem describe_target {limit : Nat} {shape : Shape} {parts : List (Part Value)} {region : Span}
    (hal : region.start % bytesPerWord = 0) (fills : shape.Fills parts)
    (hl : region.length = shape.footprint) (hb : checkBlock shape.footprint = .ok ())
    (h : PartsAt a (a.valueAt limit limit) shape region.segment
      (region.start + shape.headerBytes) parts) :
    a.describe limit (shape.target region).descriptor = .ok (.object shape parts) := by
  cases shape with
  | struct d p =>
    obtain ⟨part, rfl, hpart⟩ := partOf_of_partsAt hal fills h
    have hwords (n : Nat) : n * bytesPerWord / bytesPerWord = n := Nat.mul_div_cancel n (by decide)
    refine bind_eq_ok_iff.2 ⟨d, Span.wordCount_eq_ok_iff.2 ⟨⟨Nat.mul_mod_left _ _, hal⟩,
      (hwords d).symm⟩, bind_eq_ok_iff.2 ⟨p, Span.wordCount_eq_ok_iff.2
        ⟨⟨Nat.mul_mod_left _ _, ?_⟩, (hwords p).symm⟩, bind_eq_ok_iff.2 ⟨(), ?_,
          bind_eq_ok_iff.2 ⟨part, hpart, rfl⟩⟩⟩⟩
    · exact (Nat.add_mul_mod_self_right _ _ _).trans hal
    · rw [← footprint_struct]
      exact hb
  | list l count =>
    exact bind_eq_ok_iff.2 ⟨(), validate_target hl,
      bind_eq_ok_iff.2 ⟨parts, listParts_of_footprint hal fills hl h, rfl⟩⟩

end Arena

end FrozenDefaults
