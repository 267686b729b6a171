import FrozenDefaults.Proofs.Fits

/-!
# Links

A link is the pointer of a shape with an offset set. It leads to the object that
was put where the offset says, directly or from a landing pad, as long as the
words are near enough for the fields of a pointer.
-/

namespace FrozenDefaults

namespace ElementLayout

theorem composite_or (l : ElementLayout) : (∃ d p, l = .composite d p) ∨ l.size ≠ .composite := by
  cases l with
  | composite d p => exact .inl ⟨d, p, rfl⟩
  | _ => exact .inr (by decide)

end ElementLayout

namespace Shape

variable {shape : Shape}

section Plain

variable {l : ElementLayout} (h : l.size ≠ .composite) (count : UInt32)
include h

theorem headerBytes_plain : headerBytes (.list l count) = 0 := by
  cases l with
  | composite d p => exact absurd rfl h
  | _ => rfl

theorem pointer_plain : pointer (.list l count) = Pointer.ofList 0 l.size count := by
  cases l with
  | composite d p => exact absurd rfl h
  | _ => rfl

theorem linkable_plain : Linkable (.list l count) ↔ count.toNat < 2 ^ 29 := by
  cases l with
  | composite d p => exact absurd rfl h
  | _ => rfl

end Plain

theorem pointer_struct (d p : Nat) (offset : Int) :
    Pointer.withOffset (pointer (.struct d p)) offset =
      Pointer.ofStruct offset (UInt16.ofNat d) (UInt16.ofNat p) :=
  Pointer.withOffset_ofStruct offset

theorem pointer_list (l : ElementLayout) (count : UInt32) : ∃ n, ∀ offset,
    Pointer.withOffset (pointer (.list l count)) offset = Pointer.ofList offset l.size n :=
  ⟨_, Pointer.withOffset_ofList⟩

theorem pointer_composite {d p : UInt16} {count : UInt32}
    (h : Linkable (.list (.composite d p) count)) :
    ∃ n : UInt32, n.toNat = ElementLayout.stride d p * count.toNat ∧
      pointer (.list (.composite d p) count) = Pointer.ofList 0 .composite n := by
  refine ⟨_, ?_, rfl⟩
  rw [storageBytes_composite, ← Nat.mul_assoc, Nat.mul_div_cancel _ (by decide), Nat.mul_comm,
    UInt32.toNat_ofNat_of_lt' (h.2.trans (by decide))]

theorem kind_link (shape : Shape) (offset : Int) :
    Pointer.kind (Pointer.withOffset shape.pointer offset) = .struct ∨
      Pointer.kind (Pointer.withOffset shape.pointer offset) = .list := by
  cases shape with
  | struct d p =>
    rw [pointer_struct]
    exact .inl Pointer.kind_ofStruct
  | list l count =>
    obtain ⟨n, hn⟩ := pointer_list l count
    rw [hn]
    exact .inr Pointer.kind_ofList

theorem offset_link (shape : Shape) {offset : Int} (h : -2 ^ 29 ≤ offset) (h' : offset < 2 ^ 29) :
    Pointer.offset (Pointer.withOffset shape.pointer offset) = offset := by
  cases shape with
  | struct d p => rw [pointer_struct, Pointer.offset_ofStruct h h']
  | list l count =>
    obtain ⟨n, hn⟩ := pointer_list l count
    rw [hn, Pointer.offset_ofList h h']

theorem isNull_link (hl : shape.Linkable) (hs : shape ≠ .struct 0 0) (offset : Int) :
    Pointer.isNull (Pointer.withOffset shape.pointer offset) = false := by
  cases shape with
  | struct d p =>
    rw [pointer_struct, Pointer.isNull, beq_eq_false_iff_ne]
    intro he
    have hd := congrArg (fun w => (Pointer.dataWords w).toNat) he
    have hp := congrArg (fun w => (Pointer.pointerWords w).toNat) he
    simp only [Pointer.dataWords_ofStruct, Pointer.pointerWords_ofStruct] at hd hp
    rw [UInt16.toNat_ofNat_of_lt' hl.1] at hd
    rw [UInt16.toNat_ofNat_of_lt' hl.2] at hp
    exact hs (by rw [hd, hp]; rfl)
  | list l count =>
    obtain ⟨n, hn⟩ := pointer_list l count
    rw [hn]
    exact Pointer.isNull_eq_false_of_kind (by rw [Pointer.kind_ofList]; decide)

end Shape

namespace Arena

variable {a : Arena} {shape : Shape} {content : Span}

/-- The tag word in front of a composite list. -/
def TagAt (a : Arena) : Shape → Span → Prop
  | .list (.composite d p) count, region =>
    a.readWord region.segment region.startWord = .ok (Pointer.ofTag count d p)
  | _, _ => True

theorem startWord_mul {s : Span} (h : s.start % bytesPerWord = 0) :
    s.startWord * bytesPerWord = s.start := Nat.div_mul_cancel (Nat.dvd_of_mod_eq_zero h)

section Object

variable (hal : content.start % bytesPerWord = 0) (hl : content.length = shape.footprint)
  (hh : a.Holds content) (hlink : shape.Linkable)
include hal hl hh hlink

theorem objectAt_link_struct {d p : Nat} (hs : shape = .struct d p) (offset : Int) :
    a.objectAt ⟨Pointer.withOffset shape.pointer offset, content.segment, content.startWord⟩ =
      .ok (shape.target content) := by
  subst hs
  rw [Shape.pointer_struct, objectAt_struct Pointer.kind_ofStruct _ _, map_eq_ok_iff]
  have hlen : d * bytesPerWord + p * bytesPerWord = content.length := by
    rw [hl, Shape.footprint]
    exact (Nat.zero_add _).symm.trans (congrArg _ (Nat.one_mul _).symm)
  have hspan : structSpan ⟨Pointer.ofStruct offset (UInt16.ofNat d) (UInt16.ofNat p),
      content.segment, content.startWord⟩ = content := by
    rw [structSpan, startWord_mul hal, Pointer.dataWords_ofStruct, Pointer.pointerWords_ofStruct,
      UInt16.toNat_ofNat_of_lt' hlink.1, UInt16.toNat_ofNat_of_lt' hlink.2, Nat.add_mul, hlen]
  refine ⟨.ofRegion content d p, structAt_eq_ok_iff.2 ?_, rfl⟩
  rw [hspan]
  refine ⟨hh, ?_⟩
  rw [Pointer.dataWords_ofStruct, Pointer.pointerWords_ofStruct,
    UInt16.toNat_ofNat_of_lt' hlink.1, UInt16.toNat_ofNat_of_lt' hlink.2]

theorem objectAt_link_plain {l : ElementLayout} {count : UInt32} (hs : shape = .list l count)
    (hc : l.size ≠ .composite) (offset : Int) :
    a.objectAt ⟨Pointer.withOffset shape.pointer offset, content.segment, content.startWord⟩ =
      .ok (shape.target content) := by
  subst hs
  have hcount := (Shape.linkable_plain hc count).1 hlink
  have hsize := ElementLayout.ofSize?_size hc
  have hhead := Shape.headerBytes_plain hc count
  rw [Shape.pointer_plain hc, Pointer.withOffset_ofList, objectAt_list Pointer.kind_ofList _ _,
    map_eq_ok_iff]
  have hspan : bareSpan ⟨Pointer.ofList offset l.size count, content.segment, content.startWord⟩ l =
      content := by
    rw [bareSpan, startWord_mul hal, Pointer.elementCount_ofList hcount,
      ← Shape.partCount_mul_partBytes]
    rw [Shape.footprint, hhead, Nat.zero_add] at hl
    rw [← hl]
  refine ⟨_, (listAt_bare (by rw [Pointer.elementSize_ofList]; exact hsize)).2 ⟨?_, rfl⟩, ?_⟩
  · rw [hspan]
    exact hh
  · rw [hspan, Pointer.elementCount_ofList hcount, Shape.target, Shape.body, hhead]
    rfl

theorem objectAt_link_composite {d p : UInt16} {count : UInt32}
    (hs : shape = .list (.composite d p) count) (htag : a.TagAt shape content) (offset : Int) :
    a.objectAt ⟨Pointer.withOffset shape.pointer offset, content.segment, content.startWord⟩ =
      .ok (shape.target content) := by
  subst hs
  obtain ⟨n, hn, hp⟩ := Shape.pointer_composite hlink
  have hcount : count.toNat < 2 ^ 30 := hlink.1
  have hn29 : n.toNat < 2 ^ 29 := hn.trans_lt hlink.2
  have hlen : content.length = bytesPerWord + n.toNat * bytesPerWord := by
    rw [hl, Shape.footprint, Shape.partCount_mul_partBytes, Shape.storageBytes_composite,
      ← Nat.mul_assoc, Nat.mul_comm count.toNat, hn]
    rfl
  rw [TagAt, Pointer.ofTag_eq_ofStruct hcount] at htag
  rw [hp, Pointer.withOffset_ofList, objectAt_list Pointer.kind_ofList _ _,
    listAt_composite (by rw [Pointer.elementSize_ofList]; rfl), map_eq_ok_iff]
  have hspan : compositeSpan ⟨Pointer.ofList offset .composite n, content.segment,
      content.startWord⟩ =
      ⟨content.segment, content.start + bytesPerWord, content.length - bytesPerWord⟩ := by
    rw [compositeSpan, Pointer.elementCount_ofList hn29, Nat.succ_mul, startWord_mul hal, hlen,
      Nat.add_sub_cancel_left]
  refine ⟨_, compositeAt_eq_ok_iff.2 ⟨_, htag, Pointer.kind_ofStruct, ?_, ?_, rfl⟩, ?_⟩
  · rw [Pointer.elementCount_ofList hn29, hn, Pointer.dataWords_ofStruct,
      Pointer.pointerWords_ofStruct, Pointer.tagCount_ofStruct hcount]
  · rw [hspan]
    have hstop := hh.2
    refine ⟨hh.1, ?_⟩
    simp only [Span.stop] at hstop ⊢
    omega
  · rw [hspan, Pointer.dataWords_ofStruct, Pointer.pointerWords_ofStruct,
      Pointer.tagCount_ofStruct hcount]
    rfl

/-- A word that describes a shape stands for the object it was put in front of. -/
theorem objectAt_link (htag : a.TagAt shape content) (offset : Int) :
    a.objectAt ⟨Pointer.withOffset shape.pointer offset, content.segment, content.startWord⟩ =
      .ok (shape.target content) := by
  cases hs : shape with
  | struct d p => exact hs ▸ objectAt_link_struct hal hl hh hlink hs offset
  | list l count =>
    rcases l.composite_or with ⟨d, p, rfl⟩ | hc
    · exact hs ▸ objectAt_link_composite hal hl hh hlink hs htag offset
    · exact hs ▸ objectAt_link_plain hal hl hh hlink hs hc offset

theorem follow_near {word : Nat} (htag : a.TagAt shape content) (hw : word < 2 ^ 29)
    (hc : content.startWord < 2 ^ 29) :
    a.follow content.segment word
      (Pointer.withOffset shape.pointer (content.startWord - word - 1)) =
      .ok (shape.target content) := by
  refine bind_eq_ok_iff.2 ⟨_, place_near (shape.kind_link _) _ (Pointer.target?_of_offset
    (shape.offset_link (by omega) (by omega)) (by omega)),
    objectAt_link hal hl hh hlink htag _⟩

theorem follow_far {pad segment word : Nat} (htag : a.TagAt shape content)
    (hpad : a.readWord content.segment pad = .ok (Pointer.withOffset shape.pointer 0))
    (hp : pad < 2 ^ 29) (hs : content.segment < 2 ^ 32) (hc : content.startWord = pad + 1) :
    a.follow segment word (Pointer.ofFar false pad (UInt32.ofNat content.segment)) =
      .ok (shape.target content) := by
  have hseg : Pointer.segment (Pointer.ofFar false pad (UInt32.ofNat content.segment)) =
      content.segment := by
    rw [Pointer.segment_ofFar, UInt32.toNat_ofNat_of_lt' hs]
  have hword : Pointer.padWord (Pointer.ofFar false pad (UInt32.ofNat content.segment)) = pad :=
    Pointer.padWord_ofFar hp
  have hoff : Pointer.offset (Pointer.withOffset shape.pointer 0) = 0 :=
    shape.offset_link (by omega) (by omega)
  refine bind_eq_ok_iff.2 ⟨⟨_, content.segment, content.startWord⟩, ?_,
    objectAt_link hal hl hh hlink htag 0⟩
  have ht : Pointer.target? (Pointer.withOffset shape.pointer 0) pad = some (pad + 1) :=
    Pointer.target?_of_offset (by rw [hoff]; omega) (by omega)
  rw [place_far Pointer.kind_ofFar Pointer.isDouble_ofFar (by rw [hseg, hword]; exact hpad)
    (shape.kind_link 0) segment word (by rw [hword]; exact ht), hseg, hc]

end Object

end Arena

end FrozenDefaults
