import FrozenDefaults.Proofs.Codec
import FrozenDefaults.Proofs.Resolution
import FrozenDefaults.Proofs.Store

/-!
# Values that fit their pointers

`Value.Fits room v` says that `v` nests at most `room` pointers deep, that the
parts of every object fill its shape, and that every shape can be written into
the fields of a pointer word. What is read from an arena always fits.
-/

namespace FrozenDefaults

namespace Shape

/-- The fields of a pointer, or of a tag word, can hold the shape. -/
def Linkable : Shape → Prop
  | .struct d p => d < 2 ^ 16 ∧ p < 2 ^ 16
  | .list (.composite d p) count =>
    count.toNat < 2 ^ 30 ∧ ElementLayout.stride d p * count.toNat < 2 ^ 29
  | .list _ count => count.toNat < 2 ^ 29

structure Fills (shape : Shape) (parts : List (Part Value)) : Prop where
  count : parts.length = shape.partCount
  data : ∀ part ∈ parts, part.data.length = shape.payloadBytes
  slots : ∀ part ∈ parts, part.slots.length = shape.pointerWords

/-- A part of an object of this shape has room for the part. -/
structure Admits (shape : Shape) (part : Part Value) : Prop where
  data : part.data.length ≤ shape.dataBytes
  slots : part.slots.length ≤ shape.pointerWords

theorem payloadBytes_le_dataBytes (shape : Shape) : shape.payloadBytes ≤ shape.dataBytes := by
  cases shape with
  | struct d p => exact Nat.le_refl _
  | list l count =>
    rcases l.trichotomy with rfl | ⟨d, p, rfl⟩ | hl
    · exact Nat.le_refl _
    · exact Nat.le_refl _
    · rw [payloadBytes_bare hl, dataBytes_bare hl]
      exact l.payloadBytes_le_storageBytes count

theorem Fills.admits {shape : Shape} {parts : List (Part Value)} (h : shape.Fills parts)
    {part : Part Value} (hp : part ∈ parts) : shape.Admits part :=
  ⟨(h.data part hp).trans_le shape.payloadBytes_le_dataBytes, (h.slots part hp).le⟩

theorem fills_singleton {shape : Shape} {part : Part Value} (hc : shape.partCount = 1)
    (hd : part.data.length = shape.payloadBytes) (hs : part.slots.length = shape.pointerWords) :
    shape.Fills [part] where
  count := hc.symm
  data q hq := by rw [List.mem_singleton.1 hq, hd]
  slots q hq := by rw [List.mem_singleton.1 hq, hs]

theorem dataBytes_mod (shape : Shape) : shape.dataBytes % bytesPerWord = 0 := by
  cases shape with
  | struct d p => exact Nat.mul_mod_left _ _
  | list l count =>
    rcases l.trichotomy with rfl | ⟨d, p, rfl⟩ | hl
    · rfl
    · exact Nat.mul_mod_left _ _
    · rw [dataBytes_bare hl]
      exact roundUp_mod _

theorem partBytes_mod (shape : Shape) : shape.partBytes % bytesPerWord = 0 := by
  have h := shape.dataBytes_mod
  simp only [partBytes, bytesPerWord] at h ⊢
  omega

theorem headerBytes_mod (shape : Shape) : shape.headerBytes % bytesPerWord = 0 := by
  unfold headerBytes
  split <;> rfl

theorem footprint_mod (shape : Shape) : shape.footprint % bytesPerWord = 0 := by
  have h := shape.headerBytes_mod
  have hp := Nat.dvd_of_mod_eq_zero shape.partBytes_mod
  rw [footprint, Nat.add_mod, h, Nat.mod_eq_zero_of_dvd (hp.mul_left _)]
  rfl

/-- There can always be a block for a list. -/
theorem checkBlock_list (l : ElementLayout) (count : UInt32) :
    Arena.checkBlock (list l count).footprint = .ok () := by
  have hheader : (list l count).headerBytes ≤ bytesPerWord := by
    cases l <;> first | exact Nat.le_refl _ | exact Nat.zero_le _
  have hle : (list l count).footprint ≤ bytesPerWord + 2 ^ 52 := by
    rw [footprint, partCount_mul_partBytes]
    exact Nat.add_le_add hheader (l.storageBytes_le count)
  exact Arena.checkBlock_of_words (footprint_mod _) (hle.trans (by decide))

theorem length_body {shape : Shape} {region : Span} (h : region.length = shape.footprint) :
    (shape.body region).length = shape.partCount * shape.partBytes := by
  rw [body, h, footprint, Nat.add_sub_cancel_left]

end Shape

inductive Value.Fits : (room : Nat) → Value → Prop
  | null {room : Nat} : Fits room .null
  | object {room : Nat} {shape : Shape} {parts : List (Part Value)} (linkable : shape.Linkable)
      (fills : shape.Fills parts) (slots : ∀ part ∈ parts, ∀ v ∈ part.slots, Fits room v) :
      Fits (room + 1) (.object shape parts)

theorem collect_eq_ok {α : Type} {step : Nat → Except Fault α} {first count : Nat} {xs : List α}
    (h : collect step first count = .ok xs) :
    xs.length = count ∧ ∀ x ∈ xs, ∃ i, first ≤ i ∧ i < first + count ∧ step i = .ok x := by
  induction count generalizing first xs with
  | zero =>
    obtain rfl : [] = xs := Except.ok.inj h
    exact ⟨rfl, fun x hx => absurd hx List.not_mem_nil⟩
  | succ count ih =>
    obtain ⟨x, hx, h⟩ := bind_eq_ok_iff.1 h
    obtain ⟨ys, hys, h⟩ := bind_eq_ok_iff.1 h
    obtain rfl : x :: ys = xs := Except.ok.inj h
    obtain ⟨hl, hm⟩ := ih hys
    refine ⟨by rw [List.length_cons, hl], fun y hy => ?_⟩
    rcases List.mem_cons.1 hy with rfl | hy
    · exact ⟨first, Nat.le_refl _, by omega, hx⟩
    · obtain ⟨i, hi, hi', hs⟩ := hm y hy
      exact ⟨i, by omega, by omega, hs⟩

theorem collect_const {α : Type} {step : Nat → Except Fault α} {x : α} (h : ∀ i, step i = .ok x)
    (first count : Nat) : collect step first count = .ok (List.replicate count x) := by
  induction count generalizing first with
  | zero => rfl
  | succ count ih => exact bind_eq_ok_iff.2 ⟨x, h first, bind_eq_ok_iff.2 ⟨_, ih (first + 1), rfl⟩⟩

namespace Arena

variable {a : Arena} {value : Span → Except Fault Value}

theorem length_dataOf {s : Span} {n : Nat} {bs : List UInt8} (h : a.dataOf s n = .ok bs) :
    bs.length = n := by
  rw [dataOf] at h
  split at h
  · obtain ⟨t, ht, h⟩ := bind_eq_ok_iff.1 h
    rw [(read_eq_ok_iff.1 h).2.1, (Span.part_eq_ok_iff.1 ht).2]
  · obtain rfl : [] = bs := Except.ok.inj h
    simp only [List.length_nil]
    omega

theorem slotsOf_eq_ok {s : Span} {count : Nat} {vs : List Value}
    (h : slotsOf value s count = .ok vs) :
    vs.length = count ∧ ∀ v ∈ vs, ∃ t, value t = .ok v := by
  obtain ⟨hl, hm⟩ := collect_eq_ok h
  refine ⟨hl, fun v hv => ?_⟩
  obtain ⟨i, _, _, hs⟩ := hm v hv
  obtain ⟨t, _, ht⟩ := bind_eq_ok_iff.1 hs
  exact ⟨t, ht⟩

theorem partOf_eq_ok {v : StructView} {d p : Nat} {part : Part Value}
    (h : a.partOf value v d p = .ok part) : v.pointers.Aligned ∧
      part.data.length = min v.data.length (d * bytesPerWord) ∧
      part.slots.length = min (v.pointers.length / bytesPerWord) p ∧
      ∀ w ∈ part.slots, ∃ t, value t = .ok w := by
  obtain ⟨data, hdata, h⟩ := bind_eq_ok_iff.1 h
  obtain ⟨there, hthere, h⟩ := bind_eq_ok_iff.1 h
  obtain ⟨vs, hvs, h⟩ := bind_eq_ok_iff.1 h
  obtain rfl : ⟨data, vs⟩ = part := Except.ok.inj h
  obtain ⟨hal, rfl⟩ := Span.wordCount_eq_ok_iff.1 hthere
  obtain ⟨hl, hm⟩ := slotsOf_eq_ok hvs
  exact ⟨hal, length_dataOf hdata, hl, hm⟩

theorem partOf_ofRegion {region : Span} {d p : Nat} {part : Part Value}
    (h : a.partOf value (.ofRegion region d p) d p = .ok part) :
    part.data.length = d * bytesPerWord ∧ part.slots.length = p ∧
      ∀ w ∈ part.slots, ∃ t, value t = .ok w := by
  obtain ⟨_, hd, hp, hm⟩ := partOf_eq_ok h
  have hwords : (StructView.ofRegion region d p).pointers.length / bytesPerWord = p :=
    Nat.mul_div_cancel p (by decide)
  refine ⟨?_, ?_, hm⟩
  · rw [hd]
    exact Nat.min_self _
  · rw [hp, hwords, Nat.min_self]

theorem elementOf_eq_ok {s : Span} {d p : UInt16} {i : Nat} {part : Part Value}
    (h : a.elementOf value s d p i = .ok part) : part.data.length = d.toNat * bytesPerWord ∧
      part.slots.length = p.toNat ∧ ∀ w ∈ part.slots, ∃ t, value t = .ok w := by
  obtain ⟨_, _, h⟩ := bind_eq_ok_iff.1 h
  exact partOf_ofRegion h

theorem listParts_bare {v : ListView} (h : v.layout.Bare) : a.listParts value v =
    a.dataOf v.elements (v.layout.payloadBytes v.count) >>= fun data => .ok [⟨data, []⟩] := by
  obtain ⟨elements, layout, count⟩ := v
  cases layout <;> first | rfl | cases h

theorem listParts_eq_ok {v : ListView} {parts : List (Part Value)}
    (h : a.listParts value v = .ok parts) :
    (Shape.list v.layout v.count).Fills parts ∧
      ∀ part ∈ parts, ∀ w ∈ part.slots, ∃ t, value t = .ok w := by
  rcases v.layout.trichotomy with hl | ⟨d, p, hl⟩ | hl
  · rw [listParts, hl] at h
    obtain ⟨vs, hvs, h⟩ := bind_eq_ok_iff.1 h
    obtain rfl : [⟨[], vs⟩] = parts := Except.ok.inj h
    obtain ⟨hlen, hm⟩ := slotsOf_eq_ok hvs
    rw [hl]
    refine ⟨⟨rfl, ?_, ?_⟩, ?_⟩ <;> intro part hpart <;> obtain rfl := List.mem_singleton.1 hpart
    · rfl
    · exact hlen
    · exact hm
  · rw [listParts, hl] at h
    obtain ⟨hlen, hm⟩ := collect_eq_ok h
    have hpart (part : Part Value) (hmem : part ∈ parts) :
        part.data.length = d.toNat * bytesPerWord ∧ part.slots.length = p.toNat ∧
          ∀ w ∈ part.slots, ∃ t, value t = .ok w := by
      obtain ⟨i, _, _, hi⟩ := hm part hmem
      exact elementOf_eq_ok hi
    rw [hl]
    exact ⟨⟨hlen, fun part h => (hpart part h).1, fun part h => (hpart part h).2.1⟩,
      fun part h => (hpart part h).2.2⟩
  · rw [listParts_bare hl] at h
    obtain ⟨data, hdata, h⟩ := bind_eq_ok_iff.1 h
    obtain rfl : [⟨data, []⟩] = parts := Except.ok.inj h
    refine ⟨⟨(Shape.partCount_bare hl _).symm, ?_, ?_⟩, ?_⟩ <;> intro part hpart <;>
      obtain rfl := List.mem_singleton.1 hpart
    · rw [Shape.payloadBytes_bare hl]
      exact length_dataOf hdata
    · exact (Shape.pointerWords_bare hl _).symm
    · exact fun w hw => absurd hw List.not_mem_nil

/-- The shape of what a pointer leads to can be written into a pointer again. -/
theorem follow_linkable {segment word : Nat} {p : Word} {t : Target}
    (h : a.follow segment word p = .ok t) :
    (∃ (region : Span) (d p : UInt16), t = .struct (.ofRegion region d.toNat p.toNat) ∧
        region.start % bytesPerWord = 0) ∨
      ∃ v : ListView, t = .list v ∧ (Shape.list v.layout v.count).Linkable := by
  obtain ⟨g, _, h⟩ := bind_eq_ok_iff.1 h
  rcases objectAt_cases h with ⟨v, _, hv, rfl⟩ | ⟨v, _, hv, rfl⟩
  · obtain ⟨_, rfl⟩ := structAt_eq_ok_iff.1 hv
    exact .inl ⟨_, _, _, rfl, Nat.mul_mod_left _ _⟩
  · refine .inr ⟨v, rfl, ?_⟩
    rcases listAt_cases hv with ⟨_, hv⟩ | ⟨l, _, hplain, _, rfl⟩
    · obtain ⟨header, _, _, hw, _, rfl⟩ := compositeAt_eq_ok_iff.1 hv
      exact ⟨Pointer.tagCount_lt header, hw.trans_lt (Pointer.elementCount_lt g.tag)⟩
    · have hc := Pointer.elementCount_lt g.tag
      cases l with
      | composite d p => exact absurd rfl hplain
      | _ => exact hc

theorem targetOf_fits {t : Target} {v : Value} {room segment word : Nat} {p : Word}
    (hf : a.follow segment word p = .ok t) (h : a.targetOf value t = .ok v)
    (hv : ∀ s w, value s = .ok w → w.Fits room) : v.Fits (room + 1) := by
  rcases follow_linkable hf with ⟨region, d, p, rfl, _⟩ | ⟨l, rfl, hlink⟩
  · have hd : d.toNat * bytesPerWord / bytesPerWord = d.toNat := Nat.mul_div_cancel _ (by decide)
    have hp : p.toNat * bytesPerWord / bytesPerWord = p.toNat := Nat.mul_div_cancel _ (by decide)
    obtain ⟨part, hpart, h⟩ := bind_eq_ok_iff.1 h
    obtain rfl : _ = v := Except.ok.inj h
    simp only [StructView.ofRegion, hd, hp] at hpart ⊢
    obtain ⟨hdata, hslots, hm⟩ := partOf_ofRegion hpart
    refine .object ⟨d.toNat_lt, p.toNat_lt⟩ (Shape.fills_singleton rfl hdata hslots) ?_
    intro q hq w hw
    rw [List.mem_singleton.1 hq] at hw
    obtain ⟨s, hs⟩ := hm w hw
    exact hv s w hs
  · obtain ⟨parts, hparts, h⟩ := bind_eq_ok_iff.1 h
    obtain rfl : _ = v := Except.ok.inj h
    obtain ⟨hfill, hm⟩ := listParts_eq_ok hparts
    refine .object hlink hfill fun part hpart w hw => ?_
    obtain ⟨s, hs⟩ := hm part hpart w hw
    exact hv s w hs

theorem wordValue_eq_ok_iff {beyond : Word → Except Fault Value} {slot : Span} {v : Value} :
    a.wordValue beyond slot = .ok v ↔ DeepCopy.checkSlot slot = .ok () ∧
      ∃ w, a.readWord slot.segment slot.startWord = .ok w ∧
        (Pointer.isNull w = true ∧ v = .null ∨ Pointer.isNull w = false ∧ beyond w = .ok v) := by
  rw [wordValue, bind_eq_ok_iff]
  constructor
  · rintro ⟨_, hc, h⟩
    obtain ⟨w, hw, h⟩ := bind_eq_ok_iff.1 h
    refine ⟨hc, w, hw, ?_⟩
    cases hn : Pointer.isNull w with
    | true =>
      rw [hn] at h
      exact .inl ⟨rfl, (Except.ok.inj h).symm⟩
    | false =>
      rw [hn] at h
      exact .inr ⟨rfl, h⟩
  · rintro ⟨hc, w, hw, ⟨hn, rfl⟩ | ⟨hn, h⟩⟩
    · exact ⟨(), hc, bind_eq_ok_iff.2 ⟨w, hw, by rw [if_pos hn]; rfl⟩⟩
    · exact ⟨(), hc, bind_eq_ok_iff.2 ⟨w, hw, by rw [if_neg (by rw [hn]; decide)]; exact h⟩⟩

/-- What is read fits the levels it was read through. -/
theorem valueAt_fits {limit room : Nat} {slot : Span} {v : Value}
    (h : a.valueAt limit room slot = .ok v) : v.Fits room := by
  -- Without a level left only null is read.
  induction room generalizing slot v with
  | zero =>
    obtain ⟨_, w, _, ⟨_, rfl⟩ | ⟨_, h⟩⟩ := wordValue_eq_ok_iff.1 h
    · exact .null
    · cases h
  | succ room ih =>
    obtain ⟨_, w, _, ⟨_, rfl⟩ | ⟨_, h⟩⟩ := wordValue_eq_ok_iff.1 h
    · exact .null
    · obtain ⟨t, ht, h⟩ := bind_eq_ok_iff.1 h
      exact targetOf_fits ht h fun _ _ hs => ih hs

end Arena

end FrozenDefaults
