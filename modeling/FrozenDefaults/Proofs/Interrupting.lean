import FrozenDefaults.Proofs.Copying

/-!
# Copies that are broken off

A copy turns to the slots that it writes one after the other. Broken off where it
turns to a slot, it leaves the arena as it is before the object behind that slot
is placed. `Value.writings` lists the slots in which storing a value writes, each
with the arena of that moment, and a copy that is broken off leaves just these
arenas.
-/

namespace FrozenDefaults

open Arena DeepCopy

/-- A slot that is written and the arena before that. -/
structure Writing where
  slot : Span
  moment : Arena

namespace Value

mutual

/-- What `store` writes to slots, in its order. -/
def writings : Value → Span → Arena → List Writing
  | .null, slot, a => [⟨slot, a⟩]
  | .object shape parts, slot, a =>
    ⟨slot, a⟩ ::
      if shape = .struct 0 0 then []
      else
        let placed := a.makeRoom slot shape.footprint
        let content := placed.1.content
        partsWritings shape parts content.segment (content.start + shape.headerBytes) <|
          Arena.putTag shape content placed.2

def partsWritings (shape : Shape) :
    List (Part Value) → (segment start : Nat) → Arena → List Writing
  | [], _, _, _ => []
  | ⟨data, slots⟩ :: parts, segment, start, a =>
    slotsWritings slots segment (start + shape.dataBytes)
        (a.patch ⟨segment, start, data.length⟩ data) ++
      partsWritings shape parts segment (start + shape.partBytes)
        (storePart shape ⟨data, slots⟩ segment start a)

def slotsWritings : List Value → (segment start : Nat) → Arena → List Writing
  | [], _, _, _ => []
  | v :: vs, segment, start, a =>
    writings v ⟨segment, start, bytesPerWord⟩ a ++
      slotsWritings vs segment (start + bytesPerWord) (v.store ⟨segment, start, bytesPerWord⟩ a)

end

end Value

/-- What `Shape.fill` writes to slots. -/
def Shape.writings (shape : Shape) (parts : List (Part Value)) (region : Span) (a : Arena) :
    List Writing :=
  Value.partsWritings shape parts region.segment (region.start + shape.headerBytes)
    (Arena.putTag shape region a)

namespace Value

variable (shape : Shape) (part : Part Value) (parts : List (Part Value)) (segment start : Nat)
  (slot : Span) (a : Arena)

def partWritings : List Writing :=
  slotsWritings part.slots segment (start + shape.dataBytes)
    (a.patch ⟨segment, start, part.data.length⟩ part.data)

theorem writings_emptyStruct : writings (.object (.struct 0 0) parts) slot a = [⟨slot, a⟩] := by
  rw [writings, if_pos rfl]

theorem writings_object {shape : Shape} (h : shape ≠ .struct 0 0) :
    writings (.object shape parts) slot a =
      ⟨slot, a⟩ :: shape.writings parts (a.makeRoom slot shape.footprint).1.content
        (a.makeRoom slot shape.footprint).2 := by
  rw [writings, if_neg h]
  rfl

theorem writings_eq_cons (v : Value) (slot : Span) (a : Arena) :
    v.writings slot a = ⟨slot, a⟩ :: (v.writings slot a).tail := by
  cases v with
  | null => rw [writings, List.tail_cons]
  | object shape parts => rw [writings, List.tail_cons]

theorem partsWritings_cons : partsWritings shape (part :: parts) segment start a =
    partWritings shape part segment start a ++
      partsWritings shape parts segment (start + shape.partBytes)
        (storePart shape part segment start a) := by
  cases part
  rw [partsWritings, partWritings]

theorem partsWritings_singleton : partsWritings shape [part] segment start a =
    partWritings shape part segment start a := by
  rw [partsWritings_cons, partsWritings, List.append_nil]

theorem partsWritings_replicate_nil (n : Nat) :
    partsWritings shape (List.replicate n ⟨[], []⟩) segment start a = [] := by
  induction n generalizing start a with
  | zero => rw [List.replicate_zero, partsWritings]
  | succ n ih =>
    rw [List.replicate_succ, partsWritings_cons, ih, partWritings, slotsWritings]
    rfl

theorem slotsWritings_append (vs ws : List Value) (segment start : Nat) (a : Arena) :
    slotsWritings (vs ++ ws) segment start a = slotsWritings vs segment start a ++
      slotsWritings ws segment (start + vs.length * bytesPerWord)
        (storeSlots vs segment start a) := by
  induction vs generalizing start a with
  | nil => rw [List.nil_append, slotsWritings, storeSlots, List.length_nil, Nat.zero_mul,
      Nat.add_zero, List.nil_append]
  | cons v vs ih =>
    rw [List.cons_append, slotsWritings, slotsWritings, ih, storeSlots, List.append_assoc,
      List.length_cons, Nat.succ_mul, Nat.add_assoc, Nat.add_comm bytesPerWord]

end Value

theorem Shape.writings_struct (d p : Nat) (part : Part Value) (region : Span) (a : Arena) :
    (Shape.struct d p).writings [part] region a =
      Value.partWritings (.struct d p) part region.segment region.start a :=
  Value.partsWritings_singleton _ _ _ _ _

namespace DeepCopy

/-- Copies slots as `copySlot` does, but stops with `f` instead of turning to the slot `halt`. -/
def haltAt (halt : Span) (f : Fault) (copySlot : Span → Span → Building Unit)
    (src slot : Span) : Building Unit :=
  if slot = halt then throw f else copySlot src slot

/-- `copySlot`, broken off where it turns to the slot `halt`. -/
def copySlotBefore (halt : Span) (f : Fault) (source : Arena) (limit : Nat) :
    (room : Nat) → Span → Span → Building Unit
  | 0 => haltAt halt f (copyWord source fun _ _ _ => throw (.tooDeep limit))
  | room + 1 =>
    haltAt halt f (copyWord source (copyTarget source (copySlotBefore halt f source limit room)))

section Copies

variable (source : Arena) (copySlot : Span → Span → Building Unit)

/-- `copyStruct` for any way to copy slots. -/
def copyStructWith (src : StructView) (dataWords pointerWords : Nat) : Building StructView := do
  let region ← Building.alloc ((dataWords + pointerWords) * bytesPerWord)
  let dst := StructView.ofRegion region dataWords pointerWords
  fillStruct source copySlot src dst
  return dst

/-- `copyList` for any way to copy slots. -/
def copyListWith (src : ListView) : Building ListView := do
  liftExcept src.validate
  let region ← Building.alloc (footprint src)
  let dst ← listInRegion src region
  fillList source copySlot src dst
  return dst

end Copies

theorem copyStructWith_copyPointer (source : Arena) (limit : Nat) (src : StructView) (d p : Nat) :
    copyStructWith source (copyPointer source limit) src d p = copyStruct source limit src d p :=
  rfl

theorem copyListWith_copyPointer (source : Arena) (limit : Nat) (src : ListView) :
    copyListWith source (copyPointer source limit) src = copyList source limit src := rfl

end DeepCopy

namespace Building

variable {β γ : Type} {halt : Span} {f : Fault} {m : Building β} {k : β → Building γ}
  {a b c : Arena} {l l' : List Writing} {x : β} {y : γ}

/-- The program stops with `f` before the first of the writings that is in the slot `halt`, and if
there is none it ends with `x` in `b`. -/
def Halts (halt : Span) (f : Fault) (m : Building β) (a : Arena) (l : List Writing) (x : β)
    (b : Arena) : Prop :=
  m a = (l.find? (·.slot = halt)).elim (.ok x, b) fun w => (.error f, w.moment)

namespace Halts

theorem of_run (h : m a = (.ok x, b)) : Halts halt f m a [] x b := h

theorem bind (h : Halts halt f m a l x b) (hk : Halts halt f (k x) b l' y c) :
    Halts halt f (m >>= k) a (l ++ l') y c := by
  unfold Halts at h hk ⊢
  rw [List.find?_append]
  cases hl : l.find? (·.slot = halt) with
  | some w =>
    rw [hl] at h
    exact bind_error h
  | none =>
    rw [hl] at h
    exact (bind_ok h).trans hk

theorem step (h : m a = (.ok x, b)) (hk : Halts halt f (k x) b l y c) :
    Halts halt f (m >>= k) a l y c := (of_run h).bind hk

theorem lift {e : Except Fault β} (he : e = .ok x) (hk : Halts halt f (k x) a l y c) :
    Halts halt f (liftExcept e >>= k) a l y c := step (lift_ok he) hk

theorem before (h : Halts halt f m a l x b) (hk : k x b = (.ok y, c)) :
    Halts halt f (m >>= k) a l y c := by
  rw [← List.append_nil l]
  exact h.bind (of_run hk)

theorem haltAt {copySlot : Span → Span → Building Unit} {src slot : Span}
    (h : slot ≠ halt → Halts halt f (copySlot src slot) a l () b) :
    Halts halt f (haltAt halt f copySlot src slot) a (⟨slot, a⟩ :: l) () b := by
  unfold Halts DeepCopy.haltAt
  by_cases hs : slot = halt
  · have hfind : (⟨slot, a⟩ :: l).find? (·.slot = halt) = some ⟨slot, a⟩ :=
      List.find?_cons_of_pos (by simpa using hs)
    rw [if_pos hs, hfind]
    rfl
  · have hfind : (⟨slot, a⟩ :: l).find? (·.slot = halt) = l.find? (·.slot = halt) :=
      List.find?_cons_of_neg (by simpa using hs)
    rw [if_neg hs, hfind]
    exact h hs

theorem exists_writing (h : Halts halt f m a l x b) (hm : m a = (.error f, c)) :
    ∃ w ∈ l, w.slot = halt ∧ w.moment = c := by
  unfold Halts at h
  cases hl : l.find? (·.slot = halt) with
  | some w =>
    rw [hl] at h
    have hslot : w.slot = halt := by simpa using List.find?_some hl
    exact ⟨w, List.mem_of_find?_eq_some hl, hslot, (Prod.mk.inj (h.symm.trans hm)).2⟩
  | none =>
    rw [hl] at h
    cases h.symm.trans hm

end Halts

end Building

open Building (Halts)

/-- Every slot is copied as its value is stored, and the copy is broken off before that value is
written to the slot `halt`. -/
def HaltsSlots (halt : Span) (f : Fault) (value : Span → Except Fault Value)
    (copySlot : Span → Span → Building Unit) : Prop :=
  ∀ (src slot : Span) (a : Arena) (v : Value), a.Sound → a.HasSlot slot → value src = .ok v →
    Halts halt f (copySlot src slot) a (v.writings slot a) () (v.store slot a)

namespace HaltsSlots

variable {source a : Arena} {halt : Span} {f : Fault} {value : Span → Except Fault Value}
  {copySlot : Span → Span → Building Unit} {src dst : Span} (hc : HaltsSlots halt f value copySlot)
include hc

theorem fillSlotsFrom {first count : Nat} {vs : List Value} (ha : a.Sound)
    (hdst : a.HasRegion dst ((first + count) * bytesPerWord))
    (hvs : collect (fun i => src.word i >>= value) first count = .ok vs) :
    Halts halt f (forIndices (fun i => do
        copySlot (← liftExcept (src.word i)) (← liftExcept (dst.word i))) first count) a
      (Value.slotsWritings vs dst.segment (dst.start + first * bytesPerWord) a) ()
      (Value.storeSlots vs dst.segment (dst.start + first * bytesPerWord) a) := by
  induction count generalizing first vs a with
  | zero =>
    obtain rfl : [] = vs := Except.ok.inj hvs
    rw [Value.slotsWritings, Value.storeSlots]
    exact .of_run rfl
  | succ count ih =>
    obtain ⟨v, hv, hvs⟩ := bind_eq_ok_iff.1 hvs
    obtain ⟨ws, hws, hvs⟩ := bind_eq_ok_iff.1 hvs
    obtain rfl : v :: ws = vs := Except.ok.inj hvs
    obtain ⟨s, hs, hv⟩ := bind_eq_ok_iff.1 hv
    have hslot := hdst.slot (i := first) (Nat.mul_le_mul_right _ (by omega))
    have hword : dst.word first = .ok ⟨dst.segment, dst.start + first * bytesPerWord,
        bytesPerWord⟩ := by
      refine Span.part_eq_ok ((Nat.succ_mul _ _).symm.trans_le ?_)
      exact (Nat.mul_le_mul_right _ (by omega)).trans hdst.length
    have hev := v.evolves_store ⟨dst.segment, dst.start + first * bytesPerWord, bytesPerWord⟩ a
    have hrest := ih (hev.sound ha) (by rw [Nat.add_right_comm]; exact hdst.evolves hev) hws
    rw [Nat.succ_mul, ← Nat.add_assoc] at hrest
    rw [Value.slotsWritings, Value.storeSlots]
    exact .bind (.lift hs (.lift hword (hc s _ a v ha hslot hv))) hrest

theorem fillSlots {count : Nat} {vs : List Value} (ha : a.Sound)
    (hdst : a.HasRegion dst (count * bytesPerWord)) (hvs : slotsOf value src count = .ok vs) :
    Halts halt f (DeepCopy.fillSlots copySlot src dst count) a
      (Value.slotsWritings vs dst.segment dst.start a) ()
      (Value.storeSlots vs dst.segment dst.start a) := by
  have hall : a.HasRegion dst ((0 + count) * bytesPerWord) := by rwa [Nat.zero_add]
  have h := hc.fillSlotsFrom ha hall hvs
  rwa [Nat.zero_mul, Nat.add_zero] at h

theorem fillStruct {v : StructView} {region : Span} {d p : Nat} {part : Part Value}
    (shape : Shape) (hd : shape.dataBytes = d * bytesPerWord) (ha : a.Sound)
    (hdst : a.HasRegion region ((d + p) * bytesPerWord))
    (hpart : source.partOf value v d p = .ok part) :
    Halts halt f (DeepCopy.fillStruct source copySlot v (.ofRegion region d p)) a
      (Value.partWritings shape part region.segment region.start a) ()
      (Value.storePart shape part region.segment region.start a) := by
  obtain ⟨data, hdata, hpart⟩ := bind_eq_ok_iff.1 hpart
  obtain ⟨there, hthere, hpart⟩ := bind_eq_ok_iff.1 hpart
  obtain ⟨vs, hvs, hpart⟩ := bind_eq_ok_iff.1 hpart
  obtain rfl : ⟨data, vs⟩ = part := Except.ok.inj hpart
  rw [Nat.add_mul] at hdst
  have hbytes := hdst.part 0 (d * bytesPerWord) (by omega) rfl
  have hin : a.HasRegion (StructView.ofRegion region d p).data
      (min v.data.length (d * bytesPerWord)) :=
    ⟨hbytes.holds, Nat.min_le_right _ _, hbytes.aligned⟩
  have hfill := (CopiesSlots.fillBytes hin).ok data hdata
  have hev := a.evolves_patch ⟨region.segment, region.start, data.length⟩ data
  have hslots := (hdst.part (d * bytesPerWord) (p * bytesPerWord) (Nat.le_refl _)
    (Nat.mul_mod_left _ _)).evolves hev
  have hhere : (StructView.ofRegion region d p).pointers.wordCount = .ok p :=
    Span.wordCount_eq_ok_iff.2 ⟨⟨Nat.mul_mod_left _ _, hslots.aligned⟩,
      (Nat.mul_div_cancel p (by decide)).symm⟩
  have hcount : min there p * bytesPerWord ≤ p * bytesPerWord :=
    Nat.mul_le_mul_right _ (Nat.min_le_right _ _)
  have hrest := hc.fillSlots (hev.sound ha) ⟨hslots.holds, hcount, hslots.aligned⟩ hvs
  rw [Value.partWritings, Value.storePart, hd]
  exact .step hfill (.lift hthere (.lift hhere hrest))

variable {d p : UInt16} (count : UInt32)

theorem fillElement {i n : Nat} {part : Part Value} (ha : a.Sound)
    (hdst : a.HasRegion dst (n * (ElementLayout.stride d p * bytesPerWord))) (hi : i < n)
    (hpart : source.elementOf value src d p i = .ok part) :
    Halts halt f (DeepCopy.fillElement source copySlot src dst d p i) a
      (Value.partWritings (.list (.composite d p) count) part dst.segment
        (dst.start + i * (ElementLayout.stride d p * bytesPerWord)) a) ()
      (Value.storePart (.list (.composite d p) count) part dst.segment
        (dst.start + i * (ElementLayout.stride d p * bytesPerWord)) a) := by
  obtain ⟨there, hthere, hpart⟩ := bind_eq_ok_iff.1 hpart
  have hle : i * (ElementLayout.stride d p * bytesPerWord) +
      ElementLayout.stride d p * bytesPerWord ≤ n * (ElementLayout.stride d p * bytesPerWord) :=
    (Nat.succ_mul _ _).symm.trans_le (Nat.mul_le_mul_right _ hi)
  have hmod : i * (ElementLayout.stride d p * bytesPerWord) % bytesPerWord = 0 := by
    rw [← Nat.mul_assoc]
    exact Nat.mul_mod_left _ _
  have hhere := Span.part_eq_ok (hle.trans hdst.length)
  exact .lift hthere (.lift hhere
    (hc.fillStruct (.list (.composite d p) count) rfl ha (hdst.part _ _ hle hmod) hpart))

theorem fillElementsFrom {first rounds : Nat} {parts : List (Part Value)} (ha : a.Sound)
    (hdst : a.HasRegion dst ((first + rounds) * (ElementLayout.stride d p * bytesPerWord)))
    (hparts : collect (source.elementOf value src d p) first rounds = .ok parts) :
    Halts halt f (forIndices (DeepCopy.fillElement source copySlot src dst d p) first rounds) a
      (Value.partsWritings (.list (.composite d p) count) parts dst.segment
        (dst.start + first * (ElementLayout.stride d p * bytesPerWord)) a) ()
      (Value.storeParts (.list (.composite d p) count) parts dst.segment
        (dst.start + first * (ElementLayout.stride d p * bytesPerWord)) a) := by
  induction rounds generalizing first parts a with
  | zero =>
    obtain rfl : [] = parts := Except.ok.inj hparts
    rw [Value.partsWritings, Value.storeParts]
    exact .of_run rfl
  | succ rounds ih =>
    obtain ⟨part, hpart, hparts⟩ := bind_eq_ok_iff.1 hparts
    obtain ⟨rest, hrest, hparts⟩ := bind_eq_ok_iff.1 hparts
    obtain rfl : part :: rest = parts := Except.ok.inj hparts
    have hev := Value.evolves_storePart (.list (.composite d p) count) part dst.segment
      (dst.start + first * (ElementLayout.stride d p * bytesPerWord)) a
    have hothers := ih (hev.sound ha) (by rw [Nat.add_right_comm]; exact hdst.evolves hev) hrest
    rw [Nat.succ_mul, ← Nat.add_assoc, ← Shape.partBytes_composite d p count] at hothers
    rw [Value.partsWritings_cons, Value.storeParts_cons]
    rw [Shape.partBytes_composite] at hothers ⊢
    exact .bind (hc.fillElement count ha hdst (by omega) hpart) hothers

theorem fillEmptyElements (h0 : ElementLayout.stride d p = 0) (ha : a.Sound)
    (hdst : a.HasRegion dst 0) {n : Nat} {parts : List (Part Value)}
    (hparts : collect (source.elementOf value src d p) 0 n = .ok parts) :
    Halts halt f (forIndices (DeepCopy.fillElement source copySlot src dst d p) 0 (min n 1)) a
      (Value.partsWritings (.list (.composite d p) count) parts dst.segment dst.start a) ()
      (Value.storeParts (.list (.composite d p) count) parts dst.segment dst.start a) := by
  cases n with
  | zero =>
    obtain rfl : [] = parts := Except.ok.inj hparts
    rw [Value.partsWritings, Value.storeParts]
    exact .of_run rfl
  | succ n =>
    have hempty (part : Part Value) (hp : part ∈ parts) : part = ⟨[], []⟩ := by
      obtain ⟨i, _, _, hi⟩ := (collect_eq_ok hparts).2 part hp
      obtain ⟨hdata, hslots, _⟩ := elementOf_eq_ok hi
      rw [(Nat.add_eq_zero_iff.1 h0).1, Nat.zero_mul] at hdata
      rw [(Nat.add_eq_zero_iff.1 h0).2] at hslots
      rw [← List.eq_nil_of_length_eq_zero hdata, ← List.eq_nil_of_length_eq_zero hslots]
    obtain ⟨first, hfirst, hrest⟩ := bind_eq_ok_iff.1 hparts
    obtain ⟨rest, _, hrest⟩ := bind_eq_ok_iff.1 hrest
    obtain rfl : first :: rest = parts := Except.ok.inj hrest
    have hone : a.HasRegion dst (1 * (ElementLayout.stride d p * bytesPerWord)) := by
      rwa [h0, Nat.zero_mul]
    have hmin : min (n + 1) 1 = 0 + 1 := by omega
    have hround := hc.fillElement count ha hone Nat.zero_lt_one hfirst
    rw [hempty first List.mem_cons_self, Value.storePart_nil] at hround
    rw [List.eq_replicate_of_mem hempty, Value.partsWritings_replicate_nil,
      Value.storeParts_replicate_nil, hmin]
    exact hround.before rfl

theorem fillElements {parts : List (Part Value)} (ha : a.Sound)
    (hdst : a.HasRegion dst (count.toNat * (ElementLayout.stride d p * bytesPerWord)))
    (hparts : collect (source.elementOf value src d p) 0 count.toNat = .ok parts) :
    Halts halt f (forIndices (DeepCopy.fillElement source copySlot src dst d p) 0
        (elementRounds (ElementLayout.stride d p) count)) a
      (Value.partsWritings (.list (.composite d p) count) parts dst.segment dst.start a) ()
      (Value.storeParts (.list (.composite d p) count) parts dst.segment dst.start a) := by
  by_cases h0 : ElementLayout.stride d p = 0
  · rw [elementRounds, if_pos h0]
    rw [h0, Nat.zero_mul, Nat.mul_zero] at hdst
    exact hc.fillEmptyElements count h0 ha hdst hparts
  · rw [elementRounds, if_neg h0]
    have hall : a.HasRegion dst
        ((0 + count.toNat) * (ElementLayout.stride d p * bytesPerWord)) := by rwa [Nat.zero_add]
    have h := hc.fillElementsFrom count ha hall hparts
    rwa [Nat.zero_mul, Nat.add_zero] at h

theorem fillList {v w : ListView} {parts : List (Part Value)} (ha : a.Sound)
    (hdst : a.HasRegion w.elements (v.layout.storageBytes v.count))
    (hparts : source.listParts value v = .ok parts) :
    Halts halt f (DeepCopy.fillList source copySlot v w) a
      (Value.partsWritings (.list v.layout v.count) parts w.elements.segment w.elements.start a) ()
      (Value.storeParts (.list v.layout v.count) parts w.elements.segment w.elements.start a) := by
  obtain ⟨s, l, count⟩ := v
  rcases l.trichotomy with rfl | ⟨d, p, rfl⟩ | hl
  · rw [Shape.storageBytes_pointer] at hdst
    obtain ⟨vs, hvs, hparts⟩ := bind_eq_ok_iff.1 hparts
    obtain rfl : [⟨[], vs⟩] = parts := Except.ok.inj hparts
    rw [Value.partsWritings_singleton, Value.storeParts_singleton, Value.partWritings,
      Value.storePart, List.length_nil, patch_nil]
    exact hc.fillSlots ha hdst hvs
  · rw [Shape.storageBytes_composite] at hdst
    exact hc.fillElements count ha hdst hparts
  · rw [listParts_bare hl] at hparts
    obtain ⟨bs, hbs, hparts⟩ := bind_eq_ok_iff.1 hparts
    obtain rfl : [⟨bs, []⟩] = parts := Except.ok.inj hparts
    rw [fillList_bare hl, Value.partsWritings_singleton, Value.storeParts_singleton,
      Value.partWritings, Value.storePart, Value.slotsWritings, Value.storeSlots]
    exact .of_run ((CopiesSlots.fillBytes
      (hdst.mono (l.payloadBytes_le_storageBytes count))).ok bs hbs)

theorem copyStructTo {v : StructView} {slot : Span} {x : Value} (hal : v.pointers.Aligned)
    (ha : a.Sound) (hslot : a.HasSlot slot) (hx : source.targetOf value (.struct v) = .ok x) :
    Halts halt f (DeepCopy.copyStructTo source copySlot v slot) a (x.writings slot a).tail ()
      (x.store slot a) := by
  let d := v.data.length / bytesPerWord
  let p := v.pointers.length / bytesPerWord
  unfold DeepCopy.copyStructTo
  by_cases h0 : d = 0 ∧ p = 0
  · rw [targetOf_emptyStruct hal h0.1 h0.2] at hx
    obtain rfl := Except.ok.inj hx
    rw [if_pos h0, Value.writings_emptyStruct, Value.store_emptyStruct]
    exact .of_run (Building.writeWord_of_hasSlot hslot _)
  · obtain ⟨part, hpart, hx⟩ := bind_eq_ok_iff.1 hx
    obtain rfl : Value.object (.struct d p) [part] = x := Except.ok.inj hx
    have hne : Shape.struct d p ≠ .struct 0 0 := fun h => h0 (Shape.struct.inj h)
    have hroom := room_makeRoom ha slot (n := (d + p) * bytesPerWord) (Nat.mul_mod_left _ _)
    have hplace := place_eq a slot ((d + p) * bytesPerWord)
    obtain ⟨spot, b, hb⟩ : ∃ spot b, a.makeRoom slot ((d + p) * bytesPerWord) = (spot, b) :=
      ⟨_, _, rfl⟩
    rw [hb] at hroom hplace
    obtain ⟨hlink, _⟩ := hroom.link hslot (Value.evolves_storePart (.struct d p) part
      spot.content.segment spot.content.start b) (Shape.struct d p).pointer
    have hfill := hc.fillStruct (.struct d p) rfl (hroom.evolves.sound ha) hroom.content hpart
    rw [if_neg h0, Value.writings_object _ _ _ hne, Value.store_object hne, footprint_struct, hb,
      Shape.fill, Value.storeParts_singleton, Shape.writings_struct]
    exact .step hplace (hfill.before hlink)

theorem copyListTo {v : ListView} {slot : Span} {x : Value} (ha : a.Sound) (hslot : a.HasSlot slot)
    (hx : source.targetOf value (.list v) = .ok x) :
    Halts halt f (DeepCopy.copyListTo source copySlot v slot) a (x.writings slot a).tail ()
      (x.store slot a) := by
  obtain ⟨parts, hparts, hx⟩ := bind_eq_ok_iff.1 hx
  obtain rfl : Value.object (.list v.layout v.count) parts = x := Except.ok.inj hx
  have hroom := room_makeRoom ha slot (DeepCopy.footprint_mod v)
  have hplace := place_eq a slot (DeepCopy.footprint v)
  obtain ⟨spot, b, hb⟩ : ∃ spot b, a.makeRoom slot (DeepCopy.footprint v) = (spot, b) :=
    ⟨_, _, rfl⟩
  rw [hb] at hroom hplace
  have hopen := opened hroom.content hroom.length
  obtain ⟨hlink, _⟩ := hroom.link hslot (hopen.evolves.trans (Value.evolves_storeParts
    (.list v.layout v.count) parts spot.content.segment _ _)) (Shape.list v.layout v.count).pointer
  have hfill := hc.fillList (w := ⟨(Shape.list v.layout v.count).body spot.content, v.layout,
    v.count⟩) (hopen.evolves.sound (hroom.evolves.sound ha)) hopen.body hparts
  have hne : Shape.list v.layout v.count ≠ .struct 0 0 := fun h => by cases h
  rw [Value.writings_object _ _ _ hne, Value.store_object hne, ← footprint_eq, hb]
  refine .step hplace (.step (listInRegion_eq hroom.content hroom.length) (hfill.before ?_))
  rw [pointerCount_eq hopen.length]
  exact hlink

theorem copyTarget {slot : Span} {pointer : Word} {x : Value} (ha : a.Sound)
    (hslot : a.HasSlot slot)
    (hx : source.follow src.segment src.startWord pointer >>= source.targetOf value = .ok x) :
    Halts halt f (DeepCopy.copyTarget source copySlot src slot pointer) a (x.writings slot a).tail
      () (x.store slot a) := by
  obtain ⟨t, ht, hx⟩ := bind_eq_ok_iff.1 hx
  refine .lift ht ?_
  rcases follow_linkable ht with ⟨region, d, p, rfl, hal⟩ | ⟨v, rfl, _⟩
  · refine hc.copyStructTo ⟨Nat.mul_mod_left _ _, ?_⟩ ha hslot hx
    exact (Nat.add_mul_mod_self_right _ _ _).trans hal
  · exact hc.copyListTo ha hslot hx

end HaltsSlots

section Copies

variable {source a : Arena} {halt : Span} {f : Fault} {limit : Nat}

theorem copyWord_halts {descend : Span → Span → Word → Building Unit}
    {beyond : Word → Except Fault Value} {src slot : Span} {x : Value} (hslot : a.HasSlot slot)
    (hd : ∀ pointer, beyond pointer = .ok x → Halts halt f (descend src slot pointer) a
      (x.writings slot a).tail () (x.store slot a))
    (hx : source.wordValue beyond src = .ok x) :
    Halts halt f (DeepCopy.copyWord source descend src slot) a (x.writings slot a).tail ()
      (x.store slot a) := by
  obtain ⟨hchecked, w, hw, hx⟩ := wordValue_eq_ok_iff.1 hx
  refine .lift hchecked (.lift hslot.checkSlot (.lift hw ?_))
  rcases hx with ⟨hn, rfl⟩ | ⟨hn, hx⟩
  · rw [if_pos hn, Value.writings, Value.store]
    exact .of_run (Building.writeWord_of_hasSlot hslot _)
  · rw [if_neg (by rw [hn]; decide)]
    exact hd w hx

/-- A copy of a slot is broken off before what storing the value writes. -/
theorem haltsSlots_copySlotBefore (halt : Span) (f : Fault) (source : Arena) (limit room : Nat) :
    HaltsSlots halt f (source.valueAt limit room) (copySlotBefore halt f source limit room) := by
  induction room with
  | zero =>
    intro src slot a v _ hslot hv
    rw [v.writings_eq_cons slot a]
    refine .haltAt fun _ => copyWord_halts hslot (fun pointer hx => ?_) hv
    cases hx
  | succ room ih =>
    intro src slot a v ha hslot hv
    rw [v.writings_eq_cons slot a]
    exact .haltAt fun _ => copyWord_halts hslot (fun pointer hx => ih.copyTarget ha hslot hx) hv

theorem copyStructBefore_halts {src : StructView} {d p : Nat} {part : Part Value} (ha : a.Sound)
    (hb : checkBlock ((d + p) * bytesPerWord) = .ok ())
    (hpart : source.partOf (source.valueAt limit limit) src d p = .ok part) :
    Halts halt f (copyStructWith source (copySlotBefore halt f source limit limit) src d p) a
      ((Shape.struct d p).writings [part] (a.alloc ((d + p) * bytesPerWord)).1
        (a.alloc ((d + p) * bytesPerWord)).2)
      (.ofRegion (a.alloc ((d + p) * bytesPerWord)).1 d p)
      ((Shape.struct d p).settle [part] a) := by
  obtain ⟨hr, _⟩ := alloc_region ha (n := (d + p) * bytesPerWord) (Nat.mul_mod_left _ _)
  have hs := (a.evolves_alloc ((d + p) * bytesPerWord)).sound ha
  have hfill := (haltsSlots_copySlotBefore halt f source limit limit).fillStruct (.struct d p) rfl
    hs hr hpart
  rw [Shape.settle, footprint_struct, Shape.fill, Value.storeParts_singleton,
    Shape.writings_struct]
  exact .step (alloc_run hb) (hfill.before rfl)

theorem copyListBefore_halts {src : ListView} {parts : List (Part Value)} (ha : a.Sound)
    (hv : src.validate = .ok ())
    (hparts : source.listParts (source.valueAt limit limit) src = .ok parts) :
    Halts halt f (copyListWith source (copySlotBefore halt f source limit limit) src) a
      ((Shape.list src.layout src.count).writings parts
        (a.alloc (Shape.list src.layout src.count).footprint).1
        (a.alloc (Shape.list src.layout src.count).footprint).2)
      ⟨(Shape.list src.layout src.count).body
        (a.alloc (Shape.list src.layout src.count).footprint).1, src.layout, src.count⟩
      ((Shape.list src.layout src.count).settle parts a) := by
  obtain ⟨hr, hl, _⟩ := alloc_region ha (DeepCopy.footprint_mod src)
  have hs := (a.evolves_alloc (DeepCopy.footprint src)).sound ha
  have hopen := opened hr hl
  have hfill := (haltsSlots_copySlotBefore halt f source limit limit).fillList
    (w := ⟨(Shape.list src.layout src.count).body (a.alloc (DeepCopy.footprint src)).1,
      src.layout, src.count⟩) (hopen.evolves.sound hs) hopen.body hparts
  rw [Shape.settle, ← footprint_eq]
  exact .lift hv (.step (alloc_run (DeepCopy.checkBlock_footprint src))
    (.step (listInRegion_eq hr hl) (hfill.before rfl)))

end Copies

end FrozenDefaults
