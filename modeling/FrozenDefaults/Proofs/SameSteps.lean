import FrozenDefaults.Proofs.Copying
import FrozenDefaults.Proofs.Depth

/-!
# The steps of a copy

Two copies that read the same value are the same steps, whatever the destination
is and however the sources are laid out.
-/

namespace FrozenDefaults

open Arena
open DeepCopy

theorem Building.lift_bind {β γ : Type} {k : β → Building γ} {e : Except Fault β} {x : β}
    (h : e = .ok x) : (liftExcept e >>= k) = k x := by
  rw [h]
  rfl

theorem Building.lift_congr {β γ : Type} {k k' : β → Building γ} {e : Except Fault β}
    (h : ∀ x, e = .ok x → k x = k' x) : (liftExcept e >>= k) = (liftExcept e >>= k') := by
  cases e with
  | ok x => exact h x rfl
  | error f => rfl

theorem Building.bind_congr {β γ : Type} {m m' : Building β} {k k' : β → Building γ}
    (hm : m = m') (hk : ∀ x, k x = k' x) : (m >>= k) = (m' >>= k') := by
  rw [hm, funext hk]

/-- Two loops are the same as far as their steps collect the same. -/
theorem DeepCopy.forIndices_alike {α : Type} {reading reading' : Nat → Except Fault α}
    {step step' : Nat → Building Unit}
    (hs : ∀ i x, reading i = .ok x → reading' i = .ok x → step i = step' i)
    {first rounds count : Nat} {xs : List α} (hr : rounds ≤ count)
    (h : collect reading first count = .ok xs) (h' : collect reading' first count = .ok xs) :
    forIndices step first rounds = forIndices step' first rounds := by
  induction rounds generalizing first count xs with
  | zero => rfl
  | succ rounds ih =>
    obtain ⟨count, rfl⟩ := Nat.exists_eq_succ_of_ne_zero (Nat.ne_zero_of_lt hr)
    obtain ⟨x, hx, h⟩ := bind_eq_ok_iff.1 h
    obtain ⟨ys, hys, h⟩ := bind_eq_ok_iff.1 h
    obtain rfl : x :: ys = xs := Except.ok.inj h
    obtain ⟨x', hx', h'⟩ := bind_eq_ok_iff.1 h'
    obtain ⟨ys', hys', h'⟩ := bind_eq_ok_iff.1 h'
    obtain ⟨rfl, rfl⟩ := List.cons.inj (Except.ok.inj h')
    rw [forIndices, forIndices, hs first _ hx hx', ih (Nat.le_of_succ_le_succ hr) hys hys']

theorem DeepCopy.elementRounds_le (stride : Nat) (count : UInt32) :
    elementRounds stride count ≤ count.toNat := by
  unfold elementRounds
  split
  · exact Nat.min_le_left _ _
  · exact Nat.le_refl _

/-- Where the same value is read, it is copied by the same steps. -/
def CopiesAlike (value value' : Span → Except Fault Value)
    (copySlot copySlot' : Span → Span → Building Unit) : Prop :=
  ∀ src src' v, value src = .ok v → value' src' = .ok v → copySlot src = copySlot' src'

namespace CopiesAlike

variable {s t : Arena} {value value' : Span → Except Fault Value}
  {copySlot copySlot' : Span → Span → Building Unit}

theorem fillBytes {src src' : Span} {n n' : Nat} {bs : List UInt8} (h : s.dataOf src n = .ok bs)
    (h' : t.dataOf src' n' = .ok bs) (dst : Span) :
    DeepCopy.fillBytes s src dst n = DeepCopy.fillBytes t src' dst n' := by
  obtain rfl : n = n' := (length_dataOf h).symm.trans (length_dataOf h')
  rw [dataOf] at h h'
  rw [DeepCopy.fillBytes, DeepCopy.fillBytes]
  by_cases hn : 0 < n
  · rw [if_pos hn] at h h'
    obtain ⟨r, hr, h⟩ := bind_eq_ok_iff.1 h
    obtain ⟨r', hr', h'⟩ := bind_eq_ok_iff.1 h'
    rw [if_pos hn, if_pos hn, Building.lift_bind hr, Building.lift_bind h, Building.lift_bind hr',
      Building.lift_bind h']
  · rw [if_neg hn, if_neg hn]

variable (hc : CopiesAlike value value' copySlot copySlot')
include hc

theorem fillSlots {src src' : Span} {count count' : Nat} {vs : List Value}
    (h : slotsOf value src count = .ok vs) (h' : slotsOf value' src' count' = .ok vs)
    (dst : Span) :
    DeepCopy.fillSlots copySlot src dst count = DeepCopy.fillSlots copySlot' src' dst count' := by
  obtain rfl : count = count' := (slotsOf_eq_ok h).1.symm.trans (slotsOf_eq_ok h').1
  refine forIndices_alike (fun i v hi hi' => ?_) (Nat.le_refl count) h h'
  obtain ⟨r, hr, hv⟩ := bind_eq_ok_iff.1 hi
  obtain ⟨r', hr', hv'⟩ := bind_eq_ok_iff.1 hi'
  rw [Building.lift_bind hr, Building.lift_bind hr', hc r r' v hv hv']

theorem fillStruct {v w : StructView} {d p : Nat} {part : Part Value}
    (h : s.partOf value v d p = .ok part) (h' : t.partOf value' w d p = .ok part) (region : Span) :
    DeepCopy.fillStruct s copySlot v (.ofRegion region d p) =
      DeepCopy.fillStruct t copySlot' w (.ofRegion region d p) := by
  obtain ⟨data, hdata, h⟩ := bind_eq_ok_iff.1 h
  obtain ⟨there, hthere, h⟩ := bind_eq_ok_iff.1 h
  obtain ⟨vs, hvs, h⟩ := bind_eq_ok_iff.1 h
  obtain ⟨data', hdata', h'⟩ := bind_eq_ok_iff.1 h'
  obtain ⟨there', hthere', h'⟩ := bind_eq_ok_iff.1 h'
  obtain ⟨vs', hvs', h'⟩ := bind_eq_ok_iff.1 h'
  obtain rfl := Except.ok.inj h
  obtain ⟨rfl, rfl⟩ := Part.mk.inj (Except.ok.inj h')
  unfold DeepCopy.fillStruct
  rw [Building.lift_bind hthere, Building.lift_bind hthere']
  refine Building.bind_congr (fillBytes hdata hdata' _) fun _ => ?_
  refine Building.lift_congr fun here hhere => ?_
  obtain ⟨_, rfl⟩ := Span.wordCount_eq_ok_iff.1 hhere
  have hp : (StructView.ofRegion region d p).pointers.length / bytesPerWord = p :=
    Nat.mul_div_cancel p (by decide)
  rw [hp]
  exact hc.fillSlots hvs hvs' _

theorem fillElement {src src' : Span} {d p : UInt16} {i : Nat} {part : Part Value}
    (h : s.elementOf value src d p i = .ok part) (h' : t.elementOf value' src' d p i = .ok part)
    (dst : Span) :
    DeepCopy.fillElement s copySlot src dst d p i =
      DeepCopy.fillElement t copySlot' src' dst d p i := by
  obtain ⟨r, hr, hpart⟩ := bind_eq_ok_iff.1 h
  obtain ⟨r', hr', hpart'⟩ := bind_eq_ok_iff.1 h'
  unfold DeepCopy.fillElement
  rw [Building.lift_bind hr, Building.lift_bind hr']
  exact Building.lift_congr fun here _ => hc.fillStruct hpart hpart' here

theorem fillList {src src' : Span} {l : ElementLayout} {count : UInt32} {parts : List (Part Value)}
    (h : s.listParts value ⟨src, l, count⟩ = .ok parts)
    (h' : t.listParts value' ⟨src', l, count⟩ = .ok parts) (dst : ListView) :
    DeepCopy.fillList s copySlot ⟨src, l, count⟩ dst =
      DeepCopy.fillList t copySlot' ⟨src', l, count⟩ dst := by
  rcases l.trichotomy with rfl | ⟨d, p, rfl⟩ | hl
  · obtain ⟨vs, hvs, h⟩ := bind_eq_ok_iff.1 h
    obtain ⟨vs', hvs', h'⟩ := bind_eq_ok_iff.1 h'
    obtain rfl := Except.ok.inj h
    obtain ⟨_, rfl⟩ := Part.mk.inj (List.singleton_inj.1 (Except.ok.inj h'))
    exact hc.fillSlots hvs hvs' _
  · exact forIndices_alike (fun i part hi hi' => hc.fillElement hi hi' _) (elementRounds_le _ _) h h'
  · rw [listParts_bare hl] at h h'
    obtain ⟨bs, hbs, h⟩ := bind_eq_ok_iff.1 h
    obtain ⟨bs', hbs', h'⟩ := bind_eq_ok_iff.1 h'
    obtain rfl := Except.ok.inj h
    obtain ⟨rfl, _⟩ := Part.mk.inj (List.singleton_inj.1 (Except.ok.inj h'))
    rw [fillList_bare hl, fillList_bare hl]
    exact fillBytes hbs hbs' _

theorem copyStructTo {v w : StructView} {x : Value} (h : s.targetOf value (.struct v) = .ok x)
    (h' : t.targetOf value' (.struct w) = .ok x) (slot : Span) :
    DeepCopy.copyStructTo s copySlot v slot = DeepCopy.copyStructTo t copySlot' w slot := by
  obtain ⟨part, hpart, h⟩ := bind_eq_ok_iff.1 h
  obtain ⟨part', hpart', h'⟩ := bind_eq_ok_iff.1 h'
  obtain rfl := Except.ok.inj h
  obtain ⟨hshape, hparts⟩ := Value.object.inj (Except.ok.inj h')
  obtain ⟨hd, hp⟩ := Shape.struct.inj hshape
  obtain rfl := List.singleton_inj.1 hparts
  unfold DeepCopy.copyStructTo
  rw [hd, hp] at hpart' ⊢
  by_cases h0 : v.data.length / bytesPerWord = 0 ∧ v.pointers.length / bytesPerWord = 0
  · rw [if_pos h0, if_pos h0]
  · rw [if_neg h0, if_neg h0]
    refine Building.bind_congr rfl fun spot => ?_
    exact Building.bind_congr (hc.fillStruct hpart hpart' spot.content) fun _ => rfl

theorem copyListTo {v w : ListView} {x : Value} (h : s.targetOf value (.list v) = .ok x)
    (h' : t.targetOf value' (.list w) = .ok x) (slot : Span) :
    DeepCopy.copyListTo s copySlot v slot = DeepCopy.copyListTo t copySlot' w slot := by
  obtain ⟨src, l, count⟩ := v
  obtain ⟨src', l', count'⟩ := w
  obtain ⟨parts, hparts, h⟩ := bind_eq_ok_iff.1 h
  obtain ⟨parts', hparts', h'⟩ := bind_eq_ok_iff.1 h'
  obtain rfl := Except.ok.inj h
  obtain ⟨hshape, rfl⟩ := Value.object.inj (Except.ok.inj h')
  obtain ⟨rfl, rfl⟩ := Shape.list.inj hshape
  refine Building.bind_congr rfl fun spot => ?_
  refine Building.bind_congr ?_ fun dst => ?_
  · cases l' <;> rfl
  · exact Building.bind_congr (hc.fillList hparts hparts' dst) fun _ => rfl

theorem copyTarget {src src' : Span} {p p' : Word} {x : Value}
    (h : s.follow src.segment src.startWord p >>= s.targetOf value = .ok x)
    (h' : t.follow src'.segment src'.startWord p' >>= t.targetOf value' = .ok x) (slot : Span) :
    DeepCopy.copyTarget s copySlot src slot p = DeepCopy.copyTarget t copySlot' src' slot p' := by
  obtain ⟨g, hg, h⟩ := bind_eq_ok_iff.1 h
  obtain ⟨g', hg', h'⟩ := bind_eq_ok_iff.1 h'
  unfold DeepCopy.copyTarget
  rw [Building.lift_bind hg, Building.lift_bind hg']
  cases g with
  | struct v =>
    cases g' with
    | struct w => exact hc.copyStructTo h h' slot
    | list w =>
      obtain ⟨_, _, h⟩ := bind_eq_ok_iff.1 h
      obtain ⟨_, _, h'⟩ := bind_eq_ok_iff.1 h'
      obtain rfl := Except.ok.inj h
      cases h'
  | list v =>
    cases g' with
    | struct w =>
      obtain ⟨_, _, h⟩ := bind_eq_ok_iff.1 h
      obtain ⟨_, _, h'⟩ := bind_eq_ok_iff.1 h'
      obtain rfl := Except.ok.inj h
      cases h'
    | list w => exact hc.copyListTo h h' slot

end CopiesAlike

/-- A word is null in both sources or in neither. -/
theorem copyWord_alike {s t : Arena} {descend descend' : Span → Span → Word → Building Unit}
    {beyond beyond' : Word → Except Fault Value} {src src' : Span} {v : Value}
    (hb : ∀ p, beyond p ≠ .ok .null) (hb' : ∀ p, beyond' p ≠ .ok .null)
    (hd : ∀ p p', beyond p = .ok v → beyond' p' = .ok v → ∀ slot,
      descend src slot p = descend' src' slot p')
    (h : s.wordValue beyond src = .ok v) (h' : t.wordValue beyond' src' = .ok v) :
    copyWord s descend src = copyWord t descend' src' := by
  funext slot
  obtain ⟨hcheck, p, hp, hcases⟩ := wordValue_eq_ok_iff.1 h
  obtain ⟨hcheck', p', hp', hcases'⟩ := wordValue_eq_ok_iff.1 h'
  unfold copyWord
  rw [Building.lift_bind hcheck, Building.lift_bind hcheck']
  refine Building.lift_congr fun _ _ => ?_
  rw [Building.lift_bind hp, Building.lift_bind hp']
  rcases hcases with ⟨hn, rfl⟩ | ⟨hn, hv⟩
  · rcases hcases' with ⟨hn', _⟩ | ⟨_, hv'⟩
    · rw [if_pos hn, if_pos hn']
    · exact absurd hv' (hb' p')
  · rcases hcases' with ⟨_, rfl⟩ | ⟨hn', hv'⟩
    · exact absurd hv (hb p)
    · rw [hn, hn']
      exact hd p p' hv hv' slot

theorem copiesAlike_copySlot (s t : Arena) (limit room : Nat) :
    CopiesAlike (s.valueAt limit room) (t.valueAt limit room) (copySlot s limit room)
      (copySlot t limit room) := by
  have hnull (a : Arena) (src : Span) (value : Span → Except Fault Value) (p : Word) :
      a.follow src.segment src.startWord p >>= a.targetOf value ≠ .ok .null := by
    intro h
    obtain ⟨_, _, h⟩ := bind_eq_ok_iff.1 h
    exact targetOf_ne_null h
  induction room with
  | zero =>
    intro src src' v h h'
    refine copyWord_alike ?_ ?_ ?_ h h'
    · rintro _ ⟨⟩
    · rintro _ ⟨⟩
    · rintro _ _ ⟨⟩
  | succ room ih =>
    intro src src' v h h'
    exact copyWord_alike (hnull s src _) (hnull t src' _)
      (fun _ _ hp hp' slot => ih.copyTarget hp hp' slot) h h'

section Copies

variable {s t : Arena} {limit : Nat}

theorem copyStruct_alike {v w : StructView} {d p : Nat} {part : Part Value}
    (h : s.partOf (s.valueAt limit limit) v d p = .ok part)
    (h' : t.partOf (t.valueAt limit limit) w d p = .ok part) :
    copyStruct s limit v d p = copyStruct t limit w d p := by
  have hc := copiesAlike_copySlot s t limit limit
  refine Building.bind_congr rfl fun region => ?_
  exact Building.bind_congr (hc.fillStruct h h' region) fun _ => rfl

theorem copyList_alike {v w : ListView} {content : Content}
    (h : s.describe limit (.list v) = .ok content) (h' : t.describe limit (.list w) = .ok content) :
    copyList s limit v = copyList t limit w := by
  have hc := copiesAlike_copySlot s t limit limit
  obtain ⟨src, l, count⟩ := v
  obtain ⟨src', l', count'⟩ := w
  obtain ⟨_, hvalid, h⟩ := bind_eq_ok_iff.1 h
  obtain ⟨_, hvalid', h'⟩ := bind_eq_ok_iff.1 h'
  obtain ⟨parts, hparts, h⟩ := bind_eq_ok_iff.1 h
  obtain ⟨parts', hparts', h'⟩ := bind_eq_ok_iff.1 h'
  obtain rfl := Except.ok.inj h
  obtain ⟨hshape, rfl⟩ := Content.object.inj (Except.ok.inj h')
  obtain ⟨rfl, rfl⟩ := Shape.list.inj hshape
  unfold copyList
  rw [Building.lift_bind hvalid, Building.lift_bind hvalid']
  refine Building.bind_congr rfl fun region => Building.bind_congr ?_ fun dst => ?_
  · cases l' <;> rfl
  · exact Building.bind_congr (hc.fillList hparts hparts' dst) fun _ => rfl

theorem copyPointer_alike {src src' : Span} {v : Value} (h : s.valueAt limit limit src = .ok v)
    (h' : t.valueAt limit limit src' = .ok v) (slot : Span) :
    copyPointer s limit src slot = copyPointer t limit src' slot :=
  congrFun (copiesAlike_copySlot s t limit limit src src' v h h') slot

end Copies

end FrozenDefaults
