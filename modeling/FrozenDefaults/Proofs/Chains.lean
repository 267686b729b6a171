import FrozenDefaults.Proofs.Limits
import FrozenDefaults.Proofs.Preservation
import Mathlib.Logic.Relation

/-!
# Chains of pointers

A chain follows pointers from a slot into the objects that they lead to. What
counts for the nesting limit is the longest chain: a copy that succeeds under
some limit succeeds under another one, in the same way, if no chain is longer
than that, and it is too deep otherwise. A pointer that leads back to itself
begins chains of every length, so that no limit is enough.
-/

namespace FrozenDefaults

open DeepCopy
open Building (SameUnless)
open Relation (ReflTransGen TransGen)

namespace Arena

/-- The pointer in the first slot leads to an object in which the second slot lies, through landing
pads or not. -/
def Reaches (a : Arena) (slot inner : Span) : Prop := ∃ far t, a.Leads slot far t ∧ inner ∈ t.slots

/-- A chain of the given number of pointers begins in the slot. None of them is null, and each lies
in the object that the one before it leads to. -/
inductive Chain (a : Arena) : Nat → Span → Prop
  | one {slot : Span} {w : Word} (hw : a.readWord slot.segment slot.startWord = .ok w)
      (hn : Pointer.isNull w = false) : Chain a 1 slot
  | next {n : Nat} {slot inner : Span} (h : a.Reaches slot inner) (hc : Chain a n inner) :
      Chain a (n + 1) slot

variable {a : Arena} {m n : Nat} {slot : Span} {w : Word} {t : Target}

theorem Chain.shorten (h : a.Chain n slot) (hm : 0 < m) (hmn : m ≤ n) : a.Chain m slot := by
  induction h generalizing m with
  | one hw hn =>
    obtain rfl : m = 1 := by omega
    exact .one hw hn
  | next h _ ih =>
    cases m with
    | zero => exact absurd hm (Nat.lt_irrefl 0)
    | succ m =>
      rcases Nat.eq_zero_or_pos m with rfl | hpos
      · obtain ⟨_, _, ⟨_, w, hw, hn, _⟩, _⟩ := h
        exact .one hw hn
      · exact .next h (ih hpos (Nat.le_of_succ_le_succ hmn))

theorem not_chain_of_null (hw : a.readWord slot.segment slot.startWord = .ok w)
    (hn : Pointer.isNull w = true) : ¬ a.Chain n slot := by
  have hnull {w' : Word} (hw' : a.readWord slot.segment slot.startWord = .ok w')
      (hn' : Pointer.isNull w' = false) : False := by
    obtain rfl := Except.ok.inj (hw.symm.trans hw')
    rw [hn] at hn'
    cases hn'
  intro h
  cases h with
  | one hw' hn' => exact hnull hw' hn'
  | next h _ =>
    obtain ⟨_, _, ⟨_, _, hw', hn', _⟩, _⟩ := h
    exact hnull hw' hn'

theorem chain_iff (hc : checkSlot slot = .ok ())
    (hw : a.readWord slot.segment slot.startWord = .ok w) (hn : Pointer.isNull w = false)
    (ht : a.follow slot.segment slot.startWord w = .ok t) :
    a.Chain (n + 2) slot ↔ ∃ s ∈ t.slots, a.Chain (n + 1) s := by
  constructor
  · rintro (_ | ⟨⟨_, t', ⟨_, w', hw', _, _, ht'⟩, hm⟩, h⟩)
    obtain rfl := Except.ok.inj (hw.symm.trans hw')
    obtain rfl := Except.ok.inj (ht.symm.trans ht')
    exact ⟨_, hm, h⟩
  · rintro ⟨s, hm, h⟩
    exact .next ⟨_, t, ⟨hc, w, hw, hn, rfl, ht⟩, hm⟩ h

theorem chain_of_progress {P : Span → Prop} (hp : ∀ s, P s → ∃ u, a.Reaches s u ∧ P u) (n : Nat)
    {s : Span} (hs : P s) : a.Chain (n + 1) s := by
  induction n generalizing s with
  | zero =>
    obtain ⟨_, ⟨_, _, ⟨_, w, hw, hn, _⟩, _⟩, _⟩ := hp s hs
    exact .one hw hn
  | succ n ih =>
    obtain ⟨u, hu, hpu⟩ := hp s hs
    exact .next hu (ih hpu)

theorem chain_of_cycle {s x : Span} (hs : ReflTransGen a.Reaches s x)
    (hx : TransGen a.Reaches x x) (n : Nat) : a.Chain (n + 1) s := by
  refine chain_of_progress (P := (ReflTransGen a.Reaches · x)) (fun s hs => ?_) n hs
  rcases ReflTransGen.cases_head hs with rfl | ⟨u, hu, hux⟩
  · exact TransGen.head'_iff.1 hx
  · exact ⟨u, hu, hux⟩

end Arena

theorem copyWord_sameUnless {source : Arena} {descend descend' : Span → Span → Word → Building Unit}
    {n : Nat} {f : Fault} {src slot : Span}
    (hd : ∀ w, checkSlot src = .ok () → source.readWord src.segment src.startWord = .ok w →
      Pointer.isNull w = false → SameUnless (source.Chain n src) f
        (descend src slot w) (descend' src slot w)) :
    SameUnless (source.Chain n src) f (copyWord source descend src slot)
      (copyWord source descend' src slot) := by
  refine .lift fun _ hc => .lift fun _ _ => .lift fun w hw => ?_
  by_cases hn : Pointer.isNull w = true
  · rw [if_pos hn, if_pos hn]
    exact (SameUnless.refl _ _).congr (iff_of_false id (Arena.not_chain_of_null hw hn))
  · rw [if_neg hn, if_neg hn]
    exact hd w hc hw (Bool.eq_false_of_not_eq_true hn)

/-- With `room'` levels a copy stops where a chain begins that is longer than that. -/
theorem copySlot_sameUnless (source : Arena) (limit limit' room room' : Nat) (src slot : Span) :
    SameUnless (source.Chain (room' + 1) src) (.tooDeep limit')
      (copySlot source limit room src slot) (copySlot source limit' room' src slot) := by
  induction room generalizing room' src slot with
  | zero =>
    -- Only null is copied without a level, and from null no chain begins.
    cases room' with
    | zero => exact copyWord_sameUnless fun _ _ _ _ => .of_throw _ _ _ _
    | succ room' => exact copyWord_sameUnless fun _ _ _ _ => .of_throw _ _ _ _
  | succ room ih =>
    cases room' with
    | zero => exact copyWord_sameUnless fun w _ hw hn => .stop (.one hw hn) _ _
    | succ room' =>
      refine copyWord_sameUnless fun w hc hw hn => ?_
      cases ht : source.follow src.segment src.startWord w with
      | ok t =>
        exact (SameUnless.copyTarget (fun src slot => ih room' src slot) src slot w ht).congr
          (Arena.chain_iff hc hw hn ht).symm
      | error f =>
        unfold copyTarget
        rw [ht]
        exact .of_throw _ _ _ _

section Copies

variable (source : Arena) (limit limit' : Nat)

theorem copyPointer_sameUnless (src slot : Span) :
    SameUnless (∃ s ∈ [src], source.Chain (limit' + 1) s) (.tooDeep limit')
      (copyPointer source limit src slot) (copyPointer source limit' src slot) :=
  (copySlot_sameUnless source limit limit' limit limit' src slot).congr (by simp)

theorem copyStruct_sameUnless (v : StructView) (d p : Nat) :
    SameUnless (∃ s ∈ v.slots.take p, source.Chain (limit' + 1) s) (.tooDeep limit')
      (copyStruct source limit v d p) (copyStruct source limit' v d p) :=
  .step fun region => .before
    (.fillStruct (copySlot_sameUnless source limit limit' limit limit') v region d p)

theorem copyList_sameUnless (v : ListView) :
    SameUnless (∃ s ∈ v.slots, source.Chain (limit' + 1) s) (.tooDeep limit')
      (copyList source limit v) (copyList source limit' v) :=
  .lift fun _ _ => .step fun _ => .step fun dst => .before
    (.fillList (copySlot_sameUnless source limit limit' limit limit') v dst)

end Copies

/-- What the limit is to a copy that goes through these slots. A copy that succeeds under one limit
succeeds under another if no chain from the slots is longer, and does the same then. If a chain is
longer the fault is that of the limit. -/
structure NestsExactly {β : Type} (source : Arena) (slots : List Span)
    (copy : Nat → Building β) : Prop where
  succeeds_iff : ∀ {limit limit' : Nat} {a b : Arena} {x : β}, copy limit a = (.ok x, b) →
    ((∃ y c, copy limit' a = (.ok y, c)) ↔ ∀ s ∈ slots, ∀ n, source.Chain n s → n ≤ limit')
  same : ∀ {limit limit' : Nat} {a b c : Arena} {x y : β}, copy limit a = (.ok x, b) →
    copy limit' a = (.ok y, c) → y = x ∧ c = b
  tooDeep : ∀ {limit limit' : Nat} {a b : Arena} {x : β}, copy limit a = (.ok x, b) →
    (∃ s ∈ slots, ∃ n, source.Chain n s ∧ limit' < n) → (copy limit' a).1 = .error (.tooDeep limit')
  cyclic : (∃ s ∈ slots, ∃ x, ReflTransGen source.Reaches s x ∧ TransGen source.Reaches x x) →
    ∀ (limit : Nat) (a : Arena), ∃ f, (copy limit a).1 = .error f

theorem nestsExactly_of_sameUnless {β : Type} {source : Arena} {slots : List Span}
    {copy : Nat → Building β} (h : ∀ limit limit',
      SameUnless (∃ s ∈ slots, source.Chain (limit' + 1) s) (.tooDeep limit') (copy limit)
        (copy limit')) : NestsExactly source slots copy where
  succeeds_iff := by
    intro limit limit' a b x hrun
    obtain ⟨hstop, hsame⟩ := h limit limit' a x b hrun
    constructor
    · rintro ⟨y, c, hy⟩ s hs n hn
      by_contra hlt
      have hlong : source.Chain (limit' + 1) s := hn.shorten (Nat.succ_pos _) (Nat.lt_of_not_le hlt)
      have herror := hstop ⟨s, hs, hlong⟩
      rw [hy] at herror
      cases herror
    · intro hshort
      exact ⟨x, b, hsame fun ⟨s, hs, hn⟩ => Nat.not_succ_le_self _ (hshort s hs _ hn)⟩
  same := by
    intro limit limit' a b c x y hrun hrun'
    obtain ⟨hstop, hsame⟩ := h limit limit' a x b hrun
    by_cases hlong : ∃ s ∈ slots, source.Chain (limit' + 1) s
    · have herror := hstop hlong
      rw [hrun'] at herror
      cases herror
    · have heq := hsame hlong
      rw [hrun'] at heq
      exact ⟨Except.ok.inj (Prod.mk.inj heq).1, (Prod.mk.inj heq).2⟩
  tooDeep := by
    rintro limit limit' a b x hrun ⟨s, hs, n, hn, hlt⟩
    exact (h limit limit' a x b hrun).1 ⟨s, hs, hn.shorten (Nat.succ_pos _) hlt⟩
  cyclic := by
    rintro ⟨s, hs, x, hsx, hxx⟩ limit a
    cases hr : (copy limit a).1 with
    | error f => exact ⟨f, rfl⟩
    | ok y =>
      have hlong := Arena.chain_of_cycle hsx hxx limit
      have herror := (h limit limit a y _ (Prod.ext hr rfl)).1 ⟨s, hs, hlong⟩
      rw [hr] at herror
      cases herror

/-- The nesting limit is exact for every copy into every arena, whether it is of a struct, which may
be cut, of a list or of a pointer. What is cyclic is never copied. -/
theorem nesting_limit_exact (source : Arena) :
    (∀ (v : StructView) (d p : Nat), NestsExactly source (v.slots.take p) fun limit =>
      copyStruct source limit v d p) ∧
    (∀ v : ListView, NestsExactly source v.slots fun limit => copyList source limit v) ∧
    ∀ src slot : Span, NestsExactly source [src] fun limit => copyPointer source limit src slot :=
  ⟨fun v d p => nestsExactly_of_sameUnless fun limit limit' =>
      copyStruct_sameUnless source limit limit' v d p,
    fun v => nestsExactly_of_sameUnless fun limit limit' =>
      copyList_sameUnless source limit limit' v,
    fun src slot => nestsExactly_of_sameUnless fun limit limit' =>
      copyPointer_sameUnless source limit limit' src slot⟩

/-- A pointer to a struct of one pointer, which is that pointer. -/
def Arena.looped : Arena := ⟨#[⟨(Word.toBytes (Pointer.ofStruct (-1) 0 1)).toArray, 8⟩], 1024⟩

/-- Two levels are enough for the struct with its list, and one is not. For the pointer to itself no
limit is. -/
theorem nesting_limit_exact_sample :
    let source := Arena.sample
    let full := Arena.crowded
    (∃ b, copyPointer source 64 ⟨0, 0, 8⟩ ⟨0, 0, 8⟩ full = (.ok (), b) ∧
      copyPointer source 2 ⟨0, 0, 8⟩ ⟨0, 0, 8⟩ full = (.ok (), b)) ∧
    (∀ n, source.Chain n ⟨0, 0, 8⟩ → n ≤ 2) ∧
    (copyPointer source 1 ⟨0, 0, 8⟩ ⟨0, 0, 8⟩ full).1 = .error (.tooDeep 1) ∧
    ∀ (slot : Span) (limit : Nat) (a : Arena),
      ∃ f, (copyPointer Arena.looped limit ⟨0, 0, 8⟩ slot a).1 = .error f := by
  intro source full
  have h := (nesting_limit_exact source).2.2 ⟨0, 0, 8⟩ ⟨0, 0, 8⟩
  have hrun : (copyPointer source 64 ⟨0, 0, 8⟩ ⟨0, 0, 8⟩ full).1 = .ok () := by decide +kernel
  have hrun' : (copyPointer source 2 ⟨0, 0, 8⟩ ⟨0, 0, 8⟩ full).1 = .ok () := by decide +kernel
  have hrun := Building.run_eq hrun
  have hrun' := Building.run_eq hrun'
  have hleads : source.Leads ⟨0, 0, 8⟩ false (.struct ⟨⟨0, 8, 8⟩, ⟨0, 16, 8⟩⟩) :=
    ⟨rfl, _, rfl, by decide, by decide, by decide +kernel⟩
  have hreaches : source.Reaches ⟨0, 0, 8⟩ ⟨0, 16, 8⟩ := ⟨_, _, hleads, by decide⟩
  have hlist : source.readWord 0 2 = .ok (Pointer.ofList 0 .byte 3) := by decide +kernel
  have hchain : source.Chain 2 ⟨0, 0, 8⟩ := .next hreaches (.one hlist (by decide))
  have hloop : Arena.looped.Reaches ⟨0, 0, 8⟩ ⟨0, 0, 8⟩ := by
    refine ⟨false, .struct ⟨⟨0, 0, 0⟩, ⟨0, 0, 8⟩⟩, ⟨rfl, Pointer.ofStruct (-1) 0 1, ?_⟩, by decide⟩
    exact ⟨by decide +kernel, by decide, by decide, by decide +kernel⟩
  refine ⟨⟨_, hrun, ?_⟩, ?_, ?_, fun slot limit a => ?_⟩
  · rw [← (h.same hrun hrun').2]
    exact hrun'
  · exact (h.succeeds_iff hrun).1 ⟨_, _, hrun'⟩ _ (List.mem_singleton_self _)
  · exact h.tooDeep hrun ⟨_, List.mem_singleton_self _, 2, hchain, by decide⟩
  · exact ((nesting_limit_exact Arena.looped).2.2 ⟨0, 0, 8⟩ slot).cyclic
      ⟨_, List.mem_singleton_self _, _, .refl, .single hloop⟩ limit a

end FrozenDefaults
