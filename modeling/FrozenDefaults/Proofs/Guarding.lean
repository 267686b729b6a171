import FrozenDefaults.Proofs.Blocks
import FrozenDefaults.Proofs.Extents
import FrozenDefaults.Proofs.Guarded
import FrozenDefaults.Proofs.Stray

/-!
# Guarded steps

What a guarded step reads is what the arena has there, and where the ranges are
as they should be it does to the memory behind the arena what the step does to the
arena, as long as the blocks for that can be had. Steps put together from such
steps are such steps again.
-/

namespace FrozenDefaults

open Arena
open Building (Stepping)
open DeepCopy (Placement)

theorem Pointer.target?_le {p : Word} {home n : Nat} (h : target? p home = some n)
    (hhome : home < 2 ^ 61) : n ≤ home + 2 ^ 29 := by
  have hlt : 2 * offset p < 2 ^ 30 := BitVec.two_mul_toInt_lt
  have hle : -2 ^ 30 ≤ 2 * offset p := BitVec.le_two_mul_toInt
  have hkept : Int.bmod (home + 1 + offset p) UInt64.size = home + 1 + offset p :=
    Int.bmod_eq_of_le (by simp only [UInt64.size]; omega) (by simp only [UInt64.size]; omega)
  simp only [target?, hkept] at h
  split at h
  · have hn := Option.some.inj h
    omega
  · cases h

namespace Guarded

section Results

variable {α β : Type} {s : Span} {offset n count i : Nat}

theorem ofFault_ok (x : α) : ofFault (.ok x) = .ok x := rfl

theorem ofFault_bind {e : Except Fault α} {k : α → Except Fault β} {k' : α → Except Halt β}
    (h : ∀ x, e = .ok x → k' x = ofFault (k x)) : ofFault e >>= k' = ofFault (e >>= k) := by
  cases e with
  | ok x => exact h x rfl
  | error f => rfl

theorem ofFault_map (e : Except Fault α) (g : α → β) : g <$> ofFault e = ofFault (g <$> e) := by
  cases e <;> rfl

theorem size_eq (h : n ≤ maxSize) : size n = .ok n := if_pos h

theorem part_eq (h : offset + n ≤ s.length) (hs : s.stop ≤ maxSize) :
    part s offset n = ofFault (s.part offset n) := by
  have hstop : s.start + s.length ≤ maxSize := hs
  rw [part, size_eq (by omega), Span.part_eq_ok h, ok_bind, if_pos h, size_eq (by omega)]
  rfl

theorem word_eq (h : i < count) (hs : count * bytesPerWord ≤ s.length) (hstop : s.stop ≤ maxSize) :
    word s i = ofFault (s.word i) := by
  have hle : i * bytesPerWord + bytesPerWord ≤ s.length := by
    rw [← Nat.succ_mul]
    exact (Nat.mul_le_mul_right _ h).trans hs
  have hlength : s.start + s.length ≤ maxSize := hstop
  rw [word, size_eq (by omega)]
  exact part_eq hle hstop

theorem wordSpan_eq {segment word : Nat} (h : word * bytesPerWord ≤ maxSize) :
    wordSpan segment word = .ok (Arena.wordSpan segment word) := by
  rw [wordSpan, size_eq h]
  rfl

theorem ofRegion_eq {region : Span} {d p : Nat}
    (h : region.start + (d + p) * bytesPerWord ≤ maxSize) :
    ofRegion region d p = .ok (.ofRegion region d p) := by
  rw [Nat.add_mul] at h
  rw [ofRegion, size_eq (by omega), ok_bind, size_eq (by omega), ok_bind, size_eq (by omega)]
  rfl

theorem withoutFirst_eq (h : bytesPerWord ≤ s.length) (hs : s.stop ≤ maxSize) :
    withoutFirst s = ofFault (s.part bytesPerWord (s.length - bytesPerWord)) := by
  rw [withoutFirst, sub, if_pos h]
  exact part_eq (Nat.add_sub_of_le h).le hs

end Results

section Source

variable {a : Arena} (ha : a.backing.Bounded)
include ha

theorem read_eq (s : Span) : read a.backing s = ofFault (a.read s) := by
  have hsize : a.backing.blocks.size = a.segments.size := a.size_backing
  rw [read, block, getElem?_backing, hsize, Arena.read, check]
  cases hseg : a.segments[s.segment]? with
  | none => rfl
  | some seg =>
    have hused : seg.block.used = seg.used := rfl
    by_cases hs : s.stop ≤ seg.used
    · have hstop := stop_le_maxSize ha (holds_iff.2 ⟨seg, hseg, hs⟩)
      simp only [Option.map_some, ok_bind, hused, if_pos hs, range, size_eq hstop,
        if_pos (hs.trans seg.used_le_size_block), Segment.extract_block hs]
      rfl
    · simp only [Option.map_some, ok_bind, hused, if_neg hs]
      rfl

theorem readWord_eq {segment word : Nat} (h : word * bytesPerWord ≤ maxSize) :
    readWord a.backing segment word = ofFault (a.readWord segment word) := by
  rw [readWord, wordSpan_eq h, ok_bind, read_eq ha]
  refine ofFault_bind fun bs hbs => ?_
  have hl : bs.length = bytesPerWord := (read_eq_ok_iff.1 hbs).2.1
  rw [if_pos hl]
  rfl

theorem read_check {α : Type} {s : Span} {e : Except Halt α} {x : α}
    (h : s.stop ≤ maxBlock → e = .ok x) :
    (read a.backing s >>= fun _ => e) = ofFault (a.check s >>= fun _ => .ok x) := by
  rw [read_eq ha, Arena.read]
  cases hc : a.check s with
  | error f => rfl
  | ok _ =>
    have hs := check_eq_ok_iff.1 hc
    obtain ⟨seg, hseg⟩ := getElem?_of_lt hs.1
    rw [hseg, h (stop_le_of_holds ha hs)]
    rfl

/-- Landing pads are named by 29 bits. -/
theorem farPlace_eq (p : Word) : farPlace a.backing p = ofFault (a.farPlace p) := by
  have hpad : Pointer.padWord p < 2 ^ 29 := BitVec.isLt _
  have hmax : (2 ^ 29 + 1) * bytesPerWord ≤ maxSize := by decide
  rw [farPlace, readWord_eq ha ((Nat.mul_le_mul_right _ (by omega)).trans hmax)]
  refine ofFault_bind fun pad _ => ?_
  split
  · split
    · rfl
    · rw [readWord_eq ha ((Nat.mul_le_mul_right _ (by omega)).trans hmax)]
      exact ofFault_bind fun _ _ => rfl
  · split <;> rfl

theorem locate_eq (segment word : Nat) (p : Word) :
    locate a.backing segment word p = ofFault (a.place segment word p) := by
  rw [locate, Arena.place]
  cases Pointer.kind p with
  | far => exact farPlace_eq ha p
  | _ => rfl

variable {t : Tagged} (ht : (t.word + 1) * bytesPerWord ≤ maxSize)
include ht

theorem structAt_eq : structAt a.backing t = ofFault (a.structAt t) := by
  rw [Nat.succ_mul] at ht
  rw [structAt, size_eq (by omega)]
  refine read_check ha fun h => ofRegion_eq ?_
  exact h.trans maxBlock_le_maxSize

theorem compositeAt_eq : compositeAt a.backing t = ofFault (a.compositeAt t) := by
  have hword : t.word * bytesPerWord ≤ maxSize := by
    rw [Nat.succ_mul] at ht
    omega
  rw [compositeAt, readWord_eq ha hword, Arena.compositeAt]
  refine ofFault_bind fun header _ => ?_
  split
  · rfl
  · dsimp only
    split
    · rfl
    · rw [size_eq ht]
      exact read_check ha fun _ => rfl

theorem listAt_eq : listAt a.backing t = ofFault (a.listAt t) := by
  rw [listAt, Arena.listAt]
  cases ElementLayout.ofSize? (Pointer.elementSize t.tag) with
  | none => exact compositeAt_eq ha ht
  | some l =>
    rw [Nat.succ_mul] at ht
    dsimp only
    rw [size_eq (by omega)]
    exact read_check ha fun _ => rfl

theorem objectAt_eq : objectAt a.backing t = ofFault (a.objectAt t) := by
  rw [objectAt, Arena.objectAt]
  cases Pointer.kind t.tag with
  | struct => exact (congrArg _ (structAt_eq ha ht)).trans (ofFault_map _ _)
  | list => exact (congrArg _ (listAt_eq ha ht)).trans (ofFault_map _ _)
  | _ => rfl

end Source

/-- An object lies within reach of the pointer, or of the pad that leads to it. -/
theorem word_of_place {a : Arena} {segment word : Nat} {p : Word} {t : Tagged}
    (h : a.place segment word p = .ok t) (hw : word < 2 ^ 61) :
    t.word ≤ max word (2 ^ 29) + 2 ^ 29 := by
  have hfits (w : Word) : Pointer.padWord w < 2 ^ 29 := BitVec.isLt _
  cases route_of_place h with
  | near _ ht => exact (Pointer.target?_le ht hw).trans (by omega)
  | pad _ _ _ _ ht =>
    have hpad := hfits p
    exact (Pointer.target?_le ht (by omega)).trans (by omega)
  | @doublePad w _ _ _ _ _ _ _ =>
    have hpad := hfits w
    exact (Nat.le_of_lt hpad).trans (by omega)

theorem follow_eq {a : Arena} (ha : a.backing.Bounded) {segment word : Nat}
    (hw : (word + 1) * bytesPerWord ≤ maxBlock) (p : Word) :
    follow a.backing segment word p = ofFault (a.follow segment word p) := by
  rw [follow, locate_eq ha]
  refine ofFault_bind fun t ht => objectAt_eq ha ?_
  simp only [bytesPerWord, maxBlock, UInt64.size] at hw
  have hword := word_of_place ht (by omega)
  simp only [bytesPerWord, maxSize, UInt64.size]
  omega

section Steps

variable {α β : Type} {g : Guarded α} {k' : α → Guarded β} {m : Building α} {k : α → Building β}
  {a b : Arena}

/-- On the memory behind the arena the guarded step does what the step does on the arena, with the
same result or the same fault, unless that takes a block that cannot be had. Then it is stopped. -/
structure Mirrors (g : Guarded α) (m : Building α) (a : Arena) : Prop where
  evolves : Evolves a (m a).2
  agrees : a.backing.Bounded → (m a).2.backing.Bounded →
    g a.backing = (ofFault (m a).1, (m a).2.backing)
  stops : a.backing.Bounded → ¬ (m a).2.backing.Bounded →
    (g a.backing).1 = .error (.trap .capacity)

theorem bind_ok {x : α} {c d : Backing} (h : g c = (.ok x, d)) : (g >>= k') c = k' x d := by
  show ExceptT.bindCont k' (g c).1 (g c).2 = _
  rw [h]
  rfl

theorem bind_error {f : Halt} {c d : Backing} (h : g c = (.error f, d)) :
    (g >>= k') c = (.error f, d) := by
  show ExceptT.bindCont k' (g c).1 (g c).2 = _
  rw [h]
  rfl

theorem lift_ok {c : Backing} (x : α) :
    (liftExcept (.ok x : Except Halt α) : Guarded α) c = (.ok x, c) := rfl

namespace Mirrors

/-- A step that asks for no block. -/
theorem of_bounded (hev : Evolves a (m a).2)
    (hbound : a.backing.Bounded → (m a).2.backing.Bounded)
    (h : a.backing.Bounded → g a.backing = (ofFault (m a).1, (m a).2.backing)) : Mirrors g m a where
  evolves := hev
  agrees hb _ := h hb
  stops hb hn := absurd (hbound hb) hn

theorem pure (x : α) : Mirrors (Pure.pure x) (Pure.pure x) a :=
  of_bounded (.refl a) id fun _ => rfl

theorem throw (f : Fault) : Mirrors (throw (.fault f) : Guarded α) (throw f) a :=
  of_bounded (.refl a) id fun _ => rfl

theorem assuming (hm : Stepping m) (h : a.backing.Bounded → Mirrors g m a) : Mirrors g m a where
  evolves := (hm a).evolves
  agrees hb := (h hb).agrees hb
  stops hb := (h hb).stops hb

theorem congr {g' : Guarded α} {m' : Building α} (h : Mirrors g m a)
    (hg : a.backing.Bounded → g' a.backing = g a.backing) (hm : m' a = m a) : Mirrors g' m' a := by
  obtain ⟨hev, hagrees, hstops⟩ := h
  rw [← hm] at hev hagrees hstops
  refine ⟨hev, fun hb => ?_, fun hb => ?_⟩
  · rw [hg hb]
    exact hagrees hb
  · rw [hg hb]
    exact hstops hb

theorem bind (ha : a.Sound) (h : Mirrors g m a)
    (hk : ∀ x b, m a = (.ok x, b) → b.Sound → Mirrors (k' x) (k x) b) :
    Mirrors (g >>= k') (m >>= k) a := by
  obtain ⟨hev, hagrees, hstops⟩ := h
  obtain ⟨r, b, hm⟩ : ∃ r b, m a = (r, b) := ⟨_, _, rfl⟩
  rw [hm] at hev hagrees hstops
  cases r with
  | error f =>
    have hrun : (m >>= k) a = (.error f, b) := Building.bind_error hm
    refine ⟨by rw [hrun]; exact hev, fun hb hc => ?_, fun hb hc => ?_⟩
    · rw [hrun] at hc ⊢
      exact bind_error (hagrees hb hc)
    · rw [hrun] at hc
      rw [bind_error (Prod.ext (hstops hb hc) rfl)]
  | ok x =>
    have hrun : (m >>= k) a = k x b := Building.bind_ok hm
    have hnext := hk x b hm (hev.sound ha)
    refine ⟨by rw [hrun]; exact hev.trans hnext.evolves, fun hb hc => ?_, fun hb hc => ?_⟩
    · rw [hrun] at hc ⊢
      have hmid := hnext.evolves.bounded (hev.sound ha) hc
      rw [bind_ok (hagrees hb hmid)]
      exact hnext.agrees hmid hc
    · rw [hrun] at hc
      -- The block that cannot be had is asked for by the first step or by what follows it.
      by_cases hmid : b.backing.Bounded
      · rw [bind_ok (hagrees hb hmid)]
        exact hnext.stops hmid hc
      · rw [bind_error (Prod.ext (hstops hb hmid) rfl)]

theorem step (ha : a.Sound) {x : α} (h : Mirrors g m a) (hm : m a = (.ok x, b))
    (hk : b.Sound → Mirrors (k' x) (k x) b) : Mirrors (g >>= k') (m >>= k) a :=
  h.bind ha fun y c hy hs => by
    obtain ⟨hx, rfl⟩ := Prod.mk.inj (hm.symm.trans hy)
    obtain rfl := Except.ok.inj hx
    exact hk hs

theorem after (ha : a.Sound) (h : Mirrors g m a)
    (hk : ∀ x b, b.Sound → Mirrors (k' x) (k x) b) : Mirrors (g >>= k') (m >>= k) a :=
  h.bind ha fun x b _ => hk x b

theorem lift {e' : Except Halt α} {e : Except Fault α} (h : e' = ofFault e)
    (hk : ∀ x, e = .ok x → Mirrors (k' x) (k x) a) :
    Mirrors (liftExcept e' >>= k') (liftExcept e >>= k) a := by
  subst h
  cases e with
  | ok x => exact hk x rfl
  | error f => exact throw f

theorem guard {γ : Type} {e : Except Halt γ} {x : γ} {k' : γ → Guarded α} (h : e = .ok x)
    (hk : Mirrors (k' x) m a) : Mirrors (liftExcept e >>= k') m a := by
  subst h
  exact hk

end Mirrors

section Allocations

variable {n : Nat}

/-- Of a block there are never more bytes in use than it has. -/
theorem allocIn_eq (ha : a.Sound) (hb : a.backing.Bounded) (hn : roundUp n ≤ maxSize)
    {segment : Nat} {r : Option Span} (hr : a.allocIn segment n = (r, b)) :
    allocIn segment n a.backing = (.ok r, b.backing) := by
  have h := hr ▸ allocIn_backing ha segment n
  have hget : (get : Guarded Backing) a.backing = (.ok a.backing, a.backing) := rfl
  have hrun : allocIn segment n a.backing =
      (.ok (a.backing.allocIn segment n).1, (a.backing.allocIn segment n).2) := by
    rw [allocIn, size_eq hn, bind_ok (lift_ok _), bind_ok hget, Backing.allocIn]
    cases hblock : a.backing.blocks[segment]? with
    | none => rfl
    | some b =>
      have hle := hb b (Array.mem_of_getElem? hblock)
      have hmax := maxBlock_le_maxSize
      rw [getElem?_backing] at hblock
      obtain ⟨seg, _, rfl⟩ := Option.map_eq_some_iff.1 hblock
      have hused := seg.used_le_size_block
      have hsub : sub seg.block.storage.size seg.block.used =
          .ok (seg.block.storage.size - seg.block.used) := if_pos hused
      dsimp only
      rw [hsub]
      by_cases hc : seg.block.storage.size - seg.block.used < roundUp n
      · rw [if_pos hc, bind_ok (lift_ok _), if_pos hc]
        rfl
      · rw [if_neg hc, bind_ok (lift_ok _), if_neg hc, size_eq (by omega), bind_ok (lift_ok _)]
        rfl
  rw [hrun, h]

theorem allocFresh_eq (hn : roundUp n ≤ maxSize) (hfits : max (roundUp n) a.nextSize ≤ maxBlock) :
    allocFresh n a.backing = (.ok (a.allocFresh n).1, (a.allocFresh n).2.backing) := by
  have hget : (get : Guarded Backing) a.backing = (.ok a.backing, a.backing) := rfl
  have hnot : ¬ maxBlock < max (roundUp n) a.backing.nextSize := Nat.not_lt.2 hfits
  have hid : a.backing.blocks.size <
      (a.backing.openBlock (max (roundUp n) a.backing.nextSize)).blocks.size := by
    rw [Backing.openBlock, Array.size_push]
    exact Nat.lt_succ_self _
  rw [allocFresh, size_eq hn, bind_ok (lift_ok _), bind_ok hget, allocFresh_backing]
  dsimp only
  rw [if_neg hnot, if_pos hid, size_backing]
  rfl

theorem allocFresh_stops (hn : roundUp n ≤ maxSize)
    (hfits : ¬ max (roundUp n) a.nextSize ≤ maxBlock) :
    (allocFresh n a.backing).1 = .error (.trap .capacity) := by
  have hget : (get : Guarded Backing) a.backing = (.ok a.backing, a.backing) := rfl
  have hlt : maxBlock < max (roundUp n) a.backing.nextSize := Nat.lt_of_not_le hfits
  rw [allocFresh, size_eq hn, bind_ok (lift_ok _), bind_ok hget]
  dsimp only
  rw [if_pos hlt]
  rfl

/-- A region is given if there is room for it, and if not, as long as a block for it can be had. -/
theorem alloc_mirrors (ha : a.Sound) (hn : roundUp n ≤ maxSize) :
    Mirrors (alloc n) (modifyGet fun a => a.alloc n) a := by
  have hrun : (modifyGet fun a => a.alloc n : Building Span) a =
      (.ok (a.alloc n).1, (a.alloc n).2) := rfl
  have hget : (get : Guarded Backing) a.backing = (.ok a.backing, a.backing) := rfl
  have hcount : a.backing.blocks.size = a.segmentCount := size_backing a
  rcases alloc_cases a n with ⟨r, b, hin, he⟩ | ⟨hin, he⟩
  · refine .of_bounded (evolves_alloc a n) (fun hb => ?_) fun hb => ?_
    · rw [hrun, he]
      exact bounded_allocIn ha hb hin
    · rw [alloc, bind_ok hget, hcount, bind_ok (allocIn_eq ha hb hn hin), hrun, he]
      rfl
  · have hnone (hb : a.backing.Bounded) : alloc n a.backing = allocFresh n a.backing := by
      rw [alloc, bind_ok hget, hcount, bind_ok (allocIn_eq ha hb hn hin)]
    refine ⟨evolves_alloc a n, fun hb hc => ?_, fun hb hc => ?_⟩
    · rw [hrun, he] at hc ⊢
      rw [hnone hb, allocFresh_eq hn ((bounded_allocFresh_iff ha hb he).1 hc)]
      rfl
    · rw [hrun, he] at hc
      rw [hnone hb]
      exact allocFresh_stops hn (mt (bounded_allocFresh_iff ha hb he).2 hc)

theorem buildingAlloc_mirrors (ha : a.Sound) (h : checkBlock n = .ok ()) :
    Mirrors (alloc n) (Building.alloc n) a :=
  (alloc_mirrors ha ((checkBlock_eq_ok_iff.1 h).trans maxBlock_le_maxSize)).congr (fun _ => rfl)
    (alloc_run h)

theorem withPad_eq {r : Span} (hl : bytesPerWord ≤ r.length) (hs : r.stop ≤ maxSize) (c : Backing) :
    (do
      let content ← liftExcept (withoutFirst r)
      let pad ← liftExcept (word r 0)
      return ⟨content, some pad⟩ : Guarded Placement) c =
      (.ok ⟨⟨r.segment, r.start + bytesPerWord, r.length - bytesPerWord⟩,
        some ⟨r.segment, r.start, bytesPerWord⟩⟩, c) := by
  have hpad : word r 0 = ofFault (r.word 0) :=
    word_eq Nat.one_pos ((Nat.one_mul bytesPerWord).trans_le hl) hs
  have hfirst : r.word 0 = .ok ⟨r.segment, r.start, bytesPerWord⟩ := by
    rw [Span.word, Span.part_eq_ok (by omega), Nat.zero_mul, Nat.add_zero]
  rw [withoutFirst_eq hl hs, Span.part_eq_ok (Nat.add_sub_of_le hl).le, hpad, hfirst]
  rfl

theorem place_mirrors (ha : a.Sound) (slot : Span) (hn : n % bytesPerWord = 0)
    (hsize : n + bytesPerWord ≤ maxSize) : Mirrors (place slot n) (DeepCopy.place slot n) a := by
  have hround : roundUp n ≤ maxSize := by
    rw [roundUp_eq_self hn]
    omega
  have hround' : roundUp (n + bytesPerWord) ≤ maxSize := by
    rw [roundUp_eq_self ((Nat.add_mod_right n bytesPerWord).trans hn)]
    exact hsize
  have hrun := Arena.place_eq a slot n
  rcases allocIn_cases a slot.segment n with hin | ⟨r, b, hin, _, _⟩
  · -- There is no room beside the slot, so that the object goes elsewhere with its landing pad.
    obtain ⟨r, b, hr⟩ : ∃ r b, a.alloc (n + bytesPerWord) = (r, b) := ⟨_, _, rfl⟩
    have hf := hr ▸ fresh_alloc a (n + bytesPerWord)
    have hlength : bytesPerWord ≤ r.length := by
      have hle := le_roundUp (n + bytesPerWord)
      have hl : r.length = roundUp (n + bytesPerWord) := hf.length
      omega
    have hfresh : (modifyGet fun a => a.alloc (n + bytesPerWord) : Building Span) a = (.ok r, b) :=
      congrArg (fun x : Span × Arena => ((.ok x.1 : Except Fault Span), x.2)) hr
    obtain ⟨hev, hagrees, hstops⟩ := alloc_mirrors ha hround'
    rw [hfresh] at hev hagrees hstops
    rw [makeRoom_of_none hin hr] at hrun
    have hlead (hb : a.backing.Bounded) : place slot n a.backing =
        (alloc (n + bytesPerWord) >>= fun r => do
          let content ← liftExcept (withoutFirst r)
          let pad ← liftExcept (word r 0)
          return ⟨content, some pad⟩) a.backing := by
      rw [place, bind_ok (allocIn_eq ha hb hround hin)]
      dsimp only
      rw [size_eq hsize, bind_ok (lift_ok _)]
    refine ⟨by rw [hrun]; exact hev, fun hb hc => ?_, fun hb hc => ?_⟩
    · rw [hrun] at hc ⊢
      have hstop := stop_le_maxSize hc hf.holds
      rw [hlead hb, bind_ok (hagrees hb hc), withPad_eq hlength hstop]
      rfl
    · rw [hrun] at hc
      rw [hlead hb, bind_error (Prod.ext (hstops hb hc) rfl)]
  · have hev := hin ▸ evolves_allocIn a slot.segment n
    rw [makeRoom_of_some hin] at hrun
    refine .of_bounded (by rw [hrun]; exact hev) (fun hb => ?_) fun hb => ?_
    · rw [hrun]
      exact bounded_allocIn ha hb hin
    · rw [place, bind_ok (allocIn_eq ha hb hround hin), hrun]
      rfl

end Allocations

section Writes

variable {s : Span}

theorem write_mirrors (ha : a.Sound) {bs : List UInt8} (hl : bs.length = s.length) :
    Mirrors (write s bs) (Building.write s bs) a := by
  have hget : (get : Guarded Backing) a.backing = (.ok a.backing, a.backing) := rfl
  have hget' : (get : Building Arena) a = (.ok a, a) := rfl
  have hev := (Stepping.write s bs a).evolves
  have hcount : (Building.write s bs a).2.segmentCount = a.segmentCount := by
    rcases write_cases a s bs with ⟨_, _, h⟩ | ⟨_, f, h⟩
    · rw [h, segmentCount_patch]
    · rw [h]
  refine .of_bounded hev (hev.bounded_of_count ha hcount) fun hb => ?_
  rw [write, bind_ok hget, read_eq hb]
  cases hr : a.read s with
  | error f =>
    rw [Building.write, Building.bind_ok hget',
      Building.bind_error (Building.lift_error (check_eq_error hr))]
    rfl
  | ok old =>
    obtain ⟨hs, hold, _⟩ := read_eq_ok_iff.1 hr
    have hwrite := write_backing hs hl
    obtain ⟨seg, hseg, hstop⟩ := holds_iff.1 hs
    rw [Backing.write, getElem?_backing, hseg, Option.map_some] at hwrite
    have hpatch := Option.some.inj ((if_pos ⟨hstop, hl⟩).symm.trans hwrite)
    rw [Building.write_of_holds hs hl, ← hpatch, ofFault_ok, bind_ok (lift_ok _),
      if_pos (hl.trans hold.symm)]
    rfl

theorem writeWord_mirrors (ha : a.Sound) {segment word : Nat} (h : word * bytesPerWord ≤ maxSize)
    (w : Word) : Mirrors (writeWord segment word w) (Building.writeWord segment word w) a :=
  .guard (wordSpan_eq h) (write_mirrors ha (Word.length_toBytes w))

end Writes

end Steps

end Guarded

end FrozenDefaults
