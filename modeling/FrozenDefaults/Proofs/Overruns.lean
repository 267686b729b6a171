import FrozenDefaults.Proofs.Extents
import FrozenDefaults.Proofs.Trapless

/-!
# Reads out of range

A copy fails with a fault of range if it reads what is not in use. Below the
descriptor that it was given this happens only while a pointer is followed: an
object that a pointer leads to lies whole in the source, so that everything that
is read to fill its copy is there. What is left are the sections of the
descriptor itself, which nobody has checked.
-/

namespace FrozenDefaults

open Arena
open Building (Lands)
open DeepCopy (checkSlot)

/-- The fault tells of a range that is not in use. -/
def Fault.OfRange : Fault → Prop
  | .noSegment _ _ => True
  | .outOfBounds _ _ _ _ => True
  | _ => False

namespace Arena

variable {a : Arena} {segment word : Nat} {p : Word} {f : Fault}

/-- The spans that are looked at to follow the pointer `p`: its landing pad, a struct, a list with
its tag word, or a list without one. -/
inductive Consults (a : Arena) (segment word : Nat) (p : Word) : Span → Prop
  | pad (hk : Pointer.kind p = .far) :
      Consults a segment word p (wordSpan (Pointer.segment p) (Pointer.padWord p))
  | secondPad (hk : Pointer.kind p = .far) (hd : Pointer.isDouble p = true) :
      Consults a segment word p (wordSpan (Pointer.segment p) (Pointer.padWord p + 1))
  | struct {t : Tagged} (ht : a.Route segment word p t) (hk : Pointer.kind t.tag = .struct) :
      Consults a segment word p (structSpan t)
  | tag {t : Tagged} (ht : a.Route segment word p t) (hk : Pointer.kind t.tag = .list)
      (hs : Pointer.elementSize t.tag = .composite) :
      Consults a segment word p (wordSpan t.segment t.word)
  | composite {t : Tagged} (ht : a.Route segment word p t) (hk : Pointer.kind t.tag = .list)
      (hs : Pointer.elementSize t.tag = .composite) :
      Consults a segment word p (compositeSpan t)
  | untagged {t : Tagged} {l : ElementLayout} (ht : a.Route segment word p t)
      (hk : Pointer.kind t.tag = .list) (hs : Pointer.elementSize t.tag = l.size) :
      Consults a segment word p (bareSpan t l)

theorem check_of_readWord_error (h : a.readWord segment word = .error f) :
    a.check (wordSpan segment word) = .error f := by
  rcases bind_eq_error_iff.1 h with h | ⟨_, _, h⟩
  · exact check_eq_error h
  · cases h

theorem not_ofRange_of_checkSlot {slot : Span} (h : checkSlot slot = .error f) : ¬ f.OfRange := by
  unfold checkSlot at h
  split at h <;> cases h
  exact id

theorem not_ofRange_of_checkBlock {n : Nat} (h : checkBlock n = .error f) : ¬ f.OfRange := by
  unfold checkBlock at h
  split at h
  · cases h
    exact id
  · split at h <;> cases h
    exact id

theorem not_ofRange_of_nearPlace (h : nearPlace segment word p = .error f) : ¬ f.OfRange := by
  unfold nearPlace at h
  split at h <;> cases h
  exact id

theorem exists_consults_of_farPlace (hk : Pointer.kind p = .far) (hf : f.OfRange)
    (h : a.farPlace p = .error f) : ∃ s, a.Consults segment word p s ∧ a.check s = .error f := by
  rcases bind_eq_error_iff.1 h with h | ⟨w, _, h⟩
  · exact ⟨_, .pad hk, check_of_readWord_error h⟩
  split at h
  · rename_i hd
    split at h
    · cases h
      exact hf.elim
    · rcases bind_eq_error_iff.1 h with h | ⟨_, _, h⟩
      · exact ⟨_, .secondPad hk hd, check_of_readWord_error h⟩
      · cases h
  · split at h
    · cases h
      exact hf.elim
    · exact absurd hf (not_ofRange_of_nearPlace h)

theorem exists_consults_of_listAt {t : Tagged} (ht : a.Route segment word p t)
    (hk : Pointer.kind t.tag = .list) (hf : f.OfRange) (h : a.listAt t = .error f) :
    ∃ s, a.Consults segment word p s ∧ a.check s = .error f := by
  unfold listAt at h
  split at h
  · rename_i hl
    have hs := ElementLayout.eq_composite_of_ofSize? hl
    rw [compositeAt_eq] at h
    rcases bind_eq_error_iff.1 h with h | ⟨w, _, h⟩
    · exact ⟨_, .tag ht hk hs, check_of_readWord_error h⟩
    split at h
    · cases h
      exact hf.elim
    · split at h
      · cases h
        exact hf.elim
      · rcases bind_eq_error_iff.1 h with h | ⟨_, _, h⟩
        · exact ⟨_, .composite ht hk hs, h⟩
        · cases h
  · rename_i l hl
    rcases bind_eq_error_iff.1 h with h | ⟨_, _, h⟩
    · exact ⟨_, .untagged ht hk (ElementLayout.of_ofSize? hl).1, h⟩
    · cases h

/-- To follow a pointer fails with a fault of range only if one of the spans looked at has it. -/
theorem exists_consults (hf : f.OfRange) (h : a.follow segment word p = .error f) :
    ∃ s, a.Consults segment word p s ∧ a.check s = .error f := by
  rcases bind_eq_error_iff.1 h with h | ⟨t, ht, h⟩
  · unfold place at h
    split at h
    · cases h
      exact hf.elim
    · rename_i hk
      exact exists_consults_of_farPlace hk hf h
    · exact absurd hf (not_ofRange_of_nearPlace h)
    · exact absurd hf (not_ofRange_of_nearPlace h)
  · have hroute := route_of_place ht
    unfold objectAt at h
    split at h
    · rename_i hk
      rcases bind_eq_error_iff.1 (map_eq_error_iff.1 h) with h | ⟨_, _, h⟩
      · exact ⟨_, .struct hroute hk, h⟩
      · cases h
    · rename_i hk
      exact exists_consults_of_listAt hroute hk hf (map_eq_error_iff.1 h)
    · cases h
      exact hf.elim
    · cases h
      exact hf.elim

end Arena

section Readings

variable {α β : Type} {own : Fault → Prop} {slots : List Span} {a : Arena} {s t : Span}

/-- The reading ends with a fault of its own, or with that of one of the slots, to which it has
come. -/
def FailsBy (own : Fault → Prop) (slots : List Span)
    (r : (Span → Except Fault Value) → Except Fault α) : Prop :=
  ∀ value f, r value = .error f →
    own f ∨ ∃ slot ∈ slots, value slot = .error f ∧ ComesTo r value slot

/-- The faults of the parts of the span are among these. -/
def Arena.FaultsIn (a : Arena) (own : Fault → Prop) (s : Span) : Prop :=
  ∀ t f, t.Within s → a.check t = .error f → own f

theorem Arena.FaultsIn.mono (h : a.FaultsIn own s) (ht : t.Within s) : a.FaultsIn own t :=
  fun q f hq => h q f ⟨hq.1.trans ht.1, ht.2.1.trans hq.2.1, hq.2.2.trans ht.2.2⟩

theorem Arena.Holds.faultsIn (h : a.Holds s) : a.FaultsIn own s := by
  intro t f ht hc
  cases (check_of_holds (h.within ht)).symm.trans hc

theorem Span.eq_of_wordCount_error {f : Fault} (h : s.wordCount = .error f) :
    ¬ s.Aligned ∧ f = .unalignedSpan s.length := by
  unfold Span.wordCount at h
  split at h <;> cases h
  rename_i hal
  exact ⟨hal, rfl⟩

theorem own_of_dataOf {n : Nat} (hn : n ≤ s.length) (hdata : a.FaultsIn own s) {f : Fault}
    (h : a.dataOf s n = .error f) : own f := by
  rw [dataOf] at h
  split at h
  · rw [Span.part_eq_ok ((Nat.zero_add n).trans_le hn), ok_bind] at h
    have hpart : Span.Within ⟨s.segment, s.start + 0, n⟩ s :=
      ⟨rfl, Nat.le_refl _, Nat.add_le_add_left hn _⟩
    exact hdata _ f hpart (check_eq_error h)
  · cases h

namespace FailsBy

variable {r : (Span → Except Fault Value) → Except Fault α}

theorem const {e : Except Fault α} (h : ∀ f, e = .error f → own f) :
    FailsBy own slots fun _ => e :=
  fun _ f he => .inl (h f he)

theorem slot (hs : s ∈ slots) : FailsBy own slots fun value => value s :=
  fun _ _ he => .inr ⟨s, hs, he, fun _ => Function.update_self ..⟩

theorem map (h : FailsBy own slots r) (g : α → β) :
    FailsBy own slots fun value => r value >>= fun x => .ok (g x) := by
  intro value f he
  rcases bind_eq_error_iff.1 he with he | ⟨_, _, he⟩
  · exact (h value f he).imp_right fun ⟨q, hq, hf, hcome⟩ =>
      ⟨q, hq, hf, fun g => bind_eq_error_iff.2 (.inl (hcome g))⟩
  · cases he

theorem bind {k : α → (Span → Except Fault Value) → Except Fault β} (hr : Heeds r)
    (h : FailsBy own slots r) (hk : ∀ x, FailsBy own slots (k x)) :
    FailsBy own slots fun value => r value >>= fun x => k x value := by
  intro value f he
  rcases bind_eq_error_iff.1 he with he | ⟨x, hx, he⟩
  · exact (h value f he).imp_right fun ⟨q, hq, hf, hcome⟩ =>
      ⟨q, hq, hf, fun g => bind_eq_error_iff.2 (.inl (hcome g))⟩
  · exact (hk x value f he).imp_right fun ⟨q, hq, hf, hcome⟩ =>
      ⟨q, hq, hf, fun g => bind_eq_error_iff.2 (.inr ⟨x, hr.keeps hf hx g, hcome g⟩)⟩

theorem before {e : Except Fault α} (he : ∀ f, e = .error f → own f)
    {k : α → (Span → Except Fault Value) → Except Fault β}
    (hk : ∀ x, e = .ok x → FailsBy own slots (k x)) :
    FailsBy own slots fun value => e >>= fun x => k x value := by
  cases e with
  | ok x => exact hk x rfl
  | error f => exact const fun g hg => he g (congrArg _ (Except.error.inj hg))

theorem collect {step : Nat → (Span → Except Fault Value) → Except Fault α} {first count : Nat}
    (hr : ∀ i, Heeds (step i)) (h : ∀ i < first + count, FailsBy own slots (step i)) :
    FailsBy own slots fun value => FrozenDefaults.collect (fun i => step i value) first count := by
  induction count generalizing first with
  | zero => exact const fun _ hf => by cases hf
  | succ count ih =>
    refine (h first (by omega)).bind (hr first) fun x => ?_
    exact (ih fun i hi => h i (by omega)).map (x :: ·)

theorem slotsOf {count : Nat} (hlen : count * bytesPerWord ≤ s.length)
    (hs : ∀ i < count, ∀ q, s.word i = .ok q → q ∈ slots) :
    FailsBy own slots fun value => Arena.slotsOf value s count := by
  refine collect (fun _ => .before (.part _ _ _) .slot) fun i hi => ?_
  rw [Nat.zero_add] at hi
  have hword : s.word i = .ok _ := Span.part_eq_ok
    ((Nat.succ_mul _ _).symm.trans_le ((Nat.mul_le_mul_right _ hi).trans hlen))
  exact before (fun f hf => by cases hword.symm.trans hf) fun q hq => slot (hs i hi q hq)

theorem partOf {v : StructView} {d p : Nat} (hdata : a.FaultsIn own v.data)
    (hal : ∀ f, v.pointers.wordCount = .error f → own f)
    (hs : ∀ i < min (v.pointers.length / bytesPerWord) p, ∀ q, v.pointers.word i = .ok q →
      q ∈ slots) :
    FailsBy own slots fun value => a.partOf value v d p := by
  refine before (fun f hf => own_of_dataOf (Nat.min_le_left _ _) hdata hf) fun data _ => ?_
  refine before hal fun there hthere => ?_
  obtain ⟨_, rfl⟩ := Span.wordCount_eq_ok_iff.1 hthere
  refine (slotsOf ?_ hs).map _
  exact (Nat.mul_le_mul_right _ (Nat.min_le_left _ _)).trans (Nat.div_mul_le_self _ _)

theorem elementOf {d p : UInt16} {count i : Nat} (hi : i < count)
    (hroom : count * (ElementLayout.stride d p * bytesPerWord) ≤ s.length)
    (hdata : a.FaultsIn own s) (hal : s.Aligned ∨ ∀ n, own (.unalignedSpan n))
    (hs : ∀ j < p.toNat, ⟨s.segment, s.start + i * (ElementLayout.stride d p * bytesPerWord) +
      d.toNat * bytesPerWord + j * bytesPerWord, bytesPerWord⟩ ∈ slots) :
    FailsBy own slots fun value => a.elementOf value s d p i := by
  have hle : i * (ElementLayout.stride d p * bytesPerWord) +
      ElementLayout.stride d p * bytesPerWord ≤ s.length := by
    rw [← Nat.succ_mul]
    exact (Nat.mul_le_mul_right _ hi).trans hroom
  refine before (fun f hf => by cases (Span.part_eq_ok hle).symm.trans hf) fun there hthere => ?_
  obtain ⟨_, rfl⟩ := Span.part_eq_ok_iff.1 hthere
  refine partOf (hdata.mono ⟨rfl, Nat.le_add_right _ _, ?_⟩) (fun f hf => ?_) fun j hj q hq => ?_
  · have hd : d.toNat * bytesPerWord ≤ ElementLayout.stride d p * bytesPerWord :=
      Nat.mul_le_mul_right _ (Nat.le_add_right _ _)
    simp only [StructView.ofRegion, Span.stop]
    omega
  · obtain ⟨hn, rfl⟩ := Span.eq_of_wordCount_error hf
    refine hal.elim (fun hal => absurd ⟨Nat.mul_mod_left _ _, ?_⟩ hn) (fun h => h _)
    simp only [StructView.ofRegion, ← Nat.mul_assoc]
    rw [Nat.add_mul_mod_self_right, Nat.add_mul_mod_self_right]
    exact hal.2
  · rw [(Span.part_eq_ok_iff.1 hq).2]
    exact hs j (hj.trans_le (Nat.min_le_right _ _))

theorem listParts {v : ListView} (hroom : v.layout.payloadBytes v.count ≤ v.elements.length)
    (hdata : a.FaultsIn own v.elements) (hal : v.elements.Aligned ∨ ∀ n, own (.unalignedSpan n)) :
    FailsBy own v.slots fun value => a.listParts value v := by
  obtain ⟨s, l, count⟩ := v
  rcases l.trichotomy with rfl | ⟨d, p, rfl⟩ | hl
  · rw [ElementLayout.payloadBytes_pointer] at hroom
    have hslots : ListView.slots ⟨s, .pointer, count⟩ =
        wordsFrom s.segment s.start count.toNat := List.append_nil _
    rw [hslots]
    exact (slotsOf hroom fun i hi q hq => (Span.mem_wordsFrom_iff hroom).2 ⟨i, hi, hq⟩).map _
  · rw [ElementLayout.payloadBytes_composite] at hroom
    refine collect (fun _ => .before (.part _ _ _) fun _ => .partOf a _ _ _) fun i hi => ?_
    rw [Nat.zero_add] at hi
    refine elementOf hi hroom hdata hal fun j hj => ?_
    refine Shape.mem_slotsFrom.2 ⟨i, hi, mem_wordsFrom.2 ⟨j, hj, ?_⟩⟩
    rw [Shape.partBytes_composite]
    rfl
  · have hbare (value : Span → Except Fault Value) : a.listParts value ⟨s, l, count⟩ = _ :=
      listParts_bare hl
    simp only [hbare]
    exact before (fun f hf => own_of_dataOf hroom hdata hf) fun _ _ => const fun _ hf => by cases hf

end FailsBy

theorem Target.DeclaredIn.failsBy {target : Target} {t : Tagged} (h : target.DeclaredIn a t) :
    FailsBy (fun _ => False) target.slots fun value => a.targetOf value target := by
  cases target with
  | struct v =>
    have hformed := StructView.DeclaredIn.formed h
    refine .map (.partOf hformed.data.holds.faultsIn (fun f hf => ?_) fun i hi q hq => ?_) _
    · exact (Span.eq_of_wordCount_error hf).1 hformed.pointers.aligned
    · exact StructView.mem_slots_iff.2 ⟨i, hi.trans_le (Nat.min_le_left _ _), hq⟩
  | list v =>
    have hlist : v.DeclaredIn a t := h
    exact (FailsBy.listParts (ListView.room_of_validate hlist.valid) hlist.whole.holds.faultsIn
      (.inl hlist.whole.aligned)).map _

end Readings

namespace Arena

variable {a : Arena} {limit room : Nat} {slot q : Span} {w : Word} {f : Fault}

theorem Stops.follow_ne_ok (h : a.Stops limit room slot q w) (t : Target) :
    a.follow q.segment q.startWord w ≠ .ok t := by
  induction h with
  | here _ _ _ hstop => exact hstop t
  | inside _ _ _ _ _ _ ih => exact ih

/-- From a slot that can be read, nothing goes wrong but that a pointer cannot be followed or is one
too many. -/
theorem exists_stops_of_hasSlot (hslot : a.HasSlot slot)
    (h : a.valueAt limit room slot = .error f) :
    f = .tooDeep limit ∨
      ∃ q w, a.Stops limit room slot q w ∧ a.follow q.segment q.startWord w = .error f := by
  induction room generalizing slot with
  | zero =>
    obtain ⟨w, hw⟩ := hslot.exists_readWord
    rw [valueAt, wordValue, hslot.checkSlot, ok_bind, hw, ok_bind] at h
    split at h <;> cases h
    exact .inl rfl
  | succ room ih =>
    obtain ⟨w, hw⟩ := hslot.exists_readWord
    cases hn : Pointer.isNull w with
    | true =>
      have hnull : a.valueAt limit (room + 1) slot = .ok .null :=
        wordValue_eq_ok_iff.2 ⟨hslot.checkSlot, w, hw, .inl ⟨hn, rfl⟩⟩
      cases hnull.symm.trans h
    | false =>
      rw [valueAt_of_word hslot.checkSlot hw hn] at h
      rcases bind_eq_error_iff.1 h with h | ⟨t, ht, h⟩
      · refine .inr ⟨slot, w, .here hslot.checkSlot hw hn fun t ht => ?_, h⟩
        cases ht.symm.trans h
      · obtain ⟨_, _, hdeclared⟩ := declaredIn_of_follow ht
        obtain hnone | ⟨inner, hmem, hinner, hcome⟩ := hdeclared.failsBy _ f h
        · exact hnone.elim
        · refine (ih (hdeclared.hasSlot hmem) hinner).imp_right ?_
          rintro ⟨q, v, hstops, hf⟩
          exact ⟨q, v, .inside hslot.checkSlot hw hn ht hcome hstops, hf⟩

theorem hasSlot_or_check (hf : f.OfRange) (h : a.valueAt limit room slot = .error f) :
    a.HasSlot slot ∨ a.check slot = .error f := by
  obtain ⟨beyond, hbeyond⟩ : ∃ beyond, a.valueAt limit room slot = a.wordValue beyond slot := by
    cases room <;> exact ⟨_, rfl⟩
  rw [hbeyond] at h
  rcases bind_eq_error_iff.1 h with h | ⟨_, hc, h⟩
  · exact absurd hf (not_ofRange_of_checkSlot h)
  · obtain ⟨hl, hal⟩ := DeepCopy.checkSlot_eq_ok_iff.1 hc
    have hspan : wordSpan slot.segment slot.startWord = slot := by
      rw [wordSpan, startWord_mul hal, ← hl]
    rcases bind_eq_error_iff.1 h with h | ⟨w, hw, _⟩
    · exact .inr (hspan ▸ check_of_readWord_error h)
    · obtain ⟨bs, hread, _⟩ := bind_eq_ok_iff.1 hw
      exact .inl ⟨hspan ▸ holds_of_read hread, hl, hal⟩

end Arena

/-- Where a fault comes from that ends the copy of the object `t` into a slot. From one of its slots
the walk comes to a pointer that cannot be followed, or to one too many, or else all is read and the
slot is not in use in what is left. -/
inductive FillOrigin (source : Arena) (limit room : Nat) (t : Target) (slot : Span) (left : Arena)
    (f : Fault) : Prop
  | slot (inner : Span) (hmem : inner ∈ t.slots)
      (hcome : ComesTo (fun value => source.targetOf value t) (source.valueAt limit room) inner)
      (hvalue : source.valueAt limit room inner = .error f)
      (hbelow : f = .tooDeep limit ∨ ∃ q w, source.Stops limit room inner q w ∧
        source.follow q.segment q.startWord w = .error f)
  | landing (hall : ∃ v, source.targetOf (source.valueAt limit room) t = .ok v)
      (hcheck : left.check slot = .error f)

/-- A fault of range is that of one of these spans. -/
def Arena.Blames (a : Arena) (own : Span → Prop) (f : Fault) : Prop :=
  f.OfRange → ∃ s, own s ∧ a.check s = .error f

/-- Where a fault of range comes from that ends the reading of a descriptor. Either the walk stops
at a pointer and a span has the fault that is looked at to follow it, or the walk stops nowhere and
the fault is that of a span of the descriptor's own. -/
inductive RangeOrigin {α : Type} (source : Arena) (limit : Nat) (own : Span → Prop)
    (r : (Span → Except Fault Value) → Except Fault α) (f : Fault) : Prop
  | below (q : Span) (w : Word) (hstops : source.WalkStops limit r q w)
      (hfollow : source.follow q.segment q.startWord w = .error f) (s : Span)
      (hs : source.Consults q.segment q.startWord w s) (hcheck : source.check s = .error f)
  | above (hnone : ∀ q w, ¬ source.WalkStops limit r q w) (s : Span) (hs : own s)
      (hcheck : source.check s = .error f)

/-- A reading that fails only by itself and by its slots has a fault of range from above or below. -/
theorem rangeOrigin {α : Type} {source : Arena} {limit : Nat} {own : Span → Prop}
    {r : (Span → Except Fault Value) → Except Fault α} {slots : List Span} {f : Fault}
    (hr : FailsBy (source.Blames own) slots r) (hslots : ∀ q ∈ slots, own q) (hf : f.OfRange)
    (h : r (source.valueAt limit limit) = .error f) :
    RangeOrigin source limit own r f := by
  by_cases hstops : ∃ q w, source.WalkStops limit r q w
  · -- The reading ends where the walk stops, and with the fault of the pointer there.
    obtain ⟨q, w, hstops⟩ := hstops
    cases hfollow : source.follow q.segment q.startWord w with
    | ok t =>
      obtain ⟨_, _, hstop⟩ := hstops
      exact absurd hfollow (hstop.follow_ne_ok t)
    | error g =>
      obtain rfl := Except.error.inj (h.symm.trans (hstops.eq_error hfollow))
      obtain ⟨s, hs, hcheck⟩ := exists_consults hf hfollow
      exact .below q w hstops hfollow s hs hcheck
  · have hnone (q : Span) (w : Word) : ¬ source.WalkStops limit r q w := fun h => hstops ⟨q, w, h⟩
    obtain hown | ⟨slot, hmem, hslot, hcome⟩ := hr _ f h
    · obtain ⟨s, hs, hcheck⟩ := hown hf
      exact .above hnone s hs hcheck
    · -- No pointer stops the walk, so that a slot can fail only because it is not there.
      rcases hasSlot_or_check hf hslot with hheld | hcheck
      · rcases exists_stops_of_hasSlot hheld hslot with rfl | ⟨q, w, hstop, _⟩
        · exact hf.elim
        · exact absurd ⟨slot, hcome, hstop⟩ (hnone q w)
      · exact .above hnone slot (hslots slot hmem) hcheck

theorem Building.Lands.of_error {α : Type} {m : Building Unit} {a : Arena} {slot : Span}
    {r : Except Fault α} {done : α → Arena} (h : Lands m a slot r done) {f : Fault}
    (hm : (m a).1 = .error f) :
    r = .error f ∨ (∃ x, r = .ok x) ∧ (m a).2.check slot = .error f := by
  cases hr : r with
  | error g => exact .inl (congrArg _ (Except.error.inj ((h.error g hr).symm.trans hm)))
  | ok x =>
    rw [h.ok x hr] at hm ⊢
    exact .inr ⟨⟨x, rfl⟩, hm⟩

section Copies

variable {source dest : Arena} {limit : Nat} {f : Fault}

theorem copyStruct_rangeOrigin (hd : dest.Sound) (src : StructView) (d p : Nat) (hf : f.OfRange)
    (h : (DeepCopy.copyStruct source limit src d p dest).1 = .error f) :
    RangeOrigin source limit (fun s => s.Within src.data ∨ s.Within src.pointers)
      (fun value => source.partOf value src d p) f := by
  have hr : FailsBy (source.Blames fun s => s.Within src.data ∨ s.Within src.pointers) src.slots
      fun value => source.partOf value src d p := by
    refine .partOf (fun t g ht hc _ => ⟨t, .inl ht, hc⟩) (fun g hg hrange => ?_) fun i hi q hq => ?_
    · obtain ⟨_, rfl⟩ := Span.eq_of_wordCount_error hg
      exact hrange.elim
    · exact StructView.mem_slots_iff.2 ⟨i, hi.trans_le (Nat.min_le_left _ _), hq⟩
  rcases bind_eq_error_iff.1 ((copyStruct_realizes src d p hd).error_iff.1 h) with h | ⟨_, _, h⟩
  · exact absurd hf (not_ofRange_of_checkBlock h)
  · refine rangeOrigin hr (fun q hq => ?_) hf h
    obtain ⟨i, _, hi⟩ := StructView.mem_slots_iff.1 hq
    exact .inr (Span.within_of_word hi)

theorem copyList_rangeOrigin (hd : dest.Sound) (src : ListView) (hf : f.OfRange)
    (h : (DeepCopy.copyList source limit src dest).1 = .error f) :
    RangeOrigin source limit (·.Within src.elements) (source.listParts · src) f := by
  have h := (copyList_realizes src hd).error_iff.1 h
  rcases bind_eq_error_iff.1 h with h | ⟨_, hvalid, h⟩
  · simp only [ListView.validate] at h
    split at h <;> cases h
    exact hf.elim
  · have hroom := ListView.room_of_validate hvalid
    have hr : FailsBy (source.Blames (·.Within src.elements)) src.slots
        (source.listParts · src) :=
      .listParts hroom (fun t g ht hc _ => ⟨t, ht, hc⟩) (.inr fun _ hrange => hrange.elim)
    refine rangeOrigin hr (fun q hq => ?_) hf h
    obtain ⟨i, hi⟩ := ListView.exists_word_of_mem_slots hroom hq
    exact Span.within_of_word hi

/-- While the copy of an object is filled that a pointer leads to, all is there that is read of the
object itself. -/
theorem copyTarget_fillOrigin {room : Nat} {src slot : Span} {p : Word} {t : Target}
    (hd : dest.Sound) (hs : checkSlot slot = .ok ())
    (ht : source.follow src.segment src.startWord p = .ok t)
    (h : (DeepCopy.copyTarget source (DeepCopy.copySlot source limit room) src slot p dest).1 =
      .error f) :
    FillOrigin source limit room t slot
      (DeepCopy.copyTarget source (DeepCopy.copySlot source limit room) src slot p dest).2 f := by
  have hlands : Lands (DeepCopy.copyTarget source _ src slot p) dest slot _ _ :=
    (copiesSlots_copySlot source limit room).copyTarget_lands hs hd src p
  rw [ht, ok_bind] at hlands
  rcases hlands.of_error h with hread | ⟨hall, hcheck⟩
  · obtain ⟨_, _, hdeclared⟩ := declaredIn_of_follow ht
    obtain hnone | ⟨inner, hmem, hinner, hcome⟩ := hdeclared.failsBy _ f hread
    · exact hnone.elim
    · exact .slot inner hmem hcome hinner (exists_stops_of_hasSlot (hdeclared.hasSlot hmem) hinner)
  · exact .landing hall hcheck

theorem copyPointer_rangeOrigin (hd : dest.Sound) (src slot : Span) (hf : f.OfRange)
    (h : (DeepCopy.copyPointer source limit src slot dest).1 = .error f) :
    RangeOrigin source limit (· = src) (fun value => value src) f ∨
      (∃ v, source.valueAt limit limit src = .ok v) ∧
        (DeepCopy.copyPointer source limit src slot dest).2.check slot = .error f := by
  cases hs : checkSlot slot with
  | error g =>
    have hrun : (DeepCopy.copyPointer source limit src slot dest).1 =
        (checkSlot src >>= fun _ => .error g) := by
      cases limit <;> rw [DeepCopy.copyPointer, DeepCopy.copySlot, copyWord_of_misaligned hs]
    rw [hrun] at h
    rcases bind_eq_error_iff.1 h with h | ⟨_, _, h⟩
    · exact absurd hf (not_ofRange_of_checkSlot h)
    · exact absurd hf (not_ofRange_of_checkSlot (hs.trans h))
  | ok _ =>
    refine ((copySlot_lands hs limit hd).of_error h).imp_left fun hread => ?_
    exact rangeOrigin (.slot (List.mem_singleton_self src)) (fun q hq => List.mem_singleton.1 hq)
      hf hread

end Copies

/-- Whatever words the source has, a pointer that can be followed leads to an object that lies whole
in one segment, as the tag at the end of its route declares it, and of which all can be read. While
the copy of the object is filled, into whatever slot of whatever arena, no reading of its own fails.
If a copy fails with a fault of range, then a span that is looked at to follow a pointer has it, or
it is that of the descriptor or the slot that was given. -/
theorem follow_vouches_for_objects (source : Arena) :
    (∀ (segment word : Nat) (p : Word) (target : Target),
      source.follow segment word p = .ok target →
      (∃ t, source.Route segment word p t ∧ target.DeclaredIn source t) ∧
        target.ReadableIn source) ∧
    ∀ (limit : Nat) (dest : Arena), dest.Reachable →
      (∀ (room : Nat) (src slot : Span) (p : Word) (t : Target) (f : Fault),
        let run := DeepCopy.copyTarget source (DeepCopy.copySlot source limit room) src slot p dest
        checkSlot slot = .ok () → source.follow src.segment src.startWord p = .ok t →
        run.1 = .error f → FillOrigin source limit room t slot run.2 f) ∧
      (∀ (src : StructView) (d p : Nat) (f : Fault), f.OfRange →
        (DeepCopy.copyStruct source limit src d p dest).1 = .error f →
        RangeOrigin source limit (fun s => s.Within src.data ∨ s.Within src.pointers)
          (fun value => source.partOf value src d p) f) ∧
      (∀ (src : ListView) (f : Fault), f.OfRange →
        (DeepCopy.copyList source limit src dest).1 = .error f →
        RangeOrigin source limit (·.Within src.elements) (source.listParts · src) f) ∧
      ∀ (src slot : Span) (f : Fault), f.OfRange →
        (DeepCopy.copyPointer source limit src slot dest).1 = .error f →
        RangeOrigin source limit (· = src) (fun value => value src) f ∨
          (∃ v, source.valueAt limit limit src = .ok v) ∧
            (DeepCopy.copyPointer source limit src slot dest).2.check slot = .error f := by
  refine ⟨fun segment word p target h => ?_, fun limit dest hd => ⟨?_, ?_, ?_, ?_⟩⟩
  · obtain ⟨t, hroute, hdeclared⟩ := declaredIn_of_follow h
    exact ⟨⟨t, hroute, hdeclared⟩, hdeclared.readableIn⟩
  · exact fun room src slot p t f hs ht h => copyTarget_fillOrigin hd.sound hs ht h
  · exact fun src d p f hf h => copyStruct_rangeOrigin hd.sound src d p hf h
  · exact fun src f hf h => copyList_rangeOrigin hd.sound src hf h
  · exact fun src slot f hf h => copyPointer_rangeOrigin hd.sound src slot hf h

/-- A list of one struct behind a double landing pad, whose only pointer leads to a segment that is
not there. -/
def Arena.dangling : Arena :=
  behindPad true [Pointer.ofFar false 2 1, Pointer.ofList 0 .composite 2, Pointer.ofTag 1 1 1, 42,
    Pointer.ofFar false 0 7]

/-- The list is found, and all of it is there but what its pointer leads to. A copy of it, of its
struct or of the pointer to it fails with the fault of that pointer, and a copy of a struct in the
missing segment fails at once. -/
theorem follow_vouches_for_objects_sample :
    let p := Pointer.ofFar true 0 1
    let v : ListView := ⟨⟨1, 24, 16⟩, .composite 1 1, 1⟩
    let inner : StructView := ⟨⟨1, 24, 8⟩, ⟨1, 32, 8⟩⟩
    let gone : StructView := ⟨⟨7, 0, 8⟩, ⟨7, 8, 0⟩⟩
    let own (v : StructView) (s : Span) : Prop := s.Within v.data ∨ s.Within v.pointers
    let f : Fault := .noSegment 7 2
    let slot : Span := ⟨0, 0, 8⟩
    let copySlot := DeepCopy.copySlot dangling 64 63
    let copy := DeepCopy.copyPointer dangling 64 slot slot
    (∃ t, dangling.Route slot.segment slot.startWord p t ∧
      (Target.list v).DeclaredIn dangling t) ∧
    (Target.list v).ReadableIn dangling ∧
    FillOrigin dangling 64 63 (.list v) slot
      (DeepCopy.copyTarget dangling copySlot slot slot p crowded).2 f ∧
    RangeOrigin dangling 64 (own inner) (fun value => dangling.partOf value inner 1 1) f ∧
    RangeOrigin dangling 64 (own gone) (fun value => dangling.partOf value gone 1 0) f ∧
    RangeOrigin dangling 64 (·.Within v.elements) (dangling.listParts · v) f ∧
    (RangeOrigin dangling 64 (· = slot) (fun value => value slot) f ∨
      (∃ x, dangling.valueAt 64 64 slot = .ok x) ∧ (copy crowded).2.check slot = .error f) := by
  intro p v inner gone own f slot copySlot copy
  have ha : crowded.Reachable := (Reachable.withCapacity 8).alloc 8
  have hfollow : dangling.follow slot.segment slot.startWord p = .ok (.list v) := by
    decide +kernel
  obtain ⟨hwhole, hcopies⟩ := follow_vouches_for_objects dangling
  obtain ⟨hfill, hstruct, hlist, hpointer⟩ := hcopies 64 crowded ha
  obtain ⟨hdeclared, hreadable⟩ := hwhole slot.segment slot.startWord p _ hfollow
  refine ⟨hdeclared, hreadable, ?_, ?_, ?_, ?_, ?_⟩
  · exact hfill 63 slot slot p _ f (by decide) hfollow (by decide +kernel)
  · exact hstruct inner 1 1 f trivial (by decide +kernel)
  · exact hstruct gone 1 0 f trivial (by decide +kernel)
  · exact hlist v f trivial (by decide +kernel)
  · exact hpointer _ _ f trivial (by decide +kernel)

end FrozenDefaults
