import FrozenDefaults.Proofs.Preservation

/-!
# How a copy ends

A copy into a reachable arena ends as the reading of its source does: it succeeds
where the source can be read, and otherwise stops with the fault of the reading.
The destination has no say in this. No step on the way leaves a span it was
given.
-/

namespace FrozenDefaults

open Arena
open Building (Realizes)

/-- How a step ends, whatever it returns. -/
def outcome {α : Type} (r : Except Fault α) : Except Fault Unit := r.map fun _ => ()

/-- The step stayed within the ranges it was given, whether it failed or not. -/
def Contained {α : Type} (r : Except Fault α) : Prop := ∀ what, r ≠ .error (.breach what)

section Results

variable {α β : Type} {r : Except Fault α}

theorem outcome_bind_ok (r : Except Fault α) (g : α → β) :
    outcome (r >>= fun x => .ok (g x)) = outcome r := by cases r <;> rfl

theorem Building.Realizes.outcome_eq {m : Building β} {a : Arena} {R : Nat → Nat → Prop}
    {done : α → β × Arena} (h : Realizes m a R r done) : outcome (m a).1 = outcome r := by
  cases r with
  | ok x =>
    rw [h.ok x rfl]
    rfl
  | error f =>
    rw [h.error f rfl]
    rfl

theorem error_of_outcome {f : Fault} (h : outcome r = .error f) : r = .error f := by
  cases r with
  | ok x => cases h
  | error g => exact congrArg _ (Except.error.inj h)

namespace Contained

theorem ok (x : α) : Contained (.ok x) := by
  intro what h
  cases h

theorem bind {k : α → Except Fault β} (h : Contained r) (hk : ∀ x, r = .ok x → Contained (k x)) :
    Contained (r >>= k) := by
  cases r with
  | ok x => exact hk x rfl
  | error f =>
    intro what he
    have hf : f = .breach what := Except.error.inj he
    exact h what (congrArg _ hf)

theorem map (h : Contained r) (g : α → β) : Contained (g <$> r) := by
  rw [map_eq_pure_bind]
  exact h.bind fun _ _ => ok _

theorem part {s : Span} {offset n : Nat} (h : offset + n ≤ s.length) :
    Contained (s.part offset n) := by
  rw [Span.part_eq_ok h]
  exact ok _

theorem wordCount (s : Span) : Contained s.wordCount := by
  intro what h
  unfold Span.wordCount at h
  split at h <;> cases h

theorem validate (v : ListView) : Contained v.validate := by
  intro what h
  simp only [ListView.validate] at h
  split at h <;> cases h

theorem checkSlot (s : Span) : Contained (DeepCopy.checkSlot s) := by
  intro what h
  unfold DeepCopy.checkSlot at h
  split at h <;> cases h

theorem collect {step : Nat → Except Fault α} {first count : Nat}
    (h : ∀ i, first ≤ i → i < first + count → Contained (step i)) :
    Contained (collect step first count) := by
  induction count generalizing first with
  | zero => exact ok _
  | succ count ih =>
    refine (h first (Nat.le_refl _) (by omega)).bind fun _ _ => ?_
    exact (ih fun i hi hi' => h i (by omega) (by omega)).bind fun _ _ => ok _

end Contained

end Results

theorem ListView.room_of_validate {v : ListView} (h : v.validate = .ok ()) :
    v.layout.payloadBytes v.count ≤ v.elements.length := by
  by_contra hshort
  rw [validate, if_pos (Nat.lt_of_not_le hshort)] at h
  cases h

namespace Arena

variable {a : Arena} {value : Span → Except Fault Value}

theorem contained_check (s : Span) : Contained (a.check s) := by
  intro what h
  unfold check at h
  split at h
  · cases h
  · split at h <;> cases h

theorem contained_read (s : Span) : Contained (a.read s) := by
  refine (contained_check s).bind fun _ _ => ?_
  split <;> exact .ok _

theorem contained_readWord (segment word : Nat) : Contained (a.readWord segment word) :=
  (contained_read _).bind fun _ _ => .ok _

theorem contained_nearPlace (segment word : Nat) (p : Word) :
    Contained (nearPlace segment word p) := by
  intro what h
  unfold nearPlace at h
  split at h <;> cases h

theorem contained_farPlace (p : Word) : Contained (a.farPlace p) := by
  refine (contained_readWord _ _).bind fun pad _ => ?_
  split
  · split
    · rintro _ ⟨⟩
    · exact (contained_readWord _ _).bind fun _ _ => .ok _
  · split
    · rintro _ ⟨⟩
    · exact contained_nearPlace _ _ _

theorem contained_place (segment word : Nat) (p : Word) : Contained (a.place segment word p) := by
  unfold place
  split
  · rintro _ ⟨⟩
  · exact contained_farPlace p
  · exact contained_nearPlace _ _ _
  · exact contained_nearPlace _ _ _

theorem contained_compositeAt (t : Tagged) : Contained (a.compositeAt t) := by
  rw [compositeAt_eq]
  refine (contained_readWord _ _).bind fun header _ => ?_
  split
  · rintro _ ⟨⟩
  · split
    · rintro _ ⟨⟩
    · exact (contained_check _).bind fun _ _ => .ok _

theorem contained_objectAt (t : Tagged) : Contained (a.objectAt t) := by
  unfold objectAt
  split
  · exact ((contained_check _).bind fun _ _ => .ok _).map _
  · refine Contained.map ?_ _
    unfold listAt
    split
    · exact contained_compositeAt t
    · exact (contained_check _).bind fun _ _ => .ok _
  · rintro _ ⟨⟩
  · rintro _ ⟨⟩

theorem contained_follow (segment word : Nat) (p : Word) : Contained (a.follow segment word p) :=
  (contained_place segment word p).bind fun t _ => contained_objectAt t

theorem follow_list_room {segment word : Nat} {p : Word} {v : ListView}
    (h : a.follow segment word p = .ok (.list v)) :
    v.layout.payloadBytes v.count ≤ v.elements.length := by
  obtain ⟨t, _, h⟩ := bind_eq_ok_iff.1 h
  rcases objectAt_cases h with ⟨_, _, _, he⟩ | ⟨w, _, hw, he⟩
  · cases he
  · obtain rfl := Target.list.inj he
    rcases listAt_cases hw with ⟨_, hw⟩ | ⟨l, _, _, _, rfl⟩
    · obtain ⟨header, _, _, hwords, _, rfl⟩ := compositeAt_eq_ok_iff.1 hw
      rw [ElementLayout.payloadBytes_composite, ← Nat.mul_assoc,
        Nat.mul_comm _ (ElementLayout.stride _ _)]
      exact Nat.mul_le_mul_right _ hwords
    · exact l.payloadBytes_le_storageBytes _

section Reading

theorem contained_dataOf {s : Span} {n : Nat} (h : n ≤ s.length) : Contained (a.dataOf s n) := by
  unfold dataOf
  split
  · exact (Contained.part ((Nat.zero_add n).trans_le h)).bind fun _ _ => contained_read _
  · exact .ok _

variable (hv : ∀ s, Contained (value s))
include hv

theorem contained_slotsOf {s : Span} {count : Nat} (h : count * bytesPerWord ≤ s.length) :
    Contained (slotsOf value s count) := by
  refine Contained.collect fun i _ hi => (Contained.part ?_).bind fun t _ => hv t
  rw [← Nat.succ_mul]
  exact (Nat.mul_le_mul_right _ (by omega)).trans h

theorem contained_partOf (v : StructView) (d p : Nat) : Contained (a.partOf value v d p) := by
  refine (contained_dataOf (Nat.min_le_left _ _)).bind fun _ _ => ?_
  refine (Contained.wordCount _).bind fun there hthere => ?_
  obtain ⟨_, rfl⟩ := Span.wordCount_eq_ok_iff.1 hthere
  refine (contained_slotsOf hv ?_).bind fun _ _ => .ok _
  exact (Nat.mul_le_mul_right _ (Nat.min_le_left _ _)).trans (Nat.div_mul_le_self _ _)

theorem contained_listParts {v : ListView}
    (h : v.layout.payloadBytes v.count ≤ v.elements.length) : Contained (a.listParts value v) := by
  rcases v.layout.trichotomy with hl | ⟨d, p, hl⟩ | hl
  · rw [hl, ElementLayout.payloadBytes_pointer] at h
    rw [listParts, hl]
    exact (contained_slotsOf hv h).bind fun _ _ => .ok _
  · rw [hl, ElementLayout.payloadBytes_composite] at h
    rw [listParts, hl]
    refine Contained.collect fun i _ hi => (Contained.part ?_).bind fun _ _ =>
      contained_partOf hv _ _ _
    rw [← Nat.succ_mul]
    exact (Nat.mul_le_mul_right _ (by omega)).trans h
  · rw [listParts_bare hl]
    exact (contained_dataOf h).bind fun _ _ => .ok _

theorem contained_targetOf {segment word : Nat} {p : Word} {t : Target}
    (h : a.follow segment word p = .ok t) : Contained (a.targetOf value t) := by
  cases t with
  | struct v => exact (contained_partOf hv _ _ _).bind fun _ _ => .ok _
  | list v => exact (contained_listParts hv (follow_list_room h)).bind fun _ _ => .ok _

end Reading

theorem contained_wordValue {beyond : Word → Except Fault Value}
    (h : ∀ p, Contained (beyond p)) (slot : Span) : Contained (a.wordValue beyond slot) := by
  refine (Contained.checkSlot slot).bind fun _ _ => (contained_readWord _ _).bind fun p _ => ?_
  split
  · exact .ok _
  · exact h p

/-- Reading a value never leaves a range. -/
theorem contained_valueAt (limit room : Nat) (slot : Span) :
    Contained (a.valueAt limit room slot) := by
  induction room generalizing slot with
  | zero => exact contained_wordValue (fun _ => by rintro _ ⟨⟩) slot
  | succ room ih =>
    exact contained_wordValue (fun p => (contained_follow _ _ p).bind fun _ ht =>
      contained_targetOf ih ht) slot

theorem contained_structValue (limit : Nat) (v : StructView) (d p : Nat) :
    Contained (a.structValue limit v d p) :=
  (contained_partOf (contained_valueAt limit limit) v d p).bind fun _ _ => .ok _

theorem contained_listValue (limit : Nat) (v : ListView) : Contained (a.listValue limit v) := by
  refine (Contained.validate v).bind fun _ hvalid => ?_
  exact (contained_listParts (contained_valueAt limit limit)
    (ListView.room_of_validate hvalid)).bind fun _ _ => .ok _

end Arena

section Copies

variable {source a b : Arena} {limit : Nat}

theorem copyStruct_outcome (src : StructView) {d p : Nat} (ha : a.Sound)
    (h : (d + p) * bytesPerWord ≤ maxBlock) :
    outcome (DeepCopy.copyStruct source limit src d p a).1 =
      outcome (source.structValue limit src d p) := by
  have hread : outcome (DeepCopy.copyStruct source limit src d p a).1 = _ :=
    (copyStruct_realizes src d p ha).outcome_eq
  rw [checkBlock_of_words (Nat.mul_mod_left _ _) h] at hread
  exact hread.trans (outcome_bind_ok _ _).symm

/-- A struct for which there can be no block is refused before anything is read. -/
theorem copyStruct_of_large (src : StructView) {d p : Nat}
    (h : maxBlock < (d + p) * bytesPerWord) (a : Arena) :
    DeepCopy.copyStruct source limit src d p a = (.error (.breach
      (if maxSize < (d + p) * bytesPerWord then .overflow else .capacity)), a) :=
  Building.bind_error (Building.bind_error (Building.lift_error
    (checkBlock_of_lt (Nat.mul_mod_left _ _) h)))

theorem copyStruct_outcome_iff (src : StructView) (d p : Nat) (ha : a.Sound) :
    outcome (DeepCopy.copyStruct source limit src d p a).1 =
      outcome (source.structValue limit src d p) ↔ (d + p) * bytesPerWord ≤ maxBlock := by
  refine ⟨fun h => Nat.not_lt.1 fun hlt => ?_, copyStruct_outcome src ha⟩
  rw [copyStruct_of_large src hlt a] at h
  exact contained_structValue limit src d p _ (error_of_outcome h.symm)

theorem copyStruct_outcome_eq (src : StructView) (d p : Nat) (ha : a.Sound) (hb : b.Sound) :
    outcome (DeepCopy.copyStruct source limit src d p a).1 =
      outcome (DeepCopy.copyStruct source limit src d p b).1 :=
  (copyStruct_realizes src d p ha).outcome_eq.trans (copyStruct_realizes src d p hb).outcome_eq.symm

theorem copyList_outcome (src : ListView) (ha : a.Sound) :
    outcome (DeepCopy.copyList source limit src a).1 = outcome (source.listValue limit src) := by
  have hv : source.listValue limit src = (src.validate >>= fun _ =>
      source.listParts (source.valueAt limit limit) src) >>= fun parts =>
        .ok (.object (.list src.layout src.count) parts) := (bind_assoc _ _ _).symm
  rw [hv, outcome_bind_ok]
  exact (copyList_realizes src ha).outcome_eq

theorem copyPointer_outcome (src : Span) {slot : Span} (ha : a.Sound) (hslot : a.HasSlot slot) :
    outcome (DeepCopy.copyPointer source limit src slot a).1 =
      outcome (source.valueAt limit limit src) :=
  (copyPointer_realizes src ha hslot).outcome_eq

end Copies

open DeepCopy in
/-- Copies into any two reachable arenas end alike, and as a walk of the source does that only
reads: with success, or with the fault of the walk. For a list the walk begins with its size. A
struct is its data, then the alignment of its pointers, then the pointers from left to right, and a
pointer is its own word, null, the nesting limit, where it leads to, and then what is there.

The exception is a struct of more words than there can be a block for: the copy asks for the block
before the walk begins, and that is a breach, which no walk ends with. -/
theorem copies_end_alike (source : Arena) (limit : Nat) {a b : Arena} (ha : a.Reachable)
    (hb : b.Reachable) :
    (∀ (src : StructView) (d p : Nat),
      outcome (copyStruct source limit src d p a).1 =
        outcome (copyStruct source limit src d p b).1 ∧
      (outcome (copyStruct source limit src d p a).1 =
        outcome (source.structValue limit src d p) ↔ (d + p) * bytesPerWord ≤ maxBlock) ∧
      (maxBlock < (d + p) * bytesPerWord → copyStruct source limit src d p a = (.error (.breach
        (if maxSize < (d + p) * bytesPerWord then .overflow else .capacity)), a)) ∧
      Contained (source.structValue limit src d p)) ∧
    (∀ src : ListView,
      outcome (copyList source limit src a).1 = outcome (source.listValue limit src) ∧
      outcome (copyList source limit src b).1 = outcome (source.listValue limit src) ∧
      Contained (source.listValue limit src)) ∧
    ∀ src slot slot' : Span, a.HasSlot slot → b.HasSlot slot' →
      outcome (copyPointer source limit src slot a).1 = outcome (source.valueAt limit limit src) ∧
      outcome (copyPointer source limit src slot' b).1 =
        outcome (source.valueAt limit limit src) ∧
      Contained (source.valueAt limit limit src) :=
  ⟨fun src d p => ⟨copyStruct_outcome_eq src d p ha.sound hb.sound,
      copyStruct_outcome_iff src d p ha.sound, fun h => copyStruct_of_large src h a,
      contained_structValue limit src d p⟩,
    fun src => ⟨copyList_outcome src ha.sound, copyList_outcome src hb.sound,
      contained_listValue limit src⟩,
    fun src _ _ hs hs' => ⟨copyPointer_outcome src ha.sound hs,
      copyPointer_outcome src hb.sound hs', contained_valueAt limit limit src⟩⟩

/-- Two levels of pointers are one too many, whether the first object has room beside its slot or
goes behind a landing pad. The struct alone has one level, and the list has none. -/
theorem copies_end_alike_sample :
    let full := crowded
    let free := ((withCapacity 64).alloc 8).2
    let s : StructView := ⟨⟨0, 8, 8⟩, ⟨0, 16, 8⟩⟩
    let l : ListView := ⟨⟨0, 24, 8⟩, .bytes2, 9⟩
    (outcome (DeepCopy.copyStruct sample 1 s 1 1 full).1 = .ok () ∧
      outcome (DeepCopy.copyStruct sample 1 s 1 1 free).1 = .ok ()) ∧
    (outcome (DeepCopy.copyList sample 1 l full).1 = .error (.listTooShort .bytes2 9 18 8) ∧
      outcome (DeepCopy.copyList sample 1 l free).1 = .error (.listTooShort .bytes2 9 18 8)) ∧
    outcome (DeepCopy.copyPointer sample 1 ⟨0, 0, 8⟩ ⟨0, 0, 8⟩ full).1 = .error (.tooDeep 1) ∧
      outcome (DeepCopy.copyPointer sample 1 ⟨0, 0, 8⟩ ⟨0, 0, 8⟩ free).1 = .error (.tooDeep 1) := by
  intro full free s l
  have hroom : (1 + 1) * bytesPerWord ≤ maxBlock := by decide
  have h := copies_end_alike sample 1 ((Reachable.withCapacity 8).alloc 8)
    ((Reachable.withCapacity 64).alloc 8)
  have hslot : full.HasSlot ⟨0, 0, 8⟩ := ⟨⟨by decide, by decide⟩, rfl, rfl⟩
  have hslot' : free.HasSlot ⟨0, 0, 8⟩ := ⟨⟨by decide, by decide⟩, rfl, rfl⟩
  have hs : outcome (sample.structValue 1 s 1 1) = .ok () := by decide +kernel
  have hl : outcome (sample.listValue 1 l) = .error (.listTooShort .bytes2 9 18 8) := by
    decide +kernel
  have hp : outcome (sample.valueAt 1 1 ⟨0, 0, 8⟩) = .error (.tooDeep 1) := by decide +kernel
  obtain ⟨halike, hwalk, _⟩ := h.1 s 1 1
  have hfull := hwalk.2 hroom
  obtain ⟨lfull, lfree, _⟩ := h.2.1 l
  obtain ⟨pfull, pfree, _⟩ := h.2.2 _ _ _ hslot hslot'
  exact ⟨⟨hfull.trans hs, halike.symm.trans (hfull.trans hs)⟩, ⟨lfull.trans hl, lfree.trans hl⟩,
    pfull.trans hp, pfree.trans hp⟩

/-- A walk finds that the source has no such data. The copy stops before it looks. -/
theorem exists_copyStruct_refused :
    ∃ (source a : Arena) (src : StructView), a.Reachable ∧
      outcome (source.structValue 64 src (2 ^ 60) 0) =
        .error (.outOfBounds 0 0 (2 ^ 63) 32) ∧
      outcome (DeepCopy.copyStruct source 64 src (2 ^ 60) 0 a).1 = .error (.breach .capacity) :=
  ⟨sample, crowded, ⟨⟨0, 0, 2 ^ 63⟩, ⟨0, 0, 0⟩⟩, (Reachable.withCapacity 8).alloc 8,
    by decide +kernel, by decide +kernel⟩

end FrozenDefaults
