import FrozenDefaults.Proofs.Stray
import FrozenDefaults.Proofs.Walks

/-!
# Capabilities

A pointer comes to a capability in three ways: it is one, its landing pad is
one, or the tag of its double landing pad is one. A copy that stops at such a
pointer reports the capability itself only in the first case. In the others it
reports the place that the object would have, which for a landing pad is read
off the capability.
-/

namespace FrozenDefaults

open Arena
open Building (Realizes)
open DeepCopy (checkSlot)

namespace Arena

variable {a : Arena} {q : Span} {w : Word} {s k : Nat} {f : Fault} {t : Tagged}

/-- What is reported of a capability that is the landing pad at the given word. -/
def padFault (segment word : Nat) (pad : Word) : Fault :=
  match Pointer.target? pad word with
  | some t => .capability segment t
  | none => .malformed segment word .beforeSegment

/-- The pointer `w` in the slot `q` comes to a capability at the given word, and the fault is what
is reported of it. -/
inductive CapabilityAt (a : Arena) (q : Span) (w : Word) : (segment word : Nat) → Fault → Prop
  | own (hk : Pointer.kind w = .capability) :
      CapabilityAt a q w q.segment q.startWord (.capability q.segment q.startWord)
  | pad (pad : Word) (hk : Pointer.kind w = .far) (hd : Pointer.isDouble w = false)
      (hpad : a.readWord (Pointer.segment w) (Pointer.padWord w) = .ok pad)
      (hc : Pointer.kind pad = .capability) :
      CapabilityAt a q w (Pointer.segment w) (Pointer.padWord w)
        (padFault (Pointer.segment w) (Pointer.padWord w) pad)
  | tag (pad tag : Word) (hk : Pointer.kind w = .far) (hd : Pointer.isDouble w = true)
      (hpad : a.readWord (Pointer.segment w) (Pointer.padWord w) = .ok pad)
      (hfar : Pointer.kind pad = .far) (hsingle : Pointer.isDouble pad = false)
      (htag : a.readWord (Pointer.segment w) (Pointer.padWord w + 1) = .ok tag)
      (hc : Pointer.kind tag = .capability) :
      CapabilityAt a q w (Pointer.segment w) (Pointer.padWord w + 1)
        (.capability (Pointer.segment pad) (Pointer.padWord pad))

theorem CapabilityAt.exists_readWord (h : a.CapabilityAt q w s k f)
    (hw : a.readWord q.segment q.startWord = .ok w) :
    ∃ c, a.readWord s k = .ok c ∧ Pointer.kind c = .capability := by
  cases h with
  | own hk => exact ⟨w, hw, hk⟩
  | pad _ _ _ hpad hc => exact ⟨_, hpad, hc⟩
  | tag _ _ _ _ _ _ _ htag hc => exact ⟨_, htag, hc⟩

theorem objectAt_capability (h : Pointer.kind t.tag = .capability) :
    a.objectAt t = .error (.capability t.segment t.word) := by
  rw [objectAt, h]

theorem CapabilityAt.follow_eq (h : a.CapabilityAt q w s k f) :
    a.follow q.segment q.startWord w = .error f := by
  cases h with
  | own hk =>
    rw [follow, place, hk]
    rfl
  | pad pad hk hd hpad hc =>
    have hne : Pointer.kind pad ≠ .far := by rw [hc]; decide
    have hplace : a.place q.segment q.startWord w =
        nearPlace (Pointer.segment w) (Pointer.padWord w) pad := by
      simp only [place, hk, farPlace, hpad, ok_bind, hd]
      exact if_neg hne
    rw [follow, hplace, nearPlace, padFault]
    cases Pointer.target? pad (Pointer.padWord w) with
    | none => rfl
    | some t => exact objectAt_capability hc
  | tag pad tag hk hd hpad hfar hsingle htag hc =>
    have hplace : a.place q.segment q.startWord w =
        .ok ⟨tag, Pointer.segment pad, Pointer.padWord pad⟩ := by
      simp only [place, hk, farPlace, hpad, ok_bind, hd, hfar, hsingle, htag]
      rfl
    rw [follow, hplace]
    exact objectAt_capability hc

theorem compositeAt_ne_capability : a.compositeAt t ≠ .error (.capability s k) := by
  rw [compositeAt_eq]
  intro h
  rcases bind_eq_error_iff.1 h with h | ⟨header, _, h⟩
  · exact Plain.readWord a _ _ _ h trivial
  · split at h
    · cases h
    · split at h
      · cases h
      · rcases bind_eq_error_iff.1 h with h | ⟨_, _, h⟩
        · exact Plain.check a _ _ h trivial
        · cases h

/-- Of objects only a capability is reported as one, at the place that the object would have. -/
theorem of_objectAt_capability (h : a.objectAt t = .error (.capability s k)) :
    Pointer.kind t.tag = .capability ∧ s = t.segment ∧ k = t.word := by
  unfold objectAt at h
  split at h
  · exact absurd trivial (((Plain.check a _).bind fun _ => .ok _) _ (map_eq_error_iff.1 h))
  · have h := map_eq_error_iff.1 h
    unfold listAt at h
    split at h
    · exact absurd h compositeAt_ne_capability
    · exact absurd trivial (((Plain.check a _).bind fun _ => .ok _) _ h)
  · cases h
  · rename_i hk
    cases h
    exact ⟨hk, rfl, rfl⟩

theorem of_nearPlace {segment word : Nat} {p : Word} (h : nearPlace segment word p = .ok t) :
    ∃ n, Pointer.target? p word = some n ∧ t = ⟨p, segment, n⟩ := by
  unfold nearPlace at h
  split at h
  · rename_i n hn
    exact ⟨n, hn, (Except.ok.inj h).symm⟩
  · cases h

theorem nearPlace_ne_capability {segment word : Nat} {p : Word} :
    nearPlace segment word p ≠ .error (.capability s k) := by
  unfold nearPlace
  split <;> rintro ⟨⟩

theorem of_farPlace (h : a.farPlace w = .ok t) : ∃ pad,
    a.readWord (Pointer.segment w) (Pointer.padWord w) = .ok pad ∧
    (Pointer.isDouble w = true ∧ Pointer.kind pad = .far ∧ Pointer.isDouble pad = false ∧
        (∃ tag, a.readWord (Pointer.segment w) (Pointer.padWord w + 1) = .ok tag ∧
          t = ⟨tag, Pointer.segment pad, Pointer.padWord pad⟩) ∨
      Pointer.isDouble w = false ∧ Pointer.kind pad ≠ .far ∧
        nearPlace (Pointer.segment w) (Pointer.padWord w) pad = .ok t) := by
  obtain ⟨pad, hpad, h⟩ := bind_eq_ok_iff.1 h
  refine ⟨pad, hpad, ?_⟩
  split at h
  · rename_i hd
    split at h
    · cases h
    · rename_i hp
      obtain ⟨hfar, hsingle⟩ := not_or.1 hp
      obtain ⟨tag, htag, h⟩ := bind_eq_ok_iff.1 h
      exact .inl ⟨hd, not_not.1 hfar, Bool.eq_false_of_not_eq_true hsingle, tag, htag,
        (Except.ok.inj h).symm⟩
  · rename_i hd
    split at h
    · cases h
    · rename_i hfar
      exact .inr ⟨Bool.eq_false_of_not_eq_true hd, hfar, h⟩

theorem farPlace_ne_capability : a.farPlace w ≠ .error (.capability s k) := by
  intro h
  rcases bind_eq_error_iff.1 h with h | ⟨pad, _, h⟩
  · exact Plain.readWord a _ _ _ h trivial
  · split at h
    · split at h
      · cases h
      · rcases bind_eq_error_iff.1 h with h | ⟨_, _, h⟩
        · exact Plain.readWord a _ _ _ h trivial
        · cases h
    · split at h
      · cases h
      · exact nearPlace_ne_capability h

theorem exists_capabilityAt (h : a.follow q.segment q.startWord w = .error (.capability s k)) :
    ∃ s' k', a.CapabilityAt q w s' k' (.capability s k) := by
  rcases bind_eq_error_iff.1 h with h | ⟨t, ht, h⟩
  · unfold place at h
    split at h
    · rename_i hk
      cases h
      exact ⟨_, _, .own hk⟩
    · exact absurd h farPlace_ne_capability
    · exact absurd h nearPlace_ne_capability
    · exact absurd h nearPlace_ne_capability
  · obtain ⟨hc, rfl, rfl⟩ := of_objectAt_capability h
    unfold place at ht
    split at ht
    · cases ht
    · rename_i hk
      obtain ⟨pad, hpad, ⟨hd, hfar, hsingle, tag, htag, rfl⟩ | ⟨hd, _, hnear⟩⟩ := of_farPlace ht
      · exact ⟨_, _, .tag _ _ hk hd hpad hfar hsingle htag hc⟩
      · obtain ⟨n, hn, rfl⟩ := of_nearPlace hnear
        have hpadfault := CapabilityAt.pad (q := q) _ hk hd hpad hc
        rw [padFault, hn] at hpadfault
        exact ⟨_, _, hpadfault⟩
    · rename_i hk
      obtain ⟨n, _, rfl⟩ := of_nearPlace ht
      cases hk.symm.trans hc
    · rename_i hk
      obtain ⟨n, _, rfl⟩ := of_nearPlace ht
      cases hk.symm.trans hc

end Arena

/-- How the result of a copy with this reading tells of capabilities: it tells of those at which the
walk stops, and of each of them as `CapabilityAt` says. A capability that stands in the slot itself
is reported where it is. -/
structure ReportsCapabilities {α β : Type} (source : Arena) (limit : Nat)
    (r : (Span → Except Fault Value) → Except Fault α) (result : Except Fault β) : Prop where
  stops : ∀ q w s k f, source.WalkStops limit r q w → source.CapabilityAt q w s k f →
    (∃ c, source.readWord s k = .ok c ∧ Pointer.kind c = .capability) ∧ result = .error f
  only : ∀ s k, result = .error (.capability s k) → ∃ q w s' k',
    source.WalkStops limit r q w ∧ source.CapabilityAt q w s' k' (.capability s k)
  own : ∀ q w, source.WalkStops limit r q w → Pointer.kind w = .capability →
    result = .error (.capability q.segment q.startWord) ∧
      source.readWord q.segment q.startWord = .ok w

theorem Arena.WalkStops.readWord {α : Type} {a : Arena} {limit : Nat}
    {r : (Span → Except Fault Value) → Except Fault α} {q : Span} {w : Word}
    (h : a.WalkStops limit r q w) : a.readWord q.segment q.startWord = .ok w := by
  obtain ⟨_, _, hstops⟩ := h
  exact hstops.readWord

theorem Arena.CapabilityAt.ofPointer {a : Arena} {q : Span} {w : Word} {s k : Nat} {f : Fault}
    (h : a.CapabilityAt q w s k f) : f.OfPointer := by
  cases h with
  | own => trivial
  | pad =>
    unfold padFault
    split <;> trivial
  | tag => trivial

/-- What fails with the faults of pointers of the reading, and with no others, reports
capabilities. -/
theorem reportsCapabilities_of_iff {α β : Type} {source : Arena} {limit : Nat}
    {r : (Span → Except Fault Value) → Except Fault α} {result : Except Fault β} (hr : Heeds r)
    (h : ∀ f, f.OfPointer →
      (result = .error f ↔ r (source.valueAt limit limit) = .error f)) :
    ReportsCapabilities source limit r result where
  stops q w s k f hstops hc :=
    ⟨hc.exists_readWord hstops.readWord, (h f hc.ofPointer).2 (hstops.eq_error hc.follow_eq)⟩
  only s k hs := by
    have hf : Fault.OfPointer (.capability s k) := trivial
    obtain ⟨q, w, hstops, hfault⟩ := (eq_error_iff_walkStops hr hf).1 ((h _ hf).1 hs)
    obtain ⟨s', k', hc⟩ := exists_capabilityAt hfault
    exact ⟨q, w, s', k', hstops, hc⟩
  own q w hstops hk := by
    have hc : source.CapabilityAt q w _ _ _ := .own hk
    exact ⟨(h _ hc.ofPointer).2 (hstops.eq_error hc.follow_eq), hstops.readWord⟩

theorem Building.Realizes.error_iff {α β : Type} {m : Building β} {a : Arena}
    {R : Nat → Nat → Prop} {r : Except Fault α} {done : α → β × Arena} (h : Realizes m a R r done)
    {f : Fault} : (m a).1 = .error f ↔ r = .error f := by
  cases r with
  | ok x =>
    rw [h.ok x rfl]
    exact ⟨fun he => (by cases he), fun he => (by cases he)⟩
  | error g =>
    rw [h.error g rfl]
    exact ⟨fun he => congrArg _ (Except.error.inj he), fun he => congrArg _ (Except.error.inj he)⟩

/-- What copies of structs, lists and pointers tell of capabilities, into whatever arena. -/
theorem capability_faults (source : Arena) (limit : Nat) {dest : Arena} (hd : dest.Reachable) :
    (∀ (src : StructView) (d p : Nat),
      ReportsCapabilities source limit
        (fun value => checkBlock ((d + p) * bytesPerWord) >>= fun _ => source.partOf value src d p)
        (DeepCopy.copyStruct source limit src d p dest).1) ∧
    (∀ src : ListView,
      ReportsCapabilities source limit
        (fun value => src.validate >>= fun _ => source.listParts value src)
        (DeepCopy.copyList source limit src dest).1) ∧
    ∀ src slot : Span, checkSlot slot = .ok () →
      ReportsCapabilities source limit (fun value => value src)
        (DeepCopy.copyPointer source limit src slot dest).1 := by
  refine ⟨fun src d p => ?_, fun src => ?_, fun src slot hs => ?_⟩
  · exact reportsCapabilities_of_iff (.before (.checkBlock _) fun _ => .partOf source src d p)
      fun f _ => (copyStruct_realizes src d p hd.sound).error_iff
  · exact reportsCapabilities_of_iff (.before (.validate src) fun _ => .listParts source src)
      fun f _ => (copyList_realizes src hd.sound).error_iff
  · refine reportsCapabilities_of_iff (.slot src) fun f hf => ?_
    rw [(copyPointer_run hs hd.sound).1, bind_eq_error_iff]
    exact or_iff_left fun ⟨v, _, hcheck⟩ => Plain.check _ _ f hcheck hf

namespace Arena

/-- A far pointer to a landing pad of these words, in another segment. -/
def behindPad (double : Bool) (pad : List Word) : Arena :=
  ⟨#[⟨(Word.toBytes (Pointer.ofFar double 0 1)).toArray, 8⟩,
    ⟨(pad.flatMap Word.toBytes).toArray, 8 * pad.length⟩], 1024⟩

theorem walkStops_slot {a : Arena} {limit : Nat} {slot : Span} {w : Word} {s k : Nat} {f : Fault}
    (hs : checkSlot slot = .ok ()) (hw : a.readWord slot.segment slot.startWord = .ok w)
    (hn : Pointer.isNull w = false) (hc : a.CapabilityAt slot w s k f) :
    a.WalkStops (limit + 1) (fun value => value slot) slot w := by
  refine ⟨slot, fun _ => Function.update_self .., .here hs hw hn fun t ht => ?_⟩
  cases ht.symm.trans hc.follow_eq

/-- A capability as a landing pad that leads to the word behind it, one that leads before its
segment, and one as a tag: all three in the second segment, and the third in its second word. -/
theorem capabilityAt_behindPad :
    (behindPad false [3]).CapabilityAt ⟨0, 0, 8⟩ (Pointer.ofFar false 0 1) 1 0 (.capability 1 1) ∧
    (behindPad false [0xfffffffb]).CapabilityAt ⟨0, 0, 8⟩ (Pointer.ofFar false 0 1) 1 0
      (.malformed 1 0 .beforeSegment) ∧
    (behindPad true [Pointer.ofFar false 0 2, 3]).CapabilityAt ⟨0, 0, 8⟩ (Pointer.ofFar true 0 1)
      1 1 (.capability 2 0) := by
  have hnear : (behindPad false [3]).readWord 1 0 = .ok 3 := by decide +kernel
  have hbefore : (behindPad false [0xfffffffb]).readWord 1 0 = .ok 0xfffffffb := by decide +kernel
  have hfar : (behindPad true [Pointer.ofFar false 0 2, 3]).readWord 1 0 =
      .ok (Pointer.ofFar false 0 2) := by decide +kernel
  have htag : (behindPad true [Pointer.ofFar false 0 2, 3]).readWord 1 1 = .ok 3 := by
    decide +kernel
  exact ⟨.pad 3 (by decide) (by decide) hnear (by decide),
    .pad 0xfffffffb (by decide) (by decide) hbefore (by decide),
    .tag (Pointer.ofFar false 0 2) 3 (by decide) (by decide) hfar (by decide) (by decide) htag
      (by decide)⟩

end Arena

/-- Of the capabilities behind landing pads two are reported where none is, and one as no capability
at all. A capability in the slot is reported where it is. -/
theorem capability_faults_sample :
    let copy (source : Arena) := (DeepCopy.copyPointer source 64 ⟨0, 0, 8⟩ ⟨0, 0, 8⟩ crowded).1
    copy (behindPad false [3]) = .error (.capability 1 1) ∧
    copy (behindPad false [0xfffffffb]) = .error (.malformed 1 0 .beforeSegment) ∧
    copy (behindPad true [Pointer.ofFar false 0 2, 3]) = .error (.capability 2 0) ∧
    copy ⟨#[⟨(Word.toBytes 3).toArray, 8⟩], 1024⟩ = .error (.capability 0 0) := by
  intro copy
  have h (source : Arena) := (capability_faults source 64 ((Reachable.withCapacity 8).alloc 8)).2.2
    ⟨0, 0, 8⟩ ⟨0, 0, 8⟩ rfl
  obtain ⟨hnear, hbefore, htag⟩ := capabilityAt_behindPad
  have hown : Arena.CapabilityAt ⟨#[⟨(Word.toBytes 3).toArray, 8⟩], 1024⟩ ⟨0, 0, 8⟩ 3 0 0
      (.capability 0 0) := .own (by decide)
  have hstops {source : Arena} {w : Word} {s k : Nat} {f : Fault}
      (hw : source.readWord 0 0 = .ok w) (hn : Pointer.isNull w = false)
      (hc : source.CapabilityAt ⟨0, 0, 8⟩ w s k f) : copy source = .error f :=
    ((h source).stops _ w s k f (walkStops_slot rfl hw hn hc) hc).2
  exact ⟨hstops (by decide +kernel) (by decide) hnear,
    hstops (by decide +kernel) (by decide) hbefore, hstops (by decide +kernel) (by decide) htag,
    hstops (by decide +kernel) (by decide) hown⟩

/-- A capability that is reported need not be where the report says, and a capability at which the
walk stops need not be reported as one. -/
theorem capability_faults_misplaced :
    (¬ ∀ (source : Arena) (limit : Nat) (dest : Arena) (src slot : Span) (s k : Nat),
      dest.Reachable → checkSlot slot = .ok () →
      (DeepCopy.copyPointer source limit src slot dest).1 = .error (.capability s k) →
        ∃ c, source.readWord s k = .ok c ∧ Pointer.kind c = .capability) ∧
    ¬ ∀ (source : Arena) (limit : Nat) (dest : Arena) (src slot q : Span) (w : Word) (s k : Nat)
      (f : Fault), dest.Reachable → checkSlot slot = .ok () →
      source.WalkStops limit (fun value => value src) q w → source.CapabilityAt q w s k f →
        ∃ s' k', (DeepCopy.copyPointer source limit src slot dest).1 =
          .error (.capability s' k') := by
  have hd : crowded.Reachable := (Reachable.withCapacity 8).alloc 8
  refine ⟨fun h => ?_, fun h => ?_⟩
  · obtain ⟨c, hc, _⟩ := h (behindPad false [3]) 64 crowded ⟨0, 0, 8⟩ ⟨0, 0, 8⟩ 1 1 hd rfl
      (by decide +kernel)
    have hnone : (behindPad false [3]).readWord 1 1 = .error (.outOfBounds 1 8 16 8) := by
      decide +kernel
    cases hnone.symm.trans hc
  · have hbefore := capabilityAt_behindPad.2.1
    obtain ⟨s, k, hrun⟩ := h _ 64 crowded ⟨0, 0, 8⟩ ⟨0, 0, 8⟩ _ _ 1 0 _ hd rfl
      (walkStops_slot rfl (by decide +kernel) (by decide) hbefore) hbefore
    have hfault : (DeepCopy.copyPointer (behindPad false [0xfffffffb]) 64 ⟨0, 0, 8⟩ ⟨0, 0, 8⟩
        crowded).1 = .error (.malformed 1 0 .beforeSegment) := by decide +kernel
    cases hfault.symm.trans hrun

end FrozenDefaults
