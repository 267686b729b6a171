import FrozenDefaults.Proofs.Backing

/-!
# The history of an arena

Calls allocate regions or write to what is in use, and each of them may be
refused. What an arena holds after any number of calls is told by the calls: at
every place in use stands the last byte that was written there. Regions are
handed out once, zeroed and apart from all that came before. The memory behind
the arena has the same history.
-/

namespace FrozenDefaults

namespace Arena

def regions (log : List (Call × Reply)) : List Span :=
  log.filterMap fun
    | (_, .region r) => some r
    | _ => none

/-- What a call that was granted has written at a place. -/
def wrote? (segment i : Nat) : Call × Reply → Option UInt8
  | (call, .written) => call.payload?.bind fun e =>
    if e.1.Covers segment i then e.2[i - e.1.start]? else none
  | _ => none

/-- What was last written at a place, where `initial` stood at first. -/
def lastValue (log : List (Call × Reply)) (segment i : Nat) (initial : UInt8) : UInt8 :=
  log.foldl (fun v e => (wrote? segment i e).getD v) initial

variable {a b start : Arena} {call : Call} {calls : List Call} {log : List (Call × Reply)}

/-- The sizes of segments are whole words. Only where a size has come to the largest that can be
named, which no memory has, it is not. -/
structure Sized (a : Arena) : Prop where
  capacity : ∀ s, a.capacityIn s < maxSize → a.capacityIn s % bytesPerWord = 0
  next : a.nextSize < maxSize → a.nextSize % bytesPerWord = 0

namespace Sized

variable (h : a.Sized)
include h

theorem patch (s : Span) (bs : List UInt8) : (a.patch s bs).Sized :=
  ⟨fun t => by rw [capacityIn_patch]; exact h.capacity t, h.next⟩

theorem push {seg : Segment} {next : Nat}
    (hseg : seg.capacity < maxSize → seg.capacity % bytesPerWord = 0)
    (hnext : next < maxSize → next % bytesPerWord = 0) : Sized ⟨a.segments.push seg, next⟩ := by
  refine ⟨fun s => ?_, hnext⟩
  rw [capacityIn, Array.getElem?_push]
  by_cases hs : s = a.segments.size
  · rw [if_pos hs]
    exact hseg
  · rw [if_neg hs]
    exact h.capacity s

theorem openSegment {n : Nat} (hn : n < maxSize → n % bytesPerWord = 0) :
    (a.openSegment n).Sized := by
  apply h.push hn
  have hnext := h.next
  unfold bytesPerWord at hn hnext ⊢
  omega

theorem extend (k n : Nat) : Sized ⟨a.segments.modify k (·.extend n), a.nextSize⟩ :=
  ⟨fun t => by rw [capacityIn_extend]; exact h.capacity t, h.next⟩

theorem allocIn (segment n : Nat) : (a.allocIn segment n).2.Sized := by
  unfold Arena.allocIn
  split
  · exact h
  · dsimp only
    split
    · exact h.extend segment _
    · exact h

theorem alloc (n : Nat) : (a.alloc n).2.Sized := by
  rcases alloc_cases a n with ⟨r, b, hin, he⟩ | ⟨_, he⟩
  · have hsized := h.allocIn (a.segmentCount - 1) n
    rw [hin] at hsized
    rw [he]
    exact hsized
  · have hnext := h.next
    have hmod := roundUp_mod n
    have hmax : max (roundUp n) a.nextSize < maxSize →
        max (roundUp n) a.nextSize % bytesPerWord = 0 := by
      unfold bytesPerWord at hnext ⊢
      omega
    rw [he]
    exact (h.openSegment hmax).extend _ _

theorem perform (call : Call) : (a.perform call).2.Sized :=
  perform_induction h h.patch h.allocIn h.alloc call

theorem performAll (calls : List Call) : (a.performAll calls).2.Sized := by
  induction calls generalizing a with
  | nil => exact h
  | cons call calls ih => exact ih (h.perform call)

end Sized

theorem sized_of_isEmpty {n : Nat} (hn : n < maxSize → n % bytesPerWord = 0) : Sized ⟨#[], n⟩ :=
  ⟨fun _ _ => rfl, hn⟩

theorem sized_withCapacity (n : Nat) : (withCapacity n).Sized := by
  have hmod := roundUp_mod n
  have hnew : Sized ⟨#[], max (roundUp n) minSegmentSize⟩ := by
    apply sized_of_isEmpty
    unfold minSegmentSize bytesPerWord
    omega
  unfold withCapacity
  split
  · exact hnew.openSegment fun _ => hmod
  · exact hnew

theorem Sized.ofSegmentsFrom {segments : List (List UInt8)} (ha : a.Sized)
    (h : ofSegmentsFrom a segments = .ok b) : b.Sized := by
  induction segments generalizing a with
  | nil => exact Except.ok.inj h ▸ ha
  | cons bs rest ih =>
    rw [Arena.ofSegmentsFrom] at h
    by_cases hbs : bs.length % bytesPerWord = 0
    · rw [if_pos hbs] at h
      exact ih (ha.push (fun _ => hbs) ha.next) h
    · rw [if_neg hbs] at h
      cases h

theorem sized_ofSegments {segments : List (List UInt8)} (h : ofSegments segments = .ok a) :
    a.Sized := (sized_of_isEmpty fun _ => rfl).ofSegmentsFrom h

theorem Sized.enlarge (h : a.Sized) (capacity : Nat) : (a.enlarge capacity).Sized := by
  have hmod := roundUp_mod capacity
  unfold Arena.enlarge
  split
  · split
    · exact h.openSegment fun _ => hmod
    · exact h
  · refine ⟨fun s => ?_, h.next⟩
    have hold := h.capacity s
    rw [capacityIn] at hold ⊢
    rw [Array.getElem?_modify]
    split
    · cases hseg : a.segments[s]? with
      | none => exact fun _ => rfl
      | some seg =>
        simp only [hseg, Option.map_some, Option.getD_some, bytesPerWord] at hold ⊢
        omega
    · exact hold

theorem sized_ofSegmentsWithCapacity {segments : List (List UInt8)} {capacity : Nat}
    (h : ofSegmentsWithCapacity segments capacity = .ok a) : a.Sized := by
  rw [ofSegmentsWithCapacity_eq] at h
  obtain ⟨b, hb, rfl⟩ := map_eq_ok_iff.1 h
  exact (sized_ofSegments hb).enlarge capacity

theorem Built.sized (h : start.Built) : start.Sized := by
  cases h with
  | withCapacity n => exact sized_withCapacity n
  | ofSegments h => exact sized_ofSegments h
  | ofSegmentsWithCapacity h => exact sized_ofSegmentsWithCapacity h

section Bytes

theorem byte?_perform (a : Arena) (call : Call) (s i : Nat) :
    ((a.perform call).2.byte? s i).getD 0 =
      (wrote? s i (call, (a.perform call).1)).getD ((a.byte? s i).getD 0) := by
  rcases a.perform_cases call with ⟨n, r, b, _, he, hf⟩ | ⟨t, bs, hp, ht, hl, he⟩ | he
  · rw [he, wrote?, hf.byte?]
    · by_cases hc : r.Covers s i
      · rw [if_pos hc, byte?_eq_none (hf.le_of_covers hc)]
        rfl
      · rw [if_neg hc]
        rfl
    · simp
  · rw [he, wrote?, hp, byte?_patch ht hl]
    by_cases hc : t.Covers s i
    · have hi : i - t.start < bs.length := by
        obtain ⟨_, hstart, hstop⟩ := hc
        rw [Span.stop] at hstop
        omega
      rw [Option.bind_some, if_pos hc, if_pos hc, List.getElem?_eq_getElem hi]
      rfl
    · rw [Option.bind_some, if_neg hc, if_neg hc]
      rfl
  · rw [he, wrote?]
    · rfl
    · simp

/-- At every place stands what was last written there. -/
theorem byte?_performAll (a : Arena) (calls : List Call) (s i : Nat) :
    ((a.performAll calls).2.byte? s i).getD 0 =
      lastValue (a.performAll calls).1 s i ((a.byte? s i).getD 0) := by
  induction calls generalizing a with
  | nil => rfl
  | cons call calls ih =>
    rw [performAll, ih, byte?_perform]
    rfl

theorem read_eq_map {s : Span} (h : a.Holds s) : a.read s =
    .ok ((List.range s.length).map fun i => (a.byte? s.segment (s.start + i)).getD 0) := by
  obtain ⟨bs, hr, hl, hg⟩ := exists_read h
  rw [hr]
  apply congrArg
  apply List.ext_getElem?
  intro i
  by_cases hi : i < s.length
  · rw [List.getElem?_map, List.getElem?_range hi, Option.map_some, ← hg i hi,
      List.getElem?_eq_getElem (hl ▸ hi)]
    rfl
  · rw [List.getElem?_eq_none (by omega), List.getElem?_eq_none (by simp; omega)]

end Bytes

section Regions

/-- Regions lie in what was not in use before them, and so they are apart. -/
theorem regions_performAll (a : Arena) (calls : List Call) :
    (∀ r ∈ regions (a.performAll calls).1, (a.performAll calls).2.Holds r ∧
      ∀ s i, r.Covers s i → a.usedIn s ≤ i) ∧
    (regions (a.performAll calls).1).Pairwise Span.Apart := by
  induction calls generalizing a with
  | nil => exact ⟨fun _ h => absurd h List.not_mem_nil, .nil⟩
  | cons call calls ih =>
    obtain ⟨hrest, hapart⟩ := ih (a.perform call).2
    have hused := (a.evolves_perform call).grows.used
    have hlater (r : Span) (hr : r ∈ regions ((a.perform call).2.performAll calls).1) :
        ((a.perform call).2.performAll calls).2.Holds r ∧ ∀ s i, r.Covers s i → a.usedIn s ≤ i :=
      ⟨(hrest r hr).1, fun s i hc => (hused s).trans ((hrest r hr).2 s i hc)⟩
    rw [performAll]
    rcases a.perform_cases call with ⟨n, r, b, _, he, hf⟩ | ⟨t, bs, _, _, _, he⟩ | he
    · rw [he] at hrest hapart hlater ⊢
      have hlog : regions ((call, .region r) :: (b.performAll calls).1) =
          r :: regions (b.performAll calls).1 := rfl
      rw [hlog]
      refine ⟨fun q hq => ?_, List.pairwise_cons.2 ⟨fun q hq s i hr hc => ?_, hapart⟩⟩
      · rcases List.mem_cons.1 hq with rfl | hq
        · exact ⟨(b.evolves_performAll calls).grows.holds hf.holds, fun s i => hf.le_of_covers⟩
        · exact hlater q hq
      · exact absurd (hf.holds.lt_of_covers hr) (Nat.not_lt.2 ((hrest q hq).2 s i hc))
    · rw [he] at hapart hlater ⊢
      exact ⟨hlater, hapart⟩
    · rw [he] at hapart hlater ⊢
      exact ⟨hlater, hapart⟩

/-- What is known of a region when it is handed out, after calls with these replies. -/
structure Handed (start : Arena) (log : List (Call × Reply)) (n : Nat) (r : Span) (b : Arena) :
    Prop where
  length : r.length = roundUp n
  aligned : r.Aligned
  holds : b.Holds r
  zeroed : b.read r = .ok (List.replicate r.length 0)
  apart : ∀ q ∈ regions log, r.Apart q
  new : ∀ s i, r.Covers s i → start.usedIn s ≤ i

theorem Fresh.read_eq_replicate {n : Nat} {r : Span} (h : Fresh a n r b) :
    b.read r = .ok (List.replicate r.length 0) := by
  rw [read_eq_map h.holds]
  apply congrArg
  apply List.eq_replicate_iff.2
  refine ⟨by simp, fun x hx => ?_⟩
  obtain ⟨i, hi, rfl⟩ := List.mem_map.1 hx
  have hc : r.Covers r.segment (r.start + i) :=
    ⟨rfl, Nat.le_add_right _ _, Nat.add_lt_add_left (List.mem_range.1 hi) _⟩
  rw [h.byte?, if_pos hc]
  rfl

end Regions

theorem Sized.capacity_mod (h : a.Sized) {seg : Segment} (hseg : seg ∈ a.segments)
    (hc : seg.capacity < maxSize) : seg.capacity % bytesPerWord = 0 := by
  obtain ⟨s, hs⟩ := Array.getElem?_of_mem hseg
  have hcap : a.capacityIn s = seg.capacity := by rw [capacityIn, hs, Option.map_some,
    Option.getD_some]
  rw [← hcap]
  exact h.capacity s (hcap ▸ hc)

theorem extends_perform (a : Arena) (call : Call) :
    Extends (fun s i => ∀ e ∈ call.payload?, ¬ e.1.Covers s i) a (a.perform call).2 := by
  apply (a.evolves_perform call).extending
  rcases a.perform_cases call with ⟨n, r, b, _, he, hf⟩ | ⟨t, bs, hp, ht, hl, he⟩ | he
  · rw [he]
    exact hf.grows _
  · rw [he]
    exact (grows_patch ht hl).mono fun s i hn _ => hn (t, bs) hp
  · rw [he]
    exact .refl _ a

theorem perform_of_refused (h : a.perform call = (.refused, b)) : b = a := by
  rcases a.perform_cases call with ⟨n, r, c, _, he, _⟩ | ⟨t, bs, _, _, _, he⟩ | he
  · rw [he] at h
    cases h
  · rw [he] at h
    cases h
  · rw [he] at h
    exact (Prod.mk.inj h).2.symm

theorem handed_of_region (hs : start.Sound) (hrun : start.performAll calls = (log, a)) {r : Span}
    (h : a.perform call = (.region r, b)) :
    ∃ n, call.size? = some n ∧ Handed start log n r b := by
  have hev := start.evolves_performAll calls
  obtain ⟨hregions, _⟩ := start.regions_performAll calls
  rw [hrun] at hev hregions
  rcases a.perform_cases call with ⟨n, q, c, hn, he, hf⟩ | ⟨t, bs, _, _, _, he⟩ | he
  · obtain ⟨hq, rfl⟩ := Prod.mk.inj (he.symm.trans h)
    obtain rfl := Reply.region.inj hq
    refine ⟨n, hn, hf.length, ⟨?_, hf.aligned (hev.sound hs)⟩, hf.holds, hf.read_eq_replicate,
      fun p hp s i hc hcp => ?_, fun s i hc => ?_⟩
    · rw [hf.length]
      exact roundUp_mod n
    · exact absurd ((hregions p hp).1.lt_of_covers hcp) (Nat.not_lt.2 (hf.le_of_covers hc))
    · exact (hev.grows.used s).trans (hf.le_of_covers hc)
  · rw [he] at h
    cases h
  · rw [he] at h
    cases h

/-- An arena only grows, and it remembers. After any calls no segment is filled beyond its capacity,
and both are whole words, unless a size has come to the largest that can be named. Whatever is in
use reads as it was last written. The regions that were handed out are apart. A further call changes
nothing but what it writes: no segment goes, shrinks or gets another capacity, a region that is
handed out is new and zeroed, and a call that is refused changes nothing at all. The memory behind
the arena, in which an allocation writes nothing, gives the same replies and reads the same. -/
theorem append_only (h : start.Built) (hrun : start.performAll calls = (log, a)) :
    (∀ seg ∈ a.segments, seg.used ≤ seg.capacity ∧ seg.used % bytesPerWord = 0 ∧
      (seg.capacity < maxSize → seg.capacity % bytesPerWord = 0)) ∧
    (∀ s, a.Holds s → a.read s = .ok ((List.range s.length).map fun i =>
      lastValue log s.segment (s.start + i) ((start.byte? s.segment (s.start + i)).getD 0))) ∧
    (regions log).Pairwise Span.Apart ∧
    (∀ call reply b, a.perform call = (reply, b) →
      Extends (fun s i => ∀ e ∈ call.payload?, ¬ e.1.Covers s i) a b ∧
      (reply = .refused → b = a) ∧
      ∀ r, reply = .region r → ∃ n, call.size? = some n ∧ Handed start log n r b) ∧
    start.backing.Built ∧ start.backing.performAll calls = (log, a.backing) ∧
    ∀ s, a.backing.read s = (a.read s).toOption := by
  have hsound := h.reachable.sound
  have hev := start.evolves_performAll calls
  have hsized := h.sized.performAll calls
  have hbytes := start.byte?_performAll calls
  have hapart := (start.regions_performAll calls).2
  have hbacking := performAll_backing hsound calls
  rw [hrun] at hev hsized hbytes hapart hbacking
  have ha := hev.sound hsound
  refine ⟨fun seg hseg => ?_, fun s hs => ?_, hapart, fun call reply b hcall => ⟨?_, ?_, ?_⟩,
    h.backing, hbacking, a.read_backing⟩
  · exact ⟨ha.fits seg hseg, ha.whole.used_mod hseg, hsized.capacity_mod hseg⟩
  · rw [read_eq_map hs]
    simp only [hbytes]
  · have hext := a.extends_perform call
    rwa [hcall] at hext
  · rintro rfl
    exact perform_of_refused hcall
  · rintro r rfl
    exact handed_of_region hsound hrun hcall

/-- Eight bytes with room for two more words. -/
def seeded : Arena := ⟨#[⟨#[1, 2, 3, 4, 5, 6, 7, 8], 24⟩], minSegmentSize⟩

/-- Of these calls three are refused, one opens a second segment, and one is for no bytes at all. -/
def chronicle : List (Call × Reply) × Arena :=
  seeded.performAll [.alloc 5, .write ⟨0, 9, 2⟩ [7, 9], .allocIn 0 99, .allocIn 9 1,
    .write ⟨0, 16, 8⟩ [0], .alloc 9, .allocIn 0 0, .writeWord 0 0 5]

/-- The last word of the first segment is still free after the calls. -/
theorem append_only_sample : ofSegmentsWithCapacity [[1, 2, 3, 4, 5, 6, 7, 8]] 24 = .ok seeded ∧
    regions chronicle.1 = [⟨0, 8, 8⟩, ⟨1, 0, 16⟩, ⟨0, 16, 0⟩] ∧
    chronicle.2.read ⟨0, 0, 11⟩ = .ok [5, 0, 0, 0, 0, 0, 0, 0, 0, 7, 9] ∧
    chronicle.2.backing.read ⟨0, 0, 11⟩ = some [5, 0, 0, 0, 0, 0, 0, 0, 0, 7, 9] ∧
    ∃ b, chronicle.2.perform (.allocIn 0 3) = (.region ⟨0, 16, 8⟩, b) ∧
      Handed seeded chronicle.1 3 ⟨0, 16, 8⟩ b ∧ b.capacityIn 1 = chronicle.2.capacityIn 1 := by
  have hseeded : ofSegmentsWithCapacity [[1, 2, 3, 4, 5, 6, 7, 8]] 24 = .ok seeded := by
    decide +kernel
  have hregions : regions chronicle.1 = [⟨0, 8, 8⟩, ⟨1, 0, 16⟩, ⟨0, 16, 0⟩] := by decide +kernel
  have hcall : (chronicle.2.perform (.allocIn 0 3)).1 = .region ⟨0, 16, 8⟩ := by decide +kernel
  have hheld : chronicle.2.Holds ⟨0, 0, 11⟩ := ⟨by decide +kernel, by decide +kernel⟩
  have hcount : 1 < chronicle.2.segmentCount := by decide +kernel
  have hrun : seeded.performAll _ = (chronicle.1, chronicle.2) := rfl
  obtain ⟨_, hread, _, hnext, _, _, hmemory⟩ := append_only (.ofSegmentsWithCapacity hseeded) hrun
  have hread : chronicle.2.read ⟨0, 0, 11⟩ = .ok [5, 0, 0, 0, 0, 0, 0, 0, 0, 7, 9] := by
    rw [hread _ hheld]
    decide +kernel
  obtain ⟨b, hb⟩ : ∃ b, chronicle.2.perform (.allocIn 0 3) = (.region ⟨0, 16, 8⟩, b) :=
    ⟨_, Prod.ext hcall rfl⟩
  obtain ⟨hext, _, hhanded⟩ := hnext _ _ b hb
  obtain ⟨n, hn, hhanded⟩ := hhanded _ rfl
  obtain rfl := Option.some.inj hn
  refine ⟨hseeded, hregions, hread, ?_, b, hb, hhanded, hext.capacity 1 hcount⟩
  rw [hmemory, hread]
  rfl

end Arena

end FrozenDefaults
