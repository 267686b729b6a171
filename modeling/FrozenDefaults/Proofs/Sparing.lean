import FrozenDefaults.Proofs.Accounting
import FrozenDefaults.Proofs.Assembling
import FrozenDefaults.Proofs.Persistence

/-!
# Copies spare what is in use

A copy writes to regions that it has allocated itself and, when all else is done,
to the slot it was given. A copy that fails, at whatever depth, has not come to
the slot. What was in use before is as it was, and reads as it did.
-/

namespace FrozenDefaults

open Arena
open Building (Realizes)

theorem Arena.Grows.trans_new {R : Nat → Nat → Prop} {a b c : Arena}
    (h : Grows (fun _ _ => True) a b) (hg : Grows (fun s i => ¬ R s i) b c)
    (hr : ∀ s i, R s i → a.usedIn s ≤ i) : Grows (fun _ _ => True) a c := by
  have hnew := hg.mono (Q := fun s i => i < a.usedIn s) fun s i hi _ hR =>
    absurd hi (Nat.not_lt.2 (hr s i hR))
  exact ((h.mono fun _ _ _ _ => trivial).trans hnew).mono fun _ _ _ hi => hi

/-- If the step fails in `a`, nothing has changed of what was in use in `base`. -/
def Building.SparesOnError {α : Type} (base : Arena) (m : Building α) (a : Arena) : Prop :=
  ∀ f, (m a).1 = .error f → Grows (fun _ _ => True) base (m a).2

namespace Building.SparesOnError

variable {α β : Type} {base a b : Arena} {m : Building α} {k : α → Building β}

theorem of_ok {x : α} (h : m a = (.ok x, b)) : SparesOnError base m a := by
  intro f hf
  rw [h] at hf
  cases hf

theorem bind (h : SparesOnError base m a)
    (hk : ∀ x b, m a = (.ok x, b) → SparesOnError base (k x) b) :
    SparesOnError base (m >>= k) a := by
  intro f hf
  cases hm : m a with
  | mk r b =>
    cases r with
    | ok x =>
      rw [bind_ok hm] at hf ⊢
      exact hk x b hm f hf
    | error g =>
      rw [bind_error hm]
      have hgrows := h g (by rw [hm])
      rwa [hm] at hgrows

theorem step {x : α} (h : m a = (.ok x, b)) (hk : SparesOnError base (k x) b) :
    SparesOnError base (m >>= k) a := by
  apply (of_ok h).bind
  intro y c hy
  obtain ⟨hx, rfl⟩ := Prod.mk.inj (h.symm.trans hy)
  obtain rfl := Except.ok.inj hx
  exact hk

theorem after {e : Except Fault α} (ha : Grows (fun _ _ => True) base a)
    (hk : ∀ x, e = .ok x → SparesOnError base (k x) a) :
    SparesOnError base (liftExcept e >>= k) a := by
  cases e with
  | ok x => exact step (lift_ok rfl) (hk x rfl)
  | error f =>
    intro g _
    rw [bind_error (lift_error rfl)]
    exact ha

theorem of_new {γ : Type} {R : Nat → Nat → Prop} {r : Except Fault γ} {done : γ → α × Arena}
    (h : Realizes m a R r done) (ha : Grows (fun _ _ => True) base a)
    (hr : ∀ s i, R s i → base.usedIn s ≤ i) : SparesOnError base m a := by
  intro f _
  exact ha.trans_new h.keeps hr

end Building.SparesOnError

open Building (SparesOnError)

namespace CopiesSlots

variable {source a : Arena} {value : Span → Except Fault Value}
  {copySlot : Span → Span → Building Unit} {slot : Span} (hc : CopiesSlots value copySlot)
include hc

theorem copyStructTo_spares {v : StructView} (ha : a.Sound) (hslot : a.HasSlot slot) :
    SparesOnError a (DeepCopy.copyStructTo source copySlot v slot) a := by
  let d := v.data.length / bytesPerWord
  let p := v.pointers.length / bytesPerWord
  unfold DeepCopy.copyStructTo
  by_cases h0 : d = 0 ∧ p = 0
  · rw [if_pos h0]
    exact .of_ok (Building.writeWord_of_hasSlot hslot _)
  · rw [if_neg h0]
    have hroom := room_makeRoom ha slot (n := (d + p) * bytesPerWord) (Nat.mul_mod_left _ _)
    have hfill : Realizes (DeepCopy.fillStruct source copySlot v _) _ _ _ _ :=
      hc.fillStruct v (.struct d p) rfl (hroom.evolves.sound ha) hroom.content
    apply SparesOnError.step (place_eq a slot _)
    apply (SparesOnError.of_new hfill hroom.grows hroom.new).bind
    intro x c hx
    obtain ⟨part, _, hdone⟩ := hfill.of_run hx
    obtain ⟨_, rfl⟩ := Prod.mk.inj hdone
    exact .of_ok (hroom.link hslot (Value.evolves_storePart _ _ _ _ _) _).1

theorem copyListTo_spares (v : ListView) (ha : a.Sound) (hslot : a.HasSlot slot) :
    SparesOnError a (DeepCopy.copyListTo source copySlot v slot) a := by
  have hroom := room_makeRoom ha slot (DeepCopy.footprint_mod v)
  have hopen := opened hroom.content hroom.length
  let target : ListView := ⟨(Shape.list v.layout v.count).body
    (a.makeRoom slot (DeepCopy.footprint v)).1.content, v.layout, v.count⟩
  have hfill : Realizes (DeepCopy.fillList source copySlot v target) _ _ _ _ :=
    hc.fillList (hopen.evolves.sound (hroom.evolves.sound ha)) hopen.body
  have hwrites : SparesOnError a (DeepCopy.fillList source copySlot v target) _ :=
    .of_new hfill (hroom.grows.trans_new hopen.grows hroom.new)
      fun s i hi => hroom.new s i (hopen.within s i hi)
  apply SparesOnError.step (place_eq a slot _)
  apply SparesOnError.step (listInRegion_eq hroom.content hroom.length)
  apply hwrites.bind
  intro x c hx
  obtain ⟨parts, _, hdone⟩ := hfill.of_run hx
  obtain ⟨_, rfl⟩ := Prod.mk.inj hdone
  exact .of_ok (hroom.link hslot (hopen.evolves.trans (Value.evolves_storeParts _ _ _ _ _)) _).1

theorem copyTarget_spares (src : Span) (pointer : Word) (ha : a.Sound) (hslot : a.HasSlot slot) :
    SparesOnError a (DeepCopy.copyTarget source copySlot src slot pointer) a := by
  apply SparesOnError.after (.refl _ a)
  intro t ht
  cases t with
  | struct v => exact hc.copyStructTo_spares ha hslot
  | list v => exact hc.copyListTo_spares v ha hslot

end CopiesSlots

variable {source a : Arena} {limit : Nat} {src slot : Span}

theorem copyWord_spares {descend : Span → Span → Word → Building Unit} (hslot : a.HasSlot slot)
    (hd : ∀ pointer, SparesOnError a (descend src slot pointer) a) :
    SparesOnError a (DeepCopy.copyWord source descend src slot) a := by
  apply SparesOnError.after (.refl _ a)
  intro _ _
  apply SparesOnError.after (.refl _ a)
  intro _ _
  apply SparesOnError.after (.refl _ a)
  intro pointer _
  by_cases hn : Pointer.isNull pointer = true
  · rw [if_pos hn]
    exact .of_ok (Building.writeWord_of_hasSlot hslot _)
  · rw [if_neg hn]
    exact hd pointer

/-- A pointer that cannot be copied leaves its slot as it was. -/
theorem copySlot_spares (room : Nat) (ha : a.Sound) (hslot : a.HasSlot slot) :
    SparesOnError a (DeepCopy.copySlot source limit room src slot) a := by
  cases room with
  | zero => exact copyWord_spares hslot fun _ _ _ => .refl _ a
  | succ room =>
    exact copyWord_spares hslot fun pointer =>
      (copiesSlots_copySlot source limit room).copyTarget_spares src pointer ha hslot

theorem extends_copyStruct (src : StructView) (d p : Nat) (ha : a.Sound) :
    Extends (fun _ _ => True) a (DeepCopy.copyStruct source limit src d p a).2 :=
  (Building.Stepping.copyStruct source limit src d p a).evolves.extending
    (copyStruct_realizes src d p ha).keeps.spares

theorem extends_copyList (src : ListView) (ha : a.Sound) :
    Extends (fun _ _ => True) a (DeepCopy.copyList source limit src a).2 :=
  (Building.Stepping.copyList source limit src a).evolves.extending
    (copyList_realizes src ha).keeps.spares

theorem extends_copyPointer (ha : a.Sound) (hslot : a.HasSlot slot) :
    Extends (fun s i => ¬ slot.Covers s i) a (DeepCopy.copyPointer source limit src slot a).2 :=
  (Building.Stepping.copyPointer source limit src slot a).evolves.extending
    (copyPointer_realizes src ha hslot).keeps

theorem extends_copyPointer_of_error {f : Fault} (ha : a.Sound) (hslot : a.HasSlot slot)
    (hf : (DeepCopy.copyPointer source limit src slot a).1 = .error f) :
    Extends (fun _ _ => True) a (DeepCopy.copyPointer source limit src slot a).2 :=
  (Building.Stepping.copyPointer source limit src slot a).evolves.extending
    (copySlot_spares limit ha hslot f hf)

namespace Catalog

variable {world : World} {c c' : Catalog world}

/-- An addition keeps the entries with all that was in use, whether it fails or not. -/
theorem extends_add (ha : c.arena.Sound) (ident : String) (source : Arena) (d : Descriptor) :
    Extends (fun _ _ => True) c.arena (c.add ident source d).2.arena ∧
      (c.add ident source d).2.arena.Sound ∧ c.entries <+: (c.add ident source d).2.entries := by
  rcases add_cases ha ident source d with ⟨content, _, hd, he⟩ | ⟨_, b, he, hg, hev⟩ <;> rw [he]
  · have hs := (describe_fits hd).stored ha
    exact ⟨hs.evolves.extending hs.grows.spares, hs.evolves.sound ha, List.prefix_append _ _⟩
  · exact ⟨hev.extending hg, hev.sound ha, List.prefix_refl _⟩

theorem Filled.extends_filled (h : c.Filled c') (ha : c.arena.Sound) :
    Extends (fun _ _ => True) c.arena c'.arena ∧ c'.arena.Sound ∧ c.entries <+: c'.entries := by
  induction h with
  | start => exact ⟨.refl _ _, ha, List.prefix_refl _⟩
  | @add b _ ident source d ih =>
    obtain ⟨hb, hsound, hentries⟩ := ih
    obtain ⟨hadd, hsound', hentries'⟩ := extends_add hsound ident source d
    exact ⟨hb.trans hadd, hsound', hentries.trans hentries'⟩

theorem Filled.entry_lasts (h : c.Filled c') (hc : c.Assembled) {e : String × Descriptor}
    (he : e ∈ c.entries) : e ∈ c'.entries ∧
      (∀ limit, Persists (c.arena.describe limit e.2) (c'.arena.describe limit e.2)) ∧
      (c.arena.totalSize < 2 ^ 32 → ∃ content, c.arena.Describes e.2 content) := by
  obtain ⟨limit, table, _, hsealed⟩ := hc.exists_sealed
  obtain ⟨hext, _, hentries⟩ := h.extends_filled hsealed.tight.toSound
  refine ⟨hentries.subset he, fun n => hext.toGrows.persists_describe n e.2, fun hs => ?_⟩
  obtain ⟨k, _, hk⟩ := Reading.exists_of_mem_left hsealed.kept he
  exact ⟨k.2, limit, hk.described hs _ (.refl _ _)⟩

end Catalog

open DeepCopy in
/-- A copy into a reachable arena spares all that was in use, however it ends. A pointer that is
copied changes its slot and nothing else, and one that cannot be copied leaves the slot as it was.
No segment goes or gets another capacity. So the entries of a catalog go on reading as they do. -/
theorem copies_spare_used (source : Arena) (limit : Nat) {a : Arena} (h : a.Reachable) :
    (∀ (src : StructView) (d p : Nat),
      Extends (fun _ _ => True) a (copyStruct source limit src d p a).2) ∧
    (∀ src : ListView, Extends (fun _ _ => True) a (copyList source limit src a).2) ∧
    (∀ src slot : Span, a.HasSlot slot →
      Extends (fun s i => ¬ slot.Covers s i) a (copyPointer source limit src slot a).2 ∧
      ∀ f, (copyPointer source limit src slot a).1 = .error f →
        Extends (fun _ _ => True) a (copyPointer source limit src slot a).2) ∧
    ∀ (world : World) (c c' : Catalog world), c.Assembled → c.Filled c' →
      Extends (fun _ _ => True) c.arena c'.arena ∧
      ∀ e ∈ c.entries, e ∈ c'.entries ∧
        (∀ n, Persists (c.arena.describe n e.2) (c'.arena.describe n e.2)) ∧
        (c.arena.totalSize < 2 ^ 32 → ∃ content, c.arena.Describes e.2 content) := by
  refine ⟨fun src d p => extends_copyStruct src d p h.sound,
    fun src => extends_copyList src h.sound, fun src slot hslot => ?_, fun _ c c' hc hf => ?_⟩
  · exact ⟨extends_copyPointer h.sound hslot,
      fun _ => extends_copyPointer_of_error h.sound hslot⟩
  · obtain ⟨_, _, _, hsealed⟩ := hc.exists_sealed
    exact ⟨(hf.extends_filled hsealed.tight.toSound).1, fun _ he => hf.entry_lasts hc he⟩

/-- Two levels of pointers are one too many: the copy fails behind a landing pad in a new segment.
The second copy fills the slot. An addition that fails leaves the entry before it. -/
theorem copies_spare_used_sample :
    let failed := DeepCopy.copyPointer Arena.sample 1 ⟨0, 0, 8⟩ ⟨0, 0, 8⟩ crowded
    let done := DeepCopy.copyPointer Arena.sample 64 ⟨0, 0, 8⟩ ⟨0, 0, 8⟩ crowded
    failed.1 = .error (.tooDeep 1) ∧ failed.2.segmentCount = 2 ∧
      failed.2.byte? 0 0 = crowded.byte? 0 0 ∧
    done.1 = .ok () ∧ done.2.byte? 0 0 ≠ crowded.byte? 0 0 ∧
      done.2.capacityIn 0 = crowded.capacityIn 0 ∧
    ∃ content, Catalog.spilled.arena.Describes (.pointer ⟨0, 0, 8⟩) content ∧
      Catalog.littered.arena.Describes (.pointer ⟨0, 0, 8⟩) content := by
  intro failed done
  have hslot : crowded.HasSlot ⟨0, 0, 8⟩ := ⟨⟨by decide, by decide⟩, rfl, rfl⟩
  have hfailed : failed.1 = .error (.tooDeep 1) := by decide +kernel
  have hdone : done.1 = .ok () := by decide +kernel
  have hreach : crowded.Reachable := (Reachable.withCapacity 8).alloc 8
  obtain ⟨_, _, hpointer, hcatalog⟩ := copies_spare_used Arena.sample 1 hreach
  obtain ⟨_, _, hpointer', _⟩ := copies_spare_used Arena.sample 64 hreach
  have hspilled : Catalog.spilled.Assembled := .add (.new 8 64) _ _ _
  have hlittered : Catalog.spilled.Filled Catalog.littered := .add .start _ _ _
  have he : ("p", Descriptor.pointer ⟨0, 0, 8⟩) ∈ Catalog.spilled.entries := by decide +kernel
  obtain ⟨_, hlasts, hread⟩ := (hcatalog _ _ _ hspilled hlittered).2 _ he
  obtain ⟨content, n, hcontent⟩ := hread (by decide +kernel)
  refine ⟨hfailed, by decide +kernel, ?_, hdone, by decide +kernel, ?_, content, ⟨n, hcontent⟩,
    n, hlasts n _ hcontent⟩
  · exact ((hpointer _ _ hslot).2 _ hfailed).bytes 0 0 trivial (by decide)
  · exact (hpointer' _ _ hslot).1.capacity 0 (by decide)

end FrozenDefaults
