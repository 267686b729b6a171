import FrozenDefaults.Proofs.Assembling
import FrozenDefaults.Proofs.Fields
import FrozenDefaults.Proofs.Formation
import FrozenDefaults.Proofs.Persistence
import FrozenDefaults.Proofs.Requirement

/-!
# Tags of composite lists

The word before the elements of a composite list repeats its layout and its
number of elements. The number has thirty bits there, and a larger one runs over
into the data words. Only a list whose elements have no words can have so many
of them in a small arena.
-/

namespace FrozenDefaults

open Arena

namespace Pointer

open BitVec

/-- What a tag says that was made for `count` elements: the number without its two highest bits,
which count as data words. -/
def Fields.spilled (count : UInt32) (d p : UInt16) : Fields :=
  .tag (count &&& 0x3fffffff) (d ||| (count >>> 30).toUInt16) p

theorem ofTag_eq_spilled (count : UInt32) (d p : UInt16) :
    ofTag count d p = (Fields.spilled count d p).word := by
  have hmask : (0x3fffffff : UInt32).toBitVec = (allOnes 30).setWidth 32 := rfl
  have hhigh : (count >>> 30).toUInt16.toBitVec = (count.toBitVec >>> 30).setWidth 16 := rfl
  apply eq_of_getLsbD_eq
  intro i hi
  simp only [Fields.spilled, Fields.word, ofTag, UInt32.toBitVec_and, UInt16.toBitVec_or, hmask,
    hhigh, getLsbD_or, getLsbD_shiftLeft, getLsbD_setWidth, getLsbD_and, getLsbD_allOnes,
    getLsbD_ushiftRight]
  grind

theorem readOff_spilled (count : UInt32) (d p : UInt16) :
    (Fields.spilled count d p).ReadOff (ofTag count d p) := by
  rw [ofTag_eq_spilled]
  refine (readOff_word_iff _).2 ?_
  show (count &&& 0x3fffffff).toNat < 2 ^ 30
  rw [UInt32.toNat_and]
  exact Nat.and_lt_two_pow _ (by decide)

/-- The tag of a list says what it was made for if and only if the number of elements fits. -/
theorem readOff_ofTag_iff {count : UInt32} {d p : UInt16} :
    (Fields.tag count d p).ReadOff (ofTag count d p) ↔ count.toNat < 2 ^ 30 :=
  readOff_word_iff (.tag count d p)

end Pointer

/-- The elements are in use, and the word before them is the tag that was made for them. -/
structure ListView.TaggedIn (v : ListView) (a : Arena) (d p : UInt16) : Prop where
  elements : a.Holds v.elements
  length : v.elements.length = v.layout.storageBytes v.count
  start : bytesPerWord ≤ v.elements.start
  tag : a.readWord v.elements.segment (v.elements.startWord - 1) = .ok (Pointer.ofTag v.count d p)

namespace ListView.TaggedIn

variable {v : ListView} {a b : Arena} {d p : UInt16}

theorem grows (h : v.TaggedIn a d p) (hg : Grows (fun _ _ => True) a b) : v.TaggedIn b d p where
  elements := hg.holds h.elements
  length := h.length
  start := h.start
  tag := hg.persists_readWord _ _ _ h.tag

variable (h : v.TaggedIn a d p) (hlayout : v.layout = .composite d p)
include h hlayout

theorem size_le : bytesPerWord + v.count.toNat * (ElementLayout.stride d p * bytesPerWord) ≤
    a.totalSize := by
  have hlength := h.length
  rw [hlayout, Shape.storageBytes_composite] at hlength
  rw [← hlength]
  exact (Nat.add_le_add_right h.start _).trans (h.elements.2.trans (a.usedIn_le_totalSize _))

/-- Elements with words are too large for so many of them. -/
theorem count_lt (hpos : 0 < ElementLayout.stride d p) (hs : a.totalSize ≤ 2 ^ 33) :
    v.count.toNat < 2 ^ 30 := by
  have hsize := h.size_le hlayout
  have hle : v.count.toNat * bytesPerWord ≤
      v.count.toNat * (ElementLayout.stride d p * bytesPerWord) :=
    Nat.mul_le_mul_left _ (Nat.le_mul_of_pos_left _ hpos)
  unfold bytesPerWord at hsize hle
  omega

end ListView.TaggedIn

/-- A composite list laid out in a region is tagged there, and stays so whatever is put where its
elements are. -/
theorem taggedIn_of_region {a b : Arena} {src : ListView} {d p : UInt16} {region : Span}
    (hlayout : src.layout = .composite d p) (hr : a.HasRegion region (DeepCopy.footprint src))
    (hl : region.length = DeepCopy.footprint src)
    (hg : Grows (fun s i => ¬ ((Shape.list src.layout src.count).body region).Covers s i)
      (a.putTag (.list src.layout src.count) region) b) :
    ListView.TaggedIn ⟨(Shape.list src.layout src.count).body region, src.layout, src.count⟩
      b d p := by
  have hopen := opened hr hl
  obtain ⟨s, l, count⟩ := src
  subst hlayout
  let slot : Span := ⟨region.segment, region.start, bytesPerWord⟩
  have hslot : a.HasSlot slot := by
    have h := hr.slot (i := 0) ((Nat.one_mul _).trans_le (Nat.le_add_right _ _))
    rwa [Nat.zero_mul, Nat.add_zero] at h
  let w := Pointer.ofTag count d p
  have hread : (a.putWord slot w).read slot = .ok (Word.toBytes w) :=
    read_patch hslot.holds ((Word.length_toBytes w).trans hslot.length.symm)
  have hword : b.readWord slot.segment slot.startWord = .ok w := by
    refine hslot.readWord (hg.read hread fun i hi hc => ?_)
    exact absurd hi.2.2 (Nat.not_lt.2 hc.2.1)
  refine ⟨hg.holds hopen.body.holds, hopen.length, Nat.le_add_left _ _, ?_⟩
  have hstart : (region.start + bytesPerWord) / bytesPerWord - 1 = slot.startWord := by
    rw [Nat.add_div_right _ (by decide)]
    rfl
  show b.readWord region.segment ((region.start + bytesPerWord) / bytesPerWord - 1) = .ok w
  rw [hstart]
  exact hword

theorem copyList_tagged {source a b : Arena} {limit : Nat} {src v : ListView} (ha : a.Sound)
    (h : DeepCopy.copyList source limit src a = (.ok v, b)) :
    v.layout = src.layout ∧ v.count = src.count ∧
      ∀ d p, src.layout = .composite d p → v.TaggedIn b d p := by
  obtain ⟨hr, hl, _, _⟩ := alloc_region ha (DeepCopy.footprint_mod src)
  have hopen := opened hr hl
  have hs := hopen.evolves.sound ((a.evolves_alloc _).sound ha)
  have hfill : Building.Realizes (DeepCopy.fillList source (DeepCopy.copyPointer source limit) src
      ⟨(Shape.list src.layout src.count).body (a.alloc (DeepCopy.footprint src)).1, src.layout,
        src.count⟩) _ _ _ _ :=
    (copiesSlots_copySlot source limit limit).fillList hs hopen.body
  cases hvalid : src.validate with
  | error f =>
    rw [DeepCopy.copyList, Building.bind_error (Building.lift_error hvalid)] at h
    cases h
  | ok _ =>
    rw [DeepCopy.copyList, Building.bind_ok (Building.lift_ok hvalid),
      Building.bind_ok (alloc_run (DeepCopy.checkBlock_footprint src)),
      Building.bind_ok (listInRegion_eq hr hl)] at h
    obtain ⟨_, c, hrun, hret⟩ := Building.bind_run h
    have hkeeps := hfill.keeps
    rw [hrun] at hkeeps
    cases hret
    exact ⟨rfl, rfl, fun d p hlayout => taggedIn_of_region hlayout hr hl hkeeps⟩

theorem copyDescriptor_tagged {source a b : Arena} {limit : Nat} {src : Descriptor} {v : ListView}
    (ha : a.Sound) (h : DeepCopy.copyDescriptor source limit src a = (.ok (.list v), b))
    {d p : UInt16} (hlayout : v.layout = .composite d p) : v.TaggedIn b d p := by
  cases src with
  | struct src =>
    obtain ⟨_, _, _, h⟩ := Building.bind_run h
    obtain ⟨_, _, _, h⟩ := Building.bind_run h
    obtain ⟨_, _, _, h⟩ := Building.bind_run h
    cases h
  | list src =>
    obtain ⟨w, c, hrun, hret⟩ := Building.bind_run h
    cases hret
    obtain ⟨hsame, _, htag⟩ := copyList_tagged ha hrun
    exact htag d p (hsame.symm.trans hlayout)
  | pointer src =>
    obtain ⟨_, _, _, h⟩ := Building.bind_run h
    obtain ⟨_, _, _, h⟩ := Building.bind_run h
    cases h

namespace Catalog

variable {world : World} {c : Catalog world}

/-- All composite lists of the catalog are tagged. -/
def Tagged (c : Catalog world) : Prop :=
  ∀ ident v, (ident, .list v) ∈ c.entries → ∀ d p, v.layout = .composite d p →
    v.TaggedIn c.arena d p

theorem Tagged.add (h : c.Tagged) (ha : c.arena.Sound) (ident : String) (source : Arena)
    (x : Descriptor) : (c.add ident source x).2.Tagged := by
  have hg := grows_copyDescriptor ha source c.nestingLimit x
  rcases add_cases ha ident source x with ⟨content, _, hd, he⟩ | ⟨_, b, he, hg, _⟩ <;> rw [he]
  · have hrun := (copyDescriptor_realizes x ha).ok _ hd
    rw [hrun] at hg
    intro i v hv d p hlayout
    rcases List.mem_append.1 hv with hv | hv
    · exact (h i v hv d p hlayout).grows hg
    · obtain ⟨_, hstored⟩ := Prod.mk.inj (List.mem_singleton.1 hv)
      rw [← hstored] at hrun
      exact copyDescriptor_tagged ha hrun hlayout
  · exact fun i v hv d p hlayout => (h i v hv d p hlayout).grows hg

theorem Assembled.tagged (h : c.Assembled) : c.Tagged := by
  induction h with
  | new capacity limit => exact fun _ _ hv => absurd hv List.not_mem_nil
  | add hc ident source x ih =>
    obtain ⟨_, _, _, hs⟩ := hc.exists_sealed
    exact ih.add hs.tight.toSound ident source x
  | withNestingLimit _ limit ih => exact ih

end Catalog

/-- The word before the elements has the form of a tag. It says what the list is if and only if the
number of elements is less than `2 ^ 30`, as it is if the elements have words and the arena holds
no more than `2 ^ 33` bytes. Of a larger number the two highest bits are data words. -/
def ListView.TagTells (v : ListView) (a : Arena) (d p : UInt16) : Prop :=
  ∃ w, a.readWord v.elements.segment (v.elements.startWord - 1) = .ok w ∧
    (Pointer.Fields.spilled v.count d p).ReadOff w ∧
    ((Pointer.Fields.tag v.count d p).ReadOff w ↔ v.count.toNat < 2 ^ 30) ∧
    (0 < ElementLayout.stride d p → a.totalSize ≤ 2 ^ 33 →
      (Pointer.Fields.tag v.count d p).ReadOff w)

theorem ListView.TaggedIn.tells {v : ListView} {a : Arena} {d p : UInt16}
    (h : v.TaggedIn a d p) (hlayout : v.layout = .composite d p) : v.TagTells a d p :=
  ⟨_, h.tag, Pointer.readOff_spilled _ _ _, Pointer.readOff_ofTag_iff, fun hpos hs =>
    Pointer.readOff_ofTag_iff.2 (h.count_lt hlayout hpos hs)⟩

/-- The tag of a composite list tells its layout and its number of elements, as far as the number
fits: of every list that is copied, into whatever reachable arena, and of every list of every
catalog, whatever was added behind it. -/
theorem composite_tags (source : Arena) (limit : Nat) {world : World} {a : Arena}
    {c : Catalog world} (ha : a.Reachable) (hc : c.Assembled) :
    (∀ (src v : ListView) (b : Arena) (d p : UInt16), src.layout = .composite d p →
      DeepCopy.copyList source limit src a = (.ok v, b) →
        v.layout = .composite d p ∧ v.count = src.count ∧ v.TagTells b d p) ∧
    ∀ (ident : String) (v : ListView) (d p : UInt16), (ident, v) ∈ c.lists →
      v.layout = .composite d p → v.TagTells c.arena d p := by
  refine ⟨fun src v b d p hlayout h => ?_, fun ident v d p hv hlayout => ?_⟩
  · obtain ⟨hsame, hcount, htag⟩ := copyList_tagged ha.sound h
    exact ⟨hsame.trans hlayout, hcount, (htag d p hlayout).tells (hsame.trans hlayout)⟩
  · exact (hc.tagged ident v (Catalog.list_mem_entries hv) d p hlayout).tells hlayout

open Pointer in
/-- The tag of a list of one element tells it. The tag of `2 ^ 30` elements without words tells of
no element, with one data word. -/
theorem composite_tags_sample :
    let long : ListView := ⟨⟨0, 0, 0⟩, .composite 0 0, 0x40000000⟩
    let c := ((Catalog.new .reader 8 64).add "l" sample
      (.list ⟨⟨0, 8, 16⟩, .composite 1 1, 1⟩)).2
    (∃ w, (DeepCopy.copyList empty 64 long crowded).2.readWord 1 0 = .ok w ∧
      (Fields.tag 0 1 0).ReadOff w ∧ ¬ (Fields.tag 0x40000000 0 0).ReadOff w) ∧
    ∃ w, c.arena.readWord 1 0 = .ok w ∧ (Fields.tag 1 1 1).ReadOff w := by
  intro long c
  have hrun : (DeepCopy.copyList empty 64 long crowded).1 =
      .ok ⟨⟨1, 8, 0⟩, .composite 0 0, 0x40000000⟩ := by decide +kernel
  have hc : c.Assembled := (Catalog.Assembled.new 8 64).add _ _ _
  have hmem : ("l", ⟨⟨1, 8, 16⟩, .composite 1 1, 1⟩) ∈ c.lists := by decide +kernel
  obtain ⟨hcopies, hlists⟩ :=
    composite_tags empty 64 ((Reachable.withCapacity 8).alloc 8) hc
  obtain ⟨_, _, w, hw, hspilled, htells, _⟩ := hcopies long _ _ 0 0 rfl (Building.run_eq hrun)
  obtain ⟨w', hw', _, htells', _⟩ := hlists "l" _ 1 1 hmem rfl
  exact ⟨⟨w, hw, hspilled, fun h => absurd (htells.1 h) (by decide)⟩, w', hw',
    htells'.2 (by decide)⟩

open Pointer in
/-- The tag does not tell of every list that can be copied. -/
theorem exists_copyList_tag_differs :
    ¬ ∀ (source : Arena) (limit : Nat) (a b : Arena) (src v : ListView) (d p : UInt16),
      a.Reachable → src.validate = .ok () → DeepCopy.copyList source limit src a = (.ok v, b) →
      v.layout = .composite d p →
        ∃ w, b.readWord v.elements.segment (v.elements.startWord - 1) = .ok w ∧
          (Fields.tag v.count d p).ReadOff w := by
  intro h
  let long : ListView := ⟨⟨0, 0, 0⟩, .composite 0 0, 0x40000000⟩
  have hrun : (DeepCopy.copyList empty 64 long (withCapacity 64)).1 =
      .ok ⟨⟨0, 8, 0⟩, .composite 0 0, 0x40000000⟩ := by decide +kernel
  have hvalid : long.validate = .ok () := by decide +kernel
  obtain ⟨w, _, _, hcount, _⟩ := h empty 64 _ _ long _ 0 0 (.withCapacity 64) hvalid
    (Building.run_eq hrun) rfl
  exact absurd (hcount ▸ tagCount_lt w) (by decide)

end FrozenDefaults
