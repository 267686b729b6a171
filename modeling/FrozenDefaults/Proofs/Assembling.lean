import FrozenDefaults.Proofs.Images
import FrozenDefaults.Proofs.Meaning

/-!
# Images of assembled catalogs

A catalog can be filled under one nesting limit after the other. Two entries of
the same form, of one catalog or of two, have the same image if and only if they
have the same value.
-/

namespace FrozenDefaults

open Arena

theorem Kept.raise {m n : Nat} {a : Arena} {e : String × Descriptor} {k : String × Content}
    (h : Kept m a e k) (hmn : m ≤ n) : Kept n a e k where
  ident := h.ident
  made := h.made
  size := h.size
  described hs b hb :=
    describe_of_fits ((describe_fits (h.described hs b hb)).mono hmn) (h.described hs b hb)

namespace Catalog

variable {world : World} {c : Catalog world} {table : List (String × Content)}

/-- The catalogs that can be made by additions, each of which may fail, and by changes of the
nesting limit between them. -/
inductive Assembled : Catalog world → Prop
  | new (capacity limit : Nat) : Assembled (.new world capacity limit)
  | add {c : Catalog world} (h : Assembled c) (ident : String) (source : Arena) (d : Descriptor) :
      Assembled (c.add ident source d).2
  | withNestingLimit {c : Catalog world} (h : Assembled c) (limit : Nat) :
      Assembled (c.withNestingLimit limit)

theorem Assembled.addAll {source : Arena} {entries : List (String × Descriptor)}
    {c t : Catalog world} (h : c.Assembled) (ht : addAll source entries c = .ok t) :
    t.Assembled := by
  induction entries generalizing c with
  | nil => exact Except.ok.inj ht ▸ h
  | cons e entries ih =>
    have hadd := h.add e.1 source e.2
    rw [Catalog.addAll] at ht
    split at ht <;> rename_i hrun
    · rw [hrun] at hadd
      exact ih hadd ht
    · cases ht

theorem assembled_of_transcribe {c : Catalog world} {target : World} {capacity : Nat}
    {t : Catalog target} (ht : c.transcribe target capacity = .ok t) : t.Assembled :=
  (Assembled.new capacity c.nestingLimit).addAll ht

theorem Sealed.raise {m n : Nat} (h : (c.withNestingLimit m).Sealed table) (hmn : m ≤ n) :
    (c.withNestingLimit n).Sealed table :=
  ⟨h.tight, h.distinct, h.kept.imp fun _ _ hk => hk.raise hmn, h.size⟩

/-- Every entry of an assembled catalog keeps its content, under a limit that is high enough for all
of them. -/
theorem Assembled.exists_sealed (h : c.Assembled) :
    ∃ limit table, c.nestingLimit ≤ limit ∧ (c.withNestingLimit limit).Sealed table := by
  induction h with
  | new capacity limit => exact ⟨limit, [], Nat.le_refl _, sealed_new world capacity limit⟩
  | @add c _ ident source d ih =>
    obtain ⟨limit, table, hle, hs⟩ := ih
    have hidents : c.entries.map Prod.fst = table.map Prod.fst := hs.idents
    have hsound : c.arena.Sound := hs.tight.toSound
    rcases add_cases hsound ident source d with
      ⟨content, hi, hd, he⟩ | ⟨_, b, he, hg, hev⟩ <;> rw [he]
    · exact ⟨limit, _, hle, hs.enter (hidents ▸ hi) ((describe_fits hd).mono hle)⟩
    · exact ⟨limit, table, hle, hs.grows hg hev⟩
  | @withNestingLimit c _ limit ih =>
    obtain ⟨limit', table, _, hs⟩ := ih
    exact ⟨max limit limit', table, Nat.le_max_left _ _, hs.raise (Nat.le_max_right _ _)⟩

/-- The bytes are one segment into which the entry is copied alone, without a far pointer. -/
def ScratchImage (c : Catalog world) (d : Descriptor) (bs : List UInt8) : Prop :=
  ∃ d' a, DeepCopy.copyDescriptor c.arena c.nestingLimit d
      (.withCapacity (c.arena.totalSize + bytesPerWord)) = (.ok d', a) ∧
    a.segmentCount = 1 ∧ bs = a.toSegments.flatten ∧ ∀ room, a.farsOf room d' = 0

section Entries

variable (h : c.Assembled) (hs : c.arena.totalSize < 2 ^ 32)
  {images : List (String × List UInt8)} (himages : c.images = .ok images) {ident : String}
  {d : Descriptor} (he : (ident, d) ∈ c.entries)
include h himages he

theorem Assembled.lookup_image : ∃ bs, images.lookup ident = some bs ∧ c.image d = .ok bs := by
  obtain ⟨limit, table, _, hsealed⟩ := h.exists_sealed
  have hidents : c.entries.map Prod.fst = table.map Prod.fst := hsealed.idents
  have hall := mapM_eq_ok_iff.1 himages
  have hsame : c.byKind.map Prod.fst = images.map Prod.fst := by
    refine List.forall₂_eq_eq_eq ▸ List.forall₂_map_left_iff.2 (List.forall₂_map_right_iff.2
      (hall.imp fun e y hy => ?_))
    obtain ⟨bs, _, hy⟩ := bind_eq_ok_iff.1 hy
    obtain rfl : (e.1, bs) = y := Except.ok.inj hy
    rfl
  have hdistinct : (images.map Prod.fst).Nodup := by
    rw [← hsame, (c.byKind_perm.map Prod.fst).nodup_iff, hidents]
    exact hsealed.distinct
  obtain ⟨y, hmem, hy⟩ := Reading.exists_of_mem_left hall (c.byKind_perm.mem_iff.2 he)
  obtain ⟨bs, hbs, hy⟩ := bind_eq_ok_iff.1 hy
  obtain rfl : (ident, bs) = y := Except.ok.inj hy
  exact ⟨bs, Agreement.lookup_of_mem hdistinct hmem, hbs⟩

include hs

theorem Assembled.image_of_mem : ∃ bs content, images.lookup ident = some bs ∧
    c.ScratchImage d bs ∧ c.arena.describe c.nestingLimit d = .ok content ∧
    content.size ≤ c.arena.totalSize ∧ bs = content.image := by
  obtain ⟨bs, hlookup, himage⟩ := h.lookup_image himages he
  obtain ⟨limit, table, _, hsealed⟩ := h.exists_sealed
  obtain ⟨k, _, hk⟩ := Reading.exists_of_mem_left hsealed.kept he
  have ht := tight_withCapacity (c.arena.totalSize + bytesPerWord)
  cases hrun : DeepCopy.copyDescriptor c.arena c.nestingLimit d
      (.withCapacity (c.arena.totalSize + bytesPerWord)) with
  | mk r a =>
    simp only [image, hrun] at himage
    cases r with
    | error f => cases himage
    | ok d' =>
      obtain rfl : a.toSegments.flatten = bs := Except.ok.inj himage
      obtain ⟨content, hd, hstore⟩ := (copyDescriptor_realizes d ht.toSound).of_run hrun
      -- The entry keeps one content, whatever limit it is read with.
      have hsame : content = k.2 :=
        Describes.unique ⟨_, hd⟩ ⟨_, hk.described hs _ (.refl _ _)⟩
      have hsize : content.size ≤ c.arena.totalSize := hsame ▸ hk.size
      have hle := hsize.trans (Nat.le_add_right _ bytesPerWord)
      have hroom := hle.trans (le_roundUp _)
      have hfars := (describe_fits hd).farsOf_store hroom (hsize.trans_lt hs)
      obtain ⟨_, bytes, halone⟩ := Content.alone_store hroom
      have hbytes := Content.image_eq hle
      rw [hstore] at hfars halone hbytes
      exact ⟨_, content, hlookup, ⟨d', a, hrun, halone.segmentCount, rfl, hfars⟩, hd, hsize, hbytes⟩

end Entries

/-- Images stand for values: two entries of the same form have the same image if and only if they
have the same value, wherever and however that lies in the arenas. Each image is one segment and
holds no far pointer. -/
theorem image_eq_iff {world' : World} {c' : Catalog world'} (h : c.Assembled) (h' : c'.Assembled)
    (hs : c.arena.totalSize < 2 ^ 32) (hs' : c'.arena.totalSize < 2 ^ 32)
    {images images' : List (String × List UInt8)} (hi : c.images = .ok images)
    (hi' : c'.images = .ok images') {ident ident' : String} {d d' : Descriptor}
    (he : (ident, d) ∈ c.entries) (he' : (ident', d') ∈ c'.entries) (hf : d.SameForm d') :
    ∃ bs bs', images.lookup ident = some bs ∧ images'.lookup ident' = some bs' ∧
      c.ScratchImage d bs ∧ c'.ScratchImage d' bs' ∧
      (bs = bs' ↔ ∃ content, c.arena.Describes d content ∧ c'.arena.Describes d' content) := by
  obtain ⟨bs, x, hl, hscratch, hx, hsx, rfl⟩ := h.image_of_mem hs hi he
  obtain ⟨bs', y, hl', hscratch', hy, hsy, rfl⟩ := h'.image_of_mem hs' hi' he'
  refine ⟨_, _, hl, hl', hscratch, hscratch', fun heq => ?_, fun ⟨content, hc, hc'⟩ => ?_⟩
  · have hsame := Content.eq_of_image_eq (describe_fits hx) (describe_fits hy) (hsx.trans_lt hs)
      (hsy.trans_lt hs') (Content.home_of_sameForm hf hx hy) heq
    exact ⟨x, ⟨_, hx⟩, ⟨_, hsame ▸ hy⟩⟩
  · rw [Describes.unique ⟨_, hx⟩ hc, Describes.unique ⟨_, hy⟩ hc']

/-- The reader's catalog of a list behind a pointer. -/
def listed : Catalog .reader :=
  ((Catalog.new .reader 0 64).add "l" Arena.sample (.pointer ⟨0, 16, 8⟩)).2

/-- The struct behind the pointer is the same in both catalogs, behind a landing pad or not, and it
is not the list. -/
theorem image_eq_iff_sample :
    (∃ content, spilled.arena.Describes (.pointer ⟨0, 0, 8⟩) content ∧
      sample.arena.Describes (.pointer ⟨0, 0, 8⟩) content) ∧
    ¬ ∃ content, spilled.arena.Describes (.pointer ⟨0, 0, 8⟩) content ∧
      listed.arena.Describes (.pointer ⟨0, 0, 8⟩) content := by
  have hspilled : spilled.Assembled := .add (.new 8 64) _ _ _
  have hsample : sample.Assembled :=
    .add (.add (.add (.add (.new 0 64) _ _ _) _ _ _) _ _ _) _ _ _
  have hlisted : listed.Assembled := .add (.new 0 64) _ _ _
  let bytes : List UInt8 := [0, 0, 0, 0, 1, 0, 1, 0, 42, 0, 0, 0, 0, 0, 0, 0,
    1, 0, 0, 0, 26, 0, 0, 0, 97, 98, 99, 0, 0, 0, 0, 0]
  let list : List UInt8 := [1, 0, 0, 0, 26, 0, 0, 0, 97, 98, 99, 0, 0, 0, 0, 0]
  have hi : spilled.images = .ok [("p", bytes)] := by decide +kernel
  have hi' : sample.images = .ok [("s", bytes.drop 8), ("l", bytes.drop 24), ("p", bytes)] := by
    decide +kernel
  have hi'' : listed.images = .ok [("l", list)] := by decide +kernel
  have he : ("p", Descriptor.pointer ⟨0, 0, 8⟩) ∈ spilled.entries := by decide +kernel
  have he' : ("p", Descriptor.pointer ⟨0, 0, 8⟩) ∈ sample.entries := by decide +kernel
  have he'' : ("l", Descriptor.pointer ⟨0, 0, 8⟩) ∈ listed.entries := by decide +kernel
  have hsize : spilled.arena.totalSize < 2 ^ 32 := by decide +kernel
  obtain ⟨bs, bs', hl, hl', _, _, hiff⟩ := image_eq_iff hspilled hsample hsize (by decide +kernel)
    hi hi' he he' (.pointer _ _)
  obtain ⟨cs, cs', hl₂, hl₂', _, _, hiff₂⟩ := image_eq_iff hspilled hlisted hsize
    (by decide +kernel) hi hi'' he he'' (.pointer _ _)
  have hbs : bs = bytes := (Option.some.inj hl).symm
  have hbs' : bs' = bytes := (Option.some.inj hl').symm
  have hcs : cs = bytes := (Option.some.inj hl₂).symm
  have hcs' : cs' = list := (Option.some.inj hl₂').symm
  refine ⟨hiff.1 (hbs.trans hbs'.symm), fun hsame => ?_⟩
  have heq := hiff₂.2 hsame
  rw [hcs, hcs'] at heq
  exact absurd heq (by decide)

end Catalog

end FrozenDefaults
