import FrozenDefaults.Proofs.FarPointers
import FrozenDefaults.Proofs.Meaning

/-!
# What a catalog's arena is made of

The arena of a catalog holds the contents of its entries, a landing pad for each
of their far pointers, and what failed additions have left. The reader's arena
holds the contents alone, in one segment.
-/

namespace FrozenDefaults

open Arena

/-- A content needs a segment, also one without bytes. -/
theorem Content.segmentCount_store (content : Content) (a : Arena) :
    0 < (content.store a).2.segmentCount := by
  cases content with
  | object shape parts =>
    have hev : Evolves (a.alloc shape.footprint).2 (shape.settle parts a) :=
      Value.evolves_fill shape parts _ _
    exact (Nat.zero_lt_of_lt (fresh_alloc a shape.footprint).segment).trans_le hev.grows.count
  | pointer v =>
    have hev := v.evolves_store (a.alloc bytesPerWord).1 (a.alloc bytesPerWord).2
    exact (Nat.zero_lt_of_lt (fresh_alloc a bytesPerWord).segment).trans_le hev.grows.count

namespace Catalog

variable {world : World} {c c' : Catalog world} {table : List (String × Content)} {waste : Nat}

/-- What additions make of a catalog, when the failed ones of them have left the given number of
bytes allocated. -/
inductive FilledWith (start : Catalog world) : Catalog world → Nat → Prop
  | start : FilledWith start start 0
  | added {c c' : Catalog world} {waste : Nat} (h : FilledWith start c waste) {ident : String}
      {source : Arena} {d : Descriptor} (ha : c.add ident source d = (.ok (), c')) :
      FilledWith start c' waste
  | failed {c c' : Catalog world} {waste lost : Nat} (h : FilledWith start c waste)
      {ident : String} {source : Arena} {d : Descriptor} {f : Fault}
      (ha : c.add ident source d = (.error f, c'))
      (hl : c'.arena.totalSize = c.arena.totalSize + lost) : FilledWith start c' (waste + lost)

theorem totalSize_le_add (c : Catalog world) (ident : String) (source : Arena) (d : Descriptor) :
    c.arena.totalSize ≤ (c.add ident source d).2.arena.totalSize := by
  have hev := (Building.Stepping.copyDescriptor source c.nestingLimit d c.arena).evolves
  unfold add
  split
  · exact Nat.le_refl _
  · split <;> rename_i hrun <;> rw [hrun] at hev <;> exact hev.size

theorem filled_iff {start : Catalog world} :
    start.Filled c ↔ ∃ waste, start.FilledWith c waste := by
  constructor
  · intro h
    induction h with
    | start => exact ⟨0, .start⟩
    | @add c _ ident source d ih =>
      obtain ⟨waste, ih⟩ := ih
      obtain ⟨lost, hl⟩ := Nat.exists_eq_add_of_le (c.totalSize_le_add ident source d)
      cases ha : (c.add ident source d).1 with
      | ok _ => exact ⟨_, ih.added (Prod.ext ha rfl)⟩
      | error f => exact ⟨_, ih.failed (Prod.ext ha rfl) hl⟩
  · rintro ⟨waste, h⟩
    induction h with
    | start => exact .start
    | @added c c' _ _ ident source d ha ih =>
      have hadd := ih.add ident source d
      rwa [ha] at hadd
    | @failed c c' _ _ _ ident source d _ ha _ ih =>
      have hadd := ih.add ident source d
      rwa [ha] at hadd

/-- The arena is made of the contents of the table, of the far pointers of the entries, a word each,
and of waste. The far pointers can be counted in every arena that grows out of this one, and with
any number of levels that is not less than the limit. -/
structure Accounted (c : Catalog world) (table : List (String × Content)) (waste : Nat) : Prop
    extends Sealed c table where
  account : c.arena.totalSize < 2 ^ 32 → ∀ b, Grows (fun _ _ => True) c.arena b →
    ∀ room, c.nestingLimit ≤ room →
      c.arena.totalSize = (table.map fun k => k.2.size).sum +
        bytesPerWord * (c.entries.map fun e => b.farsOf room e.2).sum + waste

theorem accounted_new (world : World) (capacity limit : Nat) :
    Accounted (.new world capacity limit) [] 0 where
  toSealed := sealed_new world capacity limit
  account _ _ _ _ _ := totalSize_withCapacity capacity

namespace Accounted

variable (h : Accounted c table waste)
include h

theorem enter {k : String × Content} (hi : k.1 ∉ table.map Prod.fst)
    (hf : k.2.Fits c.nestingLimit) : Accounted (c.enter k) (table ++ [k]) waste where
  toSealed := h.toSealed.enter hi hf
  account hs b hb room hroom := by
    have hroom : c.nestingLimit ≤ room := hroom
    have hsound := h.tight.toSound
    have hcounted := (hf.mono hroom).counted hsound
    have ht := hcounted.evolves.tight h.tight
    have hg := hcounted.grows.spares
    have hold := h.account (hcounted.evolves.size.trans_lt hs) b (hg.trans hb) room hroom
    have hnew := hcounted.back hsound (ht.addressable hs) b (hb.mono fun _ _ _ _ => trivial)
    rw [hold] at hnew
    simp only [Catalog.enter, List.map_append, List.map_singleton, List.sum_append,
      List.sum_singleton, Nat.mul_add]
    omega

theorem grows {b : Arena} {lost : Nat} (hg : Grows (fun _ _ => True) c.arena b)
    (hev : Evolves c.arena b) (hl : b.totalSize = c.arena.totalSize + lost) :
    Accounted ({ c with arena := b } : Catalog world) table (waste + lost) where
  toSealed := h.toSealed.grows hg hev
  account hs x hx room hroom := by
    have hold := h.account (hev.size.trans_lt hs) x (hg.trans hx) room hroom
    simp only [hl]
    omega

theorem added {ident : String} {source : Arena} {d : Descriptor}
    (ha : c.add ident source d = (.ok (), c')) : ∃ table', Accounted c' table' waste := by
  obtain ⟨content, hi, hd, rfl⟩ := h.of_add_ok ha
  exact ⟨_, h.enter hi (describe_fits hd)⟩

theorem failed {ident : String} {source : Arena} {d : Descriptor} {f : Fault} {lost : Nat}
    (ha : c.add ident source d = (.error f, c'))
    (hl : c'.arena.totalSize = c.arena.totalSize + lost) : Accounted c' table (waste + lost) := by
  obtain ⟨hsame, hg, hev⟩ := of_add_error h.tight.toSound ha
  rw [hsame]
  exact h.grows hg hev hl

end Accounted

theorem FilledWith.exists_accounted {start : Catalog world} (h : start.FilledWith c waste)
    (hs : Accounted start table 0) : ∃ table', Accounted c table' waste := by
  induction h with
  | start => exact ⟨table, hs⟩
  | added _ ha ih =>
    obtain ⟨table', ih⟩ := ih
    exact ih.added ha
  | failed _ ha hl ih =>
    obtain ⟨table', ih⟩ := ih
    exact ⟨table', ih.failed ha hl⟩

theorem segmentCount_enterAll {table : List (String × Content)} (hne : table ≠ []) :
    0 < (c.enterAll table).arena.segmentCount := by
  induction table generalizing c with
  | nil => exact absurd rfl hne
  | cons k table ih =>
    cases table with
    | nil => exact k.2.segmentCount_store c.arena
    | cons k' table => exact ih (c := c.enter k) (List.cons_ne_nil k' table)

namespace Sealed

variable {c : Catalog .builder} (h : Sealed c table)
include h

theorem segmentCount_readerOf (hne : c.entries ≠ []) :
    (c.readerOf table).arena.segmentCount = 1 := by
  have hpos : 0 < (c.readerOf table).arena.segmentCount :=
    segmentCount_enterAll (h.inKinds_ne_nil hne)
  have hle := h.roomy_readerOf.segmentCount_le
  omega

theorem totalSize_readerOf (hs : c.arena.totalSize < 2 ^ 32) :
    (c.readerOf table).arena.totalSize = (table.map fun k => k.2.size).sum := by
  have hle := (roomy_readerOf_of_le (Nat.le_refl _) h.size).totalSize_le
  have hge := (h.sealed_readerOf hs).size
  rw [sum_inKinds_contents] at hge
  exact Nat.le_antisymm hle hge

end Sealed

/-- The reader's catalog lies in one segment. It takes what the builder's takes, without a word for
each far pointer of an entry and without what failed additions have left, and so no more than the
size that is listed for it. -/
theorem toReader_size {capacity limit waste : Nat} {c : Catalog .builder}
    (h : (Catalog.new .builder capacity limit).FilledWith c waste)
    (hs : c.arena.totalSize < 2 ^ 32) :
    ∃ t, c.toReader = .ok t ∧ t.arena.segmentCount ≤ 1 ∧
      (c.entries ≠ [] → t.arena.segmentCount = 1) ∧
      (∀ room, c.nestingLimit ≤ room → t.arena.totalSize +
        bytesPerWord * (c.entries.map fun e => c.arena.farsOf room e.2).sum + waste =
          c.arena.totalSize) ∧
      ∀ s l, Listing.ofCatalog s c = .ok l → c.entries ≠ [] →
        ∃ n, Reading.readerSize? l.readerSetup = some n ∧ t.arena.totalSize ≤ n := by
  obtain ⟨table, hc⟩ := h.exists_accounted (accounted_new _ _ _)
  have hle := hc.roomy_readerOf.totalSize_le
  refine ⟨_, hc.toReader hs, hc.roomy_readerOf.segmentCount_le, hc.segmentCount_readerOf,
    fun room hroom => ?_, fun s l hl hne => ⟨c.arena.totalSize, ?_, hle⟩⟩
  · rw [hc.totalSize_readerOf hs]
    exact (hc.account hs _ (.refl _ _) room hroom).symm
  · rw [Listing.ofCatalog_eq hc.toSealed hs hne hl]
    exact Reading.readerSize?_eq s _ _

theorem add_run {ident : String} {source : Arena} {d : Descriptor} {r : Except Fault Unit}
    (h : (c.add ident source d).1 = r) (hc : c' = (c.add ident source d).2) :
    c.add ident source d = (r, c') := by
  rw [hc]
  exact Prod.ext h rfl

/-- An addition that failed at a broken pointer has left two words. -/
def littered : Catalog .builder :=
  (spilled.add "q" Arena.sample (.struct ⟨⟨0, 8, 8⟩, ⟨0, 24, 8⟩⟩)).2

theorem filledWith_littered : (Catalog.new .builder 8 64).FilledWith littered 16 := by
  have hp : ((Catalog.new .builder 8 64).add "p" Arena.sample (.pointer ⟨0, 0, 8⟩)).1 = .ok () := by
    decide +kernel
  have hq : (spilled.add "q" Arena.sample (.struct ⟨⟨0, 8, 8⟩, ⟨0, 24, 8⟩⟩)).1 =
      .error (.outOfBounds 0 13026528 13026528 32) := by decide +kernel
  have hlost : littered.arena.totalSize = spilled.arena.totalSize + 16 := by decide +kernel
  have hspilled : (Catalog.new .builder 8 64).FilledWith spilled 0 :=
    .added .start (add_run hp (by rw [spilled]))
  exact .failed hspilled (add_run hq (by rw [littered])) hlost

theorem toReader_size_sample : ∃ t l n, littered.toReader = .ok t ∧ t.arena.segmentCount = 1 ∧
    t.arena.totalSize + 8 * 1 + 16 = littered.arena.totalSize ∧
    Listing.ofCatalog .default littered = .ok l ∧ Reading.readerSize? l.readerSetup = some n ∧
    t.arena.totalSize ≤ n := by
  have hsize : littered.arena.totalSize < 2 ^ 32 := by decide +kernel
  have hne : littered.entries ≠ [] := by decide +kernel
  have hfars : (littered.entries.map fun e => littered.arena.farsOf 64 e.2).sum = 1 := by
    decide +kernel
  obtain ⟨t, ht, _, hone, htotal, hlisted⟩ := toReader_size filledWith_littered hsize
  have htotal := htotal 64 (by decide +kernel)
  rw [hfars] at htotal
  obtain ⟨table, hc⟩ := filledWith_littered.exists_accounted (accounted_new _ _ _)
  obtain ⟨l, hl⟩ := Agreement.exists_listing (s := .default) hc.toSealed hsize rfl
  obtain ⟨n, hn, hle⟩ := hlisted .default l hl hne
  exact ⟨t, l, n, ht, hone hne, htotal, hl, hn, hle⟩

end Catalog

end FrozenDefaults
