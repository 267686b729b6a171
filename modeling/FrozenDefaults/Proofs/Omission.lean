import FrozenDefaults.Proofs.Accounting

/-!
# Failed additions leave no trace

An addition that fails enters nothing, but it leaves bytes in the arena, and may
even have opened a segment, so that later entries are placed elsewhere. Catalogs
that were filled with the same contents cannot be told apart for all that: they
answer additions alike, have the same images and are transcribed alike.
-/

namespace FrozenDefaults

open Arena

namespace Catalog

variable {world : World} {c c' : Catalog world} {table : List (String × Content)}

/-- The outcomes of additions one after the other, and the catalog they leave. -/
def addEach : List (String × Arena × Descriptor) → Catalog world →
    List (Except Fault Unit) × Catalog world
  | [], c => ([], c)
  | (ident, source, d) :: calls, c =>
    let first := c.add ident source d
    let rest := addEach calls first.2
    (first.1 :: rest.1, rest.2)

/-- Nothing that is asked of the catalogs tells them apart, unless an arena has become too large to
be addressed: not the identifiers and layouts of their entries, not the images, and not the reader's
catalog. The arenas may differ. -/
structure Indistinguishable (c c' : Catalog world) : Prop where
  limit : c'.nestingLimit = c.nestingLimit
  idents : c'.entries.map Prod.fst = c.entries.map Prod.fst
  alike : c.Alike c'
  images : c.arena.totalSize < 2 ^ 32 → c'.arena.totalSize < 2 ^ 32 →
    ∃ images, c.images = .ok images ∧ c'.images = .ok images
  readers : c.arena.totalSize < 2 ^ 32 → c'.arena.totalSize < 2 ^ 32 → c.entries ≠ [] →
    ∃ t t', c.toReader = .ok t ∧ c'.toReader = .ok t' ∧ t.entries = t'.entries ∧
      t.arena.toSegments = t'.arena.toSegments

theorem enterAll_twins {budget m : Nat} {x y : Catalog world} (he : x.entries = y.entries)
    (ht : Twins budget (m + (table.map fun k => k.2.size).sum) x.arena y.arena) :
    (x.enterAll table).entries = (y.enterAll table).entries ∧
      Twins budget m (x.enterAll table).arena (y.enterAll table).arena := by
  induction table generalizing x y with
  | nil => exact ⟨he, ht⟩
  | cons k table ih =>
    rw [List.map_cons, List.sum_cons, Nat.add_comm k.2.size, ← Nat.add_assoc] at ht
    obtain ⟨hd, hrest⟩ := Content.twins_store ht
    refine ih (x := x.enter k) (y := y.enter k) ?_ hrest
    rw [enter, enter, he, hd]

theorem enterAll_new_alike (hne : table ≠ []) {m n limit limit' : Nat}
    (hm : (table.map fun k => k.2.size).sum ≤ m) (hn : (table.map fun k => k.2.size).sum ≤ n) :
    (enterAll (.new world m limit) table).entries =
        (enterAll (.new world n limit') table).entries ∧
      (enterAll (.new world m limit) table).arena.toSegments =
        (enterAll (.new world n limit') table).arena.toSegments := by
  cases table with
  | nil => exact absurd rfl hne
  | cons k table =>
    rw [List.map_cons, List.sum_cons, Nat.add_comm] at hm hn
    obtain ⟨x, hx, hxs⟩ := store_withCapacity k.2 (hm.trans (le_roundUp m))
    obtain ⟨y, hy, hys⟩ := store_withCapacity k.2 (hn.trans (le_roundUp n))
    obtain ⟨hd, hrest⟩ := Content.twins_store ⟨_, hx, hy⟩
    rw [← hxs, ← hys] at hd hrest
    have hentries : (Catalog.enter (.new world m limit) k).entries =
        (Catalog.enter (.new world n limit') k).entries := congrArg (fun d => [(k.1, d)]) hd
    rw [← Nat.zero_add (table.map fun k => k.2.size).sum] at hrest
    have hall := enterAll_twins hentries hrest
    exact ⟨hall.1, hall.2.toSegments⟩

/-- Catalogs that keep the same contents answer an addition alike and keep the same contents after
it. -/
theorem Sealed.add_alike {world' : World} {t : Catalog world'} (h : Sealed c table)
    (ht : Sealed t table) (hl : t.nestingLimit = c.nestingLimit) (ident : String) (source : Arena)
    (d : Descriptor) : (t.add ident source d).1 = (c.add ident source d).1 ∧
      ∃ table', Sealed (c.add ident source d).2 table' ∧
        Sealed (t.add ident source d).2 table' := by
  have hs := h.tight.toSound
  have hs' := ht.tight.toSound
  have houtcome : (t.add ident source d).1 = (c.add ident source d).1 := by
    rw [add_fst hs, add_fst hs', hl, h.idents, ht.idents]
  refine ⟨houtcome, ?_⟩
  obtain ⟨r, c', hc⟩ : ∃ r c', c.add ident source d = (r, c') := ⟨_, _, rfl⟩
  obtain ⟨r', t', ht'⟩ : ∃ r' t', t.add ident source d = (r', t') := ⟨_, _, rfl⟩
  rw [hc, ht'] at houtcome ⊢
  obtain rfl : r' = r := houtcome
  cases r' with
  | ok _ =>
    obtain ⟨content, hi, hd, rfl⟩ := h.of_add_ok hc
    obtain ⟨content', _, hd', rfl⟩ := ht.of_add_ok ht'
    obtain rfl : content = content' := Except.ok.inj (hd.symm.trans (hl ▸ hd'))
    exact ⟨_, h.enter hi (describe_fits hd), ht.enter hi (describe_fits hd')⟩
  | error f =>
    obtain ⟨hsame, hg, hev⟩ := of_add_error hs hc
    obtain ⟨hsame', hg', hev'⟩ := of_add_error hs' ht'
    rw [hsame, hsame']
    exact ⟨table, h.grows hg hev, ht.grows hg' hev'⟩

theorem Sealed.addEach_alike {t : Catalog world} (h : Sealed c table) (ht : Sealed t table)
    (hl : t.nestingLimit = c.nestingLimit) (calls : List (String × Arena × Descriptor)) :
    (t.addEach calls).1 = (c.addEach calls).1 ∧
      (t.addEach calls).2.nestingLimit = (c.addEach calls).2.nestingLimit ∧
      ∃ table', Sealed (c.addEach calls).2 table' ∧ Sealed (t.addEach calls).2 table' := by
  induction calls generalizing c t table with
  | nil => exact ⟨rfl, hl, table, h, ht⟩
  | cons call calls ih =>
    obtain ⟨ident, source, d⟩ := call
    obtain ⟨hadd, table', hc, ht⟩ := h.add_alike ht hl ident source d
    have hlimit : (t.add ident source d).2.nestingLimit =
        (c.add ident source d).2.nestingLimit := by
      rw [add_nestingLimit, add_nestingLimit, hl]
    obtain ⟨hrest, hrest'⟩ := ih hc ht hlimit
    refine ⟨?_, hrest'⟩
    show (t.add ident source d).1 :: _ = (c.add ident source d).1 :: _
    rw [hadd]
    exact congrArg _ hrest

theorem Sealed.toReader_eq (h : Sealed c table) (hs : c.arena.totalSize < 2 ^ 32) : c.toReader =
    .ok (enterAll (.new .reader c.arena.totalSize c.nestingLimit) (inKinds (·.2.kind) table)) :=
  (h.transcribe hs .reader c.arena.totalSize).1

theorem Sealed.indistinguishable (h : Sealed c table) (h' : Sealed c' table)
    (hl : c'.nestingLimit = c.nestingLimit) : c.Indistinguishable c' where
  limit := hl
  idents := h'.idents.trans h.idents.symm
  alike := h.alike_of_ofKind h' fun _ _ => rfl
  images hs hs' := ⟨_, h.images hs, h'.images hs'⟩
  readers hs hs' hne := by
    have hsum := sum_inKinds_contents table
    refine ⟨_, _, h.toReader_eq hs, h'.toReader_eq hs', ?_⟩
    exact enterAll_new_alike (h.inKinds_ne_nil hne) (hsum.trans_le h.size) (hsum.trans_le h'.size)

/-- An addition that fails cannot be noticed afterwards. It enters nothing, and it changes nothing
that was in use. Whatever is added later succeeds or fails as it does without the failed addition,
and no one can tell the catalogs apart that come of it. -/
theorem failed_add_invisible {capacity limit : Nat}
    (h : (Catalog.new world capacity limit).Filled c) {ident : String} {source : Arena}
    {d : Descriptor} {f : Fault} (ha : c.add ident source d = (.error f, c')) :
    c' = { c with arena := c'.arena } ∧ (∀ i, c'.contains i = c.contains i) ∧
    Extends (fun _ _ => True) c.arena c'.arena ∧
    (c'.arena.totalSize < 2 ^ 32 → ∃ images, c.images = .ok images ∧ c'.images = .ok images) ∧
    ∀ calls, (c'.addEach calls).1 = (c.addEach calls).1 ∧
      (c.addEach calls).2.Indistinguishable (c'.addEach calls).2 := by
  obtain ⟨table, hc⟩ := h.exists_sealed (sealed_new world capacity limit)
  obtain ⟨hsame, hg, hev⟩ := of_add_error hc.tight.toSound ha
  have hc' : Sealed c' table := hsame ▸ hc.grows hg hev
  have hlimit : c'.nestingLimit = c.nestingLimit := by rw [hsame]
  refine ⟨hsame, fun i => by rw [hsame]; rfl, hev.extending hg, fun hs => ?_, fun calls => ?_⟩
  · exact ⟨_, hc.images (hev.size.trans_lt hs), hc'.images hs⟩
  · obtain ⟨houtcomes, hlimit, table', h, h'⟩ := hc.addEach_alike hc' hlimit calls
    exact ⟨houtcomes, h.indistinguishable h' hlimit⟩

/-- The identifier of the failed addition is free, the taken one stays taken, and the entries behind
the leftovers are laid out as those without them. -/
theorem failed_add_invisible_sample :
    let calls := [("q", Arena.sample, .list ⟨⟨0, 24, 8⟩, .bytes1, 3⟩),
      ("p", Arena.sample, .pointer ⟨0, 0, 8⟩), ("r", Arena.sample, .struct ⟨⟨0, 8, 8⟩, ⟨0, 24, 8⟩⟩)]
    littered.arena.totalSize = spilled.arena.totalSize + 16 ∧ littered.contains "q" = false ∧
    (littered.addEach calls).1 = [.ok (), .error (.duplicateIdent "p"),
      .error (.outOfBounds 0 13026528 13026528 32)] ∧
    (spilled.addEach calls).1 = (littered.addEach calls).1 ∧
    (∃ images, (spilled.addEach calls).2.images = .ok images ∧
      (littered.addEach calls).2.images = .ok images) ∧
    ∃ t t', (spilled.addEach calls).2.toReader = .ok t ∧
      (littered.addEach calls).2.toReader = .ok t' ∧ t.entries = t'.entries ∧
      t.arena.toSegments = t'.arena.toSegments := by
  intro calls
  have hspilled : (Catalog.new .builder 8 64).Filled spilled := .add .start _ _ _
  have hq : spilled.add "q" Arena.sample (.struct ⟨⟨0, 8, 8⟩, ⟨0, 24, 8⟩⟩) =
      (.error (.outOfBounds 0 13026528 13026528 32), littered) :=
    add_run (by decide +kernel) (by rw [littered])
  have hsize : (spilled.addEach calls).2.arena.totalSize < 2 ^ 32 := by decide +kernel
  have hsize' : (littered.addEach calls).2.arena.totalSize < 2 ^ 32 := by decide +kernel
  have hne : (spilled.addEach calls).2.entries ≠ [] := by decide +kernel
  obtain ⟨_, hfree, _, _, hlater⟩ := failed_add_invisible hspilled hq
  obtain ⟨houtcomes, halike⟩ := hlater calls
  refine ⟨by decide +kernel, ?_, by decide +kernel, houtcomes.symm, halike.images hsize hsize',
    halike.readers hsize hsize' hne⟩
  rw [hfree]
  decide +kernel

end Catalog

end FrozenDefaults
