import FrozenDefaults.Proofs.Agreeing
import FrozenDefaults.Proofs.Bindings
import FrozenDefaults.Proofs.Identifiers
import FrozenDefaults.Proofs.Manifests
import FrozenDefaults.Proofs.Reading
import FrozenDefaults.Proofs.Rebuilding

/-!
# What a listing means

From the text of a listing each world is read back: its arena is rebuilt, and
behind the descriptor that is bound to the identifier of a manifest's entry lies
what the payload of the entry describes in the source.
-/

namespace FrozenDefaults

open Arena

namespace Reading

/-- The block with the arena of a world. -/
def messageBlock (l : Listing) : World → List String
  | .builder => l.builderMessage
  | .reader => l.readerSetup

def bindingBlock (l : Listing) : World → List String
  | .builder => l.builderBindings
  | .reader => l.readerBindings

/-- How many bytes back the first segment of the reader. -/
def readerSize? (block : List String) : Option Nat := do
  let mark := s!"pub(crate) const {Listing.readerSizeName}: usize = "
  let (n, _) ← number? (← block.findSome? fun line => after? mark line.toList)
  return n

/-- The arena that the text of a world rebuilds. -/
def rebuilt? (l : Listing) (world : World) : Option Arena := do
  let segments ← segments? (messageBlock l world)
  match world with
  | .builder => (Arena.ofSegments segments).toOption
  | .reader =>
    let size ← readerSize? (messageBlock l world)
    (Arena.ofSegmentsWithCapacity segments size).toOption

theorem readerSize?_eq (s : Settings) (n : Nat) (c : Catalog .reader) :
    readerSize? (Listing.readerSetupLines s n c) = some n := by
  have hline : (s!"pub(crate) const {Listing.readerSizeName}: usize = {n};").toList =
      (s!"pub(crate) const {Listing.readerSizeName}: usize = ").toList ++
        (n.repr.toList ++ (";".toList ++ [])) := by
    simp only [String.toList_append, List.append_assoc, List.append_nil]
    rfl
  have hmark :
      (s!"pub(crate) const {Listing.readerSizeName}: usize = ").toList.head? = some 'p' := by
    simp only [String.toList_append, List.append_assoc]
    rfl
  have hcomment : ("/* Size of the builder defaults; the first segment of " ++
      Listing.messageName .reader ++ " is backed by this many bytes */").toList.head?.all
        (· != 'p') = true := by
    simp only [String.toList_append, List.append_assoc]
    rfl
  have hnone : after? (s!"pub(crate) const {Listing.readerSizeName}: usize = ")
      ("/* Size of the builder defaults; the first segment of " ++
        Listing.messageName .reader ++ " is backed by this many bytes */").toList = none := by
    rw [after?, isPrefixOf_eq_false hmark hcomment]
    rfl
  have hnumber := number?_append n ";" (by decide) []
  simp only [readerSize?, Listing.readerSetupLines, List.cons_append, List.findSome?_cons, hnone,
    hline, after?_append, hnumber, Option.bind_eq_bind, Option.bind_some, Option.pure_def]

theorem colon_not_mem_ident {node : Nat} {field ident : String}
    (h : Catalog.ident node field = .ok ident) : ':' ∉ ident.toList := by
  obtain ⟨hfield, rfl⟩ := Catalog.ident_eq_ok_iff.1 h
  rw [Catalog.toList_ident, List.mem_append, List.mem_append, List.mem_append, Nat.toList_repr]
  rintro (hc | hc | hc | hc)
  · exact absurd hc (by decide)
  · exact absurd (Nat.isDigit_of_mem_toDigits (by omega) (by omega) hc) (by decide)
  · exact absurd hc (by decide)
  · exact absurd (hfield.2 ':' hc) (by decide)

theorem exists_of_mem_right {α β : Type} {R : α → β → Prop} {l : List α} {l' : List β} {y : β}
    (h : List.Forall₂ R l l') (hy : y ∈ l') : ∃ x ∈ l, R x y := by
  induction h with
  | nil => cases hy
  | cons hr _ ih =>
    rcases List.mem_cons.1 hy with rfl | hy
    · exact ⟨_, List.mem_cons_self, hr⟩
    · obtain ⟨x, hx, hr⟩ := ih hy
      exact ⟨x, List.mem_cons_of_mem _ hx, hr⟩

theorem exists_of_mem_left {α β : Type} {R : α → β → Prop} {l : List α} {l' : List β} {x : α}
    (h : List.Forall₂ R l l') (hx : x ∈ l) : ∃ y ∈ l', R x y :=
  exists_of_mem_right h.flip hx

/-- What a catalog keeps is bound once, to a descriptor of it in every arena that has grown out of
the catalog's. -/
theorem bound_once {world : World} {c : Catalog world} {table : List (String × Content)}
    (h : c.Sealed table) (hs : c.arena.totalSize < 2 ^ 32)
    (hcolon : ∀ k ∈ table, ':' ∉ k.1.toList) (s : Settings) {a : Arena}
    (ha : Grows (fun _ _ => True) c.arena a) {k : String × Content} (hk : k ∈ table) :
    (Listing.bindings s c).countP (declares world k.1) = 1 ∧
      ∃ d, bound? world s.runtimePath k.1 (Listing.bindings s c) = some d ∧
        a.describe c.nestingLimit d = .ok k.2 := by
  have hidents : (c.byKind.map Prod.fst).Perm (table.map Prod.fst) :=
    h.idents ▸ c.byKind_perm.map Prod.fst
  have hd := hidents.nodup_iff.2 h.distinct
  have hentries : ∀ e ∈ c.byKind, ':' ∉ e.1.toList := by
    intro e he
    obtain ⟨k', hk', hi⟩ := List.mem_map.1 (hidents.subset (List.mem_map_of_mem he))
    rw [← hi]
    exact hcolon k' hk'
  obtain ⟨e, he, hkept⟩ := exists_of_mem_right h.kept hk
  have hm : (k.1, e.2) ∈ c.byKind := by
    rw [← hkept.ident]
    exact c.byKind_perm.symm.subset he
  have hcount : (Listing.bindings s c).countP (declares world k.1) =
      (c.byKind.map Prod.fst).count k.1 := countP_bindings hentries (hcolon k hk)
  rw [List.count_eq_one_of_mem hd (List.mem_map_of_mem hm)] at hcount
  exact ⟨hcount, e.2, bound?_bindings hentries hd hm, hkept.described hs a ha⟩

theorem rebuilt?_builder {l : Listing} {s : Settings} {a : Arena} (ha : a.Whole)
    (hl : l.builderMessage = Listing.messageLines .builder s none a) :
    arrayLength? l.builderMessage = some (grouped (literalLines l.builderMessage)).length ∧
      ∃ b, rebuilt? l .builder = some b ∧ Grows (fun _ _ => True) a b := by
  have hbefore : ∀ line ∈ ([] : List String), isSegmentsLine line = false := by simp
  obtain ⟨hlength, hgrouped, hsegments⟩ := read_messageLines hbefore .builder s none a hl
  have hb := ofSegments_toSegments ha
  refine ⟨by rw [hlength, hgrouped], a.frozen, ?_, grows_of_toSegments _ a.toSegments_frozen⟩
  simp only [rebuilt?, messageBlock, hsegments, hb, Option.bind_eq_bind, Option.bind_some]
  rfl

/-- The arena of the reader is rebuilt from its text, with the room that the text gives it. -/
theorem rebuilt?_reader {l : Listing} {s : Settings} {n : Nat} {c : Catalog .reader}
    (hc : c.arena.Whole) (hl : l.readerSetup = Listing.readerSetupLines s n c) :
    arrayLength? l.readerSetup = some (grouped (literalLines l.readerSetup)).length ∧
      ∃ b, rebuilt? l .reader = some b ∧ Grows (fun _ _ => True) c.arena b := by
  have hbefore : ∀ line ∈ (Listing.readerSetupLines s n c).take 2, isSegmentsLine line = false := by
    intro line hline
    apply isSegmentsLine_eq_false
    rcases List.mem_cons.1 hline with rfl | hline
    · simp only [String.toList_append, List.append_assoc]
      rfl
    · obtain rfl := List.mem_singleton.1 hline
      simp only [String.toList_append, List.append_assoc]
      rfl
  obtain ⟨hlength, hgrouped, hsegments⟩ := read_messageLines hbefore .reader s _ c.arena hl
  have hb := ofSegmentsWithCapacity_toSegments hc n
  have hgrows := grows_of_toSegments (fun _ _ => True) c.arena.toSegments_frozen
  refine ⟨by rw [hlength, hgrouped], c.arena.frozen.enlarge n, ?_,
    hgrows.trans (grows_enlarge _ _ n)⟩
  have hsize : readerSize? l.readerSetup = some n := by rw [hl, readerSize?_eq]
  simp only [rebuilt?, messageBlock, hsegments, hsize, hb, Option.bind_eq_bind, Option.bind_some]
  rfl

end Reading

namespace Listing

open Reading

theorem ofCatalog_eq {s : Settings} {c : Catalog .builder} {l : Listing}
    {table : List (String × Content)} (h : c.Sealed table) (hs : c.arena.totalSize < 2 ^ 32)
    (hne : c.entries ≠ []) (hl : ofCatalog s c = .ok l) :
    l = ⟨messageLines .builder s none c.arena, bindings s c,
      readerSetupLines s c.arena.totalSize (c.readerOf table), bindings s (c.readerOf table)⟩ := by
  obtain ⟨_, _, hl⟩ := bind_eq_ok_iff.1 hl
  have hempty : ¬ c.isEmpty = true := fun he => hne (List.isEmpty_iff.1 he)
  rw [if_neg hempty, h.toReader hs] at hl
  exact (Except.ok.inj hl).symm

/-- The text of a world conveys entries over a source. Its array of segments is as long as declared
and its literals rebuild an arena. Every entry is bound once, to a descriptor that has in that arena
the content of the entry's payload in the source. -/
structure Conveys (l : Listing) (s : Settings) (world : World) (source : Arena)
    (entries : List Manifest.Entry) : Prop where
  length : arrayLength? (messageBlock l world) =
    some (grouped (literalLines (messageBlock l world))).length
  entry : ∃ a, rebuilt? l world = some a ∧ ∀ e ∈ entries, ∃ ident content d,
    Catalog.ident e.node e.field = .ok ident ∧
    (bindingBlock l world).countP (declares world ident) = 1 ∧
    bound? world s.runtimePath ident (bindingBlock l world) = some d ∧
    source.describe s.nestingLimit e.payload = .ok content ∧
    a.describe s.nestingLimit d = .ok content

/-- A world conveys entries if its catalog keeps what they mean and its arena is rebuilt from the
text. -/
theorem conveys_of_sealed {world : World} {c : Catalog world} {l : Listing} {s : Settings}
    {source : Arena} {entries : List Manifest.Entry} {table : List (String × Content)}
    (h : c.Sealed table) (hs : c.arena.totalSize < 2 ^ 32)
    (hlimit : c.nestingLimit = s.nestingLimit)
    (hbindings : bindingBlock l world = bindings s c)
    (hmeans : ∀ e ∈ entries, ∃ k ∈ table, Manifest.Means source s.nestingLimit e k)
    (hcolon : ∀ k ∈ table, ':' ∉ k.1.toList)
    (hlength : arrayLength? (messageBlock l world) =
      some (grouped (literalLines (messageBlock l world))).length)
    (hrebuilt : ∃ a, rebuilt? l world = some a ∧ Grows (fun _ _ => True) c.arena a) :
    l.Conveys s world source entries := by
  obtain ⟨a, ha, hgrows⟩ := hrebuilt
  refine ⟨hlength, a, ha, fun e he => ?_⟩
  obtain ⟨k, hk, hident, hd⟩ := hmeans e he
  obtain ⟨hcount, d, hbound, hback⟩ := bound_once h hs hcolon s hgrows hk
  rw [hbindings]
  exact ⟨k.1, k.2, d, hident, hcount, hbound, hd, hlimit ▸ hback⟩

/-- The listing of a manifest conveys in both worlds what the manifest says of its source. -/
theorem means_manifest {m : Manifest} {s : Settings} {c : Catalog .builder} {l : Listing}
    (hc : m.catalog s = .ok c) (hl : Listing.ofCatalog s c = .ok l) (hne : m.entries ≠ [])
    (hs : c.arena.totalSize < 2 ^ 32) :
    ∃ source, m.source = .ok source ∧ ∀ world, l.Conveys s world source m.entries := by
  obtain ⟨source, table, hsource, h, hfilled, hmeans⟩ := Manifest.catalog_eq_ok hc
  have hentries : c.entries ≠ [] := by
    intro he
    have hkept := h.kept
    rw [he, List.forall₂_nil_left_iff] at hkept
    rw [hkept, List.forall₂_nil_right_iff] at hmeans
    exact hne hmeans
  have hlimit : c.nestingLimit = s.nestingLimit := hfilled.nestingLimit
  have hcolon : ∀ k ∈ table, ':' ∉ k.1.toList := by
    intro k hk
    obtain ⟨e, _, he⟩ := exists_of_mem_right hmeans hk
    exact colon_not_mem_ident he.1
  have heq := ofCatalog_eq h hs hentries hl
  refine ⟨source, hsource, fun world => ?_⟩
  cases world with
  | builder =>
    obtain ⟨hlength, hrebuilt⟩ := rebuilt?_builder h.tight.whole (l := l) (s := s) (by rw [heq])
    apply conveys_of_sealed h hs hlimit _ (fun e he => exists_of_mem_left hmeans he) hcolon hlength
      hrebuilt
    rw [heq]
    rfl
  | reader =>
    -- The reader keeps the same table, its kinds one after the other.
    have hperm := inKinds_perm (fun k : String × Content => k.2.kind) (fun k => k.2.kind_lt) table
    have h' := h.sealed_readerOf hs
    have hs' := h.roomy_readerOf.totalSize_le.trans_lt hs
    have hlimit' : (c.readerOf table).nestingLimit = s.nestingLimit :=
      (Catalog.enterAll_nestingLimit _ _).trans hlimit
    have hmeans' : ∀ e ∈ m.entries, ∃ k ∈ inKinds (·.2.kind) table,
        Manifest.Means source s.nestingLimit e k := by
      intro e he
      obtain ⟨k, hk, hd⟩ := exists_of_mem_left hmeans he
      exact ⟨k, hperm.symm.subset hk, hd⟩
    obtain ⟨hlength, hrebuilt⟩ := rebuilt?_reader h'.tight.whole (l := l) (s := s)
      (n := c.arena.totalSize) (by rw [heq])
    apply conveys_of_sealed h' hs' hlimit' _ hmeans' (fun k hk => hcolon k (hperm.subset hk))
      hlength hrebuilt
    rw [heq]
    rfl

/-- A manifest with a pointer to three bytes, those bytes as a list, and a struct with both. -/
def sampleManifest : Manifest where
  options := .none
  segments := ["010000001a000000" ++ "6162630000000000"]
  entries := [⟨1, "p", .pointer ⟨0, 0, 8⟩⟩, ⟨1, "l", .list ⟨⟨0, 8, 8⟩, .bytes1, 3⟩⟩,
    ⟨2, "s", .struct ⟨⟨0, 8, 8⟩, ⟨0, 0, 8⟩⟩⟩]

/-- Narrow lines, and an arena that soon needs a second segment. -/
def sampleSettings : Settings := ⟨"rt", 5, 8, 64⟩

theorem means_manifest_sample : ∃ c l source,
    sampleManifest.catalog sampleSettings = .ok c ∧
    Listing.ofCatalog sampleSettings c = .ok l ∧ sampleManifest.source = .ok source ∧
    ∀ world, l.Conveys sampleSettings world source sampleManifest.entries := by
  have hsize : (sampleManifest.catalog sampleSettings).map (·.arena.totalSize) = .ok 56 := by
    decide +kernel
  cases hc : sampleManifest.catalog sampleSettings with
  | error f =>
    rw [hc] at hsize
    cases hsize
  | ok c =>
    rw [hc] at hsize
    have htotal : c.arena.totalSize = 56 := Except.ok.inj hsize
    have hs : c.arena.totalSize < 2 ^ 32 := by omega
    obtain ⟨_, table, _, hsealed, _, _⟩ := Manifest.catalog_eq_ok hc
    have hv : sampleSettings.validate = .ok () := rfl
    obtain ⟨l, hl⟩ := Agreement.exists_listing hsealed hs hv
    obtain ⟨source, hsource, hconveys⟩ := means_manifest hc hl (List.cons_ne_nil _ _) hs
    exact ⟨c, l, source, rfl, hl, hsource, hconveys⟩

end Listing

end FrozenDefaults
