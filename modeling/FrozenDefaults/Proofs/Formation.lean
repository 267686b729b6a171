import FrozenDefaults.Bound
import FrozenDefaults.Proofs.Ownership
import FrozenDefaults.Proofs.Sparing

/-!
# Well-formed catalogs

What a catalog has entered lies in the used part of its arena, at word
boundaries, and has the size that its form asks for, so that everything it names
can be read. Additions put new entries behind those that are there.
-/

namespace FrozenDefaults

open Arena

/-- The span is whole words, all of them in use. -/
structure Arena.HoldsWords (a : Arena) (s : Span) : Prop where
  holds : a.Holds s
  aligned : s.Aligned

/-- The struct's sections lie side by side in one segment. -/
structure StructView.FormedIn (v : StructView) (a : Arena) : Prop where
  data : a.HoldsWords v.data
  pointers : a.HoldsWords v.pointers
  segment : v.pointers.segment = v.data.segment
  start : v.pointers.start = v.data.stop

/-- The list has the words for its elements and no others. -/
structure ListView.FormedIn (v : ListView) (a : Arena) : Prop where
  elements : a.HoldsWords v.elements
  length : v.elements.length = v.layout.storageBytes v.count

def Descriptor.FormedIn (d : Descriptor) (a : Arena) : Prop :=
  match d with
  | .struct v => v.FormedIn a
  | .list v => v.FormedIn a
  | .pointer slot => a.HasSlot slot

section Views

variable {a b : Arena} {P : Nat → Nat → Prop}

theorem Arena.HoldsWords.grows {s : Span} (h : a.HoldsWords s) (hg : Grows P a b) :
    b.HoldsWords s := ⟨hg.holds h.holds, h.aligned⟩

theorem Arena.HoldsWords.exists_read {s : Span} (h : a.HoldsWords s) :
    ∃ bs, a.read s = .ok bs ∧ bs.length = s.length := by
  obtain ⟨bs, hr, hl, _⟩ := Arena.exists_read h.holds
  exact ⟨bs, hr, hl⟩

theorem Descriptor.FormedIn.grows {d : Descriptor} (h : d.FormedIn a) (hg : Grows P a b) :
    d.FormedIn b := by
  cases d with
  | struct v => exact ⟨h.data.grows hg, h.pointers.grows hg, h.segment, h.start⟩
  | list v => exact ⟨h.elements.grows hg, h.length⟩
  | pointer slot => exact HasSlot.grows h hg

theorem ListView.FormedIn.validate {v : ListView} (h : v.FormedIn a) : v.validate = .ok () :=
  if_neg (Nat.not_lt.2 (h.length ▸ v.layout.payloadBytes_le_storageBytes v.count))

theorem Arena.HasSlot.exists_readWord {slot : Span} (h : a.HasSlot slot) :
    ∃ w, a.readWord slot.segment slot.startWord = .ok w := by
  obtain ⟨bs, hr, _⟩ := Arena.exists_read h.holds
  refine ⟨Word.ofBytes bs, ?_⟩
  rw [Arena.readWord, h.wordSpan_eq, hr]
  rfl

theorem ListView.elements_mem_spans (v : ListView) : v.elements ∈ v.spans := by
  unfold spans
  split
  · exact List.mem_cons_of_mem _ (List.mem_singleton_self _)
  · exact List.mem_singleton_self _

theorem Shape.formedIn_target {shape : Shape} {region : Span}
    (hl : region.length = shape.footprint) (hal : region.start % bytesPerWord = 0)
    (hr : a.Holds region) : (shape.target region).descriptor.FormedIn a := by
  have htiled := tiled_target hl hal
  have hspans : ∀ t ∈ (shape.target region).spans, a.HoldsWords t := fun t ht =>
    ⟨htiled.holds hr t ht, htiled.aligned t ht⟩
  cases shape with
  | struct d p =>
    obtain ⟨hdata, hpointers⟩ := List.forall_mem_cons.1 hspans
    exact ⟨hdata, hpointers _ (List.mem_singleton_self _), rfl, rfl⟩
  | list l count =>
    refine ⟨hspans _ (ListView.elements_mem_spans _), ?_⟩
    exact (length_body hl).trans (partCount_mul_partBytes l count)

theorem Content.formedIn_store (content : Content) (ha : a.Sound) :
    (content.store a).1.FormedIn (content.store a).2 := by
  cases content with
  | object shape parts =>
    have hf := a.fresh_alloc_words shape.footprint_mod
    have hev : Evolves (a.alloc shape.footprint).2 (shape.settle parts a) :=
      Value.evolves_fill shape parts _ _
    exact Shape.formedIn_target hf.length (hf.aligned ha) (hev.grows.holds hf.holds)
  | pointer v =>
    have hev := v.evolves_store (a.alloc bytesPerWord).1 (a.alloc bytesPerWord).2
    exact (hasSlot_alloc ha).grows hev.grows

end Views

/-- An addition under a nesting limit of its own. -/
structure Addition where
  limit : Nat
  ident : String
  source : Arena
  descriptor : Descriptor

namespace Catalog

variable {world : World} {c : Catalog world}

def perform (c : Catalog world) (x : Addition) : Except Fault Unit × Catalog world :=
  (c.withNestingLimit x.limit).add x.ident x.source x.descriptor

/-- The outcomes of additions one after the other, and the catalog they leave. -/
def performAll (c : Catalog world) : List Addition → List (Except Fault Unit) × Catalog world
  | [] => ([], c)
  | x :: calls =>
    let rest := (c.perform x).2.performAll calls
    ((c.perform x).1 :: rest.1, rest.2)

/-- No identifier is entered twice, and all entries are formed. -/
structure Formed (c : Catalog world) : Prop where
  sound : c.arena.Sound
  distinct : (c.entries.map Prod.fst).Nodup
  formed : ∀ e ∈ c.entries, e.2.FormedIn c.arena

theorem formed_new (world : World) (capacity limit : Nat) :
    Formed (.new world capacity limit) where
  sound := (tight_withCapacity capacity).toSound
  distinct := List.nodup_nil
  formed _ h := absurd h List.not_mem_nil

/-- An addition enters one object behind the others and nothing else, or fails and enters none. -/
theorem perform_cases (ha : c.arena.Sound) (x : Addition) :
    (∃ content : Content, x.ident ∉ c.entries.map Prod.fst ∧
      content.kind = x.descriptor.kind ∧ (c.perform x).1 = .ok () ∧
      (c.perform x).2.arena = (content.store c.arena).2 ∧
      (c.perform x).2.entries = c.entries ++ [(x.ident, (content.store c.arena).1)]) ∨
    ∃ f, (c.perform x).1 = .error f ∧ Evolves c.arena (c.perform x).2.arena ∧
      (c.perform x).2.entries = c.entries := by
  have hcases := add_cases (c := c.withNestingLimit x.limit) ha x.ident x.source x.descriptor
  rcases hcases with ⟨content, hi, hd, he⟩ | ⟨f, b, he, _, hev⟩
  · exact .inl ⟨content, hi, kind_of_describe hd, congrArg Prod.fst he, congrArg (·.2.arena) he,
      congrArg (·.2.entries) he⟩
  · refine .inr ⟨f, congrArg Prod.fst he, ?_, congrArg (·.2.entries) he⟩
    rw [perform, he]
    exact hev

namespace Formed

variable (h : c.Formed)
include h

theorem perform (x : Addition) : (c.perform x).2.Formed := by
  rcases perform_cases h.sound x with
    ⟨content, hi, _, _, harena, hentries⟩ | ⟨_, _, hev, hentries⟩
  · have hev := content.evolves_store c.arena
    have hnew := content.formedIn_store h.sound
    rw [← harena] at hev hnew
    refine ⟨hev.sound h.sound, ?_, ?_⟩ <;> rw [hentries]
    · rw [List.map_append]
      exact h.distinct.append (List.nodup_singleton _) (List.disjoint_singleton.2 hi)
    · intro e he
      rcases List.mem_append.1 he with he | he
      · exact (h.formed e he).grows hev.grows
      · rw [List.mem_singleton.1 he]
        exact hnew
  · refine ⟨hev.sound h.sound, ?_, ?_⟩ <;> rw [hentries]
    · exact h.distinct
    · exact fun e he => (h.formed e he).grows hev.grows

theorem performAll (calls : List Addition) : (c.performAll calls).2.Formed := by
  induction calls generalizing c with
  | nil => exact h
  | cons x calls ih => exact ih (h.perform x)

theorem size_perform (x : Addition) :
    (c.perform x).2.size = c.size + if (c.perform x).1.isOk then 1 else 0 := by
  rcases perform_cases h.sound x with ⟨_, _, _, hr, _, hentries⟩ | ⟨_, hr, _, hentries⟩
  · rw [size, hentries, hr, List.length_append]
    rfl
  · rw [size, hentries, hr]
    rfl

theorem size_performAll (calls : List Addition) :
    (c.performAll calls).2.size = c.size + (c.performAll calls).1.countP Except.isOk := by
  induction calls generalizing c with
  | nil => rfl
  | cons x calls ih =>
    rw [Catalog.performAll, List.countP_cons, ih (h.perform x), h.size_perform]
    omega

theorem extends_performAll (calls : List Addition) :
    Extends (fun _ _ => True) c.arena (c.performAll calls).2.arena ∧
      c.entries <+: (c.performAll calls).2.entries := by
  induction calls generalizing c with
  | nil => exact ⟨.refl _ _, List.prefix_refl _⟩
  | cons x calls ih =>
    obtain ⟨hext, hentries⟩ := ih (h.perform x)
    obtain ⟨hx, _, hx'⟩ := extends_add (c := c.withNestingLimit x.limit) h.sound x.ident x.source
      x.descriptor
    exact ⟨hx.trans hext, hx'.trans hentries⟩

end Formed

section Maps

variable (c)

theorem idents_perm : (c.structs.map Prod.fst ++ c.lists.map Prod.fst ++
    c.pointers.map Prod.fst).Perm (c.entries.map Prod.fst) := by
  have hperm := c.byKind_perm.map Prod.fst
  rw [byKind, List.map_append, List.map_append, List.map_map, List.map_map, List.map_map] at hperm
  exact hperm

theorem size_eq : c.size = c.structs.length + c.lists.length + c.pointers.length := by
  have hlength := c.idents_perm.length_eq
  simp only [List.length_append, List.length_map] at hlength
  exact hlength.symm

variable {c}

theorem struct_mem_entries {e : String × StructView} (h : e ∈ c.structs) :
    (e.1, .struct e.2) ∈ c.entries :=
  c.byKind_perm.mem_iff.1
    (List.mem_append_left _ (List.mem_append_left _ (List.mem_map_of_mem h)))

theorem list_mem_entries {e : String × ListView} (h : e ∈ c.lists) :
    (e.1, .list e.2) ∈ c.entries :=
  c.byKind_perm.mem_iff.1
    (List.mem_append_left _ (List.mem_append_right _ (List.mem_map_of_mem h)))

theorem pointer_mem_entries {e : String × Span} (h : e ∈ c.pointers) :
    (e.1, .pointer e.2) ∈ c.entries :=
  c.byKind_perm.mem_iff.1 (List.mem_append_right _ (List.mem_map_of_mem h))

end Maps

/-- Whatever additions are made of a new catalog, with whatever outcomes, it is well formed: no
identifier is entered twice, in one map or in two; there is an entry for each addition that has
succeeded; and all that an entry names is whole words in use, of the size that its form asks for,
so that its accessors succeed. An addition puts one entry of its kind behind the others, or fails
and puts none there. No number of them changes the arena's bytes, or takes away, moves or changes
an entry of a map. -/
theorem additions_well_formed (world : World) (capacity limit : Nat) (calls : List Addition) :
    let c := (performAll (.new world capacity limit) calls).2
    (c.structs.map Prod.fst ++ c.lists.map Prod.fst ++ c.pointers.map Prod.fst).Nodup ∧
    c.size = c.structs.length + c.lists.length + c.pointers.length ∧
    c.size = (performAll (.new world capacity limit) calls).1.countP Except.isOk ∧
    (∀ e ∈ c.structs, e.2.FormedIn c.arena ∧ ∃ data pointers,
      Bound.data ⟨c.arena, e.2⟩ = .ok data ∧ data.length = e.2.data.length ∧
      Bound.pointers ⟨c.arena, e.2⟩ = .ok pointers ∧ pointers.length = e.2.pointers.length) ∧
    (∀ e ∈ c.lists, e.2.FormedIn c.arena ∧ e.2.validate = .ok () ∧ ∃ elements,
      Bound.elements ⟨c.arena, e.2⟩ = .ok elements ∧
      elements.length = e.2.layout.storageBytes e.2.count) ∧
    (∀ e ∈ c.pointers, c.arena.HasSlot e.2 ∧ ∃ w, Bound.pointerWord ⟨c.arena, e.2⟩ = .ok w) ∧
    (∀ x : Addition,
      (∃ d, (c.perform x).1 = .ok () ∧ x.ident ∉ c.entries.map Prod.fst ∧
        d.kind = x.descriptor.kind ∧ (c.perform x).2.entries = c.entries ++ [(x.ident, d)]) ∨
      ∃ f, (c.perform x).1 = .error f ∧ (c.perform x).2.entries = c.entries) ∧
    ∀ later, Extends (fun _ _ => True) c.arena (c.performAll later).2.arena ∧
      c.structs <+: (c.performAll later).2.structs ∧ c.lists <+: (c.performAll later).2.lists ∧
      c.pointers <+: (c.performAll later).2.pointers := by
  intro c
  have hnew := formed_new world capacity limit
  have hc : c.Formed := hnew.performAll calls
  refine ⟨c.idents_perm.nodup_iff.2 hc.distinct, c.size_eq, ?_, fun e he => ?_, fun e he => ?_,
    fun e he => ?_, fun x => ?_, fun later => ?_⟩
  · exact (hnew.size_performAll calls).trans (Nat.zero_add _)
  · have hv : e.2.FormedIn c.arena := hc.formed _ (struct_mem_entries he)
    obtain ⟨data, hdata, hlength⟩ := hv.data.exists_read
    obtain ⟨pointers, hpointers, hlength'⟩ := hv.pointers.exists_read
    exact ⟨hv, data, pointers, hdata, hlength, hpointers, hlength'⟩
  · have hv : e.2.FormedIn c.arena := hc.formed _ (list_mem_entries he)
    obtain ⟨elements, helements, hlength⟩ := hv.elements.exists_read
    exact ⟨hv, hv.validate, elements, helements, hlength.trans hv.length⟩
  · have hs : c.arena.HasSlot e.2 := hc.formed _ (pointer_mem_entries he)
    exact ⟨hs, hs.exists_readWord⟩
  · rcases perform_cases hc.sound x with
      ⟨content, hi, hkind, hr, _, hentries⟩ | ⟨f, hr, _, hentries⟩
    · exact .inl ⟨_, hr, hi, (content.kind_store c.arena).trans hkind, hentries⟩
    · exact .inr ⟨f, hr, hentries⟩
  · obtain ⟨hext, hentries⟩ := hc.extends_performAll later
    exact ⟨hext, hentries.filterMap _, hentries.filterMap _, hentries.filterMap _⟩

/-- A struct behind a pointer, the same under a limit that is too low, a struct under an identifier
that is taken, the struct in place, and a composite list of one element. -/
def sampleCalls : List Addition :=
  [⟨64, "p", Arena.sample, .pointer ⟨0, 0, 8⟩⟩,
    ⟨1, "q", Arena.sample, .pointer ⟨0, 0, 8⟩⟩,
    ⟨64, "p", Arena.sample, .struct ⟨⟨0, 8, 8⟩, ⟨0, 16, 8⟩⟩⟩,
    ⟨1, "s", Arena.sample, .struct ⟨⟨0, 8, 8⟩, ⟨0, 16, 8⟩⟩⟩,
    ⟨1, "l", Arena.sample, .list ⟨⟨0, 8, 16⟩, .composite 1 1, 1⟩⟩]

theorem additions_well_formed_sample :
    let c := (performAll (.new .builder 8 64) sampleCalls).2
    c.size = 3 ∧
    (∃ data pointers, Bound.data ⟨c.arena, ⟨⟨1, 56, 8⟩, ⟨1, 64, 8⟩⟩⟩ = .ok data ∧
      Bound.pointers ⟨c.arena, ⟨⟨1, 56, 8⟩, ⟨1, 64, 8⟩⟩⟩ = .ok pointers) ∧
    (∃ elements, Bound.elements ⟨c.arena, ⟨⟨1, 88, 16⟩, .composite 1 1, 1⟩⟩ = .ok elements ∧
      elements.length = 16) ∧
    (∃ w, Bound.pointerWord ⟨c.arena, ⟨0, 0, 8⟩⟩ = .ok w) ∧
    ("p", ⟨0, 0, 8⟩) ∈ (c.performAll sampleCalls).2.pointers := by
  intro c
  obtain ⟨_, _, hsize, hstructs, hlists, hpointers, _, hlater⟩ :=
    additions_well_formed .builder 8 64 sampleCalls
  have hs : ("s", ⟨⟨1, 56, 8⟩, ⟨1, 64, 8⟩⟩) ∈ c.structs := by decide +kernel
  have hl : ("l", ⟨⟨1, 88, 16⟩, .composite 1 1, 1⟩) ∈ c.lists := by decide +kernel
  have hp : ("p", ⟨0, 0, 8⟩) ∈ c.pointers := by decide +kernel
  obtain ⟨_, data, pointers, hdata, _, hread, _⟩ := hstructs _ hs
  obtain ⟨_, _, elements, helements, hlength⟩ := hlists _ hl
  refine ⟨hsize.trans (by decide +kernel), ⟨data, pointers, hdata, hread⟩,
    ⟨elements, helements, hlength⟩, (hpointers _ hp).2, ?_⟩
  exact (hlater sampleCalls).2.2.2.subset hp

end Catalog

end FrozenDefaults
