import FrozenDefaults.Proofs.Assembling
import Mathlib.Data.List.Pairwise

/-!
# Ownership

Whatever the sources share, the objects of a catalog are apart: the sections of
structs, the elements of lists with their tag words, landing pads and the slots
of entries. Each piece of the arena has one owner, the entry or the pointer that
leads to it. `Laid` says that pieces lie between the used parts of two arenas, so
that what is stored one after the other is apart.
-/

namespace FrozenDefaults

open Arena

/-- The spans lie in the region, begin and end at words, and are apart. -/
structure Span.Tiled (region : Span) (spans : List Span) : Prop where
  within : ∀ t ∈ spans, t.segment = region.segment ∧ region.start ≤ t.start ∧ t.stop ≤ region.stop
  aligned : ∀ t ∈ spans, t.Aligned
  apart : spans.Pairwise Span.Apart

theorem Span.Tiled.holds {a : Arena} {region : Span} {spans : List Span} (h : region.Tiled spans)
    (hr : a.Holds region) : ∀ t ∈ spans, a.Holds t := by
  intro t ht
  obtain ⟨hseg, _, hstop⟩ := h.within t ht
  exact ⟨hseg ▸ hr.1, hseg ▸ hstop.trans hr.2⟩

/-- What leads to an object: an entry of a catalog or a pointer. -/
inductive Owner where
  | entry (ident : String)
  | pointer (slot : Span)
  deriving DecidableEq

structure Piece where
  owner : Owner
  span : Span
  deriving DecidableEq

def Piece.ofSpans (owner : Owner) (spans : List Span) : List Piece := spans.map (Piece.mk owner)

def StructView.spans (v : StructView) : List Span := [v.data, v.pointers]

def ListView.spans (v : ListView) : List Span :=
  match v.layout with
  | .composite _ _ => [v.elements.before, v.elements]
  | _ => [v.elements]

def Target.spans : Target → List Span
  | .struct v => v.spans
  | .list v => v.spans

def Descriptor.spans : Descriptor → List Span
  | .struct v => v.spans
  | .list v => v.spans
  | .pointer slot => [slot]

namespace Arena

/-- The pieces that the slot leads to, through at most `room` levels. -/
def piecesIn (a : Arena) : (room : Nat) → Span → List Piece
  | 0, _ => []
  | room + 1, slot =>
    match a.readWord slot.segment slot.startWord with
    | .error _ => []
    | .ok w =>
      if Pointer.isNull w then []
      else
        match a.follow slot.segment slot.startWord w with
        | .error _ => []
        | .ok t => Piece.ofSpans (.pointer slot) (Pointer.pads w ++ t.spans) ++
          t.slots.flatMap (piecesIn a room)

/-- The pieces of an entry and of all that it leads to. -/
def piecesOf (a : Arena) (room : Nat) (e : String × Descriptor) : List Piece :=
  Piece.ofSpans (.entry e.1) e.2.spans ++ e.2.slots.flatMap (a.piecesIn room)

/-- The pieces lie behind what `a` uses and in what `b` uses, and all of them are in use in `c`. -/
structure Laid (l : List Piece) (a b c : Arena) : Prop where
  new : ∀ p ∈ l, ∀ s i, p.span.Covers s i → a.usedIn s ≤ i ∧ i < b.usedIn s
  held : ∀ p ∈ l, c.Holds p.span
  aligned : ∀ p ∈ l, p.span.Aligned
  apart : l.Pairwise fun p q => p.span.Apart q.span

variable {a b c x : Arena} {room : Nat} {slot : Span}

namespace Laid

variable {l l' : List Piece}

theorem nil : Laid [] a b x :=
  ⟨fun _ h => absurd h List.not_mem_nil, fun _ h => absurd h List.not_mem_nil,
    fun _ h => absurd h List.not_mem_nil, .nil⟩

theorem widen (h : Laid l b c x) {a d : Arena} (ha : ∀ s, a.usedIn s ≤ b.usedIn s)
    (hd : ∀ s, c.usedIn s ≤ d.usedIn s) : Laid l a d x where
  new p hp s i hc := ⟨(ha s).trans (h.new p hp s i hc).1, (h.new p hp s i hc).2.trans_le (hd s)⟩
  held := h.held
  aligned := h.aligned
  apart := h.apart

/-- What is laid out later is apart from what was laid out before. -/
theorem append (h : Laid l a b x) (h' : Laid l' b c x) (hab : ∀ s, a.usedIn s ≤ b.usedIn s)
    (hbc : ∀ s, b.usedIn s ≤ c.usedIn s) : Laid (l ++ l') a c x where
  new p hp := (List.mem_append.1 hp).elim ((h.widen (fun _ => Nat.le_refl _) hbc).new p)
    ((h'.widen hab fun _ => Nat.le_refl _).new p)
  held p hp := (List.mem_append.1 hp).elim (h.held p) (h'.held p)
  aligned p hp := (List.mem_append.1 hp).elim (h.aligned p) (h'.aligned p)
  apart := by
    refine List.pairwise_append.2 ⟨h.apart, h'.apart, fun p hp q hq s i hc hc' => ?_⟩
    exact absurd (h.new p hp s i hc).2 (Nat.not_lt.2 (h'.new q hq s i hc').1)

theorem of_tiled {region : Span} {spans : List Span} (ht : region.Tiled spans) (owner : Owner)
    (hnew : ∀ s i, region.Covers s i → a.usedIn s ≤ i ∧ i < b.usedIn s) (hx : x.Holds region) :
    Laid (Piece.ofSpans owner spans) a b x where
  new p hp s i hc := by
    obtain ⟨t, hmem, rfl⟩ := List.mem_map.1 hp
    obtain ⟨hseg, hstart, hstop⟩ := ht.within t hmem
    exact hnew s i ⟨hc.1.trans hseg, hstart.trans hc.2.1, hc.2.2.trans_le hstop⟩
  held p hp := by
    obtain ⟨t, hmem, rfl⟩ := List.mem_map.1 hp
    exact ht.holds hx t hmem
  aligned p hp := by
    obtain ⟨t, hmem, rfl⟩ := List.mem_map.1 hp
    exact ht.aligned t hmem
  apart := List.pairwise_map.2 ht.apart

end Laid

theorem piecesIn_null {w : Word} (hw : a.readWord slot.segment slot.startWord = .ok w)
    (hn : Pointer.isNull w = true) : a.piecesIn room slot = [] := by
  cases room with
  | zero => rfl
  | succ room => simp only [piecesIn, hw, if_pos hn]

theorem piecesIn_leads {far : Bool} {t : Target} {region : Span} (h : c.Leads slot far t)
    (hp : c.Housed slot far region) : c.piecesIn (room + 1) slot =
      Piece.ofSpans (.pointer slot) ((if far then [region.before] else []) ++ t.spans) ++
        t.slots.flatMap (c.piecesIn room) := by
  obtain ⟨_, w, hw, hn, _, hf⟩ := h
  simp only [piecesIn, hw, hn, hf, hp.pads w hw, Bool.false_eq_true, if_false]

end Arena

namespace Span

variable {region : Span}

theorem tiled_singleton (h : region.Aligned) : region.Tiled [region] where
  within t ht := by
    obtain rfl := List.mem_singleton.1 ht
    exact ⟨rfl, Nat.le_refl _, Nat.le_refl _⟩
  aligned t ht := List.mem_singleton.1 ht ▸ h
  apart := List.pairwise_singleton _ _

theorem tiled_pair (h : region.Aligned) {n : Nat} (hn : n ≤ region.length)
    (hmod : n % bytesPerWord = 0) : region.Tiled [⟨region.segment, region.start, n⟩,
      ⟨region.segment, region.start + n, region.length - n⟩] where
  within t ht := by
    rcases List.mem_pair.1 ht with rfl | rfl <;> refine ⟨rfl, ?_, ?_⟩ <;> simp only [stop] <;> omega
  aligned t ht := by
    simp only [Aligned, bytesPerWord] at h hmod
    rcases List.mem_pair.1 ht with rfl | rfl <;> simp only [Aligned, bytesPerWord] <;> omega
  apart := by
    refine List.pairwise_pair.2 fun s i hc hc' => ?_
    simp only [Covers, stop] at hc hc'
    omega

/-- The region with the word before it. -/
def withBefore (region : Span) : Span :=
  ⟨region.segment, region.start - bytesPerWord, bytesPerWord + region.length⟩

theorem covers_withBefore (hle : bytesPerWord ≤ region.start) {s i : Nat}
    (h : region.withBefore.Covers s i) : region.Covers s i ∨ region.before.Covers s i := by
  simp only [withBefore, before, Covers, stop] at h ⊢
  omega

theorem Tiled.cons_before {spans : List Span} (h : region.Tiled spans)
    (hal : region.start % bytesPerWord = 0) (hle : bytesPerWord ≤ region.start) :
    region.withBefore.Tiled (region.before :: spans) where
  within t ht := by
    rcases List.mem_cons.1 ht with rfl | ht
    · exact ⟨rfl, Nat.le_refl _, Nat.add_le_add_left (Nat.le_add_right _ _) _⟩
    · obtain ⟨hseg, hstart, hstop⟩ := h.within t ht
      simp only [withBefore, stop] at hstop ⊢
      omega
  aligned t ht := by
    rcases List.mem_cons.1 ht with rfl | ht
    · refine ⟨Nat.mod_self _, ?_⟩
      simp only [before, bytesPerWord] at hal hle ⊢
      omega
    · exact h.aligned t ht
  apart := by
    refine List.pairwise_cons.2 ⟨fun t ht s i hc hc' => ?_, h.apart⟩
    obtain ⟨_, hstart, _⟩ := h.within t ht
    simp only [before, Covers, stop] at hc hc'
    omega

end Span

namespace Shape

variable {shape : Shape} {region : Span} (hl : region.length = shape.footprint)
  (hal : region.start % bytesPerWord = 0)
include hl hal

theorem tiled_target : region.Tiled (shape.target region).spans := by
  have hregion : region.Aligned := ⟨hl ▸ shape.footprint_mod, hal⟩
  cases shape with
  | struct d p =>
    rw [footprint_struct, Nat.add_mul] at hl
    have hd := Span.tiled_pair hregion (n := d * bytesPerWord) (by omega) (Nat.mul_mod_left _ _)
    have hrest : region.length - d * bytesPerWord = p * bytesPerWord := by omega
    rw [hrest] at hd
    exact hd
  | list l count =>
    rcases l.composite_or with ⟨d, p, rfl⟩ | hc
    · have hle : bytesPerWord ≤ region.length := hl ▸ Nat.le_add_right _ _
      exact Span.tiled_pair hregion hle rfl
    · have hbody : (list l count).body region = region := by
        rw [body, headerBytes_plain hc]
        rfl
      have hspans : ((list l count).target region).spans = [region] := by
        rw [target, hbody]
        cases l with
        | composite d p => exact absurd rfl hc
        | _ => rfl
      rw [hspans]
      exact Span.tiled_singleton hregion

omit hl hal in
theorem spans_descriptor (t : Target) : t.descriptor.spans = t.spans := by cases t <;> rfl

end Shape

namespace Value

variable {room : Nat} {a c : Arena}

/-- The trace of a value that has its places for itself. -/
def Owned (room : Nat) : Trace := fun v slot a c =>
  Laid (c.piecesIn room slot) a (v.store slot a) c

theorem laid_storeSlots {vs : List Value} {segment start : Nat}
    (h : SlotsLeft (Owned room) segment start vs a c) :
    Laid ((wordsFrom segment start vs.length).flatMap (c.piecesIn room)) a
      (storeSlots vs segment start a) c := by
  induction vs generalizing start a with
  | nil => exact .nil
  | cons v vs ih =>
    obtain ⟨hv, hvs⟩ := h
    rw [storeSlots, List.length_cons, wordsFrom, List.flatMap_cons]
    exact Laid.append hv (ih hvs) (evolves_store v _ a).grows.used
      (evolves_storeSlots vs _ _ _).grows.used

theorem laid_storeParts {shape : Shape} {parts : List (Part Value)} {segment start : Nat}
    (hs : ∀ part ∈ parts, part.slots.length = shape.pointerWords)
    (h : PartsLeft (Owned room) shape segment start parts a c) :
    Laid ((shape.slotsFrom segment start parts.length).flatMap (c.piecesIn room)) a
      (storeParts shape parts segment start a) c := by
  induction parts generalizing start a with
  | nil => exact .nil
  | cons part parts ih =>
    obtain ⟨⟨_, hpart⟩, hparts⟩ := h
    have hslots := laid_storeSlots hpart
    have hrest := ih (fun q hq => hs q (List.mem_cons_of_mem part hq)) hparts
    rw [hs part List.mem_cons_self] at hslots
    rw [storeParts_cons, List.length_cons, Shape.slotsFrom, List.flatMap_append]
    exact (hslots.widen (fun s => (usedIn_patch _ _ s).ge) fun _ => Nat.le_refl _).append hrest
      (evolves_storePart shape part segment start a).grows.used
      (evolves_storeParts shape parts _ _ _).grows.used

theorem owned_null : Leaves (Owned room) .null := by
  intro a slot _ hslot
  refine (stored_putWord hslot Pointer.null).weaken fun c hc => ?_
  rw [Owned, piecesIn_null hc rfl]
  exact .nil

theorem owned_emptyStruct {parts : List (Part Value)} (fills : (Shape.struct 0 0).Fills parts) :
    Leaves (Owned (room + 1)) (.object (.struct 0 0) parts) := by
  intro a slot _ hslot
  obtain rfl := eq_nil_of_fills fills
  rw [store_emptyStruct]
  refine (stored_emptyStruct hslot).weaken fun c hc => ?_
  let region : Span := ⟨slot.segment, slot.start, 0⟩
  have hslots : ((Shape.struct 0 0).target region).slots = [] := Shape.slots_target _ _
  have htiled : region.Tiled ((Shape.struct 0 0).target region).spans :=
    Shape.tiled_target rfl hslot.aligned
  rw [Owned, piecesIn_leads hc.1 (hc.1.housed hc.2), hslots, List.flatMap_nil, List.append_nil]
  refine Laid.of_tiled htiled _ (fun s i hi => ?_) hc.2
  exact absurd hi.2.2 (Nat.not_lt.2 hi.2.1)

/-- The pieces of a stored object and of all that it leads to. -/
theorem ObjectLeft.laid {shape : Shape} {parts : List (Part Value)} {slot : Span} {far : Bool}
    {content : Span} {b : Arena} (h : ObjectLeft (Owned room) shape parts slot a c far content b)
    (fills : shape.Fills parts) :
    Owned (room + 1) (.object shape parts) slot a c := by
  have hparts := laid_storeParts fills.slots h.left
  have htiled := Shape.tiled_target h.length h.aligned
  have hown : Laid (Piece.ofSpans (.pointer slot)
      ((if far then [content.before] else []) ++ (shape.target content).spans)) a b c := by
    cases far with
    | false => exact .of_tiled htiled _ (fun s i hi => h.new s i (.inl hi)) h.housed.held
    | true =>
      have hle := h.housed.room rfl
      refine .of_tiled (htiled.cons_before h.aligned hle) _ (fun s i hi => ?_)
        ⟨h.housed.held.1, ?_⟩
      · exact h.new s i ((Span.covers_withBefore hle hi).imp_right fun hb => ⟨rfl, hb⟩)
      · have hstop := h.housed.held.2
        simp only [Span.withBefore, Span.stop] at hstop ⊢
        omega
  have hused := h.used
  rw [Owned, piecesIn_leads h.leads h.housed, Shape.slots_target, ← fills.count]
  exact hown.append (hparts.widen (fun _ => Nat.le_refl _) fun s => (hused s).2.ge)
    (fun s => (hused s).1)
    fun s => (hused s).2 ▸ (evolves_storeParts shape parts _ _ _).grows.used s

theorem Fits.owned {n : Nat} {v : Value} (h : v.Fits n) (room : Nat) : Leaves (Owned room) v := by
  -- By induction the values in the slots of the parts have their places for themselves.
  induction h generalizing room with
  | null => exact owned_null
  | @object n shape parts hlink fills slots ih =>
    cases room with
    | zero =>
      intro a slot ha hslot
      exact ((Fits.object hlink fills slots).storesBack a slot ha hslot).weaken fun _ _ => .nil
    | succ room =>
      by_cases hs : shape = .struct 0 0
      · subst hs
        exact owned_emptyStruct fills
      · intro a slot ha hslot
        have hleaves : ∀ part ∈ parts, ∀ v ∈ part.slots, Leaves (Owned room) v :=
          fun part hp v hv => ih part hp v hv room
        refine (stored_object fills hleaves hlink hs ha hslot).weaken fun c hc => ?_
        obtain ⟨far, content, b, hobject⟩ := hc
        exact hobject.laid fills

end Value

theorem Content.Fits.owned {content : Content} {limit : Nat} {a : Arena} (h : content.Fits limit)
    (ha : a.Sound) (room : Nat) (ident : String) :
    Stored a (fun _ _ => False) content.size
      (fun c => Laid (c.piecesOf room (ident, (content.store a).1)) a (content.store a).2 c)
      (content.store a).2 := by
  cases h with
  | @object shape parts fills _ slots =>
    have hf := a.fresh_alloc_words shape.footprint_mod
    have hev := a.evolves_alloc shape.footprint
    have hfill := Value.evolves_fill shape parts (a.alloc shape.footprint).1
      (a.alloc shape.footprint).2
    have hv (part : Part Value) (hp : part ∈ parts) (v : Value) (hv : v ∈ part.slots) :=
      (slots part hp v hv).owned room
    refine (Value.stored_settle fills hv ha).conclude fun _ _ c hg hc => ?_
    have hown : Laid (Piece.ofSpans (.entry ident) (shape.target (a.alloc shape.footprint).1).spans)
        a (a.alloc shape.footprint).2 c :=
      .of_tiled (Shape.tiled_target hf.length (hf.aligned ha)) _
        (fun s i hi => ⟨hf.le_of_covers hi, hf.holds.lt_of_covers hi⟩)
        (hg.holds (hfill.grows.holds hf.holds))
    have hparts := Value.laid_storeParts fills.slots hc
    rw [fills.count, ← Shape.slots_target] at hparts
    rw [piecesOf, store, Shape.slots_descriptor, Shape.spans_descriptor]
    exact hown.append
      (hparts.widen (fun s => (Value.usedIn_putTag _ _ _ s).ge) fun _ => Nat.le_refl _)
      hev.grows.used hfill.grows.used
  | @pointer v fits =>
    have hf := a.fresh_alloc_words (n := bytesPerWord) rfl
    have hev := a.evolves_alloc bytesPerWord
    have hslot := hasSlot_alloc ha
    have hstored := fits.owned room _ _ (hev.sound ha) hslot
    refine (hstored.allocated hf hev fun s i => .inr).conclude fun _ _ c hg hc => ?_
    have hregion : (a.alloc bytesPerWord).1.Aligned := ⟨by rw [hf.length]; rfl, hf.aligned ha⟩
    have hown : Laid (Piece.ofSpans (.entry ident) [(a.alloc bytesPerWord).1]) a
        (a.alloc bytesPerWord).2 c :=
      .of_tiled (Span.tiled_singleton hregion) _
        (fun s i hi => ⟨hf.le_of_covers hi, hf.holds.lt_of_covers hi⟩)
        (hg.holds (hstored.grows.holds hf.holds))
    have hpieces : c.piecesOf room (ident, (store (.pointer v) a).1) =
        Piece.ofSpans (.entry ident) [(a.alloc bytesPerWord).1] ++
          c.piecesIn room (a.alloc bytesPerWord).1 := by
      rw [piecesOf]
      exact congrArg _ (List.flatMap_singleton _ _)
    rw [hpieces]
    exact hown.append hc hev.grows.used hstored.evolves.grows.used

namespace Catalog

variable {world : World} {c : Catalog world}

/-- The pieces of all entries. -/
def pieces (c : Catalog world) (room : Nat) : List Piece :=
  c.entries.flatMap (c.arena.piecesOf room)

/-- The pieces of the entries are apart, in every arena that grows out of the catalog's. -/
def Partitioned (c : Catalog world) : Prop :=
  c.arena.totalSize < 2 ^ 32 → ∀ b, Grows (fun _ _ => True) c.arena b → ∀ room,
    Laid (c.entries.flatMap (b.piecesOf room)) .empty c.arena b

theorem usedIn_empty_le (a : Arena) (s : Nat) : Arena.empty.usedIn s ≤ a.usedIn s :=
  (usedIn_eq_zero (Nat.zero_le s)).trans_le (Nat.zero_le _)

theorem partitioned_new (world : World) (capacity limit : Nat) :
    Partitioned (.new world capacity limit) := fun _ _ _ _ => .nil

theorem Partitioned.grows (h : c.Partitioned) {b : Arena}
    (hg : Grows (fun _ _ => True) c.arena b) (hev : Evolves c.arena b) :
    Partitioned ({ c with arena := b } : Catalog world) := by
  intro hs x hx room
  exact (h (hev.size.trans_lt hs) x (hg.trans hx) room).widen (fun _ => Nat.le_refl _)
    hev.grows.used

theorem Partitioned.enter (h : c.Partitioned) (ht : c.arena.Tight) {k : String × Content}
    {limit : Nat} (hf : k.2.Fits limit) : (c.enter k).Partitioned := by
  intro hs x hx room
  have howned := hf.owned ht.toSound room k.1
  have hev := howned.evolves
  have hg := howned.grows.spares
  have hold := h (hev.size.trans_lt hs) x (hg.trans hx) room
  have hnew := howned.back ht.toSound ((hev.tight ht).addressable hs) x
    (hx.mono fun _ _ _ _ => trivial)
  have hentries : (c.enter k).entries.flatMap (x.piecesOf room) =
      c.entries.flatMap (x.piecesOf room) ++ x.piecesOf room (k.1, (k.2.store c.arena).1) := by
    rw [Catalog.enter, List.flatMap_append, List.flatMap_singleton]
  rw [hentries]
  exact hold.append hnew (usedIn_empty_le _) hev.grows.used

theorem Assembled.partitioned (h : c.Assembled) : c.Partitioned := by
  induction h with
  | new capacity limit => exact partitioned_new world capacity limit
  | @add c hc ident source d ih =>
    obtain ⟨limit, table, _, hsealed⟩ := hc.exists_sealed
    have ht : c.arena.Tight := hsealed.tight
    rcases add_cases ht.toSound ident source d with
      ⟨content, _, hd, he⟩ | ⟨_, b, he, hg, hev⟩ <;> rw [he]
    · exact ih.enter ht (describe_fits hd)
    · exact ih.grows hg hev
  | withNestingLimit _ limit ih => exact ih

/-- No two entries, and no two objects of an entry, have a place in common, whatever the sources
shared. Each piece is a range of whole words in use, and who owns a piece owns it alone. -/
theorem owner_unique (h : c.Assembled) (hs : c.arena.totalSize < 2 ^ 32) (room : Nat) :
    (∀ e ∈ c.entries, ∃ content, c.arena.Describes e.2 content) ∧
    (∀ p ∈ c.pieces room, c.arena.Holds p.span ∧ p.span.Aligned) ∧
    (c.pieces room).Pairwise (fun p q => p.span.Apart q.span) ∧
    (∀ p ∈ c.pieces room, ∀ q ∈ c.pieces room, ∀ s i,
      p.span.Covers s i → q.span.Covers s i → p = q) ∧
    c.entries.Pairwise fun e e' => ∀ p ∈ c.arena.piecesOf room e, ∀ q ∈ c.arena.piecesOf room e',
      p.span.Apart q.span := by
  obtain ⟨limit, table, _, hsealed⟩ := h.exists_sealed
  have hlaid := h.partitioned hs c.arena (.refl _ _) room
  refine ⟨fun e he => ?_, fun p hp => ⟨hlaid.held p hp, hlaid.aligned p hp⟩, hlaid.apart,
    fun p hp q hq s i hc hc' => ?_, (List.pairwise_flatMap.1 hlaid.apart).2⟩
  · obtain ⟨k, _, hk⟩ := Reading.exists_of_mem_left hsealed.kept he
    exact ⟨k.2, limit, hk.described hs _ (.refl _ _)⟩
  · have hsymm : Std.Symm fun p q : Piece => p.span.Apart q.span :=
      ⟨fun _ _ hpq s i hc hc' => hpq s i hc' hc⟩
    by_contra hne
    exact hlaid.apart.forall hp hq hne s i hc hc'

/-- A pointer to a struct whose two pointers lead to the same three bytes. -/
def forked : Arena :=
  ⟨#[⟨([Pointer.ofStruct 0 0 2, Pointer.ofList 1 .byte 3, Pointer.ofList 0 .byte 3,
    0x636261].flatMap Word.toBytes).toArray, 32⟩], 1024⟩

/-- The shared bytes are added behind two entries, and an addition between them fails. -/
def doubled : Catalog .builder :=
  let c := Catalog.new .builder 8 64
  let c := (c.add "p" forked (.pointer ⟨0, 0, 8⟩)).2
  let c := (c.add "p" forked (.pointer ⟨0, 0, 8⟩)).2
  (c.add "s" forked (.struct ⟨⟨0, 8, 0⟩, ⟨0, 8, 16⟩⟩)).2

/-- Four copies of the bytes have been made, behind one landing pad and two pairs of pointers. -/
theorem owner_unique_sample :
    (doubled.pieces 64).filter (·.span.length ≠ 0) =
      [⟨.entry "p", ⟨0, 0, 8⟩⟩, ⟨.pointer ⟨0, 0, 8⟩, ⟨1, 0, 8⟩⟩, ⟨.pointer ⟨0, 0, 8⟩, ⟨1, 8, 16⟩⟩,
        ⟨.pointer ⟨1, 8, 8⟩, ⟨1, 24, 8⟩⟩, ⟨.pointer ⟨1, 16, 8⟩, ⟨1, 32, 8⟩⟩,
        ⟨.entry "s", ⟨1, 40, 16⟩⟩, ⟨.pointer ⟨1, 40, 8⟩, ⟨1, 56, 8⟩⟩,
        ⟨.pointer ⟨1, 48, 8⟩, ⟨1, 64, 8⟩⟩] ∧
    (doubled.pieces 64).Pairwise (fun p q => p.span.Apart q.span) ∧
    ∃ content, doubled.arena.Describes (.pointer ⟨0, 0, 8⟩) content := by
  have hdoubled : doubled.Assembled := .add (.add (.add (.new 8 64) _ _ _) _ _ _) _ _ _
  have he : ("p", Descriptor.pointer ⟨0, 0, 8⟩) ∈ doubled.entries := by decide +kernel
  obtain ⟨hread, _, hapart, _⟩ := owner_unique hdoubled (by decide +kernel) 64
  exact ⟨by decide +kernel, hapart, hread _ he⟩

end Catalog

end FrozenDefaults
