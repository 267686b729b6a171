import FrozenDefaults.Proofs.Digits
import FrozenDefaults.Proofs.Literals
import FrozenDefaults.Proofs.Manifests
import FrozenDefaults.Proofs.Rebuilding

/-!
# Sources of manifests

A source is loaded in two passes over its segments: all of them are decoded, then
all are taken for whole words. So the first segment that is no hexadecimal text is
reported before any that is not word aligned. Nothing of this depends on how
hexadecimal text is decoded, as long as it is what the text spells.
-/

namespace FrozenDefaults

section First

variable {α β : Type} {p : α → Prop} {q : β → Prop}

/-- The first member of a list that has a property, and its index. -/
inductive FirstAt (p : α → Prop) : List α → Nat → α → Prop
  | head {x : α} {l : List α} (hx : p x) : FirstAt p (x :: l) 0 x
  | cons {x y : α} {l : List α} {i : Nat} (hy : ¬ p y) (h : FirstAt p l i x) :
      FirstAt p (y :: l) (i + 1) x

theorem exists_firstAt {l : List α} (h : ∃ x ∈ l, p x) : ∃ i x, FirstAt p l i x := by
  induction l with
  | nil =>
    obtain ⟨x, hx, _⟩ := h
    cases hx
  | cons y l ih =>
    by_cases hy : p y
    · exact ⟨0, y, .head hy⟩
    · obtain ⟨x, hx, hp⟩ := h
      have hmem : x ∈ l := (List.mem_cons.1 hx).resolve_left fun he => hy (he ▸ hp)
      obtain ⟨i, z, hz⟩ := ih ⟨x, hmem, hp⟩
      exact ⟨i + 1, z, .cons hy hz⟩

theorem FirstAt.of_forall₂ {R : α → β → Prop} (hR : ∀ {x y}, R x y → (p x ↔ q y)) {l : List α}
    {l' : List β} (hl : List.Forall₂ R l l') {i : Nat} {x : α} (h : FirstAt p l i x) :
    ∃ y, R x y ∧ FirstAt q l' i y := by
  induction h generalizing l' with
  | head hx =>
    cases hl with
    | cons hr _ => exact ⟨_, hr, .head ((hR hr).1 hx)⟩
  | cons hy _ ih =>
    cases hl with
    | cons hr hl =>
      obtain ⟨z, hz, hfirst⟩ := ih hl
      exact ⟨z, hz, .cons (fun hq => hy ((hR hr).2 hq)) hfirst⟩

theorem forall_mem_iff_of_forall₂ {R : α → β → Prop} (hR : ∀ {x y}, R x y → (p x ↔ q y))
    {l : List α} {l' : List β} (hl : List.Forall₂ R l l') : (∀ x ∈ l, p x) ↔ ∀ y ∈ l', q y := by
  induction hl with
  | nil => exact iff_of_true (List.forall_mem_nil p) (List.forall_mem_nil q)
  | cons hr _ ih => rw [List.forall_mem_cons, List.forall_mem_cons, hR hr, ih]

end First

namespace Arena

theorem ofSegmentsFrom_of_first {segments : List (List UInt8)} {i : Nat} {bs : List UInt8}
    (h : FirstAt (fun bs => ¬ bytesPerWord ∣ bs.length) segments i bs) (a : Arena) :
    ofSegmentsFrom a segments = .error (.unalignedSegment (a.segments.size + i) bs.length) := by
  induction h generalizing a with
  | head hx =>
    rw [ofSegmentsFrom, if_neg fun h => hx (Nat.dvd_of_mod_eq_zero h)]
    rfl
  | cons hy _ ih =>
    rw [ofSegmentsFrom, if_pos (Nat.mod_eq_zero_of_dvd (not_not.1 hy)), ih, Array.size_push,
      Nat.add_assoc, Nat.add_comm 1]

/-- The arena of which each segment is filled with its bytes. -/
def full (segments : List (List UInt8)) : Arena :=
  ⟨(segments.map fun bs => ⟨bs.toArray, bs.length⟩).toArray, minSegmentSize⟩

theorem ofSegments_eq_ok_iff {segments : List (List UInt8)} {a : Arena} :
    ofSegments segments = .ok a ↔ (∀ bs ∈ segments, bytesPerWord ∣ bs.length) ∧
      a = full segments := by
  by_cases hall : ∀ bs ∈ segments, bytesPerWord ∣ bs.length
  · have hwords : ∀ bs ∈ segments, bs.length % bytesPerWord = 0 :=
      fun bs hbs => Nat.mod_eq_zero_of_dvd (hall bs hbs)
    have hempty : empty.segments = #[] := rfl
    rw [ofSegments, ofSegmentsFrom_eq_ok empty hwords, hempty, Array.empty_append, Except.ok.injEq]
    exact ⟨fun h => ⟨hall, h.symm⟩, fun h => h.2.symm⟩
  · have hsome : ∃ bs ∈ segments, ¬ bytesPerWord ∣ bs.length := by simpa using hall
    obtain ⟨i, bs, hfirst⟩ := exists_firstAt hsome
    rw [ofSegments, ofSegmentsFrom_of_first hfirst]
    exact ⟨fun h => (by cases h), fun h => absurd h.1 hall⟩

theorem toSegments_full (segments : List (List UInt8)) : (full segments).toSegments = segments := by
  rw [toSegments, full, List.toList_toArray, List.map_map]
  exact List.map_id segments

end Arena

namespace Text

theorem flush_append {cs : List Char} (hne : cs ≠ []) (h : ∀ c ∈ cs, isBlank c = false)
    (back : List Char) : Flush (cs ++ back) := by
  cases cs with
  | nil => exact absurd rfl hne
  | cons c cs => exact h c List.mem_cons_self

theorem trim_append {front cs back : List Char} (hfront : ∀ c ∈ front, isBlank c)
    (hcs : ∀ c ∈ cs, isBlank c = false) (hback : ∀ c ∈ back, isBlank c) :
    trim (front ++ cs ++ back) = cs := by
  by_cases hne : cs = []
  · subst hne
    have hblank : ∀ c ∈ front ++ back, isBlank c := List.forall_mem_append.2 ⟨hfront, hback⟩
    have hnil : trimStart (front ++ back ++ []) = [] := List.dropWhile_append_of_pos hblank
    rw [List.append_nil] at hnil ⊢
    rw [trim, hnil]
    rfl
  · -- The text begins without a blank, and so it does from behind.
    have hflush : Flush (cs ++ back) := flush_append hne hcs back
    have hflush' : Flush cs.reverse := by
      rw [← List.append_nil cs.reverse]
      exact flush_append (fun h => hne (List.reverse_eq_nil_iff.1 h))
        (fun c hc => hcs c (List.mem_reverse.1 hc)) []
    have hback' : ∀ c ∈ back.reverse, isBlank c := fun c hc => hback c (List.mem_reverse.1 hc)
    rw [trim, List.append_assoc, trimStart_append hfront hflush, List.reverse_append,
      trimStart_append hback' hflush', List.reverse_reverse]

end Text

namespace Hex

theorem IsDigit.isBlank_eq_false {n : Nat} {c : Char} (h : IsDigit n c) :
    Text.isBlank c = false :=
  of_decide_eq_true (h.of_alphabets (P := fun _ c => decide (Text.isBlank c = false)) (by decide))

/-- The decoder accepts the texts that spell bytes, and gives these. -/
def Decodes (decode : String → Except Fault (List UInt8)) : Prop :=
  ∀ t bs, decode t = .ok bs ↔ Spells bs t.toList

theorem decodes_decodeText : Decodes decodeText := fun _ _ => decodeText_eq_ok_iff

end Hex

namespace Manifest

def trimmed (s : String) : String := String.ofList (Text.trim s.toList)

def digitCount (s : String) : Nat := (trimmed s).toList.length

/-- Between blanks there are digits alone. -/
def AllDigits (s : String) : Prop := ∀ c ∈ (trimmed s).toList, ∃ n, Hex.IsDigit n c

def IsHex (s : String) : Prop := AllDigits s ∧ 2 ∣ digitCount s

/-- The segment spells the bytes, with blanks around them. -/
def Writes (bs : List UInt8) (s : String) : Prop :=
  ∃ front digits back, (∀ c ∈ front, Text.isBlank c) ∧ (∀ c ∈ back, Text.isBlank c) ∧
    Hex.Spells bs digits ∧ s.toList = front ++ digits ++ back

section Decoder

variable (decode : String → Except Hex.Fault (List UInt8))

def readSegment (e : String × Nat) : Attempt (List UInt8) :=
  match decode (trimmed e.1) with
  | .ok bs => .ok bs
  | .error f => .error ⟨[s!"segment {e.2} is not valid hex"], .hex f⟩

/-- The source, with segments that are read by a given decoder. -/
def sourceBy (m : Manifest) : Attempt Arena := do
  .ofFault (Arena.ofSegments (← m.segments.zipIdx.mapM (readSegment decode)))

end Decoder

theorem decodeSegments_eq (index : Nat) (segments : List String) : decodeSegments index segments =
    (segments.zipIdx index).mapM (readSegment Hex.decodeText) := by
  induction segments generalizing index with
  | nil => rfl
  | cons s segments ih =>
    rw [decodeSegments, ih, List.zipIdx_cons, List.mapM_cons]
    rfl

theorem source_eq (m : Manifest) : m.source = m.sourceBy Hex.decodeText := by
  rw [source, sourceBy, decodeSegments_eq]

variable {decode : String → Except Hex.Fault (List UInt8)}

section Segments

theorem isHex_iff {s : String} : IsHex s ↔ ∃ bs, Hex.Spells bs (trimmed s).toList := by
  rw [Hex.exists_spells_iff, IsHex, AllDigits, digitCount, Nat.dvd_iff_mod_eq_zero]

theorem isHex_iff_isSome {s : String} : IsHex s ↔ (Hex.read? (trimmed s).toList).isSome := by
  simp only [isHex_iff, Option.isSome_iff_exists, Hex.read?_eq_some_iff]

instance (s : String) : Decidable (IsHex s) := decidable_of_iff _ isHex_iff_isSome.symm

theorem digitCount_of_decode (hd : Hex.Decodes decode) {s : String} {bs : List UInt8}
    (h : decode (trimmed s) = .ok bs) : digitCount s = 2 * bs.length :=
  ((hd _ _).1 h).length Hex.IsPair.length

/-- A segment fills whole words if its digits come in sixteens. -/
theorem dvd_digitCount_iff (hd : Hex.Decodes decode) {s : String} {bs : List UInt8}
    (h : decode (trimmed s) = .ok bs) : 16 ∣ digitCount s ↔ bytesPerWord ∣ bs.length := by
  rw [digitCount_of_decode hd h, bytesPerWord]
  omega

theorem readSegment_eq_ok_iff {e : String × Nat} {bs : List UInt8} :
    readSegment decode e = .ok bs ↔ decode (trimmed e.1) = .ok bs := by
  rw [readSegment]
  cases decode (trimmed e.1) with
  | ok bs' => simp only [Except.ok.injEq]
  | error f => exact ⟨fun h => (by cases h), fun h => (by cases h)⟩

theorem readSegments_eq_ok_iff {segments : List String} {bss : List (List UInt8)} (index : Nat) :
    (segments.zipIdx index).mapM (readSegment decode) = .ok bss ↔
      List.Forall₂ (fun s bs => decode (trimmed s) = .ok bs) segments bss := by
  have hfst : (segments.zipIdx index).map Prod.fst = segments := List.zipIdx_map_fst index segments
  rw [mapM_eq_ok_iff]
  simp only [readSegment_eq_ok_iff]
  rw [← List.forall₂_map_left_iff (R := fun s bs => decode (trimmed s) = .ok bs), hfst]

theorem readSegments_of_first (hd : Hex.Decodes decode) {segments : List String} {i : Nat}
    {s : String} (h : FirstAt (¬ IsHex ·) segments i s) (index : Nat) :
    ∃ f, decode (trimmed s) = .error f ∧ (segments.zipIdx index).mapM (readSegment decode) =
      .error ⟨[s!"segment {index + i} is not valid hex"], .hex f⟩ := by
  induction h generalizing index with
  | @head s segments hs =>
    cases hf : decode (trimmed s) with
    | ok bs => exact absurd (isHex_iff.2 ⟨bs, (hd _ _).1 hf⟩) hs
    | error f =>
      refine ⟨f, rfl, ?_⟩
      have hread : readSegment decode (s, index) =
          .error ⟨[s!"segment {index} is not valid hex"], .hex f⟩ := by
        simp only [readSegment, hf]
      rw [List.zipIdx_cons, List.mapM_cons, hread]
      rfl
  | @cons s t segments i ht _ ih =>
    obtain ⟨bs, hbs⟩ := isHex_iff.1 (not_not.1 ht)
    obtain ⟨f, hf, hrest⟩ := ih (index + 1)
    have hread : readSegment decode (t, index) = .ok bs :=
      readSegment_eq_ok_iff.2 ((hd _ _).2 hbs)
    refine ⟨f, hf, ?_⟩
    rw [List.zipIdx_cons, List.mapM_cons, hread, ok_bind, hrest, error_bind, Nat.add_assoc,
      Nat.add_comm 1]

end Segments

/-- What a manifest gives whose segments are read by `decode`. -/
structure Loads (decode : String → Except Hex.Fault (List UInt8)) (segments : List String)
    (r : Attempt Arena) : Prop where
  accepts : (∃ a, r = .ok a) ↔ ∀ s ∈ segments, AllDigits s ∧ 16 ∣ digitCount s
  bytes {a : Arena} : r = .ok a →
    List.Forall₂ (fun s bs => decode (trimmed s) = .ok bs) segments a.toSegments ∧
      ∀ seg ∈ a.segments, seg.used = seg.capacity
  written {bss : List (List UInt8)} : (∀ bs ∈ bss, bytesPerWord ∣ bs.length) →
    List.Forall₂ Writes bss segments → ∃ a, r = .ok a ∧ a.toSegments = bss
  refuses : (¬ ∀ s ∈ segments, AllDigits s ∧ 16 ∣ digitCount s) →
    (∃ i s f, FirstAt (¬ IsHex ·) segments i s ∧ decode (trimmed s) = .error f ∧
      r = .error ⟨[s!"segment {i} is not valid hex"], .hex f⟩) ∨
    (∀ s ∈ segments, IsHex s) ∧
      ∃ i s bs, FirstAt (¬ 16 ∣ digitCount ·) segments i s ∧ decode (trimmed s) = .ok bs ∧
        r = .error (.ofFault (.unalignedSegment i bs.length))

section Loading

variable {m : Manifest} {bss : List (List UInt8)}

theorem IsHex.of_words {s : String} (h : AllDigits s ∧ 16 ∣ digitCount s) : IsHex s :=
  ⟨h.1, Nat.dvd_trans (by decide) h.2⟩

theorem exists_bytes (hd : Hex.Decodes decode) {segments : List String}
    (h : ∀ s ∈ segments, IsHex s) :
    ∃ bss, List.Forall₂ (fun s bs => decode (trimmed s) = .ok bs) segments bss := by
  induction segments with
  | nil => exact ⟨[], .nil⟩
  | cons s segments ih =>
    obtain ⟨hs, hsegments⟩ := List.forall_mem_cons.1 h
    obtain ⟨bs, hbs⟩ := isHex_iff.1 hs
    obtain ⟨bss, hbss⟩ := ih hsegments
    exact ⟨bs :: bss, .cons ((hd _ _).2 hbs) hbss⟩

theorem sourceBy_of_bytes
    (h : List.Forall₂ (fun s bs => decode (trimmed s) = .ok bs) m.segments bss) :
    m.sourceBy decode = .ofFault (Arena.ofSegments bss) := by
  rw [sourceBy, (readSegments_eq_ok_iff 0).2 h, ok_bind]

theorem sourceBy_eq_ok_iff {a : Arena} : m.sourceBy decode = .ok a ↔
    ∃ bss, List.Forall₂ (fun s bs => decode (trimmed s) = .ok bs) m.segments bss ∧
      (∀ bs ∈ bss, bytesPerWord ∣ bs.length) ∧ a = Arena.full bss := by
  simp only [sourceBy, bind_eq_ok_iff, readSegments_eq_ok_iff, ofFault_eq_ok_iff,
    Arena.ofSegments_eq_ok_iff]

theorem sourceBy_accepts (hd : Hex.Decodes decode) : (∃ a, m.sourceBy decode = .ok a) ↔
    ∀ s ∈ m.segments, AllDigits s ∧ 16 ∣ digitCount s := by
  have hwords {bss : List (List UInt8)}
      (h : List.Forall₂ (fun s bs => decode (trimmed s) = .ok bs) m.segments bss) :
      (∀ s ∈ m.segments, AllDigits s ∧ 16 ∣ digitCount s) ↔
        ∀ bs ∈ bss, bytesPerWord ∣ bs.length := by
    refine forall_mem_iff_of_forall₂ (fun {s bs} hbs => ?_) h
    have hdigits : AllDigits s := (isHex_iff.2 ⟨bs, (hd _ _).1 hbs⟩).1
    rw [and_iff_right hdigits, dvd_digitCount_iff hd hbs]
  constructor
  · rintro ⟨a, ha⟩
    obtain ⟨bss, hbss, haligned, _⟩ := sourceBy_eq_ok_iff.1 ha
    exact (hwords hbss).2 haligned
  · intro h
    obtain ⟨bss, hbss⟩ := exists_bytes hd fun s hs => .of_words (h s hs)
    exact ⟨_, sourceBy_eq_ok_iff.2 ⟨bss, hbss, (hwords hbss).1 h, rfl⟩⟩

theorem Writes.decode_eq (hd : Hex.Decodes decode) {bs : List UInt8} {s : String}
    (h : Writes bs s) : decode (trimmed s) = .ok bs := by
  obtain ⟨front, digits, back, hfront, hback, hspells, hs⟩ := h
  have hblank : ∀ c ∈ digits, Text.isBlank c = false := by
    intro c hc
    obtain ⟨n, hn⟩ := (Hex.exists_spells_iff.1 ⟨bs, hspells⟩).1 c hc
    exact hn.isBlank_eq_false
  rw [hd, trimmed, String.toList_ofList, hs, Text.trim_append hfront hblank hback]
  exact hspells

/-- A segment that is no hexadecimal text is reported before one that is not word aligned. -/
theorem sourceBy_refuses (hd : Hex.Decodes decode)
    (h : ¬ ∀ s ∈ m.segments, AllDigits s ∧ 16 ∣ digitCount s) :
    (∃ i s f, FirstAt (¬ IsHex ·) m.segments i s ∧ decode (trimmed s) = .error f ∧
      m.sourceBy decode = .error ⟨[s!"segment {i} is not valid hex"], .hex f⟩) ∨
    (∀ s ∈ m.segments, IsHex s) ∧
      ∃ i s bs, FirstAt (¬ 16 ∣ digitCount ·) m.segments i s ∧ decode (trimmed s) = .ok bs ∧
        m.sourceBy decode = .error (.ofFault (.unalignedSegment i bs.length)) := by
  by_cases hhex : ∀ s ∈ m.segments, IsHex s
  · -- All are decoded, and the first that fills no whole words is the first of its bytes, too.
    refine .inr ⟨hhex, ?_⟩
    obtain ⟨bss, hbss⟩ := exists_bytes hd hhex
    have hsome : ∃ s ∈ m.segments, ¬ 16 ∣ digitCount s := by
      by_contra hnone
      exact h fun s hs => ⟨(hhex s hs).1, by_contra fun hn => hnone ⟨s, hs, hn⟩⟩
    obtain ⟨i, s, hfirst⟩ := exists_firstAt hsome
    obtain ⟨bs, hbs, hfirst'⟩ := hfirst.of_forall₂
      (q := fun bs => ¬ bytesPerWord ∣ bs.length)
      (fun hbs => not_congr (dvd_digitCount_iff hd hbs)) hbss
    refine ⟨i, s, bs, hfirst, hbs, ?_⟩
    rw [sourceBy_of_bytes hbss, Arena.ofSegments, Arena.ofSegmentsFrom_of_first hfirst']
    show Attempt.ofFault (.error (.unalignedSegment (0 + i) bs.length)) = _
    rw [Nat.zero_add]
    rfl
  · have hsome : ∃ s ∈ m.segments, ¬ IsHex s := by simpa using hhex
    obtain ⟨i, s, hfirst⟩ := exists_firstAt hsome
    obtain ⟨f, hf, hread⟩ := readSegments_of_first hd hfirst 0
    rw [Nat.zero_add] at hread
    refine .inl ⟨i, s, f, hfirst, hf, ?_⟩
    rw [sourceBy, hread, error_bind]

theorem loads_sourceBy (hd : Hex.Decodes decode) (m : Manifest) :
    Loads decode m.segments (m.sourceBy decode) where
  accepts := sourceBy_accepts hd
  bytes {a} ha := by
    obtain ⟨bss, hbss, -, rfl⟩ := sourceBy_eq_ok_iff.1 ha
    rw [Arena.toSegments_full]
    refine ⟨hbss, fun seg hseg => ?_⟩
    obtain ⟨bs, -, rfl⟩ := List.mem_map.1 (List.mem_toArray.1 hseg)
    rfl
  written {bss} haligned hwritten := by
    have hbss : List.Forall₂ (fun s bs => decode (trimmed s) = .ok bs) m.segments bss :=
      (hwritten.imp fun _ _ h => h.decode_eq hd).flip
    exact ⟨_, sourceBy_eq_ok_iff.2 ⟨bss, hbss, haligned, rfl⟩, Arena.toSegments_full bss⟩
  refuses h := sourceBy_refuses hd h

end Loading

/-- A source is loaded exactly from segments of whole words in hexadecimal digits, whatever blanks
are around them, and holds the bytes that they spell. This holds for every decoder that accepts the
texts that spell bytes, and the decoder of octets is one. -/
theorem source_loads (m : Manifest) : Loads Hex.decodeText m.segments m.source ∧
    ∀ {decode : String → Except Hex.Fault (List UInt8)}, Hex.Decodes decode →
      Loads decode m.segments (m.sourceBy decode) :=
  ⟨source_eq m ▸ loads_sourceBy Hex.decodes_decodeText m, fun hd => loads_sourceBy hd m⟩

def ofTexts (segments : List String) : Manifest := ⟨.none, segments, []⟩

/-- Digits of both cases between a tab and a space that does not break, and blanks alone; a segment
of two bytes before one with a letter that is no digit. -/
theorem source_loads_sample :
    Hex.Decodes Hex.decodeText ∧
    (∃ a, (ofTexts ["\t0102030405060aFF\u00a0", " "]).sourceBy Hex.decodeText = .ok a ∧
      a.toSegments = [[1, 2, 3, 4, 5, 6, 10, 255], []]) ∧
    ¬ (∃ a, (ofTexts ["0102", "0g"]).source = .ok a) ∧
    ∃ f, (ofTexts ["0102", "0g"]).source = .error ⟨["segment 1 is not valid hex"], .hex f⟩ := by
  have hdecodes := Hex.decodes_decodeText
  have hgood := (source_loads (ofTexts ["\t0102030405060aFF\u00a0", " "])).2 hdecodes
  have hbad := (source_loads (ofTexts ["0102", "0g"])).1
  have hspells : Hex.Spells [1, 2, 3, 4, 5, 6, 10, 255] "0102030405060aFF".toList :=
    Hex.read?_eq_some_iff.1 (by decide)
  have hblank {b : Char} (hb : Text.isBlank b = true) : ∀ c ∈ [b], Text.isBlank c = true :=
    List.forall_mem_singleton.2 hb
  have hfirst : Writes [1, 2, 3, 4, 5, 6, 10, 255] "\t0102030405060aFF\u00a0" :=
    ⟨['\t'], _, ['\u00a0'], hblank rfl, hblank rfl, hspells, rfl⟩
  have hsecond : Writes [] " " := ⟨[' '], [], [], hblank rfl, List.forall_mem_nil _, .nil, rfl⟩
  have hwritten := hgood.written (by decide) (.cons hfirst (.cons hsecond .nil))
  have hshort : ¬ ∀ s ∈ ["0102", "0g"], AllDigits s ∧ 16 ∣ digitCount s := fun h =>
    absurd (h "0102" List.mem_cons_self).2 (by decide +kernel)
  refine ⟨hdecodes, hwritten, fun h => hshort (hbad.accepts.1 h), ?_⟩
  rcases hbad.refuses hshort with ⟨i, s, f, hfirst, -, hsource⟩ | ⟨hhex, -⟩
  · cases hfirst with
    | head hs => exact absurd (by decide +kernel) hs
    | cons _ hfirst =>
      cases hfirst with
      | head _ => exact ⟨f, hsource⟩
      | cons _ hfirst => cases hfirst
  · exact absurd (hhex "0g" (by decide)) (by decide +kernel)

end Manifest

end FrozenDefaults
