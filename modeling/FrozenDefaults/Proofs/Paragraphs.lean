import FrozenDefaults.Proofs.Agreeing
import FrozenDefaults.Proofs.Naming

/-!
# Texts taken apart again

No line of a listing is empty, and a line has no characters but printable ones
and those of the path of the runtime. So the blank lines of the text are those
between two blocks, and the blocks can be read back from it.
-/

namespace FrozenDefaults

namespace Listing

/-- The characters of ASCII that are no controls. -/
def isPrintable (c : Char) : Bool := ' ' ≤ c && c ≤ '~'

/-- Apart from the characters of a path, the text has printable ones alone. -/
def Plain (path text : String) : Prop := ∀ c ∈ text.toList, isPrintable c = true ∨ c ∈ path.toList

/-- The lines of a text that has no line break behind the last. -/
def textLines (text : String) : List String := (text.split '\n').toList.map (·.copy)

/-- The lines of a text in groups, as blank lines part them. -/
def paragraphs (text : String) : List (List String) := (textLines text).splitOn ""

section Plain

variable {path s t : String}

@[simp] theorem plain_append : Plain path (s ++ t) ↔ Plain path s ∧ Plain path t := by
  simp only [Plain, String.toList_append, List.forall_mem_append]

@[simp] theorem plain_toString : Plain path (toString s) ↔ Plain path s := Iff.rfl

@[simp] theorem plain_self : Plain path path := fun _ hc => .inr hc

theorem plain_of_all (h : s.toList.all isPrintable = true) : Plain path s := fun c hc =>
  .inl (List.all_eq_true.1 h c hc)

theorem isPrintable_iff {c : Char} : isPrintable c = true ↔ ' ' ≤ c ∧ c ≤ '~' := by
  rw [isPrintable, Bool.and_eq_true, decide_eq_true_eq, decide_eq_true_eq]

theorem isPrintable_of_isIdentChar {c : Char} (h : Catalog.isIdentChar c = true) :
    isPrintable c = true := by
  rw [isPrintable_iff]
  rcases Catalog.isIdentChar_iff.1 h with h | h | h | rfl
  · exact ⟨Char.le_trans (by decide : ' ' ≤ 'a') h.1, Char.le_trans h.2 (by decide : 'z' ≤ '~')⟩
  · exact ⟨Char.le_trans (by decide : ' ' ≤ 'A') h.1, Char.le_trans h.2 (by decide : 'Z' ≤ '~')⟩
  · exact ⟨Char.le_trans (by decide : ' ' ≤ '0') h.1, Char.le_trans h.2 (by decide : '9' ≤ '~')⟩
  · decide

@[simp] theorem plain_repr (n : Nat) : Plain path n.repr := by
  intro c hc
  rw [Nat.toList_repr] at hc
  have hdigit : c.isDigit = true := Nat.isDigit_of_mem_toDigits (by omega) (by omega) hc
  refine .inl (isPrintable_of_isIdentChar ?_)
  rw [Catalog.isIdentChar, Char.isAlphanum, hdigit, Bool.or_true, Bool.true_or]

@[simp] theorem plain_count (n : UInt32) : Plain path (toString n) := plain_repr n.toNat

section Names

variable (world : World)

@[simp] theorem plain_name : Plain path world.name := by
  cases world <;> exact plain_of_all (by decide)

@[simp] theorem plain_storageName : Plain path world.storageName := by
  cases world <;> exact plain_of_all (by decide)

@[simp] theorem plain_messageName : Plain path (messageName world) := by
  cases world <;> exact plain_of_all (by decide)

@[simp] theorem plain_readerSizeName : Plain path readerSizeName := plain_of_all (by decide)

@[simp] theorem plain_layoutName (l : ElementLayout) : Plain path l.name := by
  cases l with
  | composite d p => exact plain_of_all (by decide : "Composite".toList.all isPrintable = true)
  | _ => exact plain_of_all (by decide)

@[simp] theorem plain_descriptorType (d : Descriptor) : Plain path (descriptorType d) := by
  cases d with
  | struct _ => exact plain_of_all (by decide : "StructStorage".toList.all isPrintable = true)
  | list _ => exact plain_of_all (by decide : "ListStorage".toList.all isPrintable = true)
  | pointer _ => exact plain_of_all (by decide : "Slice".toList.all isPrintable = true)

end Names

theorem plain_ident {node : Nat} {field ident : String} (h : Catalog.ident node field = .ok ident) :
    Plain path ident := by
  obtain ⟨hfield, rfl⟩ := Catalog.ident_eq_ok_iff.1 h
  have hchars : Plain path field := fun c hc =>
    .inl (isPrintable_of_isIdentChar (Catalog.isIdentChar_iff.2 (hfield.2 c hc)))
  simp (disch := decide) [plain_of_all, hchars]

section Literals

theorem isPrintable_of_mem_encode {bs : List UInt8} {c : Char} (h : c ∈ Literal.encode bs) :
    isPrintable c = true := by
  have hdigit (n : Fin 16) : isPrintable (Hex.digit n) = true := by
    revert n
    decide
  obtain ⟨b, _, hc⟩ := List.mem_flatMap.1 h
  have hb := b.toNat_lt
  simp only [Literal.escape, Hex.encodeByte, List.mem_cons, List.not_mem_nil, or_false] at hc
  rcases hc with rfl | rfl | rfl | rfl
  · decide
  · decide
  · exact hdigit ⟨b.toNat / 16, by omega⟩
  · exact hdigit ⟨b.toNat % 16, by omega⟩

theorem isPrintable_of_mem_continued {ps : List (List UInt8)} {line : List Char} {c : Char}
    (h : line ∈ Literal.continued ps) (hc : c ∈ line) : isPrintable c = true := by
  have hclosing : ∀ c ∈ Literal.closing, isPrintable c = true :=
    List.all_eq_true.1 (by decide : Literal.closing.all isPrintable = true)
  have hcontinuation : ∀ c ∈ Literal.continuation, isPrintable c = true :=
    List.all_eq_true.1 (by decide : Literal.continuation.all isPrintable = true)
  induction ps with
  | nil => cases h
  | cons p ps ih =>
    cases ps with
    | nil =>
      obtain rfl := List.mem_singleton.1 h
      exact (List.mem_append.1 hc).elim isPrintable_of_mem_encode (hclosing c)
    | cons q ps =>
      rcases List.mem_cons.1 h with rfl | h
      · exact (List.mem_append.1 hc).elim isPrintable_of_mem_encode (hcontinuation c)
      · exact ih h

theorem plain_of_mem_lines {width : Nat} {bs : List UInt8} {line : List Char}
    (h : line ∈ Literal.lines width bs) : Plain path (String.ofList line) := by
  intro c hc
  rw [String.toList_ofList] at hc
  obtain ⟨first, rest, hl, hcontinued, _⟩ := Literal.lines_cases width bs
  have hopening : ∀ c ∈ Literal.opening, isPrintable c = true :=
    List.all_eq_true.1 (by decide : Literal.opening.all isPrintable = true)
  rw [hl] at h
  rcases List.mem_cons.1 h with rfl | h
  · exact .inl ((List.mem_append.1 hc).elim (hopening c) (isPrintable_of_mem_continued
      (hcontinued ▸ List.mem_cons_self)))
  · exact .inl (isPrintable_of_mem_continued (hcontinued ▸ List.mem_cons_of_mem _ h) hc)

end Literals

end Plain

/-- A line that is not empty, and plain. -/
structure Visible (path line : String) : Prop where
  ne_empty : line ≠ ""
  plain : Plain path line

section Lines

variable {path : String}

theorem visible_indented {width : Nat} {bs : List UInt8} {line : String}
    (h : line ∈ indented (Literal.lines width bs)) : Visible path line := by
  obtain ⟨cs, hcs, hl⟩ : ∃ cs ∈ Literal.lines width bs,
      line = "    " ++ String.ofList cs ∨ line = "      " ++ String.ofList cs := by
    cases hlines : Literal.lines width bs with
    | nil =>
      rw [hlines] at h
      cases h
    | cons first rest =>
      rw [hlines] at h
      rcases List.mem_cons.1 h with rfl | h
      · exact ⟨first, List.mem_cons_self, .inl rfl⟩
      · obtain ⟨cs, hcs, rfl⟩ := List.mem_map.1 h
        exact ⟨cs, List.mem_cons_of_mem _ hcs, .inr rfl⟩
  have hplain : Plain path (String.ofList cs) := plain_of_mem_lines hcs
  rcases hl with rfl | rfl
  · exact ⟨by simp, plain_append.2 ⟨plain_of_all (by decide), hplain⟩⟩
  · exact ⟨by simp, plain_append.2 ⟨plain_of_all (by decide), hplain⟩⟩

variable (world : World) (s : Settings)

theorem plain_constructorCall {capacity : Option String}
    (h : ∀ text, capacity = some text → Plain path text) :
    Plain path (constructorCall capacity) := by
  cases capacity with
  | none => exact plain_of_all (by decide)
  | some text =>
    show Plain path ("from_segments_with_capacity(segments, " ++ text ++ ")")
    simp (disch := decide) [plain_of_all, h text rfl]

theorem visible_messageLines {capacity : Option String}
    (h : ∀ text, capacity = some text → Plain s.runtimePath text) (a : Arena) :
    ∀ line ∈ messageLines world s capacity a, Visible s.runtimePath line := by
  have hcall := plain_constructorCall h
  intro line hl
  simp only [messageLines, List.mem_append, List.mem_cons, List.not_mem_nil, or_false,
    List.mem_flatMap, literals, List.mem_map] at hl
  rcases hl with ((rfl | rfl | rfl) | ⟨_, ⟨bs, _, rfl⟩, hl⟩) | rfl | rfl | rfl
  · exact ⟨by simp [toString], by simp (disch := decide) [plain_of_all]⟩
  · exact ⟨by simp [toString], by simp (disch := decide) [plain_of_all]⟩
  · exact ⟨by simp [toString], by simp (disch := decide) [plain_of_all]⟩
  · exact visible_indented hl
  · exact ⟨by decide, plain_of_all (by decide)⟩
  · exact ⟨by simp [toString], by simp (disch := decide) [plain_of_all, hcall]⟩
  · exact ⟨by decide, plain_of_all (by decide)⟩

theorem visible_readerSetupLines (n : Nat) (c : Catalog .reader) :
    ∀ line ∈ readerSetupLines s n c, Visible s.runtimePath line := by
  intro line hl
  rcases List.mem_append.1 hl with hl | hl
  · simp only [List.mem_cons, List.not_mem_nil, or_false] at hl
    rcases hl with rfl | rfl
    · exact ⟨by simp, by simp (disch := decide) [plain_of_all]⟩
    · exact ⟨by simp [toString], by simp (disch := decide) [plain_of_all]⟩
  · refine visible_messageLines .reader s (fun text h => ?_) c.arena line hl
    obtain rfl := Option.some.inj h
    exact plain_readerSizeName

theorem plain_spanText (span : Span) : Plain path (spanText path span) := by
  simp (disch := decide) [spanText, plain_of_all]

theorem plain_layoutText (l : ElementLayout) : Plain path (layoutText path l) := by
  cases l with
  | composite d p => simp (disch := decide) [layoutText, plain_of_all]
  | _ => simp (disch := decide) [layoutText, plain_of_all]

theorem visible_descriptorLines (d : Descriptor) :
    ∀ line ∈ descriptorLines path d, Visible path line := by
  intro line hl
  cases d with
  | struct v =>
    simp only [descriptorLines, List.mem_cons, List.not_mem_nil, or_false] at hl
    rcases hl with rfl | rfl | rfl | rfl
    all_goals
      exact ⟨by simp [toString], by simp (disch := decide) [plain_of_all, plain_spanText]⟩
  | list v =>
    simp only [descriptorLines, List.mem_cons, List.not_mem_nil, or_false] at hl
    rcases hl with rfl | rfl | rfl | rfl | rfl
    all_goals
      exact ⟨by simp [toString],
        by simp (disch := decide) [plain_of_all, plain_spanText, plain_layoutText]⟩
  | pointer slot =>
    obtain rfl := List.mem_singleton.1 hl
    exact ⟨by simp [toString], by simp (disch := decide) [plain_of_all, plain_spanText]⟩

theorem visible_bindingLines {ident : String} (hi : Plain path ident) (d : Descriptor) :
    ∀ line ∈ bindingLines world path ident d, Visible path line := by
  intro line hl
  simp only [bindingLines, List.mem_append, List.mem_cons, List.not_mem_nil, or_false] at hl
  rcases hl with ((rfl | rfl | rfl) | hl) | rfl
  · exact ⟨by decide, plain_of_all (by decide)⟩
  · exact ⟨by simp [toString], by simp (disch := decide) [plain_of_all, bindingName, hi]⟩
  · exact ⟨by simp [toString], by simp (disch := decide) [plain_of_all]⟩
  · exact visible_descriptorLines d line hl
  · exact ⟨by decide, plain_of_all (by decide)⟩

variable {world}

theorem visible_bindings {c : Catalog world}
    (hi : ∀ ident ∈ c.byKind.map Prod.fst, Plain s.runtimePath ident) :
    ∀ line ∈ bindings s c, Visible s.runtimePath line := by
  intro line hl
  obtain ⟨⟨ident, d⟩, he, hl⟩ := List.mem_flatMap.1 hl
  exact visible_bindingLines world (hi ident (List.mem_map_of_mem he)) d line hl

theorem bindings_ne_nil {c : Catalog world} (h : c.byKind ≠ []) : bindings s c ≠ [] := by
  cases hentries : c.byKind with
  | nil => exact absurd hentries h
  | cons e entries =>
    rw [bindings, hentries]
    exact List.cons_ne_nil _ _

end Lines

section Blocks

variable {blocks : List (List String)}

theorem textLines_intercalate {lines : List String} (hne : lines ≠ [])
    (h : ∀ line ∈ lines, '\n' ∉ line.toList) : textLines ("\n".intercalate lines) = lines := by
  have hsplit := String.toList_split_intercalate h
  rwa [if_neg hne] at hsplit

theorem eq_or_mem_of_mem_intercalate {line : String} (h : line ∈ [""].intercalate blocks) :
    line = "" ∨ line ∈ blocks.flatten := by
  induction blocks with
  | nil => cases h
  | cons block rest ih =>
    rw [List.flatten_cons, List.mem_append]
    cases rest with
    | nil =>
      rw [List.intercalate_singleton] at h
      exact .inr (.inl h)
    | cons next rest =>
      rw [List.intercalate_cons_cons, List.append_assoc, List.mem_append, List.mem_append,
        List.mem_singleton] at h
      rcases h with h | h | h
      · exact .inr (.inl h)
      · exact .inl h
      · exact (ih h).imp_right .inr

theorem intercalate_ne_nil (hne : blocks ≠ []) (h : ∀ block ∈ blocks, block ≠ []) :
    [""].intercalate blocks ≠ [] := by
  cases blocks with
  | nil => exact absurd rfl hne
  | cons block rest =>
    have hblock := h block List.mem_cons_self
    cases rest with
    | nil => rwa [List.intercalate_singleton]
    | cons next rest =>
      rw [List.intercalate_cons_cons, List.append_assoc]
      exact List.append_ne_nil_of_left_ne_nil hblock _

theorem intercalate_blocks (h : ∀ block ∈ blocks, block ≠ []) :
    "\n\n".intercalate (blocks.map "\n".intercalate) =
      "\n".intercalate ([""].intercalate blocks) := by
  induction blocks with
  | nil => rfl
  | cons block rest ih =>
    have hrest : ∀ block ∈ rest, block ≠ [] := fun b hb => h b (List.mem_cons_of_mem _ hb)
    cases hcases : rest with
    | nil => rw [List.map_cons, List.map_nil, String.intercalate_singleton,
        List.intercalate_singleton]
    | cons next others =>
      have hne : rest ≠ [] := by simp [hcases]
      rw [← hcases, List.map_cons, String.intercalate_cons_of_ne_nil (by simpa using hne), ih hrest,
        List.intercalate_cons_of_ne_nil hne, List.append_assoc,
        String.intercalate_append_of_ne_nil (h block List.mem_cons_self) (by simp),
        List.singleton_append, String.intercalate_cons_of_ne_nil (intercalate_ne_nil hne hrest),
        String.empty_append, ← String.append_assoc]
      have hbreaks : "\n\n" = "\n" ++ "\n" := rfl
      rw [hbreaks, ← String.append_assoc]

/-- Blocks of lines that are not blank are the paragraphs of their text. -/
theorem paragraphs_intercalate (hne : blocks ≠ []) (h : ∀ block ∈ blocks, block ≠ [])
    (hlines : ∀ line ∈ blocks.flatten, line ≠ "" ∧ '\n' ∉ line.toList) :
    textLines ("\n\n".intercalate (blocks.map "\n".intercalate)) = [""].intercalate blocks ∧
      paragraphs ("\n\n".intercalate (blocks.map "\n".intercalate)) = blocks := by
  have hnone : ∀ line ∈ [""].intercalate blocks, '\n' ∉ line.toList := by
    intro line hl
    rcases eq_or_mem_of_mem_intercalate hl with rfl | hl
    · decide
    · exact (hlines line hl).2
  have htext : textLines ("\n\n".intercalate (blocks.map "\n".intercalate)) =
      [""].intercalate blocks := by
    rw [intercalate_blocks h]
    exact textLines_intercalate (intercalate_ne_nil hne h) hnone
  refine ⟨htext, ?_⟩
  rw [paragraphs, htext]
  refine List.splitOn_intercalate "" (fun block hb hblank => ?_) hne
  exact (hlines "" (List.mem_flatten.2 ⟨block, hb, hblank⟩)).1 rfl

end Blocks

section Render

variable {s : Settings} {c : Catalog .builder} {l : Listing}

theorem render_eq (h : ∀ block ∈ l.blocks, block ≠ []) :
    l.render = "\n\n".intercalate (l.blocks.map "\n".intercalate) ++ "\n" := by
  have hall : l.blocks.filter (! ·.isEmpty) = l.blocks := by
    rw [List.filter_eq_self]
    intro block hb
    simpa using h block hb
  unfold render
  rw [hall]
  rfl

theorem ofCatalog_of_isEmpty (hc : c.isEmpty = true) (hw : Settings.minWrapWidth ≤ s.wrapWidth) :
    ofCatalog s c = .ok empty := by
  have hv : s.validate = .ok () := by
    rw [Settings.validate, if_neg (Nat.not_lt.2 hw)]
  rw [ofCatalog, hv, ok_bind, if_pos hc]
  rfl

theorem visible_ofCatalog (hc : ¬ c.isEmpty = true)
    (hi : ∀ e ∈ c.entries, ∃ node field, Catalog.ident node field = .ok e.1)
    (hl : ofCatalog s c = .ok l) : (∀ block ∈ l.blocks, block ≠ []) ∧
      ∀ line ∈ l.blocks.flatten, Visible s.runtimePath line := by
  obtain ⟨_, _, hl⟩ := bind_eq_ok_iff.1 hl
  rw [if_neg hc] at hl
  obtain ⟨r, hr, hl⟩ := bind_eq_ok_iff.1 hl
  obtain rfl := Except.ok.inj hl
  have hbuilder : ∀ ident ∈ c.byKind.map Prod.fst, Plain s.runtimePath ident := by
    intro ident hident
    obtain ⟨e, he, rfl⟩ := List.mem_map.1 ((c.byKind_perm.map Prod.fst).mem_iff.1 hident)
    obtain ⟨node, field, hfield⟩ := hi e he
    exact plain_ident hfield
  have hidents := Catalog.idents_toReader hr
  have hreader : ∀ ident ∈ r.byKind.map Prod.fst, Plain s.runtimePath ident := fun ident hident =>
    hbuilder ident (hidents.mem_iff.1 hident)
  have hsome : c.byKind ≠ [] := fun hnil => hc (List.isEmpty_iff.2 (by
    have hperm := c.byKind_perm
    rwa [hnil, List.nil_perm] at hperm))
  have hsome' : r.byKind ≠ [] := fun hnil => hsome (by
    rw [hnil, List.map_nil, List.nil_perm] at hidents
    exact List.map_eq_nil_iff.1 hidents)
  simp only [blocks, List.flatten_cons, List.flatten_nil, List.append_nil, List.forall_mem_cons,
    List.forall_mem_append, List.not_mem_nil, false_imp_iff, implies_true, and_true]
  refine ⟨⟨List.cons_ne_nil _ _, bindings_ne_nil s hsome, List.cons_ne_nil _ _,
    bindings_ne_nil s hsome'⟩, ?_, visible_bindings s hbuilder, ?_, visible_bindings s hreader⟩
  · exact visible_messageLines .builder s (fun text h => by cases h) c.arena
  · exact visible_readerSetupLines s c.arena.totalSize r

theorem listingLines_eq {a : Agreement} (hl : ofCatalog s c = .ok l)
    (h : Agreement.verify s c = .ok a) : a.listingLines = l.lineCount := by
  unfold Agreement.verify at h
  obtain ⟨l', hl', h⟩ := bind_eq_ok_iff.1 h
  rw [hl] at hl'
  obtain rfl : l = l' := Except.ok.inj hl'
  obtain ⟨r, _, h⟩ := bind_eq_ok_iff.1 h
  simp only at h
  split at h
  · cases h
  obtain ⟨images, _, h⟩ := bind_eq_ok_iff.1 h
  obtain ⟨others, _, h⟩ := bind_eq_ok_iff.1 h
  obtain ⟨_, _, h⟩ := bind_eq_ok_iff.1 h
  split at h
  · cases h
  obtain ⟨_, _, h⟩ := bind_eq_ok_iff.1 h
  obtain ⟨_, _, h⟩ := bind_eq_ok_iff.1 h
  rw [← Except.ok.inj h]

end Render

/-- The text of a listing tells its blocks. The identifiers are those of fields and the path of the
runtime has no line breaks: then the lines of the text without its last break are the lines of the
listing and three blank ones, and these part the four blocks. A catalog without entries has an empty
text. -/
theorem render_reads_back :
    (∀ {s : Settings} {c : Catalog .builder} {l : Listing}, ¬ c.isEmpty = true →
      (∀ e ∈ c.entries, ∃ node field, Catalog.ident node field = .ok e.1) →
      '\n' ∉ s.runtimePath.toList → ofCatalog s c = .ok l →
      (∀ line ∈ l.blocks.flatten, line ≠ "" ∧ '\n' ∉ line.toList) ∧
      (∀ block ∈ l.blocks, block ≠ []) ∧
      ∃ text, l.render = text ++ "\n" ∧
        paragraphs text = [l.builderMessage, l.builderBindings, l.readerSetup, l.readerBindings] ∧
        (textLines text).length = l.lineCount + 3 ∧
        ∀ a, Agreement.verify s c = .ok a → (textLines text).length = a.listingLines + 3) ∧
    ∀ (s : Settings) (c : Catalog .builder), c.isEmpty = true → 5 ≤ s.wrapWidth →
      ∃ l, ofCatalog s c = .ok l ∧ l.render = "" := by
  constructor
  · intro s c l hc hi hpath hl
    obtain ⟨hblocks, hvisible⟩ := visible_ofCatalog hc hi hl
    have hlines : ∀ line ∈ l.blocks.flatten, line ≠ "" ∧ '\n' ∉ line.toList := fun line hm =>
      ⟨(hvisible line hm).ne_empty, fun hbreak =>
        ((hvisible line hm).plain '\n' hbreak).elim (by decide) hpath⟩
    have hne : l.blocks ≠ [] := List.cons_ne_nil _ _
    obtain ⟨htext, hparagraphs⟩ := paragraphs_intercalate hne hblocks hlines
    have hcount : ([""].intercalate l.blocks).length = l.lineCount + 3 := by
      simp only [lineCount, blocks, List.intercalate_cons_cons, List.intercalate_singleton,
        List.length_append, List.length_singleton, List.foldr_cons, List.foldr_nil]
      omega
    rw [← htext] at hcount
    exact ⟨hlines, hblocks, _, render_eq hblocks, hparagraphs, hcount,
      fun a ha => (listingLines_eq hl ha).symm ▸ hcount⟩
  · intro s c hc hw
    exact ⟨empty, ofCatalog_of_isEmpty hc hw, rfl⟩

/-- A catalog with one field, in narrow lines. -/
theorem render_reads_back_sample :
    let s : Settings := ⟨"rt", 5, 8, 64⟩
    let c := ((Catalog.new .builder 8 64).add "default_value_1_p" Arena.sample
      (.pointer ⟨0, 0, 8⟩)).2
    Catalog.ident 1 "p" = .ok "default_value_1_p" ∧
    (∃ l a text, ofCatalog s c = .ok l ∧ Agreement.verify s c = .ok a ∧ l.render = text ++ "\n" ∧
      paragraphs text = [l.builderMessage, l.builderBindings, l.readerSetup, l.readerBindings] ∧
      (textLines text).length = a.listingLines + 3) ∧
    ∃ l, ofCatalog s (.new .builder 8 64) = .ok l ∧ l.render = "" := by
  intro s c
  have hident : Catalog.ident 1 "p" = .ok "default_value_1_p" := by decide +kernel
  have hentries : c.entries.map Prod.fst = ["default_value_1_p"] := by decide +kernel
  have hfields : ∀ e ∈ c.entries, ∃ node field, Catalog.ident node field = .ok e.1 := by
    intro e he
    have hfirst := List.mem_map_of_mem (f := Prod.fst) he
    rw [hentries, List.mem_singleton] at hfirst
    exact ⟨1, "p", hfirst ▸ hident⟩
  have hfilled : s.newCatalog.Filled c := .add .start _ _ _
  have hsize : c.arena.totalSize < 2 ^ 32 := by decide +kernel
  obtain ⟨a, ha, _⟩ := Agreement.verify_ok hfilled hsize rfl
  obtain ⟨table, hsealed⟩ := hfilled.exists_sealed (Catalog.sealed_new _ _ _)
  obtain ⟨l, hl⟩ := Agreement.exists_listing hsealed hsize (rfl : s.validate = .ok ())
  obtain ⟨_, _, text, hrender, hparagraphs, _, hlines⟩ :=
    render_reads_back.1 (by decide +kernel) hfields (by decide +kernel) hl
  refine ⟨hident, ⟨l, a, text, hl, ha, hrender, hparagraphs, hlines a ha⟩, ?_⟩
  exact render_reads_back.2 s (.new .builder 8 64) rfl (by decide)

end Listing

end FrozenDefaults
