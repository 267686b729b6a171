import FrozenDefaults.Listing

/-!
# Descriptors read back

A descriptor is read from the lines it is printed in: its kind from the first
line, its numbers from behind their marks.
-/

namespace FrozenDefaults

namespace Reading

open Listing (spanText layoutText descriptorLines)

/-- What follows a mark at the front of a text. -/
def after? (mark : String) (cs : List Char) : Option (List Char) :=
  if mark.toList.isPrefixOf cs then some (cs.drop mark.toList.length) else none

/-- The decimal number at the front of a text, and what follows it. -/
def number? (cs : List Char) : Option (Nat × List Char) :=
  if cs.takeWhile Char.isDigit = [] then none
  else some (Nat.ofDigitChars 10 (cs.takeWhile Char.isDigit) 0, cs.dropWhile Char.isDigit)

def span? (rt : String) (cs : List Char) : Option (Span × List Char) := do
  let (segment, cs) ← number? (← after? (rt ++ "::Slice::new(") cs)
  let (start, cs) ← number? (← after? ", " cs)
  let (length, cs) ← number? (← after? ", " cs)
  return (⟨segment, start, length⟩, ← after? ")" cs)

def bareLayouts : List ElementLayout :=
  [.empty, .bit, .bytes1, .bytes2, .bytes4, .bytes8, .pointer]

def composite? (cs : List Char) : Option ElementLayout := do
  let (d, cs) ← number? (← after? "Composite \x7b data_words: " cs)
  let (p, cs) ← number? (← after? ", pointer_words: " cs)
  if cs = " \x7d,".toList then some (.composite (UInt16.ofNat d) (UInt16.ofNat p)) else none

/-- A layout at the end of a line. Only a composite one has more than its name. -/
def layout? (rt : String) (cs : List Char) : Option ElementLayout := do
  let cs ← after? (rt ++ "::ListStorageType::") cs
  match bareLayouts.find? fun l => l.name.toList ++ [','] == cs with
  | some l => some l
  | none => composite? cs

/-- A line with a span behind the given mark. -/
def spanLine? (rt mark line : String) : Option Span := do
  let (s, cs) ← span? rt (← after? mark line.toList)
  if cs = [','] then some s else none

def countLine? (mark line : String) : Option UInt32 := do
  let (n, cs) ← number? (← after? mark line.toList)
  if cs = [','] then some (UInt32.ofNat n) else none

def struct? (rt : String) : List String → Option Descriptor
  | first :: data :: pointers :: _ => do
    let _ ← after? (s!"  {rt}::StructStorage \x7b") first.toList
    return .struct ⟨← spanLine? rt "    data: " data, ← spanLine? rt "    pointers: " pointers⟩
  | _ => none

def list? (rt : String) : List String → Option Descriptor
  | first :: elements :: layout :: count :: _ => do
    let _ ← after? (s!"  {rt}::ListStorage \x7b") first.toList
    let layout ← layout? rt (← after? "    storage_type: " layout.toList)
    return .list ⟨← spanLine? rt "    storage: " elements, layout,
      ← countLine? "    num_elements: " count⟩
  | _ => none

def pointer? (rt : String) : List String → Option Descriptor
  | line :: _ => .pointer <$> spanLine? rt "  " line
  | _ => none

/-- The descriptor that is printed at the front of the lines. -/
def descriptor? (rt : String) (lines : List String) : Option Descriptor :=
  (struct? rt lines).or ((list? rt lines).or (pointer? rt lines))

theorem isPrefixOf_eq_false {c : Char} {mark cs : List Char} (hm : mark.head? = some c)
    (h : cs.head?.all (· != c) = true) : mark.isPrefixOf cs = false := by
  obtain ⟨mark, rfl⟩ := List.head?_eq_some_iff.1 hm
  cases cs with
  | nil => rfl
  | cons d ds =>
    have hne : (c == d) = false := beq_eq_false_iff_ne.2 fun he => by simp [he] at h
    rw [List.isPrefixOf, hne, Bool.false_and]

theorem after?_append (mark : String) (cs : List Char) :
    after? mark (mark.toList ++ cs) = some cs := by
  rw [after?, if_pos (List.isPrefixOf_iff_prefix.2 (List.prefix_append mark.toList cs)),
    List.drop_left]

theorem after?_eq_none {mark : String} {cs : List Char} (h : ∀ rest, mark.toList ++ rest ≠ cs) :
    after? mark cs = none := by
  rw [after?, if_neg]
  intro hp
  obtain ⟨rest, hr⟩ := List.isPrefixOf_iff_prefix.1 hp
  exact h rest hr

/-- A number is read back in front of a mark that does not begin with a digit. -/
theorem number?_append (n : Nat) (mark : String) (hm : mark.toList.head?.any (! ·.isDigit) = true)
    (cs : List Char) :
    number? (n.repr.toList ++ (mark.toList ++ cs)) = some (n, mark.toList ++ cs) := by
  have hdigit : ∀ d ∈ Nat.toDigits 10 n, d.isDigit = true := fun d hd =>
    Nat.isDigit_of_mem_toDigits (by omega) (by omega) hd
  obtain ⟨c, rest, hrest, hc⟩ : ∃ c rest, mark.toList ++ cs = c :: rest ∧ ¬ c.isDigit = true := by
    cases hl : mark.toList with
    | nil =>
      rw [hl] at hm
      cases hm
    | cons c rest =>
      rw [hl] at hm
      exact ⟨c, rest ++ cs, rfl, by simpa using hm⟩
  rw [number?, hrest, Nat.toList_repr, List.takeWhile_append_of_pos hdigit,
    List.dropWhile_append_of_pos hdigit, List.takeWhile_cons_of_neg hc,
    List.dropWhile_cons_of_neg hc, List.append_nil, if_neg Nat.toDigits_ne_nil,
    Nat.ofDigitChars_ten_toDigits]

variable (rt : String)

theorem toList_spanText (s : Span) : (spanText rt s).toList =
    (rt ++ "::Slice::new(").toList ++ (s.segment.repr.toList ++ (", ".toList ++
      (s.start.repr.toList ++ (", ".toList ++ (s.length.repr.toList ++ ")".toList))))) := by
  simp only [spanText, String.toList_append, List.append_assoc, Nat.toString_eq_repr]
  rfl

theorem span?_spanText (s : Span) (cs : List Char) :
    span? rt ((spanText rt s).toList ++ cs) = some (s, cs) := by
  have comma (n : Nat) := number?_append n ", " (by decide)
  have close := number?_append s.length ")" (by decide)
  simp only [toList_spanText, List.append_assoc, span?, after?_append, comma, close,
    Option.bind_eq_bind, Option.bind_some, Option.pure_def]

theorem spanLine?_eq (mark : String) (s : Span) :
    spanLine? rt mark (mark ++ spanText rt s ++ ",") = some s := by
  have hline : (mark ++ spanText rt s ++ ",").toList =
      mark.toList ++ ((spanText rt s).toList ++ [',']) := by
    simp only [String.toList_append, List.append_assoc]
    rfl
  simp only [spanLine?, hline, after?_append, span?_spanText, Option.bind_eq_bind,
    Option.bind_some, if_true]

theorem countLine?_eq (mark : String) (n : UInt32) :
    countLine? mark (mark ++ n.toNat.repr ++ ",") = some n := by
  have hline : (mark ++ n.toNat.repr ++ ",").toList =
      mark.toList ++ (n.toNat.repr.toList ++ (",".toList ++ [])) := by
    simp only [String.toList_append, List.append_assoc, List.append_nil]
  have hcount := number?_append n.toNat "," (by decide) []
  simp only [countLine?, hline, after?_append, hcount, Option.bind_eq_bind, Option.bind_some,
    UInt32.ofNat_toNat]
  rfl

theorem layout?_layoutText (l : ElementLayout) :
    layout? rt ((layoutText rt l).toList ++ [',']) = some l := by
  have hmark (name : String) : (s!"{rt}::ListStorageType::{name}" ++ "").toList ++ [','] =
      (rt ++ "::ListStorageType::").toList ++ (name.toList ++ [',']) := by
    simp only [String.toList_append, List.append_assoc]
    rfl
  cases l with
  | composite d p =>
    have hline : (layoutText rt (.composite d p)).toList ++ [','] =
        (rt ++ "::ListStorageType::").toList ++ ("Composite \x7b data_words: ".toList ++
          (d.toNat.repr.toList ++ (", pointer_words: ".toList ++
            (p.toNat.repr.toList ++ (" \x7d,".toList ++ []))))) := by
      have hopen : "Composite \x7b data_words: ".toList =
          "Composite".toList ++ " \x7b data_words: ".toList := rfl
      have hclose : " \x7d,".toList = " \x7d".toList ++ [','] := rfl
      simp only [layoutText, ElementLayout.name, String.toList_append, List.append_assoc, hopen,
        hclose, Nat.toString_eq_repr, List.append_nil]
      rfl
    have hbare (cs : List Char) : (bareLayouts.find? fun l =>
        l.name.toList ++ [','] == "Composite \x7b data_words: ".toList ++ cs) = none := rfl
    have hd := number?_append d.toNat ", pointer_words: " (by decide)
    have hp := number?_append p.toNat " \x7d," (by decide) []
    simp only [hline, layout?, after?_append, hbare, composite?, hd, hp, Option.bind_eq_bind,
      Option.bind_some, UInt16.ofNat_toNat]
    rfl
  | _ =>
    simp only [layoutText, hmark, layout?, after?_append, Option.bind_eq_bind, Option.bind_some]
    rfl

theorem after?_self (mark : String) : after? mark mark.toList = some [] := by
  have h := after?_append mark []
  rwa [List.append_nil] at h

theorem after?_runtime_eq_none {mark : String} {line text : List Char}
    (hl : line = "  ".toList ++ (rt.toList ++ text)) (h : ∀ rest, mark.toList ++ rest ≠ text) :
    after? (s!"  {rt}{mark}") line = none := by
  apply after?_eq_none
  intro rest heq
  rw [hl] at heq
  simp only [String.toList_append, List.append_assoc] at heq
  exact h rest (List.append_cancel_left (List.append_cancel_left heq))

theorem struct?_eq_none {first : String} (rest : List String)
    (h : after? (s!"  {rt}::StructStorage \x7b") first.toList = none) :
    struct? rt (first :: rest) = none := by
  rcases rest with _ | ⟨_, _ | ⟨_, _⟩⟩
  · rfl
  · rfl
  · simp only [struct?, h, Option.bind_eq_bind, Option.bind_none]

theorem list?_eq_none {first : String} (rest : List String)
    (h : after? (s!"  {rt}::ListStorage \x7b") first.toList = none) :
    list? rt (first :: rest) = none := by
  rcases rest with _ | ⟨_, _ | ⟨_, _ | ⟨_, _⟩⟩⟩
  · rfl
  · rfl
  · rfl
  · simp only [list?, h, Option.bind_eq_bind, Option.bind_none]

theorem struct?_descriptorLines (v : StructView) (rest : List String) :
    struct? rt (descriptorLines rt (.struct v) ++ rest) = some (.struct v) := by
  have hdata : spanLine? rt "    data: " s!"    data: {spanText rt v.data}," = some v.data :=
    spanLine?_eq rt _ _
  have hpointers : spanLine? rt "    pointers: " s!"    pointers: {spanText rt v.pointers}," =
      some v.pointers := spanLine?_eq rt _ _
  simp only [descriptorLines, List.cons_append, struct?, after?_self, hdata, hpointers,
    Option.bind_eq_bind, Option.bind_some, Option.pure_def]

theorem list?_descriptorLines (v : ListView) (rest : List String) :
    list? rt (descriptorLines rt (.list v) ++ rest) = some (.list v) := by
  have helements : spanLine? rt "    storage: " s!"    storage: {spanText rt v.elements}," =
      some v.elements := spanLine?_eq rt _ _
  have hcount : countLine? "    num_elements: " s!"    num_elements: {v.count}," = some v.count :=
    countLine?_eq _ _
  have hlayout : after? "    storage_type: "
      s!"    storage_type: {layoutText rt v.layout},".toList =
      some ((layoutText rt v.layout).toList ++ [',']) := by
    rw [← after?_append "    storage_type: "]
    simp only [String.toList_append, List.append_assoc]
    rfl
  simp only [descriptorLines, List.cons_append, list?, after?_self, helements, hcount, hlayout,
    layout?_layoutText, Option.bind_eq_bind, Option.bind_some, Option.pure_def]

theorem pointer?_descriptorLines (s : Span) (rest : List String) :
    pointer? rt (descriptorLines rt (.pointer s) ++ rest) = some (.pointer s) := by
  have hslot : spanLine? rt "  " s!"  {spanText rt s}," = some s := spanLine?_eq rt _ _
  simp only [descriptorLines, List.cons_append, pointer?, hslot]
  rfl

theorem descriptor?_descriptorLines (d : Descriptor) (rest : List String) :
    descriptor? rt (descriptorLines rt d ++ rest) = some d := by
  unfold descriptor?
  cases d with
  | struct v => rw [struct?_descriptorLines, Option.some_or]
  | list v =>
    have hfirst : (s!"  {rt}::ListStorage \x7b").toList =
        "  ".toList ++ (rt.toList ++ "::ListStorage \x7b".toList) := by
      simp only [String.toList_append, List.append_assoc]
      rfl
    have hstruct : struct? rt (descriptorLines rt (.list v) ++ rest) = none :=
      struct?_eq_none rt _ (after?_runtime_eq_none rt hfirst fun rest h => by cases h)
    rw [hstruct, list?_descriptorLines, Option.none_or, Option.some_or]
  | pointer s =>
    obtain ⟨cs, hfirst⟩ : ∃ cs, ("  " ++ spanText rt s ++ ",").toList =
        "  ".toList ++ (rt.toList ++ ("::Slice::new(".toList ++ cs)) := by
      simp only [String.toList_append, toList_spanText, List.append_assoc]
      exact ⟨_, rfl⟩
    have hstruct : struct? rt (descriptorLines rt (.pointer s) ++ rest) = none :=
      struct?_eq_none rt _ (after?_runtime_eq_none rt hfirst fun rest h => by cases h)
    have hlist : list? rt (descriptorLines rt (.pointer s) ++ rest) = none :=
      list?_eq_none rt _ (after?_runtime_eq_none rt hfirst fun rest h => by cases h)
    rw [hstruct, hlist, pointer?_descriptorLines, Option.none_or, Option.none_or]

end Reading

end FrozenDefaults
