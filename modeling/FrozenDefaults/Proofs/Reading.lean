import FrozenDefaults.Proofs.Lexing
import FrozenDefaults.Proofs.Literals
import FrozenDefaults.Proofs.Memory

/-!
# Segments read back

The segments of an arena are read from the block that holds its literals, together
with the length that is declared for their array.
-/

namespace FrozenDefaults

namespace Reading

open Listing (messageLines indented literals)

def isSegmentsLine (line : String) : Bool := "  let segments".toList.isPrefixOf line.toList

/-- The lines between the one that opens the array of segments and the one that closes it. -/
def literalLines (block : List String) : List String :=
  ((block.dropWhile (! isSegmentsLine ·)).drop 1).takeWhile (· != "  ];")

def opens (line : String) : Bool := Literal.opening.isPrefixOf (Text.trimStart line.toList)

/-- Puts a line in front of the first group, unless that has a line that opens a literal. -/
def attach (line : String) : List (List String) → List (List String)
  | [] => [[line]]
  | group :: groups =>
    if group.head?.any opens then [line] :: group :: groups else (line :: group) :: groups

/-- The lines in groups, each of which begins with a line that opens a literal. -/
def grouped (lines : List String) : List (List String) := lines.foldr attach []

/-- The length in the declaration of the array of segments. -/
def arrayLength? (block : List String) : Option Nat := do
  let line ← block.find? isSegmentsLine
  let (n, _) ← number? (← after? "  let segments: [&[u8]; " line.toList)
  return n

/-- The segments whose literals stand in a block. -/
def segments? (block : List String) : Option (List (List UInt8)) :=
  (grouped (literalLines block)).mapM fun group =>
    Literal.decode? (Literal.content (group.map String.toList))

theorem attach_cases (line : String) (gs : List (List String)) :
    ∃ more rest, attach line gs = (line :: more) :: rest := by
  cases gs with
  | nil => exact ⟨[], [], rfl⟩
  | cons group gs =>
    rw [attach]
    split
    · exact ⟨[], group :: gs, rfl⟩
    · exact ⟨group, gs, rfl⟩

/-- A line, lines that open no literal, and what begins with a line that does. -/
theorem grouped_append {first : String} {inner rest : List String}
    (hinner : ∀ line ∈ inner, opens line = false) (hrest : ∀ line ∈ rest.head?, opens line = true) :
    grouped (first :: inner ++ rest) = (first :: inner) :: grouped rest := by
  induction inner generalizing first with
  | nil =>
    cases rest with
    | nil => rfl
    | cons next rest =>
      obtain ⟨more, gs, hg⟩ := attach_cases next (grouped rest)
      have hnext : grouped (next :: rest) = (next :: more) :: gs := hg
      have hopens : opens next = true := hrest next rfl
      have hgroup : grouped (first :: next :: rest) = attach first (grouped (next :: rest)) := rfl
      rw [List.cons_append, List.nil_append, hgroup, hnext, attach, List.head?_cons,
        Option.any_some, if_pos hopens]
  | cons next inner ih =>
    have hnext : grouped (next :: inner ++ rest) = (next :: inner) :: grouped rest :=
      ih fun line hl => hinner line (List.mem_cons_of_mem next hl)
    have hopens : opens next = false := hinner next List.mem_cons_self
    have hgroup : grouped (first :: next :: inner ++ rest) =
        attach first (grouped (next :: inner ++ rest)) := rfl
    rw [hgroup, hnext, attach, List.head?_cons, Option.any_some, hopens]
    exact if_neg Bool.false_ne_true

section Segment

variable (width : Nat) (bs : List UInt8)

theorem toList_indent (n : Nat) (cs : List Char) (pad : String)
    (hp : pad.toList = List.replicate n ' ') :
    (pad ++ String.ofList cs).toList = List.replicate n ' ' ++ cs := by
  rw [String.toList_append, String.toList_ofList, hp]

theorem indented_cases : ∃ first rest, indented (Literal.lines width bs) = first :: rest ∧
    opens first = true ∧ (∀ line ∈ rest, opens line = false) ∧
    (∀ line ∈ first :: rest, line ≠ "  ];") ∧
    ((first :: rest).map String.toList).map Text.trimStart = Literal.lines width bs := by
  obtain ⟨first, rest, hl, _, hrest⟩ := Literal.lines_cases width bs
  have hopening : Text.Flush (Literal.opening ++ first) := rfl
  have hfirst := Text.trimStart_indent hopening 4
  have hinner (line : List Char) (h : line ∈ rest) := Text.trimStart_indent (hrest line h).flush 6
  rw [hl]
  refine ⟨_, _, rfl, ?_, ?_, ?_, ?_⟩
  · rw [opens, toList_indent 4 _ _ rfl, hfirst]
    rfl
  · intro line hline
    obtain ⟨inner, hm, rfl⟩ := List.mem_map.1 hline
    rw [opens, toList_indent 6 _ _ rfl, hinner inner hm]
    have hi := hrest inner hm
    cases inner with
    | nil => exact hi.elim
    | cons c cs => rcases hi with rfl | rfl <;> rfl
  · intro line hline heq
    rcases List.mem_cons.1 hline with rfl | hline
    · have h := congrArg String.toList heq
      rw [toList_indent 4 _ _ rfl] at h
      cases h
    · obtain ⟨inner, _, rfl⟩ := List.mem_map.1 hline
      have h := congrArg String.toList heq
      rw [toList_indent 6 _ _ rfl] at h
      cases h
  · rw [List.map_cons, List.map_cons, toList_indent 4 _ _ rfl, hfirst, List.map_map, List.map_map]
    congr 1
    refine (List.map_congr_left fun line hm => ?_).trans (List.map_id rest)
    rw [Function.comp_apply, Function.comp_apply, toList_indent 6 _ _ rfl, hinner line hm]
    rfl

theorem decode?_indented : Literal.decode? (Literal.content
    ((indented (Literal.lines width bs)).map String.toList)) = some bs := by
  obtain ⟨first, rest, hl, _, _, _, htrim⟩ := indented_cases width bs
  rw [hl, Literal.content_of_trimStart htrim, Literal.decode?_encode]

end Segment

theorem grouped_literals (width : Nat) (segments : List (List UInt8)) :
    grouped ((segments.map (Literal.lines width)).flatMap indented) =
      segments.map fun bs => indented (Literal.lines width bs) := by
  induction segments with
  | nil => rfl
  | cons bs segments ih =>
    obtain ⟨first, rest, hl, _, hinner, _⟩ := indented_cases width bs
    rw [List.map_cons, List.flatMap_cons, hl, grouped_append hinner, ih, List.map_cons, hl]
    intro line hline
    cases segments with
    | nil => cases hline
    | cons next segments =>
      obtain ⟨first', rest', hl', hopens, _⟩ := indented_cases width next
      rw [List.map_cons, List.flatMap_cons, hl', List.cons_append, List.head?_cons] at hline
      obtain rfl := Option.some.inj hline
      exact hopens

theorem mapM_decode? (width : Nat) (segments : List (List UInt8)) :
    (segments.map fun bs => indented (Literal.lines width bs)).mapM (fun group =>
      Literal.decode? (Literal.content (group.map String.toList))) = some segments := by
  induction segments with
  | nil => rfl
  | cons bs segments ih =>
    rw [List.map_cons, List.mapM_cons, decode?_indented, ih]
    rfl

theorem literalLines_eq {before body rest : List String} {mark : String}
    (hbefore : ∀ line ∈ before, isSegmentsLine line = false) (hmark : isSegmentsLine mark = true)
    (hbody : ∀ line ∈ body, line ≠ "  ];") :
    literalLines (before ++ mark :: (body ++ "  ];" :: rest)) = body := by
  rw [literalLines, List.dropWhile_append_of_pos (fun line hl => by simp [hbefore line hl]),
    List.dropWhile_cons_of_neg (by simp [hmark]), List.drop_one, List.tail_cons,
    List.takeWhile_append_of_pos (fun line hl => by simpa using hbody line hl),
    List.takeWhile_cons_of_neg (by simp), List.append_nil]

theorem toList_segmentsLine (n : Nat) : (s!"  let segments: [&[u8]; {n}] = [").toList =
    "  let segments: [&[u8]; ".toList ++ (n.repr.toList ++ ("] = [".toList ++ [])) := by
  simp only [String.toList_append, List.append_assoc, List.append_nil]
  rfl

theorem isSegmentsLine_segmentsLine (n : Nat) :
    isSegmentsLine s!"  let segments: [&[u8]; {n}] = [" = true := by
  rw [isSegmentsLine, toList_segmentsLine]
  rfl

theorem arrayLength?_eq {before rest : List String} {n : Nat}
    (hbefore : ∀ line ∈ before, isSegmentsLine line = false) :
    arrayLength? (before ++ s!"  let segments: [&[u8]; {n}] = [" :: rest) = some n := by
  have hnone : before.find? isSegmentsLine = none :=
    List.find?_eq_none.2 fun line hl => by simp [hbefore line hl]
  have hn := number?_append n "] = [" (by decide) []
  simp only [arrayLength?, List.find?_append, hnone, Option.none_or,
    List.find?_cons_of_pos (isSegmentsLine_segmentsLine n), toList_segmentsLine, after?_append, hn,
    Option.bind_eq_bind, Option.bind_some, Option.pure_def]

theorem isSegmentsLine_eq_false {line : String}
    (h : line.toList.head?.all (· != ' ') = true) : isSegmentsLine line = false :=
  isPrefixOf_eq_false rfl h

theorem read_literals {before rest : List String}
    (hbefore : ∀ line ∈ before, isSegmentsLine line = false) (width : Nat)
    (segments : List (List UInt8)) {block : List String} (hblock : block =
      before ++ s!"  let segments: [&[u8]; {segments.length}] = [" ::
        ((segments.map (Literal.lines width)).flatMap indented ++ "  ];" :: rest)) :
    arrayLength? block = some segments.length ∧
      (grouped (literalLines block)).length = segments.length ∧
      segments? block = some segments := by
  have hbody : ∀ line ∈ (segments.map (Literal.lines width)).flatMap indented, line ≠ "  ];" := by
    intro line hline
    obtain ⟨ls, hls, hline⟩ := List.mem_flatMap.1 hline
    obtain ⟨bs, _, rfl⟩ := List.mem_map.1 hls
    obtain ⟨first, inner, hl, _, _, hclose, _⟩ := indented_cases width bs
    rw [hl] at hline
    exact hclose line hline
  have hlines : literalLines block = (segments.map (Literal.lines width)).flatMap indented := by
    rw [hblock]
    exact literalLines_eq hbefore (isSegmentsLine_segmentsLine _) hbody
  refine ⟨?_, ?_, ?_⟩
  · rw [hblock]
    exact arrayLength?_eq hbefore
  · rw [hlines, grouped_literals, List.length_map]
  · rw [segments?, hlines, grouped_literals]
    exact mapM_decode? width segments

/-- The arena of a world is read back from its message, whatever stands before that. -/
theorem read_messageLines {before : List String}
    (hbefore : ∀ line ∈ before, isSegmentsLine line = false) (world : World) (s : Settings)
    (capacity : Option String) (a : Arena) {block : List String}
    (hblock : block = before ++ messageLines world s capacity a) :
    arrayLength? block = some a.segmentCount ∧
      (grouped (literalLines block)).length = a.segmentCount ∧
      segments? block = some a.toSegments := by
  have hcount := a.length_toSegments
  have hhead : ∀ line ∈ (messageLines world s capacity a).take 2, isSegmentsLine line = false := by
    intro line hl
    apply isSegmentsLine_eq_false
    rcases List.mem_cons.1 hl with rfl | hl
    · simp only [String.toList_append, List.append_assoc]
      rfl
    · obtain rfl := List.mem_singleton.1 hl
      simp only [String.toList_append, List.append_assoc]
      rfl
  obtain ⟨rest, hrest⟩ : ∃ rest, (messageLines world s capacity a).drop 2 =
      s!"  let segments: [&[u8]; {a.segmentCount}] = [" ::
        ((a.toSegments.map (Literal.lines s.wrapWidth)).flatMap indented ++ "  ];" :: rest) :=
    ⟨_, rfl⟩
  have hall : ∀ line ∈ before ++ (messageLines world s capacity a).take 2,
      isSegmentsLine line = false := by
    intro line hl
    rcases List.mem_append.1 hl with hl | hl
    · exact hbefore line hl
    · exact hhead line hl
  rw [← hcount] at hrest ⊢
  apply read_literals hall
  rw [hblock, List.append_assoc, ← hrest, List.take_append_drop]

end Reading

end FrozenDefaults
