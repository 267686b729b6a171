import FrozenDefaults.Yaml.Event

/-!
# YAML documents

The tree of a document. An alias is kept as the number of its anchor. A name that
is given again gets a new number: as many as there are names so far; a number
that is given again stands for the later node.
-/

namespace FrozenDefaults

namespace Yaml

inductive Node where
  | alias (anchor : Nat)
  | scalar (tag : Option Tag) (text : String) (style : Style)
  | sequence (tag : Option Tag) (items : List Node)
  | mapping (tag : Option Tag) (pairs : List (Node × Node))

/-- An anchored node, with the number of anchors that began before it. -/
structure Anchored where
  number : Nat
  order : Nat
  node : Node

structure Document where
  root : Node
  anchored : List Anchored
  eventCount : Nat

/-- A collection that is not closed yet, newest nodes first. A mapping may wait for a value. -/
structure Frame where
  tag : Option Tag
  anchor : Option (Nat × Nat)
  isMapping : Bool
  key : Option Node
  pairs : List (Node × Node)
  items : List Node

structure Growth where
  root : Option Node
  frames : List Frame
  names : List (String × Nat)
  begun : Nat
  anchored : List Anchored

namespace Growth

def start : Growth := ⟨none, [], [], 0, []⟩

variable (g : Growth)

/-- Gives a number to an anchor that begins here. -/
def begin (anchor : Option String) : Growth × Option (Nat × Nat) :=
  match anchor with
  | none => (g, none)
  | some name =>
    let number := g.names.length
    let names := (name, number) :: g.names.filter (·.1 != name)
    ({ g with names, begun := g.begun + 1 }, some (number, g.begun))

def remember (anchor : Option (Nat × Nat)) (n : Node) : Growth :=
  match anchor with
  | none => g
  | some (number, order) => { g with anchored := ⟨number, order, n⟩ :: g.anchored }

/-- Adds a node to the innermost open collection. -/
def add (n : Node) : Growth :=
  match g.frames with
  | [] => { g with root := some n }
  | f :: frames =>
    let f :=
      if f.isMapping then
        match f.key with
        | none => { f with key := some n }
        | some k => { f with key := none, pairs := (k, n) :: f.pairs }
      else { f with items := n :: f.items }
    { g with frames := f :: frames }

def openFrame (props : Properties) (isMapping : Bool) : Growth :=
  let (g, anchor) := g.begin props.anchor
  { g with frames := ⟨props.tag, anchor, isMapping, none, [], []⟩ :: g.frames }

def closeFrame? : Option Growth :=
  match g.frames with
  | [] => none
  | f :: frames =>
    let n :=
      if f.isMapping then .mapping f.tag f.pairs.reverse else .sequence f.tag f.items.reverse
    some (({ g with frames }.remember f.anchor n).add n)

def step? : Event → Option Growth
  | .alias name => do return g.add (.alias (← g.names.lookup name))
  | .scalar props text style =>
    let (g, anchor) := g.begin props.anchor
    let n := .scalar props.tag text style
    some ((g.remember anchor n).add n)
  | .openSequence props => some (g.openFrame props false)
  | .openMapping props => some (g.openFrame props true)
  | .closeSequence | .closeMapping => g.closeFrame?

end Growth

namespace Document

def ofEvents? (events : List Event) : Option Document := do
  let g ← events.foldlM Growth.step? .start
  return ⟨← g.root, g.anchored, events.length⟩

def ofText? (s : String) : Option Document := do
  ofEvents? (← Event.ofTokens? (← Token.ofText? s))

/-- Of two nodes with one number, the one that began later. -/
def later (a : Anchored) : Option Anchored → Option Anchored
  | none => some a
  | some b => if a.order < b.order then some b else some a

def anchoredNode? (d : Document) (number : Nat) : Option Node :=
  ((d.anchored.filter (·.number == number)).foldr later none).map (·.node)

end Document

end Yaml

end FrozenDefaults
