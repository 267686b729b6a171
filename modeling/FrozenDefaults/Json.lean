import FrozenDefaults.Json.Token

/-!
# JSON trees

A tree is built from tokens by a machine with a stack of open containers, so
that depth costs no recursion. Members of an object stay in order, repeated
keys included.
-/

namespace FrozenDefaults

inductive Json where
  | null
  | bool (b : Bool)
  | number (n : Json.Number)
  | string (s : Option String)
  | array (items : List Json)
  | object (members : List (Option String × Json))

namespace Json

/-- A container that is not closed yet. What it has so far stands in reverse. -/
inductive Frame where
  | items (done : List Json)
  | members (done : List (Option String × Json))
  | member (done : List (Option String × Json)) (key : Option String)

/-- What may come next. -/
inductive Mode where
  | value
  | firstItem
  | key
  | firstKey
  | keyColon (key : Option String)
  | after (j : Json)

structure State where
  mode : Mode
  stack : List Frame

def beginValue (stack : List Frame) : Token → Option State
  | .null => some ⟨.after .null, stack⟩
  | .bool b => some ⟨.after (.bool b), stack⟩
  | .number n => some ⟨.after (.number n), stack⟩
  | .string s => some ⟨.after (.string s), stack⟩
  | .openArray => some ⟨.firstItem, .items [] :: stack⟩
  | .openObject => some ⟨.firstKey, .members [] :: stack⟩
  | _ => none

def endValue (j : Json) : List Frame → Token → Option State
  | .items done :: stack, .comma => some ⟨.value, .items (j :: done) :: stack⟩
  | .items done :: stack, .closeArray => some ⟨.after (.array (j :: done).reverse), stack⟩
  | .member done k :: stack, .comma => some ⟨.key, .members ((k, j) :: done) :: stack⟩
  | .member done k :: stack, .closeObject =>
    some ⟨.after (.object ((k, j) :: done).reverse), stack⟩
  | _, _ => none

def step (s : State) (t : Token) : Option State :=
  match s.mode, s.stack, t with
  | .value, stack, t => beginValue stack t
  | .firstItem, .items [] :: stack, .closeArray => some ⟨.after (.array []), stack⟩
  | .firstItem, stack, t => beginValue stack t
  | .firstKey, .members [] :: stack, .closeObject => some ⟨.after (.object []), stack⟩
  | .firstKey, stack, .string k => some ⟨.keyColon k, stack⟩
  | .key, stack, .string k => some ⟨.keyColon k, stack⟩
  | .keyColon k, .members done :: stack, .colon => some ⟨.value, .member done k :: stack⟩
  | .after j, stack, t => endValue j stack t
  | _, _, _ => none

def run : State → List Token → Option State
  | s, [] => some s
  | s, t :: ts =>
    match step s t with
    | some s => run s ts
    | none => none

def ofTokens? (ts : List Token) : Option Json :=
  match run ⟨.value, []⟩ ts with
  | some ⟨.after j, []⟩ => some j
  | _ => none

def ofText? (s : String) : Option Json := do ofTokens? (← Token.ofText? s.toList)

mutual

def tokens : Json → List Token
  | null => [.null]
  | bool b => [.bool b]
  | number n => [.number n]
  | string s => [.string s]
  | array items => .openArray :: itemTokens items
  | object members => .openObject :: memberTokens members

def itemTokens : List Json → List Token
  | [] => [.closeArray]
  | [j] => j.tokens ++ [.closeArray]
  | j :: rest => j.tokens ++ .comma :: itemTokens rest

def memberTokens : List (Option String × Json) → List Token
  | [] => [.closeObject]
  | [(k, j)] => .string k :: .colon :: j.tokens ++ [.closeObject]
  | (k, j) :: rest => .string k :: .colon :: j.tokens ++ .comma :: memberTokens rest

end

/-- The text of a tree, without blanks. -/
def render (j : Json) : String := String.ofList (j.tokens.flatMap Token.text)

end Json

end FrozenDefaults
