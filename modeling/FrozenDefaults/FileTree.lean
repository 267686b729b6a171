/-!
# Paths and file trees

A tree of files below a working folder. Paths are relative to it; a folder exists
as soon as something lies in it.
-/

namespace FrozenDefaults

namespace Path

def split : List Char → List (List Char)
  | [] => [[]]
  | c :: cs =>
    if c == '/' then [] :: split cs
    else
      match split cs with
      | part :: parts => (c :: part) :: parts
      | [] => [[c]]

def join : List (List Char) → List Char
  | [] => []
  | [part] => part
  | part :: parts => part ++ '/' :: join parts

/-- Whether a part of a path leads nowhere. -/
def isIdle (part : List Char) : Bool := part.isEmpty || part == ['.']

/-- Drops idle parts from the end, given in reverse, but never the first part. -/
def dropIdle : List (List Char) → List (List Char)
  | [] => []
  | [part] => [part]
  | part :: parts => if isIdle part then dropIdle parts else part :: parts

/-- The path of the folder that a path lies in, which is empty for the working folder. -/
def parent? (path : String) : Option String :=
  match dropIdle (split path.toList).reverse with
  | [] => none
  | [part] => if part.isEmpty then none else some ""
  | _ :: parts =>
    match dropIdle parts with
    | [[]] => some "/"
    | parts => some (String.ofList (join parts.reverse))

def fileName (path : String) : List Char :=
  (dropIdle (split path.toList).reverse).headD []

/-- What stands behind the last point of the file's name, if something stands before it. -/
def extension? (path : String) : Option (List Char) :=
  let name := fileName path
  let (ending, before) := name.reverse.span (· != '.')
  if name == ['.', '.'] || before.length ≤ 1 then none else some ending.reverse

/-- Whether a file is named as JSON, in letters of either case. -/
def isJson (path : String) : Bool :=
  match extension? path with
  | some ending => ending.map Char.toLower == "json".toList
  | none => false

end Path

structure FileTree where
  files : List (List String × String)
  folders : List (List String)
  deriving DecidableEq

namespace FileTree

def empty : FileTree := ⟨[], []⟩

variable (t : FileTree)

def isFile (p : List String) : Bool := t.files.any (·.1 == p)

def isFolder (p : List String) : Bool :=
  p.isEmpty || t.folders.any (p.isPrefixOf ·) ||
    t.files.any fun (q, _) => p.isPrefixOf q && p != q

/-- The most octets of a path, and of a part of one. -/
def pathLimit : Nat := 4095

def partLimit : Nat := 255

/-- Whether a path can lead anywhere: it is not too long and holds no zero character. -/
def isUsable (path : String) : Bool := path.utf8ByteSize ≤ pathLimit && !path.toList.contains '\x00'

/-- The parts of a relative path. A slash at its end asks for a folder. -/
def parts? (path : String) : Option (List String) :=
  match Path.split path.toList with
  | [] :: _ => none
  | parts =>
    let parts := if parts.getLast?.any List.isEmpty then parts ++ [['.']] else parts
    if isUsable path then some ((parts.filter (!·.isEmpty)).map String.ofList) else none

def descend? (p : List String) (part : String) : Option (List String) :=
  if !t.isFolder p || partLimit < part.utf8ByteSize then none
  else if part == "." then some p
  else if part == ".." then (if p.isEmpty then none else some p.dropLast)
  else some (p ++ [part])

/-- Where a path leads. All but its last part have to be folders. -/
def locate? (path : String) : Option (List String) := do
  (← parts? path).foldlM t.descend? []

def read? (path : String) : Option String := do
  t.files.lookup (← t.locate? path)

def write? (path text : String) : Option FileTree := do
  let p ← t.locate? path
  if t.isFolder p then none
  else some { t with files := (p, text) :: t.files.filter (·.1 != p) }

def enterFolder? (s : FileTree × List String) (part : String) : Option (FileTree × List String) := do
  let (t, p) := s
  let p ← t.descend? p part
  if t.isFolder p then some (t, p)
  else if t.isFile p then none
  else some ({ t with folders := p :: t.folders }, p)

/-- Makes a folder and those on the way to it, as far as they are not there. -/
def makeFolders? (path : String) : Option FileTree := do
  let (t, _) ← (← parts? path).foldlM enterFolder? (t, [])
  return t

end FileTree

end FrozenDefaults
