import Coupling.Project.Fault
import Coupling.Table
import Coupling.Text.Blank

/-!
# Files

A directory of files, each with its text or its bytes. A path leads from the directory through the
directories it names; empty parts and dots in it stand for the place where they are. Reading a file
gives its text with every line break written as a line feed.
-/

namespace Coupling.Project

/-- What is in a file. -/
inductive Content where
  | text (s : String)
  | bytes (b : ByteArray)

/-- The files below a directory, under their paths. -/
structure Files where
  files : List (List String × Content)

/-- The parts of a path. -/
def partsOf (path : String) : List String :=
  (Text.splitWhere (· == '/') path.toList).map String.ofList

/-- The parts of a path that lead somewhere. -/
def stepsOf (path : String) : List String := (partsOf path).filter fun p => p != "" && p != "."

/-- Every line break as a line feed. -/
def unifyBreaks : List Char → List Char
  | [] => []
  | '\r' :: '\n' :: cs => '\n' :: unifyBreaks cs
  | '\r' :: cs => '\n' :: unifyBreaks cs
  | c :: cs => c :: unifyBreaks cs

/-- The text of a file. -/
def Content.read : Content → Except Fault String
  | .text s => .ok (String.ofList (unifyBreaks s.toList))
  | .bytes b =>
    match String.fromUTF8? b with
    | some s => .ok (String.ofList (unifyBreaks s.toList))
    | none => .error .undecodable

namespace Files

/-- The files of a list, of which the last under a path counts. -/
def ofList (files : List (String × Content)) : Files :=
  ⟨(Table.ofList (files.map fun f => ("/".intercalate (stepsOf f.1), f.2))).entries.map fun f =>
    (partsOf f.1, f.2)⟩

/-- The file at a place. -/
def find? (fs : Files) (place : List String) : Option Content :=
  (fs.files.find? fun f => f.1 == place).map (·.2)

/-- Whether a place is a directory. -/
def isDirectory (fs : Files) (place : List String) : Bool :=
  place.isEmpty || fs.files.any fun f => place.isPrefixOf f.1 && place != f.1

/-- Where a path leads from a place. -/
def follow (fs : Files) (path : String) : List String → List String → Except Fault (List String)
  | place, [] => .ok place
  | place, p :: ps =>
    if !fs.isDirectory place then
      .error (if (fs.find? place).isSome then .notDirectory path else .noFile path)
    else if p == "" || p == "." then fs.follow path place ps
    else if p == ".." then fs.follow path place.dropLast ps
    else fs.follow path (place ++ [p]) ps

/-- The text of the file that a path leads to. -/
def read (fs : Files) (path : String) : Except Fault String := do
  if path.isEmpty || path.startsWith "/" then .error (.noFile path)
  else
    let place ← fs.follow path [] (partsOf path)
    match fs.find? place with
    | some c => c.read
    | none => .error (if fs.isDirectory place then .isDirectory path else .noFile path)

/-- The names in a directory, each once and in order. -/
def names (fs : Files) (place : List String) : List String :=
  let found := fs.files.filterMap fun f => if place.isPrefixOf f.1 then f.1[place.length]? else none
  found.eraseDups.mergeSort fun a b => !(b < a)

/-- A name in the directory at a path. -/
def join (path name : String) : String := if path.endsWith "/" then path ++ name
    else path ++ "/" ++ name

/-- The paths of the files whose name ends in `ending`, those of a directory before those of the
directories in it. -/
def walk (fs : Files) (ending : String) : Nat → List String → String → List String
  | 0, _, _ => []
  | depth + 1, place, path =>
    let (dirs, plain) := (fs.names place).partition fun n => fs.isDirectory (place ++ [n])
    (plain.filter (·.endsWith ending)).map (join path) ++
      dirs.flatMap fun n => fs.walk ending depth (place ++ [n]) (join path n)

/-- The depth of the deepest file. -/
def depth (fs : Files) : Nat := (fs.files.map (·.1.length)).foldl max 0

/-- The Java files below a path; there are none below a path that leads to no directory. -/
def javaFiles (fs : Files) (path : String) : List String :=
  if path.isEmpty || path.startsWith "/" then []
  else match fs.follow path [] (partsOf path) with
    | .ok place => if fs.isDirectory place then fs.walk ".java" (fs.depth + 1) place path else []
    | .error _ => []

end Files

end Coupling.Project
