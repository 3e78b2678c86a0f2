import Coupling.Json.Value
import Coupling.Project.Files

/-!
# Release manifests

What a release says of itself: its version and its long description, which are files of the project,
the packages below its source directory, and what it requires.
-/

namespace Coupling.Release

open Project (Files)

/-- The characters that end a line. -/
def lineEnds : List Nat := [0xa, 0xb, 0xc, 0xd, 0x1c, 0x1d, 0x1e, 0x85, 0x2028, 0x2029]

/-- The lines of a text whose breaks are single characters; a break at the end starts no line. -/
def linesOf : List Char → List (List Char)
  | [] => []
  | c :: cs =>
    if lineEnds.contains c.toNat then [] :: linesOf cs
    else
      match linesOf cs with
      | [] => [[c]]
      | l :: ls => (c :: l) :: ls

/-- Whether a directory is a package. -/
def isPackage (fs : Files) (place : List String) : Bool :=
  (fs.find? (place ++ ["__init__.py"])).isSome

/-- The packages below a directory, down to a depth: those that hold the mark of a package in every
directory on the way. -/
def packagesBelow (fs : Files) : Nat → List String → List String → List String
  | 0, _, _ => []
  | depth + 1, place, name =>
    (fs.names place).flatMap fun n =>
      if n.contains '.' || !isPackage fs (place ++ [n]) then []
      else ".".intercalate (name ++ [n]) :: packagesBelow fs depth (place ++ [n]) (name ++ [n])

/-- The packages of a project, in order. -/
def packages (fs : Files) : List String :=
  let depth := (fs.files.map fun f => f.1.length).foldl max 0
  (packagesBelow fs (depth + 1) ["src"] []).mergeSort fun a b => !(b < a)

/-- A release. -/
structure Manifest where
  version : String
  description : String
  packages : List String
  required : List String

namespace Manifest

/-- The manifest of the project in a directory. -/
def ofFiles (fs : Files) : Except Project.Fault Manifest := do
  let version ← fs.read "VERSION"
  let description ← fs.read "README.md"
  let required ← fs.read "requirements.txt"
  return ⟨version, description, Release.packages fs, (linesOf required.toList).map String.ofList⟩

/-- All that a manifest says. -/
def toJson (m : Manifest) : Json :=
  .obj [("name", .str "microfy"), ("version", .str m.version), ("author", .str "yinyao855"),
    ("author_email", .str "1311095683@qq.com"),
    ("description", .str "Automate Your Monolith to Microservices Migration"),
    ("long_description", .str m.description),
    ("long_description_content_type", .str "text/markdown"),
    ("url", .str "https://pypi.org/project/microfy/"), ("packages", .strings m.packages),
    ("package_dir", .obj [("", .str "src")]), ("include_package_data", .bool true),
      ("classifiers", .strings ["Programming Language :: Python :: 3",
        "License :: OSI Approved :: MIT License", "Operating System :: OS Independent"]),
    ("python_requires", .str ">=3.6"), ("install_requires", .strings m.required)]

/-- What is said of a release that succeeded. -/
def announcement (m : Manifest) : String := "Upload success , Current VERSION: " ++
    m.version ++ "\n"

/-- What is said of a release that failed. -/
def failure (f : Project.Fault) : String :=
  let cause := match f with
    | .isDirectory _ => "IsADirectoryError(21, 'Is a directory')"
    | .notDirectory _ => "NotADirectoryError(20, 'Not a directory')"
    | _ => "FileNotFoundError(2, 'No such file or directory')"
  "('Upload package error', " ++ cause ++ ")"

end Manifest

end Coupling.Release
