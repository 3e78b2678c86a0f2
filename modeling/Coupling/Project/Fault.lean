import Coupling.Text.Quoted

/-!
# Faults

Why the analysis of a file or a question to its results fails, and the words it fails with.
-/

namespace Coupling.Project

/-- Why an analysis fails. -/
inductive Fault where
  /-- A static import. -/
  | staticImport
  /-- An import of a whole package. -/
  | wildcardImport
  /-- A type is made of a name that is no symbol of the project. -/
  | unknownDependency (name : String)
  /-- A part that is not there was asked for a property. -/
  | absent (property : String)
  /-- A property of one thing was asked of a list. -/
  | ofList (property : String)
  /-- A value that is not there was asked for an element. -/
  | noElements
  /-- A value that is not there was asked for its elements in turn. -/
  | notIterable
  /-- A table has no such key. -/
  | noKey (key : String)
  /-- A numbering has no such number. -/
  | noNumber (n : Nat)
  /-- A matrix or row has no such place. -/
  | outOfBounds (index size : Nat)
  /-- A row was to be added that is not there. -/
  | noRow
  /-- A hierarchy does not end. -/
  | tooDeep
  /-- There is no such file. -/
  | noFile (path : String)
  /-- A directory was to be read as a file. -/
  | isDirectory (path : String)
  /-- A file was to be passed as a directory. -/
  | notDirectory (path : String)
  /-- The bytes of a file are not a text. -/
  | undecodable
  /-- There was no path to walk. -/
  | noPath
  /-- What was saved is not a matrix. -/
  | notAMatrix
deriving DecidableEq, Repr, Inhabited

namespace Fault

/-- The words a fault is reported with. -/
def message : Fault → String
  | .staticImport => "Static import not supported"
  | .wildcardImport => "Wildcard import not supported"
  | .unknownDependency n => "Dependency " ++ n ++ " not found"
  | .absent p => "'NoneType' object has no attribute '" ++ p ++ "'"
  | .ofList p => "'list' object has no attribute '" ++ p ++ "'"
  | .noElements => "'NoneType' object is not subscriptable"
  | .notIterable => "'NoneType' object is not iterable"
  | .noKey k => Text.quoted k
  | .noNumber n => toString n
  | .outOfBounds i n => "index " ++ toString i ++ " is out of bounds for axis 0 with size " ++
    toString n
  | .noRow => "ufunc 'add' did not contain a loop with signature matching types"
  | .tooDeep => "maximum recursion depth exceeded"
  | .noFile p => "[Errno 2] No such file or directory: " ++ Text.quoted p
  | .isDirectory p => "[Errno 21] Is a directory: " ++ Text.quoted p
  | .notDirectory p => "[Errno 20] Not a directory: " ++ Text.quoted p
  | .undecodable => "invalid bytes"
  | .noPath => "expected a path"
  | .notAMatrix => "Object arrays cannot be loaded when allow_pickle=False"

end Fault

end Coupling.Project
