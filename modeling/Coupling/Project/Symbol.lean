import Coupling.Json.Value
import Coupling.Table

/-!
# Symbols

A symbol is a class, interface, method or import of a project. Symbols are kept in a registry and
known by their number in it: two tables that hold the same number hold the same symbol, and what is
added to it shows in both. A class table has the class symbols under their full names.
-/

namespace Coupling.Project

/-- What a symbol stands for. -/
inductive SymbolKind where
  | «class»
  | interface
  | method
  | «import»
deriving DecidableEq, Repr, Inhabited

def SymbolKind.name : SymbolKind → String
  | .class => "Class"
  | .interface => "Interface"
  | .method => "Method"
  | .import => "Import"

/-- The number of a symbol in its registry. -/
abbrev SymbolId := Nat

/-- A class, interface, method or import. -/
structure Symbol where
  kind : SymbolKind
  shortName : String
  fullName : String
  file : String
  startLine : Nat
  stopLine : Nat
  code : String
  returnType : String := ""
  params : List String := []
  methods : Table SymbolId := ∅
  hierarchy : List String := []
  dependency : List String := []
deriving Repr, Inhabited

/-- Symbols by number. -/
structure Registry where
  symbols : Array Symbol
deriving Inhabited

/-- Class symbols under their full names. -/
abbrev ClassTable := Table SymbolId

namespace Registry

def empty : Registry := ⟨#[]⟩

def size (r : Registry) : Nat := r.symbols.size

/-- The symbol with a number. -/
def get? (r : Registry) (id : SymbolId) : Option Symbol := r.symbols[id]?

/-- Adds a symbol; its number is the size before. -/
def add (r : Registry) (s : Symbol) : Registry := ⟨r.symbols.push s⟩

/-- Changes the symbol with a number. -/
def change (r : Registry) (id : SymbolId) (f : Symbol → Symbol) : Registry :=
  ⟨r.symbols.modify id f⟩

/-- Adds a name to what a symbol depends on. -/
def addDependency (r : Registry) (id : SymbolId) (name : String) : Registry :=
  r.change id fun s => { s with dependency := s.dependency ++ [name] }

/-- Adds a name to the supertypes of a symbol. -/
def addSuper (r : Registry) (id : SymbolId) (name : String) : Registry :=
  r.change id fun s => { s with hierarchy := s.hierarchy ++ [name] }

def fullName (r : Registry) (id : SymbolId) : String := ((r.get? id).map Symbol.fullName).getD ""

def hierarchy (r : Registry) (id : SymbolId) : List String :=
  ((r.get? id).map Symbol.hierarchy).getD []

def dependency (r : Registry) (id : SymbolId) : List String :=
  ((r.get? id).map Symbol.dependency).getD []

/-- A symbol as a record; its methods are records in it. A method is younger than the symbol it
belongs to, so that `depth` is enough when it is the size of the registry. -/
def record (r : Registry) : Nat → SymbolId → Json
  | 0, _ => .null
  | depth + 1, id =>
    match r.get? id with
    | none => .null
    | some s => .obj [
        ("sym_type", .str s.kind.name),
        ("short_name", .str s.shortName),
        ("full_name", .str s.fullName),
        ("file_path", .str s.file),
        ("start_lineno", .nat s.startLine),
        ("stop_lineno", .nat s.stopLine),
        ("return_type", .str s.returnType),
        ("params", .strings s.params),
        ("methods", .arr (s.methods.values.map (r.record depth))),
        ("code", .str s.code),
        ("hierarchy", .strings s.hierarchy),
        ("dependency", .strings s.dependency)]

/-- The records of the symbols of a table. -/
def records (r : Registry) (t : Table SymbolId) : Json :=
  .arr (t.values.map (r.record (r.size + 1)))

end Registry

end Coupling.Project
