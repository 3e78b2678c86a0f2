import Coupling.Data.Access
import Coupling.Regex.Reader

/-!
# Endpoint templates

A template names a family of endpoints: `{int}` in it stands for digits and `{str}` for letters and
digits. The template is read as a pattern, by default as a regular expression (`PatternReader`). A
name fits a template that it equals or that matches all of it.
-/

namespace Coupling.Trace

open Data (Result)

/-- Replaces every occurrence of a text that is not empty, from left to right. -/
def replaceAll (old new : List Char) : List Char → List Char
  | [] => []
  | c :: rest =>
    if old.isPrefixOf (c :: rest) then new ++ replaceAll old new (rest.drop (old.length - 1))
    else c :: replaceAll old new rest
termination_by cs => cs.length
decreasing_by
  · simp only [List.length_drop, List.length_cons]; omega
  · simp

/-- The placeholders of a template and the expressions they stand for. -/
def placeholders : List (String × String) :=
  [("\x7bint\x7d", "\\d+"), ("\x7bstr\x7d", "[a-zA-Z0-9]+")]

/-- The text of the regular expression of a template. -/
def templateText (name : String) : String :=
  String.ofList (placeholders.foldl (fun cs p => replaceAll p.1.toList p.2.toList cs) name.toList)

/-- The text of the regular expression of a value that must be a template. -/
def template : Json → Result String
  | .str name => .ok (templateText name)
  | _ => .error .wrongKind

/-- How patterns are read: whether the text of one is well formed, and which texts it matches. -/
class PatternReader where
  read : String → Result (String → Bool)

/-- Patterns are regular expressions that match whole texts. -/
instance regexReader : PatternReader where
  read text := (Regex.ofText text).map Regex.matchesAll

variable [PatternReader]

/-- Whether a name fits a template. -/
def fits (name : Json) (j : Json) : Result Bool := do
  let matched ← PatternReader.read (← template j)
  match name with
  | .str s => return matched s
  | _ => throw .wrongKind

/-- The first of some entries whose template a name equals or fits. -/
def firstFit (name : Json) : List Json → Result (Option Json)
  | [] => return none
  | api :: apis => do
    let known ← Data.member api "name"
    if Data.same known name then return some api
    if ← fits name known then return some api
    firstFit name apis

/-- The first entry of a configuration that a name fits. -/
def matchApi (apis name : Json) : Result (Option Json) := do firstFit name (← Data.items apis)

end Coupling.Trace
