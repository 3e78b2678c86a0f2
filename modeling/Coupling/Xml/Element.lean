/-!
# XML elements

An element has attributes and either a text or other elements inside it. `Element.document` writes
it with two blanks for each level and every element on a line of its own.
-/

namespace Coupling.Xml

/-- An element. -/
inductive Element where
  | leaf (tag : String) (attributes : List (String × String)) (text : String)
  | node (tag : String) (attributes : List (String × String)) (children : List Element)
deriving Inhabited, Repr

/-- The characters that stand for themselves in no text. -/
def escapeInText (c : Char) : String :=
  match c with
  | '&' => "&amp;"
  | '<' => "&lt;"
  | '>' => "&gt;"
  | c => c.toString

/-- An attribute also has to keep its quotes, tabs and line breaks. -/
def escapeInAttribute (c : Char) : String :=
  match c with
  | '"' => "&quot;"
  | '\r' => "&#13;"
  | '\n' => "&#10;"
  | '\t' => "&#09;"
  | c => escapeInText c

def escaped (escape : Char → String) (s : String) : String := String.join (s.toList.map escape)

def attributeText (a : String × String) : String :=
  " " ++ a.1 ++ "=\"" ++ escaped escapeInAttribute a.2 ++ "\""

/-- A tag with its attributes, without the closing bracket. -/
def opening (tag : String) (attributes : List (String × String)) : String :=
  "<" ++ tag ++ String.join (attributes.map attributeText)

/-- An element with something inside; nothing inside makes it a single tag. -/
def enclosed (tag : String) (attributes : List (String × String)) (inner : String) : String :=
  if inner.isEmpty then opening tag attributes ++ " />"
  else opening tag attributes ++ ">" ++ inner ++ "</" ++ tag ++ ">"

/-- A line break and two blanks for each level. -/
def newline (depth : Nat) : String := "\n" ++ String.ofList (List.replicate (2 * depth) ' ')

mutual

def Element.render (depth : Nat) : Element → String
  | .leaf tag attributes text => enclosed tag attributes (escaped escapeInText text)
  | .node tag attributes [] => enclosed tag attributes ""
  | .node tag attributes (c :: cs) =>
    enclosed tag attributes (renderAll (depth + 1) (c :: cs) ++ newline depth)

/-- Elements each on a line of its own. -/
def renderAll (depth : Nat) : List Element → String
  | [] => ""
  | c :: cs => newline depth ++ c.render depth ++ renderAll depth cs

end

/-- A document with one outermost element. -/
def Element.document (e : Element) : String :=
  "<?xml version='1.0' encoding='utf-8'?>\n" ++ e.render 0 ++ "\n"

end Coupling.Xml
