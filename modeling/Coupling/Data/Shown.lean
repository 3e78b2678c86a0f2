import Coupling.Decimal.Shortest
import Coupling.Json.Value
import Coupling.Text.Quoted

/-!
# The text of a value

`literal` writes a value with its texts in quotes and `shown` writes a text as it is. `kindName`
names the kind of a value.
-/

namespace Coupling.Data

mutual

/-- A value on one line, texts in quotes. -/
def literal : Json → String
  | .null => "None"
  | .bool true => "True"
  | .bool false => "False"
  | .int n => toString n
  | .float x => Decimal.renderFloat x
  | .str s => Text.quoted s
  | .arr xs => "[" ++ ", ".intercalate (literals xs) ++ "]"
  | .obj ms => "\x7b" ++ ", ".intercalate (literalMembers ms) ++ "\x7d"

def literals : List Json → List String
  | [] => []
  | x :: xs => literal x :: literals xs

def literalMembers : List (String × Json) → List String
  | [] => []
  | (k, v) :: ms => (Text.quoted k ++ ": " ++ literal v) :: literalMembers ms

end

/-- A value on one line, a text as it is. -/
def shown : Json → String
  | .str s => s
  | j => literal j

/-- The name of the kind of a value. -/
def kindName : Json → String
  | .null => "<class 'NoneType'>"
  | .bool _ => "<class 'bool'>"
  | .int _ => "<class 'int'>"
  | .float _ => "<class 'float'>"
  | .str _ => "<class 'str'>"
  | .arr _ => "<class 'list'>"
  | .obj _ => "<class 'dict'>"

end Coupling.Data
