/-!
# Grammar rules and node forms

The rules of the Java grammar in their order, the labelled alternatives of `expression`, and the
labels under which a node remembers some of its parts. A node of a parse tree has a `Form`: the rule
that made it or, for an expression, the alternative that was taken.
-/

namespace Coupling.Java

/-- The rules of the grammar. The order of the constructors numbers them. -/
inductive RuleName where
  | compilationUnit | packageDeclaration | importDeclaration | typeDeclaration | modifier
  | classOrInterfaceModifier | variableModifier | classDeclaration | typeParameters
  | typeParameter | typeBound | enumDeclaration | enumConstants | enumConstant
  | enumBodyDeclarations | interfaceDeclaration | classBody | interfaceBody | classBodyDeclaration
  | memberDeclaration | methodDeclaration | methodBody | typeTypeOrVoid | genericMethodDeclaration
  | genericConstructorDeclaration | constructorDeclaration | compactConstructorDeclaration
  | fieldDeclaration | interfaceBodyDeclaration | interfaceMemberDeclaration | constDeclaration
  | constantDeclarator | interfaceMethodDeclaration | interfaceMethodModifier
  | genericInterfaceMethodDeclaration | interfaceCommonBodyDeclaration | variableDeclarators
  | variableDeclarator | variableDeclaratorId | variableInitializer | arrayInitializer
  | classOrInterfaceType | typeArgument | qualifiedNameList | formalParameters | receiverParameter
  | formalParameterList | formalParameter | lastFormalParameter | lambdaLVTIList
  | lambdaLVTIParameter | qualifiedName | literal | integerLiteral | floatLiteral
  | altAnnotationQualifiedName | annotationUse | elementValuePairs | elementValuePair
  | elementValue | elementValueArrayInitializer | annotationTypeDeclaration | annotationTypeBody
  | annotationTypeElementDeclaration | annotationTypeElementRest | annotationMethodOrConstantRest
  | annotationMethodRest | annotationConstantRest | defaultValue | moduleDeclaration | moduleBody
  | moduleDirective | requiresModifier | recordDeclaration | recordHeader | recordComponentList
  | recordComponent | recordBody | block | blockStatement | localVariableDeclaration | identifier
  | typeIdentifier | localTypeDeclaration | statement | catchClause | catchType | finallyBlock
  | resourceSpecification | resources | resource | switchBlockStatementGroup | switchLabel
  | forControl | forInit | enhancedForControl | parExpression | expressionList | methodCall
  | expression | pattern | lambdaExpression | lambdaParameters | lambdaBody | primary
  | switchExpression | switchLabeledRule | guardedPattern | switchRuleOutcome | classType
  | creator | createdName | innerCreator | arrayCreatorRest | classCreatorRest
  | explicitGenericInvocation | typeArgumentsOrDiamond | nonWildcardTypeArgumentsOrDiamond
  | nonWildcardTypeArguments | typeList | typeType | primitiveType | typeArguments | superSuffix
  | explicitGenericInvocationSuffix | arguments
deriving DecidableEq, Repr, Inhabited

namespace RuleName

/-- Every rule, in order. -/
def all : List RuleName := (List.range 126).map ofNat

/-- The number of a rule. -/
def index (r : RuleName) : Nat := r.ctorIdx

/-- The names of the rules as the grammar writes them, in order. -/
def names : List String := [
  "compilationUnit", "packageDeclaration", "importDeclaration", "typeDeclaration", "modifier",
  "classOrInterfaceModifier", "variableModifier", "classDeclaration", "typeParameters",
  "typeParameter", "typeBound", "enumDeclaration", "enumConstants", "enumConstant",
  "enumBodyDeclarations", "interfaceDeclaration", "classBody", "interfaceBody",
  "classBodyDeclaration", "memberDeclaration", "methodDeclaration", "methodBody", "typeTypeOrVoid",
  "genericMethodDeclaration", "genericConstructorDeclaration", "constructorDeclaration",
  "compactConstructorDeclaration", "fieldDeclaration", "interfaceBodyDeclaration",
  "interfaceMemberDeclaration", "constDeclaration", "constantDeclarator",
  "interfaceMethodDeclaration", "interfaceMethodModifier", "genericInterfaceMethodDeclaration",
  "interfaceCommonBodyDeclaration", "variableDeclarators", "variableDeclarator",
  "variableDeclaratorId", "variableInitializer", "arrayInitializer", "classOrInterfaceType",
  "typeArgument", "qualifiedNameList", "formalParameters", "receiverParameter",
  "formalParameterList", "formalParameter", "lastFormalParameter", "lambdaLVTIList",
  "lambdaLVTIParameter", "qualifiedName", "literal", "integerLiteral", "floatLiteral",
  "altAnnotationQualifiedName", "annotation", "elementValuePairs", "elementValuePair",
  "elementValue", "elementValueArrayInitializer", "annotationTypeDeclaration",
  "annotationTypeBody", "annotationTypeElementDeclaration", "annotationTypeElementRest",
  "annotationMethodOrConstantRest", "annotationMethodRest", "annotationConstantRest",
  "defaultValue", "moduleDeclaration", "moduleBody", "moduleDirective", "requiresModifier",
  "recordDeclaration", "recordHeader", "recordComponentList", "recordComponent", "recordBody",
  "block", "blockStatement", "localVariableDeclaration", "identifier", "typeIdentifier",
  "localTypeDeclaration", "statement", "catchClause", "catchType", "finallyBlock",
  "resourceSpecification", "resources", "resource", "switchBlockStatementGroup", "switchLabel",
  "forControl", "forInit", "enhancedForControl", "parExpression", "expressionList", "methodCall",
  "expression", "pattern", "lambdaExpression", "lambdaParameters", "lambdaBody", "primary",
  "switchExpression", "switchLabeledRule", "guardedPattern", "switchRuleOutcome", "classType",
  "creator", "createdName", "innerCreator", "arrayCreatorRest", "classCreatorRest",
  "explicitGenericInvocation", "typeArgumentsOrDiamond", "nonWildcardTypeArgumentsOrDiamond",
  "nonWildcardTypeArguments", "typeList", "typeType", "primitiveType", "typeArguments",
  "superSuffix", "explicitGenericInvocationSuffix", "arguments"]

/-- The name of a rule as the grammar writes it. -/
def name (r : RuleName) : String := (names[r.index]?).getD ""

/-- The rule with a name. -/
def ofName? (s : String) : Option RuleName := all.find? fun r => r.name = s

end RuleName

/-- The labelled alternatives of `expression`. -/
inductive ExprForm where
  | primary | squareBracket | memberReference | methodCall | methodReference | switch
  | postIncrementDecrement | unary | cast | objectCreation | binary | instanceOf | ternary
  | lambda
deriving DecidableEq, Repr, Inhabited

/-- The name of an alternative of `expression`. -/
def ExprForm.name : ExprForm → String
  | .primary => "PrimaryExpression"
  | .squareBracket => "SquareBracketExpression"
  | .memberReference => "MemberReferenceExpression"
  | .methodCall => "MethodCallExpression"
  | .methodReference => "MethodReferenceExpression"
  | .switch => "ExpressionSwitch"
  | .postIncrementDecrement => "PostIncrementDecrementOperatorExpression"
  | .unary => "UnaryOperatorExpression"
  | .cast => "CastExpression"
  | .objectCreation => "ObjectCreationExpression"
  | .binary => "BinaryOperatorExpression"
  | .instanceOf => "InstanceOfOperatorExpression"
  | .ternary => "TernaryExpression"
  | .lambda => "ExpressionLambda"

/-- The parts that nodes remember by name. -/
inductive Label where
  | constructorBody | blockLabel | statementExpression | identifierLabel | constantExpression
  | enumConstantName | varName | forUpdate | bop | postfixOp | prefixOp
deriving DecidableEq, Repr, Inhabited

def Label.name : Label → String
  | .constructorBody => "constructorBody"
  | .blockLabel => "blockLabel"
  | .statementExpression => "statementExpression"
  | .identifierLabel => "identifierLabel"
  | .constantExpression => "constantExpression"
  | .enumConstantName => "enumConstantName"
  | .varName => "varName"
  | .forUpdate => "forUpdate"
  | .bop => "bop"
  | .postfixOp => "postfix"
  | .prefixOp => "prefix"

/-- What a node of a parse tree is. -/
inductive Form where
  | rule (r : RuleName)
  | expr (e : ExprForm)
deriving DecidableEq, Repr, Inhabited

namespace Form

/-- The rule a node belongs to. -/
def ruleName : Form → RuleName
  | .rule r => r
  | .expr _ => .expression

/-- The name a node is shown by: that of its rule with a capital letter, or of its alternative. -/
def name : Form → String
  | .rule r => match r.name.toList with
    | c :: cs => String.ofList (c.toUpper :: cs)
    | [] => ""
  | .expr e => e.name

/-- An expression none of whose alternatives was reached. -/
def unlabelled (f : Form) : Bool := f = .rule .expression

end Form

end Coupling.Java
