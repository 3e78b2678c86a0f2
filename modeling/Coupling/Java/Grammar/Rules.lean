import Coupling.Java.Grammar.Element

/-!
# The grammar of Java

The right-hand side of every rule, for the language of version 17. Where a rule offers single tokens
only, they are one element, so that a missing one is reported as one of all of them.
-/

namespace Coupling.Java

open Element

/-- The right-hand side of a rule. -/
def production : RuleName → Production
  | .compilationUnit => .plain [
      [
        opt [r .packageDeclaration], .many [[r .importDeclaration], [t .semi]],
        .many [[r .typeDeclaration], [t .semi]], t .eof],
      [r .moduleDeclaration, t .eof]]
  | .packageDeclaration =>
    .plain [[star [r .annotationUse], t .kwPackage, r .qualifiedName, t .semi]]
  | .importDeclaration =>
    .plain [[t .kwImport, opt [t .kwStatic], r .qualifiedName, opt [t .dot, t .mul], t .semi]]
  | .typeDeclaration => .plain [
      [
        star [r .classOrInterfaceModifier],
        .choice [
          [r .classDeclaration], [r .enumDeclaration], [r .interfaceDeclaration],
          [r .annotationTypeDeclaration], [r .recordDeclaration]]]]
  | .modifier => .plain [
      [r .classOrInterfaceModifier],
      [t .kwNative],
      [t .kwSynchronized],
      [t .kwTransient],
      [t .kwVolatile]]
  | .classOrInterfaceModifier => .plain [
      [r .annotationUse],
      [t .kwPublic],
      [t .kwProtected],
      [t .kwPrivate],
      [t .kwStatic],
      [t .kwAbstract],
      [t .kwFinal],
      [t .kwStrictfp],
      [t .kwSealed],
      [t .kwNonSealed]]
  | .variableModifier => .plain [[t .kwFinal], [r .annotationUse]]
  | .classDeclaration => .plain [
      [
        t .kwClass, r .identifier, opt [r .typeParameters], opt [t .kwExtends, r .typeType],
        opt [t .kwImplements, r .typeList], opt [t .kwPermits, r .typeList], r .classBody]]
  | .typeParameters =>
    .plain [[t .lt, r .typeParameter, star [t .comma, r .typeParameter], t .gt]]
  | .typeParameter => .plain [
      [
        star [r .annotationUse], r .identifier,
        opt [t .kwExtends, star [r .annotationUse], r .typeBound]]]
  | .typeBound => .plain [[r .typeType, star [t .bitAnd, r .typeType]]]
  | .enumDeclaration => .plain [
      [
        t .kwEnum, r .identifier, opt [t .kwImplements, r .typeList], t .lbrace,
        opt [r .enumConstants], opt [t .comma], opt [r .enumBodyDeclarations], t .rbrace]]
  | .enumConstants => .plain [[r .enumConstant, star [t .comma, r .enumConstant]]]
  | .enumConstant =>
    .plain [[star [r .annotationUse], r .identifier, opt [r .arguments], opt [r .classBody]]]
  | .enumBodyDeclarations => .plain [[t .semi, star [r .classBodyDeclaration]]]
  | .interfaceDeclaration => .plain [
      [
        t .kwInterface, r .identifier, opt [r .typeParameters], opt [t .kwExtends, r .typeList],
        opt [t .kwPermits, r .typeList], r .interfaceBody]]
  | .classBody => .plain [[t .lbrace, star [r .classBodyDeclaration], t .rbrace]]
  | .interfaceBody => .plain [[t .lbrace, star [r .interfaceBodyDeclaration], t .rbrace]]
  | .classBodyDeclaration => .plain [
      [t .semi],
      [opt [t .kwStatic], r .block],
      [star [r .modifier], r .memberDeclaration]]
  | .memberDeclaration => .plain [
      [r .recordDeclaration],
      [r .methodDeclaration],
      [r .genericMethodDeclaration],
      [r .fieldDeclaration],
      [r .constructorDeclaration],
      [r .genericConstructorDeclaration],
      [r .interfaceDeclaration],
      [r .annotationTypeDeclaration],
      [r .classDeclaration],
      [r .enumDeclaration]]
  | .methodDeclaration => .plain [
      [
        r .typeTypeOrVoid, r .identifier, r .formalParameters, star [t .lbrack, t .rbrack],
        opt [t .kwThrows, r .qualifiedNameList], r .methodBody]]
  | .methodBody => .plain [[r .block], [t .semi]]
  | .typeTypeOrVoid => .plain [[r .typeType], [t .kwVoid]]
  | .genericMethodDeclaration => .plain [[r .typeParameters, r .methodDeclaration]]
  | .genericConstructorDeclaration => .plain [[r .typeParameters, r .constructorDeclaration]]
  | .constructorDeclaration => .plain [
      [
        r .identifier, r .formalParameters, opt [t .kwThrows, r .qualifiedNameList],
        .labelled .constructorBody (r .block)]]
  | .compactConstructorDeclaration =>
    .plain [[star [r .modifier], r .identifier, .labelled .constructorBody (r .block)]]
  | .fieldDeclaration => .plain [[r .typeType, r .variableDeclarators, t .semi]]
  | .interfaceBodyDeclaration =>
    .plain [[star [r .modifier], r .interfaceMemberDeclaration], [t .semi]]
  | .interfaceMemberDeclaration => .plain [
      [r .recordDeclaration],
      [r .constDeclaration],
      [r .interfaceMethodDeclaration],
      [r .genericInterfaceMethodDeclaration],
      [r .interfaceDeclaration],
      [r .annotationTypeDeclaration],
      [r .classDeclaration],
      [r .enumDeclaration]]
  | .constDeclaration =>
    .plain [[r .typeType, r .constantDeclarator, star [t .comma, r .constantDeclarator], t .semi]]
  | .constantDeclarator =>
    .plain [[r .identifier, star [t .lbrack, t .rbrack], t .assign, r .variableInitializer]]
  | .interfaceMethodDeclaration =>
    .plain [[star [r .interfaceMethodModifier], r .interfaceCommonBodyDeclaration]]
  | .interfaceMethodModifier => .plain [
      [r .annotationUse],
      [t .kwPublic],
      [t .kwAbstract],
      [t .kwDefault],
      [t .kwStatic],
      [t .kwStrictfp]]
  | .genericInterfaceMethodDeclaration => .plain [
      [star [r .interfaceMethodModifier], r .typeParameters, r .interfaceCommonBodyDeclaration]]
  | .interfaceCommonBodyDeclaration => .plain [
      [
        star [r .annotationUse], r .typeTypeOrVoid, r .identifier, r .formalParameters,
        star [t .lbrack, t .rbrack], opt [t .kwThrows, r .qualifiedNameList], r .methodBody]]
  | .variableDeclarators =>
    .plain [[r .variableDeclarator, star [t .comma, r .variableDeclarator]]]
  | .variableDeclarator =>
    .plain [[r .variableDeclaratorId, opt [t .assign, r .variableInitializer]]]
  | .variableDeclaratorId => .plain [[r .identifier, star [t .lbrack, t .rbrack]]]
  | .variableInitializer => .plain [[r .arrayInitializer], [r .expression]]
  | .arrayInitializer => .plain [
      [
        t .lbrace,
        opt [r .variableInitializer, star [t .comma, r .variableInitializer], opt [t .comma]],
        t .rbrace]]
  | .classOrInterfaceType => .plain [
      [
        star [r .identifier, opt [r .typeArguments], t .dot], r .typeIdentifier,
        opt [r .typeArguments]]]
  | .typeArgument => .plain [
      [r .typeType],
      [star [r .annotationUse], t .question, opt [.oneOf [.kwExtends, .kwSuper], r .typeType]]]
  | .qualifiedNameList => .plain [[r .qualifiedName, star [t .comma, r .qualifiedName]]]
  | .formalParameters => .plain [
      [
        t .lparen,
        .choice [
          [opt [r .receiverParameter]],
          [r .receiverParameter, opt [t .comma, r .formalParameterList]],
          [opt [r .formalParameterList]]],
        t .rparen]]
  | .receiverParameter => .plain [[r .typeType, star [r .identifier, t .dot], t .kwThis]]
  | .formalParameterList => .plain [
      [
        r .formalParameter, star [t .comma, r .formalParameter],
        opt [t .comma, r .lastFormalParameter]],
      [r .lastFormalParameter]]
  | .formalParameter =>
    .plain [[star [r .variableModifier], r .typeType, r .variableDeclaratorId]]
  | .lastFormalParameter => .plain [
      [
        star [r .variableModifier], r .typeType, star [r .annotationUse], t .ellipsis,
        r .variableDeclaratorId]]
  | .lambdaLVTIList => .plain [[r .lambdaLVTIParameter, star [t .comma, r .lambdaLVTIParameter]]]
  | .lambdaLVTIParameter => .plain [[star [r .variableModifier], t .kwVar, r .identifier]]
  | .qualifiedName => .plain [[r .identifier, star [t .dot, r .identifier]]]
  | .literal => .plain [
      [r .integerLiteral],
      [r .floatLiteral],
      [t .charLiteral],
      [t .stringLiteral],
      [t .boolLiteral],
      [t .nullLiteral],
      [t .textBlock]]
  | .integerLiteral =>
    .plain [[.oneOf [.decimalLiteral, .hexLiteral, .octLiteral, .binaryLiteral]]]
  | .floatLiteral => .plain [[.oneOf [.floatLiteral, .hexFloatLiteral]]]
  | .altAnnotationQualifiedName =>
    .plain [[star [r .identifier, t .dot], t .atSign, r .identifier]]
  | .annotationUse => .plain [
      [
        .choice [[t .atSign, r .qualifiedName], [r .altAnnotationQualifiedName]],
        opt [t .lparen, .optional [[r .elementValuePairs], [r .elementValue]], t .rparen]]]
  | .elementValuePairs => .plain [[r .elementValuePair, star [t .comma, r .elementValuePair]]]
  | .elementValuePair => .plain [[r .identifier, t .assign, r .elementValue]]
  | .elementValue =>
    .plain [[r .expression], [r .annotationUse], [r .elementValueArrayInitializer]]
  | .elementValueArrayInitializer => .plain [
      [
        t .lbrace, opt [r .elementValue, star [t .comma, r .elementValue]], opt [t .comma],
        t .rbrace]]
  | .annotationTypeDeclaration =>
    .plain [[t .atSign, t .kwInterface, r .identifier, r .annotationTypeBody]]
  | .annotationTypeBody =>
    .plain [[t .lbrace, star [r .annotationTypeElementDeclaration], t .rbrace]]
  | .annotationTypeElementDeclaration =>
    .plain [[star [r .modifier], r .annotationTypeElementRest], [t .semi]]
  | .annotationTypeElementRest => .plain [
      [r .typeType, r .annotationMethodOrConstantRest, t .semi],
      [r .classDeclaration, opt [t .semi]],
      [r .interfaceDeclaration, opt [t .semi]],
      [r .enumDeclaration, opt [t .semi]],
      [r .annotationTypeDeclaration, opt [t .semi]],
      [r .recordDeclaration, opt [t .semi]]]
  | .annotationMethodOrConstantRest =>
    .plain [[r .annotationMethodRest], [r .annotationConstantRest]]
  | .annotationMethodRest => .plain [[r .identifier, t .lparen, t .rparen, opt [r .defaultValue]]]
  | .annotationConstantRest => .plain [[r .variableDeclarators]]
  | .defaultValue => .plain [[t .kwDefault, r .elementValue]]
  | .moduleDeclaration => .plain [[opt [t .kwOpen], t .kwModule, r .qualifiedName, r .moduleBody]]
  | .moduleBody => .plain [[t .lbrace, star [r .moduleDirective], t .rbrace]]
  | .moduleDirective => .plain [
      [t .kwRequires, star [r .requiresModifier], r .qualifiedName, t .semi],
      [t .kwExports, r .qualifiedName, opt [t .kwTo, r .qualifiedName], t .semi],
      [t .kwOpens, r .qualifiedName, opt [t .kwTo, r .qualifiedName], t .semi],
      [t .kwUses, r .qualifiedName, t .semi],
      [t .kwProvides, r .qualifiedName, t .kwWith, r .qualifiedName, t .semi]]
  | .requiresModifier => .plain [[.oneOf [.kwTransitive, .kwStatic]]]
  | .recordDeclaration => .plain [
      [
        t .kwRecord, r .identifier, opt [r .typeParameters], r .recordHeader,
        opt [t .kwImplements, r .typeList], r .recordBody]]
  | .recordHeader => .plain [[t .lparen, opt [r .recordComponentList], t .rparen]]
  | .recordComponentList => .plain [[r .recordComponent, star [t .comma, r .recordComponent]]]
  | .recordComponent => .plain [[r .typeType, r .identifier]]
  | .recordBody => .plain [
      [
        t .lbrace, .many [[r .classBodyDeclaration], [r .compactConstructorDeclaration]],
        t .rbrace]]
  | .block => .plain [[t .lbrace, star [r .blockStatement], t .rbrace]]
  | .blockStatement =>
    .plain [[r .localVariableDeclaration, t .semi], [r .localTypeDeclaration], [r .statement]]
  | .localVariableDeclaration => .plain [
      [
        star [r .variableModifier],
        .choice [
          [t .kwVar, r .identifier, t .assign, r .expression],
          [r .typeType, r .variableDeclarators]]]]
  | .identifier => .plain [
      [
        .oneOf [
          .identifier, .kwModule, .kwOpen, .kwRequires, .kwExports, .kwOpens, .kwTo, .kwUses,
          .kwProvides, .kwWith, .kwTransitive, .kwYield, .kwSealed, .kwPermits, .kwRecord,
          .kwVar]]]
  | .typeIdentifier => .plain [
      [
        .oneOf [
          .identifier, .kwModule, .kwOpen, .kwRequires, .kwExports, .kwOpens, .kwTo, .kwUses,
          .kwProvides, .kwWith, .kwTransitive, .kwSealed, .kwPermits, .kwRecord]]]
  | .localTypeDeclaration => .plain [
      [
        star [r .classOrInterfaceModifier],
        .choice [[r .classDeclaration], [r .interfaceDeclaration], [r .recordDeclaration]]]]
  | .statement => .plain [
      [.labelled .blockLabel (r .block)],
      [t .kwAssert, r .expression, opt [t .colon, r .expression], t .semi],
      [t .kwIf, r .parExpression, r .statement, opt [t .kwElse, r .statement]],
      [t .kwFor, t .lparen, r .forControl, t .rparen, r .statement],
      [t .kwWhile, r .parExpression, r .statement],
      [t .kwDo, r .statement, t .kwWhile, r .parExpression, t .semi],
      [
        t .kwTry, r .block,
        .choice [[plus [r .catchClause], opt [r .finallyBlock]], [r .finallyBlock]]],
      [t .kwTry, r .resourceSpecification, r .block, star [r .catchClause], opt [r .finallyBlock]],
      [
        t .kwSwitch, r .parExpression, t .lbrace, star [r .switchBlockStatementGroup],
        star [r .switchLabel], t .rbrace],
      [t .kwSynchronized, r .parExpression, r .block],
      [t .kwReturn, opt [r .expression], t .semi],
      [t .kwThrow, r .expression, t .semi],
      [t .kwBreak, opt [r .identifier], t .semi],
      [t .kwContinue, opt [r .identifier], t .semi],
      [t .kwYield, r .expression, t .semi],
      [t .semi],
      [.labelled .statementExpression (r .expression), t .semi],
      [r .switchExpression, opt [t .semi]],
      [.labelled .identifierLabel (r .identifier), t .colon, r .statement]]
  | .catchClause => .plain [
      [
        t .kwCatch, t .lparen, star [r .variableModifier], r .catchType, r .identifier,
        t .rparen, r .block]]
  | .catchType => .plain [[r .qualifiedName, star [t .bitOr, r .qualifiedName]]]
  | .finallyBlock => .plain [[t .kwFinally, r .block]]
  | .resourceSpecification => .plain [[t .lparen, r .resources, opt [t .semi], t .rparen]]
  | .resources => .plain [[r .resource, star [t .semi, r .resource]]]
  | .resource => .plain [
      [
        star [r .variableModifier],
        .choice [[r .classOrInterfaceType, r .variableDeclaratorId], [t .kwVar, r .identifier]],
        t .assign, r .expression],
      [r .qualifiedName]]
  | .switchBlockStatementGroup => .plain [[plus [r .switchLabel], plus [r .blockStatement]]]
  | .switchLabel => .plain [
      [
        t .kwCase,
        .choice [
          [.labelled .constantExpression (r .expression)],
          [.labelled .enumConstantName (t .identifier)],
          [r .typeType, .labelled .varName (r .identifier)]],
        t .colon],
      [t .kwDefault, t .colon]]
  | .forControl => .plain [
      [r .enhancedForControl],
      [
        opt [r .forInit], t .semi, opt [r .expression], t .semi,
        opt [.labelled .forUpdate (r .expressionList)]]]
  | .forInit => .plain [[r .localVariableDeclaration], [r .expressionList]]
  | .enhancedForControl => .plain [
      [
        star [r .variableModifier], .choice [[r .typeType], [t .kwVar]],
        r .variableDeclaratorId, t .colon, r .expression]]
  | .parExpression => .plain [[t .lparen, r .expression, t .rparen]]
  | .expressionList => .plain [[r .expression, star [t .comma, r .expression]]]
  | .methodCall => .plain [[.choice [[r .identifier], [t .kwThis], [t .kwSuper]], r .arguments]]
  | .expression => .climbing [
      ⟨.expr .primary, [r .primary]⟩,
      ⟨.expr .methodCall, [r .methodCall]⟩,
      ⟨.expr .methodReference, [
        r .typeType, t .colonColon,
        .choice [[opt [r .typeArguments], r .identifier], [t .kwNew]]]⟩,
      ⟨.expr .methodReference, [r .classType, t .colonColon, opt [r .typeArguments], t .kwNew]⟩,
      ⟨.expr .switch, [r .switchExpression]⟩,
      ⟨.expr .unary, [
        .labelled .prefixOp (.oneOf [.add, .sub, .inc, .dec, .tilde, .bang]),
        climb 17 .expression]⟩,
      ⟨.expr .cast, [
        t .lparen, star [r .annotationUse], r .typeType, star [t .bitAnd, r .typeType], t .rparen,
        climb 16 .expression]⟩,
      ⟨.expr .objectCreation, [t .kwNew, r .creator]⟩,
      ⟨.expr .lambda, [r .lambdaExpression]⟩] [
      ⟨.expr .binary, 14, [.labelled .bop (.oneOf [.mul, .div, .mod]), climb 15 .expression]⟩,
      ⟨.expr .binary, 13, [.labelled .bop (.oneOf [.add, .sub]), climb 14 .expression]⟩,
      ⟨.expr .binary, 12, [
        .choice [[t .lt, t .lt], [t .gt, t .gt, t .gt], [t .gt, t .gt]], climb 13 .expression]⟩,
      ⟨.expr .binary, 11, [.labelled .bop (.oneOf [.le, .ge, .gt, .lt]), climb 12 .expression]⟩,
      ⟨.expr .binary, 9, [.labelled .bop (.oneOf [.equal, .notEqual]), climb 10 .expression]⟩,
      ⟨.expr .binary, 8, [.labelled .bop (t .bitAnd), climb 9 .expression]⟩,
      ⟨.expr .binary, 7, [.labelled .bop (t .caret), climb 8 .expression]⟩,
      ⟨.expr .binary, 6, [.labelled .bop (t .bitOr), climb 7 .expression]⟩,
      ⟨.expr .binary, 5, [.labelled .bop (t .andAnd), climb 6 .expression]⟩,
      ⟨.expr .binary, 4, [.labelled .bop (t .orOr), climb 5 .expression]⟩,
      ⟨.expr .ternary, 3, [
        .labelled .bop (t .question), r .expression, t .colon, climb 3 .expression]⟩,
      ⟨.expr .binary, 2, [
        .labelled .bop (.oneOf [
          .assign, .addAssign, .subAssign, .mulAssign, .divAssign, .andAssign, .orAssign,
          .xorAssign, .rshiftAssign, .urshiftAssign, .lshiftAssign, .modAssign]),
        climb 2 .expression]⟩,
      ⟨.expr .squareBracket, 25, [t .lbrack, r .expression, t .rbrack]⟩,
      ⟨.expr .memberReference, 24, [
        .labelled .bop (t .dot),
        .choice [
          [r .identifier], [r .methodCall], [t .kwThis],
          [t .kwNew, opt [r .nonWildcardTypeArguments], r .innerCreator],
          [t .kwSuper, r .superSuffix], [r .explicitGenericInvocation]]]⟩,
      ⟨.expr .methodReference, 22, [t .colonColon, opt [r .typeArguments], r .identifier]⟩,
      ⟨.expr .postIncrementDecrement, 18, [.labelled .postfixOp (.oneOf [.inc, .dec])]⟩,
      ⟨.expr .instanceOf, 10, [
        .labelled .bop (t .kwInstanceof), .choice [[r .typeType], [r .pattern]]]⟩]
  | .pattern =>
    .plain [[star [r .variableModifier], r .typeType, star [r .annotationUse], r .identifier]]
  | .lambdaExpression => .plain [[r .lambdaParameters, t .arrow, r .lambdaBody]]
  | .lambdaParameters => .plain [
      [r .identifier],
      [t .lparen, opt [r .formalParameterList], t .rparen],
      [t .lparen, r .identifier, star [t .comma, r .identifier], t .rparen],
      [t .lparen, opt [r .lambdaLVTIList], t .rparen]]
  | .lambdaBody => .plain [[r .expression], [r .block]]
  | .primary => .plain [
      [t .lparen, r .expression, t .rparen],
      [t .kwThis],
      [t .kwSuper],
      [r .literal],
      [r .identifier],
      [r .typeTypeOrVoid, t .dot, t .kwClass],
      [
        r .nonWildcardTypeArguments,
        .choice [[r .explicitGenericInvocationSuffix], [t .kwThis, r .arguments]]]]
  | .switchExpression =>
    .plain [[t .kwSwitch, r .parExpression, t .lbrace, star [r .switchLabeledRule], t .rbrace]]
  | .switchLabeledRule => .plain [
      [
        t .kwCase, .choice [[r .expressionList], [t .nullLiteral], [r .guardedPattern]],
        .oneOf [.arrow, .colon], r .switchRuleOutcome],
      [t .kwDefault, .oneOf [.arrow, .colon], r .switchRuleOutcome]]
  | .guardedPattern => .climbing [
      ⟨.rule .guardedPattern, [t .lparen, r .guardedPattern, t .rparen]⟩,
      ⟨.rule .guardedPattern, [
        star [r .variableModifier], r .typeType, star [r .annotationUse], r .identifier,
        star [t .andAnd, r .expression]]⟩] [
      ⟨.rule .guardedPattern, 1, [t .andAnd, r .expression]⟩]
  | .switchRuleOutcome => .plain [[r .block], [star [r .blockStatement]]]
  | .classType => .plain [
      [
        opt [r .classOrInterfaceType, t .dot], star [r .annotationUse], r .identifier,
        opt [r .typeArguments]]]
  | .creator => .plain [
      [opt [r .nonWildcardTypeArguments], r .createdName, r .classCreatorRest],
      [r .createdName, r .arrayCreatorRest]]
  | .createdName => .plain [
      [
        r .identifier, opt [r .typeArgumentsOrDiamond],
        star [t .dot, r .identifier, opt [r .typeArgumentsOrDiamond]]],
      [r .primitiveType]]
  | .innerCreator =>
    .plain [[r .identifier, opt [r .nonWildcardTypeArgumentsOrDiamond], r .classCreatorRest]]
  | .arrayCreatorRest => .plain [
      [plus [t .lbrack, t .rbrack], r .arrayInitializer],
      [plus [t .lbrack, r .expression, t .rbrack], star [t .lbrack, t .rbrack]]]
  | .classCreatorRest => .plain [[r .arguments, opt [r .classBody]]]
  | .explicitGenericInvocation =>
    .plain [[r .nonWildcardTypeArguments, r .explicitGenericInvocationSuffix]]
  | .typeArgumentsOrDiamond => .plain [[t .lt, t .gt], [r .typeArguments]]
  | .nonWildcardTypeArgumentsOrDiamond => .plain [[t .lt, t .gt], [r .nonWildcardTypeArguments]]
  | .nonWildcardTypeArguments => .plain [[t .lt, r .typeList, t .gt]]
  | .typeList => .plain [[r .typeType, star [t .comma, r .typeType]]]
  | .typeType => .plain [
      [
        star [r .annotationUse], .choice [[r .classOrInterfaceType], [r .primitiveType]],
        star [star [r .annotationUse], t .lbrack, t .rbrack]]]
  | .primitiveType => .plain [
      [.oneOf [.kwBoolean, .kwChar, .kwByte, .kwShort, .kwInt, .kwLong, .kwFloat, .kwDouble]]]
  | .typeArguments => .plain [[t .lt, r .typeArgument, star [t .comma, r .typeArgument], t .gt]]
  | .superSuffix => .plain [
      [r .arguments],
      [t .dot, opt [r .typeArguments], r .identifier, opt [r .arguments]]]
  | .explicitGenericInvocationSuffix =>
    .plain [[t .kwSuper, r .superSuffix], [r .identifier, r .arguments]]
  | .arguments => .plain [[t .lparen, opt [r .expressionList], t .rparen]]

end Coupling.Java
