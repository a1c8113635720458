/-!
# Kinds of tokens and nodes

Every element of a tree has a kind. The kinds stand in one order: trivia, the other tokens, nodes;
the last token kind is the end of the file, so being a token is a comparison with it.
-/

namespace TreeLint

inductive Kind where
  | whitespace
  | endOfLine
  | identifierToken
  | stringLiteralToken
  | numericLiteralToken
  | classKeyword
  | structKeyword
  | interfaceKeyword
  | namespaceKeyword
  | usingKeyword
  | publicKeyword
  | voidKeyword
  | openBraceToken
  | closeBraceToken
  | openBracketToken
  | closeBracketToken
  | openParenToken
  | closeParenToken
  | colonToken
  | commaToken
  | dotToken
  | equalsToken
  | semicolonToken
  | endOfFileToken
  | compilationUnit
  | usingDirective
  | namespaceDeclaration
  | classDeclaration
  | structDeclaration
  | interfaceDeclaration
  | attributeList
  | attribute
  | attributeArgumentList
  | attributeArgument
  | baseList
  | simpleBaseType
  | methodDeclaration
  | parameterList
  | block
  | expressionStatement
  | simpleAssignmentExpression
  | simpleMemberAccessExpression
  | stringLiteralExpression
  | numericLiteralExpression
  | identifierName
  | qualifiedName
  deriving DecidableEq, Repr

namespace Kind

/-- All kinds, in their order. -/
def all : List Kind :=
  [.whitespace, .endOfLine, .identifierToken,
    .stringLiteralToken, .numericLiteralToken, .classKeyword,
    .structKeyword, .interfaceKeyword, .namespaceKeyword,
    .usingKeyword, .publicKeyword, .voidKeyword,
    .openBraceToken, .closeBraceToken, .openBracketToken,
    .closeBracketToken, .openParenToken, .closeParenToken,
    .colonToken, .commaToken, .dotToken,
    .equalsToken, .semicolonToken, .endOfFileToken,
    .compilationUnit, .usingDirective, .namespaceDeclaration,
    .classDeclaration, .structDeclaration, .interfaceDeclaration,
    .attributeList, .attribute, .attributeArgumentList,
    .attributeArgument, .baseList, .simpleBaseType,
    .methodDeclaration, .parameterList, .block,
    .expressionStatement, .simpleAssignmentExpression, .simpleMemberAccessExpression,
    .stringLiteralExpression, .numericLiteralExpression, .identifierName,
    .qualifiedName]

def number (k : Kind) : Nat := k.ctorIdx

def name : Kind → String
  | .whitespace => "Whitespace"
  | .endOfLine => "EndOfLine"
  | .identifierToken => "IdentifierToken"
  | .stringLiteralToken => "StringLiteralToken"
  | .numericLiteralToken => "NumericLiteralToken"
  | .classKeyword => "ClassKeyword"
  | .structKeyword => "StructKeyword"
  | .interfaceKeyword => "InterfaceKeyword"
  | .namespaceKeyword => "NamespaceKeyword"
  | .usingKeyword => "UsingKeyword"
  | .publicKeyword => "PublicKeyword"
  | .voidKeyword => "VoidKeyword"
  | .openBraceToken => "OpenBraceToken"
  | .closeBraceToken => "CloseBraceToken"
  | .openBracketToken => "OpenBracketToken"
  | .closeBracketToken => "CloseBracketToken"
  | .openParenToken => "OpenParenToken"
  | .closeParenToken => "CloseParenToken"
  | .colonToken => "ColonToken"
  | .commaToken => "CommaToken"
  | .dotToken => "DotToken"
  | .equalsToken => "EqualsToken"
  | .semicolonToken => "SemicolonToken"
  | .endOfFileToken => "EndOfFileToken"
  | .compilationUnit => "CompilationUnit"
  | .usingDirective => "UsingDirective"
  | .namespaceDeclaration => "NamespaceDeclaration"
  | .classDeclaration => "ClassDeclaration"
  | .structDeclaration => "StructDeclaration"
  | .interfaceDeclaration => "InterfaceDeclaration"
  | .attributeList => "AttributeList"
  | .attribute => "Attribute"
  | .attributeArgumentList => "AttributeArgumentList"
  | .attributeArgument => "AttributeArgument"
  | .baseList => "BaseList"
  | .simpleBaseType => "SimpleBaseType"
  | .methodDeclaration => "MethodDeclaration"
  | .parameterList => "ParameterList"
  | .block => "Block"
  | .expressionStatement => "ExpressionStatement"
  | .simpleAssignmentExpression => "SimpleAssignmentExpression"
  | .simpleMemberAccessExpression => "SimpleMemberAccessExpression"
  | .stringLiteralExpression => "StringLiteralExpression"
  | .numericLiteralExpression => "NumericLiteralExpression"
  | .identifierName => "IdentifierName"
  | .qualifiedName => "QualifiedName"

def ofName? (name : String) : Option Kind := all.find? fun k => k.name == name

/-- Blanks and line breaks: what layout may change. -/
def isTrivia (k : Kind) : Bool := k == .whitespace || k == .endOfLine

def isToken (k : Kind) : Bool := k.number ≤ endOfFileToken.number

def isNode (k : Kind) : Bool := !k.isToken

def isKeyword (k : Kind) : Bool :=
  [classKeyword, structKeyword, interfaceKeyword, namespaceKeyword, usingKeyword, publicKeyword,
    voidKeyword].contains k

/-- The nodes that declarations are looked for in. -/
def isContainer (k : Kind) : Bool := k == .compilationUnit || k == .namespaceDeclaration

def isTypeDeclaration (k : Kind) : Bool :=
  k == .classDeclaration || k == .structDeclaration || k == .interfaceDeclaration

/-- The text that every token of a kind has, for keywords and punctuation. -/
def fixedText? : Kind → Option String
  | .classKeyword => some "class"
  | .structKeyword => some "struct"
  | .interfaceKeyword => some "interface"
  | .namespaceKeyword => some "namespace"
  | .usingKeyword => some "using"
  | .publicKeyword => some "public"
  | .voidKeyword => some "void"
  | .openBraceToken => some "\x7b"
  | .closeBraceToken => some "\x7d"
  | .openBracketToken => some "["
  | .closeBracketToken => some "]"
  | .openParenToken => some "("
  | .closeParenToken => some ")"
  | .colonToken => some ":"
  | .commaToken => some ","
  | .dotToken => some "."
  | .equalsToken => some "="
  | .semicolonToken => some ";"
  | .endOfFileToken => some ""
  | _ => none

end Kind

end TreeLint
