import TreeLint.Tree.Dotted

/-!
# Building trees

Constructors for well-formed trees: one blank where words need one, no line breaks but between the
parts of a compilation unit. Layout beyond that is for the formatter.
-/

namespace TreeLint.Build

def fixed (k : Kind) : Tree := .token (.fixed k)

def identifierToken (text : String) : Tree := .token ⟨.identifierToken, text⟩

def space : Tree := .token ⟨.whitespace, " "⟩

def lineEnd : Tree := .token ⟨.endOfLine, "\n"⟩

/-- Items with a comma and a blank between them. -/
def separated : List Node → List Tree
  | [] => []
  | [item] => [item.toTree]
  | item :: rest => item.toTree :: fixed .commaToken :: space :: separated rest

/-! ## Names and expressions -/

def identifierName (name : String) : Node := ⟨.identifierName, [identifierToken name]⟩

def qualifiedName (left right : Node) : Node :=
  ⟨.qualifiedName, [left.toTree, fixed .dotToken, right.toTree]⟩

/-- A name of segments, nested to the left, as one level of nesting per dot. -/
def nested (level : Node → Node → Node) : List String → Node
  | [] => identifierName ""
  | first :: others => others.foldl (fun name segment => level name (identifierName segment))
      (identifierName first)

/-- The type or namespace name that a dotted text spells. -/
def name (dotted : String) : Node := nested qualifiedName (Dotted.segments dotted)

def memberAccess (receiver : Node) (member : String) : Node :=
  ⟨.simpleMemberAccessExpression,
    [receiver.toTree, fixed .dotToken, (identifierName member).toTree]⟩

/-- The expression that a dotted text spells. -/
def memberAccessChain (dotted : String) : Node :=
  nested (fun receiver member =>
    ⟨.simpleMemberAccessExpression, [receiver.toTree, fixed .dotToken, member.toTree]⟩)
    (Dotted.segments dotted)

/-- A character inside a string literal: quotes, backslashes and line feeds are escaped. -/
def literalChar (c : Char) : List Char :=
  if c = '"' then ['\\', '"']
  else if c = '\\' then ['\\', '\\']
  else if c = '\n' then ['\\', 'n']
  else [c]

/-- The text of a string literal with its quotes. -/
def literalText (value : String) : String :=
  String.ofList ('"' :: (value.toList.flatMap literalChar ++ ['"']))

def stringLiteral (value : String) : Node :=
  ⟨.stringLiteralExpression, [.token ⟨.stringLiteralToken, literalText value⟩]⟩

def numericLiteral (value : Int) : Node :=
  ⟨.numericLiteralExpression, [.token ⟨.numericLiteralToken, toString value⟩]⟩

def assignment (left right : Node) : Node :=
  ⟨.simpleAssignmentExpression,
    [left.toTree, space, fixed .equalsToken, space, right.toTree]⟩

def expressionStatement (expression : Node) : Node :=
  ⟨.expressionStatement, [expression.toTree, fixed .semicolonToken]⟩

/-! ## Attributes -/

def attributeArgument (expression : Node) : Node := ⟨.attributeArgument, [expression.toTree]⟩

def attributeArgumentList (arguments : List Node) : Node :=
  ⟨.attributeArgumentList,
    fixed .openParenToken :: (separated arguments ++ [fixed .closeParenToken])⟩

def attributeOf (name : Node) (arguments : Option Node) : Node :=
  ⟨.attribute, name.toTree :: (arguments.toList.map Node.toTree)⟩

def attributeList (attributes : List Node) : Node :=
  ⟨.attributeList, fixed .openBracketToken :: (separated attributes ++ [fixed .closeBracketToken])⟩

/-! ## Declarations -/

def baseType (type : Node) : Node := ⟨.simpleBaseType, [type.toTree]⟩

/-- A base list of type names. -/
def baseList (names : List String) : Node :=
  ⟨.baseList, fixed .colonToken :: space :: separated (names.map fun n => baseType (name n))⟩

/-- A body in braces behind what a node starts with: items between blanks, or nothing. -/
def braced (k : Kind) (head : List Tree) (items : List Node) : Node :=
  let body := items.flatMap fun item => [space, item.toTree]
  let closing := if items.isEmpty then [] else [space]
  ⟨k, head ++ fixed .openBraceToken :: body ++ closing ++ [fixed .closeBraceToken]⟩

def block (statements : List Node) : Node := braced .block [] statements

def parameterList : Node := ⟨.parameterList, [fixed .openParenToken, fixed .closeParenToken]⟩

def method (name : String) (statements : List Node) : Node :=
  ⟨.methodDeclaration,
    [fixed .publicKeyword, space, fixed .voidKeyword, space, identifierToken name,
      parameterList.toTree, space, (block statements).toTree]⟩

/-- What a type declaration is built from. -/
structure TypeParts where
  name : String
  attributes : List Node := []
  isPublic : Bool := false
  bases : List String := []
  members : List Node := []

def typeKeyword : Kind → Kind
  | .structDeclaration => .structKeyword
  | .interfaceDeclaration => .interfaceKeyword
  | _ => .classKeyword

def typeDeclaration (k : Kind) (parts : TypeParts) : Node :=
  let head := parts.attributes.flatMap (fun list => [list.toTree, space]) ++
    (if parts.isPublic then [fixed .publicKeyword, space] else []) ++
    [fixed (typeKeyword k), space, identifierToken parts.name] ++
    (if parts.bases.isEmpty then [] else [space, (baseList parts.bases).toTree]) ++ [space]
  braced k head parts.members

def namespaceDeclaration (dotted : String) (members : List Node) : Node :=
  braced .namespaceDeclaration
    [fixed .namespaceKeyword, space, (name dotted).toTree, space] members

def usingDirective (dotted : String) : Node :=
  ⟨.usingDirective, [fixed .usingKeyword, space, (name dotted).toTree, fixed .semicolonToken]⟩

/-- Usings and members, each with a line end behind it, and the end of the file. -/
def compilationUnit (usings members : List Node) : Node :=
  ⟨.compilationUnit,
    (usings ++ members).flatMap (fun item => [item.toTree, lineEnd]) ++ [fixed .endOfFileToken]⟩

end TreeLint.Build
