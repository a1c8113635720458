import TreeLint.Tree.Basic

/-!
# Layout

Layout replaces the trivia of a tree and nothing else: all blanks and line breaks go, and new ones
are put in front of the tokens that are left. What goes in front of a token depends on its kind, the
kind of the token before it and how many braces are open. So a first pass over the tokens in order
decides on the separators, and a second one, down the tree, uses them up one by one.

Members in braces stand on lines of their own, one level further in; empty bodies stay closed;
attribute lists get a line of their own if the options say so. Elsewhere one blank parts two tokens,
but for dots, opening brackets and what closes or ends something.
-/

namespace TreeLint

structure FormattingOptions where
  /-- Blanks for each level of indentation. -/
  indentSize : Nat := 4
  /-- Indent with blanks, not with tabs. -/
  insertSpaces : Bool := true
  newLine : String := "\n"
  attributeListsOnOwnLine : Bool := true
  deriving DecidableEq, Repr

/-- The tokens of a list that are no trivia. -/
def significant (tokens : List Token) : List Token := tokens.filter fun t => !t.kind.isTrivia

/-- What is put in front of a token. -/
inductive Separator where
  | nothing
  | space
  /-- A line break and the indentation of a depth. -/
  | line (depth : Nat)
  deriving DecidableEq, Repr

/-- What layout remembers of the tokens so far. -/
structure LayoutState where
  depth : Nat := 0
  previous : Option Kind := none
  deriving DecidableEq, Repr

namespace FormattingOptions

def indentation (options : FormattingOptions) (depth : Nat) : String :=
  if options.insertSpaces then String.ofList (List.replicate (options.indentSize * depth) ' ')
  else String.ofList (List.replicate depth '\t')

/-- The separator of two tokens neither of which opens or closes a body. -/
def between (options : FormattingOptions) (previous current : Kind) (depth : Nat) : Separator :=
  if previous == .closeBraceToken || previous == .semicolonToken then .line depth
  else if previous == .closeBracketToken && options.attributeListsOnOwnLine then .line depth
  else if previous == .closeBracketToken && current == .openBracketToken then .nothing
  else if [Kind.dotToken, .openParenToken, .openBracketToken].contains previous then .nothing
  else if [Kind.dotToken, .commaToken, .semicolonToken, .openParenToken, .closeParenToken,
      .closeBracketToken].contains current then .nothing
  else .space

/-- The separator in front of a token and the depth behind it. -/
def separate (options : FormattingOptions) (state : LayoutState) (current : Kind) :
    Separator × Nat :=
  match state.previous with
  | none => (.nothing, state.depth)
  | some previous =>
    if current = .closeBraceToken then
      if previous = .openBraceToken then (.nothing, state.depth)
      else (.line (state.depth - 1), state.depth - 1)
    else if previous = .openBraceToken then (.line (state.depth + 1), state.depth + 1)
    else if current = .endOfFileToken then (.line 0, state.depth)
    else (options.between previous current state.depth, state.depth)

def trivia (options : FormattingOptions) : Separator → List Tree
  | .nothing => []
  | .space => [.token ⟨.whitespace, " "⟩]
  | .line depth =>
    .token ⟨.endOfLine, options.newLine⟩ ::
      (if (options.indentation depth).isEmpty then []
      else [.token ⟨.whitespace, options.indentation depth⟩])

/-- The state behind a token. -/
def behind (options : FormattingOptions) (state : LayoutState) (k : Kind) : LayoutState :=
  ⟨(options.separate state k).2, some k⟩

/-- The separators in front of some tokens, none of which is trivia. -/
def separators (options : FormattingOptions) (state : LayoutState) : List Token → List Separator
  | [] => []
  | t :: rest =>
    (options.separate state t.kind).1 :: separators options (options.behind state t.kind) rest

mutual

/-- A tree with the trivia of one separator after the other in front of its tokens, in place of what
trivia it has, and the separators that are left over. -/
def rebuild (options : FormattingOptions) (separators : List Separator) :
    Tree → List Tree × List Separator
  | .token t =>
    if t.kind.isTrivia then ([], separators)
    else (separators.head?.toList.flatMap options.trivia ++ [.token t], separators.tail)
  | .node k children =>
    let (children, separators) := rebuildAll options separators children
    ([.node k children], separators)

def rebuildAll (options : FormattingOptions) (separators : List Separator) :
    List Tree → List Tree × List Separator
  | [] => ([], separators)
  | t :: rest =>
    let (first, separators) := rebuild options separators t
    let (others, separators) := rebuildAll options separators rest
    (first ++ others, separators)

end

def format (options : FormattingOptions) (n : Node) : Node :=
  ⟨n.kind, (options.rebuildAll (options.separators {} (significant n.tokens)) n.children).1⟩

end FormattingOptions

end TreeLint
