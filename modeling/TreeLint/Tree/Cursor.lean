import TreeLint.Text.Span
import TreeLint.Tree.Basic

/-!
# Nodes and tokens with their place

A cursor is a node together with where it stands: the offset at which its text starts and the
frames of the nodes around it, innermost first, each with the index of the child that was entered.
The frames hold everything needed to put another node in its place and get the whole tree back.

`Cursor.preorder` lists everything under a node in document order, each node before what is under
it. Descendants and tokens are the two halves of that list.

A tree does not say which of its tokens are kept as one. Where that matters it is a parameter.
-/

namespace TreeLint

/-- A node that was entered on the way down: the node, where it starts, and which child was
entered. -/
structure Frame where
  node : Node
  start : Nat
  index : Nat
  deriving DecidableEq

/-- A node in its place. -/
structure Cursor where
  node : Node
  start : Nat
  above : List Frame
  deriving DecidableEq

/-- A token in its place. -/
structure TokenCursor where
  token : Token
  start : Nat
  index : Nat
  parent : Cursor
  deriving DecidableEq

/-- Which tokens of a tree are kept as one. A token that stands in several places may be kept once
for all of them; `home` sends the path to a token to the place that it is kept for. -/
structure Sharing where
  home : List Nat → List Nat

/-- Every token is kept for its own place. -/
def Sharing.apart : Sharing := ⟨id⟩

/-- A child in its place. -/
inductive Element where
  | node (cursor : Cursor)
  | token (cursor : TokenCursor)

namespace Element

def node? : Element → Option Cursor
  | .node c => some c
  | .token _ => none

def token? : Element → Option TokenCursor
  | .node _ => none
  | .token t => some t

end Element

namespace Cursor

def ofRoot (n : Node) : Cursor := ⟨n, 0, []⟩

def kind (c : Cursor) : Kind := c.node.kind

def text (c : Cursor) : String := c.node.text

/-- The place of a node among its parent's children, zero for a root. -/
def index (c : Cursor) : Nat :=
  match c.above with
  | [] => 0
  | frame :: _ => frame.index

/-- The child indices that lead from the root to a node. -/
def path (c : Cursor) : List Nat := (c.above.map (·.index)).reverse

def parent? (c : Cursor) : Option Cursor :=
  match c.above with
  | [] => none
  | frame :: rest => some ⟨frame.node, frame.start, rest⟩

/-- The nodes around the place that some frames lead to, innermost first. -/
def enclosing : List Frame → List Cursor
  | [] => []
  | frame :: rest => ⟨frame.node, frame.start, rest⟩ :: enclosing rest

/-- A node followed by the nodes around it, innermost first. -/
def ancestors (c : Cursor) : List Cursor := c :: enclosing c.above

def root (c : Cursor) : Cursor := c.ancestors.getLastD c

/-- A node with the nodes around it, without their places: all that names are resolved by. -/
def scope (c : Cursor) : List Node := c.node :: c.above.map (·.node)

/-- The text of a node, trivia at both ends included. -/
def fullSpan (c : Cursor) : Span := ⟨c.start, c.node.width⟩

/-- The frames of a node's children, for the child at an index. -/
def frames (c : Cursor) (index : Nat) : List Frame := ⟨c.node, c.start, index⟩ :: c.above

/-- A child node in its place. -/
def child (c : Cursor) (index start : Nat) (kind : Kind) (children : List Tree) : Cursor :=
  ⟨⟨kind, children⟩, start, c.frames index⟩

/-- Trees as children of a node, the first of them at an index and offset. -/
def elementsFrom (c : Cursor) (index start : Nat) : List Tree → List Element
  | [] => []
  | .token t :: rest =>
    .token ⟨t, start, index, c⟩ :: elementsFrom c (index + 1) (start + t.width) rest
  | .node k children :: rest =>
    .node (c.child index start k children) ::
      elementsFrom c (index + 1) (start + (Tree.node k children).width) rest

def elements (c : Cursor) : List Element := c.elementsFrom 0 c.start c.node.children

def childNodes (c : Cursor) : List Cursor := c.elements.filterMap Element.node?

def childTokens (c : Cursor) : List TokenCursor := c.elements.filterMap Element.token?

def firstChild? (c : Cursor) : Option Cursor := c.childNodes.head?

def firstChildOfKind? (c : Cursor) (k : Kind) : Option Cursor :=
  c.childNodes.find? fun child => child.kind == k

def firstTokenOfKind? (c : Cursor) (k : Kind) : Option TokenCursor :=
  c.childTokens.find? fun t => t.token.kind == k

def element? (c : Cursor) (index : Nat) : Option Element := c.elements[index]?

/-- What a path of child indices leads to from a node. -/
def descend? (c : Cursor) : List Nat → Option Element
  | [] => some (.node c)
  | index :: rest =>
    match c.element? index with
    | none => none
    | some (.node child) => child.descend? rest
    | some (.token t) => if rest.isEmpty then some (.token t) else none

/-! ## Everything under a node -/

mutual

/-- A tree and everything under it, as a child of a node. -/
def preorderOf (c : Cursor) (index start : Nat) : Tree → List Element
  | .token t => [.token ⟨t, start, index, c⟩]
  | .node k children =>
    .node (c.child index start k children) ::
      preorderFrom (c.child index start k children) 0 start children

def preorderFrom (c : Cursor) (index start : Nat) : List Tree → List Element
  | [] => []
  | t :: rest => preorderOf c index start t ++ preorderFrom c (index + 1) (start + t.width) rest

end

/-- A node and everything under it, in document order. -/
def preorder (c : Cursor) : List Element := .node c :: preorderFrom c 0 c.start c.node.children

/-- A node and the nodes under it, each before those under it. -/
def descendants (c : Cursor) : List Cursor := c.preorder.filterMap Element.node?

/-- The tokens under a node, trivia included. -/
def tokens (c : Cursor) : List TokenCursor := c.preorder.filterMap Element.token?

end Cursor

namespace TokenCursor

def kind (t : TokenCursor) : Kind := t.token.kind

def text (t : TokenCursor) : String := t.token.text

def isTrivia (t : TokenCursor) : Bool := t.token.kind.isTrivia

def span (t : TokenCursor) : Span := ⟨t.start, t.token.width⟩

def path (t : TokenCursor) : List Nat := t.parent.path ++ [t.index]

def ancestors (t : TokenCursor) : List Cursor := t.parent.ancestors

/-- Whether two tokens count as one: they start at the same offset and are kept as one. -/
def isSame (s : Sharing) (t u : TokenCursor) : Bool :=
  t.start == u.start && s.home t.path == s.home u.path

/-- The first token of the whole tree that starts at or behind the end of this one, is not trivia
and does not count as this token. -/
def nextSignificantIn? (s : Sharing) (t : TokenCursor) : Option TokenCursor :=
  t.parent.root.tokens.find? fun other =>
    t.span.stop ≤ other.start && !other.isTrivia && !other.isSame s t

/-- The next significant token in a tree that keeps every token apart. -/
def nextSignificant? (t : TokenCursor) : Option TokenCursor := t.nextSignificantIn? .apart

end TokenCursor

namespace Cursor

def firstToken? (c : Cursor) : Option TokenCursor := c.tokens.find? fun t => !t.isTrivia

def lastToken? (c : Cursor) : Option TokenCursor := c.tokens.reverse.find? fun t => !t.isTrivia

/-- From the first to the last token that is not trivia; where there is none, the caret at which
the node starts. -/
def span (c : Cursor) : Span :=
  match c.firstToken?, c.lastToken? with
  | some first, some last => .ofBounds first.start last.span.stop
  | _, _ => .caret c.start

/-! ## The token at an offset -/

mutual

/-- The token of a child tree that covers an offset. -/
def tokenAtOf? (c : Cursor) (offset index start : Nat) : Tree → Option TokenCursor
  | .token t => some ⟨t, start, index, c⟩
  | .node k children => tokenAtFrom? (c.child index start k children) offset 0 start children

/-- The token of the first of some child trees that covers an offset. -/
def tokenAtFrom? (c : Cursor) (offset index start : Nat) : List Tree → Option TokenCursor
  | [] => none
  | t :: rest =>
    if (⟨start, t.width⟩ : Span).contains offset then tokenAtOf? c offset index start t
    else tokenAtFrom? c offset (index + 1) (start + t.width) rest

end

/-- The token whose text covers an offset, trivia included. -/
def tokenAt? (c : Cursor) (offset : Nat) : Option TokenCursor :=
  if c.fullSpan.contains offset then tokenAtFrom? c offset 0 c.start c.node.children else none

/-! ## Replacing a node -/

/-- The root of the tree in which a node stands under the given frames. -/
def rebuild : List Frame → Node → Node
  | [], n => n
  | frame :: rest, n => rebuild rest (frame.node.setChild frame.index n)

/-- The root of the tree with another node in place of this one. -/
def replaceWith (c : Cursor) (n : Node) : Node := rebuild c.above n

end Cursor

end TreeLint
