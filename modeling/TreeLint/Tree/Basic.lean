import TreeLint.Tree.Kind

/-!
# Trees

A tree is what the source text was parsed into, with nothing left out: its tokens, blanks and line
breaks included, spell the text in order. A tree knows neither its place in a text nor what stands
around it, so the same tree may stand in many places; `Cursor` adds the place.

`Tree.text`, `Tree.width` and `Tree.tokens` are three views of one thing, and `withoutTrivia` is
the view that layout cannot change. `keptWidth` is the width as a node stores it.
-/

namespace TreeLint

/-- A leaf of a tree: a kind and its exact text. -/
structure Token where
  kind : Kind
  text : String
  deriving DecidableEq, Repr

/-- A token, or a node over other trees. -/
inductive Tree where
  | token (token : Token)
  | node (kind : Kind) (children : List Tree)

/-- A tree that is a node. -/
structure Node where
  kind : Kind
  children : List Tree

namespace Token

/-- The token of a kind with its fixed text, which is empty for kinds without one. -/
def fixed (k : Kind) : Token := ⟨k, k.fixedText?.getD ""⟩

def width (t : Token) : Nat := t.text.utf8ByteSize

end Token

namespace Tree

def kind : Tree → Kind
  | .token t => t.kind
  | .node k _ => k

def isTrivia (t : Tree) : Bool := t.kind.isTrivia

def node? : Tree → Option Node
  | .token _ => none
  | .node k children => some ⟨k, children⟩

def token? : Tree → Option Token
  | .token t => some t
  | .node _ _ => none

mutual

def tokens : Tree → List Token
  | .token t => [t]
  | .node _ children => tokensAll children

def tokensAll : List Tree → List Token
  | [] => []
  | t :: rest => t.tokens ++ tokensAll rest

end

mutual

def text : Tree → String
  | .token t => t.text
  | .node _ children => textAll children

def textAll : List Tree → String
  | [] => ""
  | t :: rest => t.text ++ textAll rest

end

mutual

def width : Tree → Nat
  | .token t => t.width
  | .node _ children => widthAll children

def widthAll : List Tree → Nat
  | [] => 0
  | t :: rest => t.width + widthAll rest

end

mutual

/-- The width that a tree keeps, in 32 bits. A node adds up those of its children when it is made,
and so does one that is made from another with some of the children replaced. -/
def keptWidth : Tree → UInt32
  | .token t => .ofNat t.width
  | .node _ children => keptWidthAll children

def keptWidthAll : List Tree → UInt32
  | [] => 0
  | t :: rest => t.keptWidth + keptWidthAll rest

end

mutual

/-- A tree without the blanks and line breaks inside it. -/
def withoutTrivia : Tree → Tree
  | .token t => .token t
  | .node k children => .node k (withoutTriviaAll children)

/-- The trees of a list that are no trivia tokens, without the trivia inside them. -/
def withoutTriviaAll : List Tree → List Tree
  | [] => []
  | .token t :: rest =>
    if t.kind.isTrivia then withoutTriviaAll rest else .token t :: withoutTriviaAll rest
  | .node k children :: rest => (Tree.node k children).withoutTrivia :: withoutTriviaAll rest

end

mutual

def decEq : (a b : Tree) → Decidable (a = b)
  | .token a, .token b => decidable_of_iff (a = b) (by simp)
  | .node k as, .node l bs =>
    have := decEqAll as bs
    decidable_of_iff (k = l ∧ as = bs) (by simp)
  | .token _, .node _ _ => isFalse (by simp)
  | .node _ _, .token _ => isFalse (by simp)

def decEqAll : (as bs : List Tree) → Decidable (as = bs)
  | [], [] => isTrue rfl
  | a :: as, b :: bs =>
    have := decEq a b
    have := decEqAll as bs
    decidable_of_iff (a = b ∧ as = bs) (by simp)
  | [], _ :: _ => isFalse (by simp)
  | _ :: _, [] => isFalse (by simp)

end

instance : DecidableEq Tree := decEq

end Tree

deriving instance DecidableEq for Node

namespace Node

def toTree (n : Node) : Tree := .node n.kind n.children

instance : Coe Node Tree := ⟨toTree⟩

def text (n : Node) : String := Tree.textAll n.children

def width (n : Node) : Nat := Tree.widthAll n.children

def tokens (n : Node) : List Token := Tree.tokensAll n.children

/-- The node without the blanks and line breaks under it. -/
def withoutTrivia (n : Node) : Node := ⟨n.kind, Tree.withoutTriviaAll n.children⟩

def childNodes (n : Node) : List Node := n.children.filterMap Tree.node?

def childTokens (n : Node) : List Token := n.children.filterMap Tree.token?

/-- The node with another tree in place of a child. -/
def setChild (n : Node) (index : Nat) (t : Tree) : Node := ⟨n.kind, n.children.set index t⟩

/-- The node with another tree in place of a child, if it has such a child. -/
def replaceChild? (n : Node) (index : Nat) (t : Tree) : Option Node :=
  if index < n.children.length then some (n.setChild index t) else none

/-- The node with the children from `start` up to `stop` replaced by others. -/
def splice (n : Node) (start stop : Nat) (others : List Tree) : Node :=
  ⟨n.kind, n.children.take start ++ others ++ n.children.drop stop⟩

/-- The node with the children from `start` up to `stop` replaced by others, if it has them. -/
def splice? (n : Node) (start stop : Nat) (others : List Tree) : Option Node :=
  if start ≤ stop ∧ stop ≤ n.children.length then some (n.splice start stop others) else none

/-- The tree that a path of child indices leads to. -/
def get? (n : Node) : List Nat → Option Tree
  | [] => some n
  | index :: rest =>
    match n.children[index]? with
    | none => none
    | some (.node k children) => get? ⟨k, children⟩ rest
    | some (.token t) => if rest.isEmpty then some (.token t) else none

end Node

end TreeLint
