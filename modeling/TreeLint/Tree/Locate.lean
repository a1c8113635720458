import TreeLint.Cancellation
import TreeLint.Tree.Cursor

/-!
# Finding the declaration a request is about

There are two ways to find the one declaration that a request means. From the top, the first
declaration of a kind in document order, looked for in containers alone: compilation units and
namespaces. From a place in the text, the innermost node of a kind around the token at that place.

The way from the top polls its token before every node it visits.
-/

namespace TreeLint

namespace Cursor

mutual

/-- The nodes that a walk through containers visits in a tree, each before those under it. -/
def visitedOf (c : Cursor) (index start : Nat) : Tree → List Cursor
  | .token _ => []
  | .node k children =>
    c.child index start k children ::
      (if k.isContainer then visitedFrom (c.child index start k children) 0 start children else [])

def visitedFrom (c : Cursor) (index start : Nat) : List Tree → List Cursor
  | [] => []
  | t :: rest => visitedOf c index start t ++ visitedFrom c (index + 1) (start + t.width) rest

end

/-- The nodes that a walk through containers visits from a node on, in document order. -/
def visited (c : Cursor) : List Cursor :=
  c :: (if c.kind.isContainer then visitedFrom c 0 c.start c.node.children else [])

end Cursor

/-- A walk that looks for a declaration of one kind. It keeps the first it finds, counts its
visits, and remembers when it was cancelled. -/
structure Walker where
  target : Kind
  found : Option Cursor := none
  cancelled : Bool := false
  visits : Nat := 0

namespace Walker

variable {σ : Type}

/-- Visits nodes in order until one is found or the token is raised. -/
def visit (token : CancelToken σ) : List Cursor → Walker → StateM σ Walker
  | [], w => pure w
  | c :: rest, w => do
    let w := { w with visits := w.visits + 1 }
    if ← token.isRaised then return { w with cancelled := true }
    else if c.kind = w.target then return { w with found := some c }
    else visit token rest w

/-- Walks from a root. A walk that has found something visits no more. -/
def walk (token : CancelToken σ) (root : Cursor) (w : Walker) : StateM σ Walker :=
  if w.found.isSome then pure w else visit token root.visited w

/-- What the walk found. A walk that was cancelled has found nothing. -/
def result (w : Walker) : Except Cancelled (Option Cursor) :=
  if w.cancelled then .error ⟨⟩ else .ok w.found

end Walker

namespace Cursor

def findFirst {σ : Type} (token : CancelToken σ) (root : Cursor) (k : Kind) :
    Task σ (Option Cursor) := fun state =>
  let (w, state) := Walker.walk token root { target := k } state
  (w.result, state)

/-- The token that an offset refers to: the token that covers it, or the next one when that is
trivia. Trivia belongs to the token in front of it, so the place right behind a token refers to
that token. -/
def significantTokenAt? (root : Cursor) (offset : Nat) : Option TokenCursor :=
  match root.tokenAt? offset with
  | none => none
  | some t =>
    if !t.isTrivia then some t
    else
      let before := if offset = t.start ∧ 0 < offset then root.tokenAt? (offset - 1) else none
      match before with
      | some previous => if !previous.isTrivia then some previous else t.nextSignificant?
      | none => t.nextSignificant?

/-- The innermost node of a kind around the token at an offset. -/
def findAt? (root : Cursor) (offset : Nat) (k : Kind) : Option Cursor :=
  match root.significantTokenAt? offset with
  | some t => t.ancestors.find? fun c => c.kind == k
  | none => none

/-- The innermost node of a kind around the token at the start of a span. The token must hold the
whole span, and the span must start and end in the text. -/
def findForSpan? (root : Cursor) (s : Span) (k : Kind) : Option Cursor :=
  let width := root.fullSpan.length
  let ends := match s.stop? with
    | some stop => stop ≤ width
    | none => false
  if s.start < width && ends then
    match root.significantTokenAt? s.start with
    | some t => if t.span.containsSpan s then t.ancestors.find? fun c => c.kind == k else none
    | none => none
  else none

end Cursor

end TreeLint
