import TreeLint.Proofs.SpelledValues
import TreeLint.Tree.Stored

/-!
# A stored tree comes back

A tree is written as objects with a kind under a text or a list of children, and read in two steps:
by form, then by kind. Written trees have the right form whatever their kinds and texts are, so the
first step always gives the tree back. The second lets it pass if its kinds fit, and of the kinds it
knows no more than the elements in document order: `Tree.fault?` is the first misfit among them.

What limits the reading of a text is depth. A node takes up two levels of JSON, its object and the
list in it, and a token at the bottom one more.
-/

namespace TreeLint

theorem Kind.ofName?_name (k : Kind) : Kind.ofName? k.name = some k := by
  cases k <;> decide +kernel

theorem Kind.ofName?_eq_some {name : String} {k : Kind} :
    Kind.ofName? name = some k ↔ name = k.name := by
  constructor
  · intro h
    rw [ofName?] at h
    have hname := List.find?_some h
    exact (eq_of_beq hname).symm
  · rintro rfl
    exact k.ofName?_name

namespace Tree

/-! ## The kinds of a tree -/

mutual

/-- A tree and everything under it, each node before what is under it. -/
def subtrees : Tree → List Tree
  | .token t => [.token t]
  | .node k children => .node k children :: subtreesAll children

def subtreesAll : List Tree → List Tree
  | [] => []
  | t :: rest => t.subtrees ++ subtreesAll rest

end

/-- What is wrong with the kind of a tree, whatever is under it. -/
def misfit? : Tree → Option TreeFault
  | .token t => if t.kind.isToken then none else some (.notTokenKind t.kind)
  | .node k _ => if k.isNode then none else some (.notNodeKind k)

mutual

/-- The fault of a tree is the first misfit in document order. -/
theorem fault?_eq : (t : Tree) → t.fault? = t.subtrees.findSome? misfit?
  | .token t => by
      rw [fault?, subtrees, List.findSome?_singleton, misfit?]
  | .node k children => by
      rw [fault?, subtrees, List.findSome?_cons, misfit?, faultAll?_eq children]
      cases k.isNode <;> rfl

theorem faultAll?_eq : (ts : List Tree) → faultAll? ts = (subtreesAll ts).findSome? misfit?
  | [] => rfl
  | t :: rest => by
      rw [faultAll?, subtreesAll, List.findSome?_append, fault?_eq t, faultAll?_eq rest]
      cases t.subtrees.findSome? misfit? <;> rfl

end

/-- Whether the kind of a tree fits what it is, whatever is under it. -/
def kindFits : Tree → Bool
  | .token t => t.kind.isToken
  | .node k _ => k.isNode

theorem misfit?_eq_none {t : Tree} : t.misfit? = none ↔ t.kindFits = true := by
  cases t with
  | token t => simp [misfit?, kindFits]
  | node k children => simp [misfit?, kindFits]

theorem fault?_eq_none {t : Tree} :
    t.fault? = none ↔ ∀ s ∈ t.subtrees, s.kindFits = true := by
  simp only [fault?_eq, List.findSome?_eq_none_iff, misfit?_eq_none]

theorem kindsFit_iff {t : Tree} : (∀ s ∈ t.subtrees, s.kindFits = true) ↔
    (∀ token : Token, .token token ∈ t.subtrees → token.kind.isToken = true) ∧
      ∀ k children, .node k children ∈ t.subtrees → k.isNode = true := by
  constructor
  · intro h
    exact ⟨fun _ hmem => h _ hmem, fun _ _ hmem => h _ hmem⟩
  · rintro ⟨htokens, hnodes⟩ s hs
    cases s with
    | token token => exact htokens token hs
    | node k children => exact hnodes k children hs

/-! ## The form of a written tree -/

theorem storedKind?_name (k : Kind) : storedKind? (.string k.name) = some k := k.ofName?_name

mutual

theorem ofJson?_toJson : (t : Tree) → ofJson? t.toJson = some t
  | .token t => by
      have hkind := storedKind?_name t.kind
      simp [toJson, ofJson?, partsOf, hkind, StoredParts.tree?, Json.Value.string?]
  | .node k children => by
      have hkind := storedKind?_name k
      have hchildren := ofJsonAll?_toJsonAll children
      simp [toJson, ofJson?, partsOf, hkind, StoredParts.tree?, childrenOf?, hchildren]

theorem ofJsonAll?_toJsonAll : (ts : List Tree) → ofJsonAll? (toJsonAll ts) = some ts
  | [] => rfl
  | t :: rest => by
      rw [toJsonAll, ofJsonAll?, ofJson?_toJson t, ofJsonAll?_toJsonAll rest]

end

mutual

/-- How many nodes of a tree stand inside each other at most. -/
def nesting : Tree → Nat
  | .token _ => 0
  | .node _ children => nestingAll children + 1

def nestingAll : List Tree → Nat
  | [] => 0
  | t :: rest => max t.nesting (nestingAll rest)

end

mutual

theorem nesting_toJson : (t : Tree) → t.toJson.nesting ≤ 2 * t.nesting + 1
  | .token t => Nat.le_refl 1
  | .node k children => by
      have hchildren := nestingItems_toJsonAll children
      simp only [toJson, nesting, Json.Value.nesting, Json.Value.nestingEntries]
      omega

theorem nestingItems_toJsonAll : (ts : List Tree) →
    Json.Value.nestingItems (toJsonAll ts) ≤ 2 * nestingAll ts + 1
  | [] => Nat.zero_le 1
  | t :: rest => by
      have ht := nesting_toJson t
      have hrest := nestingItems_toJsonAll rest
      simp only [toJsonAll, nestingAll, Json.Value.nestingItems]
      omega

end

mutual

theorem kept_toJson : (t : Tree) → t.toJson.Kept
  | .token _ => ⟨trivial, trivial, trivial⟩
  | .node _ children => ⟨trivial, keptItems_toJsonAll children, trivial⟩

theorem keptItems_toJsonAll : (ts : List Tree) → Json.Value.KeptItems (toJsonAll ts)
  | [] => trivial
  | t :: rest => ⟨kept_toJson t, keptItems_toJsonAll rest⟩

end

end Tree

namespace Node

theorem ofForm_toTree {n : Node} (h : ∀ s ∈ n.toTree.subtrees, s.kindFits = true) :
    ofForm n.toTree = .ok n := by
  have hfault := Tree.fault?_eq_none.2 h
  unfold ofForm
  rw [hfault]
  rfl

/-- A written node is read back if its kinds fit. -/
theorem ofJson_toJson {n : Node} (h : ∀ s ∈ n.toTree.subtrees, s.kindFits = true) :
    ofJson n.toJson = .ok n := by
  rw [ofJson, toJson, Tree.ofJson?_toJson]
  simp only [ofForm_toTree h]

/-- From a text that spells a value, what is read is the node that the value stands for. -/
theorem parseStored_of_spells {v : Json.Value} {text : List Char} (h : Json.Spells v text)
    (hdepth : v.nesting ≤ Json.maxDepth) : parseStored text = ofJson v := by
  have hread := Json.readValue_spells h hdepth (Nat.le_refl _) Json.endsNumber_nil
  rw [List.append_nil] at hread
  rw [parseStored, Json.readAll, readStored, hread]
  dsimp only
  cases ofJson v <;> rfl

/-- A node is read back from both layouts of its JSON, whatever the texts of its tokens are, if its
kinds fit and it is not nested past the depth of a JSON text. -/
theorem parseStored_toJson {n : Node}
    (htokens : ∀ t : Token, .token t ∈ n.toTree.subtrees → t.kind.isToken = true)
    (hnodes : ∀ k children, .node k children ∈ n.toTree.subtrees → k.isNode = true)
    (hnesting : n.toTree.nesting ≤ 63) :
    parseStored n.toJson.compact.toList = .ok n ∧
      parseStored n.toJson.indented.toList = .ok n := by
  have hfit := Tree.kindsFit_iff.2 ⟨htokens, hnodes⟩
  have hdepth : n.toJson.nesting ≤ Json.maxDepth :=
    Nat.le_trans (Tree.nesting_toJson n.toTree) (by rw [Json.maxDepth]; omega)
  have hkept : n.toJson.Kept := Tree.kept_toJson n.toTree
  constructor
  · rw [Json.Value.compact, String.toList_ofList,
      parseStored_of_spells (Json.spells_writeCompact _ hkept) hdepth, ofJson_toJson hfit]
  · rw [Json.Value.indented, String.toList_ofList,
      parseStored_of_spells (Json.spells_writeIndented _ hkept 0) hdepth, ofJson_toJson hfit]

/-- A tree with quotes, a backslash, a control character, a character past the first plane and an
empty text comes back. -/
theorem parseStored_toJson_texts : let n : Node := ⟨.block, [.token ⟨.stringLiteralToken,
      "\"C:\\\x01\t\x7f😀\""⟩, .node .parameterList [.token ⟨.whitespace, ""⟩], .node .block []]⟩
    (∀ t : Token, .token t ∈ n.toTree.subtrees → t.kind.isToken = true) ∧
      (∀ k children, .node k children ∈ n.toTree.subtrees → k.isNode = true) ∧
      n.toTree.nesting ≤ 63 ∧
      parseStored n.toJson.compact.toList = .ok n ∧
      parseStored n.toJson.indented.toList = .ok n := by
  intro n
  have hfault : n.toTree.fault? = none := rfl
  obtain ⟨htokens, hnodes⟩ := Tree.kindsFit_iff.1 (Tree.fault?_eq_none.1 hfault)
  have hnesting : n.toTree.nesting ≤ 63 := by decide
  exact ⟨htokens, hnodes, hnesting, parseStored_toJson htokens hnodes hnesting⟩

end Node

end TreeLint
