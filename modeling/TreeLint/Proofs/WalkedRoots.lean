import TreeLint.Proofs.DocumentOrder
import TreeLint.Proofs.FirstClass

/-!
# One walker for several roots

A walker may be led through one root after another, and its token may be raised at some point
between two walks. What it reports then depends on the roots alone. A node found before the token
was raised stays, whatever comes behind it; if none was found, the first walk with the raised token
is given up at its first node, and this is what the walker reports in the end.

In one root the walk finds the first node of its kind among those around which, up to the root,
nothing but compilation units and namespaces stand. Such a root need not be that of a tree: what is
around the root itself does not matter.
-/

namespace TreeLint

namespace Cursor

/-! ## One root -/

/-- Whether what is around a node inside a root is all compilation units and namespaces. -/
def OuterIn (root c : Cursor) : Prop :=
  ∀ a ∈ c.ancestors.tail, a ∈ root.descendants →
    a.kind = .compilationUnit ∨ a.kind = .namespaceDeclaration

instance (root c : Cursor) : Decidable (root.OuterIn c) :=
  inferInstanceAs (Decidable (∀ a ∈ c.ancestors.tail, a ∈ root.descendants →
    a.kind = .compilationUnit ∨ a.kind = .namespaceDeclaration))

/-- The first node of a kind in document order that is only in containers inside a root. -/
def firstOuter? (root : Cursor) (k : Kind) : Option Cursor :=
  root.descendants.find? fun c => c.kind = k ∧ root.OuterIn c

theorem length_path (c : Cursor) : c.path.length = c.above.length := by
  simp [path]

theorem length_above_lt_of_mem_enclosing {a : Cursor} {frames : List Frame}
    (h : a ∈ enclosing frames) : a.above.length < frames.length := by
  induction frames with
  | nil => cases h
  | cons frame rest ih =>
      rw [List.length_cons]
      rcases List.mem_cons.1 h with rfl | h
      · exact Nat.lt_succ_self _
      · exact Nat.lt_succ_of_lt (ih h)

/-- Nothing around a root is inside it. -/
theorem not_mem_descendants_of_mem_enclosing {root a : Cursor} (h : a ∈ enclosing root.above) :
    a ∉ root.descendants := by
  intro hinside
  have hshorter := length_above_lt_of_mem_enclosing h
  rw [descendants_eq] at hinside
  rcases List.mem_cons.1 hinside with rfl | hunder
  · omega
  · obtain ⟨i, inner, hpath, -⟩ := exists_path_eq hunder
    have hlength := congrArg List.length hpath
    simp only [length_path, List.length_append, List.length_cons] at hlength
    omega

theorem outerIn_root (root : Cursor) : root.OuterIn root := fun _ ha hinside =>
  absurd hinside (not_mem_descendants_of_mem_enclosing ha)

theorem outerIn_child {root c : Cursor} (hc : c ∈ root.descendants) (index start : Nat) (k : Kind)
    (children : List Tree) : root.OuterIn (c.child index start k children) ↔
      c.kind.isContainer = true ∧ root.OuterIn c := by
  show (∀ a ∈ c :: c.ancestors.tail, a ∈ root.descendants →
    a.kind = .compilationUnit ∨ a.kind = .namespaceDeclaration) ↔ _
  rw [List.forall_mem_cons]
  simp [hc, Kind.isContainer, OuterIn]

/-- A walk visits what is only in containers inside its root. -/
theorem visited_eq_outer (root : Cursor) :
    root.visited = root.descendants.filter fun c => root.OuterIn c := by
  refine visited_eq_filter (fun c hc index start k children => ?_)
    (decide_eq_true root.outerIn_root)
  rw [Bool.eq_iff_iff, Bool.and_eq_true, decide_eq_true_iff, decide_eq_true_iff]
  exact outerIn_child hc index start k children

theorem find?_visited (root : Cursor) (k : Kind) :
    (root.visited.find? fun c => c.kind == k) = root.firstOuter? k := by
  rw [visited_eq_outer, List.find?_filter, firstOuter?]
  refine congrArg (List.find? · _) (funext fun c => ?_)
  simp [and_comm]

end Cursor

/-! ## One walk after the other -/

namespace Walker

/-- Walks from some roots in turn. -/
def walkAll {σ : Type} (token : CancelToken σ) : List Cursor → Walker → StateM σ Walker
  | [], w => pure w
  | root :: rest, w => do
    let w ← walk token root w
    walkAll token rest w

/-- The token that has been raised if the state says so. -/
def flag : CancelToken Bool := .watching id

theorem walkAll_cons {σ : Type} (token : CancelToken σ) (root : Cursor) (rest : List Cursor)
    (w : Walker) (state : σ) : walkAll token (root :: rest) w state =
      walkAll token rest (walk token root w state).1 (walk token root w state).2 := rfl

/-- What was found stays. -/
theorem walkAll_of_found {σ : Type} (token : CancelToken σ) (roots : List Cursor) {w : Walker}
    (h : w.found.isSome = true) (state : σ) : walkAll token roots w state = (w, state) := by
  induction roots with
  | nil => rfl
  | cons root rest ih =>
      have hwalk : walk token root w state = (w, state) := by
        rw [walk, if_pos h]
        rfl
      rw [walkAll_cons, hwalk]
      exact ih

/-! ### While the token is quiet -/

theorem visit_quiet (cursors : List Cursor) (w : Walker) (h : w.found = none) :
    ∃ visits, visit flag cursors w false =
      ({ w with found := cursors.find? fun c => c.kind == w.target, visits := visits },
        false) := by
  induction cursors generalizing w with
  | nil =>
      refine ⟨w.visits, ?_⟩
      rw [List.find?_nil, ← h]
      rfl
  | cons c rest ih =>
      have hquiet : (flag.poll false).1 ≠ true := Bool.false_ne_true
      rw [visit_cons, if_neg hquiet]
      by_cases hk : c.kind = w.target
      · refine ⟨w.visits + 1, ?_⟩
        rw [if_pos hk, List.find?_cons_of_pos (by simpa using hk)]
        rfl
      · rw [if_neg hk, List.find?_cons_of_neg (by simpa using hk)]
        exact ih { w with visits := w.visits + 1 } h

theorem walk_quiet (root : Cursor) (w : Walker) (h : w.found = none) :
    ∃ visits, walk flag root w false =
      ({ w with found := root.firstOuter? w.target, visits := visits }, false) := by
  obtain ⟨visits, hvisit⟩ := visit_quiet root.visited w h
  refine ⟨visits, ?_⟩
  rw [Cursor.find?_visited] at hvisit
  rw [walk, h, ← hvisit]
  rfl

/-- With a quiet token, the walker finds the first node of the first root that has one. -/
theorem walkAll_quiet (roots : List Cursor) (w : Walker) (h : w.found = none) :
    ∃ visits, walkAll flag roots w false =
      ({ w with found := roots.findSome? (·.firstOuter? w.target), visits := visits },
        false) := by
  induction roots generalizing w with
  | nil =>
      refine ⟨w.visits, ?_⟩
      rw [List.findSome?_nil, ← h]
      rfl
  | cons root rest ih =>
      obtain ⟨visits, hwalk⟩ := walk_quiet root w h
      rw [walkAll_cons, hwalk]
      cases hfirst : root.firstOuter? w.target with
      | some c =>
          refine ⟨visits, ?_⟩
          rw [List.findSome?_cons, hfirst]
          exact walkAll_of_found flag rest rfl false
      | none =>
          rw [List.findSome?_cons, hfirst]
          exact ih { w with found := none, visits := visits } rfl

/-! ### Once the token is raised -/

theorem walk_raised (root : Cursor) (w : Walker) (h : w.found = none) :
    walk flag root w true = ({ w with cancelled := true, visits := w.visits + 1 }, true) := by
  have hnone : ¬w.found.isSome = true := by simp [h]
  rw [walk, if_neg hnone, Cursor.visited, visit_cons]
  rfl

/-- With a raised token, every walk of a walker that has found nothing is given up. -/
theorem walkAll_raised (roots : List Cursor) (w : Walker) (h : w.found = none) :
    ∃ visits, walkAll flag roots w true =
      ({ w with cancelled := w.cancelled || !roots.isEmpty, visits := visits }, true) := by
  induction roots generalizing w with
  | nil =>
      refine ⟨w.visits, ?_⟩
      rw [List.isEmpty_nil, Bool.not_true, Bool.or_false]
      rfl
  | cons root rest ih =>
      rw [walkAll_cons, walk_raised root w h]
      obtain ⟨visits, hrest⟩ := ih { w with cancelled := true, visits := w.visits + 1 } h
      refine ⟨visits, hrest.trans ?_⟩
      simp

/-! ### Both -/

/-- Walks from some roots, raises the token, and walks on from others. -/
def walkAround (front back : List Cursor) (w : Walker) : StateM Bool Walker := do
  let w ← walkAll flag front w
  set true
  walkAll flag back w

/-- One walker is led through the roots in turn. Just before the root of a number its token is
raised, or it never is. -/
def walked (k : Kind) (roots : List Cursor) : (raisedBefore : Option Nat) → Walker
  | none => (walkAll flag roots { target := k } false).1
  | some n => (walkAround (roots.take n) (roots.drop n) { target := k } false).1

theorem result_walkAround (k : Kind) (front back : List Cursor) :
    (walkAround front back { target := k } false).1.result =
      match front.findSome? (·.firstOuter? k) with
      | some c => .ok (some c)
      | none => if back = [] then .ok none else .error ⟨⟩ := by
  obtain ⟨visits, hfront⟩ := walkAll_quiet front { target := k } rfl
  show (walkAll flag back (walkAll flag front { target := k } false).1 true).1.result = _
  rw [hfront]
  cases hfirst : front.findSome? (·.firstOuter? k) with
  | some c =>
      rw [walkAll_of_found flag back rfl]
      rfl
  | none =>
      obtain ⟨visits', hraised⟩ := walkAll_raised back { target := k, visits := visits } rfl
      rw [hraised]
      cases back <;> rfl

/-- What a walker reports after walks with a token that is raised between two of them: the first
node in the first root that has one, of those walked before; otherwise that it was given up, if it
was led on at all. -/
theorem result_walked (k : Kind) (roots : List Cursor) (raisedBefore : Option Nat) :
    (walked k roots raisedBefore).result =
      match (roots.take (raisedBefore.getD roots.length)).findSome? (·.firstOuter? k) with
      | some c => .ok (some c)
      | none =>
        if roots.drop (raisedBefore.getD roots.length) = [] then .ok none else .error ⟨⟩ := by
  cases raisedBefore with
  | some n => exact result_walkAround k (roots.take n) (roots.drop n)
  | none =>
      obtain ⟨visits, hquiet⟩ := walkAll_quiet roots { target := k } rfl
      have hresult : (walked k roots none).result =
          .ok (roots.findSome? (·.firstOuter? k)) := by
        rw [walked, hquiet]
        rfl
      rw [hresult, Option.getD_none, List.take_length, List.drop_length, if_pos rfl]
      cases roots.findSome? (·.firstOuter? k) <;> rfl

end Walker

end TreeLint
