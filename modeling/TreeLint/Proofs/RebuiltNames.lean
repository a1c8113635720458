import Mathlib.Data.List.Induction
import TreeLint.Proofs.DottedNames

/-!
# Names and their texts

A dotted text is cut at its dots, and the tree for it has a level for each cut. Reading the tree
back joins the same segments, and so does reading its source text, since all that stands between
two identifiers is a dot. The segments may be empty, so this holds of every text.

The other way, a tree that is nested to the left over identifiers is what its segments are built
into. Its dotted name has them only joined, and cutting it gives them back if no identifier holds a
dot. Texts and such trees are thus two forms of one thing.
-/

namespace TreeLint

namespace Text

theorem splitAt_of_not_mem {separator : Char} {part : List Char} (h : separator ∉ part) :
    splitAt separator part = [part] := by
  induction part with
  | nil => rfl
  | cons c rest ih =>
      rw [List.mem_cons, not_or] at h
      rw [splitAt, if_neg (Ne.symm h.1), ih h.2]

end Text

namespace Dotted

/-- What stands between dots holds none. -/
theorem dot_not_mem_of_mem_segments {name segment : String} (h : segment ∈ segments name) :
    '.' ∉ segment.toList := by
  obtain ⟨part, hpart, rfl⟩ := List.mem_map.1 h
  rw [String.toList_ofList]
  exact Text.not_mem_of_mem_splitAt hpart

theorem segments_of_not_mem {segment : String} (h : '.' ∉ segment.toList) :
    segments segment = [segment] := by
  rw [segments, Text.splitAt_of_not_mem h, List.map_singleton, String.ofList_toList]

/-- Segments without dots are those of the name that they are joined to. -/
theorem segments_join {parts : List String} (hne : parts ≠ [])
    (hdots : ∀ part ∈ parts, '.' ∉ part.toList) : segments (join parts) = parts := by
  induction parts with
  | nil => exact absurd rfl hne
  | cons first rest ih =>
      rw [List.forall_mem_cons] at hdots
      cases rest with
      | nil => rw [join_singleton, segments_of_not_mem hdots.1]
      | cons second rest =>
          have hjoin : join (first :: second :: rest) = first ++ "." ++ join (second :: rest) := by
            rw [← List.singleton_append, join_append (by simp) (by simp), join_singleton]
          rw [hjoin, segments_append, segments_of_not_mem hdots.1, ih (by simp) hdots.2,
            List.singleton_append]

theorem join_snoc {front : List String} (hne : front ≠ []) (last : String) :
    join (front ++ [last]) = join front ++ "." ++ last := by
  rw [join_append hne (by simp), join_singleton]

end Dotted

namespace Build

/-! ## The text of a nested name -/

theorem nested_snoc (level : Node → Node → Node) {front : List String} (hne : front ≠ [])
    (last : String) :
    nested level (front ++ [last]) = level (nested level front) (identifierName last) := by
  obtain ⟨first, others, rfl⟩ := List.exists_cons_of_ne_nil hne
  exact List.foldl_append

theorem text_identifierName (segment : String) : (identifierName segment).text = segment :=
  String.append_empty

theorem text_pair (k : Kind) (left right : Node) :
    (pair k left right).text = left.text ++ "." ++ right.text := by
  have hdot : (fixed .dotToken).text = "." := by decide
  have hpair : (pair k left right).text =
      left.text ++ ((fixed .dotToken).text ++ (right.text ++ "")) := rfl
  rw [hpair, hdot, String.append_empty, String.append_assoc]

/-- The source text of a name is its segments with dots between them. -/
theorem text_nested (k : Kind) {segments : List String} (hne : segments ≠ []) :
    (nested (pair k) segments).text = Dotted.join segments := by
  induction segments using List.reverseRecOn with
  | nil => exact absurd rfl hne
  | append_singleton front last ih =>
      cases front with
      | nil => exact (text_identifierName last).trans (Dotted.join_singleton last).symm
      | cons first others =>
          rw [nested_snoc _ (by simp), text_pair, ih (by simp), text_identifierName,
            Dotted.join_snoc (by simp)]

/-! ## Trees nested to the left -/

/-- The names that are nested to the left by levels of one kind: an identifier alone, or such a
name, a dot and an identifier. No identifier holds a dot, and there is nothing else, no trivia
either. -/
inductive LeftNested (k : Kind) : Node → Prop where
  | identifier (segment : String) (hdot : '.' ∉ segment.toList) :
      LeftNested k ⟨.identifierName, [.token ⟨.identifierToken, segment⟩]⟩
  | level {left : Node} (h : LeftNested k left) (segment : String) (hdot : '.' ∉ segment.toList) :
      LeftNested k ⟨k, [left.toTree, .token ⟨.dotToken, "."⟩,
        .node .identifierName [.token ⟨.identifierToken, segment⟩]]⟩

theorem leftNested_nested (k : Kind) {segments : List String} (hne : segments ≠ [])
    (hdots : ∀ segment ∈ segments, '.' ∉ segment.toList) :
    LeftNested k (nested (pair k) segments) := by
  induction segments using List.reverseRecOn with
  | nil => exact absurd rfl hne
  | append_singleton front last ih =>
      rw [List.forall_mem_append, List.forall_mem_singleton] at hdots
      cases front with
      | nil => exact .identifier last hdots.2
      | cons first others =>
          rw [nested_snoc _ (by simp)]
          exact .level (ih (by simp) hdots.1) last hdots.2

/-- A name that is nested to the left is built of its segments. -/
theorem LeftNested.exists_segments {k : Kind} {n : Node} (h : LeftNested k n) :
    ∃ segments, segments ≠ [] ∧ (∀ segment ∈ segments, '.' ∉ segment.toList) ∧
      n = nested (pair k) segments := by
  induction h with
  | identifier segment hdot =>
      exact ⟨[segment], by simp, List.forall_mem_singleton.2 hdot, rfl⟩
  | level h segment hdot ih =>
      obtain ⟨segments, hne, hdots, rfl⟩ := ih
      refine ⟨segments ++ [segment], by simp, ?_, (nested_snoc (pair k) hne segment).symm⟩
      exact List.forall_mem_append.2 ⟨hdots, List.forall_mem_singleton.2 hdot⟩

/-- Building the tree of a text and reading its dotted name undo one another, for the names that are
nested to the left by levels of one kind. -/
structure BuildsNames (build : String → Node) (k : Kind) : Prop where
  dotted : ∀ name, (build name).dotted? = some name
  text : ∀ name, (build name).text = name
  leftNested : ∀ name, LeftNested k (build name)
  rebuilt : ∀ n, LeftNested k n → ∃ name, n.dotted? = some name ∧ build name = n

theorem buildsNames_nested {k : Kind} (hk : k.isPair = true) :
    BuildsNames (fun name => nested (pair k) (Dotted.segments name)) k where
  dotted := fun name => by
    rw [dotted?_nested hk (Dotted.segments_ne_nil name), Dotted.join_segments]
  text := fun name => by
    rw [text_nested k (Dotted.segments_ne_nil name), Dotted.join_segments]
  leftNested := fun name => leftNested_nested k (Dotted.segments_ne_nil name)
    fun _ hsegment => Dotted.dot_not_mem_of_mem_segments hsegment
  rebuilt := fun n hn => by
    obtain ⟨segments, hne, hdots, rfl⟩ := hn.exists_segments
    refine ⟨Dotted.join segments, dotted?_nested hk hne, ?_⟩
    rw [Dotted.segments_join hne hdots]

/-- Types and namespaces are spelled by qualified names, and expressions by member accesses. -/
theorem buildsNames_name_memberAccessChain :
    BuildsNames name .qualifiedName ∧ BuildsNames memberAccessChain .simpleMemberAccessExpression :=
  ⟨buildsNames_nested rfl, buildsNames_nested rfl⟩

example : (name ".A.").children.length = 3 ∧ (name ".A.").dotted? = some ".A." := by
  decide +kernel

end Build

end TreeLint
