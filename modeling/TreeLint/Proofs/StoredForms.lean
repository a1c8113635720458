import Mathlib.Data.List.Nodup
import TreeLint.Proofs.StoredTrees

/-!
# Which values are stored trees

The two forms of an element overlap: an object may hold a text and children at once. It is then a
token, and what it holds as children counts for nothing, sound or not. `Stores` says so by leaving
the node form to objects without a text; reading agrees with it wherever the keys of an object are
distinct and kinds are written as strings.

The forms are settled for the whole value before any kind is looked at. So a value whose forms are
right stands for one tree, and if it is refused, then for the first element of that tree whose kind
does not fit.
-/

namespace TreeLint

namespace Json

mutual

/-- All the objects in a value. -/
def Value.objects : Value → List (List (String × Value))
  | .array items => objectsOfItems items
  | .object entries => entries :: objectsOfEntries entries
  | _ => []

def Value.objectsOfItems : List Value → List (List (String × Value))
  | [] => []
  | item :: rest => item.objects ++ objectsOfItems rest

def Value.objectsOfEntries : List (String × Value) → List (List (String × Value))
  | [] => []
  | (_, value) :: rest => value.objects ++ objectsOfEntries rest

end

/-- The values under a key. -/
def valuesOf (key : String) (entries : List (String × Value)) : List Value :=
  (entries.filter fun entry => entry.1 == key).map (·.2)

theorem valuesOf_cons (key : String) (entry : String × Value) (rest : List (String × Value)) :
    valuesOf key (entry :: rest) =
      if entry.1 = key then entry.2 :: valuesOf key rest else valuesOf key rest := by
  rw [valuesOf, List.filter_cons]
  by_cases h : entry.1 = key
  · rw [if_pos h, if_pos (beq_iff_eq.2 h)]
    rfl
  · rw [if_neg h, if_neg (mt eq_of_beq h)]
    rfl

theorem getLast?_valuesOf (key : String) (entries : List (String × Value)) :
    (valuesOf key entries).getLast? = lastValue? key entries := by
  rw [valuesOf, List.getLast?_map, List.getLast?_filter, lastValue?]

/-- Of distinct keys each has the one value that it is looked up with. -/
theorem valuesOf_eq {entries : List (String × Value)} (h : (entries.map (·.1)).Nodup)
    (key : String) : valuesOf key entries = (lastValue? key entries).toList := by
  have hlength : (valuesOf key entries).length ≤ 1 := by
    have hcount := List.nodup_iff_count_le_one.1 h key
    rw [List.count, List.countP_map, List.countP_eq_length_filter] at hcount
    rw [valuesOf, List.length_map]
    exact hcount
  rw [← getLast?_valuesOf]
  match hvalues : valuesOf key entries with
  | [] => rfl
  | [value] => rfl
  | _ :: _ :: rest =>
      rw [hvalues, List.length_cons, List.length_cons] at hlength
      omega

theorem Value.mem_of_get? {key : String} {entries : List (String × Value)} {value : Value}
    (h : (Value.object entries).get? key = some value) : (key, value) ∈ entries := by
  rw [Value.get?, lastValue?, Option.map_eq_some_iff] at h
  obtain ⟨entry, hfind, rfl⟩ := h
  have hkey := List.find?_some hfind
  rw [← eq_of_beq hkey]
  exact List.mem_reverse.1 (List.mem_of_find?_eq_some hfind)

theorem Value.objects_of_mem_items {items : List Value} {item : Value} (h : item ∈ items) :
    ∀ entries ∈ item.objects, entries ∈ objectsOfItems items := by
  intro entries hentries
  induction items with
  | nil => cases h
  | cons first rest ih =>
      rw [objectsOfItems, List.mem_append]
      rcases List.mem_cons.1 h with rfl | hrest
      · exact .inl hentries
      · exact .inr (ih hrest)

theorem Value.objects_of_mem_entries {key : String} {value : Value}
    {entries : List (String × Value)} (h : (key, value) ∈ entries) :
    ∀ inner ∈ value.objects, inner ∈ objectsOfEntries entries := by
  intro inner hinner
  induction entries with
  | nil => cases h
  | cons first rest ih =>
      rw [objectsOfEntries, List.mem_append]
      rcases List.mem_cons.1 h with rfl | hrest
      · exact .inl hinner
      · exact .inr (ih hrest)

/-- An object that says each thing once, and its kind in the plain form. -/
structure Plain (entries : List (String × Value)) : Prop where
  distinct : (entries.map (·.1)).Nodup
  kinds : ∀ entry ∈ entries, entry.1 = "kind" → entry.2.string?.isSome = true

instance (entries : List (String × Value)) : Decidable (Plain entries) :=
  decidable_of_iff ((entries.map (·.1)).Nodup ∧
      ∀ entry ∈ entries, entry.1 = "kind" → entry.2.string?.isSome = true)
    ⟨fun h => ⟨h.1, h.2⟩, fun h => ⟨h.distinct, h.kinds⟩⟩

/-- A value all of whose objects are plain. -/
def Value.AllPlain (v : Value) : Prop := ∀ entries ∈ v.objects, Plain entries

instance (v : Value) : Decidable v.AllPlain :=
  inferInstanceAs (Decidable (∀ entries ∈ v.objects, Plain entries))

theorem Value.string?_eq_some {v : Value} {text : String} :
    v.string? = some text ↔ v = .string text := by
  cases v <;> simp [string?]

theorem Value.AllPlain.exists_word {v value : Value} (hv : v.AllPlain)
    (h : v.get? "kind" = some value) : ∃ word, value = .string word := by
  cases v with
  | object entries =>
      have hstring := (hv entries List.mem_cons_self).kinds _ (mem_of_get? h) rfl
      obtain ⟨word, hword⟩ := Option.isSome_iff_exists.1 hstring
      exact ⟨word, string?_eq_some.1 hword⟩
  | _ => cases h

theorem Value.AllPlain.of_mem_children {v : Value} (hv : v.AllPlain) {key : String}
    {items : List Value} (h : v.get? key = some (.array items)) {item : Value}
    (hitem : item ∈ items) : item.AllPlain := by
  cases v with
  | object entries =>
      intro inner hinner
      have hitems := objects_of_mem_items hitem inner hinner
      exact hv inner (List.mem_cons_of_mem _ (objects_of_mem_entries (mem_of_get? h) inner hitems))
  | _ => cases h

end Json

namespace Tree

theorem partsOf_eq (entries : List (String × Json.Value)) : partsOf entries =
    ⟨(Json.valuesOf "kind" entries).map storedKind?,
      (Json.valuesOf "text" entries).map Json.Value.string?,
      (Json.valuesOf "children" entries).map childrenOf?⟩ := by
  induction entries with
  | nil => rfl
  | cons entry rest ih =>
      rw [partsOf, ih]
      simp only [Json.valuesOf_cons]
      by_cases hkind : entry.1 = "kind"
      · simp [hkind]
      by_cases htext : entry.1 = "text"
      · simp [htext]
      by_cases hchildren : entry.1 = "children"
      · simp [hchildren]
      · simp [hkind, htext, hchildren]

theorem StoredParts.tree?_toList (kind : Option (Option Kind)) (text : Option (Option String))
    (children : Option (Option (List Tree))) :
    (⟨kind.toList, text.toList, children.toList⟩ : StoredParts).tree? =
      match kind.bind id, text.bind id, children.bind id with
      | some k, some text, _ => some (.token ⟨k, text⟩)
      | some k, none, some children => some (.node k children)
      | _, _, _ => none := by
  rcases kind with _ | _ | _ <;> rcases text with _ | _ | _ <;> rcases children with _ | _ | _ <;>
    rfl

/-- The form of an element in terms of what is looked up under the three keys. -/
theorem ofJson?_eq {v : Json.Value} (hv : v.AllPlain) : ofJson? v =
    match (v.get? "kind").bind storedKind?, (v.get? "text").bind Json.Value.string?,
      (v.get? "children").bind childrenOf? with
    | some k, some text, _ => some (.token ⟨k, text⟩)
    | some k, none, some children => some (.node k children)
    | _, _, _ => none := by
  cases v with
  | object entries =>
      have hvalues := Json.valuesOf_eq (hv entries List.mem_cons_self).distinct
      rw [ofJson?, partsOf_eq, hvalues, hvalues, hvalues]
      simp only [← Option.toList_map, StoredParts.tree?_toList, Option.bind_map, Function.id_comp]
      rfl
  | _ => rfl

theorem storedKind_iff {v : Json.Value} (hv : v.AllPlain) {k : Kind} :
    (v.get? "kind").bind storedKind? = some k ↔ v.get? "kind" = some (.string k.name) := by
  rw [Option.bind_eq_some_iff]
  constructor
  · rintro ⟨value, hvalue, hk⟩
    obtain ⟨word, rfl⟩ := hv.exists_word hvalue
    rw [hvalue, Kind.ofName?_eq_some.1 hk]
  · intro h
    exact ⟨_, h, k.ofName?_name⟩

theorem storedText_iff {v : Json.Value} {text : String} :
    (v.get? "text").bind Json.Value.string? = some text ↔ v.get? "text" = some (.string text) := by
  simp only [Option.bind_eq_some_iff, Json.Value.string?_eq_some, exists_eq_right]

theorem storedText_eq_none {v : Json.Value} :
    (v.get? "text").bind Json.Value.string? = none ↔
      ∀ text, v.get? "text" ≠ some (.string text) := by
  rw [Option.eq_none_iff_forall_ne_some]
  exact forall_congr' fun text => not_congr storedText_iff

theorem storedChildren_iff {v : Json.Value} {children : List Tree} :
    (v.get? "children").bind childrenOf? = some children ↔
      ∃ items, v.get? "children" = some (.array items) ∧ ofJsonAll? items = some children := by
  rw [Option.bind_eq_some_iff]
  constructor
  · rintro ⟨value, hvalue, hchildren⟩
    cases value with
    | array items => exact ⟨items, hvalue, hchildren⟩
    | _ => cases hchildren
  · rintro ⟨items, hitems, h⟩
    exact ⟨_, hitems, h⟩

end Tree

namespace Json.Value

mutual

/-- A value has the form of an element and stands for a tree. -/
inductive Stores : Value → Tree → Prop where
  | token {v : Value} {k : Kind} {text : String} (hkind : v.get? "kind" = some (.string k.name))
      (htext : v.get? "text" = some (.string text)) : Stores v (.token ⟨k, text⟩)
  | node {v : Value} {k : Kind} {items : List Value} {children : List Tree}
      (hkind : v.get? "kind" = some (.string k.name))
      (htext : ∀ text, v.get? "text" ≠ some (.string text))
      (hitems : v.get? "children" = some (.array items)) (h : StoresAll items children) :
      Stores v (.node k children)

inductive StoresAll : List Value → List Tree → Prop where
  | nil : StoresAll [] []
  | cons {item : Value} {items : List Value} {t : Tree} {rest : List Tree} (h : Stores item t)
      (hrest : StoresAll items rest) : StoresAll (item :: items) (t :: rest)

end

mutual

theorem stores_of_ofJson? : {v : Value} → v.AllPlain → (t : Tree) → Tree.ofJson? v = some t →
    v.Stores t
  | v, hv, .token token, h => by
      rw [Tree.ofJson?_eq hv] at h
      split at h
      · next k text hkind htext =>
          cases h
          exact .token ((Tree.storedKind_iff hv).1 hkind) (Tree.storedText_iff.1 htext)
      · cases h
      · cases h
  | v, hv, .node k children, h => by
      rw [Tree.ofJson?_eq hv] at h
      split at h
      · cases h
      · next k children hkind htext hchildren =>
          cases h
          obtain ⟨items, hitems, hall⟩ := Tree.storedChildren_iff.1 hchildren
          have hplain : ∀ item ∈ items, item.AllPlain := fun _ => hv.of_mem_children hitems
          exact .node ((Tree.storedKind_iff hv).1 hkind) (Tree.storedText_eq_none.1 htext) hitems
            (storesAll_of_ofJsonAll? hplain _ hall)
      · cases h

theorem storesAll_of_ofJsonAll? : {items : List Value} → (∀ item ∈ items, item.AllPlain) →
    (ts : List Tree) → Tree.ofJsonAll? items = some ts → StoresAll items ts
  | [], _, ts, h => by
      cases h
      exact .nil
  | item :: items, hplain, ts, h => by
      rw [Tree.ofJsonAll?] at h
      split at h
      · next t rest ht hrest =>
          cases h
          exact .cons (stores_of_ofJson? (hplain item List.mem_cons_self) t ht)
            (storesAll_of_ofJsonAll? (fun _ hmem => hplain _ (List.mem_cons_of_mem _ hmem)) rest
              hrest)
      · cases h

end

mutual

theorem ofJson?_of_stores : {v : Value} → {t : Tree} → v.Stores t → v.AllPlain →
    Tree.ofJson? v = some t
  | _, _, .token hkind htext, hv => by
      rw [Tree.ofJson?_eq hv, (Tree.storedKind_iff hv).2 hkind, Tree.storedText_iff.2 htext]
  | _, _, .node hkind htext hitems h, hv => by
      have hplain := fun (item : Value) (hitem : item ∈ _) => hv.of_mem_children hitems hitem
      have hchildren := ofJsonAll?_of_storesAll h hplain
      rw [Tree.ofJson?_eq hv, (Tree.storedKind_iff hv).2 hkind, Tree.storedText_eq_none.2 htext,
        Tree.storedChildren_iff.2 ⟨_, hitems, hchildren⟩]

theorem ofJsonAll?_of_storesAll : {items : List Value} → {ts : List Tree} → StoresAll items ts →
    (∀ item ∈ items, item.AllPlain) → Tree.ofJsonAll? items = some ts
  | _, _, .nil, _ => rfl
  | _, _, .cons h hrest, hplain => by
      rw [Tree.ofJsonAll?, ofJson?_of_stores h (hplain _ List.mem_cons_self),
        ofJsonAll?_of_storesAll hrest fun _ hmem => hplain _ (List.mem_cons_of_mem _ hmem)]

end

theorem ofJson?_eq_some {v : Value} (hv : v.AllPlain) {t : Tree} :
    Tree.ofJson? v = some t ↔ v.Stores t :=
  ⟨stores_of_ofJson? hv t, fun h => ofJson?_of_stores h hv⟩

/-! ## Unknown keys -/

mutual

/-- A stored value without the keys that mean nothing in its elements. -/
def known : Value → Value
  | .object entries => .object (knownEntries entries)
  | v => v

def knownEntries : List (String × Value) → List (String × Value)
  | [] => []
  | (key, value) :: rest =>
    if key = "children" then (key, knownChildren value) :: knownEntries rest
    else if key = "kind" ∨ key = "text" then (key, value) :: knownEntries rest
    else knownEntries rest

def knownChildren : Value → Value
  | .array items => .array (knownItems items)
  | v => v

def knownItems : List Value → List Value
  | [] => []
  | item :: rest => item.known :: knownItems rest

end

mutual

theorem ofJson?_known : (v : Value) → Tree.ofJson? v.known = Tree.ofJson? v
  | .object entries => by rw [known, Tree.ofJson?, Tree.ofJson?, partsOf_knownEntries entries]
  | .null | .bool _ | .number _ | .string _ | .array _ => rfl

theorem partsOf_knownEntries : (entries : List (String × Value)) →
    Tree.partsOf (knownEntries entries) = Tree.partsOf entries
  | [] => rfl
  | (key, value) :: rest => by
      have hrest := partsOf_knownEntries rest
      rw [knownEntries]
      by_cases hchildren : key = "children"
      · subst hchildren
        rw [if_pos rfl, Tree.partsOf, Tree.partsOf, hrest, childrenOf?_knownChildren value]
        rfl
      rw [if_neg hchildren]
      by_cases hknown : key = "kind" ∨ key = "text"
      · rw [if_pos hknown, Tree.partsOf, Tree.partsOf, hrest]
      · rw [not_or] at hknown
        rw [if_neg (not_or.2 hknown), Tree.partsOf, hrest]
        simp only [if_neg hknown.1, if_neg hknown.2, if_neg hchildren]

theorem childrenOf?_knownChildren : (v : Value) →
    Tree.childrenOf? (knownChildren v) = Tree.childrenOf? v
  | .array items => by
      rw [knownChildren, Tree.childrenOf?, Tree.childrenOf?, ofJsonAll?_knownItems items]
  | .null | .bool _ | .number _ | .string _ | .object _ => rfl

theorem ofJsonAll?_knownItems : (items : List Value) →
    Tree.ofJsonAll? (knownItems items) = Tree.ofJsonAll? items
  | [] => rfl
  | item :: rest => by
      rw [knownItems, Tree.ofJsonAll?, Tree.ofJsonAll?, ofJson?_known item,
        ofJsonAll?_knownItems rest]

end

end Json.Value

/-! ## Kinds that do not fit -/

/-- What is said of an element whose kind does not fit. -/
def Tree.complaint : Tree → String
  | .token t => t.kind.name ++ " is not a token kind"
  | .node k _ => k.name ++ " is not a node kind"

theorem Tree.exists_misfit {t : Tree} (h : t.kindFits = false) :
    ∃ fault, t.misfit? = some fault ∧ fault.message = t.complaint := by
  cases t with
  | token t => exact ⟨.notTokenKind t.kind, if_neg (Bool.eq_false_iff.1 h), rfl⟩
  | node k children => exact ⟨.notNodeKind k, if_neg (Bool.eq_false_iff.1 h), rfl⟩

namespace Node

theorem ofForm_of_fault {t : Tree} {fault : TreeFault} (h : t.fault? = some fault) :
    ofForm t = .error fault := by
  unfold ofForm
  rw [h]

theorem ofForm_eq_ok {t : Tree} {n : Node} :
    ofForm t = .ok n ↔ t = n.toTree ∧ ∀ s ∈ t.subtrees, s.kindFits = true := by
  rw [← Tree.fault?_eq_none]
  constructor
  · intro h
    cases hfault : t.fault? with
    | some fault =>
        rw [ofForm_of_fault hfault] at h
        cases h
    | none =>
        unfold ofForm at h
        rw [hfault] at h
        cases t with
        | token t => cases h
        | node k children =>
            cases h
            exact ⟨rfl, rfl⟩
  · rintro ⟨rfl, h⟩
    exact ofForm_toTree (Tree.fault?_eq_none.1 h)

theorem ofJson_eq_ok_iff {v : Json.Value} {n : Node} :
    ofJson v = .ok n ↔ ∃ t, Tree.ofJson? v = some t ∧ ofForm t = .ok n := by
  constructor
  · intro h
    rw [ofJson] at h
    split at h
    · cases h
    · next t ht =>
        split at h
        · next hform =>
            cases h
            exact ⟨t, ht, hform⟩
        · cases h
  · rintro ⟨t, ht, hform⟩
    rw [ofJson, ht]
    simp only [hform]

theorem ofJson_of_misfit {v : Json.Value} {t s : Tree} {front back : List Tree}
    (hform : Tree.ofJson? v = some t) (ht : t.subtrees = front ++ s :: back)
    (hfront : ∀ r ∈ front, r.kindFits = true) (hs : s.kindFits = false) :
    ofJson v = .error (.rejected s.complaint) := by
  obtain ⟨fault, hmisfit, hmessage⟩ := Tree.exists_misfit hs
  have hnone : front.findSome? Tree.misfit? = none :=
    List.findSome?_eq_none_iff.2 fun r hr => Tree.misfit?_eq_none.2 (hfront r hr)
  have hfault : t.fault? = some fault := by
    rw [Tree.fault?_eq, ht, List.findSome?_append, hnone, List.findSome?_cons, hmisfit]
    rfl
  rw [ofJson, hform]
  simp only [ofForm_of_fault hfault, hmessage]

/-- Reading a value as a node, where objects say each thing once. It succeeds for the values that
stand for a node with kinds that fit, and gives that node, which is read back when it is written;
keys without a meaning change nothing. If the forms are right but kinds are not, the first element
in document order whose kind does not fit is what the reader complains about. -/
theorem ofJson_eq_ok_iff_stores {v : Json.Value} (hv : v.AllPlain) :
    (∀ n, ofJson v = .ok n ↔ v.Stores n.toTree ∧ ∀ s ∈ n.toTree.subtrees, s.kindFits = true) ∧
      (∀ n, ofJson v = .ok n → ofJson n.toJson = .ok n) ∧
      (∀ w : Json.Value, w.known = v.known → ofJson w = ofJson v) ∧
      ∀ t front s back, v.Stores t → t.subtrees = front ++ s :: back →
        (∀ r ∈ front, r.kindFits = true) → s.kindFits = false →
        ofJson v = .error (.rejected s.complaint) := by
  have hok : ∀ n, ofJson v = .ok n ↔
      v.Stores n.toTree ∧ ∀ s ∈ n.toTree.subtrees, s.kindFits = true := by
    intro n
    simp only [ofJson_eq_ok_iff, Json.Value.ofJson?_eq_some hv, ofForm_eq_ok]
    constructor
    · rintro ⟨t, hstores, rfl, hfit⟩
      exact ⟨hstores, hfit⟩
    · rintro ⟨hstores, hfit⟩
      exact ⟨n.toTree, hstores, rfl, hfit⟩
  refine ⟨hok, ?_, ?_, ?_⟩
  · intro n hn
    exact ofJson_toJson ((hok n).1 hn).2
  · intro w hw
    rw [ofJson, ofJson, ← Json.Value.ofJson?_known w, hw, Json.Value.ofJson?_known]
  · intro t front s back hstores
    exact ofJson_of_misfit (Json.Value.ofJson?_of_stores hstores hv)

/-- A token that holds children, a node whose text is no string, and a key without a meaning. -/
theorem ofJson_eq_ok_iff_stores_overlap :
    let inner : List Json.Value := [
      .object [("children", .array [.null]), ("text", .string "a\"b"),
        ("kind", .string "IdentifierToken")],
      .object [("kind", .string "Block"), ("text", .null), ("children", .array [])]]
    let v : Json.Value := .object [("note", .object [("kind", .string "none")]),
      ("children", .array inner), ("kind", .string "CompilationUnit")]
    v.AllPlain ∧
      ofJson v = .ok ⟨.compilationUnit, [.token ⟨.identifierToken, "a\"b"⟩, .node .block []]⟩ := by
  intro inner v
  have hv : v.AllPlain := by decide
  have htoken : inner[0].Stores (.token ⟨.identifierToken, "a\"b"⟩) := .token rfl rfl
  have hnode : inner[1].Stores (.node .block []) := .node rfl (fun _ h => by cases h) rfl .nil
  have hstores : v.Stores (.node .compilationUnit [.token ⟨.identifierToken, "a\"b"⟩,
      .node .block []]) :=
    .node rfl (fun _ h => by cases h) rfl (.cons htoken (.cons hnode .nil))
  have hfault : (Tree.node .compilationUnit [.token ⟨.identifierToken, "a\"b"⟩,
      .node .block []]).fault? = none := rfl
  exact ⟨hv, ((ofJson_eq_ok_iff_stores hv).1 _).2 ⟨hstores, Tree.fault?_eq_none.1 hfault⟩⟩

end Node

end TreeLint
