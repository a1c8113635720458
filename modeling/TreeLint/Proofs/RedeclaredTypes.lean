import TreeLint.Proofs.BoundTypes
import TreeLint.Tree.Build

/-!
# Types that are declared more than once

The parts of a type share one place, and binding visits them in turn. Each part asks for a base: the
one it lists, or the root of its kind if it lists none. What it asks for takes the place of what the
parts in front of it were given, so of all parts only the last that asks has a say. Interfaces are
no such matter, since those of all parts are kept.

So a class keeps a base that one of its parts lists only if no part behind that one falls back to
the root. A part without a base list is enough to lose it.
-/

namespace TreeLint

/-- The declarations of a type, by its metadata name, in the order in which they are bound. -/
def declarationsNamed (trees : List Node) (name : String) : List Cursor :=
  (declarationsOf trees).filter fun c => c.declared?.any fun s => s.metadataName == name

namespace SymbolTable

variable {table : SymbolTable}

/-! ## What a declaration asks for -/

/-- The base that a declaration lists: for a class the first type named that is no interface. -/
def listedBase? (table : SymbolTable) (c : Cursor) : Option TypeId :=
  if declaredKind c.kind = .classType then
    (table.namedTypes c).find? fun id => !table.isInterface id
  else none

/-- The root that a declaration of a type falls back to, unless it is the type itself. -/
def fallback? (table : SymbolTable) (id : TypeId) (c : Cursor) : Option TypeId :=
  (table.find? (defaultBaseName (declaredKind c.kind))).filter (· ≠ id)

/-- The base that a declaration of a type asks for. -/
def askedBase? (table : SymbolTable) (id : TypeId) (c : Cursor) : Option TypeId :=
  (table.listedBase? c).or (table.fallback? id c)

theorem askedBase?_of_listed {c : Cursor} {base : TypeId} (h : table.listedBase? c = some base)
    (id : TypeId) : table.askedBase? id c = some base := by
  rw [askedBase?, h, Option.some_or]

theorem bindBases_eq_asked {d : Declared} (hkind : d.kind = declaredKind d.declaration.kind) :
    table.bindBases d = ((table.namedTypes d.declaration).filter table.isInterface).foldl
      (fun table i => table.addInterface d.id i)
      (table.setBase? d.id (table.askedBase? d.id d.declaration)) := by
  unfold bindBases askedBase? listedBase? fallback? namedTypes
  simp only [hkind]
  refine congrArg (List.foldl _ · _) ?_
  generalize table.find? (defaultBaseName (declaredKind d.declaration.kind)) = root
  generalize (if declaredKind d.declaration.kind = .classType then _ else none) = listed
  cases listed with
  | some base => rfl
  | none =>
      cases root with
      | none => rfl
      | some root =>
          by_cases hself : root = d.id
          · simp [hself, setBase?, Option.filter_some]
          · simp [hself, setBase?, Option.filter_some]

theorem askedBase?_congr {table' : SymbolTable} (hplaces : table.places = table'.places)
    (hkinds : table.isInterface = table'.isInterface) :
    table.askedBase? = table'.askedBase? := by
  funext id c
  unfold askedBase? listedBase? fallback? namedTypes
  rw [resolveName?_congr hplaces, hkinds, find?_congr hplaces]

/-! ## One declaration -/

theorem base?_setBase? {id : TypeId} {base : Option TypeId}
    (haccepts : base.all (table.acceptsBase id) = true) (other : TypeId) :
    (table.setBase? id base).base? other =
      if id = other then base.or (table.base? other) else table.base? other := by
  cases base with
  | none =>
      split
      · exact Option.none_or.symm
      · rfl
  | some base =>
      rw [Option.all_some] at haccepts
      rw [setBase?, Option.elim_some, setBase, if_pos haccepts, base?_modify]
      split
      · next heq =>
          rw [acceptsBase, Bool.and_eq_true] at haccepts
          have hlt : other < table.size := heq ▸ of_decide_eq_true haccepts.2
          obtain ⟨s, hs⟩ := Option.ne_none_iff_exists'.1
            fun hnone => Nat.not_le.2 hlt ((symbol?_eq_none other).1 hnone)
          rw [hs]
          rfl
      · rfl

theorem base?_addInterfaces (id : TypeId) (interfaces : List TypeId) (other : TypeId) :
    (interfaces.foldl (fun table i => table.addInterface id i) table).base? other =
      table.base? other := by
  rw [base?_eq, base?_eq, symbol?_addInterfaces]
  split
  · cases table.symbol? other <;> rfl
  · rfl

/-- A declaration gives its type the base that it asks for, and no other type another base. -/
theorem base?_bindBases {d : Declared} (hkind : d.kind = declaredKind d.declaration.kind)
    (haccepts : (table.askedBase? d.id d.declaration).all (table.acceptsBase d.id) = true)
    (id : TypeId) : (table.bindBases d).base? id =
      if d.id = id then (table.askedBase? d.id d.declaration).or (table.base? id)
      else table.base? id := by
  rw [bindBases_eq_asked hkind, base?_addInterfaces, base?_setBase? haccepts]

/-! ## All declarations -/

/-- Whether no base is refused that binding asks for on its way through some declarations. -/
def noneRefused (table : SymbolTable) : List Declared → Bool
  | [] => true
  | d :: rest =>
    (table.askedBase? d.id d.declaration).all (table.acceptsBase d.id) &&
      noneRefused (table.bindBases d) rest

/-- Behind all declarations a type has the base that the last of its own to ask for one asked
for. -/
theorem base?_foldl_bindBases {declared : List Declared}
    (hkinds : ∀ d ∈ declared, d.kind = declaredKind d.declaration.kind)
    (h : table.noneRefused declared = true) (id : TypeId) :
    (declared.foldl bindBases table).base? id =
      (((declared.filter fun d => d.id = id).map (·.declaration)).reverse.findSome?
        (table.askedBase? id)).or (table.base? id) := by
  induction declared generalizing table with
  | nil => rfl
  | cons d rest ih =>
      rw [noneRefused, Bool.and_eq_true] at h
      rw [List.forall_mem_cons] at hkinds
      -- what the declarations behind it ask for is not affected by this one
      have hasked : (table.bindBases d).askedBase? = table.askedBase? :=
        askedBase?_congr (places_bindBases table d) (isInterface_bindBases d)
      rw [List.foldl_cons, ih hkinds.2 h.2, hasked, base?_bindBases hkinds.1 h.1]
      by_cases heq : d.id = id
      · rw [if_pos heq, List.filter_cons_of_pos (by simpa using heq), List.map_cons,
          List.reverse_cons, List.findSome?_append, List.findSome?_singleton, heq, Option.or_assoc]
      · rw [if_neg heq, List.filter_cons_of_neg (by simpa using heq)]

/-! ## The declarations of one type -/

theorem find?_declare (space name : String) (kind : TypeKind) :
    (table.declare space name kind).1.find? (TypeSymbol.bare space name kind).metadataName =
      some (table.declare space name kind).2 := by
  unfold declare
  simp only []
  split
  · next id hfound => exact hfound
  · next hnew =>
      unfold add
      rw [hnew]
      exact (find?_push _ _).trans (if_pos rfl)

theorem declareAll_cons {c : Cursor} {s : TypeSymbol} (h : c.declared? = some s)
    (rest : List Cursor) : ∃ table' id, Step table table' ∧
      table'.find? s.metadataName = some id ∧
      table.declareAll (c :: rest) = ((table'.declareAll rest).1,
        ⟨id, declaredKind c.kind, c⟩ :: (table'.declareAll rest).2) := by
  obtain ⟨name, hname, rfl⟩ := Option.map_eq_some_iff.1 h
  refine ⟨_, _, .declare (c.containingNamespace?.getD "") name.text (declaredKind c.kind),
    find?_declare _ _ _, ?_⟩
  rw [declareAll, hname]

theorem steps_declareAll (ds : List Cursor) :
    Relation.ReflTransGen Step table (table.declareAll ds).1 := by
  induction ds generalizing table with
  | nil => exact .refl
  | cons c rest ih =>
      cases hc : c.declared? with
      | none =>
          rw [declareAll_none hc]
          exact ih
      | some s =>
          obtain ⟨table', id, hstep, -, heq⟩ := declareAll_cons hc rest
          rw [heq]
          exact .head hstep ih

/-- Each declaration that has a name is given the place of that name. -/
theorem find?_declareAll (ds : List Cursor) : ∀ d ∈ (table.declareAll ds).2,
    d.kind = declaredKind d.declaration.kind ∧ ∃ s, d.declaration.declared? = some s ∧
      (table.declareAll ds).1.find? s.metadataName = some d.id := by
  induction ds generalizing table with
  | nil => exact fun d hd => by cases hd
  | cons c rest ih =>
      cases hc : c.declared? with
      | none =>
          rw [declareAll_none hc]
          exact ih
      | some s =>
          obtain ⟨table', id, -, hfound, heq⟩ := declareAll_cons hc rest
          rw [heq, List.forall_mem_cons]
          exact ⟨⟨rfl, s, hc, find?_steps (steps_declareAll rest) hfound⟩, ih⟩

theorem declarations_declareAll (ds : List Cursor) :
    (table.declareAll ds).2.map (·.declaration) = ds.filter fun c => c.declared?.isSome := by
  induction ds generalizing table with
  | nil => rfl
  | cons c rest ih =>
      cases hc : c.declared? with
      | none => rw [declareAll_none hc, ih, List.filter_cons_of_neg (by simp [hc])]
      | some s =>
          obtain ⟨table', id, -, -, heq⟩ := declareAll_cons hc rest
          rw [heq, List.map_cons, ih, List.filter_cons_of_pos (by simp [hc])]

/-- The declarations at a place are those of the name that the place is found under. -/
theorem declarations_at (h : Reachable table) {trees : List Node} {name : String} {id : TypeId}
    (hid : (table.declareAll (declarationsOf trees)).1.find? name = some id) :
    ((table.declareAll (declarationsOf trees)).2.filter fun d => d.id = id).map (·.declaration) =
      declarationsNamed trees name := by
  have hinv := (h.declareAll (declarationsOf trees)).invariant
  -- names and places are one to one in the table behind all declarations
  have hplace : ∀ d ∈ (table.declareAll (declarationsOf trees)).2,
      decide (d.id = id) = d.declaration.declared?.any fun s => s.metadataName == name := by
    intro d hd
    obtain ⟨-, s, hs, hfound⟩ := find?_declareAll _ d hd
    rw [hs, Option.any_some, Bool.eq_iff_iff, decide_eq_true_iff, beq_iff_eq]
    constructor
    · rintro rfl
      obtain ⟨t, ht, htname⟩ := (hinv.indexed _ _).1 hfound
      obtain ⟨u, hu, huname⟩ := (hinv.indexed _ _).1 hid
      obtain rfl : t = u := Option.some.inj (ht.symm.trans hu)
      exact htname.symm.trans huname
    · rintro rfl
      exact Option.some.inj (hfound.symm.trans hid)
  have hnamed : ∀ c : Cursor, (c.declared?.any fun s => s.metadataName == name) =
      ((c.declared?.any fun s => s.metadataName == name) && c.declared?.isSome) := by
    intro c
    cases c.declared? with
    | none => rfl
    | some s => exact (Bool.and_true _).symm
  rw [List.filter_congr hplace, declarationsNamed,
    List.filter_congr fun c _ => hnamed c, ← List.filter_filter, ← declarations_declareAll,
    List.filter_map]
  rfl

/-! ## The base of a type with several declarations -/

/-- What becomes of the base of a type with some declarations: it is what the last of them to ask
for a base asks for. -/
structure BasedOnLast (table : SymbolTable) (ds : List Cursor) (id base : TypeId) : Prop where
  based : table.base? id = some base
  asked : ∃ front c back, ds = front ++ c :: back ∧ table.askedBase? id c = some base ∧
    ∀ d ∈ back, table.askedBase? id d = none
  /-- A base that the last declaration lists is the base. -/
  listed_of_last : ∀ front last, ds = front ++ [last] → (table.listedBase? last).isSome →
    table.listedBase? last = some base
  /-- Where there is no root to fall back to, some declaration lists the base. -/
  listed_of_rootless : (∀ c ∈ ds, table.fallback? id c = none) →
    ∃ c ∈ ds, table.listedBase? c = some base
  /-- A root that the last declaration falls back to is the base, whatever the others list. -/
  root_of_last : ∀ front last, ds = front ++ [last] → table.listedBase? last = none →
    ∀ root, table.fallback? id last = some root → root = base

theorem BasedOnLast.of_asked {front back : List Cursor} {c : Cursor} {id base : TypeId}
    (hbased : table.base? id = some base) (hc : table.askedBase? id c = some base)
    (hback : ∀ d ∈ back, table.askedBase? id d = none) :
    BasedOnLast table (front ++ c :: back) id base := by
  have hlast : ∀ front' last, front ++ c :: back = front' ++ [last] →
      (table.askedBase? id last).isSome → last = c := by
    intro front' last hsplit hasks
    rcases List.eq_nil_or_concat' back with rfl | ⟨back, d, rfl⟩
    · exact (List.singleton_inj.1 (List.append_inj' hsplit rfl).2).symm
    · rw [← List.cons_append, ← List.append_assoc] at hsplit
      obtain rfl := List.singleton_inj.1 (List.append_inj' hsplit rfl).2
      rw [hback d (by simp)] at hasks
      cases hasks
  refine ⟨hbased, ⟨front, c, back, rfl, hc, hback⟩, fun front' last hsplit hlists => ?_,
    fun hrootless => ?_, fun front' last hsplit hnone root hroot => ?_⟩
  · obtain ⟨listed, hlisted⟩ := Option.isSome_iff_exists.1 hlists
    have hasks := askedBase?_of_listed hlisted id
    obtain rfl := hlast front' last hsplit (by rw [hasks]; rfl)
    rw [hlisted, ← hasks, hc]
  · have hmem : c ∈ front ++ c :: back := List.mem_append_right _ List.mem_cons_self
    rw [askedBase?, hrootless c hmem, Option.or_none] at hc
    exact ⟨c, hmem, hc⟩
  · have hasks : table.askedBase? id last = some root := by
      rw [askedBase?, hnone, hroot, Option.none_or]
    obtain rfl := hlast front' last hsplit (by rw [hasks]; rfl)
    exact Option.some.inj (hasks.symm.trans hc)

theorem exists_place (old : SymbolTable) {trees : List Node} {name : String} {c : Cursor}
    (hc : c ∈ declarationsNamed trees name) :
    ∃ id, (old.declareAll (declarationsOf trees)).1.find? name = some id := by
  obtain ⟨hmem, hnamed⟩ := List.mem_filter.1 hc
  rw [Option.any_eq_true] at hnamed
  obtain ⟨s, hs, hname⟩ := hnamed
  have hdeclares : c ∈ (old.declareAll (declarationsOf trees)).2.map (·.declaration) := by
    rw [declarations_declareAll]
    exact List.mem_filter.2 ⟨hmem, by rw [hs]; rfl⟩
  obtain ⟨d, hd, rfl⟩ := List.mem_map.1 hdeclares
  obtain ⟨-, t, ht, hfound⟩ := find?_declareAll _ d hd
  obtain rfl : s = t := Option.some.inj (hs.symm.trans ht)
  exact ⟨d.id, by rw [← beq_iff_eq.1 hname, hfound]⟩

/-- A type one of whose declarations lists a base has the base that the last of its declarations to
ask for one asks for, if none is refused on the way: one that a declaration lists, unless the last
lists none and there is a root to fall back to. -/
theorem basedOnLast_of_listed {old : SymbolTable} (h : Reachable old) (trees : List Node)
    (name : String)
    (hlists : ∃ c ∈ declarationsNamed trees name,
      ((Compilation.ofTrees old trees).table.listedBase? c).isSome)
    (haccepted : (old.declareAll (declarationsOf trees)).1.noneRefused
      (old.declareAll (declarationsOf trees)).2 = true) :
    ∃ id base, (Compilation.ofTrees old trees).table.find? name = some id ∧
      BasedOnLast (Compilation.ofTrees old trees).table (declarationsNamed trees name) id base := by
  obtain ⟨c, hc, hlisted⟩ := hlists
  obtain ⟨listed, hlisted⟩ := Option.isSome_iff_exists.1 hlisted
  obtain ⟨hplaces, hkinds⟩ := bind_places old trees
  obtain ⟨id, hid⟩ := exists_place old hc
  have hasked := askedBase?_congr hplaces hkinds
  have hbase := base?_foldl_bindBases (fun d hd => (find?_declareAll _ d hd).1) haccepted id
  rw [declarations_at h hid, ← hasked] at hbase
  have hasks : ((declarationsNamed trees name).reverse.findSome?
      ((old.bind trees).askedBase? id)).isSome :=
    List.findSome?_isSome_iff.2 ⟨c, List.mem_reverse.2 hc,
      Option.isSome_of_eq_some (askedBase?_of_listed hlisted id)⟩
  obtain ⟨base, hfirst⟩ := Option.isSome_iff_exists.1 hasks
  rw [hfirst, Option.some_or] at hbase
  obtain ⟨back, last, front, hsplit, hlast, hback⟩ := List.findSome?_eq_some_iff.1 hfirst
  have hdeclarations : declarationsNamed trees name = front.reverse ++ last :: back.reverse := by
    rw [← List.reverse_reverse (declarationsNamed trees name), hsplit]
    simp
  refine ⟨id, base, (congrFun (find?_congr hplaces) name).trans hid, ?_⟩
  rw [hdeclarations]
  exact .of_asked hbase hlast fun d hd => hback d (List.mem_reverse.1 hd)

/-- A class without a base list in one tree, with an interface and a base in the next. -/
theorem basedOnLast_of_listed_across_trees :
    let bare := Build.typeDeclaration .classDeclaration { name := "C" }
    let listing := Build.typeDeclaration .classDeclaration
      { name := "C", bases := ["System.IDisposable", "B"] }
    let base := Build.typeDeclaration .classDeclaration { name := "B" }
    let trees := [Build.compilationUnit [] [bare], Build.compilationUnit [] [listing, base]]
    let bound := (Compilation.ofTrees core trees).table
    Reachable core ∧
      (∃ c ∈ declarationsNamed trees "C", (bound.listedBase? c).isSome) ∧
      (core.declareAll (declarationsOf trees)).1.noneRefused
        (core.declareAll (declarationsOf trees)).2 = true ∧
      (declarationsNamed trees "C").map bound.listedBase? = [none, some 13] ∧
      bound.find? "B" = some 13 ∧ bound.find? "C" = some 12 ∧ bound.base? 12 = some 13 := by
  intro bare listing base trees bound
  have hlists : ∃ c ∈ declarationsNamed trees "C", (bound.listedBase? c).isSome := by
    decide +kernel
  have haccepted : (core.declareAll (declarationsOf trees)).1.noneRefused
      (core.declareAll (declarationsOf trees)).2 = true := by decide +kernel
  have hlisted : (declarationsNamed trees "C").map bound.listedBase? = [none, some 13] := by
    decide +kernel
  have hplace : bound.find? "C" = some 12 := by decide +kernel
  obtain ⟨id, base, hid, hbased⟩ := basedOnLast_of_listed .core trees "C" hlists haccepted
  obtain rfl : 12 = id := Option.some.inj (hplace.symm.trans hid)
  obtain ⟨first, others, hsplit, -, hothers⟩ := List.map_eq_cons_iff.1 hlisted
  obtain ⟨last, back, rfl, hlast, hback⟩ := List.map_eq_cons_iff.1 hothers
  obtain rfl := List.map_eq_nil_iff.1 hback
  have hbase := hbased.listed_of_last [first] last hsplit (by rw [hlast]; rfl)
  rw [hlast] at hbase
  exact ⟨.core, hlists, haccepted, hlisted, by decide +kernel, hplace,
    hbased.based.trans hbase.symm⟩

/-- A class that lists a base in one part and nothing in the next: no base is refused, and the class
ends up with the root, which neither part names. -/
theorem base_lost_of_bare_part :
    let base := Build.typeDeclaration .classDeclaration { name := "B" }
    let listing := Build.typeDeclaration .classDeclaration { name := "C", bases := ["B"] }
    let bare := Build.typeDeclaration .classDeclaration { name := "C" }
    let trees := [Build.compilationUnit [] [base, listing, bare]]
    let bound := (Compilation.ofTrees core trees).table
    Reachable core ∧
      (∃ c ∈ declarationsNamed trees "C", (bound.listedBase? c).isSome) ∧
      (core.declareAll (declarationsOf trees)).1.noneRefused
        (core.declareAll (declarationsOf trees)).2 = true ∧
      bound.find? "C" = some 13 ∧ bound.base? 13 = bound.find? objectName ∧
      ¬ ∃ c ∈ declarationsNamed trees "C", ∃ named ∈ bound.namedTypes c,
        bound.base? 13 = some named := by
  intro base listing bare trees bound
  exact ⟨.core, by decide +kernel, by decide +kernel, by decide +kernel, by decide +kernel,
    by decide +kernel⟩

end SymbolTable

end TreeLint
