import TreeLint.Proofs.SameScope

/-!
# Declarations that bind alike

Binding reads little of a declaration: its kind, its name, the namespace around it and what the
names in its base list stand for. The last is asked of a table whose index no longer changes, since
setting bases and adding interfaces leaves the index alone, so it can be asked of the bound table
just as well.

Lists of declarations that agree in all this, one by one and in order, therefore bind to the same
table: the same places are given out, and the same bases are set or refused at each step.
-/

namespace TreeLint

/-- Two declarations that a table can tell apart neither by name nor by what they derive from. -/
structure SameDeclaration (table : SymbolTable) (c d : Cursor) : Prop where
  kind : c.kind = d.kind
  name : c.identifier?.map (·.token) = d.identifier?.map (·.token)
  space : c.containingNamespace? = d.containingNamespace?
  bases : c.baseNames.filterMap table.resolveName? = d.baseNames.filterMap table.resolveName?

theorem SameDeclaration.refl (table : SymbolTable) (c : Cursor) : SameDeclaration table c c :=
  ⟨rfl, rfl, rfl, rfl⟩

theorem SameDeclaration.trans {table : SymbolTable} {c d e : Cursor}
    (h : SameDeclaration table c d) (h' : SameDeclaration table d e) :
    SameDeclaration table c e :=
  ⟨h.kind.trans h'.kind, h.name.trans h'.name, h.space.trans h'.space, h.bases.trans h'.bases⟩

theorem forall₂_trans {α : Type} {r : α → α → Prop} (htrans : ∀ {a b c}, r a b → r b c → r a c)
    {as bs cs : List α} (h : List.Forall₂ r as bs) (h' : List.Forall₂ r bs cs) :
    List.Forall₂ r as cs := by
  induction h generalizing cs with
  | nil =>
      cases h'
      exact .nil
  | cons hab _ ih =>
      cases h' with
      | cons hbc hrest => exact .cons (htrans hab hbc) (ih hrest)

theorem SameDeclaration.forall₂_trans {table : SymbolTable} {cs ds es : List Cursor}
    (h : List.Forall₂ (SameDeclaration table) cs ds)
    (h' : List.Forall₂ (SameDeclaration table) ds es) :
    List.Forall₂ (SameDeclaration table) cs es := TreeLint.forall₂_trans .trans h h'

namespace SymbolTable

theorem resolveName?_congr {table table' : SymbolTable} (hplaces : table.places = table'.places) :
    table.resolveName? = table'.resolveName? := by
  funext c
  unfold resolveName?
  split
  · next dotted _ =>
      exact resolve?_congr hplaces (List.forall₂_same.2 fun _ _ => ⟨rfl, rfl⟩) dotted false
  · rfl

/-! ## Setting bases leaves the index alone -/

theorem places_setBase (table : SymbolTable) (id base : TypeId) :
    (table.setBase id base).places = table.places := by
  unfold setBase
  split <;> rfl

theorem places_addInterfaces (table : SymbolTable) (id : TypeId) (interfaces : List TypeId) :
    (interfaces.foldl (fun table i => table.addInterface id i) table).places = table.places := by
  induction interfaces generalizing table with
  | nil => rfl
  | cons i rest ih => exact ih (table.addInterface id i)

theorem places_bindBases (table : SymbolTable) (d : Declared) :
    (table.bindBases d).places = table.places := by
  unfold bindBases
  simp only []
  rw [places_addInterfaces]
  split
  · exact places_setBase _ _ _
  · rfl

theorem places_foldl_bindBases (table : SymbolTable) (declared : List Declared) :
    (declared.foldl bindBases table).places = table.places := by
  induction declared generalizing table with
  | nil => rfl
  | cons d rest ih => rw [List.foldl_cons, ih, places_bindBases]

/-! ## Binding two lists -/

/-- Two declarations with one place that bind alike. -/
structure SameDeclared (table : SymbolTable) (a b : Declared) : Prop where
  id : a.id = b.id
  kind : a.kind = b.kind
  declaration : SameDeclaration table a.declaration b.declaration

theorem declareAll_congr {final : SymbolTable} {ds ds' : List Cursor}
    (h : List.Forall₂ (SameDeclaration final) ds ds') (table : SymbolTable) :
    (table.declareAll ds).1 = (table.declareAll ds').1 ∧
      List.Forall₂ (SameDeclared final) (table.declareAll ds).2 (table.declareAll ds').2 := by
  induction h generalizing table with
  | nil => exact ⟨rfl, .nil⟩
  | @cons c d _ _ hsame _ ih =>
      have hname := hsame.name
      rw [declareAll, declareAll]
      cases hc : c.identifier? with
      | none =>
          rw [hc, Option.map_none] at hname
          rw [Option.map_eq_none_iff.1 hname.symm]
          exact ih table
      | some t =>
          rw [hc, Option.map_some] at hname
          obtain ⟨u, hu, htoken⟩ := Option.map_eq_some_iff.1 hname.symm
          have htext : u.text = t.text := congrArg Token.text htoken
          rw [hu]
          simp only [htext, ← hsame.kind, ← hsame.space]
          obtain ⟨htable, hdeclared⟩ :=
            ih (table.declare (c.containingNamespace?.getD "") t.text (declaredKind c.kind)).1
          exact ⟨htable, .cons ⟨rfl, rfl, hsame⟩ hdeclared⟩

theorem bindBases_congr {table final : SymbolTable} {a b : Declared}
    (hplaces : table.places = final.places) (h : SameDeclared final a b) :
    table.bindBases a = table.bindBases b := by
  have hnamed : a.declaration.baseNames.filterMap table.resolveName? =
      b.declaration.baseNames.filterMap table.resolveName? := by
    rw [resolveName?_congr hplaces, h.declaration.bases]
  unfold bindBases
  rw [hnamed, h.id, h.kind]

theorem foldl_bindBases_congr {final : SymbolTable} {as bs : List Declared}
    (h : List.Forall₂ (SameDeclared final) as bs) {table : SymbolTable}
    (hplaces : table.places = final.places) :
    as.foldl bindBases table = bs.foldl bindBases table := by
  induction h generalizing table with
  | nil => rfl
  | cons hsame _ ih =>
      rw [List.foldl_cons, List.foldl_cons, ← bindBases_congr hplaces hsame]
      exact ih (by rw [places_bindBases, hplaces])

theorem bind_eq (table : SymbolTable) (trees : List Node) :
    table.bind trees = (table.declareAll (trees.flatMap declarationsIn)).2.foldl bindBases
      (table.declareAll (trees.flatMap declarationsIn)).1 := rfl

/-- Trees whose declarations agree by the bound table bind to the same table. -/
theorem bind_congr {table : SymbolTable} {trees trees' : List Node}
    (h : List.Forall₂ (SameDeclaration (table.bind trees)) (trees.flatMap declarationsIn)
      (trees'.flatMap declarationsIn)) : table.bind trees' = table.bind trees := by
  obtain ⟨htable, hdeclared⟩ := declareAll_congr h table
  have hplaces : (table.declareAll (trees.flatMap declarationsIn)).1.places =
      (table.bind trees).places := (places_foldl_bindBases _ _).symm
  have hfold := foldl_bindBases_congr hdeclared hplaces
  rw [bind_eq, bind_eq, hfold, htable]

end SymbolTable

end TreeLint
