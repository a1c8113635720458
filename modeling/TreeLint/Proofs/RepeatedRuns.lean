import TreeLint.Proofs.AddedList

/-!
# Running the pipeline again

A run of the pipeline annotates the first class of a document, and the next run looks at the result
with the compilation of the old document. It finds the same class, because no declaration came, went
or moved, and may annotate it again, because the names in its base list still stand for the types
they stood for, shortened or not. So runs go on without end, and each leaves one annotation more.

The induction carries that the tree is name-shaped, which shortening needs, and that declarations
are continued, which adds up. Whether there is a next run depends on the first class and its bases
alone, so it is read off from the declarations of the original document.
-/

namespace TreeLint

/-- A document after a number of runs of the pipeline, each of which annotated the declaration that
has the number of the first class. -/
structure AnnotatedTimes (options : AnalyzerOptions) (runs : Nat) (old new : Document) : Prop where
  id : new.id = old.id
  name : new.name = old.name
  compilation : new.compilation = old.compilation
  nameShaped : new.root.nameShaped = true
  declarations : ContinuedAt old.compilation.table options.attributeUsage.target
    old.root.firstClassNumber runs old.root.declarations new.root.declarations

/-- Whether a run gives a result depends on the first class and its bases. -/
theorem AnnotationPipeline.isSome_outcome (options : AnalyzerOptions) (d : Document) :
    (outcome options d).isSome =
      (d.firstClass?.bind (Located.attributeBase? d.compilation.table)).isSome := by
  rw [outcome, Option.isSome_map]
  cases d.firstClass? with
  | none => rfl
  | some c =>
      rw [Option.map_some, Option.bind_some, Option.bind_some, Located.eligible?,
        Option.isSome_map]

namespace AnnotatedTimes

variable {options : AnalyzerOptions} {old mid new : Document}

theorem refl (options : AnalyzerOptions) (hs : old.root.nameShaped = true) :
    AnnotatedTimes options 0 old old :=
  ⟨rfl, rfl, rfl, hs, .refl _ _ _ _⟩

theorem firstClassNumber_eq {runs : Nat} (h : AnnotatedTimes options runs old new) :
    new.root.firstClassNumber = old.root.firstClassNumber := h.declarations.firstClassNumber_eq

theorem trans {m n : Nat} (h : AnnotatedTimes options m old mid)
    (h' : AnnotatedTimes options n mid new) : AnnotatedTimes options (m + n) old new where
  id := h'.id.trans h.id
  name := h'.name.trans h.name
  compilation := h'.compilation.trans h.compilation
  nameShaped := h'.nameShaped
  declarations := by
    have hsecond := h'.declarations
    rw [h.compilation, h.firstClassNumber_eq] at hsecond
    exact h.declarations.trans hsecond

/-- The first class is what the first class became. -/
theorem firstClass?_rel {runs : Nat} (h : AnnotatedTimes options runs old new) :
    Option.Rel (Continued old.compilation.table options.attributeUsage.target runs)
      old.firstClass? new.firstClass? := by
  have hnumber := h.declarations old.root.firstClassNumber
  rw [if_pos rfl] at hnumber
  rw [Document.firstClass?_eq, Document.firstClass?_eq, h.firstClassNumber_eq]
  exact hnumber

/-- The first class may be annotated again if it could be at first. -/
theorem isSome_outcome {runs : Nat} (h : AnnotatedTimes options runs old new) :
    (AnnotationPipeline.outcome options new).isSome =
      (AnnotationPipeline.outcome options old).isSome := by
  have hclass := h.firstClass?_rel
  have hkind := fun c (hc : old.firstClass? = some c) => (Document.stands_of_firstClass? hc).2
  rw [AnnotationPipeline.isSome_outcome, AnnotationPipeline.isSome_outcome, h.compilation]
  generalize old.firstClass? = c at hclass hkind
  generalize new.firstClass? = d at hclass
  cases hclass with
  | none => rfl
  | @some c d hcd =>
      have hbases := hcd.bases (by rw [hkind c rfl]; rfl)
      rw [Option.bind_some, Option.bind_some, Located.attributeBase?, Located.attributeBase?,
        hbases]

end AnnotatedTimes

namespace AnnotationPipeline

/-- One run annotates the first class. -/
theorem annotatedTimes_outcome {options : AnalyzerOptions} {d new : Document}
    (hs : d.root.nameShaped = true) (h : outcome options d = some new) :
    AnnotatedTimes options 1 d new := by
  obtain ⟨e, rfl, hstands, hkind, hfirst, rfl⟩ := Eligible.of_outcome h
  let table := e.document.compilation.table
  let target := options.attributeUsage.target
  let laidOut := options.formatting.format (e.annotatedRoot target)
  have hshaped : laidOut.nameShaped = true := e.nameShaped_laidOut options hs hstands hkind
  have hlaidOut : ContinuedAt table target e.document.root.firstClassNumber 1
      e.document.root.declarations laidOut.declarations :=
    (e.continuedAt_annotatedRoot table target hstands hfirst).trans
      ((options.formatting.differInStyle_format table _).continuedAt target _)
  rw [Eligible.outcome]
  split
  · refine ⟨rfl, rfl, rfl, Simplify.nameShaped_simplifyRoot table hshaped, ?_⟩
    exact hlaidOut.trans ((Simplify.differInStyle_simplifyRoot table hshaped).continuedAt target _)
  · exact ⟨rfl, rfl, rfl, hshaped, hlaidOut⟩

/-- What a number of runs make of a document. A run that gives nothing leaves it as it is. -/
def rerun (options : AnalyzerOptions) (d : Document) : Nat → Document
  | 0 => d
  | n + 1 => (outcome options (rerun options d n)).getD (rerun options d n)

theorem outcome_rerun {options : AnalyzerOptions} {d : Document} {n : Nat}
    (hsome : (outcome options (rerun options d n)).isSome = true) :
    outcome options (rerun options d n) = some (rerun options d (n + 1)) := by
  obtain ⟨next, hnext⟩ := Option.isSome_iff_exists.1 hsome
  rw [rerun, hnext]
  rfl

theorem annotatedTimes_rerun {options : AnalyzerOptions} {d : Document}
    (hs : d.root.nameShaped = true) (hsome : (outcome options d).isSome = true) (n : Nat) :
    AnnotatedTimes options n d (rerun options d n) := by
  induction n with
  | zero => exact .refl options hs
  | succ n ih =>
      have hnext := outcome_rerun (ih.isSome_outcome.trans hsome)
      exact ih.trans (annotatedTimes_outcome ih.nameShaped hnext)

/-- Once a run gives a result, runs on their own results give one each time. After any number of
runs the first class is still the one it was, and has as many attribute lists more as there were
runs, all of them annotations behind the lists it had; each run adds one. No other declaration has
more than before. -/
theorem run_again {σ : Type} {options : AnalyzerOptions} {token : CancelToken σ} {state : σ}
    {d first : Document} (hs : d.root.nameShaped = true)
    (hrun : (run ⟨options, .standard⟩ token d state).1 = .ok (some first)) :
    ∃ (place : Nat) (results : Nat → Document), results 0 = d ∧ results 1 = first ∧ ∀ n,
      (∀ (token : CancelToken σ) (state : σ),
        ((∀ poll, token.answer poll state = false) →
          (run ⟨options, .standard⟩ token (results n) state).1 =
            .ok (some (results (n + 1)))) ∧
        ∀ other, (run ⟨options, .standard⟩ token (results n) state).1 = .ok other →
          other = some (results (n + 1))) ∧
      (results n).id = d.id ∧ (results n).name = d.name ∧
      (results n).compilation = d.compilation ∧
      (∃ c c', d.root.declarations[place]? = some c ∧
        (results n).root.declarations[place]? = some c' ∧
        (results n).cursor.visited.find? (fun c => c.kind == .classDeclaration) = some c' ∧
        c'.attributeLists.length = c.attributeLists.length + n) ∧
      ContinuedAt d.compilation.table options.attributeUsage.target place n
        d.root.declarations (results n).root.declarations ∧
      ContinuedAt d.compilation.table options.attributeUsage.target place 1
        (results n).root.declarations (results (n + 1)).root.declarations := by
  rw [run_eq] at hrun
  have hfirst := CancelToken.eq_of_checked hrun
  have hsome : (outcome options d).isSome = true := by rw [← hfirst]; rfl
  obtain ⟨e, -, -, -, hclass, -⟩ := Eligible.of_outcome hfirst.symm
  refine ⟨d.root.firstClassNumber, rerun options d, rfl, ?_, fun n => ?_⟩
  · rw [rerun, rerun, ← hfirst]
    rfl
  have htimes := annotatedTimes_rerun hs hsome n
  have hnext := outcome_rerun (htimes.isSome_outcome.trans hsome)
  have honce := (annotatedTimes_outcome htimes.nameShaped hnext).declarations
  rw [htimes.compilation, htimes.firstClassNumber_eq] at honce
  refine ⟨fun token state => ?_, htimes.id, htimes.name, htimes.compilation, ?_,
    htimes.declarations, honce⟩
  · rw [run_eq, hnext]
    exact ⟨fun hquiet => CancelToken.checked_of_quiet (fun poll _ => hquiet poll) _,
      fun other h => CancelToken.eq_of_checked h⟩
  · have hfound := htimes.firstClass?_rel
    rw [hclass] at hfound
    generalize hnow : (rerun options d n).firstClass? = now at hfound
    cases hfound with
    | some hcd =>
        refine ⟨_, _, (d.firstClass?_eq).symm.trans hclass, ?_, hnow, hcd.lists.length_eq⟩
        rw [← htimes.firstClassNumber_eq, ← Document.firstClass?_eq, hnow]

/-- Two classes below a using directive that derive from attribute classes by qualified names: the
first run shortens both names, and after any number of runs the first class has as many attribute
lists. -/
theorem run_again_abbreviated :
    let parts : Build.TypeParts := { name := "A", bases := ["System.Attribute"] }
    let others : Build.TypeParts := { name := "B", bases := ["N.A"] }
    let root := Build.compilationUnit [Build.usingDirective "System"]
      [Build.namespaceDeclaration "N" [Build.typeDeclaration .classDeclaration parts,
        Build.typeDeclaration .classDeclaration others]]
    let d : Document := ⟨0, "A.cs", root, .ofTrees .core [root]⟩
    d.root.nameShaped = true ∧ ∃ results : Nat → Document, results 0 = d ∧
      (results 1).text = "using System;\nnamespace N \x7b\n" ++
        "    [AttributeUsage(AttributeTargets.Class)]\n" ++
        "    class A : Attribute \x7b\x7d\n    class B : A \x7b\x7d\n\x7d\n" ∧
      ∀ n, (run ⟨{}, .standard⟩ (.never : CancelToken Unit) (results n) ()).1 =
          .ok (some (results (n + 1))) ∧
        ∃ c, (results n).cursor.visited.find? (fun c => c.kind == .classDeclaration) = some c ∧
          c.attributeLists.length = n := by
  intro parts others root d
  have hs : d.root.nameShaped = true := by decide +kernel
  have hnone : (d.firstClass?.map fun c => c.attributeLists.length) = some 0 := by decide +kernel
  have htext : (outcome {} d).map (·.text) = some ("using System;\nnamespace N \x7b\n" ++
      "    [AttributeUsage(AttributeTargets.Class)]\n" ++
      "    class A : Attribute \x7b\x7d\n    class B : A \x7b\x7d\n\x7d\n") := by decide +kernel
  obtain ⟨first, hfirst, htext⟩ := Option.map_eq_some_iff.1 htext
  have hrun : (run ⟨{}, .standard⟩ (.never : CancelToken Unit) d ()).1 = .ok (some first) := by
    rw [run_eq, hfirst]
    exact CancelToken.checked_of_quiet (fun poll _ => CancelToken.answer_never poll ()) _
  obtain ⟨place, results, hzero, hone, hruns⟩ := run_again hs hrun
  refine ⟨hs, results, hzero, by rw [hone, htext], fun n => ?_⟩
  obtain ⟨hnext, -, -, -, ⟨c, c', hc, -, hfound, hlength⟩, -⟩ := hruns n
  -- the class has no attribute list to begin with
  have hempty : c.attributeLists.length = 0 := by
    obtain ⟨-, -, -, -, ⟨-, c₀, -, hc₀, hfound₀, -⟩, -⟩ := hruns 0
    rw [hzero] at hc₀ hfound₀
    have hclass : d.firstClass? = some c₀ := hfound₀
    rw [hclass] at hnone
    rw [Option.some.inj (hc.symm.trans hc₀)]
    exact Option.some.inj hnone
  refine ⟨(hnext .never ()).1 fun poll => CancelToken.answer_never poll (), c', hfound, ?_⟩
  rw [hlength, hempty, Nat.zero_add]

end AnnotationPipeline

end TreeLint
