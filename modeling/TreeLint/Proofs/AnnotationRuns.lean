import TreeLint.Annotation.Pipeline
import TreeLint.Annotation.Refactoring

/-!
# What annotating computes

Every piece of work here is some number of polls and then a value: it ends with the value if none of
the polls is answered with yes, and is given up at the first that is. `CancelToken.checked` is that
work, and each stage of annotating is shown to be equal to it for a number and a value that depend
neither on the token nor on the state the work runs in.

So stages that run one after the other add up their polls, and the value of the whole is that of the
last.
-/

namespace TreeLint

variable {σ α β : Type}

namespace CancelToken

/-- Work that polls its token some times and has a value in the end. -/
def checked (token : CancelToken σ) : (polls : Nat) → α → Task σ α
  | 0, a => pure a
  | polls + 1, a => do
    token.check
    token.checked polls a

/-- The answer to a poll, counted from zero, if nothing but polls changes the state. -/
def answer (token : CancelToken σ) : Nat → σ → Bool
  | 0, state => (token.poll state).1
  | polls + 1, state => token.answer polls (token.poll state).2

/-- The state behind some polls, if nothing but polls changes it. -/
def after (token : CancelToken σ) : Nat → σ → σ
  | 0, state => state
  | polls + 1, state => token.after polls (token.poll state).2

/-- A poll is the first that is answered with yes. -/
structure RaisedAt (token : CancelToken σ) (poll : Nat) (state : σ) : Prop where
  raised : token.answer poll state = true
  quiet : ∀ k < poll, token.answer k state = false

variable {token : CancelToken σ}

theorem check_apply (state : σ) : token.check state =
    if (token.poll state).1 = true then (.error ⟨⟩, (token.poll state).2)
    else (.ok (), (token.poll state).2) := by
  rw [check]
  split
  · next next hpoll => rw [hpoll]; rfl
  · next next hpoll => rw [hpoll]; rfl

theorem checked_succ_apply (polls : Nat) (a : α) (state : σ) :
    token.checked (polls + 1) a state =
      if (token.poll state).1 = true then (.error ⟨⟩, (token.poll state).2)
      else token.checked polls a (token.poll state).2 := by
  have hbind : token.checked (polls + 1) a state =
      ExceptT.bindCont (fun _ => token.checked polls a) (token.check state).1
        (token.check state).2 := rfl
  rw [hbind, check_apply]
  split <;> rfl

/-- Polls of work that is done in turn add up. -/
theorem checked_bind {m n : Nat} {a : α} {b : β} {f : α → Task σ β}
    (hf : f a = token.checked n b) : token.checked m a >>= f = token.checked (m + n) b := by
  induction m with
  | zero => rw [checked, pure_bind, hf, Nat.zero_add]
  | succ m ih =>
      rw [checked, bind_assoc]
      simp only [ih]
      rw [Nat.succ_add, checked]

theorem check_eq : token.check = token.checked 1 () := by
  rw [checked]
  exact (bind_pure token.check).symm

/-- The value of such work is the only one it ends with. -/
theorem eq_of_checked {polls : Nat} {a b : α} {state : σ}
    (h : (token.checked polls a state).1 = .ok b) : b = a := by
  induction polls generalizing state with
  | zero =>
      cases h
      rfl
  | succ polls ih =>
      rw [checked_succ_apply] at h
      split at h
      · cases h
      · exact ih h

theorem answer_after (polls k : Nat) (state : σ) :
    token.answer k (token.after polls state) = token.answer (polls + k) state := by
  induction polls generalizing state with
  | zero => rw [after, Nat.zero_add]
  | succ polls ih =>
      rw [after, ih, Nat.succ_add]
      rfl

theorem after_after (polls more : Nat) (state : σ) :
    token.after more (token.after polls state) = token.after (polls + more) state := by
  induction polls generalizing state with
  | zero => rw [after, Nat.zero_add]
  | succ polls ih => rw [after, ih, Nat.succ_add, after]

/-- Work whose polls are all answered with no ends with its value, and has made all its polls. -/
theorem checked_quiet {polls : Nat} {state : σ}
    (h : ∀ k < polls, token.answer k state = false) (a : α) :
    token.checked polls a state = (.ok a, token.after polls state) := by
  induction polls generalizing state with
  | zero => rfl
  | succ polls ih =>
      have hfirst : (token.poll state).1 = false := h 0 (Nat.succ_pos polls)
      rw [checked_succ_apply, hfirst, if_neg Bool.false_ne_true, after]
      exact ih fun k hk => h (k + 1) (Nat.succ_lt_succ hk)

theorem checked_of_quiet {polls : Nat} {state : σ}
    (h : ∀ k < polls, token.answer k state = false) (a : α) :
    (token.checked polls a state).1 = .ok a := by
  rw [checked_quiet h]

/-- Work is given up at the poll at which its token is raised. -/
theorem checked_raised_apply {polls poll : Nat} {state : σ} (hpoll : poll < polls)
    (h : token.RaisedAt poll state) (a : α) :
    token.checked polls a state = (.error ⟨⟩, token.after (poll + 1) state) := by
  induction polls generalizing poll state with
  | zero => cases hpoll
  | succ polls ih =>
      rw [checked_succ_apply]
      cases poll with
      | zero =>
          have hfirst : (token.poll state).1 = true := h.raised
          rw [if_pos hfirst]
          rfl
      | succ poll =>
          have hfirst : (token.poll state).1 = false := h.quiet 0 (Nat.succ_pos poll)
          rw [hfirst, if_neg Bool.false_ne_true]
          exact ih (Nat.lt_of_succ_lt_succ hpoll)
            ⟨h.raised, fun k hk => h.quiet (k + 1) (Nat.succ_lt_succ hk)⟩

theorem checked_raised {polls poll : Nat} {state : σ} (hpoll : poll < polls)
    (h : token.RaisedAt poll state) (a : α) :
    (token.checked polls a state).1 = .error ⟨⟩ := by
  rw [checked_raised_apply hpoll h]

/-- Some polls are all answered with no, or there is a first that is not. -/
theorem quiet_or_raised (token : CancelToken σ) (polls : Nat) (state : σ) :
    (∀ k < polls, token.answer k state = false) ∨ ∃ poll < polls, token.RaisedAt poll state := by
  induction polls with
  | zero => exact .inl fun k hk => absurd hk (Nat.not_lt_zero k)
  | succ polls ih =>
      rcases ih with hquiet | ⟨poll, hpoll, hraised⟩
      · cases hlast : token.answer polls state with
        | true => exact .inr ⟨polls, Nat.lt_succ_self polls, hlast, hquiet⟩
        | false =>
            refine .inl fun k hk => ?_
            rcases Nat.lt_succ_iff_lt_or_eq.1 hk with hk | rfl
            · exact hquiet k hk
            · exact hlast
      · exact .inr ⟨poll, Nat.lt_succ_of_lt hpoll, hraised⟩

/-- Behind some quiet polls, the token is raised at a poll that is counted from there. -/
theorem RaisedAt.after {polls poll : Nat} {state : σ} (h : token.RaisedAt (polls + poll) state) :
    token.RaisedAt poll (token.after polls state) := by
  refine ⟨?_, fun k hk => ?_⟩
  · rw [answer_after]
    exact h.raised
  · rw [answer_after]
    exact h.quiet (polls + k) (Nat.add_lt_add_left hk polls)

theorem answer_never (polls : Nat) (state : σ) :
    (never : CancelToken σ).answer polls state = false := by
  induction polls with
  | zero => rfl
  | succ polls ih => exact ih

/-- Under a schedule the state is the number of polls so far. -/
theorem after_scheduled (schedule : Nat → Bool) (polls state : Nat) :
    (scheduled schedule).after polls state = state + polls := by
  induction polls generalizing state with
  | zero => rfl
  | succ polls ih =>
      rw [← Nat.add_assoc, Nat.add_right_comm]
      exact ih (state + 1)

theorem answer_scheduled (schedule : Nat → Bool) (polls state : Nat) :
    (scheduled schedule).answer polls state = schedule (state + polls) := by
  have hanswer := (scheduled schedule).answer_after polls 0 state
  rw [after_scheduled, Nat.add_zero] at hanswer
  exact hanswer.symm

end CancelToken

/-! ## Looking for a class -/

namespace Walker

/-- How many of some nodes are visited before the first of a kind is found, that one included. -/
def visitsTo (k : Kind) : List Cursor → Nat
  | [] => 0
  | c :: rest => if c.kind = k then 1 else visitsTo k rest + 1

theorem visit_cons (token : CancelToken σ) (c : Cursor) (rest : List Cursor) (w : Walker)
    (state : σ) :
    visit token (c :: rest) w state =
      (if (token.poll state).1 = true then
        (pure { w with visits := w.visits + 1, cancelled := true } : StateM σ Walker)
      else if c.kind = w.target then
        pure { w with visits := w.visits + 1, found := some c }
      else visit token rest { w with visits := w.visits + 1 }) (token.poll state).2 := rfl

/-- A walk polls once for each node it visits, and finds the first of its kind. -/
theorem visit_eq (token : CancelToken σ) (cursors : List Cursor) (w : Walker) (state : σ)
    (hcancelled : w.cancelled = false) (hfound : w.found = none) :
    ((visit token cursors w state).1.result, (visit token cursors w state).2) =
      token.checked (visitsTo w.target cursors) (cursors.find? fun c => c.kind == w.target)
        state := by
  induction cursors generalizing w state with
  | nil =>
      have hvisit : visit token [] w state = (w, state) := rfl
      rw [hvisit, result, hcancelled, hfound]
      rfl
  | cons c rest ih =>
      rw [visit_cons, visitsTo]
      by_cases hk : c.kind = w.target
      · rw [if_pos hk, if_pos hk, CancelToken.checked_succ_apply,
          List.find?_cons_of_pos (by rw [beq_iff_eq]; exact hk)]
        split
        · rfl
        · simp only [result, hcancelled]
          rfl
      · rw [if_neg hk, if_neg hk, CancelToken.checked_succ_apply,
          List.find?_cons_of_neg (by rw [beq_iff_eq]; exact hk)]
        split
        · rfl
        · exact ih { w with visits := w.visits + 1 } _ hcancelled hfound

end Walker

theorem Cursor.findFirst_eq (token : CancelToken σ) (root : Cursor) (k : Kind) :
    root.findFirst token k = token.checked (Walker.visitsTo k root.visited)
      (root.visited.find? fun c => c.kind == k) := by
  funext state
  exact Walker.visit_eq token root.visited { target := k } state rfl rfl

/-- The first class that the walk through a document visits. -/
def Document.firstClass? (d : Document) : Option Cursor :=
  d.cursor.visited.find? fun c => c.kind == .classDeclaration

/-- How many nodes that walk visits. -/
def Document.visitsToClass (d : Document) : Nat :=
  Walker.visitsTo .classDeclaration d.cursor.visited

theorem Located.first_eq (token : CancelToken σ) (d : Document) :
    first token d = token.checked d.visitsToClass (d.firstClass?.map fun c => ⟨d, c⟩) := by
  rw [first, Cursor.findFirst_eq]
  exact CancelToken.checked_bind (n := 0) rfl

/-! ## Annotating it -/

/-- The formatter that lays out by a function and leaves the state alone. -/
def Formatter.ofFunction (layOut : FormattingOptions → Node → Node) : Formatter σ :=
  fun options n => pure (layOut options n)

namespace Eligible

/-- The annotated document, laid out by a function. -/
def outcomeBy (layOut : FormattingOptions → Node → Node) (e : Eligible)
    (options : AnalyzerOptions) : Document :=
  let root := e.annotatedRoot options.attributeUsage.target
  let laidOut := e.document.withRoot (layOut options.formatting root)
  if options.simplify then laidOut.simplify else laidOut

/-- The annotated document. -/
def outcome (e : Eligible) (options : AnalyzerOptions) : Document :=
  let root := e.annotatedRoot options.attributeUsage.target
  let laidOut := e.document.withRoot (options.formatting.format root)
  if options.simplify then laidOut.simplify else laidOut

theorem annotate_ofFunction (token : CancelToken σ) (layOut : FormattingOptions → Node → Node)
    (options : AnalyzerOptions) (e : Eligible) :
    e.annotate token (.ofFunction layOut) options =
      token.checked 2 (e.outcomeBy layOut options) := by
  have hbuild : e.build token options.attributeUsage.target =
      token.checked 1 ⟨e.document.withRoot (e.annotatedRoot options.attributeUsage.target)⟩ := by
    rw [build, CancelToken.check_eq]
    exact CancelToken.checked_bind (n := 0) rfl
  rw [annotate, hbuild, CancelToken.check_eq]
  refine CancelToken.checked_bind (n := 1) ?_
  exact CancelToken.checked_bind (m := 0) (n := 1) (CancelToken.checked_bind (n := 0) rfl)

end Eligible

namespace AnnotationPipeline

/-- The value of a run over one document, laid out by a function. -/
def outcomeBy (layOut : FormattingOptions → Node → Node) (options : AnalyzerOptions)
    (d : Document) : Option Document :=
  ((d.firstClass?.map fun c => ⟨d, c⟩).bind Located.eligible?).map (·.outcomeBy layOut options)

/-- The value of a run over one document. -/
def outcome (options : AnalyzerOptions) (d : Document) : Option Document :=
  ((d.firstClass?.map fun c => ⟨d, c⟩).bind Located.eligible?).map (·.outcome options)

theorem run_ofFunction (token : CancelToken σ) (layOut : FormattingOptions → Node → Node)
    (options : AnalyzerOptions) (d : Document) :
    run ⟨options, .ofFunction layOut⟩ token d =
      token.checked (d.visitsToClass + if (outcomeBy layOut options d).isSome then 2 else 0)
        (outcomeBy layOut options d) := by
  rw [run, Located.first_eq]
  refine CancelToken.checked_bind ?_
  rw [outcomeBy]
  cases (d.firstClass?.map fun c => (⟨d, c⟩ : Located)).bind Located.eligible? with
  | none => rfl
  | some e =>
      simp only [e.annotate_ofFunction token layOut options]
      exact CancelToken.checked_bind (n := 0) rfl

theorem run_eq (token : CancelToken σ) (options : AnalyzerOptions) (d : Document) :
    run ⟨options, .standard⟩ token d =
      token.checked (d.visitsToClass + if (outcome options d).isSome then 2 else 0)
        (outcome options d) :=
  run_ofFunction token FormattingOptions.format options d

end AnnotationPipeline

namespace AttributeUsageRefactoring

theorem compute_host (token : CancelToken σ) (r : AttributeUsageRefactoring σ) (d : Document)
    (s : Span) : r.compute token .host d s =
      token.checked 2 (((Located.atSpan? d s).bind Located.eligible?).map r.action) := by
  rw [compute, CancelToken.check_eq]
  exact CancelToken.checked_bind (n := 1) (CancelToken.checked_bind (n := 0) rfl)

theorem compute_eq (token : CancelToken σ) (options : AnalyzerOptions) (d : Document) (s : Span) :
    compute ⟨options, .standard⟩ token .host d s = token.checked 2
      (((Located.atSpan? d s).bind Located.eligible?).map (action ⟨options, .standard⟩)) :=
  compute_host token ⟨options, .standard⟩ d s

theorem changedDocument_ofFunction (token : CancelToken σ)
    (layOut : FormattingOptions → Node → Node) (options : AnalyzerOptions) (e : Eligible) :
    (action ⟨options, .ofFunction layOut⟩ e).changedDocument token =
      token.checked 3 (e.outcomeBy layOut options) := by
  rw [CodeAction.changedDocument, CancelToken.check_eq]
  exact CancelToken.checked_bind (n := 2) (e.annotate_ofFunction token layOut options)

theorem changedDocument_eq (token : CancelToken σ) (options : AnalyzerOptions) (e : Eligible) :
    (action ⟨options, .standard⟩ e).changedDocument token =
      token.checked 3 (e.outcome options) :=
  changedDocument_ofFunction token FormattingOptions.format options e

end AttributeUsageRefactoring

end TreeLint
