import TreeLint.Proofs.AnnotationRuns

/-!
# What the answers to polls decide

A token under a schedule answers its polls one after the other, and the state counts them. So the
state that work ends in says which polls it made, and whether it was given up can be asked of just
those: an answer that was never fetched decides nothing.

Looking for a class, offering an action, invoking it and running the pipeline poll in different
places, the search even before every node and with a flag in place of an error. Each is some number
of polls in front of a value, though, and neither depends on the token. That leaves two ends: all
polls are answered with no and there is the value, or one is not and there is nothing.

No schedule is left out. Those of a token that stays raised once it is raised are among them.
-/

namespace TreeLint

variable {α : Type}

/-- Work whose end is decided by the polls it makes: it is given up if one of them is answered with
yes, and has the value that it has under a token that nobody raises if not. It makes some number of
polls unless it is given up before. -/
structure DecidedByPolls (schedule : Nat → Bool) (work : CancelToken Nat → Task Nat α)
    (polls : Nat) (value : α) : Prop where
  unraised : (work .never 0).1 = .ok value
  given_up_iff : (work (.scheduled schedule) 0).1 = .error ⟨⟩ ↔
    ∃ poll < (work (.scheduled schedule) 0).2, schedule poll = true
  completed_iff : (work (.scheduled schedule) 0).1 = .ok value ↔
    ∀ poll < (work (.scheduled schedule) 0).2, schedule poll = false
  all_made : (∀ poll < polls, schedule poll = false) → (work (.scheduled schedule) 0).2 = polls

/-- Polls in front of a value decide about it. -/
theorem decidedByPolls_of_checked (schedule : Nat → Bool) {work : CancelToken Nat → Task Nat α}
    {polls : Nat} {value : α} (h : ∀ token, work token = token.checked polls value) :
    DecidedByPolls schedule work polls value := by
  have hunraised : (work .never 0).1 = .ok value := by
    rw [h]
    exact CancelToken.checked_of_quiet (fun k _ => CancelToken.answer_never k 0) value
  rcases CancelToken.quiet_or_raised (.scheduled schedule) polls 0 with
    hquiet | ⟨poll, hpoll, hraised⟩
  · have hrun : work (.scheduled schedule) 0 = (.ok value, polls) := by
      rw [h, CancelToken.checked_quiet hquiet, CancelToken.after_scheduled, Nat.zero_add]
    have hno : ∀ k < polls, schedule k = false := fun k hk => by
      rw [← hquiet k hk, CancelToken.answer_scheduled, Nat.zero_add]
    refine ⟨hunraised, ?_, ?_, ?_⟩ <;> rw [hrun]
    · refine ⟨fun h => (by cases h), fun ⟨k, hk, hyes⟩ => ?_⟩
      rw [hno k hk] at hyes
      cases hyes
    · exact ⟨fun _ => hno, fun _ => rfl⟩
    · exact fun _ => rfl
  · have hrun : work (.scheduled schedule) 0 = (.error ⟨⟩, poll + 1) := by
      rw [h, CancelToken.checked_raised_apply hpoll hraised, CancelToken.after_scheduled,
        Nat.zero_add]
    have hyes : schedule poll = true := by
      rw [← hraised.raised, CancelToken.answer_scheduled, Nat.zero_add]
    have hnot : ∀ made, poll < made → ¬ ∀ k < made, schedule k = false := by
      intro made hmade hno
      rw [hno poll hmade] at hyes
      cases hyes
    refine ⟨hunraised, ?_, ?_, ?_⟩ <;> rw [hrun]
    · exact ⟨fun _ => ⟨poll, Nat.lt_succ_self poll, hyes⟩, fun _ => rfl⟩
    · exact ⟨fun h => (by cases h), fun hno => (hnot _ (Nat.lt_succ_self poll) hno).elim⟩
    · exact fun hno => (hnot _ hpoll hno).elim

namespace AttributeUsageRefactoring

/-- What is offered for a selection, if anything. -/
def offer? (r : AttributeUsageRefactoring Nat) (kind : WorkspaceKind) (d : Document) (s : Span) :
    Option (CodeAction Nat) :=
  match kind with
  | .looseFiles => none
  | .host => ((Located.atSpan? d s).bind Located.eligible?).map r.action

/-- How often an offer polls. Loose files are told apart before any poll. -/
def offerPolls : WorkspaceKind → Nat
  | .looseFiles => 0
  | .host => 2

theorem compute_eq_checked (r : AttributeUsageRefactoring Nat) (token : CancelToken Nat)
    (kind : WorkspaceKind) (d : Document) (s : Span) :
    r.compute token kind d s = token.checked (offerPolls kind) (r.offer? kind d s) := by
  cases kind with
  | looseFiles => rfl
  | host => exact compute_host token r d s

end AttributeUsageRefactoring

/-- Whatever a schedule answers, looking for a node of a kind, offering the action, invoking it and
running the pipeline end as the polls they make decide. -/
theorem decided_by_polls (schedule : Nat → Bool) (options : AnalyzerOptions)
    (layOut : FormattingOptions → Node → Node) :
    let refactoring : AttributeUsageRefactoring Nat := ⟨options, .ofFunction layOut⟩
    let pipeline : AnnotationPipeline Nat := ⟨options, .ofFunction layOut⟩
    (∀ (root : Cursor) (k : Kind),
      DecidedByPolls schedule (fun token => root.findFirst token k)
        (Walker.visitsTo k root.visited) (root.visited.find? fun c => c.kind == k)) ∧
    (∀ (kind : WorkspaceKind) (d : Document) (s : Span),
      DecidedByPolls schedule (fun token => refactoring.compute token kind d s)
        (AttributeUsageRefactoring.offerPolls kind) (refactoring.offer? kind d s)) ∧
    (∀ e : Eligible,
      DecidedByPolls schedule (fun token => (refactoring.action e).changedDocument token) 3
        (e.outcomeBy layOut options)) ∧
    ∀ d : Document,
      DecidedByPolls schedule (fun token => pipeline.run token d)
        (d.visitsToClass +
          if (AnnotationPipeline.outcomeBy layOut options d).isSome then 2 else 0)
        (AnnotationPipeline.outcomeBy layOut options d) := by
  intro refactoring pipeline
  refine ⟨fun root k => ?_, fun kind d s => ?_, fun e => ?_, fun d => ?_⟩
  · exact decidedByPolls_of_checked schedule fun token => root.findFirst_eq token k
  · exact decidedByPolls_of_checked schedule fun token =>
      refactoring.compute_eq_checked token kind d s
  · exact decidedByPolls_of_checked schedule fun token =>
      AttributeUsageRefactoring.changedDocument_ofFunction token layOut options e
  · exact decidedByPolls_of_checked schedule fun token =>
      AnnotationPipeline.run_ofFunction token layOut options d

end TreeLint
