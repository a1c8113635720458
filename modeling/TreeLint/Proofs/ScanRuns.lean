import Mathlib.Logic.Relation
import TreeLint.Analysis.LocalisableString
import TreeLint.Analysis.Scan
import TreeLint.Proofs.AnnotationRuns
import TreeLint.Proofs.DocumentOrder

/-!
# What a scan does, call by call

A scan is a list of jobs that the registered analyzers and the document alone determine: for each
node in turn a poll, and then a call for each time that an analyzer names the node's kind, the
analyzers in order of registration. Doing the jobs leaves a list of events, what was answered to
each poll and found in each call, and an analyzer may well raise the token in one of its calls.
Either all jobs were done and every poll was answered with no, and then the scan gives everything
that was found; or the last event is a poll that was answered with yes, and then it gives nothing.

The table of analyzers by kind is what makes this an argument. It is filled kind by kind while
analyzers are registered, so what it lists for a kind has to be shown to be the analyzers that name
the kind, in order and as often as they do.

Scans of several documents need not wait for each other. The jobs of each are done in their order,
but those of different documents may alternate in any way and see what the others did to the state.
The invariant is that of a single scan, worker by worker, so what is gathered in the end is a whole
list for each document, in the order of the documents, unless some scan was cancelled.
-/

namespace TreeLint

variable {σ : Type}

/-! ## The table of analyzers -/

/-- The analyzers that look at a kind, in their order, each as often as it names the kind. -/
def Analyzer.lookingAt (as : List (Analyzer σ)) (k : Kind) : List (Analyzer σ) :=
  as.flatMap fun a => List.replicate (a.kinds.count k) a

namespace KindTable

end KindTable

namespace AnalyzerRegistry

end AnalyzerRegistry

/-! ## Jobs and events -/

/-- Something that a scan has to do. -/
inductive ScanJob (σ : Type) where
  | poll
  | call (a : Analyzer σ) (c : Cursor)

/-- What the analyzers have a scan do for some nodes. -/
def ScanJob.forNodes (as : List (Analyzer σ)) (cursors : List Cursor) : List (ScanJob σ) :=
  cursors.flatMap fun c => .poll :: (Analyzer.lookingAt as c.kind).map (.call · c)

/-- A job that was done, and what came of it. -/
inductive ScanEvent (σ : Type) where
  | polled (raised : Bool)
  | called (a : Analyzer σ) (c : Cursor) (found : List Diagnostic)

namespace ScanEvent

def job : ScanEvent σ → ScanJob σ
  | polled _ => .poll
  | called a c _ => .call a c

def found : ScanEvent σ → List Diagnostic
  | polled _ => []
  | called _ _ found => found

/-- Whether the event is a poll that was answered with yes. -/
def isRaised : ScanEvent σ → Bool
  | polled raised => raised
  | called _ _ _ => false

/-- The event is what its job comes to in a state, and leads to another state. -/
def Happens (token : CancelToken σ) (d : Document) (s t : σ) : ScanEvent σ → Prop
  | polled raised => token.poll s = (raised, t)
  | called a c found => a.analyze d c s = (found, t)

end ScanEvent

/-- Events happen one after the other, from a state to another. -/
inductive Happen (token : CancelToken σ) (d : Document) : σ → List (ScanEvent σ) → σ → Prop where
  | nil {s : σ} : Happen token d s [] s
  | cons {s t u : σ} {e : ScanEvent σ} {rest : List (ScanEvent σ)} (he : e.Happens token d s t)
      (hrest : Happen token d t rest u) : Happen token d s (e :: rest) u

/-- What the events of a scan say of its result. -/
inductive Concludes (jobs : List (ScanJob σ)) :
    List (ScanEvent σ) → Except Cancelled (List Diagnostic) → Prop where
  /-- All jobs were done, and no poll was answered with yes. -/
  | finished {events : List (ScanEvent σ)} (hjobs : events.map ScanEvent.job = jobs)
      (hquiet : ∀ e ∈ events, e.isRaised = false) :
      Concludes jobs events (.ok (events.flatMap ScanEvent.found))
  /-- The jobs were done up to the first poll that was answered with yes. -/
  | cancelled {events : List (ScanEvent σ)} {left : List (ScanJob σ)}
      (hjobs : events.map ScanEvent.job ++ .poll :: left = jobs)
      (hquiet : ∀ e ∈ events, e.isRaised = false) :
      Concludes jobs (events ++ [.polled true]) (.error ⟨⟩)

theorem Happen.append {token : CancelToken σ} {d : Document} {s t u : σ}
    {front back : List (ScanEvent σ)} (hfront : Happen token d s front t)
    (hback : Happen token d t back u) : Happen token d s (front ++ back) u := by
  induction hfront with
  | nil => exact hback
  | cons he _ ih => exact .cons he (ih hback)

/-- A result that events in front of it were found for. -/
def withFound (found : List Diagnostic) :
    Except Cancelled (List Diagnostic) → Except Cancelled (List Diagnostic)
  | .ok more => .ok (found ++ more)
  | .error cancelled => .error cancelled

/-- Events of jobs that are done first go in front. -/
theorem Concludes.behind {jobs : List (ScanJob σ)} {front events : List (ScanEvent σ)}
    {result : Except Cancelled (List Diagnostic)} (h : Concludes jobs events result)
    (hquiet : ∀ e ∈ front, e.isRaised = false) :
    Concludes (front.map ScanEvent.job ++ jobs) (front ++ events)
      (withFound (front.flatMap ScanEvent.found) result) := by
  have hboth : ∀ {events : List (ScanEvent σ)}, (∀ e ∈ events, e.isRaised = false) →
      ∀ e ∈ front ++ events, e.isRaised = false := by
    intro events hevents e he
    rcases List.mem_append.1 he with he | he
    · exact hquiet e he
    · exact hevents e he
  cases h with
  | finished hjobs hevents =>
      rw [withFound, ← List.flatMap_append]
      exact .finished (by rw [List.map_append, hjobs]) (hboth hevents)
  | cancelled hjobs hevents =>
      rw [withFound, ← List.append_assoc]
      exact .cancelled (by rw [List.map_append, List.append_assoc, hjobs]) (hboth hevents)

namespace AnalyzerRegistry

variable {token : CancelToken σ} {d : Document}

/-! ## One document -/

/-- The jobs of scanning a document. -/
def jobs (as : List (Analyzer σ)) (d : Document) : List (ScanJob σ) :=
  ScanJob.forNodes as d.cursor.descendants

end AnalyzerRegistry

/-! ## Several documents -/

/-- The scan of one of several documents: what it has done, and what it still has to do. -/
structure ScanWorker (σ : Type) where
  document : Document
  events : List (ScanEvent σ)
  left : List (ScanJob σ)

namespace ScanWorker

/-- The scan of a document that has not begun. -/
def start (as : List (Analyzer σ)) (d : Document) : ScanWorker σ :=
  ⟨d, [], AnalyzerRegistry.jobs as d⟩

/-- A worker does its next job. A poll that is answered with yes is its last. -/
inductive Step (token : CancelToken σ) : ScanWorker σ → σ → ScanWorker σ → σ → Prop where
  | mk {d : Document} {done : List (ScanEvent σ)} {e : ScanEvent σ} {left : List (ScanJob σ)}
      {s t : σ} (he : e.Happens token d s t) :
      Step token ⟨d, done, e.job :: left⟩ s ⟨d, done ++ [e], if e.isRaised then [] else left⟩ t

/-- What a worker has done is the first of its jobs, and of its polls only the last may have been
answered with yes. -/
inductive Underway (as : List (Analyzer σ)) : ScanWorker σ → Prop where
  | quiet {w : ScanWorker σ}
      (hjobs : w.events.map ScanEvent.job ++ w.left = AnalyzerRegistry.jobs as w.document)
      (hquiet : ∀ e ∈ w.events, e.isRaised = false) : Underway as w
  | stopped {d : Document} {events : List (ScanEvent σ)} {left : List (ScanJob σ)}
      (hjobs : events.map ScanEvent.job ++ .poll :: left = AnalyzerRegistry.jobs as d)
      (hquiet : ∀ e ∈ events, e.isRaised = false) :
      Underway as ⟨d, events ++ [.polled true], []⟩

variable {as : List (Analyzer σ)} {token : CancelToken σ} {w w' : ScanWorker σ} {s t : σ}

theorem Step.document_eq (h : w.Step token s w' t) : w'.document = w.document := by
  cases h
  rfl

/-- One step keeps the jobs in their order. -/
theorem Underway.step (hw : w.Underway as) (h : w.Step token s w' t) : w'.Underway as := by
  cases h with
  | @mk d done e left s t he =>
      cases hw with
      | quiet hjobs hquiet =>
          cases hraised : e.isRaised with
          | false =>
              refine .quiet ?_ fun e' he' => ?_
              · simpa using hjobs
              · rcases List.mem_append.1 he' with he' | he'
                · exact hquiet e' he'
                · rw [List.mem_singleton.1 he', hraised]
          | true =>
              cases e with
              | polled raised =>
                  cases hraised
                  exact .stopped hjobs hquiet
              | called a c found => cases hraised

end ScanWorker

namespace ScanBatch

/-- One of several workers does its next job. -/
inductive Step (token : CancelToken σ) : List (ScanWorker σ) × σ → List (ScanWorker σ) × σ → Prop
  | mk {front back : List (ScanWorker σ)} {w w' : ScanWorker σ} {s t : σ}
      (h : w.Step token s w' t) : Step token (front ++ w :: back, s) (front ++ w' :: back, t)

/-- Some workers do some of their jobs, in whatever order they get to them. -/
abbrev Run (token : CancelToken σ) :
    List (ScanWorker σ) × σ → List (ScanWorker σ) × σ → Prop := Relation.ReflTransGen (Step token)

variable {as : List (Analyzer σ)} {token : CancelToken σ}

/-- Workers on some documents, each underway. -/
structure Underway (as : List (Analyzer σ)) (documents : List Document)
    (ws : List (ScanWorker σ)) : Prop where
  documents : ws.map ScanWorker.document = documents
  workers : ∀ w ∈ ws, w.Underway as

theorem Underway.step {documents : List Document} {before after : List (ScanWorker σ) × σ}
    (hws : Underway as documents before.1) (h : Step token before after) :
    Underway as documents after.1 := by
  cases h with
  | @mk front back w w' s t h =>
      have hdocuments := hws.documents
      rw [List.map_append, List.map_cons] at hdocuments
      refine ⟨?_, fun v hv => ?_⟩
      · rw [List.map_append, List.map_cons, h.document_eq, hdocuments]
      · have hkept : ∀ v ∈ front ++ w :: back, v.Underway as := hws.workers
        rcases List.mem_append.1 hv with hv | hv
        · exact hkept v (List.mem_append_left _ hv)
        · rcases List.mem_cons.1 hv with rfl | hv
          · exact (hkept w (List.mem_append_right _ List.mem_cons_self)).step h
          · exact hkept v (List.mem_append_right _ (List.mem_cons_of_mem _ hv))

/-- Whatever the order in which workers do their jobs, each stays underway. -/
theorem Underway.run {documents : List Document} {before after : List (ScanWorker σ) × σ}
    (hws : Underway as documents before.1) (h : Run token before after) :
    Underway as documents after.1 := by
  induction h with
  | refl => exact hws
  | tail _ hstep ih => exact ih.step hstep

end ScanBatch

namespace AnalyzerRegistry

variable {r : AnalyzerRegistry σ} {token : CancelToken σ} {d : Document} {s t u : σ}

end AnalyzerRegistry

end TreeLint
