import Mathlib.Logic.Function.Basic
import TreeLint.Proofs.CurrentDocuments
import TreeLint.Proofs.OneMoreList

/-!
# Two clients and one document

Two clients annotate one document of a workspace. Each reads the current snapshot, has its change
computed from that, and makes the result current, and the steps of the two may come in any order. A
workspace takes every snapshot of a document that it has, whatever the snapshot was made from, so no
update is refused, and the one that comes last is the one that stays.

Whether it holds the other one depends on when the second client read. The invariant says, by which
clients are done, what is current and what the others may have seen: the original as long as nobody
is done, and then the original or the result of the first. So in the end there are two cases, and
both come about: the second result was computed from the first and has both annotations, or it was
computed from the original and the first is lost.
-/

namespace TreeLint

/-! ## What a client asks for -/

/-- An annotation that is asked for, with the options of the client and the span it selected. -/
structure AnnotationRequest where
  options : AnalyzerOptions
  selection : Span

namespace AnnotationRequest

/-- The action for a request is offered for a document and, when it is invoked, changes it into
another. -/
def Changes (r : AnnotationRequest) (kind : WorkspaceKind) (d new : Document) : Prop :=
  ∃ (σ : Type) (token invoked : CancelToken σ) (state later : σ) (action : CodeAction σ),
    (AttributeUsageRefactoring.compute ⟨r.options, .standard⟩ token kind d r.selection state).1 =
      .ok (some action) ∧ (action.changedDocument invoked later).1 = .ok new

/-- What a request makes of a document. -/
def outcome? (r : AnnotationRequest) (d : Document) : Option Document :=
  ((Located.atSpan? d r.selection).bind Located.eligible?).map (·.outcome r.options)

variable {r : AnnotationRequest} {kind : WorkspaceKind} {d new : Document}

theorem changes_iff : r.Changes kind d new ↔ kind = .host ∧ r.outcome? d = some new := by
  constructor
  · rintro ⟨σ, token, invoked, state, later, action, hoffered, hnew⟩
    cases kind with
    | looseFiles => cases hoffered
    | host =>
        rw [AttributeUsageRefactoring.compute_eq] at hoffered
        have haction := CancelToken.eq_of_checked hoffered
        obtain ⟨e, he, rfl⟩ := Option.map_eq_some_iff.1 haction.symm
        rw [AttributeUsageRefactoring.changedDocument_eq] at hnew
        refine ⟨rfl, ?_⟩
        rw [outcome?, he, Option.map_some, CancelToken.eq_of_checked hnew]
  · rintro ⟨rfl, hnew⟩
    obtain ⟨e, he, rfl⟩ := Option.map_eq_some_iff.1 hnew
    refine ⟨Unit, .never, .never, (), (), AttributeUsageRefactoring.action ⟨r.options, .standard⟩ e,
      ?_, ?_⟩
    · rw [AttributeUsageRefactoring.compute_eq, he]
      exact CancelToken.checked_of_quiet (fun poll _ => CancelToken.answer_never poll ()) _
    · rw [AttributeUsageRefactoring.changedDocument_eq]
      exact CancelToken.checked_of_quiet (fun poll _ => CancelToken.answer_never poll ()) _

theorem exists_eligible (h : r.outcome? d = some new) : ∃ e : Eligible, e.document = d ∧
    e.declaration.Stands d.root ∧ e.declaration.kind = .classDeclaration ∧
      e.outcome r.options = new := by
  obtain ⟨e, he, rfl⟩ := Option.map_eq_some_iff.1 h
  obtain ⟨hdocument, hstands, hkind, -⟩ := Eligible.of_atSpan? he
  exact ⟨e, hdocument, hstands, hkind, rfl⟩

theorem id_of_outcome? (h : r.outcome? d = some new) : new.id = d.id := by
  obtain ⟨e, rfl, -, -, rfl⟩ := exists_eligible h
  unfold Eligible.outcome
  dsimp only
  split <;> rfl

theorem nameShaped_of_outcome? (h : r.outcome? d = some new) (hs : d.root.nameShaped = true) :
    new.root.nameShaped = true := by
  obtain ⟨e, rfl, hstands, hkind, rfl⟩ := exists_eligible h
  exact e.nameShaped_outcome r.options hs hstands hkind

/-- What a request makes of a document has one attribute list more. -/
theorem length_attributeLists_of_outcome? (h : r.outcome? d = some new)
    (hs : r.options.simplify = true → d.root.nameShaped = true) :
    new.root.attributeLists.length = d.root.attributeLists.length + 1 := by
  obtain ⟨e, rfl, hstands, hkind, rfl⟩ := exists_eligible h
  exact e.length_attributeLists_outcome hs hstands hkind

end AnnotationRequest

/-! ## Steps -/

/-- How far a client is: the snapshot it has read, the document that this was changed into, and
whether the workspace took that. -/
inductive ClientStage where
  | idle
  | read (snapshot : Document)
  | changed (snapshot new : Document)
  | applied (snapshot new : Document) (accepted : Bool)

/-- A workspace and two clients that use it. -/
structure Session where
  workspace : Workspace
  stage : Bool → ClientStage

namespace Session

def start (w : Workspace) : Session := ⟨w, fun _ => .idle⟩

/-- One client goes on to another stage. -/
def advance (s : Session) (client : Bool) (stage : ClientStage) : Session :=
  { s with stage := Function.update s.stage client stage }

variable {id : DocumentId} {requests : Bool → AnnotationRequest} {client : Bool} {s s' : Session}

/-- A step that a client takes with a document. What it has read stays with it; whether the
workspace takes the result depends on the workspace alone. -/
inductive Step (id : DocumentId) (requests : Bool → AnnotationRequest) (client : Bool) :
    Session → Session → Prop
  | read {s : Session} {d : Document} (hidle : s.stage client = .idle)
      (hcurrent : s.workspace.document? id = some d) :
      Step id requests client s (s.advance client (.read d))
  | change {s : Session} {d new : Document} (hread : s.stage client = .read d)
      (hnew : (requests client).Changes s.workspace.kind d new) :
      Step id requests client s (s.advance client (.changed d new))
  | apply {s : Session} {d new : Document} (hchanged : s.stage client = .changed d new) :
      Step id requests client s
        (advance { s with workspace := (s.workspace.update? new).getD s.workspace } client
          (.applied d new (s.workspace.update? new).isSome))

/-- A step of either client. -/
def Next (id : DocumentId) (requests : Bool → AnnotationRequest) (s s' : Session) : Prop :=
  ∃ client, Step id requests client s s'

@[simp] theorem stage_advance_self (s : Session) (client : Bool) (reached : ClientStage) :
    (s.advance client reached).stage client = reached := by
  show Function.update s.stage client reached client = reached
  rw [Function.update_self]

theorem stage_advance_of_ne (s : Session) {other client : Bool} (h : other ≠ client)
    (reached : ClientStage) : (s.advance client reached).stage other = s.stage other := by
  show Function.update s.stage client reached other = s.stage other
  rw [Function.update_of_ne h]

/-- A step of one client leaves the other where it is. -/
theorem Step.stage_of_ne (h : Step id requests client s s') {other : Bool} (hne : other ≠ client) :
    s'.stage other = s.stage other := by
  cases h with
  | read _ _ => exact s.stage_advance_of_ne hne _
  | change _ _ => exact s.stage_advance_of_ne hne _
  | apply _ => exact stage_advance_of_ne _ hne _

/-- A client that is done takes no more steps. -/
theorem Step.not_applied (h : Step id requests client s s') {d new : Document} {accepted : Bool} :
    s.stage client ≠ .applied d new accepted := by
  cases h with
  | read hidle _ => rw [hidle]; exact nofun
  | change hread _ => rw [hread]; exact nofun
  | apply hchanged => rw [hchanged]; exact nofun

/-! ## What is current -/

/-- What a client that is not done has seen, and made of it. -/
def Pending (r : AnnotationRequest) (seen : Document → Prop) : ClientStage → Prop
  | .idle => True
  | .read d => seen d
  | .changed d new => seen d ∧ r.outcome? d = some new
  | .applied _ _ _ => False

theorem Pending.imp {r : AnnotationRequest} {seen seen' : Document → Prop} {reached : ClientStage}
    (hseen : ∀ d, seen d → seen' d) (h : Pending r seen reached) : Pending r seen' reached := by
  cases reached with
  | idle => trivial
  | read d => exact hseen d h
  | changed d new => exact ⟨hseen d h.1, h.2⟩
  | applied d new accepted => exact h.elim

/-- A client that has seen some documents, of which one is current, still has seen nothing else when
it took a step, or it is done and what it made of one of them is current. -/
theorem Step.of_pending {seen : Document → Prop} {current : Document}
    (h : Step id requests client s s') (hids : ∀ d, seen d → d.id = id) (hseen : seen current)
    (hcurrent : s.workspace.document? id = some current)
    (hpending : Pending (requests client) seen (s.stage client)) :
    (s'.workspace = s.workspace ∧ Pending (requests client) seen (s'.stage client)) ∨
      ∃ d new, seen d ∧ (requests client).outcome? d = some new ∧
        s'.workspace.document? id = some new ∧ s'.stage client = .applied d new true := by
  cases h with
  | read hidle hread =>
      rw [hcurrent] at hread
      cases hread
      refine .inl ⟨rfl, ?_⟩
      rw [stage_advance_self]
      exact hseen
  | change hread hnew =>
      rw [hread] at hpending
      refine .inl ⟨rfl, ?_⟩
      rw [stage_advance_self]
      exact ⟨hpending, (AnnotationRequest.changes_iff.1 hnew).2⟩
  | @apply d new hchanged =>
      rw [hchanged] at hpending
      obtain ⟨hd, hnew⟩ := hpending
      have hid : new.id = id := (AnnotationRequest.id_of_outcome? hnew).trans (hids d hd)
      rw [← hid] at hcurrent
      obtain ⟨w, hw, -, hfound⟩ := Workspace.exists_update? hcurrent
      refine .inr ⟨d, new, hd, hnew, ?_, ?_⟩
      · rw [← hid, hw]
        exact hfound
      · rw [stage_advance_self, hw]
        rfl

/-- What is current, by which clients are done. -/
inductive Phase (id : DocumentId) (requests : Bool → AnnotationRequest) (d : Document)
    (s : Session) : Prop
  | untouched (hcurrent : s.workspace.document? id = some d)
      (hpending : ∀ client, Pending (requests client) (· = d) (s.stage client))
  | one {first : Bool} {a : Document} (hcurrent : s.workspace.document? id = some a)
      (hfirst : s.stage first = .applied d a true) (ha : (requests first).outcome? d = some a)
      (hpending : Pending (requests !first) (fun e => e = a ∨ e = d) (s.stage !first))
  | both {first : Bool} {a snapshot b : Document} (hcurrent : s.workspace.document? id = some b)
      (hfirst : s.stage first = .applied d a true) (ha : (requests first).outcome? d = some a)
      (hsnapshot : snapshot = a ∨ snapshot = d)
      (hsecond : s.stage (!first) = .applied snapshot b true)
      (hb : (requests !first).outcome? snapshot = some b)

variable {d : Document}

theorem phase_start {w : Workspace} (h : w.document? id = some d) :
    Phase id requests d (start w) :=
  .untouched h fun _ => trivial

theorem Phase.step (hid : d.id = id) (h : Phase id requests d s)
    (hstep : Step id requests client s s') : Phase id requests d s' := by
  cases h with
  | untouched hcurrent hpending =>
      have hids : ∀ e, e = d → e.id = id := fun e he => he ▸ hid
      rcases hstep.of_pending hids rfl hcurrent (hpending client) with
        ⟨hsame, hmine⟩ | ⟨_, a, rfl, ha, hnew, hdone⟩
      · refine .untouched (hsame ▸ hcurrent) fun other => ?_
        by_cases hother : other = client
        · exact hother ▸ hmine
        · rw [hstep.stage_of_ne hother]
          exact hpending other
      · refine .one hnew hdone ha ?_
        rw [hstep.stage_of_ne (Bool.not_ne_self client)]
        exact (hpending !client).imp fun e he => .inr he
  | @one first a hcurrent hfirst ha hpending =>
      obtain rfl : client = !first := by
        rcases Bool.eq_or_eq_not client first with rfl | hother
        · exact (hstep.not_applied hfirst).elim
        · exact hother
      have hkept : s'.stage first = .applied d a true := by
        rw [hstep.stage_of_ne (Bool.not_ne_self first).symm]
        exact hfirst
      have hids : ∀ e, e = a ∨ e = d → e.id = id := by
        rintro e (rfl | rfl)
        · exact (AnnotationRequest.id_of_outcome? ha).trans hid
        · exact hid
      rcases hstep.of_pending hids (.inl rfl) hcurrent hpending with
        ⟨hsame, hmine⟩ | ⟨snapshot, b, hsnapshot, hb, hnew, hdone⟩
      · exact .one (hsame ▸ hcurrent) hkept ha hmine
      · exact .both hnew hkept ha hsnapshot hdone hb
  | @both first a snapshot b _ hfirst _ _ hsecond _ =>
      rcases Bool.eq_or_eq_not client first with rfl | rfl
      · exact (hstep.not_applied hfirst).elim
      · exact (hstep.not_applied hsecond).elim

theorem phase_of_run {w : Workspace} (hd : w.document? id = some d)
    (hrun : Relation.ReflTransGen (Next id requests) (start w) s) : Phase id requests d s := by
  induction hrun with
  | refl => exact phase_start hd
  | tail _ hnext ih =>
      obtain ⟨client, hstep⟩ := hnext
      exact ih.step (Workspace.id_of_document? hd) hstep

/-! ## Both cases come about -/

/-- What a client does that has read a snapshot: its update is accepted, whatever is current. -/
theorem exists_run_of_read {current new : Document} (hkind : s.workspace.kind = .host)
    (hcurrent : s.workspace.document? id = some current) (hread : s.stage client = .read d)
    (hid : d.id = id) (hnew : (requests client).outcome? d = some new) :
    ∃ s', Relation.ReflTransGen (Next id requests) s s' ∧ s'.workspace.kind = .host ∧
      s'.workspace.document? id = some new ∧ s'.stage client = .applied d new true ∧
      ∀ other, other ≠ client → s'.stage other = s.stage other := by
  have hchange : Step id requests client s (s.advance client (.changed d new)) :=
    .change hread (AnnotationRequest.changes_iff.2 ⟨hkind, hnew⟩)
  have happly : Step id requests client (s.advance client (.changed d new)) _ :=
    .apply (stage_advance_self s client _)
  have hsame : new.id = id := (AnnotationRequest.id_of_outcome? hnew).trans hid
  rw [← hsame] at hcurrent
  obtain ⟨w, hw, hkept, hfound⟩ := Workspace.exists_update? hcurrent
  have hadvanced : (s.advance client (.changed d new)).workspace.update? new = some w := hw
  rw [hadvanced] at happly
  refine ⟨_, .tail (.single ⟨client, hchange⟩) ⟨client, happly⟩, hkept.trans hkind, ?_,
    stage_advance_self _ _ _, fun other hother => ?_⟩
  · rw [← hsame]
    exact hfound
  · rw [happly.stage_of_ne hother, hchange.stage_of_ne hother]

/-- One client after the other: the second reads what the first has made. -/
theorem exists_run_in_turn {w : Workspace} {a b : Document} (hkind : w.kind = .host)
    (hd : w.document? id = some d) (ha : (requests false).outcome? d = some a)
    (hb : (requests true).outcome? a = some b) :
    ∃ s, Relation.ReflTransGen (Next id requests) (start w) s ∧
      s.workspace.document? id = some b ∧ s.stage false = .applied d a true ∧
      s.stage true = .applied a b true := by
  have hid := Workspace.id_of_document? hd
  have hread : Step id requests false (start w) ((start w).advance false (.read d)) :=
    .read rfl hd
  obtain ⟨s, hfirst, hhost, hcurrent, hdone, hother⟩ :=
    exists_run_of_read (s := (start w).advance false (.read d)) hkind hd
      (stage_advance_self _ _ _) hid ha
  have hidle : s.stage true = .idle := by
    rw [hother true Bool.false_ne_true.symm]
    rfl
  have hreread : Step id requests true s (s.advance true (.read a)) := .read hidle hcurrent
  obtain ⟨s', hsecond, -, hlast, hdone', hother'⟩ :=
    exists_run_of_read (s := s.advance true (.read a)) hhost hcurrent (stage_advance_self _ _ _)
      ((AnnotationRequest.id_of_outcome? ha).trans hid) hb
  refine ⟨s', ?_, hlast, ?_, hdone'⟩
  · exact (Relation.ReflTransGen.head ⟨false, hread⟩ hfirst).trans (.head ⟨true, hreread⟩ hsecond)
  · rw [hother' false Bool.false_ne_true, hreread.stage_of_ne Bool.false_ne_true, hdone]

/-- Both clients read before either is done: the second overwrites what the first has made. -/
theorem exists_run_of_stale {w : Workspace} {a b : Document} (hkind : w.kind = .host)
    (hd : w.document? id = some d) (ha : (requests false).outcome? d = some a)
    (hb : (requests true).outcome? d = some b) :
    ∃ s, Relation.ReflTransGen (Next id requests) (start w) s ∧
      s.workspace.document? id = some b ∧ s.stage false = .applied d a true ∧
      s.stage true = .applied d b true := by
  have hid := Workspace.id_of_document? hd
  have hread : Step id requests false (start w) ((start w).advance false (.read d)) :=
    .read rfl hd
  have hreread : Step id requests true ((start w).advance false (.read d))
      (((start w).advance false (.read d)).advance true (.read d)) := .read rfl hd
  obtain ⟨s, hfirst, hhost, hcurrent, hdone, hother⟩ :=
    exists_run_of_read (s := ((start w).advance false (.read d)).advance true (.read d)) hkind hd
      rfl hid ha
  have hstale : s.stage true = .read d := by
    rw [hother true Bool.false_ne_true.symm, stage_advance_self]
  obtain ⟨s', hsecond, -, hlast, hdone', hother'⟩ :=
    exists_run_of_read hhost hcurrent hstale hid hb
  refine ⟨s', ?_, hlast, ?_, hdone'⟩
  · exact (Relation.ReflTransGen.head ⟨false, hread⟩ (.head ⟨true, hreread⟩ hfirst)).trans hsecond
  · rw [hother' false Bool.false_ne_true, hdone]

/-- When both clients are done, in whatever order they took their steps, both updates were accepted
and the second one is current. It has two attribute lists more than the original if the second
client read what the first had made, and one more if it read the original: then the first update is
lost. The counts need that names hold nothing but names, or that no client has names shortened. -/
theorem current_of_both_applied {w : Workspace} (hd : w.document? id = some d)
    (hrun : Relation.ReflTransGen (Next id requests) (start w) s)
    (hdone : ∀ client, ∃ snapshot new accepted,
      s.stage client = .applied snapshot new accepted) :
    ∃ first snapshot a b, s.stage first = .applied d a true ∧
      s.stage (!first) = .applied snapshot b true ∧ s.workspace.document? id = some b ∧
      (snapshot = a ∨ snapshot = d) ∧
      ((∀ client, (requests client).options.simplify = true → d.root.nameShaped = true) →
        (snapshot = a →
          b.root.attributeLists.length = d.root.attributeLists.length + 2) ∧
        (snapshot = d →
          b.root.attributeLists.length = d.root.attributeLists.length + 1)) := by
  cases phase_of_run hd hrun with
  | untouched _ hpending =>
      obtain ⟨snapshot, new, accepted, happlied⟩ := hdone false
      have hnone := hpending false
      rw [happlied] at hnone
      exact hnone.elim
  | @one first a _ _ _ hpending =>
      obtain ⟨snapshot, new, accepted, happlied⟩ := hdone !first
      rw [happlied] at hpending
      exact hpending.elim
  | @both first a snapshot b hcurrent hfirst ha hsnapshot hsecond hb =>
      refine ⟨first, snapshot, a, b, hfirst, hsecond, hcurrent, hsnapshot, fun hshaped => ?_⟩
      have hone := AnnotationRequest.length_attributeLists_of_outcome? ha (hshaped first)
      constructor
      · rintro rfl
        have htwo := AnnotationRequest.length_attributeLists_of_outcome? hb fun hsimplify =>
          AnnotationRequest.nameShaped_of_outcome? ha (hshaped _ hsimplify)
        omega
      · rintro rfl
        exact AnnotationRequest.length_attributeLists_of_outcome? hb (hshaped _)

/-- The second client reads what the first has made, and both annotations are there. -/
theorem current_of_both_applied_in_turn :
    let root := Build.compilationUnit []
      [Build.typeDeclaration .classDeclaration { name := "A", bases := ["System.Attribute"] }]
    let d : Document := ⟨0, "A.cs", root, .ofTrees .core [root]⟩
    let w : Workspace := .ofCompilation .host d.compilation ["A.cs"]
    let requests : Bool → AnnotationRequest := fun client =>
      ⟨{ attributeUsage := { target := if client then .methods else .classes } }, .caret 6⟩
    w.document? 0 = some d ∧ ∃ s b,
      Relation.ReflTransGen (Next 0 requests) (start w) s ∧
      (∀ client, ∃ snapshot new accepted, s.stage client = .applied snapshot new accepted) ∧
      s.workspace.document? 0 = some b ∧ b.root.attributeLists.length = 2 := by
  intro root d w requests
  have hd : w.document? 0 = some d := rfl
  have hboth : (((requests false).outcome? d).bind (requests true).outcome?).isSome = true := by
    decide +kernel
  obtain ⟨b, hb⟩ := Option.isSome_iff_exists.1 hboth
  obtain ⟨a, ha, hb⟩ := Option.bind_eq_some_iff.1 hb
  obtain ⟨s, hrun, hcurrent, hfirst, hsecond⟩ := exists_run_in_turn rfl hd ha hb
  have hdone : ∀ client, ∃ snapshot new accepted,
      s.stage client = .applied snapshot new accepted := fun client =>
    match client with
    | false => ⟨_, _, _, hfirst⟩
    | true => ⟨_, _, _, hsecond⟩
  refine ⟨hd, s, b, hrun, hdone, hcurrent, ?_⟩
  have hshaped : ∀ client, (requests client).options.simplify = true →
      d.root.nameShaped = true := fun _ _ => by decide +kernel
  have hnone : d.root.attributeLists.length = 0 := by decide +kernel
  obtain ⟨first, snapshot, a', b', hfirst', hsecond', hcurrent', -, hcount⟩ :=
    current_of_both_applied hd hrun hdone
  obtain rfl : b = b' := Option.some.inj (hcurrent.symm.trans hcurrent')
  cases first with
  | false =>
      cases hfirst.symm.trans hfirst'
      cases hsecond.symm.trans hsecond'
      rw [(hcount hshaped).1 rfl, hnone]
  | true =>
      -- the second client would have read the original, and the first has changed that
      cases hsecond.symm.trans hfirst'
      have hone := AnnotationRequest.length_attributeLists_of_outcome? ha (hshaped false)
      omega

/-- Two updates are accepted and there is only one attribute list more than before: both clients
read before either is done; or they take turns, but the name of a base type holds a list of its own,
which goes when the name is shortened. -/
theorem update_lost_of_stale :
    let requests (selection : Nat) : Bool → AnnotationRequest := fun client =>
      ⟨{ attributeUsage := { target := if client then .methods else .classes } }, .caret selection⟩
    let plain := Build.compilationUnit []
      [Build.typeDeclaration .classDeclaration { name := "A", bases := ["System.Attribute"] }]
    let odd : Node := ⟨.qualifiedName,
      (Build.name "System.Attribute").children ++ [(Build.attributeList []).toTree]⟩
    let bases : Node :=
      ⟨.baseList, [Build.fixed .colonToken, Build.space, (Build.baseType odd).toTree]⟩
    let mixed := Build.compilationUnit [Build.usingDirective "System"]
      [⟨.classDeclaration, [Build.fixed .classKeyword, Build.space, Build.identifierToken "A",
        Build.space, bases.toTree, Build.space, Build.fixed .openBraceToken,
        Build.fixed .closeBraceToken]⟩]
    let workspace (root : Node) : Workspace := .ofCompilation .host (.ofTrees .core [root]) ["A.cs"]
    (∃ s d a b new, Relation.ReflTransGen (Next 0 (requests 6)) (start (workspace plain)) s ∧
      (workspace plain).document? 0 = some d ∧ s.stage false = .applied d a true ∧
      s.stage true = .applied d b true ∧ s.workspace.document? 0 = some new ∧
      new.text = "[System.AttributeUsage(System.AttributeTargets.Method)]\n" ++
        "class A : System.Attribute \x7b\x7d\n" ∧
      new.root.attributeLists.length = d.root.attributeLists.length + 1) ∧
    ∃ s d a b new, Relation.ReflTransGen (Next 0 (requests 20)) (start (workspace mixed)) s ∧
      (workspace mixed).document? 0 = some d ∧ s.stage false = .applied d a true ∧
      s.stage true = .applied a b true ∧ s.workspace.document? 0 = some new ∧
      new.text = "using System;\n[AttributeUsage(AttributeTargets.Class)]\n" ++
        "[AttributeUsage(AttributeTargets.Method)]\nclass A : Attribute \x7b\x7d\n" ∧
      new.root.attributeLists.length = d.root.attributeLists.length + 1 := by
  intro requests plain odd bases mixed workspace
  constructor
  · let d : Document := ⟨0, "A.cs", plain, .ofTrees .core [plain]⟩
    have hfirst : ((requests 6 false).outcome? d).isSome = true := by decide +kernel
    obtain ⟨a, ha⟩ := Option.isSome_iff_exists.1 hfirst
    have hsecond : ((requests 6 true).outcome? d).map (fun new =>
        (new.text, new.root.attributeLists.length)) =
      some ("[System.AttributeUsage(System.AttributeTargets.Method)]\n" ++
        "class A : System.Attribute \x7b\x7d\n",
        d.root.attributeLists.length + 1) := by decide +kernel
    obtain ⟨b, hb, hnew⟩ := Option.map_eq_some_iff.1 hsecond
    obtain ⟨htext, hlists⟩ := Prod.mk.inj hnew
    have hd : (workspace plain).document? 0 = some d := rfl
    obtain ⟨s, hrun, hcurrent, hdone, hdone'⟩ := exists_run_of_stale rfl hd ha hb
    exact ⟨s, d, a, b, b, hrun, hd, hdone, hdone', hcurrent, htext, hlists⟩
  · let d : Document := ⟨0, "A.cs", mixed, .ofTrees .core [mixed]⟩
    have hboth : (((requests 20 false).outcome? d).bind (requests 20 true).outcome?).map (fun new =>
        (new.text, new.root.attributeLists.length)) =
      some ("using System;\n[AttributeUsage(AttributeTargets.Class)]\n" ++
        "[AttributeUsage(AttributeTargets.Method)]\nclass A : Attribute \x7b\x7d\n",
        d.root.attributeLists.length + 1) := by decide +kernel
    obtain ⟨b, hb, hnew⟩ := Option.map_eq_some_iff.1 hboth
    obtain ⟨a, ha, hb⟩ := Option.bind_eq_some_iff.1 hb
    obtain ⟨htext, hlists⟩ := Prod.mk.inj hnew
    have hd : (workspace mixed).document? 0 = some d := rfl
    obtain ⟨s, hrun, hcurrent, hdone, hdone'⟩ := exists_run_in_turn rfl hd ha hb
    exact ⟨s, d, a, b, b, hrun, hd, hdone, hdone', hcurrent, htext, hlists⟩

end Session

end TreeLint
