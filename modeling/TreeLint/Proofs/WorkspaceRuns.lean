import TreeLint.Proofs.AnnotatedClass
import TreeLint.Proofs.CurrentDocuments

/-!
# Annotating a whole workspace

A run over a workspace takes its documents one after the other, and each result becomes current
before the next document is looked at. The documents are those of the workspace as it was, and an
annotated document keeps its id, so a step changes nothing that a later step reads: the work on a
document is that of the pipeline on the document alone, with the value that has, and what becomes of
the workspace is each document exchanged for what it became, in whatever order they are taken.

A step that is given up leaves the workspace as it found it, but the steps in front of it are not
taken back. A run that is cancelled has exchanged just the documents it was done with, and all is as
before only if none of these became another one.
-/

namespace TreeLint

variable {σ : Type}

/-! ## Running over documents -/

/-- A token that is raised behind some polls, and then for good. -/
theorem CancelToken.raisedAt_scheduled (poll : Nat) :
    (scheduled fun k => decide (poll ≤ k)).RaisedAt poll 0 := by
  refine ⟨?_, fun k hk => ?_⟩
  · rw [answer_scheduled, decide_eq_true_iff]
    omega
  · rw [answer_scheduled, decide_eq_false_iff_not]
    omega

namespace AnnotationPipeline

variable {options : AnalyzerOptions} {token : CancelToken σ} {state : σ} {w : Workspace}

/-- What a run gives for a document is that document with another tree. -/
theorem outcome_eq_some {d new : Document} (h : outcome options d = some new) :
    new = d.withRoot new.root := by
  obtain ⟨e, rfl, -, -, -, rfl⟩ := Eligible.of_outcome h
  unfold Eligible.outcome
  dsimp only
  split <;> rfl

/-- How often a run over one document polls. -/
def polls (options : AnalyzerOptions) (d : Document) : Nat :=
  d.visitsToClass + if (outcome options d).isSome then 2 else 0

/-- How often a run over some documents polls. -/
def pollsAll (options : AnalyzerOptions) : List Document → Nat
  | [] => 0
  | d :: rest => polls options d + pollsAll options rest

/-- What becomes of a document in a run over some documents. -/
def exchanged (options : AnalyzerOptions) (documents : List Document) (d : Document) : Document :=
  if d ∈ documents then (outcome options d).getD d else d

theorem exchanged_eq (documents : List Document) (d : Document) :
    exchanged options documents d = d.withRoot (exchanged options documents d).root := by
  unfold exchanged
  split
  · cases houtcome : outcome options d with
    | none => rfl
    | some new => exact outcome_eq_some houtcome
  · rfl

theorem id_exchanged (documents : List Document) (d : Document) :
    (exchanged options documents d).id = d.id := by rw [exchanged_eq]; rfl

theorem mapDocuments_exchanged_nil (options : AnalyzerOptions) (w : Workspace) :
    w.mapDocuments (exchanged options []) = w := by
  have hsame : w.documents.map (exchanged options []) = w.documents :=
    List.map_id'' (fun _ => if_neg List.not_mem_nil) w.documents
  rw [Workspace.mapDocuments, hsame]

/-- What a workspace becomes by the result of a run over one document. -/
def makeCurrent (w : Workspace) :
    Except Cancelled (Option Document) → Except Cancelled (Option Document) × Workspace
  | .error cancelled => (.error cancelled, w)
  | .ok none => (.ok none, w)
  | .ok (some changed) =>
    match w.update? changed with
    | some w => (.ok (some changed), w)
    | none => (.ok none, w)

theorem bind_apply {α β : Type} (x : StateM σ α) (f : α → StateM σ β) (state : σ) :
    (x >>= f) state = f (x state).1 (x state).2 := rfl

theorem runAndApply_apply (p : AnnotationPipeline σ) (token : CancelToken σ) (d : Document)
    (w : Workspace) (state : σ) : p.runAndApply token d w state =
      (makeCurrent w (p.run token d state).1, (p.run token d state).2) := by
  have hrun : (p.run token d).run state = p.run token d state := rfl
  rw [runAndApply, bind_apply, hrun]
  cases (p.run token d state).1 with
  | error cancelled => rfl
  | ok changed =>
      cases changed with
      | none => rfl
      | some changed =>
          rw [makeCurrent]
          dsimp only
          cases w.update? changed <;> rfl

/-- A document that is annotated and made current leaves all others as they are. -/
theorem makeCurrent_outcome (hids : (w.documents.map (·.id)).Nodup) {d : Document}
    (hd : d ∈ w.documents) : makeCurrent w (.ok (outcome options d)) =
      (.ok (outcome options d), w.mapDocuments (exchanged options [d])) := by
  cases houtcome : outcome options d with
  | none =>
      have hsame : w.documents.map (exchanged options [d]) = w.documents := by
        refine List.map_id'' (fun e => ?_) w.documents
        unfold exchanged
        split
        · next he => rw [List.mem_singleton.1 he, houtcome, Option.getD_none]
        · rfl
      rw [makeCurrent, Workspace.mapDocuments, hsame]
  | some changed =>
      have hid : changed.id = d.id := by rw [outcome_eq_some houtcome]; rfl
      have hfound : w.document? changed.id = some d := by
        rw [hid, Workspace.document?_of_mem hids hd]
      obtain ⟨w', hw', -, -⟩ := Workspace.exists_update? hfound
      rw [makeCurrent, hw']
      dsimp only
      rw [Workspace.update?_eq_some hw', Workspace.mapDocuments, Workspace.mapDocuments]
      congr 2
      refine List.map_congr_left fun e he => ?_
      have hiff : e.id = changed.id ↔ e ∈ [d] := by
        rw [hid, List.mem_singleton]
        exact ⟨fun h => List.inj_on_of_nodup_map hids he hd h, fun h => congrArg _ h⟩
      unfold exchanged
      by_cases he' : e ∈ [d]
      · rw [if_pos (hiff.2 he'), if_pos he', List.mem_singleton.1 he', houtcome, Option.getD_some]
      · rw [if_neg (mt hiff.1 he'), if_neg he']

/-- The work on one document, as long as the token is not raised. -/
theorem runAndApply_quiet (hids : (w.documents.map (·.id)).Nodup) {d : Document}
    (hd : d ∈ w.documents) (hquiet : ∀ k < polls options d, token.answer k state = false) :
    runAndApply ⟨options, .standard⟩ token d w state =
      ((.ok (outcome options d), w.mapDocuments (exchanged options [d])),
        token.after (polls options d) state) := by
  have hrun : run ⟨options, .standard⟩ token d state =
      (.ok (outcome options d), token.after (polls options d) state) := by
    rw [run_eq]
    exact CancelToken.checked_quiet hquiet _
  rw [runAndApply_apply, hrun, makeCurrent_outcome hids hd]

theorem runAndApply_raised {d : Document} {poll : Nat} (hraised : token.RaisedAt poll state)
    (hpoll : poll < polls options d) :
    (runAndApply ⟨options, .standard⟩ token d w state).1 = (.error ⟨⟩, w) := by
  have hrun : (run ⟨options, .standard⟩ token d state).1 = .error ⟨⟩ := by
    rw [run_eq]
    exact CancelToken.checked_raised hpoll hraised _
  rw [runAndApply_apply, hrun, makeCurrent]

/-- What a run over documents gives if there is one in front of them. -/
def joined (changed : Option Document) :
    Except Cancelled (List Document) × Workspace → Except Cancelled (List Document) × Workspace
  | (.error cancelled, w) => (.error cancelled, w)
  | (.ok others, w) => (.ok (changed.toList ++ others), w)

theorem runDocuments_cons {p : AnnotationPipeline σ} {d : Document} {changed : Option Document}
    {w' : Workspace} {state' : σ}
    (h : p.runAndApply token d w state = ((.ok changed, w'), state')) (rest : List Document) :
    p.runDocuments token (d :: rest) w state =
      (joined changed (p.runDocuments token rest w' state').1,
        (p.runDocuments token rest w' state').2) := by
  rw [runDocuments, bind_apply, h]
  dsimp only
  rw [bind_apply]
  generalize p.runDocuments token rest w' state' = others
  obtain ⟨⟨(cancelled | others), w⟩, state⟩ := others <;> rfl

theorem runDocuments_cons_error {p : AnnotationPipeline σ} {d : Document} {cancelled : Cancelled}
    {w' : Workspace} (h : (p.runAndApply token d w state).1 = (.error cancelled, w'))
    (rest : List Document) :
    (p.runDocuments token (d :: rest) w state).1 = (.error cancelled, w') := by
  rw [runDocuments, bind_apply, h]
  rfl

/-- Documents of a workspace, each of them once, in any order. -/
structure Takes (w : Workspace) (documents : List Document) : Prop where
  ids : (w.documents.map (·.id)).Nodup
  nodup : documents.Nodup
  mem : ∀ d ∈ documents, d ∈ w.documents

namespace Takes

variable {d : Document} {rest : List Document}

/-- The documents behind the first are still there when it was exchanged. -/
theorem tail (options : AnalyzerOptions) (h : Takes w (d :: rest)) :
    Takes (w.mapDocuments (exchanged options [d])) rest where
  ids := by
    rw [Workspace.ids_mapDocuments fun e _ => id_exchanged [d] e]
    exact h.ids
  nodup := (List.nodup_cons.1 h.nodup).2
  mem := by
    intro e he
    have hne : e ∉ [d] := by
      rw [List.mem_singleton]
      rintro rfl
      exact (List.nodup_cons.1 h.nodup).1 he
    refine List.mem_map.2 ⟨e, h.mem e (List.mem_cons_of_mem _ he), ?_⟩
    rw [exchanged, if_neg hne]

theorem mapDocuments_cons (options : AnalyzerOptions) (h : Takes w (d :: rest)) :
    (w.mapDocuments (exchanged options [d])).mapDocuments (exchanged options rest) =
      w.mapDocuments (exchanged options (d :: rest)) := by
  have hd : d ∈ w.documents := h.mem d List.mem_cons_self
  have hnot : d ∉ rest := (List.nodup_cons.1 h.nodup).1
  simp only [Workspace.mapDocuments, List.map_map]
  congr 1
  refine List.map_congr_left fun e he => ?_
  rw [Function.comp_apply]
  by_cases hed : e = d
  · subst hed
    -- what the document became has its id, so it is no other document of the workspace
    have hself : exchanged options [e] e = exchanged options (e :: rest) e := by
      rw [exchanged, exchanged, if_pos List.mem_cons_self, if_pos List.mem_cons_self]
    have hfresh : exchanged options [e] e ∉ rest := by
      intro hmem
      have hsame := List.inj_on_of_nodup_map h.ids (h.mem _ (List.mem_cons_of_mem _ hmem)) he
        (id_exchanged [e] e)
      exact hnot (hsame ▸ hmem)
    rw [exchanged, if_neg hfresh, hself]
  · have hother : exchanged options [d] e = e := by
      rw [exchanged, if_neg (mt List.mem_singleton.1 hed)]
    rw [hother, exchanged, exchanged]
    simp only [List.mem_cons, hed, false_or]

end Takes

/-- A run over documents whose polls are all answered with no. -/
theorem runDocuments_quiet {documents : List Document} (h : Takes w documents)
    (hquiet : ∀ k < pollsAll options documents, token.answer k state = false) :
    runDocuments ⟨options, .standard⟩ token documents w state =
      ((.ok (documents.filterMap (outcome options)), w.mapDocuments (exchanged options documents)),
        token.after (pollsAll options documents) state) := by
  induction documents generalizing w state with
  | nil =>
      rw [mapDocuments_exchanged_nil]
      rfl
  | cons d rest ih =>
      have hfirst := runAndApply_quiet h.ids (h.mem d List.mem_cons_self) fun k hk =>
        hquiet k (Nat.lt_of_lt_of_le hk (Nat.le_add_right _ _))
      have hlater : ∀ k < pollsAll options rest,
          token.answer k (token.after (polls options d) state) = false := fun k hk => by
        rw [CancelToken.answer_after]
        exact hquiet _ (Nat.add_lt_add_left hk _)
      rw [runDocuments_cons hfirst, ih (h.tail options) hlater, h.mapDocuments_cons,
        CancelToken.after_after, List.filterMap_cons]
      cases outcome options d <;> rfl

/-- A run over documents is given up in the middle of the one during which the token is raised. -/
theorem runDocuments_raised {front back : List Document} {stopped : Document} {poll : Nat}
    (h : Takes w (front ++ stopped :: back)) (hraised : token.RaisedAt poll state)
    (hfrom : pollsAll options front ≤ poll)
    (hto : poll < pollsAll options front + polls options stopped) :
    (runDocuments ⟨options, .standard⟩ token (front ++ stopped :: back) w state).1 =
      (.error ⟨⟩, w.mapDocuments (exchanged options front)) := by
  induction front generalizing w state poll with
  | nil =>
      rw [mapDocuments_exchanged_nil]
      refine runDocuments_cons_error (runAndApply_raised hraised ?_) back
      rwa [pollsAll, Nat.zero_add] at hto
  | cons d rest ih =>
      rw [pollsAll] at hfrom hto
      obtain ⟨later, rfl⟩ := Nat.exists_eq_add_of_le (Nat.le_of_add_right_le hfrom)
      have hquiet : ∀ k < polls options d, token.answer k state = false := fun k hk =>
        hraised.quiet k (Nat.lt_of_lt_of_le hk (Nat.le_add_right _ _))
      have hfirst := runAndApply_quiet h.ids (h.mem d List.mem_cons_self) hquiet
      have hrest := ih (h.tail options) hraised.after (by omega) (by omega)
      have hcons : Takes w (d :: rest) :=
        ⟨h.ids, h.nodup.sublist (List.sublist_append_left (d :: rest) (stopped :: back)),
          fun e he => h.mem e (List.mem_append_left _ he)⟩
      rw [List.cons_append, runDocuments_cons hfirst]
      dsimp only
      rw [hrest, hcons.mapDocuments_cons, joined]

/-- A poll of a run over documents is made for one of them. -/
theorem exists_stopped {documents : List Document} {poll : Nat}
    (h : poll < pollsAll options documents) :
    ∃ front stopped back, documents = front ++ stopped :: back ∧
      pollsAll options front ≤ poll ∧ poll < pollsAll options front + polls options stopped := by
  induction documents generalizing poll with
  | nil => cases h
  | cons d rest ih =>
      rw [pollsAll] at h
      by_cases hfirst : poll < polls options d
      · exact ⟨[], d, rest, rfl, Nat.zero_le poll, by rwa [pollsAll, Nat.zero_add]⟩
      · obtain ⟨front, stopped, back, rfl, hfrom, hto⟩ := @ih (poll - polls options d) (by omega)
        refine ⟨d :: front, stopped, back, rfl, ?_, ?_⟩
        · rw [pollsAll]
          omega
        · rw [pollsAll]
          omega

end AnnotationPipeline

/-! ## Running over a workspace -/

/-- Two workspaces of which the second has the same documents as the first, but those that a
function gives something for exchanged for that. -/
structure Workspace.Exchanged (result : Document → Option Document) (old new : Workspace) :
    Prop where
  kind : new.kind = old.kind
  compilation : new.compilation = old.compilation
  ids : new.documents.map (·.id) = old.documents.map (·.id)
  names : new.documents.map (·.name) = old.documents.map (·.name)
  compilations : new.documents.map (·.compilation) = old.documents.map (·.compilation)
  current : ∀ id, new.document? id = (old.document? id).map fun d => (result d).getD d

namespace AnnotationPipeline

variable {options : AnalyzerOptions} {w w' : Workspace}

theorem exchanged_mapDocuments (options : AnalyzerOptions) (w : Workspace)
    (documents : List Document) :
    w.Exchanged (fun d => if d ∈ documents then outcome options d else none)
      (w.mapDocuments (exchanged options documents)) := by
  have hresult : ∀ d, exchanged options documents d =
      (if d ∈ documents then outcome options d else none).getD d := by
    intro d
    unfold exchanged
    split <;> rfl
  have hkept : ∀ {β : Type} (field : Document → β),
      (∀ (d : Document) root, field (d.withRoot root) = field d) →
      (w.mapDocuments (exchanged options documents)).documents.map field =
        w.documents.map field := by
    intro β field hfield
    rw [Workspace.mapDocuments, List.map_map]
    refine List.map_congr_left fun d _ => ?_
    rw [Function.comp_apply, exchanged_eq, hfield]
  refine ⟨rfl, rfl, hkept _ fun _ _ => rfl, hkept _ fun _ _ => rfl, hkept _ fun _ _ => rfl,
    fun id => ?_⟩
  rw [Workspace.document?_mapDocuments fun d _ => id_exchanged documents d]
  exact congrArg (Option.map · _) (funext hresult)

theorem takes_of_perm (hw : w.Reachable) {order : List Document}
    (h : order.Perm w.documents) : Takes w order where
  ids := hw.nodup
  nodup := h.nodup_iff.2 (List.Nodup.of_map _ hw.nodup)
  mem := fun _ hd => h.subset hd

/-- A run over a workspace whose token is not raised ends. Afterwards each document that has an
outcome is exchanged for it, those are listed in order of their ids, and nothing else has changed.
The outcome is that of a run over the document alone, and the workspace is the same in whatever
order the documents are taken. -/
theorem exchanged_of_quiet (options : AnalyzerOptions) (hw : w.Reachable) :
    (∀ {σ : Type} (token : CancelToken σ) (state : σ) (d : Document),
      (∀ poll, token.answer poll state = false) →
        (run ⟨options, .standard⟩ token d state).1 = .ok (outcome options d)) ∧
    ((w.documents.filterMap (outcome options)).map (·.id)).Pairwise (· < ·) ∧
    ∃ w', w.Exchanged (outcome options) w' ∧
      ∀ {σ : Type} (token : CancelToken σ) (state : σ),
        (∀ poll, token.answer poll state = false) →
        (runWorkspace ⟨options, .standard⟩ token w state).1 =
            (.ok (w.documents.filterMap (outcome options)), w') ∧
          ∀ order : List Document, order.Perm w.documents →
            (runDocuments ⟨options, .standard⟩ token order w state).1 =
              (.ok (order.filterMap (outcome options)), w') := by
  refine ⟨fun token state d hquiet => ?_, ?_, w.mapDocuments (exchanged options w.documents), ?_,
    fun token state hquiet => ?_⟩
  · rw [run_eq]
    exact CancelToken.checked_of_quiet (fun poll _ => hquiet poll) _
  · rw [List.pairwise_map, List.pairwise_filterMap]
    refine (List.pairwise_map.1 hw.ordered).imp fun hlt new hnew other hother => ?_
    rw [outcome_eq_some hnew, outcome_eq_some hother]
    exact hlt
  · have hexchanged := exchanged_mapDocuments options w w.documents
    refine { hexchanged with current := fun id => ?_ }
    rw [hexchanged.current]
    cases hfound : w.document? id with
    | none => rfl
    | some d => rw [Option.map_some, Option.map_some, if_pos (List.mem_of_find?_eq_some hfound)]
  · have hrun : ∀ order : List Document, order.Perm w.documents →
        (runDocuments ⟨options, .standard⟩ token order w state).1 =
          (.ok (order.filterMap (outcome options)),
            w.mapDocuments (exchanged options w.documents)) := by
      intro order horder
      have hsame : exchanged options order = exchanged options w.documents := by
        funext d
        rw [exchanged, exchanged]
        simp only [horder.mem_iff]
      rw [runDocuments_quiet (takes_of_perm hw horder) fun poll _ => hquiet poll, hsame]
    exact ⟨hrun w.documents (List.Perm.refl _), hrun⟩

/-- A first and a third document that can be annotated, and one between them that cannot. -/
theorem exchanged_of_quiet_around_plain :
    let unit (parts : Build.TypeParts) : Node :=
      Build.compilationUnit [] [Build.typeDeclaration .classDeclaration parts]
    let trees := [unit { name := "First", bases := ["System.Attribute"] },
      unit { name := "Plain" }, unit { name := "Third", bases := ["System.Attribute"] }]
    let w : Workspace :=
      .ofCompilation .host (.ofTrees .core trees) ["First.cs", "Plain.cs", "Third.cs"]
    w.Reachable ∧ ∃ (found : List Document) (w' : Workspace),
      (runWorkspace ⟨{}, .standard⟩ (.never : CancelToken Unit) w ()).1 = (.ok found, w') ∧
      w.Exchanged (outcome {}) w' ∧ found.map (·.name) = ["First.cs", "Third.cs"] ∧
      (runDocuments ⟨{}, .standard⟩ (.never : CancelToken Unit) w.documents.reverse w ()).1.2 =
        w' := by
  intro unit trees w
  have hw : w.Reachable := .ofCompilation _ _ _
  obtain ⟨-, -, w', hexchanged, hrun⟩ := exchanged_of_quiet {} hw
  obtain ⟨hall, horder⟩ := hrun (.never : CancelToken Unit) () fun poll =>
    CancelToken.answer_never poll ()
  have hfound : (w.documents.filterMap (outcome {})).map (·.name) = ["First.cs", "Third.cs"] := by
    decide +kernel
  refine ⟨hw, _, w', hall, hexchanged, hfound, ?_⟩
  rw [horder _ (List.reverse_perm _)]

/-- A run over a workspace that is cancelled was done with the documents in front of the one during
which the token was raised, and has exchanged just these. So the workspace is as it was only if none
of them became another document. -/
theorem exchanged_of_cancelled {σ : Type} {token : CancelToken σ} {state : σ}
    {cancelled : Cancelled} (hw : w.Reachable)
    (hrun : (runWorkspace ⟨options, .standard⟩ token w state).1 = (.error cancelled, w')) :
    ∃ front stopped back poll, w.documents = front ++ stopped :: back ∧
      token.RaisedAt poll state ∧ pollsAll options front ≤ poll ∧
      poll < pollsAll options front + polls options stopped ∧
      w.Exchanged (fun d => if d ∈ front then outcome options d else none) w' ∧
      ((∀ id, w'.document? id = w.document? id) ↔ ∀ d ∈ front, (outcome options d).getD d = d) := by
  have htakes := takes_of_perm hw (List.Perm.refl w.documents)
  rw [runWorkspace] at hrun
  rcases token.quiet_or_raised (pollsAll options w.documents) state with
    hquiet | ⟨poll, hpoll, hraised⟩
  · rw [runDocuments_quiet htakes hquiet] at hrun
    cases hrun
  obtain ⟨front, stopped, back, hsplit, hfrom, hto⟩ := exists_stopped hpoll
  have hstopped := runDocuments_raised (hsplit ▸ htakes) hraised hfrom hto
  rw [hsplit, hstopped] at hrun
  cases hrun
  refine ⟨front, stopped, back, poll, hsplit, hraised, hfrom, hto,
    exchanged_mapDocuments options w front, fun hsame d hd => ?_, fun hsame id => ?_⟩
  · have hmem : d ∈ w.documents := by
      rw [hsplit]
      exact List.mem_append_left _ hd
    have hcurrent := hsame d.id
    rw [Workspace.document?_mapDocuments fun d _ => id_exchanged front d,
      Workspace.document?_of_mem hw.nodup hmem, Option.map_some, exchanged, if_pos hd] at hcurrent
    exact Option.some.inj hcurrent
  · rw [Workspace.document?_mapDocuments fun d _ => id_exchanged front d]
    cases w.document? id with
    | none => rfl
    | some d =>
        rw [Option.map_some, exchanged]
        split
        · next hd => rw [hsame d hd]
        · rfl

/-- A run over two documents is cancelled behind the polls for the first. -/
theorem runWorkspace_of_raised (options : AnalyzerOptions) (first second : Document) (poll : Nat)
    (hw : w.Reachable) (hdocuments : w.documents = [first, second])
    (hfirst : polls options first = poll) (hsecond : 0 < polls options second) :
    (runWorkspace ⟨options, .standard⟩ (.scheduled fun k => decide (poll ≤ k)) w 0).1 =
      (.error ⟨⟩, w.mapDocuments (exchanged options [first])) := by
  have htakes : Takes w ([first] ++ second :: []) := by
    have hall := takes_of_perm hw (List.Perm.refl w.documents)
    rw [hdocuments] at hall
    exact hall
  have hpolls : pollsAll options [first] = poll := by rw [pollsAll, pollsAll, hfirst, Nat.add_zero]
  rw [runWorkspace, hdocuments]
  exact runDocuments_raised htakes (CancelToken.raisedAt_scheduled poll) (by omega) (by omega)

/-- The token is raised while the second document is looked at; nothing became of the first, so all
is as before. -/
theorem exchanged_of_cancelled_behind_plain :
    let plain := Build.compilationUnit []
      [Build.typeDeclaration .classDeclaration { name := "Plain" }]
    let marker := Build.compilationUnit [] [Build.typeDeclaration .classDeclaration
      { name := "Marker", bases := ["System.Attribute"] }]
    let w : Workspace :=
      .ofCompilation .host (.ofTrees .core [plain, marker]) ["Plain.cs", "Marker.cs"]
    let token := CancelToken.scheduled fun poll => decide (2 ≤ poll)
    w.Reachable ∧ ∃ w', (runWorkspace ⟨{}, .standard⟩ token w 0).1 = (.error ⟨⟩, w') ∧
      ∀ id, w'.document? id = w.document? id := by
  intro plain marker w token
  have hw : w.Reachable := .ofCompilation _ _ _
  let first : Document := ⟨0, "Plain.cs", plain, .ofTrees .core [plain, marker]⟩
  let second : Document := ⟨1, "Marker.cs", marker, .ofTrees .core [plain, marker]⟩
  have hrun := runWorkspace_of_raised {} first second 2 hw rfl (by decide +kernel)
    (by decide +kernel)
  obtain ⟨front, stopped, back, poll, hsplit, -, -, -, -, hiff⟩ := exchanged_of_cancelled hw hrun
  refine ⟨hw, _, hrun, hiff.2 fun d hd => ?_⟩
  have hplain : ∀ d ∈ w.documents.dropLast, (outcome {} d).getD d = d := by decide +kernel
  refine hplain d ?_
  rw [hsplit, List.dropLast_append_cons]
  exact List.mem_append_left _ hd

/-- A run is cancelled and has changed a document: the token is raised behind the last poll for the
first of two documents, and stays raised. -/
theorem kept_of_cancelled :
    let unit (name : String) : Node := Build.compilationUnit []
      [Build.typeDeclaration .classDeclaration { name := name, bases := ["System.Attribute"] }]
    let w : Workspace := .ofCompilation .host (.ofTrees .core [unit "A", unit "B"]) ["A.cs", "B.cs"]
    let token := CancelToken.scheduled fun poll => decide (4 ≤ poll)
    w.Reachable ∧ ∃ w', (runWorkspace ⟨{}, .standard⟩ token w 0).1 = (.error ⟨⟩, w') ∧
      (w.document? 0).map (·.text) = some "class A : System.Attribute \x7b\x7d\n" ∧
      (w'.document? 0).map (·.text) =
        some ("[System.AttributeUsage(System.AttributeTargets.Class)]\n" ++
          "class A : System.Attribute \x7b\x7d\n") ∧
      w'.document? 0 ≠ w.document? 0 := by
  intro unit w token
  have hw : w.Reachable := .ofCompilation _ _ _
  let first : Document := ⟨0, "A.cs", unit "A", .ofTrees .core [unit "A", unit "B"]⟩
  let second : Document := ⟨1, "B.cs", unit "B", .ofTrees .core [unit "A", unit "B"]⟩
  have hrun := runWorkspace_of_raised {} first second 4 hw rfl (by decide +kernel)
    (by decide +kernel)
  have hbefore : (w.document? 0).map (·.text) =
      some "class A : System.Attribute \x7b\x7d\n" := by decide +kernel
  have hbehind : ((w.mapDocuments (exchanged {} [first])).document? 0).map (·.text) =
      some ("[System.AttributeUsage(System.AttributeTargets.Class)]\n" ++
        "class A : System.Attribute \x7b\x7d\n") := by decide +kernel
  refine ⟨hw, _, hrun, hbefore, hbehind, fun hsame => ?_⟩
  rw [hsame, hbefore] at hbehind
  revert hbehind
  decide

end AnnotationPipeline

end TreeLint
