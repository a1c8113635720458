import Mathlib.Data.List.Find
import Mathlib.Data.List.Nodup
import TreeLint.Workspace

/-!
# The current documents of a workspace

A workspace is made with one document per tree and then only has documents exchanged for others with
their ids. So its ids are those it was made with, in order and each of them once, and the current
document of an id is found by it.
-/

namespace TreeLint

namespace Workspace

/-- Workspaces as they come about: made from a compilation and then changed, a document at a
time. -/
inductive Reachable : Workspace → Prop where
  | ofCompilation (kind : WorkspaceKind) (compilation : Compilation) (names : List String) :
      Reachable (ofCompilation kind compilation names)
  | update {w w' : Workspace} (h : Reachable w) (changed : Document)
      (hupdate : w.update? changed = some w') : Reachable w'

/-- The workspace with each document exchanged for what a function makes of it. -/
def mapDocuments (w : Workspace) (f : Document → Document) : Workspace :=
  { w with documents := w.documents.map f }

variable {w w' : Workspace} {changed : Document}

theorem update?_eq_some (h : w.update? changed = some w') :
    w' = w.mapDocuments fun d => if d.id = changed.id then changed else d := by
  unfold update? at h
  obtain ⟨-, h⟩ := Option.ite_none_right_eq_some.1 h
  exact (Option.some.inj h).symm

theorem id_ite_eq (changed d : Document) :
    (if d.id = changed.id then changed else d).id = d.id := by
  split
  · next hid => exact hid.symm
  · rfl

theorem ids_mapDocuments {f : Document → Document} (hf : ∀ d ∈ w.documents, (f d).id = d.id) :
    (w.mapDocuments f).documents.map (·.id) = w.documents.map (·.id) := by
  rw [mapDocuments, List.map_map]
  exact List.map_congr_left hf

/-- The documents of a workspace are in order of their ids. -/
theorem Reachable.ordered (h : w.Reachable) : (w.documents.map (·.id)).Pairwise (· < ·) := by
  induction h with
  | ofCompilation kind compilation names =>
      have hids : (Workspace.ofCompilation kind compilation names).documents.map (·.id) =
          List.range compilation.trees.length := by
        refine List.ext_getElem (by simp [Workspace.ofCompilation]) fun i _ _ => ?_
        simp [Workspace.ofCompilation]
      rw [hids]
      exact List.pairwise_lt_range
  | update _ changed hupdate ih =>
      rw [update?_eq_some hupdate, ids_mapDocuments fun d _ => id_ite_eq changed d]
      exact ih

theorem Reachable.nodup (h : w.Reachable) : (w.documents.map (·.id)).Nodup :=
  h.ordered.imp Nat.ne_of_lt

/-- Documents that are exchanged for others with their ids are found where they were. -/
theorem document?_mapDocuments {f : Document → Document}
    (hf : ∀ d ∈ w.documents, (f d).id = d.id) (id : DocumentId) :
    (w.mapDocuments f).document? id = (w.document? id).map f := by
  have hsame : ∀ d ∈ w.documents, ((fun d : Document => d.id == id) ∘ f) d = (d.id == id) :=
    fun d hd => by rw [Function.comp_apply, hf d hd]
  rw [document?, document?, mapDocuments, List.find?_map, List.find?_congr hsame]

theorem id_of_document? {id : DocumentId} {d : Document} (h : w.document? id = some d) :
    d.id = id := by
  have hfits := List.find?_some h
  rwa [beq_iff_eq] at hfits

/-- A workspace takes any document with an id it has, and that is the current one then. -/
theorem exists_update? {d : Document} (h : w.document? changed.id = some d) :
    ∃ w', w.update? changed = some w' ∧ w'.kind = w.kind ∧
      w'.document? changed.id = some changed := by
  have hsome : (w.document? changed.id).isSome = true := by rw [h, Option.isSome_some]
  obtain ⟨w', hw'⟩ : ∃ w', w.update? changed = some w' := by
    rw [update?, if_pos hsome]
    exact ⟨_, rfl⟩
  refine ⟨w', hw', ?_, ?_⟩
  · rw [update?_eq_some hw']
    rfl
  · rw [update?_eq_some hw', document?_mapDocuments fun e _ => id_ite_eq changed e, h,
      Option.map_some, if_pos (id_of_document? h)]

theorem document?_of_mem {d : Document} (h : (w.documents.map (·.id)).Nodup)
    (hd : d ∈ w.documents) : w.document? d.id = some d := by
  have hsome : (w.document? d.id).isSome = true := by
    rw [document?, List.find?_isSome]
    exact ⟨d, hd, beq_self_eq_true d.id⟩
  obtain ⟨e, he⟩ := Option.isSome_iff_exists.1 hsome
  rw [he, List.inj_on_of_nodup_map h (List.mem_of_find?_eq_some he) hd (id_of_document? he)]

end Workspace

end TreeLint
