import Mathlib.Data.List.Perm.Subperm
import TreeLint.Config.Load
import TreeLint.Proofs.MergedValues

/-!
# Files that extend each other

Loading a file follows what is extended from file to file, and merges what the files set on the way
back. What happens at one file does not depend on how it was reached (`visit`), except that a
canonical path must not be entered twice. So loading is a walk along a trail that the file system
alone determines, and it ends in one of three ways: at a path whose canonical path was entered
before, at a file that fails, or at one that extends nothing. Each file on the trail was read and
has a canonical path of its own among finitely many, so the trail is no longer than those.
-/

namespace TreeLint.Config

open Json (Value)

/-! ## One file -/

/-- What the file at a path sets, and the path of the file that it extends if it extends one. -/
def visit (fs : FileSystem) (path : String) : Except ConfigError (Value × Option String) :=
  match fs.read path with
  | .error cause => .error (.unreadable path cause)
  | .ok source =>
    match parseEntries source with
    | .error cause => .error (.unparsable path cause)
    | .ok entries =>
      match Json.lastValue? extendsKey entries with
      | none => .ok (.object (Json.dropEntry extendsKey entries), none)
      | some (.string name) =>
        match basePath? path name with
        | none => .error .noParent
        | some base => .ok (.object (Json.dropEntry extendsKey entries), some base)
      | some _ => .error (.extendsNotString path)

variable {fs : FileSystem}

theorem exists_read_of_visit {path : String} {v : Value} {base : Option String}
    (h : visit fs path = .ok (v, base)) : ∃ source entries, fs.read path = .ok source ∧
      parseEntries source = .ok entries ∧ v = .object (Json.dropEntry extendsKey entries) := by
  unfold visit at h
  cases hread : fs.read path with
  | error cause => rw [hread] at h; cases h
  | ok source =>
      rw [hread] at h
      cases hparse : parseEntries source with
      | error cause => simp only [hparse] at h; cases h
      | ok entries =>
          refine ⟨source, entries, rfl, hparse, ?_⟩
          simp only [hparse] at h
          split at h
          · cases h; rfl
          · split at h
            · cases h
            · cases h; rfl
          · cases h

/-- No file fails by the cycle that it is in. -/
theorem visit_ne_cycle (path name : String) : visit fs path ≠ .error (.cycle name) := by
  unfold visit
  intro h
  split at h
  · cases h
  · split at h
    · cases h
    · split at h
      · cases h
      · split at h <;> cases h
      · cases h

theorem dropEntry_of_lastValue_none {key : String} {entries : List (String × Value)}
    (h : Json.lastValue? key entries = none) : Json.dropEntry key entries = entries := by
  refine List.filter_eq_self.2 fun entry hentry => ?_
  have hnone := List.find?_eq_none.1 (Option.map_eq_none_iff.1 h) entry (List.mem_reverse.2 hentry)
  simpa using hnone

theorem visit_of_extends {path source name base : String} {entries : List (String × Value)}
    (hread : fs.read path = .ok source) (hparse : parseEntries source = .ok entries)
    (hname : Json.lastValue? extendsKey entries = some (.string name))
    (hbase : basePath? path name = some base) :
    visit fs path = .ok (.object (Json.dropEntry extendsKey entries), some base) := by
  simp only [visit, hread, hparse, hname, hbase]

theorem visit_of_extends_none {path source : String} {entries : List (String × Value)}
    (hread : fs.read path = .ok source) (hparse : parseEntries source = .ok entries)
    (hnone : Json.lastValue? extendsKey entries = none) :
    visit fs path = .ok (.object entries, none) := by
  simp only [visit, hread, hparse, hnone, dropEntry_of_lastValue_none hnone]

/-- Loading goes from file to file, and merges on the way back. -/
theorem loadValue_eq (fs : FileSystem) (visited : List String) (path : String) :
    loadValue fs visited path =
      if canonicalOr fs path ∈ visited then .error (.cycle (canonicalOr fs path))
      else
        match visit fs path with
        | .error e => .error e
        | .ok (v, none) => .ok v
        | .ok (v, some base) =>
          (loadValue fs (canonicalOr fs path :: visited) base).map fun below => below.merge v := by
  rw [loadValue]
  split
  · rfl
  split
  · next cause hread =>
      have hvisit : visit fs path = .error (.unreadable path cause) := by
        simp only [visit, hread]
      rw [hvisit]
  · next source hread =>
      split
      · next cause hparse =>
          have hvisit : visit fs path = .error (.unparsable path cause) := by
            simp only [visit, hread, hparse]
          rw [hvisit]
      · next entries hparse =>
          split
          · next hnone =>
              rw [visit_of_extends_none hread hparse hnone]
          · next name hname =>
              split
              · next hbase =>
                  have hvisit : visit fs path = .error .noParent := by
                    simp only [visit, hread, hparse, hname, hbase]
                  rw [hvisit]
              · next base hbase =>
                  rw [visit_of_extends hread hparse hname hbase]
                  dsimp only
                  cases loadValue fs (canonicalOr fs path :: visited) base <;> rfl
          · next other hother hentry =>
              have hvisit : visit fs path = .error (.extendsNotString path) := by
                unfold visit
                simp only [hread, hparse, hentry]
              rw [hvisit]

/-! ## The trail -/

/-- Following what is extended from a path leads through some files, with what each of them sets, to
another path. -/
inductive Follows (fs : FileSystem) : String → List (String × Value) → String → Prop where
  | here {path : String} : Follows fs path [] path
  | extend {path base last : String} {v : Value} {files : List (String × Value)}
      (h : visit fs path = .ok (v, some base)) (hrest : Follows fs base files last) :
      Follows fs path ((path, v) :: files) last

/-- The canonical paths of some files. -/
def entered (fs : FileSystem) (files : List (String × Value)) : List String :=
  files.map fun file => canonicalOr fs file.1

/-- How following files ends at a path, and what loading comes to by that. `before` holds the
canonical paths that were entered, `values` what the files on the way set. -/
inductive Ending (fs : FileSystem) (before : List String) (values : List Value) (last : String) :
    Except ConfigError Value → Prop where
  | reentered (h : canonicalOr fs last ∈ before) :
      Ending fs before values last (.error (.cycle (canonicalOr fs last)))
  | failed {e : ConfigError} (hfresh : canonicalOr fs last ∉ before)
      (h : visit fs last = .error e) : Ending fs before values last (.error e)
  | complete {v merged : Value} (hfresh : canonicalOr fs last ∉ before)
      (h : visit fs last = .ok (v, none)) (hmerged : Value.overlay (values ++ [v]) = some merged) :
      Ending fs before values last (.ok merged)

theorem Ending.mono {before before' : List String} {values : List Value} {last : String}
    {result : Except ConfigError Value} (h : Ending fs before values last result)
    (hsame : ∀ c, c ∈ before ↔ c ∈ before') : Ending fs before' values last result := by
  cases h with
  | reentered hmem => exact .reentered ((hsame _).1 hmem)
  | failed hfresh hvisit => exact .failed (mt (hsame _).2 hfresh) hvisit
  | complete hfresh hvisit hmerged => exact .complete (mt (hsame _).2 hfresh) hvisit hmerged

/-- What a file sets goes over what those behind it come to. -/
theorem Ending.over {before : List String} {values : List Value} {last : String}
    {result : Except ConfigError Value} (h : Ending fs before values last result) (v : Value) :
    Ending fs before (v :: values) last (result.map fun below => below.merge v) := by
  cases h with
  | reentered hmem => exact .reentered hmem
  | failed hfresh hvisit => exact .failed hfresh hvisit
  | complete hfresh hvisit hmerged =>
      refine .complete hfresh hvisit ?_
      rw [List.cons_append, Value.overlay, hmerged]
      rfl

/-- Loading goes along the trail from a path until it ends, entering each canonical path once. -/
theorem exists_ending (fs : FileSystem) (visited : List String) (path : String) :
    ∃ files last, Follows fs path files last ∧ (∀ c ∈ entered fs files, c ∉ visited) ∧
      (entered fs files).Nodup ∧
      Ending fs (visited ++ entered fs files) (files.map (·.2)) last
        (loadValue fs visited path) := by
  have hnone : ∀ c ∈ entered fs [], c ∉ visited := fun _ h => absurd h List.not_mem_nil
  rw [loadValue_eq]
  by_cases hseen : canonicalOr fs path ∈ visited
  · rw [if_pos hseen]
    exact ⟨[], path, .here, hnone, .nil, .reentered (List.mem_append_left _ hseen)⟩
  · rw [if_neg hseen]
    have hfresh : canonicalOr fs path ∉ visited ++ entered fs [] := by
      rwa [entered, List.map_nil, List.append_nil]
    cases hvisit : visit fs path with
    | error e => exact ⟨[], path, .here, hnone, .nil, .failed hfresh hvisit⟩
    | ok found =>
        obtain ⟨v, next⟩ := found
        cases next with
        | none => exact ⟨[], path, .here, hnone, .nil, .complete hfresh hvisit rfl⟩
        | some base =>
            obtain ⟨source, -, hread, -⟩ := exists_read_of_visit hvisit
            have := length_unvisited_lt fs hread hseen
            obtain ⟨files, last, hfollows, hbehind, hnodup, hending⟩ :=
              exists_ending fs (canonicalOr fs path :: visited) base
            refine ⟨(path, v) :: files, last, .extend hvisit hfollows, ?_, ?_, ?_⟩
            · intro c hc
              rcases List.mem_cons.1 hc with rfl | hc
              · exact hseen
              · exact fun hmem => hbehind c hc (List.mem_cons_of_mem _ hmem)
            · exact List.nodup_cons.2 ⟨fun hmem => hbehind _ hmem List.mem_cons_self, hnodup⟩
            · refine (hending.over v).mono fun c => ?_
              simp only [entered, List.map_cons, List.cons_append, List.mem_cons, List.mem_append]
              exact or_left_comm
termination_by (fs.known.filter (· ∉ visited)).length
decreasing_by exact this

/-- Two trails from one path are one trail as far as both go. -/
theorem Follows.comparable {path last last' : String} {files files' : List (String × Value)}
    (h : Follows fs path files last) (h' : Follows fs path files' last') :
    (∃ more, files' = files ++ more ∧ Follows fs last more last') ∨
      ∃ more, files = files' ++ more ∧ Follows fs last' more last := by
  induction h generalizing files' with
  | here => exact .inl ⟨files', rfl, h'⟩
  | @extend path base last v files hvisit hrest ih =>
      cases h' with
      | here => exact .inr ⟨_, rfl, .extend hvisit hrest⟩
      | @extend _ base' _ v' files' hvisit' hrest' =>
          rw [hvisit] at hvisit'
          cases hvisit'
          rcases ih hrest' with ⟨more, rfl, hmore⟩ | ⟨more, rfl, hmore⟩
          · exact .inl ⟨more, rfl, hmore⟩
          · exact .inr ⟨more, rfl, hmore⟩

/-- Files on a trail were read, so their canonical paths are known. -/
theorem Follows.entered_subset {path last : String} {files : List (String × Value)}
    (h : Follows fs path files last) : ∀ c ∈ entered fs files, c ∈ fs.known := by
  induction h with
  | here => exact fun _ hc => absurd hc List.not_mem_nil
  | @extend path base last v files hvisit hrest ih =>
      intro c hc
      rcases List.mem_cons.1 hc with rfl | hc
      · obtain ⟨source, -, hread, -⟩ := exists_read_of_visit hvisit
        obtain ⟨name, hname, hcanonical⟩ := fs.known_of_read path source hread
        show canonicalOr fs path ∈ fs.known
        rw [canonicalOr, hcanonical]
        exact hname
      · exact ih c hc

theorem Follows.length_le {path last : String} {files : List (String × Value)}
    (h : Follows fs path files last) (hnodup : (entered fs files).Nodup) :
    files.length ≤ fs.known.length := by
  have hle := (List.subperm_of_subset hnodup h.entered_subset).length_le
  rwa [entered, List.length_map] at hle

/-- A trail that comes to a canonical path again is one that loading ends on. -/
theorem exists_cycle_iff (fs : FileSystem) (start : String) :
    (∃ name, loadValue fs [] start = .error (.cycle name)) ↔
      ∃ files last, Follows fs start files last ∧ canonicalOr fs last ∈ entered fs files := by
  obtain ⟨files, last, hfollows, -, hnodup, hending⟩ := exists_ending fs [] start
  rw [List.nil_append] at hending
  constructor
  · rintro ⟨name, hcycle⟩
    rw [hcycle] at hending
    cases hending with
    | reentered hmem => exact ⟨files, last, hfollows, hmem⟩
    | failed _ hvisit => exact absurd hvisit (visit_ne_cycle last name)
  · rintro ⟨files', last', hfollows', hmem⟩
    -- where loading ends otherwise, nothing is extended, so the trail that comes back ends earlier
    have hends : canonicalOr fs last ∉ entered fs files →
        (∀ v base, visit fs last ≠ .ok (v, some base)) → False := by
      intro hfresh hnobase
      rcases hfollows.comparable hfollows' with ⟨more, rfl, hmore⟩ | ⟨more, rfl, hmore⟩
      · cases hmore with
        | here =>
            rw [List.append_nil] at hmem
            exact hfresh hmem
        | extend hvisit _ => exact hnobase _ _ hvisit
      · cases hmore with
        | here =>
            rw [List.append_nil] at hfresh
            exact hfresh hmem
        | @extend _ _ _ v more _ _ =>
            rw [entered, List.map_append, List.map_cons] at hnodup
            exact (List.nodup_append.1 hnodup).2.2 _ hmem _ List.mem_cons_self rfl
    cases hresult : loadValue fs [] start with
    | ok merged =>
        rw [hresult] at hending
        cases hending with
        | complete hfresh hvisit _ =>
            exact (hends hfresh fun v base h => by rw [hvisit] at h; cases h).elim
    | error e =>
        rw [hresult] at hending
        cases hending with
        | reentered _ => exact ⟨_, rfl⟩
        | failed hfresh hvisit =>
            exact (hends hfresh fun v base h => by rw [hvisit] at h; cases h).elim

/-- A trail of different files that ends with one that extends nothing is loaded. -/
theorem loadValue_of_follows {path last : String} {files : List (String × Value)} {v : Value}
    (h : Follows fs path files last) (hvisit : visit fs last = .ok (v, none))
    {visited : List String} (hfresh : ∀ c ∈ entered fs files ++ [canonicalOr fs last], c ∉ visited)
    (hnodup : (entered fs files ++ [canonicalOr fs last]).Nodup) :
    ∃ merged, Value.overlay (files.map (·.2) ++ [v]) = some merged ∧
      loadValue fs visited path = .ok merged := by
  induction h generalizing visited with
  | here =>
      refine ⟨v, rfl, ?_⟩
      rw [loadValue_eq, if_neg (hfresh _ List.mem_cons_self), hvisit]
  | @extend path base last w files hbase hrest ih =>
      obtain ⟨hfirst, hothers⟩ := List.nodup_cons.1 hnodup
      have hbehind : ∀ c ∈ entered fs files ++ [canonicalOr fs last],
          c ∉ canonicalOr fs path :: visited := by
        intro c hc hmem
        rcases List.mem_cons.1 hmem with rfl | hmem
        · exact hfirst hc
        · exact hfresh c (List.mem_cons_of_mem _ hc) hmem
      obtain ⟨merged, hmerged, hload⟩ := ih hvisit hbehind hothers
      refine ⟨merged.merge w, ?_, ?_⟩
      · rw [List.map_cons, List.cons_append, Value.overlay, hmerged]
        rfl
      · rw [loadValue_eq, if_neg (hfresh _ List.mem_cons_self), hbase]
        dsimp only
        rw [hload]
        rfl

end TreeLint.Config
