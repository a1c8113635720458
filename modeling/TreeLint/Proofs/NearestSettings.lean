import TreeLint.Proofs.ExtendedFiles

/-!
# Which file an option comes from

Options are read from what the files on a trail come to together, section by section and field by
field. If the sections are objects in all files, nothing on the way to a field hides another file,
and the field is what the files hold under its key path, laid over each other. So it comes from the
nearest file that sets it, and where none does it has its default.

There is one exception, because two of the options may also be written as an object with one key.
If the nearest two files that set such an option both do so, the two objects are merged like any
others; the result has two keys, and no option is read from it.
-/

namespace TreeLint

open Json (Value)

/-! ## Options by key paths -/

namespace LocalisableStringOptions

/-- The options that are set under some keys. -/
def ofSettings? (setting : String → Option Value) : Option LocalisableStringOptions := do
  let defaults : LocalisableStringOptions := {}
  let enabled ← fieldOr defaults.enabled Value.bool? (setting "enabled")
  let viewType ← fieldOr defaults.viewType Value.string? (setting "viewType")
  let severity ← fieldOr defaults.severity (·.word? >>= Severity.ofName?) (setting "severity")
  pure { enabled, viewType, severity }

end LocalisableStringOptions

namespace AttributeUsageOptions

def ofSettings? (setting : String → Option Value) : Option AttributeUsageOptions := do
  let defaults : AttributeUsageOptions := {}
  let target ← fieldOr defaults.target (·.word? >>= AttributeTarget.ofName?) (setting "target")
  pure { target }

end AttributeUsageOptions

namespace FormattingOptions

def ofSettings? (setting : String → Option Value) : Option FormattingOptions := do
  let defaults : FormattingOptions := {}
  let indentSize ← fieldOr defaults.indentSize Value.natBelow32? (setting "indentSize")
  let insertSpaces ← fieldOr defaults.insertSpaces Value.bool? (setting "insertSpaces")
  let newLine ← fieldOr defaults.newLine Value.string? (setting "newLine")
  let attributeListsOnOwnLine ←
    fieldOr defaults.attributeListsOnOwnLine Value.bool? (setting "attributeListsOnOwnLine")
  pure { indentSize, insertSpaces, newLine, attributeListsOnOwnLine }

end FormattingOptions

namespace AnalyzerOptions

/-- The options that are set under some key paths; an option that is not set has its default. -/
def ofSettings? (setting : List String → Option Value) : Option AnalyzerOptions := do
  let defaults : AnalyzerOptions := {}
  let localisableString ←
    LocalisableStringOptions.ofSettings? fun key => setting ["localisableString", key]
  let attributeUsage ← AttributeUsageOptions.ofSettings? fun key => setting ["attributeUsage", key]
  let formatting ← FormattingOptions.ofSettings? fun key => setting ["formatting", key]
  let simplify ← fieldOr defaults.simplify Value.bool? (setting ["simplify"])
  pure { localisableString, attributeUsage, formatting, simplify }

/-- The keys of the records that options consist of. -/
def sections : List (String × List String) :=
  [("localisableString", LocalisableStringOptions.keys),
    ("attributeUsage", AttributeUsageOptions.keys), ("formatting", FormattingOptions.keys)]

/-- The key paths of all options. -/
def settingPaths : List (List String) :=
  ["simplify"] :: sections.flatMap fun (name, fields) => fields.map fun key => [name, key]

/-- In a value, whatever stands for a record of options is an object. -/
def SectionsAreObjects (v : Value) : Prop :=
  ∀ name ∈ sections.map (·.1), ∀ inner ∈ v.get? name, inner.isObject = true

instance (v : Value) : Decidable (SectionsAreObjects v) :=
  inferInstanceAs (Decidable (∀ name ∈ sections.map (·.1), ∀ inner ∈ v.get? name,
    inner.isObject = true))

end AnalyzerOptions

/-- A record that is an object or missing is read by its keys. -/
theorem fieldOr_eq_of_object {α : Type} {default : α} (read : Value → Option α)
    (ofSettings? : (String → Option Value) → Option α) {v : Option Value}
    (hnone : ofSettings? (fun _ => none) = some default)
    (hobject : ∀ entries, read (.object entries) =
      ofSettings? fun key => (Value.object entries).get? key)
    (h : ∀ inner ∈ v, inner.isObject = true) :
    fieldOr default read v = ofSettings? fun key => v.bind (Value.at? [key]) := by
  cases v with
  | none => exact hnone.symm
  | some inner =>
      obtain ⟨entries, rfl⟩ := Value.exists_of_isObject (h inner rfl)
      rw [fieldOr, hobject]
      congr 1
      funext key
      exact (Value.at?_singleton key _).symm

namespace AnalyzerOptions

/-- Options are read from an object whose records are objects as its key paths say. -/
theorem ofJson?_eq_ofSettings? {v : Value} (hobject : v.isObject = true)
    (h : SectionsAreObjects v) : ofJson? v = ofSettings? fun path => v.at? path := by
  obtain ⟨entries, rfl⟩ := Value.exists_of_isObject hobject
  have hread : ofJson? (.object entries) = (do
      let localisableString ← fieldOr {} LocalisableStringOptions.ofJson?
        ((Value.object entries).get? "localisableString")
      let attributeUsage ← fieldOr {} AttributeUsageOptions.ofJson?
        ((Value.object entries).get? "attributeUsage")
      let formatting ← fieldOr {} FormattingOptions.ofJson?
        ((Value.object entries).get? "formatting")
      let simplify ← fieldOr true Value.bool? ((Value.object entries).get? "simplify")
      pure { localisableString, attributeUsage, formatting, simplify }) := rfl
  have hlocalisable := fieldOr_eq_of_object LocalisableStringOptions.ofJson?
    LocalisableStringOptions.ofSettings? rfl (fun _ => rfl) (h "localisableString" (by decide))
  have husage := fieldOr_eq_of_object AttributeUsageOptions.ofJson?
    AttributeUsageOptions.ofSettings? rfl (fun _ => rfl) (h "attributeUsage" (by decide))
  have hformatting := fieldOr_eq_of_object FormattingOptions.ofJson?
    FormattingOptions.ofSettings? rfl (fun _ => rfl) (h "formatting" (by decide))
  rw [hread, hlocalisable, husage, hformatting, ofSettings?, Value.at?_singleton]
  rfl

end AnalyzerOptions

/-! ## Values on a trail -/

namespace Json.Value

theorem isObject_merge {base top : Value} (h : top.isObject = true) :
    (base.merge top).isObject = true := by
  obtain ⟨entries, rfl⟩ := exists_of_isObject h
  cases base <;> rfl

theorem isObject_overlay {values : List Value} (h : ∀ v ∈ values, v.isObject = true) :
    ∀ v ∈ overlay values, v.isObject = true := by
  intro v hv
  cases values with
  | nil => cases hv
  | cons top rest =>
      have htop : top.isObject = true := h top List.mem_cons_self
      rw [overlay] at hv
      cases hbase : overlay rest with
      | none =>
          rw [hbase] at hv
          exact Option.some.inj hv ▸ htop
      | some base =>
          rw [hbase] at hv
          exact Option.some.inj hv ▸ isObject_merge htop

theorem mem_of_mem_visible {path : List String} {values : List Value} {v : Value}
    (h : v ∈ visible path values) : v ∈ values := by
  induction values with
  | nil => exact h
  | cons top rest ih =>
      rw [visible] at h
      split at h
      · rw [List.mem_singleton.1 h]
        exact List.mem_cons_self
      · rcases List.mem_cons.1 h with rfl | h
        · exact List.mem_cons_self
        · exact List.mem_cons_of_mem _ (ih h)

/-- Where values settle a key path only by what they hold there, none hides what others hold. -/
theorem overlay_visible {path : List String} {values : List Value}
    (h : ∀ v ∈ values, v.settles path = true → ∃ w, v.at? path = some w ∧ w.isObject = false) :
    overlay ((visible path values).filterMap (at? path)) =
      overlay (values.filterMap (at? path)) := by
  induction values with
  | nil => rfl
  | cons top rest ih =>
      obtain ⟨htop, hrest⟩ := List.forall_mem_cons.1 h
      rw [visible]
      split
      · next hsettles =>
          obtain ⟨w, hw, hleaf⟩ := htop hsettles
          rw [List.filterMap_cons_some hw, List.filterMap_cons_some hw,
            overlay_eq_head (.inl hleaf), overlay_eq_head (.inl hleaf)]
      · cases hw : top.at? path with
        | none => rw [List.filterMap_cons_none hw, List.filterMap_cons_none hw, ih hrest]
        | some w =>
            rw [List.filterMap_cons_some hw, List.filterMap_cons_some hw, overlay, overlay,
              ih hrest]

/-- Whether the nearest two values that hold something under a key path hold objects there. -/
def nearestAreObjects (path : List String) (values : List Value) : Bool :=
  match values.filterMap (at? path) with
  | first :: next :: _ => first.isObject && next.isObject
  | _ => false

theorem overlay_eq_findSome? {path : List String} {values : List Value}
    (h : nearestAreObjects path values = false) :
    overlay (values.filterMap (at? path)) = values.findSome? (at? path) := by
  unfold nearestAreObjects at h
  rw [← List.head?_filterMap]
  split at h
  · next first next rest hset =>
      rw [hset]
      refine overlay_eq_head ?_
      rcases Bool.and_eq_false_iff.1 h with hfirst | hnext
      · exact .inl hfirst
      · exact .inr fun other hother => Option.some.inj hother ▸ hnext
  · next hfew =>
      rcases hset : values.filterMap (at? path) with _ | ⟨first, _ | ⟨next, rest⟩⟩
      · rfl
      · rfl
      · exact absurd hset (hfew first next rest)

end Json.Value

namespace AnalyzerOptions

/-- In an object whose records are objects, nothing settles the key path of an option but what is
there. -/
theorem exists_of_settles {v : Value} (hobject : v.isObject = true) (h : SectionsAreObjects v)
    {path : List String} (hpath : path ∈ settingPaths) (hsettles : v.settles path = true) :
    ∃ w, v.at? path = some w ∧ w.isObject = false := by
  have hleaf : ∀ (key : String) (v : Value), v.isObject = true → v.settles [key] = true →
      ∃ w, v.at? [key] = some w ∧ w.isObject = false := by
    intro key v hv hkey
    rw [Value.settles, hv, Bool.not_true, Bool.false_or, Option.any_eq_true] at hkey
    obtain ⟨w, hw, hsettled⟩ := hkey
    refine ⟨w, ?_, by simpa [Value.settles] using hsettled⟩
    rw [Value.at?_singleton, hw]
  rcases List.mem_cons.1 hpath with rfl | hpath
  · exact hleaf "simplify" v hobject hsettles
  · obtain ⟨⟨name, fields⟩, hsection, hfield⟩ := List.mem_flatMap.1 hpath
    obtain ⟨key, -, rfl⟩ := List.mem_map.1 hfield
    rw [Value.settles, hobject, Bool.not_true, Bool.false_or, Option.any_eq_true] at hsettles
    obtain ⟨inner, hinner, hsettled⟩ := hsettles
    have hsectionObject := h name (List.mem_map_of_mem hsection) inner hinner
    obtain ⟨w, hw, hw'⟩ := hleaf key inner hsectionObject hsettled
    refine ⟨w, ?_, hw'⟩
    rw [Value.at?, hinner]
    exact hw

/-- Values laid over each other have objects for records if each of them has. -/
theorem sectionsAreObjects_overlay {values : List Value} (hkeys : ∀ v ∈ values, v.KeyedOnce)
    (h : ∀ v ∈ values, SectionsAreObjects v) :
    ∀ v ∈ Value.overlay values, SectionsAreObjects v := by
  intro v hv name hname inner hinner
  have hat := Value.at?_overlay [name] hkeys
  rw [hv, Option.bind_some, Value.at?_singleton, hinner] at hat
  refine Value.isObject_overlay (fun w hw => ?_) inner hat.symm
  obtain ⟨u, hu, hw⟩ := List.mem_filterMap.1 hw
  rw [Value.at?_singleton] at hw
  exact h u (Value.mem_of_mem_visible hu) name hname w hw

/-- An option is what the nearest value that sets it holds. -/
theorem at?_eq_findSome? {values : List Value} {merged : Value}
    (hvalues : ∀ v ∈ values, v.isObject = true ∧ v.KeyedOnce)
    (hsections : ∀ v ∈ values, SectionsAreObjects v) (hmerged : Value.overlay values = some merged)
    {path : List String} (hpath : path ∈ settingPaths)
    (hnearest : Value.nearestAreObjects path values = false) :
    merged.at? path = values.findSome? (Value.at? path) := by
  have hat := Value.at?_overlay path fun v hv => (hvalues v hv).2
  rw [hmerged, Option.bind_some] at hat
  rw [hat, Value.overlay_visible, Value.overlay_eq_findSome? hnearest]
  exact fun v hv => exists_of_settles (hvalues v hv).1 (hsections v hv) hpath

end AnalyzerOptions

namespace Config

variable {fs : FileSystem}

/-- What a file sets is an object in which no key is repeated. -/
theorem keyedOnce_of_visit {path : String} {v : Value} {base : Option String}
    (h : visit fs path = .ok (v, base)) : v.isObject = true ∧ v.KeyedOnce := by
  obtain ⟨source, entries, -, hparse, rfl⟩ := exists_read_of_visit h
  refine ⟨rfl, ?_⟩
  have hdistinct : (Value.object entries).KeyedOnce := by
    unfold parseEntries at hparse
    split at hparse
    · cases hparse
    · next value _ =>
        split at hparse
        · next entries' hentries =>
            cases hparse
            rw [← hentries]
            exact Value.keyedOnce_distinct value
        · cases hparse
  refine ⟨hdistinct.1.sublist (List.filter_sublist.map _), ?_⟩
  rw [Value.keyedOnceAll_iff]
  exact fun entry hentry => Value.keyedOnceAll_iff.1 hdistinct.2 entry (List.mem_filter.1 hentry).1

theorem Follows.keyedOnce {path last : String} {files : List (String × Value)}
    (h : Follows fs path files last) :
    ∀ v ∈ files.map (·.2), v.isObject = true ∧ v.KeyedOnce := by
  induction h with
  | here => exact fun _ hv => absurd hv List.not_mem_nil
  | extend hvisit _ ih => exact List.forall_mem_cons.2 ⟨keyedOnce_of_visit hvisit, ih⟩

/-! ## Loading -/

theorem load_eq_cycle_iff {start name : String} :
    load fs start = .error (.cycle name) ↔ loadValue fs [] start = .error (.cycle name) := by
  unfold load
  cases loadValue fs [] start with
  | error e => constructor <;> intro h <;> cases h <;> rfl
  | ok merged =>
      refine ⟨fun h => ?_, fun h => by cases h⟩
      dsimp only at h
      split at h <;> cases h

/-- Loading goes along one trail of files with different canonical paths, no longer than there are
canonical paths, and ends as the trail ends. It fails by a cycle if and only if the trail comes to a
canonical path again. A trail that ends with a file that extends nothing comes to one value, which
holds under each key path what the files that show there hold. Where records are objects, each
option is read from the nearest file that sets it, unless that one and the next both set an
object. -/
theorem load_follows_extends (fs : FileSystem) (start : String) :
    (∃ files last, Follows fs start files last ∧ files.length ≤ fs.known.length ∧
      (entered fs files).Nodup ∧
      Ending fs (entered fs files) (files.map (·.2)) last (loadValue fs [] start)) ∧
    ((∃ name, load fs start = .error (.cycle name)) ↔
      ∃ files last, Follows fs start files last ∧ canonicalOr fs last ∈ entered fs files) ∧
    ∀ files last v, Follows fs start files last → visit fs last = .ok (v, none) →
      (entered fs files ++ [canonicalOr fs last]).Nodup →
      ∃ merged, loadValue fs [] start = .ok merged ∧
        (∀ path, merged.at? path = Value.overlay
          ((Value.visible path (files.map (·.2) ++ [v])).filterMap (Value.at? path))) ∧
        ((∀ w ∈ files.map (·.2) ++ [v], AnalyzerOptions.SectionsAreObjects w) →
          load fs start = (AnalyzerOptions.ofSettings? fun path => merged.at? path).elim
            (.error (.invalid start)) .ok ∧
          ∀ path ∈ AnalyzerOptions.settingPaths,
            Value.nearestAreObjects path (files.map (·.2) ++ [v]) = false →
            merged.at? path = (files.map (·.2) ++ [v]).findSome? (Value.at? path)) := by
  refine ⟨?_, ?_, ?_⟩
  · obtain ⟨files, last, hfollows, -, hnodup, hending⟩ := exists_ending fs [] start
    rw [List.nil_append] at hending
    exact ⟨files, last, hfollows, hfollows.length_le hnodup, hnodup, hending⟩
  · simp only [load_eq_cycle_iff]
    exact exists_cycle_iff fs start
  · intro files last v hfollows hvisit hnodup
    -- key paths can be told apart only because no file repeats a key
    obtain ⟨merged, hmerged, hload⟩ :=
      loadValue_of_follows hfollows hvisit (fun _ _ => List.not_mem_nil) hnodup
    have hvalues : ∀ w ∈ files.map (·.2) ++ [v], w.isObject = true ∧ w.KeyedOnce :=
      List.forall_mem_append.2
        ⟨hfollows.keyedOnce, List.forall_mem_singleton.2 (keyedOnce_of_visit hvisit)⟩
    have hkeys := fun w hw => (hvalues w hw).2
    refine ⟨merged, hload, fun path => ?_, fun hsections => ⟨?_, fun path hpath hnearest => ?_⟩⟩
    · rw [← Value.at?_overlay path hkeys, hmerged, Option.bind_some]
    · have hobject := Value.isObject_overlay (fun w hw => (hvalues w hw).1) merged hmerged
      have hrecords := AnalyzerOptions.sectionsAreObjects_overlay hkeys hsections merged hmerged
      rw [load, hload, ← AnalyzerOptions.ofJson?_eq_ofSettings? hobject hrecords]
      dsimp only
      cases AnalyzerOptions.ofJson? merged <;> rfl
    · exact AnalyzerOptions.at?_eq_findSome? hvalues hsections hmerged hpath hnearest

def ownText : String :=
  "\x7b\"extends\": \"../team\", \"formatting\": \x7b\"newLine\": \"//\",\x7d\x7d // own"

def teamText : String :=
  "\x7b\"localisableString\": \x7b\"severity\": \x7b\"info\": null\x7d\x7d, " ++
    "\"extends\": \"base\"\x7d"

def baseText : String :=
  "\x7b\"formatting\": \x7b\"insertSpaces\": false, \"newLine\": \"-\"\x7d\x7d"

/-- A file that extends one in the directory above, which extends another one there. -/
def threeFiles : FileSystem := .ofTree {
  top := "/work"
  files := [(["app", "sharpen.json"], ownText), (["team.json"], teamText),
    (["base.json"], baseText)] }

/-- The line break comes from the first file, the severity from the one behind it, spaces from the
last, and nobody sets the target. -/
theorem load_follows_extends_of_threeFiles :
    ∃ merged, loadValue threeFiles [] "/work/app/sharpen.json" = .ok merged ∧
      merged.at? ["formatting", "newLine"] = some (.string "//") ∧
      merged.at? ["localisableString", "severity"] = some (.object [("info", .null)]) ∧
      merged.at? ["formatting", "insertSpaces"] = some (.bool false) ∧
      merged.at? ["attributeUsage", "target"] = none := by
  have hown : parseEntries ownText = .ok [("extends", .string "../team"),
      ("formatting", .object [("newLine", .string "//")])] := by cbv
  have hteam : parseEntries teamText = .ok [("localisableString",
      .object [("severity", .object [("info", .null)])]), ("extends", .string "base")] := by cbv
  have hbase : parseEntries baseText = .ok [("formatting",
      .object [("insertSpaces", .bool false), ("newLine", .string "-")])] := by cbv
  have hup : basePath? "/work/app/sharpen.json" "../team" = some "/work/app/../team.json" := by
    decide +kernel
  have hbeside : basePath? "/work/app/../team.json" "base" = some "/work/app/../base.json" := by
    decide +kernel
  have hfollows : Follows threeFiles "/work/app/sharpen.json" _ "/work/app/../base.json" :=
    .extend (visit_of_extends (by decide +kernel) hown rfl hup) <|
      .extend (visit_of_extends (by decide +kernel) hteam rfl hbeside) .here
  obtain ⟨merged, hload, -, hread⟩ := (load_follows_extends threeFiles _).2.2 _ _ _ hfollows
    (visit_of_extends_none (by decide +kernel) hbase rfl) (by decide +kernel)
  obtain ⟨-, hsettings⟩ := hread (by decide)
  exact ⟨merged, hload, hsettings _ (by decide) rfl, hsettings _ (by decide) rfl,
    hsettings _ (by decide) rfl, hsettings _ (by decide) rfl⟩

def errorText : String :=
  "\x7b\"extends\": \"base\", " ++
    "\"localisableString\": \x7b\"severity\": \x7b\"error\": null\x7d\x7d\x7d"

def infoText : String :=
  "\x7b\"localisableString\": \x7b\"severity\": \x7b\"info\": null\x7d\x7d\x7d"

/-- Two files of which each sets the severity, and by an object. -/
def twoSeverities : FileSystem := .ofTree {
  top := "/work"
  files := [(["sharpen.json"], errorText), (["base.json"], infoText)] }

/-- The nearest file sets the severity, every option can be read from the nearest file that sets it,
and yet what the two files come to is refused. -/
theorem load_refused_of_twoSeverities :
    ∃ files last v, Follows twoSeverities "/work/sharpen.json" files last ∧
      visit twoSeverities last = .ok (v, none) ∧
      (entered twoSeverities files ++ [canonicalOr twoSeverities last]).Nodup ∧
      (∀ w ∈ files.map (·.2) ++ [v], AnalyzerOptions.SectionsAreObjects w) ∧
      (AnalyzerOptions.ofSettings? fun path =>
        (files.map (·.2) ++ [v]).findSome? (Value.at? path)) =
          some { localisableString := { severity := .error } } ∧
      load twoSeverities "/work/sharpen.json" = .error (.invalid "/work/sharpen.json") := by
  have hown : parseEntries errorText = .ok [("extends", .string "base"),
      ("localisableString", .object [("severity", .object [("error", .null)])])] := by cbv
  have hbase : parseEntries infoText =
      .ok [("localisableString", .object [("severity", .object [("info", .null)])])] := by cbv
  have hstep : basePath? "/work/sharpen.json" "base" = some "/work/base.json" := by decide +kernel
  have hfollows : Follows twoSeverities "/work/sharpen.json" _ "/work/base.json" :=
    .extend (visit_of_extends (by decide +kernel) hown rfl hstep) .here
  have hlast : visit twoSeverities "/work/base.json" = _ :=
    visit_of_extends_none (by decide +kernel) hbase rfl
  obtain ⟨merged, hmerged, hload⟩ :=
    loadValue_of_follows hfollows hlast (fun _ _ => List.not_mem_nil) (by decide +kernel)
  have hrefused : AnalyzerOptions.ofJson? merged = none := by
    rw [← Option.some.inj hmerged]
    rfl
  refine ⟨_, _, _, hfollows, hlast, by decide +kernel, by decide, rfl, ?_⟩
  rw [load, hload]
  dsimp only
  rw [hrefused]

end Config

end TreeLint
