import TreeLint.Command.Run
import TreeLint.Proofs.ExtendedFiles
import TreeLint.Proofs.StrippedTexts

/-!
# Options that are shown

The text that options are shown as is configuration, and of the same options. Reading it goes back
the way it was made: the text is JSON, so nothing of it is stripped, and it is read as the value
that was written, whatever characters the texts among the options hold. That value names every
option once, and each field is read as it was put there.
-/

namespace TreeLint

open Json (Value)

theorem Severity.ofName?_name (severity : Severity) :
    Severity.ofName? severity.name = some severity := by
  cases severity <;> rfl

theorem AttributeTarget.ofName?_name (target : AttributeTarget) :
    AttributeTarget.ofName? target.name = some target := by
  cases target <;> rfl

theorem LocalisableStringOptions.ofJson?_toJson (o : LocalisableStringOptions) :
    LocalisableStringOptions.ofJson? o.toJson = some o := by
  obtain ⟨enabled, viewType, severity⟩ := o
  show (do
    let severity ← Severity.ofName? severity.name
    pure ({ enabled, viewType, severity } : LocalisableStringOptions)) = _
  rw [Severity.ofName?_name]
  rfl

theorem AttributeUsageOptions.ofJson?_toJson (o : AttributeUsageOptions) :
    AttributeUsageOptions.ofJson? o.toJson = some o := by
  obtain ⟨target⟩ := o
  show (do
    let target ← AttributeTarget.ofName? target.name
    pure ({ target } : AttributeUsageOptions)) = _
  rw [AttributeTarget.ofName?_name]
  rfl

theorem FormattingOptions.ofJson?_toJson (o : FormattingOptions) (h : o.indentSize < Nat.pow 2 32) :
    FormattingOptions.ofJson? o.toJson = some o := by
  obtain ⟨indentSize, insertSpaces, newLine, attributeListsOnOwnLine⟩ := o
  have hsize : (Value.ofNat indentSize).natBelow32? = some indentSize :=
    if_pos ⟨Int.natCast_nonneg _, h⟩
  show (do
    let indentSize ← (Value.ofNat indentSize).natBelow32?
    pure ({ indentSize, insertSpaces, newLine, attributeListsOnOwnLine } : FormattingOptions)) = _
  rw [hsize]
  rfl

namespace AnalyzerOptions

/-- Options are read back from the value that they are written as. -/
theorem ofJson?_toJson (o : AnalyzerOptions) (h : o.formatting.indentSize < Nat.pow 2 32) :
    ofJson? o.toJson = some o := by
  obtain ⟨localisableString, attributeUsage, formatting, simplify⟩ := o
  show (do
    let localisableString ← LocalisableStringOptions.ofJson? localisableString.toJson
    let attributeUsage ← AttributeUsageOptions.ofJson? attributeUsage.toJson
    let formatting ← FormattingOptions.ofJson? formatting.toJson
    pure ({ localisableString, attributeUsage, formatting, simplify } : AnalyzerOptions)) = _
  rw [LocalisableStringOptions.ofJson?_toJson, AttributeUsageOptions.ofJson?_toJson,
    FormattingOptions.ofJson?_toJson formatting h]
  rfl

theorem exists_entries (o : AnalyzerOptions) :
    ∃ entries, o.toJson = .object entries ∧ Json.keys entries = keys := ⟨_, rfl, rfl⟩

/-- No option is named twice. -/
theorem distinct_toJson (o : AnalyzerOptions) : o.toJson.distinct = o.toJson := rfl

/-- The only number among options fits 64 bits. -/
theorem kept_toJson (o : AnalyzerOptions) (h : o.formatting.indentSize < Nat.pow 2 32) :
    o.toJson.Kept := by
  have hsize : (Json.Number.integer o.formatting.indentSize).Kept := by
    have hbits : Nat.pow 2 32 < Nat.pow 2 64 := by decide
    exact ⟨by omega, by omega⟩
  exact ⟨⟨trivial, trivial, trivial, trivial⟩, ⟨trivial, trivial⟩,
    ⟨hsize, trivial, trivial, trivial, trivial⟩, trivial, trivial⟩

theorem nesting_toJson (o : AnalyzerOptions) : o.toJson.nesting = 2 := rfl

end AnalyzerOptions

/-- The text that options are shown as is read as the value that they are written as. -/
theorem Command.parse_toList_showConfig (o : AnalyzerOptions)
    (h : o.formatting.indentSize < Nat.pow 2 32) :
    Json.parse (showConfig o).toList = .ok o.toJson := by
  rw [showConfig, Value.indented, String.toList_ofList]
  refine Json.parse_of_spells (Json.spells_writeIndented _ (o.kept_toJson h) 0) ?_
  rw [o.nesting_toJson]
  decide

/-- Options are read back from the text that they are shown as. -/
theorem Command.parse_showConfig (o : AnalyzerOptions)
    (h : o.formatting.indentSize < Nat.pow 2 32) : Config.parse (showConfig o) = .ok o := by
  have hparse := parse_toList_showConfig o h
  obtain ⟨entries, hentries, hkeys⟩ := o.exists_entries
  have hdistinct := o.distinct_toJson
  rw [hentries] at hdistinct hparse
  have hread : Config.parseEntries (showConfig o) = .ok entries := by
    rw [Config.parseEntries, Json.strip_of_parse hparse, hparse]
    simp only [hdistinct]
  have hkept : Json.dropEntry extendsKey entries = entries :=
    Config.dropEntry_of_lastValue_none (Json.lastValue?_eq_none (by rw [hkeys]; decide))
  rw [Config.parse, hread]
  simp only [hkept, ← hentries, o.ofJson?_toJson h]

/-- Options whose texts hold what would be a comment, a comma in front of a bracket, and the end of
the text that they are shown in. -/
def markedOptions : AnalyzerOptions := {
  localisableString := { viewType := "\"// \\", severity := .error }
  formatting := { indentSize := 4294967295, newLine := ",]/*\r\n" } }

theorem Command.parse_showConfig_of_markedOptions :
    Config.parse (showConfig markedOptions) = .ok markedOptions :=
  parse_showConfig markedOptions (by decide)

end TreeLint
