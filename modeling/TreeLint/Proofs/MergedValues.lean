import Mathlib.Data.List.Nodup
import TreeLint.Json.Merge

/-!
# What is under a key path of merged values

Merging goes down two objects key by key, so what it puts under a key path can be said without it:
it is the two values under the path, one merged over the other, unless the value on top settles the
path by something that is no object, there or on the way. Values that are laid over each other
therefore count at a path down to the first that settles it, and those behind it do not show.

The equation needs objects whose keys differ, at every level: a repeated key would be merged twice.
A value with repeated keys dropped is of that form, and merging keeps it.
-/

namespace TreeLint.Json

/-! ## Entries -/

/-- One value over another, where there are values. -/
def Value.layered : (top base : Option Value) → Option Value
  | some top, some base => some (base.merge top)
  | some top, none => some top
  | none, base => base

def keys (entries : List (String × Value)) : List String := entries.map (·.1)

theorem lastValue?_cons (key : String) (entry : String × Value) (rest : List (String × Value)) :
    lastValue? key (entry :: rest) =
      (lastValue? key rest).or (if entry.1 = key then some entry.2 else none) := by
  unfold lastValue?
  rw [List.reverse_cons, List.find?_append, Option.map_or, List.find?_singleton]
  by_cases h : entry.1 = key
  · rw [if_pos (by simpa using h), if_pos h]
    rfl
  · rw [if_neg (by simpa using h), if_neg h]
    rfl

theorem lastValue?_eq_none {key : String} {entries : List (String × Value)}
    (h : key ∉ keys entries) : lastValue? key entries = none := by
  induction entries with
  | nil => rfl
  | cons entry rest ih =>
      rw [keys, List.map_cons, List.mem_cons, not_or] at h
      rw [lastValue?_cons, ih h.2, if_neg fun heq => h.1 heq.symm]
      rfl

theorem mem_of_lastValue {key : String} {v : Value} {entries : List (String × Value)}
    (h : lastValue? key entries = some v) : (key, v) ∈ entries := by
  obtain ⟨⟨k, w⟩, hfound, rfl⟩ := Option.map_eq_some_iff.1 h
  have hkey : k = key := by simpa using List.find?_some hfound
  rw [← hkey]
  exact List.mem_reverse.1 (List.mem_of_find?_eq_some hfound)

theorem mem_keys_putEntry {other key : String} {v : Value} {entries : List (String × Value)} :
    other ∈ keys (putEntry key v entries) ↔ other = key ∨ other ∈ keys entries := by
  induction entries with
  | nil => simp [putEntry, keys]
  | cons entry rest ih =>
      rw [putEntry]
      split
      · next h => simp [keys, h]
      · simp only [keys, List.map_cons, List.mem_cons] at ih ⊢
        rw [ih]
        exact or_left_comm

theorem nodup_keys_putEntry {entries : List (String × Value)} (h : (keys entries).Nodup)
    (key : String) (v : Value) : (keys (putEntry key v entries)).Nodup := by
  induction entries with
  | nil => exact List.nodup_singleton key
  | cons entry rest ih =>
      obtain ⟨hfirst, hrest⟩ := List.nodup_cons.1 h
      rw [putEntry]
      split
      · next hkey => exact List.nodup_cons.2 ⟨hkey ▸ hfirst, hrest⟩
      · next hkey =>
          refine List.nodup_cons.2 ⟨fun hmem => ?_, ih hrest⟩
          rcases mem_keys_putEntry.1 hmem with heq | hmem
          · exact hkey heq
          · exact hfirst hmem

theorem lastValue?_putEntry {entries : List (String × Value)} (h : (keys entries).Nodup)
    (key : String) (v : Value) (other : String) :
    lastValue? other (putEntry key v entries) =
      if key = other then some v else lastValue? other entries := by
  induction entries with
  | nil => rw [putEntry, lastValue?_cons]; rfl
  | cons entry rest ih =>
      rw [keys, List.map_cons, List.nodup_cons] at h
      rw [putEntry]
      by_cases hkey : entry.1 = key
      · subst hkey
        rw [if_pos rfl, lastValue?_cons, lastValue?_cons]
        by_cases hother : entry.1 = other
        · have hnone : lastValue? other rest = none := lastValue?_eq_none (hother ▸ h.1)
          rw [hnone, if_pos hother, if_pos hother]
          rfl
        · rw [if_neg hother, if_neg hother, if_neg hother]
      · rw [if_neg hkey, lastValue?_cons, lastValue?_cons, ih h.2]
        by_cases hother : key = other
        · subst hother
          rw [if_pos rfl, if_pos rfl]
          rfl
        · rw [if_neg hother, if_neg hother]

namespace Value

/-! ## Keys that differ -/

mutual

/-- The keys of an object differ, and those of the objects inside it. -/
def KeyedOnce : Value → Prop
  | .object entries => (keys entries).Nodup ∧ KeyedOnceAll entries
  | _ => True

def KeyedOnceAll : List (String × Value) → Prop
  | [] => True
  | (_, value) :: rest => value.KeyedOnce ∧ KeyedOnceAll rest

end

theorem keyedOnceAll_iff {entries : List (String × Value)} :
    KeyedOnceAll entries ↔ ∀ entry ∈ entries, entry.2.KeyedOnce := by
  induction entries with
  | nil => exact ⟨fun _ _ h => absurd h List.not_mem_nil, fun _ => trivial⟩
  | cons entry rest ih => rw [KeyedOnceAll, ih, List.forall_mem_cons]

theorem KeyedOnceAll.putEntry {key : String} {v : Value} {entries : List (String × Value)}
    (h : KeyedOnceAll entries) (hv : v.KeyedOnce) : KeyedOnceAll (putEntry key v entries) := by
  induction entries with
  | nil => exact ⟨hv, trivial⟩
  | cons entry rest ih =>
      rw [Json.putEntry]
      split
      · exact ⟨hv, h.2⟩
      · exact ⟨h.1, ih h.2⟩

theorem KeyedOnceAll.of_lastValue {key : String} {v : Value} {entries : List (String × Value)}
    (h : KeyedOnceAll entries) (hv : lastValue? key entries = some v) : v.KeyedOnce :=
  keyedOnceAll_iff.1 h _ (mem_of_lastValue hv)

mutual

/-- Dropping repeated keys leaves keys that differ. -/
theorem keyedOnce_distinct : (v : Value) → v.distinct.KeyedOnce
  | .null | .bool _ | .number _ | .string _ => trivial
  | .array _ => trivial
  | .object entries => by
      rw [distinct, KeyedOnce]
      exact keyedOnce_distinctEntries [] entries List.nodup_nil trivial

theorem keyedOnce_distinctEntries (done : List (String × Value)) :
    (entries : List (String × Value)) → (keys done).Nodup → KeyedOnceAll done →
      (keys (distinctEntries done entries)).Nodup ∧ KeyedOnceAll (distinctEntries done entries)
  | [], hkeys, hdone => ⟨hkeys, hdone⟩
  | (key, value) :: rest, hkeys, hdone => by
      rw [distinctEntries]
      exact keyedOnce_distinctEntries _ rest (nodup_keys_putEntry hkeys key value.distinct)
        (hdone.putEntry (keyedOnce_distinct value))

end

/-! ## Merging objects -/

theorem merge_object (base entries : List (String × Value)) :
    (Value.object base).merge (.object entries) = .object (mergeEntries base entries) := by
  rw [merge]

/-- Objects merge key by key. -/
theorem lastValue?_mergeEntries (key : String) {base top : List (String × Value)}
    (hbase : (keys base).Nodup) (htop : (keys top).Nodup) :
    lastValue? key (mergeEntries base top) =
      layered (lastValue? key top) (lastValue? key base) := by
  induction top generalizing base with
  | nil =>
      rw [mergeEntries]
      rfl
  | cons entry rest ih =>
      obtain ⟨k, v⟩ := entry
      rw [keys, List.map_cons, List.nodup_cons] at htop
      rw [mergeEntries, ih (nodup_keys_putEntry hbase _ _) htop.2, lastValue?_putEntry hbase,
        lastValue?_cons]
      by_cases hk : k = key
      · have hnone : lastValue? key rest = none := lastValue?_eq_none (hk ▸ htop.1)
        rw [hnone, if_pos hk, hk, if_pos rfl]
        cases lastValue? key base <;> rfl
      · rw [if_neg hk, if_neg hk, Option.or_none]

theorem nodup_keys_mergeEntries {base : List (String × Value)} (h : (keys base).Nodup)
    (top : List (String × Value)) : (keys (mergeEntries base top)).Nodup := by
  induction top generalizing base with
  | nil => rwa [mergeEntries]
  | cons entry rest ih =>
      rw [mergeEntries]
      exact ih (nodup_keys_putEntry h _ _)

mutual

/-- Merging keeps keys that differ. -/
theorem keyedOnce_merge : (top : Value) → {base : Value} → base.KeyedOnce → top.KeyedOnce →
    (base.merge top).KeyedOnce
  | .null, _, _, _ | .bool _, _, _, _ | .number _, _, _, _ | .string _, _, _, _ => trivial
  | .array _, _, _, _ => trivial
  | .object entries, base, hbase, htop => by
      cases base with
      | object baseEntries =>
          rw [merge_object]
          exact ⟨nodup_keys_mergeEntries hbase.1 entries,
            keyedOnceAll_mergeEntries entries hbase.2 htop.2⟩
      | null | bool _ | number _ | string _ | array _ => exact htop

theorem keyedOnceAll_mergeEntries : (top : List (String × Value)) →
    {base : List (String × Value)} → KeyedOnceAll base → KeyedOnceAll top →
    KeyedOnceAll (mergeEntries base top)
  | [], _, hbase, _ => by
      rw [mergeEntries]
      exact hbase
  | (key, value) :: rest, base, hbase, htop => by
      rw [mergeEntries]
      refine keyedOnceAll_mergeEntries rest (hbase.putEntry ?_) htop.2
      split
      · next below hbelow => exact keyedOnce_merge value (hbase.of_lastValue hbelow) htop.1
      · exact htop.1

end

/-! ## Key paths -/

def isObject : Value → Bool
  | .object _ => true
  | _ => false

/-- What a value holds under some keys, each in the object under the one before. -/
def at? : List String → Value → Option Value
  | [], v => some v
  | key :: rest, v => (v.get? key).bind (at? rest)

/-- Whether a value holds something that is no object under a key path or on the way there. -/
def settles : List String → Value → Bool
  | [], v => !v.isObject
  | key :: rest, v => !v.isObject || (v.get? key).any (settles rest)

theorem at?_singleton (key : String) (v : Value) : v.at? [key] = v.get? key := by
  show (v.get? key).bind some = v.get? key
  exact Option.bind_fun_some _

theorem layered_none (top : Option Value) : layered top none = top := by
  cases top <;> rfl

theorem merge_of_not_object {base top : Value} (h : base.isObject = false ∨ top.isObject = false) :
    base.merge top = top := by
  cases top with
  | object entries =>
      cases base with
      | object baseEntries => rcases h with h | h <;> cases h
      | null | bool _ | number _ | string _ | array _ => rfl
  | null | bool _ | number _ | string _ | array _ => rfl

theorem get?_of_not_object {v : Value} (h : v.isObject = false) (key : String) :
    v.get? key = none := by
  cases v with
  | object entries => cases h
  | null | bool _ | number _ | string _ | array _ => rfl

theorem exists_of_isObject {v : Value} (h : v.isObject = true) :
    ∃ entries, v = .object entries := by
  cases v with
  | object entries => exact ⟨entries, rfl⟩
  | null | bool _ | number _ | string _ | array _ => cases h

/-- What two merged values hold under a key path. -/
theorem at?_merge (path : List String) {base top : Value} (hbase : base.KeyedOnce)
    (htop : top.KeyedOnce) : (base.merge top).at? path =
      if top.settles path then top.at? path else layered (top.at? path) (base.at? path) := by
  induction path generalizing base top with
  | nil =>
      rw [at?, at?, at?, settles]
      split
      · next h => rw [merge_of_not_object (.inr (by simpa using h))]
      · rfl
  | cons key rest ih =>
      by_cases htopObject : top.isObject = true
      swap
      · rw [merge_of_not_object (.inr (by simpa using htopObject)), settles, if_pos]
        simp [htopObject]
      obtain ⟨entries, rfl⟩ := exists_of_isObject htopObject
      by_cases hbaseObject : base.isObject = true
      swap
      · have hnone : base.at? (key :: rest) = none := by
          rw [at?, get?_of_not_object (by simpa using hbaseObject)]
          rfl
        rw [merge_of_not_object (.inl (by simpa using hbaseObject)), hnone, layered_none, ite_self]
      obtain ⟨baseEntries, rfl⟩ := exists_of_isObject hbaseObject
      -- two objects: what is under the key is merged, and the rest of the path goes on from there
      rw [merge_object, at?, at?, at?, settles, get?, get?, get?,
        lastValue?_mergeEntries key hbase.1 htop.1, isObject, Bool.not_true, Bool.false_or]
      cases htopEntry : lastValue? key entries with
      | none => rfl
      | some inner =>
          cases hbaseEntry : lastValue? key baseEntries with
          | none =>
              show inner.at? rest = if inner.settles rest then _ else _
              rw [Option.bind_none, layered_none, ite_self]
              rfl
          | some below =>
              exact ih (hbase.2.of_lastValue hbaseEntry) (htop.2.of_lastValue htopEntry)

/-! ## Values laid over each other -/

/-- Values over each other, the first on top. -/
def overlay : List Value → Option Value
  | [] => none
  | top :: rest => layered (some top) (overlay rest)

/-- The values that show at a key path: those down to the first that settles it. -/
def visible (path : List String) : List Value → List Value
  | [] => []
  | v :: rest => if v.settles path then [v] else v :: visible path rest

theorem keyedOnce_overlay {values : List Value} (h : ∀ v ∈ values, v.KeyedOnce) :
    ∀ v ∈ overlay values, v.KeyedOnce := by
  induction values with
  | nil => exact fun _ hv => absurd hv (Option.not_mem_none _)
  | cons top rest ih =>
      obtain ⟨htop, hrest⟩ := List.forall_mem_cons.1 h
      intro v hv
      rw [overlay] at hv
      cases hbase : overlay rest with
      | none =>
          rw [hbase] at hv
          exact Option.some.inj hv ▸ htop
      | some base =>
          rw [hbase] at hv
          exact Option.some.inj hv ▸ keyedOnce_merge top (ih hrest base hbase) htop

/-- What values hold under a key path when they are laid over each other: what those that show
there hold, laid over each other. -/
theorem at?_overlay (path : List String) {values : List Value} (h : ∀ v ∈ values, v.KeyedOnce) :
    (overlay values).bind (at? path) = overlay ((visible path values).filterMap (at? path)) := by
  induction values with
  | nil => rfl
  | cons top rest ih =>
      obtain ⟨htop, hrest⟩ := List.forall_mem_cons.1 h
      have hbelow := ih hrest
      have hcons : (overlay (top :: rest)).bind (at? path) =
          if top.settles path then top.at? path
          else layered (top.at? path) ((overlay rest).bind (at? path)) := by
        rw [overlay]
        cases hbase : overlay rest with
        | none =>
            rw [Option.bind_none, layered_none, layered_none, ite_self]
            rfl
        | some base => exact at?_merge path (keyedOnce_overlay hrest base hbase) htop
      rw [hcons, visible]
      split
      · rw [List.filterMap_cons]
        cases top.at? path <;> rfl
      · rw [hbelow, List.filterMap_cons]
        cases top.at? path <;> rfl

/-- Values laid over each other come to the first of them, unless it and the next are objects. -/
theorem overlay_eq_head {first : Value} {rest : List Value}
    (h : first.isObject = false ∨ ∀ next ∈ rest.head?, next.isObject = false) :
    overlay (first :: rest) = some first := by
  rw [overlay]
  cases rest with
  | nil => rfl
  | cons next others =>
      rw [overlay]
      rcases h with h | h
      · cases overlay others <;> exact congrArg some (merge_of_not_object (.inr h))
      · have hnext : next.isObject = false := h next rfl
        cases overlay others with
        | none => exact congrArg some (merge_of_not_object (.inl hnext))
        | some base =>
            show some ((base.merge next).merge first) = some first
            rw [merge_of_not_object (.inr hnext), merge_of_not_object (.inl hnext)]

end Value

end TreeLint.Json
