import Mathlib
import DeviceForge.OrderedMap

/-!
# Ordered maps as maps

What a lookup gives after an insertion or an erasure.  The entries of a map
decide its lookups and, with their order, the map itself.
-/

namespace DeviceForge.OrderedMap

variable {κ ν : Type} [DecidableEq κ]

omit [DecidableEq κ] in
theorem eq_of_entries_eq {m other : OrderedMap κ ν} (h : m.entries = other.entries) :
    m = other := by
  cases m
  cases other
  simpa using h

/-- Keys that are all different let a value be found by any of its entries. -/
theorem find?_eq_some_iff {entries : List (κ × ν)}
    (hentries : (entries.map Prod.fst).Nodup) {key : κ} {value : ν} :
    find? key entries = some value ↔ (key, value) ∈ entries := by
  induction entries with
  | nil => simp [find?]
  | cons e rest ih =>
      rw [List.map_cons, List.nodup_cons] at hentries
      by_cases he : e.1 = key
      · have hrest : (key, value) ∉ rest := fun hmem =>
          hentries.1 (he ▸ List.mem_map_of_mem (f := Prod.fst) hmem)
        simp only [find?, he, if_true, Option.some.injEq, List.mem_cons, hrest,
          or_false]
        rw [Prod.ext_iff, eq_comm]
        simp [he]
      · have hne : (key, value) ≠ e := by
          rintro rfl
          exact he rfl
        simp [find?, he, ih hentries.2, hne]

theorem get?_eq_some_iff {m : OrderedMap κ ν} {key : κ} {value : ν} :
    m.get? key = some value ↔ (key, value) ∈ m.entries :=
  find?_eq_some_iff m.nodup_keys

theorem get?_eq_none_iff {m : OrderedMap κ ν} {key : κ} :
    m.get? key = none ↔ key ∉ m.keys := by
  rw [Option.eq_none_iff_forall_ne_some]
  simp [get?_eq_some_iff, keys]

theorem contains_iff_mem_keys {m : OrderedMap κ ν} {key : κ} :
    m.contains key = true ↔ key ∈ m.keys :=
  mem_keys_iff_contains.symm

/-- A lookup is the library's search for the first entry with the key. -/
theorem get?_eq_find? (m : OrderedMap κ ν) (key : κ) :
    m.get? key = (m.entries.find? fun e => e.1 = key).map Prod.snd := by
  rw [get?]
  induction m.entries with
  | nil => rfl
  | cons e rest ih =>
      by_cases he : e.1 = key
      · simp [find?, he]
      · simp [find?, he, ih]

@[simp]
theorem get?_empty (key : κ) : (empty : OrderedMap κ ν).get? key = none := rfl

/-- Replacing leaves the entries of other keys and has one entry for a key that is
there. -/
theorem mem_replaceAll_iff {entries : List (κ × ν)} {key : κ}
    (hkey : key ∈ entries.map Prod.fst) {value : ν} {e : κ × ν} :
    e ∈ replaceAll key value entries ↔
      e = (key, value) ∨ (e ∈ entries ∧ e.1 ≠ key) := by
  simp only [replaceAll, List.mem_map]
  constructor
  · rintro ⟨old, hold, rfl⟩
    by_cases h : old.1 = key
    · simp [h]
    · simp [h, hold]
  · rintro (rfl | ⟨he, hne⟩)
    · obtain ⟨old, hold, hfst⟩ := List.mem_map.mp hkey
      exact ⟨old, hold, by simp [hfst]⟩
    · exact ⟨e, he, by simp [hne]⟩

/-- After an insertion the key has the new value only, and all other keys have their old
ones. -/
theorem mem_entries_insert_iff {m : OrderedMap κ ν} {key : κ} {value : ν}
    {e : κ × ν} :
    e ∈ (m.insert key value).entries ↔
      e = (key, value) ∨ (e ∈ m.entries ∧ e.1 ≠ key) := by
  by_cases h : m.contains key = true
  · rw [entries_insert_of_contains value h]
    exact mem_replaceAll_iff (contains_iff_mem_keys.mp h)
  · rw [Bool.not_eq_true] at h
    have hnew : ∀ e ∈ m.entries, e.1 ≠ key := fun e he hfst =>
      contains_eq_false_iff.mp h (hfst ▸ List.mem_map_of_mem (f := Prod.fst) he)
    rw [entries_insert_of_not_contains value h, List.mem_append,
      List.mem_singleton]
    constructor
    · rintro (he | rfl)
      · exact Or.inr ⟨he, hnew e he⟩
      · exact Or.inl rfl
    · rintro (rfl | ⟨he, -⟩)
      · exact Or.inr rfl
      · exact Or.inl he

/-- Only the inserted key is looked up differently. -/
theorem get?_insert (m : OrderedMap κ ν) (key other : κ) (value : ν) :
    (m.insert key value).get? other =
      if key = other then some value else m.get? other := by
  by_cases h : key = other
  · subst h
    rw [if_pos rfl, get?_eq_some_iff, mem_entries_insert_iff]
    exact Or.inl rfl
  · rw [if_neg h]
    ext found
    simp only [get?_eq_some_iff, mem_entries_insert_iff, Prod.mk.injEq,
      Ne.symm h, false_and, false_or, ne_eq, not_false_eq_true, and_true]

/-- Only the erased key is looked up differently. -/
theorem get?_erase (m : OrderedMap κ ν) (key other : κ) :
    (m.erase key).get? other = if key = other then none else m.get? other := by
  by_cases h : key = other
  · subst h
    rw [if_pos rfl, get?_eq_none_iff, keys, entries_erase]
    simp
  · rw [if_neg h]
    ext found
    simp [get?_eq_some_iff, entries_erase, Ne.symm h]

theorem keys_insert_of_get?_eq_none {m : OrderedMap κ ν} {key : κ} (value : ν)
    (h : m.get? key = none) : (m.insert key value).keys = m.keys ++ [key] := by
  rw [get?_eq_none_iff, keys, ← contains_eq_false_iff] at h
  simp [keys, entries_insert_of_not_contains value h]

theorem mem_keys_insert_iff {m : OrderedMap κ ν} {key other : κ} {value : ν} :
    other ∈ (m.insert key value).keys ↔ other = key ∨ other ∈ m.keys := by
  rw [← not_iff_not, ← get?_eq_none_iff, get?_insert, not_or, ← get?_eq_none_iff]
  by_cases h : key = other <;> simp [h, eq_comm]

omit [DecidableEq κ] in
theorem keys_mapValues {μ : Type} (f : ν → μ) (m : OrderedMap κ ν) :
    (m.mapValues f).keys = m.keys := by
  simp [keys, mapValues, Function.comp_def]

theorem get?_mapValues {μ : Type} (f : ν → μ) (m : OrderedMap κ ν) (key : κ) :
    (m.mapValues f).get? key = (m.get? key).map f := by
  ext value
  simp [get?_eq_some_iff, mapValues]

theorem get?_filter (p : κ × ν → Bool) (m : OrderedMap κ ν) (key : κ) :
    (m.filter p).get? key = (m.get? key).filter fun value => p (key, value) := by
  ext value
  simp [get?_eq_some_iff, Option.filter_eq_some_iff, filter]

theorem keys_filter (p : κ × ν → Bool) (m : OrderedMap κ ν) :
    (m.filter p).keys = m.keys.filter fun key => ((m.filter p).get? key).isSome := by
  rw [keys, keys, List.filter_map, filter]
  congr 1
  refine List.filter_congr fun e he => ?_
  rw [Function.comp_apply, ← filter, get?_filter, get?_eq_some_iff.mpr he,
    Option.filter_some]
  cases p e <;> rfl

theorem mem_keys_erase_iff {m : OrderedMap κ ν} {key other : κ} :
    other ∈ (m.erase key).keys ↔ other ∈ m.keys ∧ other ≠ key := by
  simp only [keys, entries_erase, List.mem_map, List.mem_filter, decide_eq_true_eq]
  constructor
  · rintro ⟨e, ⟨he, hne⟩, rfl⟩
    exact ⟨⟨e, he, rfl⟩, hne⟩
  · rintro ⟨⟨e, he, rfl⟩, hne⟩
    exact ⟨e, ⟨he, hne⟩, rfl⟩

theorem erase_of_notMem {m : OrderedMap κ ν} {key : κ} (h : key ∉ m.keys) :
    m.erase key = m := by
  apply eq_of_entries_eq
  rw [entries_erase, List.filter_eq_self]
  intro e he
  rw [decide_eq_true_eq]
  rintro rfl
  exact h (List.mem_map_of_mem he)

theorem contains_erase {m : OrderedMap κ ν} {key other : κ} (h : key ≠ other) :
    (m.erase other).contains key = m.contains key := by
  rw [Bool.eq_iff_iff, ← mem_keys_iff_contains, ← mem_keys_iff_contains,
    mem_keys_erase_iff, and_iff_left h]

/-- A test of keys alone does not see which values are replaced. -/
theorem filter_replaceAll (p : κ → Bool) (key : κ) (value : ν)
    (entries : List (κ × ν)) :
    (replaceAll key value entries).filter (fun e => p e.1) =
      replaceAll key value (entries.filter fun e => p e.1) := by
  rw [replaceAll, List.filter_map, replaceAll]
  congr 1
  apply List.filter_congr
  intro e _
  rw [Function.comp_apply]
  split <;> rfl

/-- Only what the map held under the key before is lost. -/
theorem erase_insert_self (m : OrderedMap κ ν) (key : κ) (value : ν) :
    (m.insert key value).erase key = m.erase key := by
  apply eq_of_entries_eq
  rw [entries_erase, entries_erase]
  by_cases h : m.contains key = true
  · have hvalue : replaceAll key value (m.entries.filter fun e => e.1 ≠ key) =
        m.entries.filter fun e => e.1 ≠ key := by
      rw [replaceAll, List.map_congr_left (g := id) ?_, List.map_id]
      intro e he
      exact if_neg (by simpa using (List.mem_filter.mp he).2)
    rw [entries_insert_of_contains value h]
    exact (filter_replaceAll (· ≠ key) key value m.entries).trans hvalue
  · rw [Bool.not_eq_true] at h
    simp [entries_insert_of_not_contains value h]

/-- An insertion and a removal of different keys can change places. -/
theorem erase_insert_of_ne (m : OrderedMap κ ν) {key other : κ} (h : key ≠ other)
    (value : ν) :
    (m.insert key value).erase other = (m.erase other).insert key value := by
  apply eq_of_entries_eq
  have hcontains := contains_erase (m := m) h
  by_cases hkey : m.contains key = true
  · rw [hkey] at hcontains
    rw [entries_erase, entries_insert_of_contains value hkey,
      entries_insert_of_contains value hcontains, entries_erase]
    exact filter_replaceAll (· ≠ other) key value m.entries
  · rw [Bool.not_eq_true] at hkey
    rw [hkey] at hcontains
    rw [entries_erase, entries_insert_of_not_contains value hkey,
      entries_insert_of_not_contains value hcontains, entries_erase]
    simp [h]

theorem splitAt?_eq_none_iff {entries : List (κ × ν)} {key : κ} :
    splitAt? key entries = none ↔ key ∉ entries.map Prod.fst := by
  induction entries with
  | nil => simp [splitAt?]
  | cons e rest ih =>
      by_cases he : e.1 = key
      · simp [splitAt?, he]
      · simp only [splitAt?, he, if_false, Option.map_eq_none_iff, ih, List.map_cons,
          List.mem_cons, Ne.symm he, false_or]

/-- The old key is gone, and no key but the new one has come. -/
theorem eq_or_mem_keys_of_renameKey {m : OrderedMap κ ν} {old new other : κ}
    (h : other ∈ (m.renameKey old new).keys) :
    other = new ∨ (other ∈ m.keys ∧ other ≠ old) := by
  rw [keys, renameKey] at h
  split at h
  · next hold =>
      have hne : other ≠ old := by
        rintro rfl
        exact splitAt?_eq_none_iff.mp hold h
      exact Or.inr ⟨h, hne⟩
  · next before value after hsplit =>
      have hentries := eq_of_splitAt? hsplit
      have hnodup := m.nodup_keys
      rw [hentries, List.map_append, List.map_cons, List.nodup_middle, List.nodup_cons]
        at hnodup
      have hother : other ∈ before.map Prod.fst ++ after.map Prod.fst →
          other ∈ m.keys ∧ other ≠ old := by
        intro hmem
        rw [keys, hentries, List.map_append, List.map_cons]
        constructor
        · exact List.mem_append.mpr
            ((List.mem_append.mp hmem).imp_right (List.mem_cons_of_mem _))
        · rintro rfl
          exact hnodup.1 hmem
      split at h
      · rw [List.map_append, map_fst_replaceAll] at h
        exact Or.inr (hother h)
      · rw [List.map_append, List.map_cons, List.mem_append, List.mem_cons] at h
        rcases h with h | rfl | h
        · exact Or.inr (hother (List.mem_append_left _ h))
        · exact Or.inl rfl
        · exact Or.inr (hother (List.mem_append_right _
            ((List.filter_sublist.map Prod.fst).subset h)))

/-- A key that is new takes the place of the old one. -/
theorem entries_renameKey {m : OrderedMap κ ν} {old new : κ} (hnew : new ∉ m.keys) :
    (m.renameKey old new).entries =
      m.entries.map fun e => (if e.1 = old then new else e.1, e.2) := by
  have hother : ∀ {entries : List (κ × ν)}, old ∉ entries.map Prod.fst →
      (entries.map fun e => (if e.1 = old then new else e.1, e.2)) = entries := by
    intro entries hold
    rw [List.map_congr_left (g := id) ?_, List.map_id]
    intro e he
    have hkey : e.1 ≠ old := fun heq => hold (heq ▸ List.mem_map_of_mem he)
    rw [if_neg hkey]
    rfl
  rw [renameKey]
  split
  · next hold => rw [hother (splitAt?_eq_none_iff.mp hold)]
  · next before value after hsplit =>
      have hentries := eq_of_splitAt? hsplit
      have hnodup := m.nodup_keys
      rw [keys, hentries, List.map_append, List.map_cons, List.mem_append,
        List.mem_cons, not_or, not_or] at hnew
      rw [hentries, List.map_append, List.map_cons, List.nodup_middle, List.nodup_cons,
        List.mem_append, not_or] at hnodup
      have hafter : after.filter (fun e => e.1 ≠ new) = after := by
        rw [List.filter_eq_self]
        intro e he
        rw [decide_eq_true_eq]
        exact fun heq => hnew.2.2 (heq ▸ List.mem_map_of_mem he)
      rw [dif_neg hnew.1]
      show before ++ (new, value) :: after.filter (fun e => e.1 ≠ new) = _
      rw [hafter, hentries, List.map_append, List.map_cons, hother hnodup.1.1,
        hother hnodup.1.2, if_pos rfl]

/-- A key that takes the place of another gives it back. -/
theorem renameKey_renameKey {m : OrderedMap κ ν} {old new : κ} (hne : old ≠ new)
    (hnew : new ∉ m.keys) : (m.renameKey old new).renameKey new old = m := by
  have hold : old ∉ (m.renameKey old new).keys := fun hmem =>
    (eq_or_mem_keys_of_renameKey hmem).elim hne fun h => h.2 rfl
  apply eq_of_entries_eq
  rw [entries_renameKey hold, entries_renameKey hnew, List.map_map,
    List.map_congr_left (g := id) ?_, List.map_id]
  intro e he
  have hkey : e.1 ≠ new := fun heq => hnew (heq ▸ List.mem_map_of_mem he)
  by_cases hold : e.1 = old
  · simp [← hold]
  · simp [hold, hkey]

/-- Later entries replace what the map holds under their keys. -/
theorem get?_foldl_insert {entries : List (κ × ν)}
    (hentries : (entries.map Prod.fst).Nodup) (m : OrderedMap κ ν) (key : κ) :
    (entries.foldl (fun m e => m.insert e.1 e.2) m).get? key =
      (find? key entries).or (m.get? key) := by
  induction entries generalizing m with
  | nil => rfl
  | cons e rest ih =>
      rw [List.map_cons, List.nodup_cons] at hentries
      rw [List.foldl_cons, ih hentries.2, get?_insert, find?]
      by_cases he : e.1 = key
      · have hrest : find? key rest = none := by
          rw [Option.eq_none_iff_forall_ne_some]
          intro value hvalue
          rw [find?_eq_some_iff hentries.2] at hvalue
          exact hentries.1 (he ▸ List.mem_map_of_mem (f := Prod.fst) hvalue)
        rw [if_pos he, if_pos he, hrest]
        rfl
      · rw [if_neg he, if_neg he]

theorem get?_insertAll (m other : OrderedMap κ ν) (key : κ) :
    (m.insertAll other).get? key = (other.get? key).or (m.get? key) :=
  get?_foldl_insert other.nodup_keys m key

/-! ## Keys at their first occurrence -/

theorem nodup_eraseDups (keys : List κ) : keys.eraseDups.Nodup := by
  induction hlength : keys.length using Nat.strong_induction_on generalizing keys with
  | _ length ih =>
      cases keys with
      | nil => simp
      | cons key rest =>
          rw [List.eraseDups_cons, List.nodup_cons]
          refine ⟨by simp, ih _ ?_ _ rfl⟩
          rw [← hlength, List.length_cons]
          exact Nat.lt_succ_of_le (List.length_filter_le _ _)

/-- Nothing is erased from a list without repetitions. -/
theorem eraseDups_of_nodup {keys : List κ} (h : keys.Nodup) :
    keys.eraseDups = keys := by
  induction keys with
  | nil => rfl
  | cons key rest ih =>
      rw [List.nodup_cons] at h
      have hrest : rest.filter (fun other => !other == key) = rest :=
        List.filter_eq_self.mpr fun other hother => by
          have hne : other ≠ key := fun heq => h.1 (heq ▸ hother)
          simpa using hne
      rw [List.eraseDups_cons, hrest, ih h.2]

theorem eraseDups_eraseDups_append (front back : List κ) :
    (front.eraseDups ++ back).eraseDups = (front ++ back).eraseDups := by
  rw [List.eraseDups_append, List.eraseDups_append,
    eraseDups_of_nodup (nodup_eraseDups front)]
  simp [List.removeAll]

omit [DecidableEq κ] in
theorem keys_nodup (m : OrderedMap κ ν) : m.keys.Nodup :=
  m.nodup_keys

/-- A new key comes last, and a known one stays where it is. -/
theorem keys_insert (m : OrderedMap κ ν) (key : κ) (value : ν) :
    (m.insert key value).keys = (m.keys ++ [key]).eraseDups := by
  by_cases h : key ∈ m.keys
  · have hcontains : m.contains key = true := contains_iff_mem_keys.mpr h
    rw [List.eraseDups_append, eraseDups_of_nodup m.keys_nodup, keys,
      entries_insert_of_contains value hcontains, map_fst_replaceAll]
    simp [List.removeAll, h, ← keys.eq_def]
  · rw [keys_insert_of_get?_eq_none value (get?_eq_none_iff.mpr h), eraseDups_of_nodup]
    rw [List.nodup_append_comm, List.singleton_append, List.nodup_cons]
    exact ⟨h, m.nodup_keys⟩

/-- Keys stand in the order in which they were inserted first. -/
theorem keys_foldl_insert {β : Type} (key : β → κ) (value : OrderedMap κ ν → β → ν)
    (items : List β) (m : OrderedMap κ ν) :
    (items.foldl (fun m b => m.insert (key b) (value m b)) m).keys =
      (m.keys ++ items.map key).eraseDups := by
  induction items generalizing m with
  | nil =>
    rw [List.foldl_nil, List.map_nil, List.append_nil, eraseDups_of_nodup m.keys_nodup]
  | cons b rest ih =>
      rw [List.foldl_cons, ih, keys_insert, eraseDups_eraseDups_append,
        List.append_assoc, List.map_cons, List.singleton_append]

theorem keys_insertAll (m other : OrderedMap κ ν) :
    (m.insertAll other).keys = (m.keys ++ other.keys).eraseDups :=
  keys_foldl_insert _ _ other.entries m

/-- New keys are appended in their order. -/
theorem entries_foldl_insert {entries : List (κ × ν)}
    (hentries : (entries.map Prod.fst).Nodup) (m : OrderedMap κ ν)
    (hnew : ∀ e ∈ entries, e.1 ∉ m.keys) :
    (entries.foldl (fun m e => m.insert e.1 e.2) m).entries =
      m.entries ++ entries := by
  induction entries generalizing m with
  | nil => simp
  | cons e rest ih =>
      rw [List.map_cons, List.nodup_cons] at hentries
      have hcontains : m.contains e.1 = false :=
        contains_eq_false_iff.mpr (hnew e List.mem_cons_self)
      rw [List.foldl_cons, ih hentries.2 (m.insert e.1 e.2),
        entries_insert_of_not_contains _ hcontains, List.append_assoc]
      · rfl
      · intro later hlater hmem
        rcases mem_keys_insert_iff.mp hmem with heq | hmem
        · exact hentries.1 (heq ▸ List.mem_map_of_mem (f := Prod.fst) hlater)
        · exact hnew later (List.mem_cons_of_mem _ hlater) hmem

theorem entries_ofList {entries : List (κ × ν)}
    (hentries : (entries.map Prod.fst).Nodup) :
    (ofList entries).entries = entries := by
  rw [ofList, entries_foldl_insert hentries empty (by simp [keys])]
  simp

/-- A map is what it holds under its keys, in their order. -/
theorem entries_eq_filterMap_keys (m : OrderedMap κ ν) :
    m.entries = m.keys.filterMap fun key => (m.get? key).map (key, ·) := by
  have hvalue : ∀ e ∈ m.entries, ((m.get? e.1).map (e.1, ·)) = some e := by
    intro e he
    rw [get?_eq_some_iff.mpr he, Option.map_some]
  rw [keys, List.filterMap_map]
  exact ((List.filterMap_congr hvalue).trans List.filterMap_some).symm

theorem eq_of_keys_of_get? {m other : OrderedMap κ ν} (hkeys : m.keys = other.keys)
    (h : ∀ key, m.get? key = other.get? key) : m = other := by
  apply eq_of_entries_eq
  rw [entries_eq_filterMap_keys, entries_eq_filterMap_keys, hkeys]
  simp only [h]

/-- What comes from the entry of one key only is counted there. -/
theorem count_flatMap_entries {β : Type} [DecidableEq β] (m : OrderedMap κ ν) (key : κ)
    {f : κ × ν → List β} {b : β} (hf : ∀ e ∈ m.entries, e.1 ≠ key → b ∉ f e) :
    (m.entries.flatMap f).count b =
      ((m.get? key).map fun value => (f (key, value)).count b).getD 0 := by
  have hothers : ∀ {entries : List (κ × ν)}, entries ⊆ m.entries →
      key ∉ entries.map Prod.fst →
      (entries.flatMap f).count b = 0 := by
    intro entries hsub hkey
    rw [List.count_eq_zero, List.mem_flatMap]
    rintro ⟨e, he, hmem⟩
    exact hf e (hsub he) (fun heq => hkey (heq ▸ List.mem_map_of_mem he)) hmem
  cases hget : m.get? key with
  | none => exact hothers (List.Subset.refl _) (get?_eq_none_iff.mp hget)
  | some value =>
      obtain ⟨before, after, hentries⟩ := List.append_of_mem (get?_eq_some_iff.mp hget)
      have hnodup := m.nodup_keys
      rw [hentries, List.map_append, List.map_cons, List.nodup_middle, List.nodup_cons,
        List.mem_append, not_or] at hnodup
      have hbefore := hothers (by simp [hentries]) hnodup.1.1
      have hafter := hothers (by simp [hentries]) hnodup.1.2
      rw [hentries, List.flatMap_append, List.flatMap_cons, List.count_append,
        List.count_append, hbefore, hafter]
      simp

end DeviceForge.OrderedMap
