/-!
# Maps that keep their order of insertion

An ordered map is a list of entries with distinct keys. Inserting under a key that is
present replaces the value where it stands; under a new key it appends. Erasing keeps
the order of the others. The distinctness of the keys is part of the type.
-/

namespace DeviceForge

/-- Entries in their order, with distinct keys. -/
structure OrderedMap (κ ν : Type) where
  entries : List (κ × ν)
  nodup_keys : (entries.map Prod.fst).Nodup
  deriving DecidableEq

namespace OrderedMap

variable {κ ν : Type}

def empty : OrderedMap κ ν :=
  ⟨[], List.nodup_nil⟩

instance : Inhabited (OrderedMap κ ν) :=
  ⟨empty⟩

def keys (m : OrderedMap κ ν) : List κ :=
  m.entries.map Prod.fst

def values (m : OrderedMap κ ν) : List ν :=
  m.entries.map Prod.snd

def size (m : OrderedMap κ ν) : Nat :=
  m.entries.length

def isEmpty (m : OrderedMap κ ν) : Bool :=
  m.entries.isEmpty

def mapValues {μ : Type} (f : ν → μ) (m : OrderedMap κ ν) : OrderedMap κ μ where
  entries := m.entries.map fun e => (e.1, f e.2)
  nodup_keys := by
    have h : ((m.entries.map fun e => (e.1, f e.2)).map Prod.fst) =
        m.entries.map Prod.fst := by
      simp [List.map_map, Function.comp_def]
    rw [h]
    exact m.nodup_keys

def filter (p : κ × ν → Bool) (m : OrderedMap κ ν) : OrderedMap κ ν where
  entries := m.entries.filter p
  nodup_keys := m.nodup_keys.sublist (List.filter_sublist.map Prod.fst)

@[simp]
theorem entries_empty : (empty : OrderedMap κ ν).entries = [] := rfl

variable [DecidableEq κ]

def find? (key : κ) : List (κ × ν) → Option ν
  | [] => none
  | e :: rest => if e.1 = key then some e.2 else find? key rest

def get? (m : OrderedMap κ ν) (key : κ) : Option ν :=
  find? key m.entries

def contains (m : OrderedMap κ ν) (key : κ) : Bool :=
  m.entries.any fun e => e.1 = key

def replaceAll (key : κ) (value : ν) (entries : List (κ × ν)) : List (κ × ν) :=
  entries.map fun e => if e.1 = key then (e.1, value) else e

theorem map_fst_replaceAll (key : κ) (value : ν) (entries : List (κ × ν)) :
    (replaceAll key value entries).map Prod.fst = entries.map Prod.fst := by
  induction entries with
  | nil => rfl
  | cons e rest ih =>
      have hhead : (if e.1 = key then (e.1, value) else e).1 = e.1 := by split <;> rfl
      simp only [replaceAll, List.map_cons, hhead] at ih ⊢
      rw [ih]

theorem contains_eq_false_iff {m : OrderedMap κ ν} {key : κ} :
    m.contains key = false ↔ key ∉ m.entries.map Prod.fst := by
  simp only [contains, List.any_eq_false, decide_eq_true_eq, List.mem_map, not_exists,
    not_and]

/-- Replaces the value under a present key where it stands, and appends a new key. -/
def insert (m : OrderedMap κ ν) (key : κ) (value : ν) : OrderedMap κ ν :=
  if h : m.contains key then
    ⟨replaceAll key value m.entries, by rw [map_fst_replaceAll]; exact m.nodup_keys⟩
  else
    ⟨m.entries ++ [(key, value)], by
      rw [List.map_append, List.nodup_append]
      refine ⟨m.nodup_keys, by simp, ?_⟩
      intro a ha b hb hab
      simp only [List.map_cons, List.map_nil, List.mem_singleton] at hb
      rw [hab, hb] at ha
      exact contains_eq_false_iff.mp (by simpa using h) ha⟩

/-- Leaves the others in their order. -/
def erase (m : OrderedMap κ ν) (key : κ) : OrderedMap κ ν :=
  m.filter fun e => e.1 ≠ key

def ofList (entries : List (κ × ν)) : OrderedMap κ ν :=
  entries.foldl (fun m e => m.insert e.1 e.2) empty

def insertAll (m other : OrderedMap κ ν) : OrderedMap κ ν :=
  other.entries.foldl (fun m e => m.insert e.1 e.2) m

/-- Whether two maps hold the same entries, in whatever order. -/
def sameEntries [DecidableEq ν] (m other : OrderedMap κ ν) : Bool :=
  m.size == other.size && m.entries.all fun e => other.get? e.1 == some e.2

theorem mem_keys_iff_contains {m : OrderedMap κ ν} {key : κ} :
    key ∈ m.keys ↔ m.contains key = true := by
  rw [← Bool.not_eq_false, contains_eq_false_iff]
  simp [keys]

theorem entries_insert_of_contains {m : OrderedMap κ ν} {key : κ} (value : ν)
    (h : m.contains key = true) :
    (m.insert key value).entries = replaceAll key value m.entries := by
  simp [insert, h]

theorem entries_insert_of_not_contains {m : OrderedMap κ ν} {key : κ} (value : ν)
    (h : m.contains key = false) :
    (m.insert key value).entries = m.entries ++ [(key, value)] := by
  simp [insert, h]

theorem entries_erase (m : OrderedMap κ ν) (key : κ) :
    (m.erase key).entries = m.entries.filter fun e => e.1 ≠ key := rfl

/-- The entries before the one with this key, its value, and the entries after it. -/
def splitAt? (key : κ) : List (κ × ν) → Option (List (κ × ν) × ν × List (κ × ν))
  | [] => none
  | e :: rest =>
    if e.1 = key then some ([], e.2, rest)
    else (splitAt? key rest).map fun (before, value, after) =>
      (e :: before, value, after)

/-- A split keeps all entries in their order. -/
theorem eq_of_splitAt? {key : κ} {entries before after : List (κ × ν)} {value : ν}
    (h : splitAt? key entries = some (before, value, after)) :
    entries = before ++ (key, value) :: after := by
  induction entries generalizing before with
  | nil => simp [splitAt?] at h
  | cons e rest ih =>
      by_cases he : e.1 = key
      · simp only [splitAt?, he, if_true, Option.some.injEq, Prod.mk.injEq] at h
        obtain ⟨rfl, rfl, rfl⟩ := h
        rw [← he]
        rfl
      · simp only [splitAt?, he, if_false, Option.map_eq_some_iff, Prod.mk.injEq,
          Prod.exists] at h
        obtain ⟨before', value', after', hrest, rfl, rfl, rfl⟩ := h
        rw [ih hrest]
        rfl

/-- Moves the value under `old` to `new`. The entry takes the place of `old`, or the
place of an entry that `new` already has, whichever comes first, and replaces that
entry. -/
def renameKey (m : OrderedMap κ ν) (old new : κ) : OrderedMap κ ν :=
  match h : splitAt? old m.entries with
  | none => m
  | some (before, value, after) =>
    if hnew : new ∈ before.map Prod.fst then
      ⟨replaceAll new value before ++ after, by
        have hall := m.nodup_keys
        rw [eq_of_splitAt? h] at hall
        rw [List.map_append, map_fst_replaceAll, ← List.map_append]
        exact hall.sublist
          ((List.Sublist.refl before).append (List.sublist_cons_self _ after) |>.map
            Prod.fst)⟩
    else
      ⟨before ++ (new, value) :: after.filter (fun e => e.1 ≠ new), by
        have hall := m.nodup_keys
        rw [eq_of_splitAt? h, List.map_append, List.map_cons, List.nodup_append] at hall
        obtain ⟨hbefore, hrest, hdisjoint⟩ := hall
        rw [List.nodup_cons] at hrest
        rw [List.map_append, List.map_cons, List.nodup_append, List.nodup_cons]
        refine ⟨hbefore, ⟨by simp, hrest.2.sublist (List.filter_sublist.map Prod.fst)⟩,
          ?_⟩
        intro a ha b hb hab
        rcases List.mem_cons.mp hb with rfl | hb
        · exact hnew (hab ▸ ha)
        · exact hdisjoint a ha b
            (List.mem_cons_of_mem _ ((List.filter_sublist.map Prod.fst).subset hb)) hab⟩

end OrderedMap

end DeviceForge
