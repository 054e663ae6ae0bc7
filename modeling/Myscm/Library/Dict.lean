import Mathlib.Data.List.Nodup
import Mathlib.Data.List.Basic

/-!
Owns dictionaries that keep the order in which their keys first came.

Owns: looking up, setting and deleting a key; the dictionary of a list of pairs,
where the last pair of a key counts.

Does not own: hashing.
-/

namespace Myscm.Library

/-- A dictionary, with its items in the order in which the keys first came. -/
@[ext]
structure Dict (κ α : Type) where
  items : List (κ × α)
  nodup : (items.map Prod.fst).Nodup
  deriving DecidableEq

namespace Dict

variable {κ α : Type}

/-- `{}`. -/
def empty : Dict κ α := ⟨[], List.nodup_nil⟩

/-- `keys()`. -/
def keys (dict : Dict κ α) : List κ := dict.items.map Prod.fst

/-- `values()`. -/
def values (dict : Dict κ α) : List α := dict.items.map Prod.snd

@[simp]
theorem keys_empty : (empty : Dict κ α).keys = [] := rfl

variable [DecidableEq κ]

/-- `dict.get(key)`. -/
def get? (dict : Dict κ α) (key : κ) : Option α :=
  (dict.items.find? fun item => item.1 = key).map Prod.snd

private def setItem (key : κ) (value : α) : List (κ × α) → List (κ × α)
  | [] => [(key, value)]
  | item :: rest => if item.1 = key then (key, value) :: rest else item :: setItem key value rest

private theorem mem_keys_setItem {key other : κ} {value : α} {items : List (κ × α)} :
    other ∈ (setItem key value items).map Prod.fst ↔ other = key ∨ other ∈ items.map Prod.fst := by
  induction items with
  | nil => simp [setItem]
  | cons item rest inductionHypothesis =>
      rw [setItem]
      split
      · rename_i same
        simp [← same]
      · rw [List.map_cons, List.mem_cons, inductionHypothesis, List.map_cons, List.mem_cons]
        tauto

private theorem nodup_setItem {key : κ} {value : α} {items : List (κ × α)}
    (nodup : (items.map Prod.fst).Nodup) : ((setItem key value items).map Prod.fst).Nodup := by
  induction items with
  | nil => simp [setItem]
  | cons item rest inductionHypothesis =>
      rw [List.map_cons, List.nodup_cons] at nodup
      rw [setItem]
      split
      · rename_i same
        rw [List.map_cons, List.nodup_cons, ← same]
        exact nodup
      · rename_i differs
        rw [List.map_cons, List.nodup_cons, mem_keys_setItem]
        refine ⟨?_, inductionHypothesis nodup.2⟩
        rintro (same | later)
        · exact differs same
        · exact nodup.1 later

/-- `dict[key] = value`. A key that is there keeps its place. -/
def set (dict : Dict κ α) (key : κ) (value : α) : Dict κ α :=
  ⟨setItem key value dict.items, nodup_setItem dict.nodup⟩

/-- `del dict[key]`. -/
def erase (dict : Dict κ α) (key : κ) : Dict κ α :=
  ⟨dict.items.filter fun item => item.1 ≠ key,
    dict.nodup.sublist (List.filter_sublist.map Prod.fst)⟩

/-- `{k: v for k, v in dict.items() if keep(v)}`. -/
def filter (keep : α → Bool) (dict : Dict κ α) : Dict κ α :=
  ⟨dict.items.filter fun item => keep item.2,
    dict.nodup.sublist (List.filter_sublist.map Prod.fst)⟩

/-- The dictionary with the values changed. -/
def map {γ : Type} (f : α → γ) (dict : Dict κ α) : Dict κ γ :=
  ⟨dict.items.map fun item => (item.1, f item.2), by
    rw [List.map_map]
    exact dict.nodup⟩

/-- The dictionary that the pairs are set in one after the other. -/
def ofPairs (pairs : List (κ × α)) : Dict κ α :=
  pairs.foldl (fun dict pair => dict.set pair.1 pair.2) empty

@[simp]
theorem get?_empty (key : κ) : (empty : Dict κ α).get? key = none := rfl

theorem get?_set (dict : Dict κ α) (key other : κ) (value : α) :
    (dict.set key value).get? other = if other = key then some value else dict.get? other := by
  obtain ⟨items, nodup⟩ := dict
  unfold set get?
  dsimp only
  clear nodup
  induction items with
  | nil =>
      by_cases same : other = key
      · simp [setItem, same]
      · simp [setItem, same, Ne.symm same]
  | cons item rest inductionHypothesis =>
      rw [setItem]
      by_cases here : item.1 = key
      · rw [if_pos here]
        by_cases same : other = key
        · simp [same]
        · have differs : item.1 ≠ other := fun isOther => same (isOther ▸ here)
          simp [same, Ne.symm same, differs]
      · rw [if_neg here]
        by_cases isOther : item.1 = other
        · have differs : other ≠ key := fun isKey => here (isOther.trans isKey)
          simp [isOther, differs]
        · simpa [isOther] using inductionHypothesis

private theorem keys_setItem (key : κ) (value : α) (items : List (κ × α)) :
    (setItem key value items).map Prod.fst =
      if key ∈ items.map Prod.fst then items.map Prod.fst else items.map Prod.fst ++ [key] := by
  induction items with
  | nil => simp [setItem]
  | cons item rest inductionHypothesis =>
      rw [setItem]
      by_cases here : item.1 = key
      · simp [here]
      · rw [if_neg here, List.map_cons, inductionHypothesis, List.map_cons]
        by_cases later : key ∈ rest.map Prod.fst
        · rw [if_pos later, if_pos (List.mem_cons_of_mem _ later)]
        · rw [if_neg later, if_neg (by simp [Ne.symm here, later]), List.cons_append]

/-- A new key comes last. -/
theorem keys_set (dict : Dict κ α) (key : κ) (value : α) :
    (dict.set key value).keys = if key ∈ dict.keys then dict.keys else dict.keys ++ [key] :=
  keys_setItem key value dict.items

theorem get?_erase (dict : Dict κ α) (key other : κ) :
    (dict.erase key).get? other = if other = key then none else dict.get? other := by
  unfold erase get?
  dsimp only
  induction dict.items with
  | nil => simp
  | cons item rest inductionHypothesis =>
      by_cases here : item.1 = key
      · rw [List.filter_cons_of_neg (by simp [here]), inductionHypothesis]
        by_cases same : other = key
        · simp [same]
        · have differs : item.1 ≠ other := fun isOther => same (isOther ▸ here)
          simp [same, differs]
      · rw [List.filter_cons_of_pos (by simp [here])]
        by_cases isOther : item.1 = other
        · have differs : other ≠ key := fun isKey => here (isOther.trans isKey)
          simp [isOther, differs]
        · simpa [isOther] using inductionHypothesis

theorem mem_keys_iff {dict : Dict κ α} {key : κ} : key ∈ dict.keys ↔ (dict.get? key).isSome := by
  rw [keys, get?, Option.isSome_map, List.find?_isSome, List.mem_map]
  simp

theorem get?_eq_some_iff {dict : Dict κ α} {key : κ} {value : α} :
    dict.get? key = some value ↔ (key, value) ∈ dict.items := by
  constructor
  · intro found
    obtain ⟨item, isItem, isValue⟩ := Option.map_eq_some_iff.mp found
    have isKey : item.1 = key := by simpa using List.find?_some isItem
    have pair : item = (key, value) := Prod.ext isKey isValue
    rw [← pair]
    exact List.mem_of_find?_eq_some isItem
  · intro member
    have isKey : key ∈ dict.keys := List.mem_map.mpr ⟨_, member, rfl⟩
    obtain ⟨item, isItem⟩ := Option.isSome_iff_exists.mp
      ((Option.isSome_map ..).symm.trans (mem_keys_iff.mp isKey))
    have sameKey : item.1 = (key, value).1 := by simpa using List.find?_some isItem
    have pair : item = (key, value) :=
      List.inj_on_of_nodup_map dict.nodup (List.mem_of_find?_eq_some isItem) member sameKey
    rw [get?, isItem, pair]
    rfl

theorem get?_filter_eq_some {keep : α → Bool} {dict : Dict κ α} {key : κ} {value : α} :
    (dict.filter keep).get? key = some value ↔ dict.get? key = some value ∧ keep value = true := by
  rw [get?_eq_some_iff, get?_eq_some_iff, filter, List.mem_filter]

omit [DecidableEq κ] in
theorem length_keys_filter (keep : α → Bool) (dict : Dict κ α) :
    (dict.filter keep).keys.length = dict.values.countP keep := by
  rw [keys, values, filter, List.length_map, List.countP_map, List.countP_eq_length_filter]
  rfl

theorem length_keys_erase_lt {dict : Dict κ α} {key : κ} (member : key ∈ dict.keys) :
    (dict.erase key).keys.length < dict.keys.length := by
  obtain ⟨item, isItem, isKey⟩ := List.mem_map.mp member
  rw [keys, keys, List.length_map, List.length_map, erase]
  exact List.length_filter_lt_length_iff_exists.mpr ⟨item, isItem, by simp [isKey]⟩

private theorem map_setItem {γ : Type} (f : α → γ) (key : κ) (value : α) (items : List (κ × α)) :
    (setItem key value items).map (fun item => (item.1, f item.2)) =
      setItem key (f value) (items.map fun item => (item.1, f item.2)) := by
  induction items with
  | nil => rfl
  | cons item rest inductionHypothesis =>
      rw [setItem, List.map_cons, setItem]
      by_cases here : item.1 = key
      · rw [if_pos here, if_pos here, List.map_cons]
      · rw [if_neg here, if_neg here, List.map_cons, inductionHypothesis]

theorem map_set {γ : Type} (f : α → γ) (dict : Dict κ α) (key : κ) (value : α) :
    (dict.set key value).map f = (dict.map f).set key (f value) :=
  Dict.ext (map_setItem f key value dict.items)

/-- Setting the value of each name anew. -/
theorem get?_foldl_set_of (value : κ → α) (names : List κ) (dict : Dict κ α) (key : κ) :
    (names.foldl (fun dict name => dict.set name (value name)) dict).get? key =
      if key ∈ names then some (value key) else dict.get? key := by
  induction names generalizing dict with
  | nil => simp
  | cons name rest inductionHypothesis =>
      rw [List.foldl_cons, inductionHypothesis, get?_set]
      by_cases later : key ∈ rest
      · rw [if_pos later, if_pos (List.mem_cons_of_mem _ later)]
      · by_cases here : key = name
        · simp [here]
        · simp [here, later]

private theorem get?_foldl_set (pairs : List (κ × α)) (dict : Dict κ α) (key : κ) :
    (pairs.foldl (fun dict pair => dict.set pair.1 pair.2) dict).get? key =
      ((pairs.reverse.find? fun pair => pair.1 = key).map Prod.snd).or (dict.get? key) := by
  induction pairs generalizing dict with
  | nil => simp
  | cons pair rest inductionHypothesis =>
      rw [List.foldl_cons, inductionHypothesis, get?_set, List.reverse_cons, List.find?_append]
      by_cases same : key = pair.1
      · cases rest.reverse.find? fun pair => decide (pair.1 = key) <;> simp [same]
      · cases rest.reverse.find? fun pair => decide (pair.1 = key) <;>
          simp [same, Ne.symm same]

/-- The last pair of a key counts. -/
theorem get?_ofPairs (pairs : List (κ × α)) (key : κ) :
    (ofPairs pairs).get? key = (pairs.reverse.find? fun pair => pair.1 = key).map Prod.snd := by
  rw [ofPairs, get?_foldl_set, get?_empty, Option.or_none]

private theorem keys_foldl_set (pairs : List (κ × α)) (dict : Dict κ α)
    (nodup : (dict.keys ++ pairs.map Prod.fst).Nodup) :
    (pairs.foldl (fun dict pair => dict.set pair.1 pair.2) dict).keys =
      dict.keys ++ pairs.map Prod.fst := by
  induction pairs generalizing dict with
  | nil => simp
  | cons pair rest inductionHypothesis =>
      have new : pair.1 ∉ dict.keys := fun member =>
        (List.nodup_append.mp nodup).2.2 _ member _ (by simp) rfl
      have later : (dict.set pair.1 pair.2).keys = dict.keys ++ [pair.1] := by
        rw [keys_set, if_neg new]
      rw [List.foldl_cons, inductionHypothesis _ (by simpa [later] using nodup), later]
      simp

/-- Distinct keys are the keys of the dictionary. -/
theorem keys_ofPairs {pairs : List (κ × α)} (nodup : (pairs.map Prod.fst).Nodup) :
    (ofPairs pairs).keys = pairs.map Prod.fst := by
  rw [ofPairs, keys_foldl_set pairs empty (by simpa using nodup), keys_empty, List.nil_append]

theorem get?_ofPairs_of_mem {pairs : List (κ × α)} {key : κ} {value : α}
    (nodup : (pairs.map Prod.fst).Nodup) (member : (key, value) ∈ pairs) :
    (ofPairs pairs).get? key = some value := by
  have there : (pairs.reverse.find? fun pair => pair.1 = key).isSome = true := by
    rw [List.find?_isSome]
    exact ⟨(key, value), List.mem_reverse.mpr member, by simp⟩
  obtain ⟨pair, found⟩ := Option.isSome_iff_exists.mp there
  have sameKey : pair.1 = (key, value).1 := by simpa using List.find?_some found
  have isPair : pair = (key, value) := List.inj_on_of_nodup_map nodup
    (List.mem_reverse.mp (List.mem_of_find?_eq_some found)) member sameKey
  rw [get?_ofPairs, found, isPair]
  rfl

end Dict

end Myscm.Library
