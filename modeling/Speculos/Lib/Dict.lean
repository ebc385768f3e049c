import Mathlib.Data.List.Nodup

/-!
# Dictionaries and enumerations

A dictionary lists its items in the order in which their keys were first set;
setting a key again keeps its place. No key is listed twice, so that looking a
key up and finding it among the items are the same, and so is a loop that keeps the
last item of the key.

An enumeration defines names for values. A name for a value that has one already
is an alias: it stands for the same member, which keeps its first name.
-/

namespace Lib

structure Dict (κ ν : Type) where
  items : List (κ × ν)
  nodup : (items.map Prod.fst).Nodup

namespace Dict

variable {κ ν : Type} [DecidableEq κ]

def empty : Dict κ ν := ⟨[], List.nodup_nil⟩

def isEmpty (d : Dict κ ν) : Bool := d.items.isEmpty

def get? (d : Dict κ ν) (k : κ) : Option ν := d.items.lookup k

def setItems (k : κ) (v : ν) : List (κ × ν) → List (κ × ν)
  | [] => [(k, v)]
  | (k', v') :: items => if k = k' then (k, v) :: items else (k', v') :: setItems k v items

theorem keys_setItems (k : κ) (v : ν) (items : List (κ × ν)) :
    (setItems k v items).map Prod.fst =
      if k ∈ items.map Prod.fst then items.map Prod.fst else items.map Prod.fst ++ [k] := by
  induction items with
  | nil => rfl
  | cons item items ih =>
    obtain ⟨k', v'⟩ := item
    rw [setItems]
    by_cases hk : k = k'
    · subst hk
      simp
    · rw [if_neg hk, List.map_cons, ih]
      by_cases hmem : k ∈ items.map Prod.fst
      · rw [if_pos hmem, List.map_cons, if_pos (List.mem_cons_of_mem _ hmem)]
      · have hnot : k ∉ k' :: items.map Prod.fst := by
          simpa [hk] using hmem
        rw [if_neg hmem, List.map_cons, if_neg hnot]
        rfl

def set (d : Dict κ ν) (k : κ) (v : ν) : Dict κ ν where
  items := setItems k v d.items
  nodup := by
    rw [keys_setItems]
    split
    · exact d.nodup
    · rename_i hk
      exact List.nodup_append.mpr ⟨d.nodup, List.nodup_singleton k, fun a ha b hb hab =>
        hk (List.mem_singleton.mp hb ▸ hab ▸ ha)⟩

def update (d other : Dict κ ν) : Dict κ ν :=
  other.items.foldl (fun d item => d.set item.1 item.2) d

-- ---------------------------------------------------------------------------
-- Looking up
-- ---------------------------------------------------------------------------

@[simp] theorem get?_empty (k : κ) : (empty : Dict κ ν).get? k = none := rfl

omit [DecidableEq κ] in
theorem isEmpty_iff (d : Dict κ ν) : d.isEmpty = true ↔ d = empty := by
  obtain ⟨items, h⟩ := d
  cases items with
  | nil => exact ⟨fun _ => rfl, fun _ => rfl⟩
  | cons item items => exact ⟨fun h => (nomatch h), fun h => (nomatch congrArg Dict.items h)⟩

theorem lookup_cons (k k' : κ) (v : ν) (items : List (κ × ν)) :
    ((k', v) :: items).lookup k = if k = k' then some v else items.lookup k := by
  rw [List.lookup_cons]
  by_cases h : k = k'
  · rw [if_pos h, beq_iff_eq.mpr h]
  · rw [if_neg h, beq_eq_false_iff_ne.mpr h]

theorem lookup_setItems (k : κ) (v : ν) (items : List (κ × ν)) (k' : κ) :
    (setItems k v items).lookup k' = if k' = k then some v else items.lookup k' := by
  induction items with
  | nil => exact lookup_cons k' k v []
  | cons item items ih =>
    obtain ⟨k₁, v₁⟩ := item
    rw [setItems]
    by_cases hk : k = k₁
    · subst hk
      rw [if_pos rfl, lookup_cons, lookup_cons]
      by_cases h : k' = k
      · simp [h]
      · simp [h]
    · rw [if_neg hk, lookup_cons, lookup_cons, ih]
      by_cases h : k' = k
      · subst h
        simp [hk]
      · simp [h]

@[simp] theorem get?_set (d : Dict κ ν) (k k' : κ) (v : ν) :
    (d.set k v).get? k' = if k' = k then some v else d.get? k' :=
  lookup_setItems k v d.items k'

theorem lookup_eq_none_of_nodup {items : List (κ × ν)}
    (h : (((k, v) :: items).map Prod.fst).Nodup) : items.lookup k = none := by
  rw [List.lookup_eq_none_iff]
  intro item hitem
  have hnot := (List.nodup_cons.mp h).1
  rw [bne_iff_ne]
  rintro rfl
  exact hnot (List.mem_map.mpr ⟨item, hitem, rfl⟩)

theorem get?_foldl_set (d : Dict κ ν) (items : List (κ × ν)) (h : (items.map Prod.fst).Nodup)
    (k : κ) :
    (items.foldl (fun d item => d.set item.1 item.2) d).get? k =
      (items.lookup k).or (d.get? k) := by
  induction items generalizing d with
  | nil => rfl
  | cons item items ih =>
    obtain ⟨k', v⟩ := item
    rw [List.foldl_cons, ih _ (List.nodup_cons.mp h).2, get?_set, lookup_cons]
    by_cases hk : k = k'
    · subst hk
      simp [lookup_eq_none_of_nodup h]
    · simp [hk]

@[simp] theorem get?_update (d other : Dict κ ν) (k : κ) :
    (d.update other).get? k = (other.get? k).or (d.get? k) :=
  get?_foldl_set d other.items other.nodup k

theorem lookup_eq_some_iff (items : List (κ × ν)) (h : (items.map Prod.fst).Nodup) :
    items.lookup k = some v ↔ (k, v) ∈ items := by
  induction items with
  | nil => simp
  | cons item items ih =>
    obtain ⟨k', v'⟩ := item
    have hrest := ih (List.nodup_cons.mp h).2
    rw [lookup_cons, List.mem_cons]
    by_cases hk : k = k'
    · subst hk
      have hnone := lookup_eq_none_of_nodup h
      have hnot : (k, v) ∉ items := fun hmem => by
        rw [hrest.mpr hmem] at hnone
        cases hnone
      simp [hnot, eq_comm]
    · simp [hk, hrest]

theorem get?_eq_some_iff {d : Dict κ ν} : d.get? k = some v ↔ (k, v) ∈ d.items :=
  lookup_eq_some_iff d.items d.nodup

theorem eq_empty_of_get? {d : Dict κ ν} (h : ∀ k, d.get? k = none) : d = empty := by
  rw [← isEmpty_iff, isEmpty, List.isEmpty_iff, List.eq_nil_iff_forall_not_mem]
  intro item hitem
  have hsome := get?_eq_some_iff.mpr hitem
  rw [h] at hsome
  cases hsome

-- ---------------------------------------------------------------------------
-- A loop over the items
-- ---------------------------------------------------------------------------

theorem get?_foldl {step : Dict κ ν → α → Dict κ ν} {v : ν} (sets : α → κ → Prop)
    [∀ a k, Decidable (sets a k)] (k : κ)
    (hstep : ∀ d a, (step d a).get? k = if sets a k then some v else d.get? k) (as : List α)
    (d : Dict κ ν) :
    (as.foldl step d).get? k = if ∃ a ∈ as, sets a k then some v else d.get? k := by
  induction as generalizing d with
  | nil => simp
  | cons a as ih =>
    rw [List.foldl_cons, ih, hstep]
    by_cases hrest : ∃ a ∈ as, sets a k
    · rw [if_pos hrest, if_pos (List.exists_mem_cons_of_exists hrest)]
    · by_cases ha : sets a k
      · rw [if_neg hrest, if_pos ha, if_pos ⟨a, List.mem_cons_self, ha⟩]
      · rw [if_neg hrest, if_neg ha, if_neg]
        rintro ⟨b, hb, hset⟩
        rcases List.mem_cons.mp hb with rfl | hb
        · exact ha hset
        · exact hrest ⟨b, hb, hset⟩

theorem foldl_lookup {items : List (κ × ν)} (h : (items.map Prod.fst).Nodup) (k : κ)
    (v : Option ν) :
    items.foldl (fun v item => if item.1 = k then some item.2 else v) v =
      (items.lookup k).or v := by
  induction items generalizing v with
  | nil => rfl
  | cons item items ih =>
    obtain ⟨k', v'⟩ := item
    rw [List.foldl_cons, ih (List.nodup_cons.mp h).2, lookup_cons]
    by_cases hkk : k = k'
    · subst hkk
      simp [lookup_eq_none_of_nodup h]
    · simp [hkk, Ne.symm hkk]

theorem foldl_last (d : Dict κ ν) (k : κ) :
    d.items.foldl (fun v item => if item.1 = k then some item.2 else v) none = d.get? k := by
  rw [foldl_lookup d.nodup, Option.or_none, get?]

end Dict

end Lib

-- ---------------------------------------------------------------------------
-- Enumerations with aliases
-- ---------------------------------------------------------------------------

namespace Lib

structure Enumeration where
  definitions : List (String × Nat)
  nodup : (definitions.map Prod.fst).Nodup

namespace Enumeration

variable {e : Enumeration}

def values (e : Enumeration) : List Nat := e.definitions.map Prod.snd

/-- A member is one of the defined values. -/
structure Member (e : Enumeration) where
  value : Nat
  defined : value ∈ e.values
  deriving DecidableEq

def Member.name (m : e.Member) : String :=
  ((e.definitions.find? fun d => d.2 == m.value).map Prod.fst).getD ""

def ofName? (e : Enumeration) (name : String) : Option e.Member :=
  (e.definitions.lookup name).bind fun value =>
    if h : value ∈ e.values then some ⟨value, h⟩ else none

theorem Member.name_mem (m : e.Member) : (m.name, m.value) ∈ e.definitions := by
  obtain ⟨d, hd, heq⟩ := List.mem_map.mp m.defined
  rw [Member.name]
  cases hfind : e.definitions.find? fun d => d.2 == m.value with
  | none => exact absurd (beq_iff_eq.mpr heq) (List.find?_eq_none.mp hfind d hd)
  | some d' =>
    have hvalue := List.find?_some hfind
    rw [beq_iff_eq] at hvalue
    rw [Option.map_some, Option.getD_some, ← hvalue]
    exact List.mem_of_find?_eq_some hfind

theorem ofName?_name (m : e.Member) : e.ofName? m.name = some m := by
  have hlookup := (Dict.lookup_eq_some_iff e.definitions e.nodup).mpr m.name_mem
  rw [ofName?, hlookup, Option.bind_some, dif_pos m.defined]

end Enumeration

end Lib
