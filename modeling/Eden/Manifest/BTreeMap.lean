import Mathlib

/-!
# Ordered maps

The `BTreeMap`s of the tree manifest, as association lists in increasing key order. A map
of children sits inside the tree type itself, so its order cannot be a field of the map;
`BTreeMap.Ordered` states it, and `insert` keeps it.

* `get_insert`: reading a map after an insertion, at the inserted key and elsewhere;
* `foldl_insert_of_ordered`: inserting the entries of an ordered map one by one, in order,
  into the empty map rebuilds it.
-/

namespace Eden

/-- A `BTreeMap` from `K` to `α`: its entries, in increasing key order. -/
abbrev BTreeMap (K α : Type) := List (K × α)

namespace BTreeMap

variable {K α : Type} [LinearOrder K]

/-- `BTreeMap::get`: the value at `k`. -/
def get : BTreeMap K α → K → Option α
  | [], _ => none
  | (k', v) :: m, k => if k' = k then some v else get m k

/-- `BTreeMap::insert`: the map with `v` at `k`, the entry put at its place in key order. -/
def insert : BTreeMap K α → K → α → BTreeMap K α
  | [], k, v => [(k, v)]
  | (k', v') :: m, k, v =>
    if k < k' then (k, v) :: (k', v') :: m
    else if k = k' then (k, v) :: m
    else (k', v') :: insert m k v

/-- The keys of `m` increase strictly: `m` is a map in the order `BTreeMap` keeps. -/
def Ordered (m : BTreeMap K α) : Prop :=
  m.Pairwise fun a b => a.1 < b.1

@[simp] theorem get_nil (k : K) : get ([] : BTreeMap K α) k = none := rfl

theorem get_cons (k' k : K) (v : α) (m : BTreeMap K α) :
    get ((k', v) :: m) k = if k' = k then some v else get m k := rfl

@[simp] theorem get_insert (m : BTreeMap K α) (k j : K) (v : α) :
    get (insert m k v) j = if k = j then some v else get m j := by
  induction m with
  | nil => simp [insert, get_cons]
  | cons e m ih =>
    obtain ⟨k', v'⟩ := e
    by_cases hlt : k < k'
    · simp only [insert, if_pos hlt, get_cons]
    by_cases heq : k = k'
    · subst heq
      simp only [insert, if_neg hlt, if_true, get_cons]
      split_ifs <;> rfl
    · have hne : k' ≠ k := Ne.symm heq
      simp only [insert, if_neg hlt, if_neg heq, get_cons, ih]
      by_cases hkj : k = j
      · subst hkj; simp [hne]
      · simp [hkj]

theorem insert_ne_nil (m : BTreeMap K α) (k : K) (v : α) : insert m k v ≠ [] := by
  cases m with
  | nil => simp [insert]
  | cons e m => obtain ⟨k', v'⟩ := e; simp only [insert]; split_ifs <;> simp

theorem ne_nil_of_get_eq_some {m : BTreeMap K α} {k : K} {v : α} (h : get m k = some v) :
    m ≠ [] := by
  rintro rfl; simp at h

/-- Reading a map whose values are all changed by `f`. -/
@[simp] theorem get_map (f : α → α) (m : BTreeMap K α) (k : K) :
    get (m.map fun e => (e.1, f e.2)) k = (get m k).map f := by
  induction m with
  | nil => rfl
  | cons e m ih =>
    obtain ⟨k', v⟩ := e
    simp only [List.map_cons, get_cons]
    split_ifs <;> simp [ih]

/-- Inserting a key above every key of an ordered map puts it last. -/
theorem insert_of_lt (m : BTreeMap K α) (k : K) (v : α) (h : ∀ e ∈ m, e.1 < k) :
    insert m k v = m ++ [(k, v)] := by
  induction m with
  | nil => rfl
  | cons e m ih =>
    have he := h e (List.mem_cons_self _ _)
    simp only [insert, not_lt_of_lt he, ne_of_gt he, if_false, List.cons_append]
    rw [ih fun e' he' => h e' (List.mem_cons_of_mem _ he')]

/-- Inserting the entries of an ordered map in order rebuilds it. -/
theorem foldl_insert_of_ordered (m acc : BTreeMap K α) (hm : Ordered m)
    (hacc : ∀ a ∈ acc, ∀ e ∈ m, a.1 < e.1) :
    m.foldl (fun acc e => insert acc e.1 e.2) acc = acc ++ m := by
  induction m generalizing acc with
  | nil => simp
  | cons e m ih =>
    rw [Ordered, List.pairwise_cons] at hm
    rw [List.foldl_cons, insert_of_lt acc e.1 e.2 fun a ha => hacc a ha e (List.mem_cons_self _ _)]
    rw [ih _ hm.2]
    · simp
    · intro a ha e' he'
      rcases List.mem_append.1 ha with ha | ha
      · exact hacc a ha e' (List.mem_cons_of_mem _ he')
      · rw [List.mem_singleton.1 ha]; exact hm.1 e' he'

end BTreeMap

end Eden
