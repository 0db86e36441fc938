/-!
# Lists ordered by key

Pairs in the order of their keys, one value for a key. Keys compare character by
character, by code point. `lookup_insert`: only the key that was inserted is looked up
differently.
-/

set_option autoImplicit false

namespace SpiralMachine.Keyed

variable {α : Type}

/-- Puts `value` under `key`, in place of an older value. -/
def insert (key : String) (value : α) : List (String × α) → List (String × α)
  | [] => [(key, value)]
  | (other, old) :: rest =>
    if key < other then (key, value) :: (other, old) :: rest
    else if key = other then (key, value) :: rest
    else (other, old) :: insert key value rest

theorem lookup_cons (key other : String) (value : α) (pairs : List (String × α)) :
    ((other, value) :: pairs).lookup key =
      if key = other then some value else pairs.lookup key := by
  rw [List.lookup_cons]
  by_cases h : key = other
  · simp [h]
  · rw [beq_false_of_ne h, if_neg h]

theorem lookup_isSome_iff {key : String} {pairs : List (String × α)} :
    (pairs.lookup key).isSome ↔ key ∈ pairs.map Prod.fst := by
  induction pairs with
  | nil => simp
  | cons pair rest ih =>
    rw [lookup_cons, List.map_cons, List.mem_cons]
    split <;> simp_all

theorem mem_of_lookup {key : String} {value : α} {pairs : List (String × α)}
    (h : pairs.lookup key = some value) : (key, value) ∈ pairs := by
  obtain ⟨before, after, rfl, -⟩ := List.lookup_eq_some_iff.mp h
  exact List.mem_append_right before List.mem_cons_self

/-- Where no key is repeated, every value is looked up under its key. -/
theorem lookup_of_mem {pairs : List (String × α)} (h : (pairs.map Prod.fst).Nodup)
    {key : String} {value : α} (hmem : (key, value) ∈ pairs) : pairs.lookup key = some value := by
  obtain ⟨before, after, rfl⟩ := List.append_of_mem hmem
  refine List.lookup_eq_some_iff.mpr ⟨before, after, rfl, fun other hother ↦ ?_⟩
  rw [List.map_append, List.nodup_append] at h
  have hne : other.1 ≠ key := h.2.2 _ (List.mem_map_of_mem hother) _ List.mem_cons_self
  simpa using hne.symm

theorem lookup_insert (key other : String) (value : α) (pairs : List (String × α)) :
    (insert key value pairs).lookup other =
      if other = key then some value else pairs.lookup other := by
  induction pairs with
  | nil => rw [insert, lookup_cons]
  | cons pair rest ih =>
    obtain ⟨held, old⟩ := pair
    unfold insert
    split
    · rw [lookup_cons]
    · split
      · rename_i hkey
        subst hkey
        rw [lookup_cons, lookup_cons]
        split <;> rfl
      · rename_i hkey
        rw [lookup_cons, lookup_cons, ih]
        by_cases h : other = held
        · rw [if_pos h, if_pos h, if_neg fun hother ↦ hkey (hother.symm.trans h)]
        · rw [if_neg h, if_neg h]

/-- The pairs in the order of their keys; of several values for one key the last. -/
def ofList (pairs : List (String × α)) : List (String × α) :=
  pairs.foldl (fun kept (key, value) ↦ insert key value kept) []

end SpiralMachine.Keyed
