import Mathlib.Data.String.Basic
import SpiralMachine.Text.Keyed

/-!
# Lists in the order of their keys

`Sorted` lists have their keys in order, each once. Inserting keeps a list so
(`sorted_insert`), so that whatever is put in order is (`sorted_ofList`), and a list that is in
order already is left as it is (`ofList_of_sorted`).
-/

set_option autoImplicit false

namespace SpiralMachine.Keyed

variable {α : Type}

/-- The keys are in order, and no key is repeated. -/
def Sorted (pairs : List (String × α)) : Prop := (pairs.map Prod.fst).Pairwise (· < ·)

theorem sorted_nil : Sorted ([] : List (String × α)) := .nil

theorem sorted_cons {key : String} {value : α} {pairs : List (String × α)} :
    Sorted ((key, value) :: pairs) ↔ (∀ pair ∈ pairs, key < pair.1) ∧ Sorted pairs := by
  unfold Sorted
  rw [List.map_cons, List.pairwise_cons, List.forall_mem_map]

/-- What is in a list after an insertion was there before, or was inserted. -/
theorem mem_insert {key : String} {value : α} {pairs : List (String × α)} {pair : String × α}
    (h : pair ∈ insert key value pairs) : pair = (key, value) ∨ pair ∈ pairs := by
  induction pairs with
  | nil => exact .inl (List.mem_singleton.mp h)
  | cons head rest ih =>
    obtain ⟨other, old⟩ := head
    rw [insert] at h
    by_cases hlt : key < other
    · rw [if_pos hlt] at h
      exact List.mem_cons.mp h
    · rw [if_neg hlt] at h
      by_cases heq : key = other
      · rw [if_pos heq] at h
        exact (List.mem_cons.mp h).imp_right (List.mem_cons_of_mem _)
      · rw [if_neg heq] at h
        rcases List.mem_cons.mp h with rfl | h
        · exact .inr (List.mem_cons_self ..)
        · exact (ih h).imp_right (List.mem_cons_of_mem _)

/-- Inserting keeps a list in order. -/
theorem sorted_insert (key : String) (value : α) {pairs : List (String × α)}
    (h : Sorted pairs) : Sorted (insert key value pairs) := by
  induction pairs with
  | nil => exact sorted_cons.mpr ⟨by simp, sorted_nil⟩
  | cons head rest ih =>
    obtain ⟨other, old⟩ := head
    obtain ⟨hfirst, hrest⟩ := sorted_cons.mp h
    rw [insert]
    by_cases hlt : key < other
    · rw [if_pos hlt]
      refine sorted_cons.mpr ⟨fun pair hpair ↦ ?_, h⟩
      rcases List.mem_cons.mp hpair with rfl | hpair
      · exact hlt
      · exact hlt.trans (hfirst pair hpair)
    · rw [if_neg hlt]
      by_cases heq : key = other
      · subst heq
        rw [if_pos rfl]
        exact sorted_cons.mpr ⟨hfirst, hrest⟩
      · rw [if_neg heq]
        refine sorted_cons.mpr ⟨fun pair hpair ↦ ?_, ih hrest⟩
        rcases mem_insert hpair with rfl | hpair
        · exact lt_of_le_of_ne (not_lt.mp hlt) (Ne.symm heq)
        · exact hfirst pair hpair

/-- Pairs that are put one by one into a list in order leave it so, with nothing in it but them and
what it had. -/
theorem sorted_foldl_insert (pairs : List (String × α)) {kept : List (String × α)}
    (h : Sorted kept) :
    Sorted (pairs.foldl (fun kept (key, value) ↦ insert key value kept) kept) ∧
      ∀ pair ∈ pairs.foldl (fun kept (key, value) ↦ insert key value kept) kept,
        pair ∈ pairs ∨ pair ∈ kept := by
  induction pairs generalizing kept with
  | nil => exact ⟨h, fun pair hpair ↦ .inr hpair⟩
  | cons head rest ih =>
    obtain ⟨key, value⟩ := head
    obtain ⟨hsorted, hmem⟩ := ih (sorted_insert key value h)
    refine ⟨hsorted, fun pair hpair ↦ ?_⟩
    rcases hmem pair hpair with hpair | hpair
    · exact .inl (List.mem_cons_of_mem _ hpair)
    · rcases mem_insert hpair with rfl | hpair
      · exact .inl (List.mem_cons_self ..)
      · exact .inr hpair

/-- What is put in order is in order, and none of it is new. -/
theorem sorted_ofList (pairs : List (String × α)) :
    Sorted (ofList pairs) ∧ ∀ pair ∈ ofList pairs, pair ∈ pairs := by
  obtain ⟨hsorted, hmem⟩ := sorted_foldl_insert pairs (sorted_nil (α := α))
  exact ⟨hsorted, fun pair hpair ↦ (hmem pair hpair).resolve_right (by simp)⟩

/-- A key after all others goes to the end. -/
theorem insert_of_forall_lt {key : String} (value : α) {pairs : List (String × α)}
    (h : ∀ pair ∈ pairs, pair.1 < key) : insert key value pairs = pairs ++ [(key, value)] := by
  induction pairs with
  | nil => rfl
  | cons head rest ih =>
    obtain ⟨other, old⟩ := head
    have hlt := h (other, old) (List.mem_cons_self ..)
    rw [insert, if_neg hlt.asymm, if_neg hlt.ne', ih fun pair hpair ↦
      h pair (List.mem_cons_of_mem _ hpair)]
    rfl

/-- Pairs in order that come after all others are added as they are. -/
theorem foldl_insert_of_sorted {pairs kept : List (String × α)} (h : Sorted pairs)
    (hkept : ∀ pair ∈ kept, ∀ later ∈ pairs, pair.1 < later.1) :
    pairs.foldl (fun kept (key, value) ↦ insert key value kept) kept = kept ++ pairs := by
  induction pairs generalizing kept with
  | nil => simp
  | cons head rest ih =>
    obtain ⟨key, value⟩ := head
    obtain ⟨hfirst, hrest⟩ := sorted_cons.mp h
    rw [List.foldl_cons]
    dsimp only
    rw [insert_of_forall_lt value fun pair hpair ↦ hkept pair hpair _ (List.mem_cons_self ..),
      ih hrest ?_, List.append_assoc]
    · rfl
    · intro pair hpair later hlater
      rcases List.mem_append.mp hpair with hpair | hpair
      · exact hkept pair hpair later (List.mem_cons_of_mem _ hlater)
      · rw [List.mem_singleton.mp hpair]
        exact hfirst later hlater

/-- A list in order stays as it is. -/
theorem ofList_of_sorted {pairs : List (String × α)} (h : Sorted pairs) : ofList pairs = pairs :=
  foldl_insert_of_sorted h (by simp)

end SpiralMachine.Keyed
