import Mathlib.Data.List.Nodup
import Mathlib.Order.Nat
import Mathlib.Tactic.SplitIfs
import SpiralMachine.Mesh.Basic

/-!
# Ids that are made up

An id that the mesh makes up for a node is new (`nextId_notMem`): the search for it passes as many
taken indices as there are nodes before it gives up, and all of them and the next one cannot be
taken, since different indices give different ids. The search begins at the number of nodes, and
ends there if that index is free (`exists_nextId_numbered`, `nextId_of_notMem`).

So the bound of the search is never felt. `Search` is the search without one, which has no end where
all indices are taken; a bounded search that ends at a free index is that search
(`search_freeIndex`). In a mesh it ends, at the least free index that it can reach
(`nextId_least`).
-/

set_option autoImplicit false

namespace SpiralMachine.Mesh

/-- A search that ends at a taken index has found all indices taken. -/
theorem isTaken_of_freeIndex {isTaken : Nat → Bool} {tries index : Nat}
    (h : isTaken (freeIndex isTaken tries index)) : ∀ offset ≤ tries, isTaken (index + offset) := by
  induction tries generalizing index with
  | zero =>
    intro offset hoffset
    obtain rfl := Nat.le_zero.mp hoffset
    exact h
  | succ tries ih =>
    rw [freeIndex] at h
    by_cases htaken : isTaken index
    · rw [if_pos htaken] at h
      intro offset hoffset
      cases offset with
      | zero => exact htaken
      | succ offset =>
        rw [Nat.add_comm offset, ← Nat.add_assoc]
        exact ih h offset (Nat.le_of_succ_le_succ hoffset)
    · rw [if_neg htaken] at h
      exact absurd h htaken

/-- A search does not go back. -/
theorem le_freeIndex (isTaken : Nat → Bool) (tries index : Nat) :
    index ≤ freeIndex isTaken tries index := by
  induction tries generalizing index with
  | zero => exact le_rfl
  | succ tries ih =>
    rw [freeIndex]
    split_ifs
    · exact (Nat.le_succ index).trans (ih (index + 1))
    · exact le_rfl

/-- A search that begins at a free index ends there. -/
theorem freeIndex_of_free {isTaken : Nat → Bool} {index : Nat} (h : isTaken index = false)
    (tries : Nat) : freeIndex isTaken tries index = index := by
  cases tries <;> simp [freeIndex, h]

/-! ### The search without a bound -/

/-- A search that tries one index after the other: from `index` on it tries `count` of them, and
ends at `found`, the first that is free. -/
inductive Search (isTaken : Nat → Bool) : (index count found : Nat) → Prop where
  | free {index : Nat} (h : isTaken index = false) : Search isTaken index 1 index
  | taken {index count found : Nat} (h : isTaken index)
      (next : Search isTaken (index + 1) count found) : Search isTaken index (count + 1) found

namespace Search

variable {isTaken : Nat → Bool} {index count found other : Nat}

theorem add_count (h : Search isTaken index count found) : index + count = found + 1 := by
  induction h with
  | free _ => rfl
  | taken _ _ ih => omega

/-- A search passes taken indices only. -/
theorem taken_of_lt (h : Search isTaken index count found) (hle : index ≤ other)
    (hlt : other < found) : isTaken other := by
  induction h with
  | free _ => exact absurd hlt hle.not_gt
  | taken htaken _ ih =>
    rcases hle.eq_or_lt with rfl | hmore
    · exact htaken
    · exact ih hmore hlt

/-- A search ends in one way. -/
theorem unique (h : Search isTaken index count found) {count' found' : Nat}
    (h' : Search isTaken index count' found') : count' = count ∧ found' = found := by
  induction h generalizing count' with
  | free hfree =>
    cases h' with
    | free _ => exact ⟨rfl, rfl⟩
    | taken htaken _ => exact absurd htaken (Bool.not_eq_true _ ▸ hfree)
  | taken htaken _ ih =>
    cases h' with
    | free hfree => exact absurd htaken (Bool.not_eq_true _ ▸ hfree)
    | taken _ hnext =>
      obtain ⟨rfl, rfl⟩ := ih hnext
      exact ⟨rfl, rfl⟩

end Search

/-- A bounded search that ends at a free index is the search without a bound, and tries one index
more than the bound at most. -/
theorem search_freeIndex {isTaken : Nat → Bool} {tries index : Nat}
    (h : isTaken (freeIndex isTaken tries index) = false) :
    ∃ count ≤ tries + 1, Search isTaken index count (freeIndex isTaken tries index) := by
  induction tries generalizing index with
  | zero => exact ⟨1, le_rfl, .free h⟩
  | succ tries ih =>
    rw [freeIndex] at h ⊢
    by_cases htaken : isTaken index
    · rw [if_pos htaken] at h ⊢
      obtain ⟨count, hcount, hsearch⟩ := ih h
      exact ⟨count + 1, Nat.succ_le_succ hcount, .taken htaken hsearch⟩
    · rw [if_neg htaken]
      exact ⟨1, Nat.succ_le_succ (Nat.zero_le _), .free (Bool.eq_false_iff.mpr htaken)⟩

/-! ### Ids -/

/-- The ids that are made up of a stem and an index. -/
def numbered (stem : String) (index : Nat) : String := s!"{stem}_{index}"

/-- Different indices give different ids. -/
theorem numbered_injective (stem : String) :
    Function.Injective fun index : Nat ↦ s!"{stem}_{index}" := by
  intro first second h
  have hrepr : first.repr = second.repr := (String.append_right_inj (stem ++ "_")).mp h
  have hdigits : Nat.toDigits 10 first = Nat.toDigits 10 second := by
    rwa [Nat.repr_eq_ofList_toDigits, Nat.repr_eq_ofList_toDigits, String.ofList_inj] at hrepr
  calc first = Nat.ofDigitChars 10 (Nat.toDigits 10 first) 0 := by
        rw [Nat.ofDigitChars_ten_toDigits]
    _ = second := by rw [hdigits, Nat.ofDigitChars_ten_toDigits]

/-- An id that is made up has no node. -/
theorem nextId_notMem (mesh : Mesh) (stem : String) : mesh.nextId stem ∉ mesh.ids := by
  intro hmem
  let isTaken (index : Nat) : Bool := mesh.contains s!"{stem}_{index}"
  have htaken : ∀ offset ≤ mesh.size, isTaken (mesh.size + offset) :=
    isTaken_of_freeIndex (contains_iff.mpr hmem)
  let candidates := (List.range' mesh.size (mesh.size + 1)).map fun index ↦ s!"{stem}_{index}"
  have hnodup : candidates.Nodup :=
    List.Nodup.map (numbered_injective stem) List.nodup_range'
  have hsubset : candidates ⊆ mesh.ids := by
    intro id hid
    obtain ⟨index, hindex, rfl⟩ := List.mem_map.mp hid
    obtain ⟨offset, hoffset, rfl⟩ := List.mem_range'.mp hindex
    rw [Nat.one_mul]
    exact contains_iff.mp (htaken offset (Nat.le_of_lt_succ hoffset))
  have hlength := hnodup.length_le_of_subset hsubset
  rw [List.length_map, List.length_range', length_ids] at hlength
  exact Nat.not_succ_le_self _ hlength

/-- An id that is made up has an index, which is no less than the number of nodes. -/
theorem exists_nextId_numbered (mesh : Mesh) (stem : String) :
    ∃ index, mesh.size ≤ index ∧ mesh.nextId stem = numbered stem index :=
  ⟨_, le_freeIndex .., rfl⟩

/-- Where the number of nodes is free as an index, it is the one that is taken next. -/
theorem nextId_of_notMem {mesh : Mesh} {stem : String} (h : numbered stem mesh.size ∉ mesh.ids) :
    mesh.nextId stem = numbered stem mesh.size := by
  have hfree : mesh.contains s!"{stem}_{mesh.size}" = false := by
    rw [← Bool.not_eq_true, contains_iff]
    exact h
  unfold nextId
  exact congrArg (numbered stem) (freeIndex_of_free hfree mesh.size)

/-- The ids that are made up of a stem begin with it. -/
theorem exists_nextId_eq (mesh : Mesh) (stem : String) :
    ∃ rest, mesh.nextId stem = stem ++ rest :=
  ⟨"_" ++ toString _, String.append_assoc ..⟩

/-- The mesh has a node under the id that is made up of the stem and the index. -/
def takes (mesh : Mesh) (stem : String) (index : Nat) : Bool := mesh.contains (numbered stem index)

/-- The search for an id that is made up ends, without a bound, after one try more than there are
nodes at most. It ends at the least free index from the number of nodes on. -/
theorem nextId_least (mesh : Mesh) (stem : String) :
    ∃ index count, mesh.nextId stem = numbered stem index ∧
      (∀ tried found, Search (mesh.takes stem) mesh.size tried found ↔
        tried = count ∧ found = index) ∧
      count ≤ mesh.size + 1 ∧ mesh.size ≤ index ∧ index ≤ 2 * mesh.size ∧
      numbered stem index ∉ mesh.ids ∧
      ∀ other, mesh.size ≤ other → other < index → numbered stem other ∈ mesh.ids := by
  have hnew : numbered stem (freeIndex (mesh.takes stem) mesh.size mesh.size) ∉ mesh.ids :=
    mesh.nextId_notMem stem
  have hfree : mesh.takes stem (freeIndex (mesh.takes stem) mesh.size mesh.size) = false :=
    Bool.eq_false_iff.mpr (contains_iff.not.mpr hnew)
  obtain ⟨count, hcount, hsearch⟩ := search_freeIndex hfree
  have hend := hsearch.add_count
  refine ⟨freeIndex (mesh.takes stem) mesh.size mesh.size, count, rfl, fun tried found ↦ ?_,
    hcount, le_freeIndex .., by omega, hnew, fun other hle hlt ↦ ?_⟩
  · constructor
    · exact hsearch.unique
    · rintro ⟨rfl, rfl⟩
      exact hsearch
  · exact contains_iff.mp (hsearch.taken_of_lt hle hlt)

/-- The nodes can take all indices before the greatest. -/
example : (ofList [("node_3", .new .zero), ("node_2", .new .zero)]).nextId "node" = "node_4" := by
  decide +kernel

end SpiralMachine.Mesh
