import SpiralMachine.Proofs.Json.Text
import SpiralMachine.Proofs.Text.Keyed

/-!
# JSON values read back

`Readable` are the values that the reader gives: whole numbers in the range of 64 bits, finite
doubles, keys in order, and no deeper than the limit. Whatever is read is readable
(`readable_of_ofDocument?`), and a readable value is read from its own text
(`ofText?_render_eq`), so that these are all values that survive.
-/

set_option autoImplicit false

namespace SpiralMachine.Json

open Document
open Number (Numeral)

/-- Items that are read one by one. -/
theorem mapM_map {α β γ : Type} {write : α → β} {read : β → Option γ} {result : α → γ}
    {items : List α} (h : ∀ item ∈ items, read (write item) = some (result item)) :
    (items.map write).mapM read = some (items.map result) := by
  induction items with
  | nil => rfl
  | cons item items ih =>
    rw [List.map_cons, List.mapM_cons, h item (List.mem_cons_self ..),
      ih fun other hother ↦ h other (List.mem_cons_of_mem _ hother)]
    rfl

/-- Items that are each read from what they are written as. -/
theorem mapM_map_eq {α β : Type} {write : α → β} {read : β → Option α} {items : List α}
    (h : ∀ item ∈ items, read (write item) = some item) :
    (items.map write).mapM read = some items := by
  rw [mapM_map fun item hitem ↦ h item hitem, List.map_id']

/-- What is read one by one was read from something. -/
theorem exists_of_mem_mapM {α β : Type} {read : β → Option α} {sources : List β} {items : List α}
    (h : sources.mapM read = some items) {item : α} (hitem : item ∈ items) :
    ∃ source ∈ sources, read source = some item := by
  induction sources generalizing items with
  | nil => cases h; cases hitem
  | cons source sources ih =>
    rw [List.mapM_cons] at h
    obtain ⟨first, hfirst, h⟩ := Option.bind_eq_some_iff.mp h
    obtain ⟨others, hothers, h⟩ := Option.bind_eq_some_iff.mp h
    cases h
    rcases List.mem_cons.mp hitem with rfl | hitem
    · exact ⟨source, List.mem_cons_self .., hfirst⟩
    · obtain ⟨other, hmem, hread⟩ := ih hothers hitem
      exact ⟨other, List.mem_cons_of_mem _ hmem, hread⟩

/-! ### Readable values -/

/-- The values that are read at most `limit` deep. -/
def Readable : (limit : ℕ) → Json → Prop
  | _, null => True
  | _, boolean _ => True
  | _, integer value => -2 ^ 63 ≤ value ∧ value < 2 ^ 64
  | _, real value => value.isFinite
  | _, string _ => True
  | 0, list _ => False
  | 0, object _ => False
  | limit + 1, list items => ∀ item ∈ items, Readable limit item
  | limit + 1, object members =>
    Keyed.Sorted members ∧ ∀ member ∈ members, Readable limit member.2

/-- A list of doubles, the finite ones as such and the others as null, is readable. -/
theorem readable_reals (limit : ℕ) (values : List Float) : Readable (limit + 1) (reals values) := by
  intro item hitem
  obtain ⟨x, -, rfl⟩ := List.mem_map.mp hitem
  by_cases hx : x.isFinite
  · rw [if_pos hx, Readable]
    exact hx
  · rw [if_neg hx, Readable]
    trivial

/-- A whole number in range is read as that number. -/
theorem ofNumeral?_integerNumeral {value : ℤ} (hlow : -2 ^ 63 ≤ value) (hhigh : value < 2 ^ 64) :
    ofNumeral? (integerNumeral value) = some (integer value) := by
  cases value with
  | ofNat size =>
    change (size : ℤ) < 2 ^ 64 at hhigh
    have hsize : size < 0x10000000000000000 := by omega
    unfold ofNumeral? integerNumeral
    dsimp only
    rw [decide_eq_true hsize]
    rfl
  | negSucc size =>
    have hsize : size + 1 ≤ 0x8000000000000000 := by omega
    unfold ofNumeral? integerNumeral
    dsimp only
    rw [decide_eq_true hsize, decide_eq_true (Nat.succ_pos size)]
    rfl

/-- A finite double is read as that double. -/
theorem ofNumeral?_realNumeral {value : Float} (h : value.isFinite) :
    ofNumeral? (realNumeral value) = some (real value) := by
  obtain ⟨hwhole, hfloat⟩ := float?_realNumeral h
  unfold ofNumeral?
  simp [hwhole, hfloat]

/-- Whatever number is read is in range. -/
theorem readable_of_ofNumeral? {number : Numeral} {value : Json} (limit : ℕ)
    (h : ofNumeral? number = some value) : Readable limit value := by
  unfold ofNumeral? at h
  dsimp only at h
  split at h
  · rename_i hnumber
    cases h
    rw [Bool.and_eq_true, decide_eq_true_iff] at hnumber
    have hsize := hnumber.2
    unfold Readable
    omega
  · split at h
    · rename_i hnumber
      cases h
      rw [Bool.and_eq_true, decide_eq_true_iff] at hnumber
      have hsize := hnumber.2
      unfold Readable
      omega
    · obtain ⟨x, hx, rfl⟩ := Option.map_eq_some_iff.mp h
      rw [Numeral.float?] at hx
      by_cases hfinite : number.nearest.isFinite
      · rw [if_pos hfinite] at hx
        cases hx
        rw [Readable]
        exact hfinite
      · rw [if_neg hfinite] at hx
        cases hx

/-- A readable value is read from its document. -/
theorem ofDocument?_toDocument {limit : ℕ} {value : Json} (h : Readable limit value) :
    ofDocument? limit (toDocument value) = some value := by
  cases value with
  | null => rw [toDocument, ofDocument?]
  | boolean value => rw [toDocument, ofDocument?]
  | integer value =>
    rw [Readable] at h
    rw [toDocument, ofDocument?, ofNumeral?_integerNumeral h.1 h.2]
  | real value =>
    rw [Readable] at h
    rw [toDocument, if_pos h, ofDocument?, ofNumeral?_realNumeral h]
  | string value => rw [toDocument, ofDocument?, text?_pieces, Option.map_some]
  | list items =>
    cases limit with
    | zero => exact h.elim
    | succ limit =>
      rw [Readable] at h
      have hitems : (items.map toDocument).mapM (ofDocument? limit) = some items :=
        mapM_map_eq fun item hitem ↦ ofDocument?_toDocument (h item hitem)
      rw [toDocument, toDocuments_eq, ofDocument?, hitems]
      rfl
  | object members =>
    cases limit with
    | zero => exact h.elim
    | succ limit =>
      rw [Readable] at h
      rw [toDocument, memberDocuments_eq, ofDocument?, mapM_map_eq fun member hmember ↦ ?_]
      · exact congrArg (fun members ↦ some (object members)) (Keyed.ofList_of_sorted h.1)
      · dsimp only
        rw [text?_pieces, ofDocument?_toDocument (h.2 member hmember)]
        rfl

/-- A readable value is read from its own text, however it is laid out. -/
theorem ofText?_render_eq {value : Json} (h : Readable depthLimit value) :
    ofText? (compact.render value) = some value ∧ ofText? (pretty.render value) = some value := by
  have hread : ∀ style : Style, style.IsBlank → ofText? (style.render value) = some value := by
    intro style hstyle
    unfold ofText?
    rw [ofText?_render hstyle]
    exact ofDocument?_toDocument h
  exact ⟨hread compact compact_isBlank, hread pretty pretty_isBlank⟩

/-- Whatever is read is readable. -/
theorem readable_of_ofDocument? {limit : ℕ} {document : Document} {value : Json}
    (h : ofDocument? limit document = some value) : Readable limit value := by
  cases document with
  | null =>
    rw [ofDocument?] at h
    cases h
    rw [Readable]
    trivial
  | boolean value =>
    rw [ofDocument?] at h
    cases h
    rw [Readable]
    trivial
  | numeral number =>
    rw [ofDocument?] at h
    exact readable_of_ofNumeral? limit h
  | quoted pieces =>
    rw [ofDocument?] at h
    obtain ⟨text, -, rfl⟩ := Option.map_eq_some_iff.mp h
    rw [Readable]
    trivial
  | list items =>
    cases limit with
    | zero => cases h
    | succ limit =>
      rw [ofDocument?] at h
      obtain ⟨items, hitems, h⟩ := Option.bind_eq_some_iff.mp h
      cases h
      rw [Readable]
      intro item hitem
      obtain ⟨source, -, hsource⟩ := exists_of_mem_mapM hitems hitem
      exact readable_of_ofDocument? hsource
  | object members =>
    cases limit with
    | zero => cases h
    | succ limit =>
      rw [ofDocument?] at h
      obtain ⟨members, hmembers, h⟩ := Option.bind_eq_some_iff.mp h
      cases h
      obtain ⟨hsorted, hmem⟩ := Keyed.sorted_ofList members
      rw [Readable]
      refine ⟨hsorted, fun member hmember ↦ ?_⟩
      obtain ⟨source, -, hsource⟩ := exists_of_mem_mapM hmembers (hmem member hmember)
      obtain ⟨key, -, hsource⟩ := Option.bind_eq_some_iff.mp hsource
      obtain ⟨value, hvalue, hsource⟩ := Option.bind_eq_some_iff.mp hsource
      cases hsource
      exact readable_of_ofDocument? hvalue

end SpiralMachine.Json
