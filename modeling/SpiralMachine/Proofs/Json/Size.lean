import SpiralMachine.Proofs.Json.Text
import SpiralMachine.Proofs.Tensor.Nest

/-!
# A text is no shorter than what is in it

A reader pays for a value if it takes at least as many characters from the text as the value weighs
(`Pays`). The items of a list cost one character each, the comma or bracket that ends them, beside
what they weigh themselves (`pays_items?`). So a text has as many characters as the lists in it have
items in all (`itemCount_le_of_ofText?`), and a bound on texts bounds the nests that are read
from them.
-/

set_option autoImplicit false

namespace SpiralMachine.Json

namespace Document

open Text (Reader)

variable {α : Type}

/-- What is left of a text is no longer than the text was. -/
def Shortens (read : Reader α) : Prop :=
  ∀ text value rest, read text = some (value, rest) → rest.length ≤ text.length

/-- What a reader takes from the front of a text is at least as long as the value weighs. -/
def Pays (weight : α → ℕ) (read : Reader α) : Prop :=
  ∀ text value rest, read text = some (value, rest) → weight value + rest.length ≤ text.length

theorem Pays.shortens {weight : α → ℕ} {read : Reader α} (h : Pays weight read) : Shortens read :=
  fun _ _ _ hread ↦ Nat.le_trans (Nat.le_add_left ..) (h _ _ _ hread)

theorem Shortens.pays {read : Reader α} (h : Shortens read) : Pays (fun _ ↦ 0) read :=
  fun _ _ _ hread ↦ (Nat.zero_add _).trans_le (h _ _ _ hread)

/-! ### Blanks, numerals and strings -/

theorem length_skipSpace_le (text : List Char) : (skipSpace text).length ≤ text.length :=
  (List.dropWhile_suffix isSpace).length_le

theorem length_lt_of_skipSpace {text rest : List Char} {c : Char}
    (h : skipSpace text = c :: rest) : rest.length < text.length := by
  have hle := length_skipSpace_le text
  rw [h, List.length_cons] at hle
  exact hle

theorem length_le_of_span {text digits rest : List Char}
    (h : text.span Char.isDigit = (digits, rest)) : rest.length ≤ text.length := by
  rw [List.span_eq_takeWhile_dropWhile] at h
  cases h
  exact (List.dropWhile_suffix Char.isDigit).length_le

theorem shortens_wholePart? : Shortens wholePart? := by
  intro text whole rest h
  unfold wholePart? at h
  split at h
  · cases h
    simp
  · split at h
    · cases h
    · exact length_le_of_span (Option.some.inj h)

theorem shortens_fractionPart? : Shortens fractionPart? := by
  intro text fraction rest h
  unfold fractionPart? at h
  split at h
  · split at h
    · cases h
    · have hle := length_le_of_span (Option.some.inj h)
      simp only [List.length_cons]
      omega
  · cases h
    simp

theorem shortens_exponentPart? : Shortens exponentPart? := by
  intro text exponent rest h
  unfold exponentPart? at h
  split at h
  case h_3 =>
    cases h
    exact Nat.le_refl _
  -- after either letter there may be a sign before the digits
  all_goals
    split at h
    rename_i hsign
    split at h
    · cases h
    · rename_i hspan
      cases h
      have hdigits := length_le_of_span hspan
      split at hsign <;> cases hsign <;> simp only [List.length_cons] <;> omega

theorem shortens_numeral? : Shortens numeral? := by
  intro text number rest h
  unfold numeral? at h
  split at h
  rename_i negative unsigned hsign
  obtain ⟨⟨whole, afterWhole⟩, hwhole, h⟩ := Option.bind_eq_some_iff.mp h
  obtain ⟨⟨fraction, afterFraction⟩, hfraction, h⟩ := Option.bind_eq_some_iff.mp h
  obtain ⟨⟨exponent, afterExponent⟩, hexponent, h⟩ := Option.bind_eq_some_iff.mp h
  cases h
  have hunsigned : unsigned.length ≤ text.length := by
    split at hsign <;> cases hsign <;> simp
  calc rest.length ≤ afterFraction.length := shortens_exponentPart? _ _ _ hexponent
    _ ≤ afterWhole.length := shortens_fractionPart? _ _ _ hfraction
    _ ≤ unsigned.length := shortens_wholePart? _ _ _ hwhole
    _ ≤ text.length := hunsigned

theorem shortens_pieces? : Shortens pieces? := by
  intro text pieces rest h
  fun_induction pieces? text generalizing pieces rest with
  | case1 => cases h
  | case2 =>
    cases h
    simp
  | case3 a b c d others ih =>
    obtain ⟨unit, -, h⟩ := Option.bind_eq_some_iff.mp h
    obtain ⟨⟨found, left⟩, hfound, h⟩ := Option.bind_eq_some_iff.mp h
    cases h
    have hle := ih _ _ hfound
    simp only [List.length_cons]
    omega
  | case4 c others _ ih =>
    obtain ⟨char, -, h⟩ := Option.bind_eq_some_iff.mp h
    obtain ⟨⟨found, left⟩, hfound, h⟩ := Option.bind_eq_some_iff.mp h
    cases h
    have hle := ih _ _ hfound
    simp only [List.length_cons]
    omega
  | case5 => cases h
  | case6 c others _ _ _ _ ih =>
    obtain ⟨⟨found, left⟩, hfound, h⟩ := Option.bind_eq_some_iff.mp h
    cases h
    have hle := ih _ _ hfound
    simp only [List.length_cons]
    omega

/-! ### Lists -/

/-- What the items of a list weigh, and one more for each of them. -/
def listWeight (weight : α → ℕ) (items : List α) : ℕ := (items.map (weight · + 1)).sum

theorem listWeight_cons (weight : α → ℕ) (item : α) (items : List α) :
    listWeight weight (item :: items) = weight item + 1 + listWeight weight items :=
  List.sum_cons

section Lists

variable {weight : α → ℕ} {item? : Reader α} {close : Char}

/-- An item costs what it weighs and the character after it. -/
theorem pays_items? (h : Pays weight item?) (bound : ℕ) :
    Pays (listWeight weight) (items? item? close bound) := by
  intro text items rest hitems
  induction bound generalizing text items rest with
  | zero => cases hitems
  | succ bound ih =>
    rw [items?] at hitems
    obtain ⟨⟨item, afterItem⟩, hitem, hitems⟩ := Option.bind_eq_some_iff.mp hitems
    have hcost := h _ _ _ hitem
    dsimp only at hitems
    split at hitems
    · rename_i hskip
      have hcomma := length_lt_of_skipSpace hskip
      obtain ⟨⟨others, last⟩, hothers, hitems⟩ := Option.bind_eq_some_iff.mp hitems
      cases hitems
      have hcosts := ih _ _ _ hothers
      dsimp only
      rw [listWeight_cons]
      omega
    · rename_i hskip
      have hbracket := length_lt_of_skipSpace hskip
      split at hitems
      · cases hitems
        change weight item + 1 + rest.length ≤ text.length
        omega
      · cases hitems
    · cases hitems

theorem pays_bracketed? (h : Pays weight item?) (bound : ℕ) :
    Pays (listWeight weight) (bracketed? item? close bound) := by
  intro text items rest hitems
  unfold bracketed? at hitems
  split at hitems
  · cases hitems
  · rename_i hskip
    split at hitems
    · cases hitems
      have hbracket := length_lt_of_skipSpace hskip
      change 0 + rest.length ≤ text.length
      omega
    · exact pays_items? h bound _ _ _ hitems

end Lists

/-! ### Documents -/

mutual

/-- How many items the lists of a document have in all, those inside of objects aside. -/
def itemCount : Document → ℕ
  | .list items => itemCountOf items
  | _ => 0

def itemCountOf : List Document → ℕ
  | [] => 0
  | item :: items => item.itemCount + 1 + itemCountOf items

end

theorem itemCountOf_eq (items : List Document) :
    itemCountOf items = listWeight itemCount items := by
  induction items with
  | nil => rfl
  | cons item items ih => rw [itemCountOf, ih, listWeight_cons]

theorem shortens_member? {value? : Reader Document} (h : Shortens value?) :
    Shortens (member? value?) := by
  intro text member rest hmember
  unfold member? at hmember
  split at hmember
  · rename_i hquote
    obtain ⟨⟨key, afterKey⟩, hkey, hmember⟩ := Option.bind_eq_some_iff.mp hmember
    dsimp only at hmember
    split at hmember
    · rename_i hcolon
      obtain ⟨⟨value, afterValue⟩, hvalue, hmember⟩ := Option.bind_eq_some_iff.mp hmember
      cases hmember
      have hafterQuote := length_lt_of_skipSpace hquote
      have hafterKey := shortens_pieces? _ _ _ hkey
      have hafterColon := length_lt_of_skipSpace hcolon
      have hafterValue := h _ _ _ hvalue
      dsimp only
      omega
    · cases hmember
  · cases hmember

/-- A document costs at least a character for each item of the lists in it. -/
theorem pays_document? (bound : ℕ) : Pays itemCount (document? bound) := by
  induction bound with
  | zero => nofun
  | succ bound ih =>
    intro text document rest h
    refine Nat.le_trans ?_ (length_skipSpace_le text)
    rw [document?] at h
    generalize skipSpace text = start at h ⊢
    split at h
    case h_4 =>
      obtain ⟨⟨pieces, afterPieces⟩, hpieces, h⟩ := Option.bind_eq_some_iff.mp h
      cases h
      have hle := shortens_pieces? _ _ _ hpieces
      simp only [itemCount, List.length_cons]
      omega
    case h_5 =>
      obtain ⟨⟨items, afterItems⟩, hitems, h⟩ := Option.bind_eq_some_iff.mp h
      cases h
      have hcosts := pays_bracketed? ih bound _ _ _ hitems
      rw [itemCount, itemCountOf_eq, List.length_cons]
      omega
    case h_6 =>
      obtain ⟨⟨members, afterMembers⟩, hmembers, h⟩ := Option.bind_eq_some_iff.mp h
      cases h
      have hmember := (shortens_member? ih.shortens).pays
      have hle := (pays_bracketed? hmember bound).shortens _ _ _ hmembers
      simp only [itemCount, List.length_cons]
      omega
    case h_7 =>
      obtain ⟨⟨number, afterNumber⟩, hnumber, h⟩ := Option.bind_eq_some_iff.mp h
      cases h
      exact shortens_numeral?.pays _ _ _ hnumber
    -- the three words
    all_goals
      cases h
      simp only [itemCount, List.length_cons]
      omega

end Document

/-! ### Values -/

theorem itemCount_of_ofNumeral? {number : Number.Numeral} {value : Json}
    (h : ofNumeral? number = some value) : value.itemCount = 0 := by
  unfold ofNumeral? at h
  dsimp only at h
  split at h
  · cases h
    rfl
  · split at h
    · cases h
      rfl
    · obtain ⟨x, -, rfl⟩ := Option.map_eq_some_iff.mp h
      rfl

theorem itemCountOf_of_mapM {read : Document → Option Json} {sources : List Document}
    {items : List Json}
    (h : ∀ source ∈ sources, ∀ item, read source = some item → item.itemCount = source.itemCount)
    (hitems : sources.mapM read = some items) :
    itemCountOf items = Document.itemCountOf sources := by
  induction sources generalizing items with
  | nil =>
    cases hitems
    rfl
  | cons source sources ih =>
    rw [List.forall_mem_cons] at h
    rw [List.mapM_cons] at hitems
    obtain ⟨item, hitem, hitems⟩ := Option.bind_eq_some_iff.mp hitems
    obtain ⟨others, hothers, hitems⟩ := Option.bind_eq_some_iff.mp hitems
    cases hitems
    rw [itemCountOf, Document.itemCountOf, h.1 item hitem, ih h.2 hothers]

/-- A value has the items that its document has. -/
theorem itemCount_of_ofDocument? {limit : ℕ} {document : Document} {value : Json}
    (h : ofDocument? limit document = some value) : value.itemCount = document.itemCount := by
  cases document with
  | null =>
    rw [ofDocument?] at h
    cases h
    rfl
  | boolean value =>
    rw [ofDocument?] at h
    cases h
    rfl
  | numeral number =>
    rw [ofDocument?] at h
    exact itemCount_of_ofNumeral? h
  | quoted pieces =>
    rw [ofDocument?] at h
    obtain ⟨text, -, rfl⟩ := Option.map_eq_some_iff.mp h
    rfl
  | list items =>
    cases limit with
    | zero => cases h
    | succ limit =>
      rw [ofDocument?] at h
      obtain ⟨values, hvalues, h⟩ := Option.bind_eq_some_iff.mp h
      cases h
      exact itemCountOf_of_mapM (fun _ _ _ hvalue ↦ itemCount_of_ofDocument? hvalue) hvalues
  | object members =>
    cases limit with
    | zero => cases h
    | succ limit =>
      rw [ofDocument?] at h
      obtain ⟨members, hmembers, h⟩ := Option.bind_eq_some_iff.mp h
      cases h
      rfl

/-- A text is at least as long as the lists in it have items. -/
theorem itemCount_le_of_ofText? {text : String} {value : Json} (h : ofText? text = some value) :
    value.itemCount ≤ text.length := by
  obtain ⟨document, hdocument, hvalue⟩ := Option.bind_eq_some_iff.mp h
  obtain ⟨⟨found, rest⟩, hfound, hrest⟩ := Option.bind_eq_some_iff.mp hdocument
  dsimp only at hrest
  split at hrest
  · cases hrest
    rw [itemCount_of_ofDocument? hvalue, ← String.length_toList]
    exact Nat.le_of_add_right_le (Document.pays_document? _ _ _ _ hfound)
  · cases hrest

theorem itemCount_lt_itemCountOf {items : List Json} {item : Json} (h : item ∈ items) :
    item.itemCount < itemCountOf items := by
  induction items with
  | nil => cases h
  | cons first others ih =>
    rw [itemCountOf]
    rcases List.mem_cons.mp h with rfl | h
    · omega
    · have hlt := ih h
      omega

/-- Whatever stands inside of lists in a text has fewer items than the text has characters. -/
theorem itemCount_lt_of_mem {text : String} {items : List Json}
    (h : ofText? text = some (.list items)) {item : Json} (hitem : item ∈ items) :
    item.itemCount < text.length :=
  (itemCount_lt_itemCountOf hitem).trans_le (itemCount_le_of_ofText? h)

end SpiralMachine.Json
