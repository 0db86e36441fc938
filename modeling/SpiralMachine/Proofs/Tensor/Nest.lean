import Mathlib.Algebra.Group.Nat.Defs
import Mathlib.Tactic.Common
import SpiralMachine.Proofs.Attempt
import SpiralMachine.Tensor.Basic

/-!
# Nests that are tensors

A tensor is read from the nests that are rectangular, and from no others (`ofJson_rectangular`). The
walk over a nest is open at first: it has passed lists that have items, and no number. The first
item of each list settles the shape that is left, down to the numbers or to an empty list
(`visit_opened`). Whatever comes later at a depth must have the shape that was seen there first
(`visit_settled`).
-/

set_option autoImplicit false

namespace SpiralMachine

/-! ### Rectangular nests -/

namespace Json

/-- Induction over values that goes from the items of a list to the list. -/
theorem nest_induction {motive : Json → Prop} (null : motive null)
    (boolean : ∀ value, motive (boolean value)) (integer : ∀ value, motive (integer value))
    (real : ∀ value, motive (real value)) (string : ∀ value, motive (string value))
    (list : ∀ items, (∀ item ∈ items, motive item) → motive (list items))
    (object : ∀ members, motive (object members)) : ∀ value, motive value
  | .null => null
  | .boolean value => boolean value
  | .integer value => integer value
  | .real value => real value
  | .string value => string value
  | .list items => list items fun item _ ↦
    nest_induction null boolean integer real string list object item
  | .object members => object members

/-- A number has no axes, and a list has one more than each of its items. An empty list is the last
axis. -/
inductive Rectangular : List ℕ → Json → Prop
  | integer (value : ℤ) : Rectangular [] (.integer value)
  | real (value : Float) : Rectangular [] (.real value)
  | empty : Rectangular [0] (.list [])
  | list {shape : List ℕ} {items : List Json} (hitems : items ≠ [])
      (h : ∀ item ∈ items, Rectangular shape item) :
      Rectangular (items.length :: shape) (.list items)

mutual

/-- The numbers of a nest from left to right. -/
def numbers : Json → List Float
  | .list items => numbersOf items
  | .integer value => [Float.ofInt value]
  | .real value => [value]
  | _ => []

def numbersOf : List Json → List Float
  | [] => []
  | item :: items => item.numbers ++ numbersOf items

end

mutual

/-- How many items the lists of a nest have in all, those inside of objects aside. -/
def itemCount : Json → ℕ
  | .list items => itemCountOf items
  | _ => 0

def itemCountOf : List Json → ℕ
  | [] => 0
  | item :: items => item.itemCount + 1 + itemCountOf items

end

theorem rectangular_integer_iff {shape : List ℕ} {value : ℤ} :
    Rectangular shape (.integer value) ↔ shape = [] :=
  ⟨fun h ↦ by cases h; rfl, fun h ↦ h ▸ .integer value⟩

theorem rectangular_real_iff {shape : List ℕ} {value : Float} :
    Rectangular shape (.real value) ↔ shape = [] :=
  ⟨fun h ↦ by cases h; rfl, fun h ↦ h ▸ .real value⟩

theorem rectangular_nil_iff {shape : List ℕ} : Rectangular shape (.list []) ↔ shape = [0] := by
  constructor
  · rintro (_ | _ | _ | ⟨hitems, _⟩)
    · rfl
    · exact absurd rfl hitems
  · rintro rfl
    exact .empty

theorem rectangular_cons_iff {shape : List ℕ} {item : Json} {items : List Json} :
    Rectangular shape (.list (item :: items)) ↔
      ∃ rest, shape = (item :: items).length :: rest ∧
        ∀ other ∈ item :: items, Rectangular rest other := by
  constructor
  · rintro (_ | _ | _ | ⟨_, h⟩)
    exact ⟨_, rfl, h⟩
  · rintro ⟨rest, rfl, h⟩
    exact .list (List.cons_ne_nil _ _) h

/-- No axis is inside an empty one, and what is inside another one is the shape of some item. -/
theorem Rectangular.inside {length : ℕ} {rest : List ℕ} {value : Json}
    (h : Rectangular (length :: rest) value) :
    length = 0 ∧ rest = [] ∨ 0 < length ∧ ∃ item, Rectangular rest item := by
  rcases h with _ | _ | _ | ⟨hne, h⟩
  · exact .inl ⟨rfl, rfl⟩
  · exact .inr ⟨List.length_pos_iff.mpr hne, _, h _ (List.head_mem hne)⟩

theorem length_numbersOf {items : List Json} {count : ℕ}
    (h : ∀ item ∈ items, item.numbers.length = count) :
    (numbersOf items).length = items.length * count := by
  induction items with
  | nil => simp [numbersOf]
  | cons item items ih =>
    rw [List.forall_mem_cons] at h
    rw [numbersOf, List.length_append, h.1, ih h.2, List.length_cons, Nat.succ_mul, Nat.add_comm]

/-- The numbers of a rectangular nest are as many as its shape has places. -/
theorem Rectangular.length_numbers {shape : List ℕ} {value : Json} (h : Rectangular shape value) :
    value.numbers.length = shape.foldr (· * ·) 1 := by
  induction h with
  | integer value => rfl
  | real value => rfl
  | empty => rfl
  | list _ _ ih => exact length_numbersOf ih

/-- An item counts even if nothing is in it. -/
theorem length_mul_le_itemCountOf {items : List Json} {count : ℕ}
    (h : ∀ item ∈ items, count ≤ max 1 item.itemCount) :
    items.length * count ≤ itemCountOf items := by
  induction items with
  | nil => simp [itemCountOf]
  | cons item items ih =>
    rw [List.forall_mem_cons] at h
    have hfirst := h.1
    have hothers := ih h.2
    rw [itemCountOf, List.length_cons, Nat.succ_mul]
    omega

/-- A rectangular nest spans no more places than it has items, empty axes aside. -/
theorem Rectangular.places_le {shape : List ℕ} {value : Json} (h : Rectangular shape value) :
    (shape.filter (· ≠ 0)).foldr (· * ·) 1 ≤ max 1 value.itemCount := by
  induction h with
  | integer value => exact Nat.le_max_left ..
  | real value => exact Nat.le_max_left ..
  | empty => exact Nat.le_max_left ..
  | list hne _ ih =>
    rw [List.filter_cons_of_pos (by simpa using hne)]
    exact Nat.le_trans (length_mul_le_itemCountOf ih) (Nat.le_max_right ..)

end Json

/-- What is wrong with a nest itself: something in it is out of place, or neither a list nor a
number. -/
inductive TensorFlaw.OfNest : TensorFlaw → Prop
  | ragged (depth : ℕ) : OfNest (.ragged depth)
  | notNumeric {leaf : Json} (hlist : ∀ items, leaf ≠ .list items) (hnumber : leaf.float? = none) :
    OfNest (.notNumeric leaf)

/-! ### The walk over a nest -/

namespace Tensor.Walk

open Json

/-- Inside lists that have items, none of which holds a number yet. -/
def opened (shape : List ℕ) : Walk := ⟨shape, none, #[]⟩

/-- The shape is known, down to the numbers or to an empty list. -/
def settled (shape : List ℕ) (values : List Float) : Walk :=
  ⟨shape, if 0 ∈ shape then none else some shape.length, values.toArray⟩

variable {outer inner : List ℕ} {values : List Float} {walk : Walk}

theorem enter_opened (outer : List ℕ) (length : ℕ) :
    (opened outer).enter outer.length length = .ok (opened (outer ++ [length])) := by
  simp [enter, opened]

theorem meet_opened (houter : 0 ∉ outer) (value : Float) :
    (opened outer).meet outer.length value = .ok (settled outer [value]) := by
  simp [meet, opened, settled, houter]

/-- A list is entered only where one of the same length stood. -/
theorem enter_settled_eq_ok (houter : 0 ∉ outer) {length : ℕ} {next : Walk} :
    (settled (outer ++ inner) values).enter outer.length length = .ok next ↔
      inner.head? = some length ∧ next = settled (outer ++ inner) values := by
  cases inner with
  | nil => simp [enter, settled, houter]
  | cons known inner =>
    have hrank :
        (settled (outer ++ known :: inner) values).rank.any (· ≤ outer.length) = false := by
      dsimp only [settled]
      split_ifs <;> simp
    have hknown : (settled (outer ++ known :: inner) values).shape[outer.length]? = some known := by
      simp [settled]
    rw [enter, hrank, hknown]
    by_cases hlength : known = length <;> simp [hlength, eq_comm (a := next)]

/-- A number is met only where one stood. -/
theorem meet_settled_eq_ok (houter : 0 ∉ outer) {value : Float} {next : Walk} :
    (settled (outer ++ inner) values).meet outer.length value = .ok next ↔
      inner = [] ∧ next = settled (outer ++ inner) (values ++ [value]) := by
  cases inner with
  | nil => simp [meet, settled, houter, eq_comm]
  | cons known inner =>
    by_cases hzero : 0 ∈ outer ++ known :: inner <;> simp [meet, settled, hzero]

theorem visit_list_eq_ok {depth : ℕ} {items : List Json} {last : Walk} :
    walk.visit depth (.list items) = .ok last ↔
      ∃ next, walk.enter depth items.length = .ok next ∧
        next.visitItems (depth + 1) items = .ok last := by
  rw [visit]
  exact Except.bind_eq_ok_iff

theorem visitItems_cons_eq_ok {depth : ℕ} {item : Json} {items : List Json} {last : Walk} :
    walk.visitItems depth (item :: items) = .ok last ↔
      ∃ next, walk.visit depth item = .ok next ∧ next.visitItems depth items = .ok last := by
  rw [visitItems]
  exact Except.bind_eq_ok_iff

/-- Items are passed if each of them is, and leave their numbers in turn. -/
theorem visitItems_eq_ok {shape : List ℕ} {depth : ℕ} {Fits : Json → Prop} {items : List Json}
    (h : ∀ item ∈ items, ∀ values last, (settled shape values).visit depth item = .ok last ↔
      Fits item ∧ last = settled shape (values ++ item.numbers)) (values : List Float)
    (last : Walk) :
    (settled shape values).visitItems depth items = .ok last ↔
      (∀ item ∈ items, Fits item) ∧ last = settled shape (values ++ numbersOf items) := by
  induction items generalizing values with
  | nil => simp [visitItems, numbersOf, eq_comm]
  | cons item items ih =>
    rw [List.forall_mem_cons] at h
    simp only [visitItems_cons_eq_ok, h.1, List.forall_mem_cons, numbersOf]
    constructor
    · rintro ⟨next, ⟨hitem, rfl⟩, hnext⟩
      obtain ⟨hitems, rfl⟩ := (ih h.2 _).mp hnext
      exact ⟨⟨hitem, hitems⟩, by rw [List.append_assoc]⟩
    · rintro ⟨⟨hitem, hitems⟩, rfl⟩
      exact ⟨_, ⟨hitem, rfl⟩, (ih h.2 _).mpr ⟨hitems, by rw [List.append_assoc]⟩⟩

/-- Where the shape is known from another nest at the same depth, the nests that have it are
passed. -/
theorem visit_settled (houter : 0 ∉ outer) {seen : Json} (hseen : Rectangular inner seen)
    (value : Json) (values : List Float) (last : Walk) :
    (settled (outer ++ inner) values).visit outer.length value = .ok last ↔
      Rectangular inner value ∧ last = settled (outer ++ inner) (values ++ value.numbers) := by
  induction value using nest_induction generalizing outer inner seen values last with
  | integer value =>
    rw [visit, meet_settled_eq_ok houter, rectangular_integer_iff, numbers]
  | real value =>
    rw [visit, meet_settled_eq_ok houter, rectangular_real_iff, numbers]
  | list items ih =>
    have hinside (rest : List ℕ) (hinner : inner = items.length :: rest) :
        (settled (outer ++ inner) values).visitItems (outer.length + 1) items = .ok last ↔
          Rectangular inner (.list items) ∧
            last = settled (outer ++ inner) (values ++ numbersOf items) := by
      subst hinner
      cases items with
      | nil =>
        obtain ⟨-, rfl⟩ | ⟨hlength, -⟩ := hseen.inside
        · simp [visitItems, numbersOf, Rectangular.empty, eq_comm]
        · cases hlength
      | cons item items =>
        obtain ⟨hlength, -⟩ | ⟨-, other, hother⟩ := hseen.inside
        · cases hlength
        · have hlonger : 0 ∉ outer ++ [(item :: items).length] := by simp [houter]
          have hsettled := visitItems_eq_ok (fun item hitem values last ↦
            ih item hitem hlonger hother values last) values last
          rw [List.length_append, List.append_assoc] at hsettled
          refine hsettled.trans ?_
          simp [rectangular_cons_iff]
    rw [visit_list_eq_ok]
    simp only [enter_settled_eq_ok houter]
    constructor
    · rintro ⟨next, ⟨hhead, rfl⟩, hitems⟩
      obtain ⟨rest, hinner⟩ := List.head?_eq_some_iff.mp hhead
      exact (hinside rest hinner).mp hitems
    · intro h
      have hhead : inner.head? = some items.length := by
        rcases h.1 with _ | _ | _ | _ <;> rfl
      obtain ⟨rest, hinner⟩ := List.head?_eq_some_iff.mp hhead
      exact ⟨_, ⟨hhead, rfl⟩, (hinside rest hinner).mpr h⟩
  | _ =>
    constructor
    · nofun
    · rintro ⟨⟨⟩, _⟩

theorem visitItems_settled (houter : 0 ∉ outer) {seen : Json} (hseen : Rectangular inner seen)
    (items : List Json) (values : List Float) (last : Walk) :
    (settled (outer ++ inner) values).visitItems outer.length items = .ok last ↔
      (∀ item ∈ items, Rectangular inner item) ∧
        last = settled (outer ++ inner) (values ++ numbersOf items) :=
  visitItems_eq_ok (fun item _ ↦ visit_settled houter hseen item) values last

/-- The first nest at a depth is passed if it is rectangular, and settles the shape. -/
theorem visit_opened (houter : 0 ∉ outer) (value : Json) (last : Walk) :
    (opened outer).visit outer.length value = .ok last ↔
      ∃ inner, Rectangular inner value ∧ last = settled (outer ++ inner) value.numbers := by
  induction value using nest_induction generalizing outer last with
  | integer value =>
    rw [visit, meet_opened houter]
    simp [rectangular_integer_iff, numbers, eq_comm]
  | real value =>
    rw [visit, meet_opened houter]
    simp [rectangular_real_iff, numbers, eq_comm]
  | list items ih =>
    rw [visit_list_eq_ok, enter_opened]
    simp only [Except.ok.injEq, exists_eq_left']
    cases items with
    | nil =>
      simp [visitItems, rectangular_nil_iff, numbers, numbersOf, settled, opened, eq_comm]
    | cons item items =>
      have hlonger : 0 ∉ outer ++ [(item :: items).length] := by simp [houter]
      have hfirst (next : Walk) := ih item List.mem_cons_self hlonger next
      have hdepth : outer.length + 1 = (outer ++ [(item :: items).length]).length := by simp
      rw [hdepth, visitItems_cons_eq_ok]
      simp only [hfirst, rectangular_cons_iff, List.forall_mem_cons]
      constructor
      · rintro ⟨_, ⟨inner, hinner, rfl⟩, hitems⟩
        obtain ⟨hothers, rfl⟩ := (visitItems_settled hlonger hinner items _ last).mp hitems
        exact ⟨_, ⟨inner, rfl, hinner, hothers⟩, by simp [numbers, numbersOf]⟩
      · rintro ⟨_, ⟨inner, rfl, hinner, hothers⟩, rfl⟩
        refine ⟨_, ⟨inner, hinner, rfl⟩, (visitItems_settled hlonger hinner items _ _).mpr ?_⟩
        exact ⟨hothers, by simp [numbers, numbersOf]⟩
  | _ =>
    constructor
    · nofun
    · rintro ⟨_, ⟨⟩, _⟩

/-! ### Refusals -/

theorem enter_error {depth length : ℕ} {flaw : TensorFlaw}
    (h : walk.enter depth length = .error flaw) : flaw.OfNest := by
  unfold enter at h
  split_ifs at h
  · cases h
    exact .ragged depth
  · split at h
    · cases h
    · split_ifs at h
      cases h
      exact .ragged depth

theorem meet_error {depth : ℕ} {value : Float} {flaw : TensorFlaw}
    (h : walk.meet depth value = .error flaw) : flaw.OfNest := by
  unfold meet at h
  split_ifs at h
  cases h
  exact .ragged depth

theorem visitItems_error {depth : ℕ} {items : List Json}
    (h : ∀ item ∈ items, ∀ (walk : Walk) flaw, walk.visit depth item = .error flaw → flaw.OfNest)
    {flaw : TensorFlaw} (hflaw : walk.visitItems depth items = .error flaw) : flaw.OfNest := by
  induction items generalizing walk with
  | nil => cases hflaw
  | cons item items ih =>
    rw [List.forall_mem_cons] at h
    rw [visitItems] at hflaw
    rcases Except.error_of_bind hflaw with hitem | ⟨next, -, hitems⟩
    · exact h.1 walk flaw hitem
    · exact ih h.2 hitems

theorem visit_error {depth : ℕ} {value : Json} {flaw : TensorFlaw}
    (h : walk.visit depth value = .error flaw) : flaw.OfNest := by
  induction value using nest_induction generalizing walk depth flaw with
  | integer value => exact meet_error h
  | real value => exact meet_error h
  | list items ih =>
    rw [visit] at h
    rcases Except.error_of_bind h with henter | ⟨next, -, hitems⟩
    · exact enter_error henter
    · exact visitItems_error (fun item hitem _ _ hflaw ↦ ih item hitem hflaw) hitems
  | _ =>
    cases h
    exact .notNumeric nofun rfl

end Tensor.Walk

namespace Tensor

open Json

theorem start_visit_eq_ok {value : Json} {walk : Walk} :
    Walk.start.visit 0 value = .ok walk ↔
      ∃ shape, Rectangular shape value ∧ walk = Walk.settled shape value.numbers :=
  Walk.visit_opened List.not_mem_nil value walk

/-- The numbers of a rectangular nest fit its shape. -/
theorem ofShape_numbers {shape : List ℕ} {value : Json} (h : Rectangular shape value)
    (hcount : value.itemCount < 2 ^ 63) :
    ofShape shape value.numbers = .ok ⟨shape, value.numbers⟩ := by
  have hlimit : max 1 value.itemCount ≤ placeLimit := by
    change max 1 value.itemCount ≤ 2 ^ 63 - 1
    omega
  exact if_pos ⟨Nat.le_trans h.places_le hlimit, h.length_numbers⟩

/-- Where a nest has been walked over, what was found fits. -/
theorem ofShape_visited {value : Json} (hcount : value.itemCount < 2 ^ 63) {walk : Walk}
    (h : Walk.start.visit 0 value = .ok walk) :
    ofShape walk.shape walk.values.toList = .ok ⟨walk.shape, walk.values.toList⟩ := by
  obtain ⟨shape, hshape, rfl⟩ := start_visit_eq_ok.mp h
  exact ofShape_numbers hshape hcount

theorem ofJson_eq_ok {value : Json} (hcount : value.itemCount < 2 ^ 63) {tensor : Tensor} :
    ofJson value = .ok tensor ↔
      ∃ shape, Rectangular shape value ∧ tensor = ⟨shape, value.numbers⟩ := by
  rw [ofJson, Except.bind_eq_ok_iff]
  constructor
  · rintro ⟨walk, hwalk, h⟩
    cases (ofShape_visited hcount hwalk).symm.trans h
    obtain ⟨shape, hshape, rfl⟩ := start_visit_eq_ok.mp hwalk
    exact ⟨shape, hshape, rfl⟩
  · rintro ⟨shape, hshape, rfl⟩
    exact ⟨_, start_visit_eq_ok.mpr ⟨shape, hshape, rfl⟩, ofShape_numbers hshape hcount⟩

theorem ofJson_error {value : Json} (hcount : value.itemCount < 2 ^ 63) {flaw : TensorFlaw}
    (h : ofJson value = .error flaw) : flaw.OfNest := by
  rw [ofJson] at h
  rcases Except.error_of_bind h with hvisit | ⟨walk, hwalk, h⟩
  · exact Walk.visit_error hvisit
  · cases (ofShape_visited hcount hwalk).symm.trans h

/-- Of the nests with fewer items than 2⁶³ those that are rectangular are read as tensors. Their
shape is that of the nest and their elements are its numbers from left to right, as many as the
shape has places. All others are refused for what stands in them: once a nest has been walked over,
the numbers fit the shape. -/
theorem ofJson_rectangular (value : Json) (h : value.itemCount < 2 ^ 63) :
    (∀ shape data, ofJson value = .ok ⟨shape, data⟩ ↔
      Rectangular shape value ∧ data = value.numbers) ∧
    (∀ shape, Rectangular shape value → value.numbers.length = shape.foldr (· * ·) 1) ∧
    ((∀ shape, ¬Rectangular shape value) → ∃ flaw, ofJson value = .error flaw ∧ flaw.OfNest) ∧
    ∀ walk, Walk.start.visit 0 value = .ok walk →
      ofShape walk.shape walk.values.toList = .ok ⟨walk.shape, walk.values.toList⟩ := by
  refine ⟨fun shape data ↦ ?_, fun shape hshape ↦ hshape.length_numbers, fun hnone ↦ ?_,
    fun walk hwalk ↦ ofShape_visited h hwalk⟩
  · rw [ofJson_eq_ok h]
    constructor
    · rintro ⟨shape, hshape, hread⟩
      cases hread
      exact ⟨hshape, rfl⟩
    · rintro ⟨hshape, rfl⟩
      exact ⟨shape, hshape, rfl⟩
  · cases hread : ofJson value with
    | error flaw => exact ⟨flaw, rfl, ofJson_error h hread⟩
    | ok tensor =>
      obtain ⟨shape, hshape, -⟩ := (ofJson_eq_ok h).mp hread
      exact absurd hshape (hnone shape)

/-- Rows of numbers are read row by row, rows that hold nothing but an empty list have three axes,
and an empty row has no shape in common with one that has a number in it. -/
theorem ofJson_of_rows :
    let filled := Json.list [.list [.integer 1, .real 2.5], .list [.real 3.5, .integer 4]]
    let empty := Json.list [.list [.list []], .list [.list []]]
    let ragged := Json.list [.list [], .list [.integer 1]]
    filled.itemCount < 2 ^ 63 ∧ empty.itemCount < 2 ^ 63 ∧ ragged.itemCount < 2 ^ 63 ∧
      ofJson filled = .ok ⟨[2, 2], [Float.ofInt 1, 2.5, 3.5, Float.ofInt 4]⟩ ∧
      ofJson empty = .ok ⟨[2, 1, 0], []⟩ ∧
      ∃ flaw, ofJson ragged = .error flaw := by
  intro filled empty ragged
  have hfilled : filled.itemCount < 2 ^ 63 := by decide
  have hempty : empty.itemCount < 2 ^ 63 := by decide
  have hragged : ragged.itemCount < 2 ^ 63 := by decide
  have hpair {shape : List ℕ} {first second : Json} (hfirst : Rectangular shape first)
      (hsecond : Rectangular shape second) : Rectangular (2 :: shape) (.list [first, second]) :=
    rectangular_cons_iff.mpr ⟨shape, rfl, by simp [hfirst, hsecond]⟩
  have hrow : Rectangular [1, 0] (.list [.list []]) :=
    rectangular_cons_iff.mpr ⟨[0], rfl, by simp [Rectangular.empty]⟩
  have hnone (shape : List ℕ) : ¬Rectangular shape ragged := by
    intro h
    obtain ⟨rest, -, hitems⟩ := rectangular_cons_iff.mp h
    cases rectangular_nil_iff.mp (hitems _ List.mem_cons_self)
    obtain ⟨_, hlength, -⟩ := rectangular_cons_iff.mp (hitems (.list [.integer 1]) (by simp))
    cases hlength
  obtain ⟨hread, -⟩ := ofJson_rectangular filled hfilled
  obtain ⟨hreadEmpty, -⟩ := ofJson_rectangular empty hempty
  obtain ⟨-, -, hrefused, -⟩ := ofJson_rectangular ragged hragged
  obtain ⟨flaw, hflaw, -⟩ := hrefused hnone
  refine ⟨hfilled, hempty, hragged, (hread _ _).mpr ⟨?_, rfl⟩,
    (hreadEmpty _ _).mpr ⟨hpair hrow hrow, rfl⟩, flaw, hflaw⟩
  exact hpair (hpair (.integer 1) (.real 2.5)) (hpair (.real 3.5) (.integer 4))

end Tensor

end SpiralMachine
