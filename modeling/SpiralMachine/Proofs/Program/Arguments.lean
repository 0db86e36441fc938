import SpiralMachine.Program
import SpiralMachine.Proofs.Core.Change
import SpiralMachine.Proofs.Json.Value

/-!
# Arguments that are accepted

Every opcode reads some keys, and under each of them a value of one kind (`Opcode.keys`). What is
said of a kind here (`ArgumentKind.Admits`) does not mention how it is read. A step can be made of
an opcode and its arguments exactly if under `fork` and under each key of the opcode there is
nothing, null, or a value of its kind (`Step.ofArguments_iff`).

Natural numbers that are read from a text are below `2 ^ 64`. So of the two kinds of them only
`count` can be too large.
-/

set_option autoImplicit false

namespace SpiralMachine

/-- What an argument can be asked to be. -/
inductive ArgumentKind where
  | boolean
  | number
  | count
  | index
  | string
  | strings
  | register

namespace ArgumentKind

/-- The values of a kind. -/
def Admits : ArgumentKind → Json → Prop
  | boolean, value => ∃ truth, value = .boolean truth
  | number, value => (∃ whole, value = .integer whole) ∨ ∃ x, value = .real x
  | count, value => ∃ n : ℕ, n < 2 ^ 32 ∧ value = .integer n
  | index, value => ∃ n : ℕ, n < 2 ^ 64 ∧ value = .integer n
  | string, value => ∃ text, value = .string text
  | strings, value =>
    (∃ text, value = .string text) ∨ ∃ texts : List String, value = .list (texts.map .string)
  | register, value =>
    ∃ text, value = .string text ∧ Text.raiseAscii (Text.trim text) ∈ ["A", "B", "C", "D"]

/-- Under the key there is nothing, null, or a value of the kind. -/
def AllowedIn (kind : ArgumentKind) (members : Json.Members) (key : String) : Prop :=
  ∀ value, members.lookup key = some value → value = .null ∨ kind.Admits value

end ArgumentKind

/-- The keys that an opcode reads, and the kinds of what stands under them. -/
def Opcode.keys : Opcode → List (String × ArgumentKind)
  | init => [("mesh", .boolean)]
  | mesh => [("id", .string), ("connect", .strings)]
  | phi => [("register", .register)]
  | rot => [("register", .register)]
  | bound => [("register", .register), ("min", .number), ("max", .number)]
  | flow => [("from", .string), ("to", .string)]
  | seek => [("node", .string), ("register", .register)]
  | spiral => [("increment", .count), ("register", .register)]
  | cycle => [("count", .count), ("start", .index), ("end", .index)]
  | forge => [("id", .string), ("connect", .strings)]
  | sync => [("local", .number), ("remote", .number)]
  | mask => [("node", .string), ("register", .register)]
  | cryst => [("node", .string)]
  | spec => []
  | bloom => []
  | save => [("path", .string)]

/-- Every key that the opcode reads has an argument that is allowed there, and so has the mark of a
fork. -/
def Opcode.Accepts (op : Opcode) (members : Json.Members) : Prop :=
  ∀ entry ∈ ("fork", ArgumentKind.boolean) :: op.keys, entry.2.AllowedIn members entry.1

/-- The members of an object that was read. -/
def Json.Members.Readable (members : Json.Members) : Prop :=
  ∃ limit, ∀ member ∈ members, Json.Readable limit member.2

/-- The whole numbers among the members are below `2 ^ 64`. -/
def Json.Members.InRange (members : Json.Members) : Prop :=
  ∀ (key : String) (n : ℕ), members.lookup key = some (.integer n) → n < 2 ^ 64

theorem Json.Members.Readable.inRange {members : Json.Members} (h : members.Readable) :
    members.InRange := by
  intro key n hlookup
  obtain ⟨limit, hreadable⟩ := h
  have hinteger := hreadable (key, .integer n) (Keyed.mem_of_lookup hlookup)
  rw [Json.Readable] at hinteger
  omega

namespace Instruction.Arguments

variable {args : Arguments} {key : String}

/-! ### What each reader takes -/

section Readers

variable {value : Json}

theorem readBoolean_iff :
    (∃ result, readBoolean value = .ok result) ↔ ArgumentKind.boolean.Admits value := by
  cases value <;> simp [readBoolean, expect, Json.boolean?, ArgumentKind.Admits]

theorem readFloat_iff :
    (∃ result, readFloat value = .ok result) ↔ ArgumentKind.number.Admits value := by
  cases value <;> simp [readFloat, expect, Json.float?, ArgumentKind.Admits]

theorem readString_iff :
    (∃ result, readString value = .ok result) ↔ ArgumentKind.string.Admits value := by
  cases value <;> simp [readString, expect, Json.string?, ArgumentKind.Admits]

theorem readNatural_eq_ok_iff {n : ℕ} : readNatural value = .ok n ↔ value = .integer n := by
  cases value with
  | integer whole =>
    cases whole <;> simp [readNatural, expect, Json.natural?]
  | _ => simp [readNatural, expect, Json.natural?]

theorem readNatural_iff (hrange : ∀ n : ℕ, value = .integer n → n < 2 ^ 64) :
    (∃ result, readNatural value = .ok result) ↔ ArgumentKind.index.Admits value := by
  simp only [readNatural_eq_ok_iff, ArgumentKind.Admits]
  exact exists_congr fun n ↦ ⟨fun h ↦ ⟨hrange n h, h⟩, fun h ↦ h.2⟩

theorem readCount_iff :
    (∃ result, readCount value = .ok result) ↔ ArgumentKind.count.Admits value := by
  unfold readCount
  rw [Except.exists_bind_iff]
  simp only [readNatural_eq_ok_iff, ArgumentKind.Admits]
  refine exists_congr fun n ↦ ?_
  rw [and_comm (b := value = _)]
  refine and_congr_right fun _ ↦ ?_
  split
  · rename_i hsize
    exact iff_of_true ⟨_, rfl⟩ hsize
  · rename_i hsize
    exact iff_of_false nofun hsize

theorem string?_eq_some_iff {text : String} : value.string? = some text ↔ value = .string text := by
  cases value <;> simp [Json.string?]

/-- Items that are all strings. -/
theorem mapM_string?_eq_some_iff {items : List Json} {texts : List String} :
    items.mapM Json.string? = some texts ↔ items = texts.map .string := by
  refine ⟨fun h ↦ ?_, fun h ↦ h ▸ Json.mapM_map_eq fun text _ ↦ rfl⟩
  induction items generalizing texts with
  | nil => cases h; rfl
  | cons item rest ih =>
    rw [List.mapM_cons] at h
    obtain ⟨text, htext, h⟩ := Option.bind_eq_some_iff.mp h
    obtain ⟨others, hothers, h⟩ := Option.bind_eq_some_iff.mp h
    cases h
    rw [string?_eq_some_iff.mp htext, ih hothers]
    rfl

theorem expect_eq_ok_iff {α : Type} {flaw : ArgumentFlaw} {found : Option α} {result : α} :
    expect flaw found = .ok result ↔ found = some result := by
  cases found <;> simp [expect]

theorem readStrings_iff :
    (∃ result, readStrings value = .ok result) ↔ ArgumentKind.strings.Admits value := by
  cases value with
  | list items =>
    simp only [readStrings, expect_eq_ok_iff, mapM_string?_eq_some_iff, ArgumentKind.Admits,
      Json.list.injEq, reduceCtorEq, exists_false, false_or]
  | _ => simp [readStrings, ArgumentKind.Admits]

theorem readRegister_iff :
    (∃ result, readRegister value = .ok result) ↔ ArgumentKind.register.Admits value := by
  unfold readRegister readString
  rw [Except.exists_bind_iff]
  simp only [expect_eq_ok_iff, string?_eq_some_iff, ArgumentKind.Admits]
  refine exists_congr fun text ↦ and_congr_right fun _ ↦ ?_
  rw [← Option.ne_none_iff_exists', Ne, Register.ofName?_eq_none_iff, not_not]

end Readers

/-! ### What is read under a key -/

theorem value?_eq_some_iff {value : Json} :
    args.value? key = some value ↔ args.members.lookup key = some value ∧ value ≠ .null := by
  rw [value?, Option.filter_eq_some_iff]
  cases value <;> simp [Json.isNull]

/-- An argument is read if it is allowed, where the reader takes the values of the kind. -/
theorem get_iff {α : Type} {read : Json → Except ArgumentFlaw α} {kind : ArgumentKind}
    (hread : ∀ value, args.members.lookup key = some value →
      ((∃ result, read value = .ok result) ↔ kind.Admits value)) :
    (∃ result, args.get key read = .ok result) ↔ kind.AllowedIn args.members key := by
  unfold get
  cases hvalue : args.value? key with
  | none =>
    refine iff_of_true ⟨none, rfl⟩ fun value hlookup ↦ .inl ?_
    by_contra hnull
    rw [value?_eq_some_iff.mpr ⟨hlookup, hnull⟩] at hvalue
    cases hvalue
  | some value =>
    obtain ⟨hlookup, hnull⟩ := value?_eq_some_iff.mp hvalue
    have hallowed : kind.AllowedIn args.members key ↔ kind.Admits value := by
      simp [ArgumentKind.AllowedIn, hlookup, hnull]
    rw [hallowed, ← hread value hlookup]
    dsimp only
    cases read value with
    | ok result => exact iff_of_true ⟨some result, rfl⟩ ⟨result, rfl⟩
    | error flaw => exact iff_of_false nofun nofun

theorem boolean_iff (default : Bool) :
    (∃ result, args.boolean key default = .ok result) ↔
      ArgumentKind.boolean.AllowedIn args.members key :=
  Except.exists_map_iff.trans (get_iff fun _ _ ↦ readBoolean_iff)

theorem float_iff (default : Float) :
    (∃ result, args.float key default = .ok result) ↔
      ArgumentKind.number.AllowedIn args.members key :=
  Except.exists_map_iff.trans (get_iff fun _ _ ↦ readFloat_iff)

theorem count_iff (default : UInt32) :
    (∃ result, args.count key default = .ok result) ↔
      ArgumentKind.count.AllowedIn args.members key :=
  Except.exists_map_iff.trans (get_iff fun _ _ ↦ readCount_iff)

theorem string?_iff :
    (∃ result, args.string? key = .ok result) ↔
      ArgumentKind.string.AllowedIn args.members key :=
  get_iff fun _ _ ↦ readString_iff

theorem strings?_iff :
    (∃ result, args.strings? key = .ok result) ↔
      ArgumentKind.strings.AllowedIn args.members key :=
  get_iff fun _ _ ↦ readStrings_iff

theorem register_iff :
    (∃ result, args.register = .ok result) ↔
      ArgumentKind.register.AllowedIn args.members "register" :=
  Except.exists_map_iff.trans (get_iff fun _ _ ↦ readRegister_iff)

theorem natural_iff (h : args.members.InRange) (default : ℕ) :
    (∃ result, args.natural key default = .ok result) ↔
      ArgumentKind.index.AllowedIn args.members key :=
  Except.exists_map_iff.trans
    (get_iff fun _ hvalue ↦ readNatural_iff fun n hn ↦ h key n (hn ▸ hvalue))

end Instruction.Arguments

/-- The instruction of an opcode is read if the keys of the opcode have arguments that are allowed
there. -/
theorem Instruction.ofArguments_iff (op : Opcode) {members : Json.Members}
    (h : members.Readable) :
    (∃ instruction, ofArguments op members = .ok instruction) ↔
      ∀ entry ∈ op.keys, entry.2.AllowedIn members entry.1 := by
  have hnatural (key : String) (default : ℕ) :
      (∃ result, (Arguments.mk op members).natural key default = .ok result) ↔
        ArgumentKind.index.AllowedIn members key :=
    Arguments.natural_iff h.inRange default
  cases op with
  | spec => exact iff_of_true ⟨.spec, rfl⟩ nofun
  | bloom => exact iff_of_true ⟨.bloom, rfl⟩ nofun
  | _ =>
    -- one argument after the other: what is read of the first has no say in the next
    simp only [ofArguments, Opcode.keys, bind_pure_comp, Except.exists_bind_iff,
      Except.exists_map_iff, exists_and_right, Arguments.boolean_iff, Arguments.float_iff,
      Arguments.count_iff, Arguments.string?_iff, Arguments.strings?_iff, Arguments.register_iff,
      hnatural, List.forall_mem_cons, List.not_mem_nil, IsEmpty.forall_iff, implies_true, and_true]

/-- A step is read if the opcode accepts its arguments. -/
theorem Step.ofArguments_iff (op : Opcode) {members : Json.Members} (h : members.Readable) :
    (∃ step, ofArguments op members = .ok step) ↔ op.Accepts members := by
  unfold ofArguments Opcode.Accepts
  simp only [bind_pure_comp, Except.exists_bind_iff, Except.exists_map_iff, exists_and_right,
    Instruction.Arguments.boolean_iff, Instruction.ofArguments_iff op h, List.forall_mem_cons]

end SpiralMachine
