import SpiralMachine.Proofs.Json.Size
import SpiralMachine.Proofs.Program.Grammar
import SpiralMachine.Stack.Instruction

/-!
# The grammar of stack programs

An entry of the grammar is a list of one or two items, a mnemonic and for PUSH the value that is
pushed (`StackInstruction.Written`). An entry may also have further items, which nobody looks at: it
is read like the list of its first two (`ofEntry_cut`). Up to that, what is read is what is written
in the grammar (`ofEntry_eq_ok_iff`), and an entry that is not is refused for one of five causes
(`StackInstruction.Refused`).

The entries are read in order, each by itself. So a program has one instruction for each entry,
and where not all entries are written in the grammar, the first that is not decides the error
(`parseProgram_grammar`).
-/

set_option autoImplicit false

namespace SpiralMachine

/-! ### Values -/

namespace StackValue

/-- A number is a scalar, and a rectangular nest of numbers a tensor. -/
inductive Denoted : Json → StackValue → Prop
  | integer (value : ℤ) : Denoted (.integer value) (.scalar (Float.ofInt value))
  | real (value : Float) : Denoted (.real value) (.scalar value)
  | nest {shape : List ℕ} {items : List Json} (h : Json.Rectangular shape (.list items)) :
    Denoted (.list items) (.tensor ⟨shape, (Json.list items).numbers⟩)

theorem ofJson_eq_ok_iff {value : Json} (hcount : value.itemCount < 2 ^ 63) {pushed : StackValue} :
    ofJson value = .ok pushed ↔ Denoted value pushed := by
  cases value with
  | integer number =>
    refine ⟨fun h ↦ ?_, fun h ↦ ?_⟩
    · cases h
      exact .integer number
    · cases h
      rfl
  | real number =>
    refine ⟨fun h ↦ ?_, fun h ↦ ?_⟩
    · cases h
      exact .real number
    · cases h
      rfl
  | list items =>
    rw [ofJson, Except.mapError_eq_ok_iff]
    refine ⟨fun h ↦ ?_, fun h ↦ ?_⟩
    · cases htensor : Tensor.ofJson (.list items) with
      | error flaw =>
        rw [htensor] at h
        cases h
      | ok tensor =>
        rw [htensor] at h
        cases h
        obtain ⟨shape, hshape, rfl⟩ := (Tensor.ofJson_eq_ok hcount).mp htensor
        exact .nest hshape
    · cases h with
      | nest hshape =>
        rw [(Tensor.ofJson_eq_ok hcount).mpr ⟨_, hshape, rfl⟩]
        rfl
  | _ => exact iff_of_false (by rintro ⟨⟩) (by rintro ⟨⟩)

/-- A value that is refused is refused for what is wrong with it as a nest. -/
theorem ofJson_error {value : Json} (hcount : value.itemCount < 2 ^ 63) {error : StackError}
    (h : ofJson value = .error error) :
    ∃ flaw, TensorFlaw.OfNest flaw ∧ error = .invalidTensor flaw := by
  cases value with
  | integer number => cases h
  | real number => cases h
  | list items =>
    cases htensor : Tensor.ofJson (.list items) with
    | error flaw =>
      rw [ofJson, htensor] at h
      cases h
      exact ⟨flaw, Tensor.ofJson_error hcount htensor, rfl⟩
    | ok tensor =>
      rw [ofJson, htensor] at h
      cases h
  | _ =>
    cases h
    exact ⟨_, .notNumeric (by rintro _ ⟨⟩) rfl, rfl⟩

end StackValue

namespace StackInstruction

/-! ### Mnemonics -/

theorem find?_bare_eq_some_iff {name : String} {instruction : StackInstruction} :
    bare.find? (·.mnemonic = name) = some instruction ↔
      instruction ∈ bare ∧ instruction.mnemonic = name := by
  refine ⟨fun h ↦ ⟨List.mem_of_find?_eq_some h, by simpa using List.find?_some h⟩, ?_⟩
  rintro ⟨hbare, rfl⟩
  revert instruction
  simp only [bare, List.forall_mem_cons]
  exact ⟨rfl, rfl, rfl, rfl, rfl, rfl, rfl, rfl, rfl, rfl, rfl, rfl, by simp⟩

theorem mnemonic_ne_push {instruction : StackInstruction} (h : instruction ∈ bare) :
    instruction.mnemonic ≠ "PUSH" := by
  revert instruction
  simp only [bare, List.forall_mem_cons, mnemonic]
  decide

/-- Every instruction but PUSH is bare. -/
theorem mem_bare_of_ne {instruction : StackInstruction} (h : instruction.mnemonic ≠ "PUSH") :
    instruction ∈ bare := by
  cases instruction with
  | push value => exact absurd rfl h
  | _ => simp [bare]

/-! ### Entries -/

/-- The entries of the grammar and what they stand for: PUSH with a value, or another mnemonic
alone or with an operand that is passed over. Blanks around a mnemonic and the case of its letters
do not count. -/
inductive Written : Json → StackInstruction → Prop
  | push {name : String} {value : Json} {pushed : StackValue}
      (hname : Text.raiseAscii (Text.trim name) = "PUSH") (h : pushed.Denoted value) :
    Written (.list [.string name, value]) (.push pushed)
  | alone {name : String} {instruction : StackInstruction} (hbare : instruction ∈ bare)
      (hname : Text.raiseAscii (Text.trim name) = instruction.mnemonic) :
    Written (.list [.string name]) instruction
  | passing {name : String} {operand : Json} {instruction : StackInstruction}
      (hbare : instruction ∈ bare)
      (hname : Text.raiseAscii (Text.trim name) = instruction.mnemonic) :
    Written (.list [.string name, operand]) instruction

/-- The entries of the grammar. -/
def WellFormed (entry : Json) : Prop := ∃ instruction, Written entry instruction

/-- An entry without the items after its second. -/
def cut : Json → Json
  | .list items => .list (items.take 2)
  | other => other

/-- Why an entry is refused. -/
inductive Refused (index : ℕ) : Json → StackError → Prop
  | notEntry {entry : Json} (h : ∀ items, entry ≠ .list items) :
    Refused index entry (.invalidProgram (.notEntry index))
  | noMnemonic {items : List Json} (h : ∀ name rest, items ≠ .string name :: rest) :
    Refused index (.list items) (.invalidProgram (.noMnemonic index))
  | unknown {name : String} {rest : List Json}
      (h : ∀ instruction : StackInstruction,
        Text.raiseAscii (Text.trim name) ≠ instruction.mnemonic) :
    Refused index (.list (.string name :: rest)) (.unknownMnemonic name)
  | missing {name : String} {rest : List Json} (hname : Text.raiseAscii (Text.trim name) = "PUSH")
      (h : ∀ value ∈ rest.head?, value = .null) :
    Refused index (.list (.string name :: rest)) (.missingOperand "PUSH")
  | invalid {name : String} {value : Json} {rest : List Json} {flaw : TensorFlaw}
      (hname : Text.raiseAscii (Text.trim name) = "PUSH") (hnull : value ≠ .null)
      (h : ∀ pushed : StackValue, ¬pushed.Denoted value) (hflaw : flaw.OfNest) :
    Refused index (.list (.string name :: value :: rest)) (.invalidTensor flaw)

variable {index : ℕ} {instruction : StackInstruction}

/-- Only the first two items of an entry are read. -/
theorem ofEntry_cut (index : ℕ) (entry : Json) :
    ofEntry index (cut entry) = ofEntry index entry := by
  cases entry with
  | list items =>
    cases items with
    | nil => rfl
    | cons first rest =>
      cases first with
      | string name => cases rest <;> rfl
      | _ => rfl
  | _ => rfl

theorem pushOf_of_ne_null {operand : Json} (h : operand ≠ .null) :
    pushOf (some operand) = (StackValue.ofJson operand).map push := by
  cases operand with
  | null => exact absurd rfl h
  | _ => rfl

theorem pushOf_eq_ok_iff {operand : Json} (hcount : operand.itemCount < 2 ^ 63) :
    pushOf (some operand) = .ok instruction ↔
      ∃ pushed : StackValue, pushed.Denoted operand ∧ instruction = .push pushed := by
  by_cases hnull : operand = .null
  · subst hnull
    exact iff_of_false (by rintro ⟨⟩) (by rintro ⟨_, ⟨⟩, -⟩)
  · simp only [pushOf_of_ne_null hnull, ← StackValue.ofJson_eq_ok_iff hcount]
    cases StackValue.ofJson operand with
    | error cause => exact iff_of_false (by rintro ⟨⟩) (by rintro ⟨_, ⟨⟩, -⟩)
    | ok pushed =>
      refine ⟨fun h ↦ ?_, ?_⟩
      · cases h
        exact ⟨pushed, rfl, rfl⟩
      · rintro ⟨_, ⟨⟩, rfl⟩
        rfl

/-- A mnemonic other than PUSH is read as the instruction that has it, whatever the operand. -/
theorem parse_of_ne_push {name : String} (hname : Text.raiseAscii (Text.trim name) ≠ "PUSH")
    (operand : Option Json) :
    parse name operand = .ok instruction ↔
      instruction ∈ bare ∧ Text.raiseAscii (Text.trim name) = instruction.mnemonic := by
  unfold parse Text.canonicalName
  dsimp only
  rw [if_neg hname, eq_comm (b := instruction.mnemonic), ← find?_bare_eq_some_iff]
  split
  · rename_i found hfound
    rw [hfound, Option.some_inj, Except.ok.injEq]
  · rename_i hnone
    rw [hnone]
    exact iff_of_false (by rintro ⟨⟩) (by rintro ⟨⟩)

theorem parse_error_of_ne_push {name : String}
    (hname : Text.raiseAscii (Text.trim name) ≠ "PUSH") {operand : Option Json} {error : StackError}
    (h : parse name operand = .error error) : error = .unknownMnemonic name := by
  unfold parse Text.canonicalName at h
  dsimp only at h
  rw [if_neg hname] at h
  split at h
  · cases h
  · cases h
    rfl

theorem parse_of_push {name : String} (hname : Text.raiseAscii (Text.trim name) = "PUSH")
    (operand : Option Json) : parse name operand = pushOf operand := by
  unfold parse Text.canonicalName
  dsimp only
  rw [if_pos hname]

theorem written_of_ne_push {name : String} (hname : Text.raiseAscii (Text.trim name) ≠ "PUSH")
    (rest : List Json) :
    Written (cut (.list (.string name :: rest))) instruction ↔
      instruction ∈ bare ∧ Text.raiseAscii (Text.trim name) = instruction.mnemonic := by
  refine ⟨fun h ↦ ?_, ?_⟩
  · cases rest with
    | nil =>
      cases h with
      | alone hbare heq => exact ⟨hbare, heq⟩
    | cons operand more =>
      cases h with
      | push heq => exact absurd heq hname
      | passing hbare heq => exact ⟨hbare, heq⟩
  · rintro ⟨hbare, heq⟩
    cases rest with
    | nil => exact .alone hbare heq
    | cons operand more => exact .passing hbare heq

theorem written_of_push {name : String} (hname : Text.raiseAscii (Text.trim name) = "PUSH")
    (rest : List Json) :
    Written (cut (.list (.string name :: rest))) instruction ↔
      ∃ value ∈ rest.head?, ∃ pushed : StackValue,
        pushed.Denoted value ∧ instruction = .push pushed := by
  have hne {other : StackInstruction} (hbare : other ∈ bare)
      (heq : Text.raiseAscii (Text.trim name) = other.mnemonic) : False :=
    mnemonic_ne_push hbare (heq.symm.trans hname)
  refine ⟨fun h ↦ ?_, ?_⟩
  · cases rest with
    | nil =>
      cases h with
      | alone hbare heq => exact (hne hbare heq).elim
    | cons value more =>
      cases h with
      | push _ hpushed => exact ⟨value, rfl, _, hpushed, rfl⟩
      | passing hbare heq => exact (hne hbare heq).elim
  · rintro ⟨value, hvalue, pushed, hpushed, rfl⟩
    cases rest with
    | nil => cases hvalue
    | cons first more =>
      cases hvalue
      exact .push hname hpushed

/-- What is read of an entry is what its first two items are written for. -/
theorem ofEntry_eq_ok_iff {entry : Json} (hcount : entry.itemCount < 2 ^ 63) :
    ofEntry index entry = .ok instruction ↔ Written (cut entry) instruction := by
  cases entry with
  | list items =>
    cases items with
    | nil => exact iff_of_false (by rintro ⟨⟩) (by rintro ⟨⟩)
    | cons first rest =>
      cases first with
      | string name =>
        by_cases hname : Text.raiseAscii (Text.trim name) = "PUSH"
        · rw [ofEntry, parse_of_push hname, written_of_push hname]
          cases rest with
          | nil => exact iff_of_false (by rintro ⟨⟩) (by rintro ⟨_, ⟨⟩, -⟩)
          | cons value more =>
            have hvalue : value.itemCount < 2 ^ 63 :=
              (Json.itemCount_lt_itemCountOf (by simp)).trans hcount
            rw [List.head?_cons, pushOf_eq_ok_iff hvalue]
            simp
        · rw [ofEntry, parse_of_ne_push hname, written_of_ne_push hname]
      | _ => exact iff_of_false (by rintro ⟨⟩) (by rintro ⟨⟩)
  | _ => exact iff_of_false (by rintro ⟨⟩) (by rintro ⟨⟩)

theorem refused_push {name : String} (hname : Text.raiseAscii (Text.trim name) = "PUSH")
    {value : Json} (hcount : value.itemCount < 2 ^ 63) {more : List Json} {error : StackError}
    (h : pushOf (some value) = .error error) :
    Refused index (.list (.string name :: value :: more)) error := by
  by_cases hnull : value = .null
  · subst hnull
    cases h
    exact .missing hname (by rintro _ ⟨⟩; rfl)
  · have hnone (pushed : StackValue) : ¬pushed.Denoted value := by
      intro hpushed
      cases ((pushOf_eq_ok_iff hcount).mpr ⟨pushed, hpushed, rfl⟩).symm.trans h
    rw [pushOf_of_ne_null hnull] at h
    cases hvalue : StackValue.ofJson value with
    | ok pushed =>
      rw [hvalue] at h
      cases h
    | error cause =>
      rw [hvalue] at h
      cases h
      obtain ⟨flaw, hflaw, rfl⟩ := StackValue.ofJson_error hcount hvalue
      exact .invalid hname hnull hnone hflaw

/-- An entry that is not read is refused for a cause that lies in it. -/
theorem ofEntry_error {entry : Json} (hcount : entry.itemCount < 2 ^ 63) {error : StackError}
    (h : ofEntry index entry = .error error) : Refused index entry error := by
  cases entry with
  | list items =>
    cases items with
    | nil =>
      cases h
      exact .noMnemonic (by rintro _ _ ⟨⟩)
    | cons first rest =>
      cases first with
      | string name =>
        rw [ofEntry] at h
        by_cases hname : Text.raiseAscii (Text.trim name) = "PUSH"
        · rw [parse_of_push hname] at h
          cases rest with
          | nil =>
            cases h
            exact .missing hname (by rintro _ ⟨⟩)
          | cons value more =>
            have hvalue : value.itemCount < 2 ^ 63 :=
              (Json.itemCount_lt_itemCountOf (by simp)).trans hcount
            exact refused_push hname hvalue h
        · rw [parse_error_of_ne_push hname h]
          refine .unknown fun other heq ↦ ?_
          have hread := (parse_of_ne_push hname rest.head?).mpr
            ⟨mem_bare_of_ne (heq ▸ hname), heq⟩
          cases hread.symm.trans h
      | _ =>
        cases h
        exact .noMnemonic (by rintro _ _ ⟨⟩)
  | _ =>
    cases h
    exact .notEntry (by rintro _ ⟨⟩)

/-! ### Programs -/

/-- An entry of at most two items is its own first two. -/
theorem cut_eq_self {entry : Json} (h : ∀ items, entry = .list items → items.length ≤ 2) :
    cut entry = entry := by
  cases entry with
  | list items => rw [cut, List.take_of_length_le (h items rfl)]
  | _ => rfl

section Text

variable {text : String} {entries : List Json}

theorem parseProgram_eq_mapM (h : Json.ofText? text = some (.list entries)) :
    parseProgram text = entries.zipIdx.mapM fun (entry, index) ↦ ofEntry index entry := by
  rw [parseProgram, h]

theorem exists_list_of_parseProgram {program : List StackInstruction}
    (h : parseProgram text = .ok program) :
    ∃ entries, Json.ofText? text = some (.list entries) := by
  unfold parseProgram at h
  split at h
  · rename_i entries hentries
    exact ⟨entries, hentries⟩
  · cases h

theorem mapM_cut (entries : List Json) (start : ℕ) :
    ((entries.map cut).zipIdx start).mapM (fun (entry, index) ↦ ofEntry index entry) =
      (entries.zipIdx start).mapM fun (entry, index) ↦ ofEntry index entry := by
  induction entries generalizing start with
  | nil => rfl
  | cons entry rest ih =>
    rw [List.map_cons, List.zipIdx_cons, List.zipIdx_cons, List.mapM_cons, List.mapM_cons, ih]
    dsimp only
    rw [ofEntry_cut]

/-- Programs are read alike if their entries have the same first two items. -/
theorem parseProgram_congr {other : String} {others : List Json}
    (h : Json.ofText? text = some (.list entries))
    (hother : Json.ofText? other = some (.list others))
    (hcut : entries.map cut = others.map cut) : parseProgram text = parseProgram other := by
  rw [parseProgram_eq_mapM h, parseProgram_eq_mapM hother, ← mapM_cut entries, hcut, mapM_cut]

variable (htext : text.length < 2 ^ 63) (h : Json.ofText? text = some (.list entries))
include htext h

theorem itemCount_lt {entry : Json} (hentry : entry ∈ entries) : entry.itemCount < 2 ^ 63 :=
  (Json.itemCount_lt_of_mem h hentry).trans htext

/-- Wherever it stands, an entry of a text is read exactly if its first two items are of the
grammar. -/
theorem entry_iff_of_ofText? {entry : Json} (hentry : entry ∈ entries) (index : ℕ) :
    (∃ instruction, ofEntry index entry = .ok instruction) ↔ WellFormed (cut entry) :=
  exists_congr fun _ ↦ ofEntry_eq_ok_iff (itemCount_lt htext h hentry)

theorem exists_parseProgram_iff :
    (∃ program, parseProgram text = .ok program) ↔ ∀ entry ∈ entries, WellFormed (cut entry) := by
  rw [parseProgram_eq_mapM h]
  exact Program.exists_mapM_zipIdx_iff fun entry hentry ↦ entry_iff_of_ofText? htext h hentry

/-- A program has one instruction for each entry. -/
theorem instructions_of_parseProgram {program : List StackInstruction}
    (hprogram : parseProgram text = .ok program) :
    program.length = entries.length ∧
      ∀ (index : ℕ) (entry : Json), entries[index]? = some entry →
        ∃ instruction, Written (cut entry) instruction ∧ program[index]? = some instruction := by
  rw [parseProgram_eq_mapM h] at hprogram
  obtain ⟨hlength, hread⟩ := Program.mapM_zipIdx_of_ok hprogram
  refine ⟨hlength, fun index entry hentry ↦ ?_⟩
  obtain ⟨instruction, hinstruction, hok⟩ := hread index entry hentry
  have hmem : entry ∈ entries := List.mem_iff_getElem?.mpr ⟨index, hentry⟩
  exact ⟨instruction, (ofEntry_eq_ok_iff (itemCount_lt htext h hmem)).mp hok, hinstruction⟩

/-- Where a list is refused, this is for its first entry that is not of the grammar, whatever comes
after it. -/
theorem exists_refused {error : StackError} (herror : parseProgram text = .error error) :
    ∃ before bad after, entries = before ++ bad :: after ∧
      (∀ entry ∈ before, WellFormed (cut entry)) ∧ ¬WellFormed (cut bad) ∧
      ofEntry before.length bad = .error error ∧ Refused before.length bad error ∧
      ∀ other rest, Json.ofText? other = some (.list (before ++ bad :: rest)) →
        parseProgram other = .error error := by
  rw [parseProgram_eq_mapM h] at herror
  have hiff (entry) (hentry : entry ∈ entries) := entry_iff_of_ofText? htext h hentry
  obtain ⟨before, bad, after, rfl, hbefore, hbad, hread⟩ :=
    Program.exists_refused_item hiff herror
  have hcause := hread
  rw [Nat.zero_add] at hcause
  refine ⟨before, bad, after, rfl, hbefore, hbad, hcause,
    ofEntry_error (itemCount_lt htext h (by simp)) hcause, fun other rest hother ↦ ?_⟩
  have hall (entry) (hentry : entry ∈ before) (index : ℕ) :=
    (hiff entry (by simp [hentry]) index).mpr (hbefore entry hentry)
  rw [parseProgram_eq_mapM hother]
  exact Program.mapM_zipIdx_of_error hall hread

end Text

/-- The texts of stack programs. A text is read exactly if it holds a list, and the first two items
of each entry are an entry of the grammar. The program then has one instruction for each entry, in
their order. Where a list is refused, the error is that of the first entry that is not of the
grammar, and lists that are the same up to this entry are refused with the same error. Among the
lists whose entries have no more than two items, those that are read are the lists of entries of the
grammar. What further items an entry has makes no difference. -/
theorem parseProgram_grammar {text : String} (htext : text.length < 2 ^ 63) :
    ((∃ program, parseProgram text = .ok program) ↔
      ∃ entries, Json.ofText? text = some (.list entries) ∧
        ∀ entry ∈ entries, WellFormed (cut entry)) ∧
    (∀ entries program, Json.ofText? text = some (.list entries) →
      parseProgram text = .ok program →
        program.length = entries.length ∧
          ∀ (index : ℕ) (entry : Json), entries[index]? = some entry →
            ∃ instruction, Written (cut entry) instruction ∧
              program[index]? = some instruction) ∧
    (∀ entries error, Json.ofText? text = some (.list entries) →
      parseProgram text = .error error →
        ∃ before bad after, entries = before ++ bad :: after ∧
          (∀ entry ∈ before, WellFormed (cut entry)) ∧ ¬WellFormed (cut bad) ∧
          ofEntry before.length bad = .error error ∧ Refused before.length bad error ∧
          ∀ other rest, Json.ofText? other = some (.list (before ++ bad :: rest)) →
            parseProgram other = .error error) ∧
    (∀ entries, Json.ofText? text = some (.list entries) →
      (∀ items, .list items ∈ entries → items.length ≤ 2) →
        ((∃ program, parseProgram text = .ok program) ↔ ∀ entry ∈ entries, WellFormed entry)) ∧
    ∀ other entries others, Json.ofText? text = some (.list entries) →
      Json.ofText? other = some (.list others) → entries.map cut = others.map cut →
        parseProgram text = parseProgram other := by
  refine ⟨⟨?_, ?_⟩, ?_, ?_, fun entries h hshort ↦ ?_, fun other entries others ↦ ?_⟩
  · rintro ⟨program, hprogram⟩
    obtain ⟨entries, hentries⟩ := exists_list_of_parseProgram hprogram
    exact ⟨entries, hentries, (exists_parseProgram_iff htext hentries).mp ⟨program, hprogram⟩⟩
  · rintro ⟨entries, hentries, hall⟩
    exact (exists_parseProgram_iff htext hentries).mpr hall
  · exact fun entries program h ↦ instructions_of_parseProgram htext h
  · exact fun entries error h ↦ exists_refused htext h
  · rw [exists_parseProgram_iff htext h]
    refine forall₂_congr fun entry hentry ↦ ?_
    rw [cut_eq_self fun items hitems ↦ hshort items (hitems ▸ hentry)]
  · exact parseProgram_congr

/-- A text of two entries is read as two instructions. A text with an unknown mnemonic is refused at
the entry that has it, and not at the one after it, which is none. -/
theorem grammar_of_unknown_mnemonic :
    "[[\" push \",[[1,2],[3,4]]],[\"T_sum\",null]]".length < 2 ^ 63 ∧
      "[[\"POP\",2],[\"JUMP\"],7]".length < 2 ^ 63 ∧
      (∃ program, parseProgram "[[\" push \",[[1,2],[3,4]]],[\"T_sum\",null]]" = .ok program ∧
        program.length = 2) ∧
      ∃ before bad after,
        [.list [.string "POP", .integer 2], .list [.string "JUMP"], .integer 7] =
          before ++ bad :: after ∧
        ¬WellFormed (cut bad) ∧ Refused before.length bad (.unknownMnemonic "JUMP") := by
  refine ⟨by decide, by decide, ?_, ?_⟩
  · have htext : Json.ofText? "[[\" push \",[[1,2],[3,4]]],[\"T_sum\",null]]" =
        some (.list [.list [.string " push ",
            .list [.list [.integer 1, .integer 2], .list [.integer 3, .integer 4]]],
          .list [.string "T_sum", .null]]) := by rfl
    obtain ⟨-, hinstructions, -⟩ := parseProgram_grammar
      (show "[[\" push \",[[1,2],[3,4]]],[\"T_sum\",null]]".length < 2 ^ 63 by decide)
    have hprogram := parseProgram_eq_mapM htext
    exact ⟨_, hprogram, (hinstructions _ _ htext hprogram).1⟩
  · have htext : Json.ofText? "[[\"POP\",2],[\"JUMP\"],7]" =
        some (.list [.list [.string "POP", .integer 2], .list [.string "JUMP"], .integer 7]) := by
      rfl
    obtain ⟨-, -, herror, -⟩ := parseProgram_grammar
      (show "[[\"POP\",2],[\"JUMP\"],7]".length < 2 ^ 63 by decide)
    obtain ⟨before, bad, after, hentries, -, hbad, -, hcause, -⟩ :=
      herror _ (.unknownMnemonic "JUMP") htext (parseProgram_eq_mapM htext)
    exact ⟨before, bad, after, hentries, hbad, hcause⟩

/-- An entry of three items is none of the grammar, and is read all the same. -/
theorem parseProgram_of_three_items :
    ∃ entries program,
      Json.ofText? "[[\"PUSH\",1],[\"POP\",2,3]]" = some (.list entries) ∧
      .list [.string "POP", .integer 2, .integer 3] ∈ entries ∧
      ¬WellFormed (.list [.string "POP", .integer 2, .integer 3]) ∧
      parseProgram "[[\"PUSH\",1],[\"POP\",2,3]]" = .ok program := by
  have htext : Json.ofText? "[[\"PUSH\",1],[\"POP\",2,3]]" =
      some (.list [.list [.string "PUSH", .integer 1],
        .list [.string "POP", .integer 2, .integer 3]]) := by rfl
  refine ⟨_, _, htext, by simp, ?_, parseProgram_eq_mapM htext⟩
  rintro ⟨instruction, ⟨⟩⟩

end StackInstruction

end SpiralMachine
