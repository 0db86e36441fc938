import SpiralMachine.Proofs.Program.Arguments

/-!
# The grammar of programs

A program is a list of entries. An entry has one of two shapes (`Program.Shape`), names an opcode
in one of three ways (`Opcode.SpeltBy`), and may bring arguments (`Program.Brings`). What is well
formed by these three and by what the opcode accepts is read, and nothing else (`entry_iff`).

The entries are read in order, each by itself. So a program has the steps of its entries, one for
each, and where not all entries are well formed, the first that is not decides the error
(`ofText_grammar`).
-/

set_option autoImplicit false

namespace SpiralMachine

/-- An opcode is spelt by its code, by its name, blanks around it and the case of letters aside, or
by a word for it that is no name. -/
inductive Opcode.SpeltBy : Opcode → Json → Prop
  | code (op : Opcode) : op.SpeltBy (.integer op.code)
  | name {op : Opcode} {text : String} (h : Text.raiseAscii (Text.trim text) = op.name) :
    op.SpeltBy (.string text)
  | word {op : Opcode} {text : String}
    (hname : ∀ other : Opcode, Text.raiseAscii (Text.trim text) ≠ other.name)
    (h : (Text.lowerForAscii (Text.trim text), op) ∈ Opcode.sparkWords) :
    op.SpeltBy (.string text)

namespace Program

/-- An entry with its opcode, still as it is spelt, and what is given as its arguments. -/
inductive Shape : Json → Json → Option Json → Prop
  | bare (op : Json) : Shape (.list [op]) op none
  | pair (op args : Json) : Shape (.list [op, args]) op (some args)
  | record {members : Json.Members} {op : Json} (h : members.lookup "op" = some op) :
    Shape (.object members) op (members.lookup "args")

/-- What is given as arguments, and the members it brings. -/
inductive Brings : Option Json → Json.Members → Prop
  | nothing : Brings none []
  | null : Brings (some .null) []
  | object (members : Json.Members) : Brings (some (.object members)) members

/-- An entry that calls an opcode with these members. -/
def Calls (value : Json) (op : Opcode) (members : Json.Members) : Prop :=
  ∃ spelling args, Shape value spelling args ∧ op.SpeltBy spelling ∧ Brings args members

/-- The entries of the grammar. -/
def WellFormed (value : Json) : Prop :=
  ∃ op members, Calls value op members ∧ op.Accepts members

end Program

/-! ### Opcodes -/

namespace Opcode

theorem named?_eq_some_iff {name : String} {op : Opcode} :
    named? name = some op ↔ op.name = name := by
  refine ⟨fun h ↦ ?_, ?_⟩
  · simpa using List.find?_some h
  · rintro rfl
    cases op <;> rfl

theorem ofCode_eq_ok_iff {code : ℕ} {op : Opcode} : ofCode code = .ok op ↔ op.code = code := by
  refine ⟨fun h ↦ ?_, fun h ↦ h ▸ op.ofCode_code⟩
  by_cases hcode : code ≤ 15
  · obtain ⟨other, rfl⟩ := exists_code hcode
    rw [ofCode_code] at h
    cases h
    rfl
  · rw [ofCode_of_lt (not_le.mp hcode)] at h
    cases h

theorem resolve_byCode_iff {code : ℕ} {op : Opcode} :
    (OpcodeRef.byCode code).resolve = .ok op ↔ op.code = code :=
  ofCode_eq_ok_iff

theorem ofWord?_eq_some_iff {word : String} {op : Opcode} :
    ofWord? word = some op ↔ (Text.lowerForAscii (Text.trim word), op) ∈ sparkWords :=
  ⟨Keyed.mem_of_lookup, Keyed.lookup_of_mem (by decide)⟩

/-- The opcodes that a text spells: the one of its name, or else the one of its word. -/
theorem speltBy_string_iff {text : String} {op : Opcode} :
    op.SpeltBy (.string text) ↔
      named? (Text.canonicalName text) = some op ∨
        named? (Text.canonicalName text) = none ∧ ofWord? text = some op := by
  have hnone : named? (Text.canonicalName text) = none ↔
      ∀ other : Opcode, Text.raiseAscii (Text.trim text) ≠ other.name := by
    rw [Option.eq_none_iff_forall_ne_some]
    exact forall_congr' fun other ↦ not_congr (named?_eq_some_iff.trans eq_comm)
  rw [hnone, named?_eq_some_iff, ofWord?_eq_some_iff]
  refine ⟨fun h ↦ ?_, ?_⟩
  · cases h with
    | name hname => exact .inl hname.symm
    | word hname hword => exact .inr ⟨hname, hword⟩
  · rintro (hname | ⟨hname, hword⟩)
    · exact .name hname.symm
    · exact .word hname hword

theorem resolve_byName_iff {text : String} {op : Opcode} :
    (OpcodeRef.byName text).resolve = .ok op ↔ op.SpeltBy (.string text) := by
  rw [speltBy_string_iff]
  unfold OpcodeRef.resolve ofName
  dsimp only
  cases named? (Text.canonicalName text) with
  | some other => simp
  | none => cases ofWord? text <;> simp

theorem speltBy_integer_iff {value : ℤ} {op : Opcode} :
    op.SpeltBy (.integer value) ↔ value = op.code := by
  refine ⟨?_, ?_⟩
  · rintro ⟨⟩
    rfl
  · rintro rfl
    exact .code op

end Opcode

namespace Program

variable {index : ℕ}

theorem parts_eq_ok_iff {value spelling : Json} {args : Option Json} :
    parts index value = .ok (spelling, args) ↔ Shape value spelling args := by
  refine ⟨fun h ↦ ?_, fun h ↦ ?_⟩
  · unfold parts at h
    split at h
    · cases h
      exact .bare _
    · cases h
      exact .pair _ _
    · split at h <;> cases h
      rename_i hop
      exact .record hop
    · cases h
  · cases h with
    | bare => rfl
    | pair => rfl
    | record hop => rw [parts, hop]

theorem arguments_eq_ok_iff {args : Option Json} {members : Json.Members} :
    arguments index args = .ok members ↔ Brings args members := by
  refine ⟨fun h ↦ ?_, fun h ↦ ?_⟩
  · unfold arguments at h
    split at h <;> cases h
    · exact .nothing
    · exact .null
    · exact .object _
  · cases h <;> rfl

theorem resolve_eq_ok_iff {name : OpcodeRef} {op : Opcode} :
    resolve name = .ok op ↔ name.resolve = .ok op :=
  Except.mapError_eq_ok_iff

/-- What is taken for a reference and resolved is what spells an opcode. -/
theorem reference_resolve_iff {spelling : Json} {op : Opcode} :
    (∃ name, reference index spelling = .ok name ∧ resolve name = .ok op) ↔
      op.SpeltBy spelling := by
  simp only [resolve_eq_ok_iff]
  cases spelling with
  | string text =>
    rw [← Opcode.resolve_byName_iff]
    exact ⟨by rintro ⟨_, ⟨⟩, h⟩; exact h, fun h ↦ ⟨_, rfl, h⟩⟩
  | integer value =>
    rw [Opcode.speltBy_integer_iff]
    by_cases hrange : 0 ≤ value ∧ value < 256
    · have hname : reference index (.integer value) = .ok (.byCode value.toNat) := if_pos hrange
      lift value to ℕ using hrange.1
      simp only [hname, Except.ok.injEq, exists_eq_left', Int.toNat_natCast,
        Opcode.resolve_byCode_iff, Nat.cast_inj]
      exact eq_comm
    · have hname : reference index (.integer value) = .error (.badCode index (.integer value)) :=
        if_neg hrange
      refine iff_of_false ?_ ?_
      · rw [hname]
        rintro ⟨_, ⟨⟩, -⟩
      · rintro rfl
        have hcode : op.code ≤ 15 := by cases op <;> decide
        omega
  | _ => exact iff_of_false (by rintro ⟨_, ⟨⟩, -⟩) (by rintro ⟨⟩)

/-- An entry is read as the step of the opcode that it calls, with its members. -/
theorem entry_eq_ok_iff {value : Json} {step : Step} :
    entry index value = .ok step ↔
      ∃ op members, Calls value op members ∧ Step.ofArguments op members = .ok step := by
  unfold entry
  simp only [Except.bind_eq_ok_iff, Except.mapError_eq_ok_iff, Prod.exists, parts_eq_ok_iff,
    arguments_eq_ok_iff]
  refine ⟨?_, ?_⟩
  · rintro ⟨spelling, args, hshape, name, hname, op, hop, members, hmembers, hstep⟩
    exact ⟨op, members, ⟨spelling, args, hshape, reference_resolve_iff.mp ⟨name, hname, hop⟩,
      hmembers⟩, hstep⟩
  · rintro ⟨op, members, ⟨spelling, args, hshape, hop, hmembers⟩, hstep⟩
    obtain ⟨name, hname, hresolve⟩ := reference_resolve_iff.mpr hop
    exact ⟨spelling, args, hshape, name, hname, op, hresolve, members, hmembers, hstep⟩

theorem Shape.exists_readable {limit : ℕ} {value spelling args : Json}
    (h : Shape value spelling (some args)) (hreadable : Json.Readable limit value) :
    ∃ limit, Json.Readable limit args := by
  generalize hargs : some args = given at h
  cases h with
  | bare op => cases hargs
  | pair op other =>
    cases hargs
    cases limit with
    | zero => exact hreadable.elim
    | succ limit => exact ⟨limit, hreadable args (by simp)⟩
  | record hop =>
    cases limit with
    | zero => exact hreadable.elim
    | succ limit =>
      exact ⟨limit, hreadable.2 ("args", args) (Keyed.mem_of_lookup hargs.symm)⟩

/-- The members that a readable entry brings are readable. -/
theorem Calls.readable {limit : ℕ} {value : Json} {op : Opcode} {members : Json.Members}
    (h : Calls value op members) (hreadable : Json.Readable limit value) : members.Readable := by
  obtain ⟨spelling, args, hshape, -, hbrings⟩ := h
  cases hbrings with
  | nothing => exact ⟨0, nofun⟩
  | null => exact ⟨0, nofun⟩
  | object =>
    obtain ⟨limit, hobject⟩ := hshape.exists_readable hreadable
    cases limit with
    | zero => exact hobject.elim
    | succ limit => exact ⟨limit, hobject.2⟩

/-- An entry is read exactly if it is well formed, wherever it stands. -/
theorem entry_iff {limit : ℕ} {value : Json} (h : Json.Readable limit value) :
    (∃ step, entry index value = .ok step) ↔ WellFormed value := by
  simp only [entry_eq_ok_iff]
  refine ⟨?_, ?_⟩
  · rintro ⟨step, op, members, hcalls, hstep⟩
    exact ⟨op, members, hcalls, (Step.ofArguments_iff op (hcalls.readable h)).mp ⟨step, hstep⟩⟩
  · rintro ⟨op, members, hcalls, haccepts⟩
    obtain ⟨step, hstep⟩ := (Step.ofArguments_iff op (hcalls.readable h)).mpr haccepts
    exact ⟨step, op, members, hcalls, hstep⟩

/-! ### Lists -/

section Lists

variable {ε α β : Type} {read : ℕ → α → Except ε β}

/-- Items that are read one by one, with their places, give one result each. -/
theorem mapM_zipIdx_of_ok {items : List α} {results : List β} {start : ℕ}
    (h : (items.zipIdx start).mapM (fun (item, place) ↦ read place item) = .ok results) :
    results.length = items.length ∧
      ∀ place item, items[place]? = some item →
        ∃ result, results[place]? = some result ∧ read (start + place) item = .ok result := by
  induction items generalizing results start with
  | nil =>
    cases h
    exact ⟨rfl, nofun⟩
  | cons first rest ih =>
    rw [List.zipIdx_cons, List.mapM_cons] at h
    obtain ⟨result, hresult, h⟩ := Except.exists_of_bind h
    obtain ⟨others, hothers, h⟩ := Except.exists_of_bind h
    cases h
    obtain ⟨hlength, hplaces⟩ := ih hothers
    refine ⟨by simp [hlength], fun place item hitem ↦ ?_⟩
    cases place with
    | zero =>
      cases hitem
      exact ⟨result, rfl, hresult⟩
    | succ place =>
      obtain ⟨later, hlater, hread⟩ := hplaces place item hitem
      exact ⟨later, hlater, by rwa [← Nat.add_assoc, Nat.add_right_comm]⟩

theorem exists_mapM_zipIdx {items : List α}
    (h : ∀ item ∈ items, ∀ place, ∃ result, read place item = .ok result) (start : ℕ) :
    ∃ results,
      (items.zipIdx start).mapM (fun (item, place) ↦ read place item) = .ok results := by
  induction items generalizing start with
  | nil => exact ⟨[], rfl⟩
  | cons first rest ih =>
    rw [List.forall_mem_cons] at h
    obtain ⟨result, hresult⟩ := h.1 start
    obtain ⟨results, hresults⟩ := ih h.2 (start + 1)
    refine ⟨result :: results, ?_⟩
    rw [List.zipIdx_cons, List.mapM_cons, hresults]
    dsimp only
    rw [hresult]
    rfl

/-- Items of which it depends on each alone whether it is read are all read exactly if each is. -/
theorem exists_mapM_zipIdx_iff {items : List α} {Fits : α → Prop}
    (h : ∀ item ∈ items, ∀ place, (∃ result, read place item = .ok result) ↔ Fits item) :
    (∃ results, items.zipIdx.mapM (fun (item, place) ↦ read place item) = .ok results) ↔
      ∀ item ∈ items, Fits item := by
  refine ⟨?_, fun hall ↦ ?_⟩
  · rintro ⟨results, hresults⟩ item hitem
    obtain ⟨place, hplace⟩ := List.mem_iff_getElem?.mp hitem
    obtain ⟨result, -, hread⟩ := (mapM_zipIdx_of_ok hresults).2 place item hplace
    exact (h item hitem _).mp ⟨result, hread⟩
  · exact exists_mapM_zipIdx (fun item hitem place ↦ (h item hitem place).mpr (hall item hitem)) 0

/-- Where items are refused there is a first that does not fit, and it is refused for that cause. -/
theorem exists_refused_item {items : List α} {Fits : α → Prop} {start : ℕ}
    (h : ∀ item ∈ items, ∀ place, (∃ result, read place item = .ok result) ↔ Fits item)
    {cause : ε}
    (hcause : (items.zipIdx start).mapM (fun (item, place) ↦ read place item) = .error cause) :
    ∃ before bad after, items = before ++ bad :: after ∧ (∀ item ∈ before, Fits item) ∧
      ¬Fits bad ∧ read (start + before.length) bad = .error cause := by
  induction items generalizing start with
  | nil => cases hcause
  | cons first rest ih =>
    rw [List.forall_mem_cons] at h
    rw [List.zipIdx_cons, List.mapM_cons] at hcause
    rcases Except.error_of_bind hcause with hfirst | ⟨result, hresult, hcause⟩
    · refine ⟨[], first, rest, rfl, by simp, fun hfits ↦ ?_, hfirst⟩
      obtain ⟨result, hresult⟩ := (h.1 start).mpr hfits
      cases hfirst.symm.trans hresult
    · rcases Except.error_of_bind hcause with hrest | ⟨results, -, hnone⟩
      · obtain ⟨before, bad, after, rfl, hbefore, hbad, hread⟩ := ih h.2 hrest
        refine ⟨first :: before, bad, after, rfl, ?_, hbad, ?_⟩
        · exact List.forall_mem_cons.mpr ⟨(h.1 start).mp ⟨result, hresult⟩, hbefore⟩
        · rwa [List.length_cons, ← Nat.add_assoc, Nat.add_right_comm]
      · cases hnone

/-- The first item that is refused decides, whatever comes after it. -/
theorem mapM_zipIdx_of_error {before after : List α} {bad : α} {start : ℕ} {cause : ε}
    (hbefore : ∀ item ∈ before, ∀ place, ∃ result, read place item = .ok result)
    (hbad : read (start + before.length) bad = .error cause) :
    ((before ++ bad :: after).zipIdx start).mapM (fun (item, place) ↦ read place item) =
      .error cause := by
  obtain ⟨results, hresults⟩ := exists_mapM_zipIdx hbefore start
  rw [List.zipIdx_append, List.mapM_append, hresults, List.zipIdx_cons, List.mapM_cons]
  dsimp only
  rw [hbad]
  rfl

end Lists

/-! ### Programs -/

theorem ofJson_list_eq_ok_iff {entries : List Json} {program : Program} :
    ofJson (.list entries) = .ok program ↔
      entries.zipIdx.mapM (fun (value, index) ↦ entry index value) = .ok program.steps := by
  rw [ofJson, Except.bind_eq_ok_iff]
  refine ⟨?_, fun h ↦ ⟨program.steps, h, rfl⟩⟩
  rintro ⟨steps, hsteps, ⟨⟩⟩
  exact hsteps

section Text

variable {text : String} {entries : List Json}

/-- A text that holds a list is read as that list. -/
theorem ofText_eq_ofJson {source : Json} (h : Json.ofText? text = some source) :
    ofText text = ofJson source := by
  rw [ofText, h]

theorem readable_of_ofText? (h : Json.ofText? text = some (.list entries)) {value : Json}
    (hvalue : value ∈ entries) : ∃ limit, Json.Readable limit value := by
  obtain ⟨document, -, hdocument⟩ := Option.bind_eq_some_iff.mp h
  have hlist := Json.readable_of_ofDocument? hdocument
  exact ⟨_, hlist value hvalue⟩

/-- Wherever it stands, an entry of a text is read exactly if it is well formed. -/
theorem entry_iff_of_ofText? (h : Json.ofText? text = some (.list entries)) {value : Json}
    (hvalue : value ∈ entries) (index : ℕ) :
    (∃ step, entry index value = .ok step) ↔ WellFormed value := by
  obtain ⟨limit, hreadable⟩ := readable_of_ofText? h hvalue
  exact entry_iff hreadable

/-- A program has one step for each entry, which is that of the opcode it calls. -/
theorem steps_of_ofText (h : Json.ofText? text = some (.list entries)) {program : Program}
    (hprogram : ofText text = .ok program) :
    program.size = entries.length ∧
      ∀ (index : ℕ) (value : Json), entries[index]? = some value →
        ∃ op members step, Calls value op members ∧ Step.ofArguments op members = .ok step ∧
          program.steps[index]? = some step := by
  rw [ofText_eq_ofJson h, ofJson_list_eq_ok_iff] at hprogram
  obtain ⟨hsize, hsteps⟩ := mapM_zipIdx_of_ok hprogram
  refine ⟨hsize, fun index value hvalue ↦ ?_⟩
  obtain ⟨step, hstep, hentry⟩ := hsteps index value hvalue
  obtain ⟨op, members, hcalls, harguments⟩ := entry_eq_ok_iff.mp hentry
  exact ⟨op, members, step, hcalls, harguments, hstep⟩

/-- A list is read exactly if all its entries are well formed. -/
theorem exists_ofText_iff (h : Json.ofText? text = some (.list entries)) :
    (∃ program, ofText text = .ok program) ↔ ∀ value ∈ entries, WellFormed value := by
  rw [← exists_mapM_zipIdx_iff fun value hvalue ↦ entry_iff_of_ofText? h hvalue,
    ofText_eq_ofJson h]
  simp only [ofJson_list_eq_ok_iff]
  refine ⟨?_, ?_⟩
  · rintro ⟨program, hsteps⟩
    exact ⟨_, hsteps⟩
  · rintro ⟨steps, hsteps⟩
    exact ⟨⟨steps⟩, hsteps⟩

/-- An entry that is refused after well-formed ones decides the error, whatever comes after it. -/
theorem ofText_of_refused {before rest : List Json} {bad : Json} {error : RunError}
    (h : Json.ofText? text = some (.list (before ++ bad :: rest)))
    (hbefore : ∀ value ∈ before, WellFormed value)
    (hbad : entry before.length bad = .error error) : ofText text = .error error := by
  have hread (value) (hvalue : value ∈ before) (index : ℕ) :=
    (entry_iff_of_ofText? h (List.mem_append_left _ hvalue) index).mpr (hbefore value hvalue)
  have hfirst : entry (0 + before.length) bad = .error error := by rw [Nat.zero_add, hbad]
  rw [ofText_eq_ofJson h, ofJson, mapM_zipIdx_of_error hread hfirst]
  rfl

/-- Where a list is refused there is a first entry that is not well formed, and its error is the
error of the text. -/
theorem exists_refused (h : Json.ofText? text = some (.list entries)) {error : RunError}
    (herror : ofText text = .error error) :
    ∃ before bad after, entries = before ++ bad :: after ∧
      (∀ value ∈ before, WellFormed value) ∧ ¬WellFormed bad ∧
      entry before.length bad = .error error := by
  rw [ofText_eq_ofJson h, ofJson, Except.bind_eq_error_iff] at herror
  obtain hentries | ⟨steps, -, hnone⟩ := herror
  · obtain ⟨before, bad, after, heq, hbefore, hbad, hentry⟩ :=
      exists_refused_item (fun value hvalue ↦ entry_iff_of_ofText? h hvalue) hentries
    rw [Nat.zero_add] at hentry
    exact ⟨before, bad, after, heq, hbefore, hbad, hentry⟩
  · cases hnone

end Text

/-- The texts of programs, of all texts of values. A text is read exactly if it holds a list all
entries of which are well formed. The program then has one step for each entry: the opcode that it
calls, with its members, and its mark of a fork. Where a text of a list is refused, the error is
that of the first entry that is not well formed, and all texts of lists that have the same entries
up to this one are refused with the same error. -/
theorem ofText_grammar {text : String} {source : Json} (h : Json.ofText? text = some source) :
    ((∃ program, ofText text = .ok program) ↔
      ∃ entries, source = .list entries ∧ ∀ value ∈ entries, WellFormed value) ∧
    (∀ entries program, source = .list entries → ofText text = .ok program →
      program.size = entries.length ∧
        ∀ (index : ℕ) (value : Json), entries[index]? = some value →
          ∃ op members step, Calls value op members ∧ Step.ofArguments op members = .ok step ∧
            program.steps[index]? = some step) ∧
    ∀ entries error, source = .list entries → ofText text = .error error →
      ∃ before bad after, entries = before ++ bad :: after ∧
        (∀ value ∈ before, WellFormed value) ∧ ¬WellFormed bad ∧
        entry before.length bad = .error error ∧
        ∀ other rest, Json.ofText? other = some (.list (before ++ bad :: rest)) →
          ofText other = .error error := by
  refine ⟨⟨?_, ?_⟩, ?_, ?_⟩
  · rintro ⟨program, hprogram⟩
    cases source with
    | list entries => exact ⟨entries, rfl, (exists_ofText_iff h).mp ⟨program, hprogram⟩⟩
    | _ => cases (ofText_eq_ofJson h).symm.trans hprogram
  · rintro ⟨entries, rfl, hall⟩
    exact (exists_ofText_iff h).mpr hall
  · rintro entries program rfl hprogram
    exact steps_of_ofText h hprogram
  · rintro entries error rfl herror
    obtain ⟨before, bad, after, hentries, hbefore, hbad, hentry⟩ := exists_refused h herror
    exact ⟨before, bad, after, hentries, hbefore, hbad, hentry,
      fun other rest hother ↦ ofText_of_refused hother hbefore hentry⟩

/-- A text of two entries is read as two steps. A text with a code that is no opcode's is refused at
this code, and not at the entry after it, which is none. -/
theorem grammar_of_unknown_code :
    (∃ program, ofText "[[1],\x7b\"op\":\" Run\"\x7d]" = .ok program ∧ program.size = 2) ∧
      ∃ before bad after,
        [.list [.integer 1], .list [.integer 16], .integer 7] = before ++ bad :: after ∧
        ¬WellFormed bad ∧
        entry before.length bad = .error (.unknownOpcode (.unknownCode 16)) := by
  refine ⟨?_, ?_⟩
  · have htext : Json.ofText? "[[1],\x7b\"op\":\" Run\"\x7d]" =
        some (.list [.list [.integer 1], .object [("op", .string " Run")]]) := by rfl
    obtain ⟨-, hsteps, -⟩ := ofText_grammar htext
    have hprogram := ofText_eq_ofJson htext
    exact ⟨_, hprogram, (hsteps _ _ rfl hprogram).1⟩
  · have htext : Json.ofText? "[[1],[16],7]" =
        some (.list [.list [.integer 1], .list [.integer 16], .integer 7]) := by rfl
    obtain ⟨-, -, herror⟩ := ofText_grammar htext
    obtain ⟨before, bad, after, hentries, -, hbad, hentry, -⟩ :=
      herror _ (.unknownOpcode (.unknownCode 16)) rfl (ofText_eq_ofJson htext)
    exact ⟨before, bad, after, hentries, hbad, hentry⟩

end Program

end SpiralMachine
