import SpiralMachine.Proofs.Program.Arguments

/-!
# Arguments that matter

The step of an opcode is made of what stands under `fork` and under the keys of the opcode. Members
that have the same there, where null is as good as nothing, give the same step or the same error
(`Step.ofArguments_congr`), whatever stands under other keys.

The keys are read in order, `fork` before all others. So the error is that of the first key the
value of which is not of its kind (`Step.ofArguments_eq_error_iff`), and the kind and the value
settle what is said of it (`ArgumentKind.flaw`).
-/

set_option autoImplicit false

namespace SpiralMachine

/-- What is wrong with a value that is not of the kind. -/
def ArgumentKind.flaw : ArgumentKind → Json → ArgumentFlaw
  | boolean, _ => .notBoolean
  | number, _ => .notNumber
  | count, .integer whole => if 0 ≤ whole then .countTooLarge else .notNatural
  | count, _ => .notNatural
  | index, _ => .notNatural
  | string, _ => .notString
  | strings, _ => .notStrings
  | register, .string text => .unknownRegister text
  | register, _ => .notString

namespace Json.Members

/-- Under each of the keys stands the same, if null stands for nothing. -/
def AgreeOn (first second : Json.Members) (keys : List String) : Prop :=
  ∀ key ∈ keys, ∀ value, value ≠ .null →
    (first.lookup key = some value ↔ second.lookup key = some value)

end Json.Members

namespace Instruction.Arguments

/-! ### Members that agree -/

section Agreement

variable {op : Opcode} {first second : Json.Members} {keys : List String} {key : String}

theorem value?_congr (h : first.AgreeOn second keys) (hkey : key ∈ keys) :
    value? ⟨op, first⟩ key = value? ⟨op, second⟩ key := by
  refine Option.ext fun value ↦ ?_
  rw [value?_eq_some_iff, value?_eq_some_iff]
  exact and_congr_left (h key hkey value)

theorem get_congr {α : Type} (h : first.AgreeOn second keys) (hkey : key ∈ keys)
    (read : Json → Except ArgumentFlaw α) :
    get ⟨op, first⟩ key read = get ⟨op, second⟩ key read := by
  unfold get
  rw [value?_congr h hkey]
  rfl

end Agreement

end Instruction.Arguments

/-- An instruction is made of what stands under the keys of its opcode. -/
theorem Instruction.ofArguments_congr (op : Opcode) {first second : Json.Members}
    (h : first.AgreeOn second (op.keys.map Prod.fst)) :
    ofArguments op first = ofArguments op second := by
  have hget {α : Type} (key : String) (hkey : key ∈ op.keys.map Prod.fst)
      (read : Json → Except ArgumentFlaw α) :
      Arguments.get ⟨op, first⟩ key read = Arguments.get ⟨op, second⟩ key read :=
    Arguments.get_congr h hkey read
  cases op <;>
    simp only [ofArguments, Arguments.boolean, Arguments.float, Arguments.natural, Arguments.count,
      Arguments.string?, Arguments.strings?, Arguments.register, hget, Opcode.keys, List.map_cons,
      List.mem_cons, true_or, or_true]

/-- A step is made of what stands under `fork` and under the keys of its opcode. -/
theorem Step.ofArguments_congr (op : Opcode) {first second : Json.Members}
    (h : first.AgreeOn second ("fork" :: op.keys.map Prod.fst)) :
    ofArguments op first = ofArguments op second := by
  have hfork : Instruction.Arguments.boolean ⟨op, first⟩ "fork" false =
      Instruction.Arguments.boolean ⟨op, second⟩ "fork" false := by
    unfold Instruction.Arguments.boolean
    rw [Instruction.Arguments.get_congr h (List.mem_cons_self ..)]
  have hinstruction : Instruction.ofArguments op first = Instruction.ofArguments op second :=
    Instruction.ofArguments_congr op fun key hkey ↦ h key (List.mem_cons_of_mem _ hkey)
  unfold ofArguments
  rw [hfork, hinstruction]

/-! ### The first argument that is refused -/

/-- Under the key of the entry stands a value that is not of its kind, and the error says so. -/
def Opcode.Refuses (op : Opcode) (members : Json.Members) (entry : String × ArgumentKind)
    (error : RunError) : Prop :=
  ∃ value, members.lookup entry.1 = some value ∧ value ≠ .null ∧ ¬entry.2.Admits value ∧
    error = .invalidArgument op entry.1 (entry.2.flaw value)

/-- The error is that of the first of the entries that is refused. -/
def Opcode.RefusesFirst (op : Opcode) (members : Json.Members)
    (entries : List (String × ArgumentKind)) (error : RunError) : Prop :=
  ∃ before entry after, entries = before ++ entry :: after ∧
    (∀ earlier ∈ before, earlier.2.AllowedIn members earlier.1) ∧ op.Refuses members entry error

namespace Opcode

variable {op : Opcode} {members : Json.Members} {error : RunError}

theorem refusesFirst_nil : op.RefusesFirst members [] error ↔ False := by
  refine iff_of_false ?_ id
  rintro ⟨before, entry, after, hentries, -⟩
  cases before <;> cases hentries

/-- Of several entries the first is refused, or it is allowed and the error is that of the rest. -/
theorem refusesFirst_cons {first : String × ArgumentKind} {rest : List (String × ArgumentKind)} :
    op.RefusesFirst members (first :: rest) error ↔
      op.Refuses members first error ∨
        first.2.AllowedIn members first.1 ∧ op.RefusesFirst members rest error := by
  refine ⟨?_, ?_⟩
  · rintro ⟨before, entry, after, hentries, hbefore, hrefuses⟩
    cases before with
    | nil =>
      cases hentries
      exact .inl hrefuses
    | cons earlier before =>
      cases hentries
      rw [List.forall_mem_cons] at hbefore
      exact .inr ⟨hbefore.1, before, entry, after, rfl, hbefore.2, hrefuses⟩
  · rintro (hrefuses | ⟨hfirst, before, entry, after, rfl, hbefore, hrefuses⟩)
    · exact ⟨[], first, rest, rfl, nofun, hrefuses⟩
    · exact ⟨first :: before, entry, after, rfl, List.forall_mem_cons.mpr ⟨hfirst, hbefore⟩,
        hrefuses⟩

end Opcode

namespace Instruction.Arguments

variable {args : Arguments} {key : String} {error : RunError}

section Readers

variable {value : Json} {flaw : ArgumentFlaw}

theorem expect_eq_error_iff {α : Type} {cause : ArgumentFlaw} {found : Option α} :
    expect flaw found = .error cause ↔ found = none ∧ cause = flaw := by
  cases found <;> simp [expect, eq_comm]

theorem readBoolean_flaw (h : readBoolean value = .error flaw) :
    flaw = ArgumentKind.boolean.flaw value :=
  (expect_eq_error_iff.mp h).2

theorem readFloat_flaw (h : readFloat value = .error flaw) :
    flaw = ArgumentKind.number.flaw value :=
  (expect_eq_error_iff.mp h).2

theorem readNatural_flaw (h : readNatural value = .error flaw) :
    flaw = ArgumentKind.index.flaw value :=
  (expect_eq_error_iff.mp h).2

theorem readString_flaw (h : readString value = .error flaw) :
    flaw = ArgumentKind.string.flaw value :=
  (expect_eq_error_iff.mp h).2

theorem readStrings_flaw (h : readStrings value = .error flaw) :
    flaw = ArgumentKind.strings.flaw value := by
  unfold readStrings at h
  split at h
  · cases h
  · exact (expect_eq_error_iff.mp h).2
  · cases h
    rfl

/-- A count is refused as too large only if it is a natural number. -/
theorem readCount_flaw (h : readCount value = .error flaw) :
    flaw = ArgumentKind.count.flaw value := by
  rcases Except.error_of_bind h with hnatural | ⟨n, hnatural, hsize⟩
  · obtain ⟨hnone, rfl⟩ := expect_eq_error_iff.mp hnatural
    cases value with
    | integer whole =>
      cases whole with
      | ofNat n => cases hnone
      | negSucc n => rfl
    | _ => rfl
  · obtain rfl := readNatural_eq_ok_iff.mp hnatural
    split at hsize <;> cases hsize
    rw [ArgumentKind.flaw, if_pos (Int.natCast_nonneg n)]

theorem readRegister_flaw (h : readRegister value = .error flaw) :
    flaw = ArgumentKind.register.flaw value := by
  rcases Except.error_of_bind h with hstring | ⟨text, hstring, hname⟩
  · obtain ⟨hnone, rfl⟩ := expect_eq_error_iff.mp hstring
    cases value with
    | string text => cases hnone
    | _ => rfl
  · obtain rfl := string?_eq_some_iff.mp (expect_eq_ok_iff.mp hstring)
    exact (expect_eq_error_iff.mp hname).2

end Readers

/-- An argument is refused if it is not of its kind, where the reader takes the values of the kind
and says what is wrong with all others. -/
theorem get_eq_error_iff {α : Type} {read : Json → Except ArgumentFlaw α} {kind : ArgumentKind}
    (hread : ∀ value, args.members.lookup key = some value →
      ((∃ result, read value = .ok result) ↔ kind.Admits value))
    (hflaw : ∀ value flaw, read value = .error flaw → flaw = kind.flaw value) :
    args.get key read = .error error ↔ args.op.Refuses args.members (key, kind) error := by
  unfold get Opcode.Refuses
  dsimp only
  refine ⟨fun h ↦ ?_, ?_⟩
  · split at h
    · cases h
    · rename_i value hvalue
      obtain ⟨hlookup, hnull⟩ := value?_eq_some_iff.mp hvalue
      cases hresult : read value with
      | ok result => rw [hresult] at h; cases h
      | error flaw =>
        rw [hresult] at h
        cases h
        refine ⟨value, hlookup, hnull, fun hadmits ↦ ?_, by rw [hflaw value flaw hresult]⟩
        obtain ⟨result, hok⟩ := (hread value hlookup).mpr hadmits
        cases hok.symm.trans hresult
  · rintro ⟨value, hlookup, hnull, hadmits, rfl⟩
    rw [value?_eq_some_iff.mpr ⟨hlookup, hnull⟩]
    dsimp only
    cases hresult : read value with
    | ok result => exact absurd ((hread value hlookup).mp ⟨result, hresult⟩) hadmits
    | error flaw => rw [hflaw value flaw hresult]; rfl

theorem boolean_eq_error_iff (default : Bool) :
    args.boolean key default = .error error ↔
      args.op.Refuses args.members (key, .boolean) error :=
  Except.map_eq_error_iff.trans
    (get_eq_error_iff (fun _ _ ↦ readBoolean_iff) fun _ _ ↦ readBoolean_flaw)

theorem float_eq_error_iff (default : Float) :
    args.float key default = .error error ↔
      args.op.Refuses args.members (key, .number) error :=
  Except.map_eq_error_iff.trans
    (get_eq_error_iff (fun _ _ ↦ readFloat_iff) fun _ _ ↦ readFloat_flaw)

theorem count_eq_error_iff (default : UInt32) :
    args.count key default = .error error ↔
      args.op.Refuses args.members (key, .count) error :=
  Except.map_eq_error_iff.trans
    (get_eq_error_iff (fun _ _ ↦ readCount_iff) fun _ _ ↦ readCount_flaw)

theorem string?_eq_error_iff :
    args.string? key = .error error ↔ args.op.Refuses args.members (key, .string) error :=
  get_eq_error_iff (fun _ _ ↦ readString_iff) fun _ _ ↦ readString_flaw

theorem strings?_eq_error_iff :
    args.strings? key = .error error ↔ args.op.Refuses args.members (key, .strings) error :=
  get_eq_error_iff (fun _ _ ↦ readStrings_iff) fun _ _ ↦ readStrings_flaw

theorem register_eq_error_iff :
    args.register = .error error ↔ args.op.Refuses args.members ("register", .register) error :=
  Except.map_eq_error_iff.trans
    (get_eq_error_iff (fun _ _ ↦ readRegister_iff) fun _ _ ↦ readRegister_flaw)

theorem natural_eq_error_iff (h : args.members.InRange) (default : ℕ) :
    args.natural key default = .error error ↔
      args.op.Refuses args.members (key, .index) error :=
  Except.map_eq_error_iff.trans (get_eq_error_iff
    (fun _ hvalue ↦ readNatural_iff fun n hn ↦ h key n (hn ▸ hvalue))
    fun _ _ ↦ readNatural_flaw)

end Instruction.Arguments

/-- An instruction is refused for the first of the keys of its opcode that is. -/
theorem Instruction.ofArguments_eq_error_iff (op : Opcode) {members : Json.Members}
    (h : members.InRange) {error : RunError} :
    ofArguments op members = .error error ↔ op.RefusesFirst members op.keys error := by
  have hnatural (key : String) (default : ℕ) :
      (∃ result, (Arguments.mk op members).natural key default = .ok result) ↔
        ArgumentKind.index.AllowedIn members key :=
    Arguments.natural_iff h default
  have hnaturalError (key : String) (default : ℕ) :
      (Arguments.mk op members).natural key default = .error error ↔
        op.Refuses members (key, .index) error :=
    Arguments.natural_eq_error_iff h default
  cases op with
  | spec => exact iff_of_false nofun Opcode.refusesFirst_nil.mp
  | bloom => exact iff_of_false nofun Opcode.refusesFirst_nil.mp
  | _ =>
    -- the key that is read first is refused, or it is allowed and the next one is read
    simp only [ofArguments, Opcode.keys, bind_pure_comp, Except.bind_eq_error_iff,
      Except.map_eq_error_iff, exists_and_right, Arguments.boolean_eq_error_iff,
      Arguments.float_eq_error_iff, Arguments.count_eq_error_iff, Arguments.string?_eq_error_iff,
      Arguments.strings?_eq_error_iff, Arguments.register_eq_error_iff, hnaturalError,
      Arguments.float_iff, Arguments.count_iff, Arguments.string?_iff, Arguments.register_iff,
      hnatural, Opcode.refusesFirst_cons, Opcode.refusesFirst_nil, and_false, or_false]

/-- A step is refused for its fork flag, or else for the first of the keys of its opcode that is. -/
theorem Step.ofArguments_eq_error_iff (op : Opcode) {members : Json.Members}
    (h : members.InRange) {error : RunError} :
    ofArguments op members = .error error ↔
      op.RefusesFirst members (("fork", .boolean) :: op.keys) error := by
  unfold ofArguments
  simp only [bind_pure_comp, Except.bind_eq_error_iff, Except.map_eq_error_iff, exists_and_right,
    Instruction.Arguments.boolean_eq_error_iff, Instruction.Arguments.boolean_iff,
    Instruction.ofArguments_eq_error_iff op h, Opcode.refusesFirst_cons]

/-- The step of an opcode hangs on nothing but `fork` and the keys of the opcode. Members that agree
there give the same step or the same error: null and nothing are the same, and what stands under
other keys has no say. The error, if there is one, is that of the first of these keys, `fork` before
all others, under which a value stands that is not of its kind. -/
theorem Step.ofArguments_relevant (op : Opcode) (members : Json.Members) :
    (∀ other, members.AgreeOn other ("fork" :: op.keys.map Prod.fst) →
      ofArguments op members = ofArguments op other) ∧
    (members.InRange →
      ∀ error, ofArguments op members = .error error ↔
        ∃ before key kind after value,
          ("fork", ArgumentKind.boolean) :: op.keys = before ++ (key, kind) :: after ∧
          (∀ earlier ∈ before, earlier.2.AllowedIn members earlier.1) ∧
          members.lookup key = some value ∧ value ≠ .null ∧ ¬kind.Admits value ∧
          error = .invalidArgument op key (kind.flaw value)) := by
  refine ⟨fun other h ↦ ofArguments_congr op h, fun h error ↦ ?_⟩
  rw [ofArguments_eq_error_iff op h]
  refine ⟨?_, ?_⟩
  · rintro ⟨before, ⟨key, kind⟩, after, hkeys, hbefore, value, hrefused⟩
    exact ⟨before, key, kind, after, value, hkeys, hbefore, hrefused⟩
  · rintro ⟨before, key, kind, after, value, hkeys, hbefore, hrefused⟩
    exact ⟨before, (key, kind), after, hkeys, hbefore, value, hrefused⟩

/-- To a cycle a register and a null start are nothing. What is wrong with its end is said, unless
its fork flag is wrong too. -/
theorem relevant_of_cycle :
    let plain : Json.Members := [("count", .integer 3), ("end", .string "late")]
    let full : Json.Members := [("register", .integer 7), ("start", .null), ("end", .string "late"),
      ("note", .list []), ("count", .integer 3)]
    Step.ofArguments .cycle plain = Step.ofArguments .cycle full ∧
      Step.ofArguments .cycle full = .error (.invalidArgument .cycle "end" .notNatural) ∧
      Step.ofArguments .cycle (("fork", .string "yes") :: full) =
        .error (.invalidArgument .cycle "fork" .notBoolean) := by
  intro plain full
  have hagree : plain.AgreeOn full ("fork" :: Opcode.cycle.keys.map Prod.fst) := by
    simp [Json.Members.AgreeOn, Opcode.keys, plain, full, List.lookup, eq_comm]
  have hfull : full.Readable := ⟨1, by simp [full, Json.Readable]⟩
  have hforked : Json.Members.Readable (("fork", .string "yes") :: full) :=
    ⟨1, by simp [full, Json.Readable]⟩
  obtain ⟨-, hrefused⟩ := Step.ofArguments_relevant .cycle full
  obtain ⟨-, hforkRefused⟩ := Step.ofArguments_relevant .cycle (("fork", .string "yes") :: full)
  refine ⟨(Step.ofArguments_relevant .cycle plain).1 full hagree,
    (hrefused hfull.inRange _).mpr ?_, (hforkRefused hforked.inRange _).mpr ?_⟩
  · refine ⟨[("fork", .boolean), ("count", .count), ("start", .index)], "end", .index, [],
      .string "late", rfl, ?_, rfl, by simp, ?_, rfl⟩
    · have hcount : ArgumentKind.count.Admits (.integer 3) := ⟨3, by decide, rfl⟩
      simp [ArgumentKind.AllowedIn, full, List.lookup, hcount]
    · simp [ArgumentKind.Admits]
  · refine ⟨[], "fork", .boolean, Opcode.cycle.keys, .string "yes", rfl, List.forall_mem_nil _, rfl,
      by simp, ?_, rfl⟩
    simp [ArgumentKind.Admits]

end SpiralMachine
