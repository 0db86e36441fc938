import Mathlib.Data.List.Forall2
import SpiralMachine.Proofs.Program.Grammar

/-!
# One program from codes, pairs and texts

A step that is given by an opcode and its arguments is the same in a list of pairs and in each of
the shapes of an entry (`entry_of_presents`), so that pairs and entries that present them make the
same program (`ofJson_of_presents`). Bare codes make the program of their pairs without arguments
(`ofPairs_of_gives`), since an opcode without arguments has its default instruction and no fork
(`Step.ofArguments_nil`). There a code may be replaced by a name of its opcode, in any letter case
and with blanks around it (`Opcode.IsNamedBy`).
-/

set_option autoImplicit false

namespace SpiralMachine

/-! ### Names -/

namespace Text

/-- Blanks before a text that begins with none are dropped, and no more. -/
theorem dropWhile_isBlank_append {before rest : List Char} (hbefore : ∀ c ∈ before, isBlank c)
    (hrest : ∀ c ∈ rest.head?, isBlank c = false) :
    (before ++ rest).dropWhile isBlank = rest := by
  rw [List.dropWhile_append_of_pos hbefore]
  cases rest with
  | nil => rfl
  | cons first rest =>
    have hfirst : isBlank first = false := hrest first rfl
    exact List.dropWhile_cons_of_neg (by simp [hfirst])

/-- Blanks around a text that has none are trimmed. -/
theorem trimChars_append {before middle after : List Char} (hbefore : ∀ c ∈ before, isBlank c)
    (hafter : ∀ c ∈ after, isBlank c) (hmiddle : ∀ c ∈ middle, isBlank c = false)
    (hne : middle ≠ []) : trimChars (before ++ middle ++ after) = middle := by
  obtain ⟨first, rest, rfl⟩ := List.exists_cons_of_ne_nil hne
  have hfront : (before ++ first :: rest ++ after).dropWhile isBlank =
      first :: rest ++ after := by
    rw [List.append_assoc]
    refine dropWhile_isBlank_append hbefore fun c hc ↦ hmiddle c ?_
    cases hc
    exact List.mem_cons_self
  have hback : (after.reverse ++ (first :: rest).reverse).dropWhile isBlank =
      (first :: rest).reverse := by
    refine dropWhile_isBlank_append (by simpa using hafter) fun c hc ↦ hmiddle c ?_
    exact List.mem_reverse.mp (List.mem_of_head? hc)
  rw [trimChars, hfront, List.reverse_append, hback, List.reverse_reverse]

end Text

namespace Opcode

/-- The text is the name of the opcode, each letter in either case, with blanks around it. -/
def IsNamedBy (op : Opcode) (text : String) : Prop :=
  ∃ before letters after, text.toList = before ++ letters ++ after ∧
    (∀ c ∈ before, Text.isBlank c) ∧ (∀ c ∈ after, Text.isBlank c) ∧
    List.Forall₂ (fun letter given ↦ given = letter ∨ given = letter.toLower)
      op.name.toList letters

/-- A letter of a name is no blank in either case, and raised it is itself. -/
theorem letter_of_mem_name {op : Opcode} {letter given : Char} (hletter : letter ∈ op.name.toList)
    (h : given = letter ∨ given = letter.toLower) :
    given.toUpper = letter ∧ Text.isBlank given = false := by
  have hall : op.name.toList.all fun letter ↦ letter.toUpper = letter ∧
      letter.toLower.toUpper = letter ∧ ¬Text.isBlank letter ∧ ¬Text.isBlank letter.toLower := by
    cases op <;> decide
  have hboth := of_decide_eq_true (List.all_eq_true.mp hall letter hletter)
  simp only [Bool.not_eq_true] at hboth
  rcases h with rfl | rfl
  · exact ⟨hboth.1, hboth.2.2.1⟩
  · exact ⟨hboth.2.1, hboth.2.2.2⟩

theorem name_ne_nil (op : Opcode) : op.name.toList ≠ [] := by
  cases op <;> decide

theorem canonicalName_of_isNamedBy {op : Opcode} {text : String} (h : op.IsNamedBy text) :
    Text.raiseAscii (Text.trim text) = op.name := by
  obtain ⟨before, letters, after, htext, hbefore, hafter, hletters⟩ := h
  have hlength : op.name.toList.length = letters.length := hletters.length_eq
  have hgiven (place : Nat) (hplace : place < op.name.toList.length) :=
    letter_of_mem_name (List.getElem_mem hplace) (hletters.get hplace (hlength ▸ hplace))
  have hblank : ∀ c ∈ letters, Text.isBlank c = false := by
    intro c hc
    obtain ⟨place, hplace, rfl⟩ := List.getElem_of_mem hc
    exact (hgiven place (hlength ▸ hplace)).2
  have hraised : letters.map Char.toUpper = op.name.toList := by
    refine List.ext_getElem (by simp [hlength]) fun place _ hplace ↦ ?_
    rw [List.getElem_map]
    exact (hgiven place hplace).1
  have hne : letters ≠ [] := fun hnil ↦ op.name_ne_nil (by rw [← hraised, hnil, List.map_nil])
  rw [Text.trim, htext, Text.trimChars_append hbefore hafter hblank hne, Text.raiseAscii,
    String.toList_ofList, hraised, String.ofList_toList]

/-- A name of an opcode is resolved to it, in any letter case and with blanks around it. -/
theorem resolve_of_isNamedBy {op : Opcode} {text : String} (h : op.IsNamedBy text) :
    (OpcodeRef.byName text).resolve = .ok op :=
  resolve_byName_iff.mpr (.name (canonicalName_of_isNamedBy h))

end Opcode

/-! ### Steps -/

/-- Without arguments an opcode has its default instruction, and does not fork. -/
theorem Step.ofArguments_nil (op : Opcode) : ofArguments op [] = .ok ⟨.default op, false⟩ := by
  cases op <;> rfl

namespace OpcodeRef

/-- The opcode of an entry. -/
def json : OpcodeRef → Json
  | byCode code => .integer code
  | byName text => .string text

/-- Codes are bytes. -/
def IsByte : OpcodeRef → Prop
  | byCode code => code < 256
  | byName _ => True

/-- What stands for a code: the code, or a name of its opcode. -/
inductive Gives : OpcodeRef → UInt8 → Prop
  | code (code : UInt8) : Gives (.byCode code.toNat) code
  | name {op : Opcode} {text : String} {code : UInt8} (hcode : op.code = code.toNat)
    (h : op.IsNamedBy text) : Gives (.byName text) code

theorem Gives.isByte {ref : OpcodeRef} {code : UInt8} (h : ref.Gives code) : ref.IsByte := by
  cases h with
  | code => exact code.toNat_lt
  | name => trivial

/-- What stands for a code is resolved as the code is. -/
theorem Gives.resolve_eq {ref : OpcodeRef} {code : UInt8} (h : ref.Gives code) :
    ref.resolve = Opcode.ofCode code.toNat := by
  cases h with
  | code => rfl
  | name hcode hname => rw [Opcode.resolve_of_isNamedBy hname, ← hcode, Opcode.ofCode_code]

theorem IsByte.readable {ref : OpcodeRef} (h : ref.IsByte) (limit : ℕ) :
    Json.Readable limit ref.json := by
  cases ref with
  | byCode code =>
    have hcode : code < 256 := h
    rw [json, Json.Readable]
    omega
  | byName text =>
    rw [json, Json.Readable]
    trivial

end OpcodeRef

theorem Opcode.exists_eq_map_code {codes : List Nat} (h : ∀ code ∈ codes, code ≤ 15) :
    ∃ ops : List Opcode, codes = ops.map Opcode.code := by
  induction codes with
  | nil => exact ⟨[], rfl⟩
  | cons code rest ih =>
    rw [List.forall_mem_cons] at h
    obtain ⟨op, hop⟩ := Opcode.exists_code h.1
    obtain ⟨ops, hops⟩ := ih h.2
    exact ⟨op :: ops, by rw [List.map_cons, hop, hops]⟩

namespace Program

variable {index : ℕ}

theorem reference_json {ref : OpcodeRef} (h : ref.IsByte) : reference index ref.json = .ok ref := by
  cases ref with
  | byCode code =>
    have hcode : code < 256 := h
    have hrange : 0 ≤ (code : ℤ) ∧ (code : ℤ) < 256 := by omega
    rw [OpcodeRef.json, reference, if_pos hrange, Int.toNat_natCast]
  | byName text => rfl

/-- The step of an opcode and its arguments, as a list of pairs has it. -/
def pairStep (pair : OpcodeRef × Json.Members) : Except RunError Step := do
  let op ← resolve pair.1
  Step.ofArguments op pair.2

theorem ofPairs_eq (pairs : List (OpcodeRef × Json.Members)) :
    ofPairs pairs = Program.mk <$> pairs.mapM pairStep :=
  rfl

/-- An entry of any shape that gives the opcode and the arguments of the pair. -/
def Presents (value : Json) (pair : OpcodeRef × Json.Members) : Prop :=
  pair.1.IsByte ∧ ∃ args, Shape value pair.1.json args ∧ Brings args pair.2

/-- Wherever it stands, an entry has the step of the pair that it presents, or its error. -/
theorem entry_of_presents {value : Json} {pair : OpcodeRef × Json.Members}
    (h : Presents value pair) : entry index value = pairStep pair := by
  obtain ⟨hbyte, args, hshape, hbrings⟩ := h
  have hparts : parts index value = .ok (pair.1.json, args) := parts_eq_ok_iff.mpr hshape
  have hmembers : arguments index args = .ok pair.2 := arguments_eq_ok_iff.mpr hbrings
  calc entry index value
      = (do
          let op ← (reference index pair.1.json).mapError .invalidProgram
          let op ← resolve op
          let members ← (arguments index args).mapError .invalidProgram
          Step.ofArguments op members) := by rw [entry, hparts]; rfl
    _ = pairStep pair := by rw [reference_json hbyte, hmembers]; rfl

theorem mapM_entry_of_presents {values : List Json} {pairs : List (OpcodeRef × Json.Members)}
    (h : List.Forall₂ Presents values pairs) (start : ℕ) :
    (values.zipIdx start).mapM (fun (value, index) ↦ entry index value) = pairs.mapM pairStep := by
  induction h generalizing start with
  | nil => rfl
  | cons hfirst _ ih =>
    rw [List.zipIdx_cons, List.mapM_cons, List.mapM_cons, ih]
    dsimp only
    rw [entry_of_presents hfirst]

theorem ofJson_of_presents {values : List Json} {pairs : List (OpcodeRef × Json.Members)}
    (h : List.Forall₂ Presents values pairs) : ofJson (.list values) = ofPairs pairs := by
  rw [ofJson, mapM_entry_of_presents h]
  rfl

/-- The text of readable entries makes the program of the pairs that these present. -/
theorem ofText_render {values : List Json} {pairs : List (OpcodeRef × Json.Members)}
    (h : List.Forall₂ Presents values pairs)
    (hreadable : ∀ value ∈ values, Json.Readable (Json.depthLimit - 1) value) :
    ofText (Json.compact.render (.list values)) = ofPairs pairs := by
  have hlist : Json.Readable Json.depthLimit (.list values) := hreadable
  rw [ofText_eq_ofJson (Json.ofText?_render_eq hlist).1, ofJson_of_presents h]

/-! ### Codes -/

/-- The codes of opcodes make a program of their instructions without arguments. -/
theorem ofCodes_map_code (ops : List Opcode) :
    ofCodes (ops.map Opcode.code) = .ok (ofInstructions (ops.map .default)) := by
  have hops : (ops.map Opcode.code).mapM
      (fun code ↦ (Opcode.ofCode code).mapError RunError.unknownOpcode) = .ok ops := by
    induction ops with
    | nil => rfl
    | cons op rest ih =>
      rw [List.map_cons, List.mapM_cons, Opcode.ofCode_code, ih]
      rfl
  rw [ofCodes, hops]
  rfl

/-- The first code that is no opcode's is refused. -/
theorem ofCodes_of_unknown {before after : List Nat} {code : Nat}
    (hbefore : ∀ earlier ∈ before, earlier ≤ 15) (hcode : 15 < code) :
    ofCodes (before ++ code :: after) = .error (.unknownOpcode (.unknownCode code)) := by
  have hunknown := Opcode.ofCode_of_lt hcode
  have hops : (before ++ code :: after).mapM
      (fun code ↦ (Opcode.ofCode code).mapError RunError.unknownOpcode) =
        .error (.unknownOpcode (.unknownCode code)) := by
    induction before with
    | nil =>
      rw [List.nil_append, List.mapM_cons, hunknown]
      rfl
    | cons earlier rest ih =>
      rw [List.forall_mem_cons] at hbefore
      obtain ⟨op, rfl⟩ := Opcode.exists_code hbefore.1
      rw [List.cons_append, List.mapM_cons, Opcode.ofCode_code, ih hbefore.2]
      rfl
  rw [ofCodes, hops]
  rfl

/-- What stands for a code, without arguments, has the default step of the code. -/
theorem pairStep_of_gives {ref : OpcodeRef} {code : UInt8} (h : ref.Gives code) :
    pairStep (ref, []) = (fun op ↦ ⟨.default op, false⟩) <$>
      (Opcode.ofCode code.toNat).mapError RunError.unknownOpcode := by
  rw [pairStep, resolve, h.resolve_eq]
  cases Opcode.ofCode code.toNat with
  | error cause => rfl
  | ok op => exact Step.ofArguments_nil op

/-- Codes make the program of what stands for them, without arguments. -/
theorem ofPairs_of_gives {refs : List OpcodeRef} {codes : List UInt8}
    (h : List.Forall₂ OpcodeRef.Gives refs codes) :
    ofPairs (refs.map (·, [])) = ofCodes (codes.map UInt8.toNat) := by
  have hsteps : (refs.map (·, [])).mapM pairStep =
      (fun ops : List Opcode ↦ (ofInstructions (ops.map .default)).steps) <$>
        (codes.map UInt8.toNat).mapM
          (fun code ↦ (Opcode.ofCode code).mapError RunError.unknownOpcode) := by
    induction h with
    | nil => rfl
    | @cons ref code refs codes hfirst _ ih =>
      rw [List.map_cons, List.map_cons, List.mapM_cons, List.mapM_cons, ih,
        pairStep_of_gives hfirst]
      cases (Opcode.ofCode code.toNat).mapError RunError.unknownOpcode with
      | error cause => rfl
      | ok op =>
        cases (codes.map UInt8.toNat).mapM
          (fun code ↦ (Opcode.ofCode code).mapError RunError.unknownOpcode) <;> rfl
  rw [ofPairs_eq, hsteps, ofCodes]
  cases (codes.map UInt8.toNat).mapM
    (fun code ↦ (Opcode.ofCode code).mapError RunError.unknownOpcode) <;> rfl

theorem isByte_of_mem_of_gives {refs : List OpcodeRef} {codes : List UInt8}
    (h : List.Forall₂ OpcodeRef.Gives refs codes) : ∀ ref ∈ refs, ref.IsByte := by
  induction h with
  | nil => exact nofun
  | cons hfirst _ ih => exact List.forall_mem_cons.mpr ⟨hfirst.isByte, ih⟩

/-- So do texts of entries without arguments. -/
theorem ofText_of_gives {refs : List OpcodeRef} {codes : List UInt8} {write : OpcodeRef → Json}
    (h : List.Forall₂ OpcodeRef.Gives refs codes)
    (hshape : ∀ ref : OpcodeRef, Shape (write ref) ref.json none)
    (hreadable : ∀ ref : OpcodeRef, ref.IsByte →
      Json.Readable (Json.depthLimit - 1) (write ref)) :
    ofText (Json.compact.render (.list (refs.map write))) = ofCodes (codes.map UInt8.toNat) := by
  have hbyte := isByte_of_mem_of_gives h
  have hpresents : List.Forall₂ Presents (refs.map write) (refs.map (·, [])) := by
    rw [List.forall₂_map_left_iff, List.forall₂_map_right_iff, List.forall₂_same]
    exact fun ref href ↦ ⟨hbyte ref href, none, hshape ref, .nothing⟩
  rw [← ofPairs_of_gives h]
  refine ofText_render hpresents fun value hvalue ↦ ?_
  obtain ⟨ref, href, rfl⟩ := List.mem_map.mp hvalue
  exact hreadable ref (hbyte ref href)

/-- All ways to make a program agree. Codes make the program of the default instructions of their
opcodes, in which nothing forks, or are refused at the first that is no opcode's. Pairs without
arguments and the two texts of bare entries make the same, with a code or with a name of its opcode
in each place. A pair and the two shapes of an entry with arguments have the same step or the same
error, so that every text of entries makes what the pairs do that they present. -/
theorem constructors_agree :
    (∀ codes : List UInt8,
      let program := ofCodes (codes.map UInt8.toNat)
      ((∀ code ∈ codes, code ≤ 0xF) →
        ∃ ops : List Opcode, codes.map UInt8.toNat = ops.map Opcode.code ∧
          program = .ok (ofInstructions (ops.map .default))) ∧
      (∀ before code after, codes = before ++ code :: after →
        (∀ earlier ∈ before, earlier ≤ 0xF) → 0xF < code →
          program = .error (.unknownOpcode (.unknownCode code.toNat))) ∧
      ∀ refs : List OpcodeRef, List.Forall₂ OpcodeRef.Gives refs codes →
        ofPairs (refs.map (·, [])) = program ∧
        ofText (Json.compact.render (.list (refs.map fun ref ↦ .list [ref.json]))) = program ∧
        ofText (Json.compact.render (.list (refs.map fun ref ↦ .object [("op", ref.json)]))) =
          program) ∧
    (∀ (ref : OpcodeRef) (members : Json.Members), ref.IsByte →
      let step := pairStep (ref, members)
      ofPairs [(ref, members)] = (fun step ↦ ⟨[step]⟩) <$> step ∧
      ∀ index, entry index (.list [ref.json, .object members]) = step ∧
        ∀ fields : Json.Members, fields.lookup "op" = some ref.json →
          fields.lookup "args" = some (.object members) → entry index (.object fields) = step) ∧
    ∀ text values pairs, Json.ofText? text = some (.list values) →
      List.Forall₂ Presents values pairs → ofText text = ofPairs pairs := by
  refine ⟨fun codes ↦ ⟨fun hcodes ↦ ?_, ?_, fun refs hrefs ↦ ⟨ofPairs_of_gives hrefs, ?_, ?_⟩⟩,
    fun ref members hbyte ↦ ⟨?_, fun index ↦ ⟨?_, fun fields hop hargs ↦ ?_⟩⟩,
    fun text values pairs htext hpairs ↦ ?_⟩
  · have hbound : ∀ code ∈ codes.map UInt8.toNat, code ≤ 15 :=
      List.forall_mem_map.mpr fun code hcode ↦ UInt8.le_iff_toNat_le.mp (hcodes code hcode)
    obtain ⟨ops, hops⟩ := Opcode.exists_eq_map_code hbound
    exact ⟨ops, hops, by rw [hops, ofCodes_map_code]⟩
  · rintro before code after rfl hbefore hcode
    have hbound : ∀ earlier ∈ before.map UInt8.toNat, earlier ≤ 15 :=
      List.forall_mem_map.mpr fun earlier h ↦ UInt8.le_iff_toNat_le.mp (hbefore earlier h)
    rw [List.map_append, List.map_cons]
    exact ofCodes_of_unknown hbound (UInt8.lt_iff_toNat_lt.mp hcode)
  · refine ofText_of_gives hrefs (fun ref ↦ .bare ref.json) fun ref hbyte ↦ ?_
    exact List.forall_mem_singleton.mpr (hbyte.readable _)
  · refine ofText_of_gives hrefs (fun ref ↦ .record rfl) fun ref hbyte ↦ ?_
    exact ⟨by simp [Keyed.Sorted], List.forall_mem_singleton.mpr (hbyte.readable _)⟩
  · rw [ofPairs_eq, List.mapM_cons]
    cases pairStep (ref, members) <;> rfl
  · exact entry_of_presents ⟨hbyte, some (.object members), .pair .., .object members⟩
  · exact entry_of_presents ⟨hbyte, some (.object members), hargs ▸ .record hop, .object members⟩
  · rw [ofText_eq_ofJson htext, ofJson_of_presents hpairs]

/-- A forge by name and an init by its code make the program of their codes. Of two codes that are
no opcode's the first is reported. An entry with its arguments before its opcode, the pair in a list
and the text of the list have the same step. -/
theorem constructors_agree_of_spellings :
    let refs : List OpcodeRef := [.byName " Forge\t", .byCode 0]
    let members : Json.Members := [("mesh", .boolean true)]
    (∃ ops : List Opcode, ops.map Opcode.code = [9, 0] ∧
      ofPairs (refs.map (·, [])) = .ok (ofInstructions (ops.map .default)) ∧
      ofText (Json.compact.render (.list (refs.map fun ref ↦ .list [ref.json]))) =
        .ok (ofInstructions (ops.map .default))) ∧
      ofCodes [9, 16, 17] = .error (.unknownOpcode (.unknownCode 16)) ∧
      entry 4 (.object [("args", .object members), ("op", .integer 0)]) =
        .ok ⟨.init true, false⟩ ∧
      ofText "[[0,\x7b\"mesh\":true\x7d]]" = ofPairs [(.byCode 0, members)] := by
  intro refs members
  obtain ⟨hcodes, hentries, htexts⟩ := constructors_agree
  obtain ⟨hplain, -, hrefs⟩ := hcodes [9, 0]
  obtain ⟨-, hunknown, -⟩ := hcodes [9, 16, 17]
  have hname : Opcode.forge.IsNamedBy " Forge\t" :=
    ⟨[' '], ['F', 'o', 'r', 'g', 'e'], ['\t'], rfl, List.forall_mem_singleton.mpr rfl,
      List.forall_mem_singleton.mpr rfl,
      .cons (.inl rfl) (.cons (.inr rfl) (.cons (.inr rfl) (.cons (.inr rfl)
        (.cons (.inr rfl) .nil))))⟩
  have hgives : List.Forall₂ OpcodeRef.Gives refs [9, 0] :=
    .cons (.name rfl hname) (.cons (.code 0) .nil)
  have hzero : (OpcodeRef.byCode 0).IsByte := show 0 < 256 by decide
  have htext : Json.ofText? "[[0,\x7b\"mesh\":true\x7d]]" =
      some (.list [.list [.integer 0, .object members]]) := by rfl
  obtain ⟨ops, hops, hprogram⟩ := hplain (by simp)
  obtain ⟨hpairs, hrendered, -⟩ := hrefs refs hgives
  obtain ⟨-, hentry⟩ := hentries (.byCode 0) members hzero
  refine ⟨⟨ops, hops.symm, hpairs.trans hprogram, hrendered.trans hprogram⟩,
    hunknown [9] 16 [17] rfl (by simp) (by decide), ?_, ?_⟩
  · exact (hentry 4).2 _ rfl rfl
  · exact htexts _ _ _ htext
      (.cons ⟨hzero, some (.object members), .pair .., .object members⟩ .nil)

end Program

end SpiralMachine
