import SpiralMachine.Proofs.Json.Numeral

/-!
# JSON text reads back

`toDocument` is the document that a value is written as: its numbers as numerals, and what is
not a finite double as null. `ofText?_render` says that the text of any value, in any style
that sets its parts apart by blanks, is read as that document and nothing else.

The reader of a list or object does not look into its items, so that what is said of items in
brackets (`bracketed?_enclose`) is said of any reader that passes over blanks; values and
members are two such readers.
-/

set_option autoImplicit false

namespace SpiralMachine.Json

open Document
open Number (Numeral)
open Text (Reader hexValue?)

/-! ### The document of a value -/

def pieces (text : String) : List Piece := text.toList.map .char

mutual

/-- The document that a value is written as. -/
def toDocument : Json → Document
  | null => .null
  | boolean value => .boolean value
  | integer value => .numeral (integerNumeral value)
  | real value => if value.isFinite then .numeral (realNumeral value) else .null
  | string value => .quoted (pieces value)
  | list items => .list (toDocuments items)
  | object members => .object (memberDocuments members)

def toDocuments : List Json → List Document
  | [] => []
  | item :: items => toDocument item :: toDocuments items

def memberDocuments : List (String × Json) → List (List Piece × Document)
  | [] => []
  | (key, value) :: members => (pieces key, toDocument value) :: memberDocuments members

end

theorem toDocuments_eq (items : List Json) : toDocuments items = items.map toDocument := by
  induction items with
  | nil => rfl
  | cons item items ih => rw [toDocuments, ih, List.map_cons]

theorem memberDocuments_eq (members : List (String × Json)) :
    memberDocuments members = members.map fun (key, value) ↦ (pieces key, toDocument value) := by
  induction members with
  | nil => rfl
  | cons member members ih =>
    obtain ⟨key, value⟩ := member
    rw [memberDocuments, ih, List.map_cons]

/-! ### Strings -/

/-- What is read of a string after one more character. -/
def addPiece (c : Char) : List Piece × List Char → List Piece × List Char
  | (pieces, rest) => (.char c :: pieces, rest)

theorem pieces?_letter {letter c : Char} (hletter : letter ≠ 'u')
    (h : escaped? letter = some c) (rest : List Char) :
    pieces? ('\\' :: letter :: rest) = (pieces? rest).map (addPiece c) := by
  rw [pieces?.eq_def]
  split
  · rename_i heq
    cases heq
  · rename_i heq
    cases heq
  · rename_i heq
    cases heq
    exact absurd rfl hletter
  · rename_i heq
    cases heq
    rw [h]
    cases pieces? rest <;> rfl
  · rename_i hnone heq
    cases heq
    exact (hnone _ _ rfl rfl).elim

/-- An escaped character is read as that character. -/
theorem pieces?_escape (c : Char) (rest : List Char) :
    pieces? (escape c ++ rest) = (pieces? rest).map (addPiece c) := by
  have hhex : ∀ code : Fin 32, hexValue? ['0', '0', hexDigit (code.val / 16),
      hexDigit (code.val % 16)] = some code.val := by decide
  unfold escape
  split
  · exact pieces?_letter (by decide) rfl rest
  · exact pieces?_letter (by decide) rfl rest
  · exact pieces?_letter (by decide) rfl rest
  · exact pieces?_letter (by decide) rfl rest
  · exact pieces?_letter (by decide) rfl rest
  · exact pieces?_letter (by decide) rfl rest
  · exact pieces?_letter (by decide) rfl rest
  · rename_i hquote hbackslash _ _ _ _ _
    split
    · rename_i hcontrol
      have hcode := hhex ⟨c.toNat, hcontrol⟩
      dsimp only at hcode
      have hpiece : pieceOfUnit c.toNat = .char c := by
        have hwhole : isHalf c.toNat = false := by
          simp only [isHalf, Bool.and_eq_false_imp, decide_eq_true_eq, decide_eq_false_iff_not]
          omega
        rw [pieceOfUnit, hwhole, if_neg Bool.false_ne_true, Char.ofNat_toNat]
      rw [List.cons_append, List.cons_append, List.cons_append, List.cons_append, List.cons_append,
        List.cons_append, List.nil_append, pieces?, hcode]
      rw [Option.bind_eq_bind, Option.bind_some, hpiece]
      cases pieces? rest <;> rfl
    · rename_i hprinting
      rw [List.singleton_append, pieces?.eq_def]
      split
      · rename_i heq
        cases heq
      · rename_i heq
        cases heq
        exact absurd rfl hquote
      · rename_i heq
        cases heq
        exact absurd rfl hbackslash
      · rename_i heq
        cases heq
        exact absurd rfl hbackslash
      · rename_i heq
        cases heq
        rw [if_neg hprinting]
        cases pieces? rest <;> rfl

/-- A quoted string is read up to its closing quote. -/
theorem pieces?_escaped (text : List Char) (rest : List Char) :
    pieces? (text.flatMap escape ++ '"' :: rest) = some (text.map .char, rest) := by
  induction text with
  | nil => rfl
  | cons c others ih =>
    rw [List.flatMap_cons, List.append_assoc, pieces?_escape, ih]
    rfl

/-- The pieces of a string make that string. -/
theorem text?_pieces (text : String) : Piece.text? (pieces text) = some text := by
  have hchars : ∀ chars : List Char, Piece.chars? (chars.map .char) = some chars := by
    intro chars
    induction chars with
    | nil => rfl
    | cons c others ih =>
      rw [List.map_cons, Piece.chars?, ih]
      rfl
  unfold Piece.text? pieces
  rw [hchars]
  exact congrArg some String.ofList_toList

/-! ### Blanks -/

/-- A text of blanks alone. -/
def IsBlank (text : List Char) : Prop := ∀ c ∈ text, isSpace c

theorem skipSpace_append {lead : List Char} (h : IsBlank lead) (text : List Char) :
    skipSpace (lead ++ text) = skipSpace text :=
  List.dropWhile_append_of_pos h

theorem skipSpace_cons {c : Char} (h : isSpace c = false) (text : List Char) :
    skipSpace (c :: text) = c :: text := by
  unfold skipSpace
  rw [List.dropWhile_cons, h]
  rfl

/-- A blank ends a numeral. -/
theorem endsNumeral_of_isBlank {lead text : List Char} (h : IsBlank lead)
    (htext : EndsNumeral text) : EndsNumeral (lead ++ text) := by
  cases lead with
  | nil => exact htext
  | cons c others =>
    intro first hfirst
    cases hfirst
    have hblank := h c (List.mem_cons_self ..)
    simp only [isSpace, Bool.or_eq_true, decide_eq_true_eq] at hblank
    rcases hblank with ((rfl | rfl) | rfl) | rfl <;> decide

theorem endsNumeral_cons {c : Char} (text : List Char)
    (h : c.isDigit = false ∧ c ≠ '.' ∧ c ≠ 'e' ∧ c ≠ 'E') : EndsNumeral (c :: text) := by
  intro first hfirst
  cases hfirst
  exact h

/-! ### Items in brackets -/

/-- A closing bracket. -/
def IsClosing (c : Char) : Prop := c = ']' ∨ c = '\x7d'

/-- A reader of the items in brackets: it passes over blanks, and finds nothing at the end of
a text or before the closing bracket. -/
structure ReadsItems {α : Type} (item? : Reader α) (close : Char) : Prop where
  skip : ∀ lead text, IsBlank lead → item? (lead ++ text) = item? text
  none_of_nil : ∀ text, skipSpace text = [] → item? text = none
  none_of_close : ∀ text rest, skipSpace text = close :: rest → item? text = none

/-- Texts that a reader takes one value each from, whatever follows. -/
def ReadsAs {α : Type} (item? : Reader α) (text : List Char) (value : α) : Prop :=
  ∀ rest, EndsNumeral rest → item? (text ++ rest) = some (value, rest)

/-- Items up to the closing bracket. -/
theorem items?_enclosed {α : Type} {item? : Reader α} {close : Char}
    (hreader : ReadsItems item? close) (hclose : IsClosing close) {lead tail : List Char}
    (hlead : IsBlank lead) (htail : IsBlank tail) (rest : List Char) {text : List Char} {value : α}
    (htext : ReadsAs item? text value) {others : List (List Char)} {values : List α}
    (hothers : List.Forall₂ (ReadsAs item?) others values) {bound : ℕ}
    (hbound : others.length < bound) :
    items? item? close bound (lead ++ (text ++ (others.flatMap (fun item ↦ ',' :: (lead ++ item))
      ++ (tail ++ close :: rest)))) = some (value :: values, rest) := by
  have hbracket : isSpace close = false ∧ close ≠ ',' ∧
      (close.isDigit = false ∧ close ≠ '.' ∧ close ≠ 'e' ∧ close ≠ 'E') := by
    rcases hclose with rfl | rfl <;> decide
  obtain ⟨hspace, hcomma, hends⟩ := hbracket
  induction hothers generalizing text value bound with
  | nil =>
    obtain ⟨bound, rfl⟩ := Nat.exists_eq_succ_of_ne_zero (Nat.ne_zero_of_lt hbound)
    rw [items?, hreader.skip _ _ hlead, List.flatMap_nil, List.nil_append,
      htext _ (endsNumeral_of_isBlank htail (endsNumeral_cons _ hends)), Option.bind_eq_bind,
      Option.bind_some]
    dsimp only
    rw [skipSpace_append htail, skipSpace_cons hspace]
    split
    · rename_i heq
      cases heq
      exact absurd rfl hcomma
    · rename_i heq
      cases heq
      rw [if_pos rfl]
    · rename_i heq
      cases heq
  | @cons next following others values hnext hothers ih =>
    obtain ⟨bound, rfl⟩ := Nat.exists_eq_succ_of_ne_zero (Nat.ne_zero_of_lt hbound)
    have hcount : others.length < bound := by simpa using hbound
    have hlast := ih hnext hcount
    rw [items?, hreader.skip _ _ hlead, List.flatMap_cons, List.append_assoc, List.cons_append,
      htext _ (endsNumeral_cons _ (by decide)), Option.bind_eq_bind, Option.bind_some]
    dsimp only
    rw [skipSpace_cons (by decide)]
    split
    · rename_i heq
      cases heq
      rw [List.append_assoc, hlast]
      rfl
    · rename_i hnone heq
      cases heq
      exact (hnone rfl).elim
    · rename_i heq
      cases heq

/-- A style that sets the parts of a list or object apart by blanks. -/
structure Style.IsBlank (style : Style) : Prop where
  lineBreak : ∀ depth, Json.IsBlank (style.lineBreak depth)
  colon : ∃ blanks, style.colon = ':' :: blanks ∧ Json.IsBlank blanks

theorem compact_isBlank : compact.IsBlank where
  lineBreak := by simp [compact, IsBlank]
  colon := ⟨[], rfl, by simp [IsBlank]⟩

theorem pretty_isBlank : pretty.IsBlank where
  lineBreak := by
    intro depth c hc
    rcases List.mem_cons.mp hc with rfl | hc
    · rfl
    · rw [List.eq_of_mem_replicate hc]
      rfl
  colon := ⟨[' '], rfl, by simp [IsBlank, isSpace]⟩

variable {style : Style}

/-- What stands in brackets is read as the items that were put there. -/
theorem bracketed?_enclose {α : Type} {item? : Reader α} {close : Char} (hstyle : style.IsBlank)
    (hreader : ReadsItems item? close) (hclose : IsClosing close) (opening : Char) (depth : ℕ)
    {texts : List (List Char)} {values : List α}
    (h : List.Forall₂ (ReadsAs item?) texts values) {bound : ℕ} (hbound : texts.length ≤ bound)
    (rest : List Char) :
    ∃ inside, style.enclose opening close depth texts ++ rest = opening :: inside ∧
      bracketed? item? close bound inside = some (values, rest) := by
  have hspace : isSpace close = false := by rcases hclose with rfl | rfl <;> rfl
  cases h with
  | nil =>
    refine ⟨close :: rest, rfl, ?_⟩
    unfold bracketed?
    rw [skipSpace_cons hspace]
    exact if_pos rfl
  | @cons text value others values htext hothers =>
    have hcount : others.length < bound := hbound
    have hread := items?_enclosed hreader hclose (hstyle.lineBreak (depth + 1))
      (hstyle.lineBreak depth) rest htext hothers hcount
    generalize hinside : style.lineBreak (depth + 1) ++ _ = inside at hread
    have hnone : item? inside = none → False := by
      intro hnone
      obtain ⟨bound, rfl⟩ := Nat.exists_eq_succ_of_ne_zero (Nat.ne_zero_of_lt hbound)
      rw [items?, hnone] at hread
      cases hread
    refine ⟨inside, ?_, ?_⟩
    · rw [← hinside]
      simp [Style.enclose]
    · unfold bracketed?
      split
      · rename_i hskip
        exact (hnone (hreader.none_of_nil _ hskip)).elim
      · rename_i c others hskip
        split
        · rename_i hc
          exact (hnone (hreader.none_of_close _ _ (hc ▸ hskip))).elim
        · exact hread

/-- Items, and their number, beside the text that they are enclosed in. -/
theorem length_enclose (style : Style) (opening close : Char) (depth : ℕ)
    (texts : List (List Char)) :
    texts.length < (style.enclose opening close depth texts).length ∧
      ∀ text ∈ texts, text.length + 1 < (style.enclose opening close depth texts).length := by
  cases texts with
  | nil => simp [Style.enclose]
  | cons first others =>
    have hjoined : ∀ (lead : List Char) (others : List (List Char)),
        others.length ≤ (others.flatMap fun item ↦ ',' :: (lead ++ item)).length ∧
          ∀ text ∈ others,
            text.length ≤ (others.flatMap fun item ↦ ',' :: (lead ++ item)).length := by
      intro lead others
      induction others with
      | nil => simp
      | cons next others ih =>
        obtain ⟨hcount, hlength⟩ := ih
        rw [List.flatMap_cons, List.length_append, List.length_cons, List.length_cons,
          List.length_append]
        refine ⟨by omega, fun text htext ↦ ?_⟩
        rcases List.mem_cons.mp htext with rfl | htext
        · omega
        · have := hlength text htext
          omega
    obtain ⟨hcount, hlength⟩ := hjoined (style.lineBreak (depth + 1)) others
    unfold Style.enclose
    simp only [List.length_cons, List.length_append, List.length_nil]
    refine ⟨by omega, fun text htext ↦ ?_⟩
    rcases List.mem_cons.mp htext with rfl | htext
    · omega
    · have := hlength text htext
      omega

/-! ### Values -/

/-- A numeral is read as one. -/
theorem document?_numeral {text rest : List Char} {number : Numeral}
    (h : numeral? text = some (number, rest)) (bound : ℕ) :
    document? (bound + 1) text = some (.numeral number, rest) := by
  obtain ⟨c, others, rfl, hc⟩ := head_of_numeral? h
  have hspace : isSpace c = false := by
    by_contra hblank
    simp only [isSpace, Bool.not_eq_false, Bool.or_eq_true, decide_eq_true_eq] at hblank
    rcases hblank with ((rfl | rfl) | rfl) | rfl <;> revert hc <;> decide
  rw [document?, skipSpace_cons hspace]
  split
  case h_7 => rw [h]; rfl
  -- no other document starts with a sign or a digit
  all_goals
    rename_i heq
    cases heq
    exact absurd hc (by decide)

theorem readsItems_document? (bound : ℕ) : ReadsItems (document? bound) ']' where
  skip := by
    intro lead text hlead
    cases bound with
    | zero => rfl
    | succ bound => rw [document?, document?, skipSpace_append hlead]
  none_of_nil := by
    intro text htext
    cases bound with
    | zero => rfl
    | succ bound =>
      rw [document?, htext]
      rfl
  none_of_close := by
    intro text rest htext
    cases bound with
    | zero => rfl
    | succ bound =>
      rw [document?, htext]
      rfl

theorem readsItems_member? (bound : ℕ) : ReadsItems (member? (document? bound)) '\x7d' where
  skip := by
    intro lead text hlead
    rw [member?, member?, skipSpace_append hlead]
  none_of_nil := by
    intro text htext
    rw [member?, htext]
  none_of_close := by
    intro text rest htext
    rw [member?, htext]
    rfl

/-- A quoted string, whatever follows it. -/
theorem pieces?_quote (text : String) (rest : List Char) :
    ∃ inside, quote text ++ rest = '"' :: inside ∧
      pieces? inside = some (pieces text, rest) := by
  refine ⟨text.toList.flatMap escape ++ '"' :: rest, ?_, pieces?_escaped text.toList rest⟩
  simp [quote]

/-- A member is read once its value is. -/
theorem member?_readsAs (hstyle : style.IsBlank) (key : String) {value? : Reader Document}
    {text : List Char} {value : Document} (hskip : ∀ lead text, IsBlank lead →
      value? (lead ++ text) = value? text) (h : ReadsAs value? text value) :
    ReadsAs (member? value?) (quote key ++ style.colon ++ text) (pieces key, value) := by
  intro rest hrest
  obtain ⟨blanks, hcolon, hblanks⟩ := hstyle.colon
  obtain ⟨inside, hquote, hkey⟩ := pieces?_quote key (style.colon ++ (text ++ rest))
  rw [List.append_assoc, List.append_assoc, hquote, member?, skipSpace_cons (by decide)]
  split
  · rename_i heq
    cases heq
    rw [hkey, hcolon, Option.bind_eq_bind, Option.bind_some]
    dsimp only
    rw [List.cons_append, skipSpace_cons (by decide)]
    split
    · rename_i heq
      cases heq
      rw [hskip _ _ hblanks, h rest hrest]
      rfl
    · rename_i hnone
      exact (hnone _ rfl).elim
  · rename_i hnone
    exact (hnone _ rfl).elim

mutual

/-- The text of a value is read as its document. -/
theorem document?_write (hstyle : style.IsBlank) (value : Json) (depth bound : ℕ)
    (hbound : (style.write depth value).length < bound) :
    ReadsAs (document? bound) (style.write depth value) (toDocument value) := by
  obtain ⟨bound, rfl⟩ := Nat.exists_eq_succ_of_ne_zero (Nat.ne_zero_of_lt hbound)
  cases value with
  | null => exact fun rest _ ↦ rfl
  | boolean value => cases value <;> exact fun rest _ ↦ rfl
  | integer value => exact fun rest hrest ↦ document?_numeral (numeral?_integerText value hrest) _
  | real value =>
    intro rest hrest
    rw [Style.write, toDocument]
    by_cases hfinite : value.isFinite
    · rw [if_pos hfinite]
      exact document?_numeral (numeral?_realText hfinite hrest) _
    · rw [if_neg hfinite, realText, if_neg hfinite]
      rfl
  | string value =>
    intro rest _
    obtain ⟨inside, hquote, hpieces⟩ := pieces?_quote value rest
    rw [Style.write, toDocument, hquote, document?, skipSpace_cons (by decide)]
    change (do
      let (pieces, rest) ← pieces? inside
      some (Document.quoted pieces, rest)) = _
    rw [hpieces]
    rfl
  | list items =>
    intro rest _
    rw [Style.write] at hbound ⊢
    obtain ⟨hitemCount, hlength⟩ := length_enclose style '[' ']' depth
      (style.writeItems (depth + 1) items)
    have hitems := document?_writeItems hstyle items (depth + 1) bound fun text htext ↦ by
      have := hlength text htext
      omega
    have hcount : (style.writeItems (depth + 1) items).length ≤ bound := by omega
    obtain ⟨inside, htext, hread⟩ := bracketed?_enclose hstyle (readsItems_document? bound)
      (.inl rfl) '[' depth hitems hcount rest
    rw [htext, toDocument, document?, skipSpace_cons (by decide)]
    change (do
      let (items, rest) ← bracketed? (document? bound) ']' bound inside
      some (Document.list items, rest)) = _
    rw [hread]
    rfl
  | object members =>
    intro rest _
    rw [Style.write] at hbound ⊢
    obtain ⟨hitemCount, hlength⟩ := length_enclose style '\x7b' '\x7d' depth
      (style.writeMembers (depth + 1) members)
    have hmembers := member?_writeMembers hstyle members (depth + 1) bound fun text htext ↦ by
      have := hlength text htext
      omega
    have hcount : (style.writeMembers (depth + 1) members).length ≤ bound := by omega
    obtain ⟨inside, htext, hread⟩ := bracketed?_enclose hstyle (readsItems_member? bound)
      (.inr rfl) '\x7b' depth hmembers hcount rest
    rw [htext, toDocument, document?, skipSpace_cons (by decide)]
    change (do
      let (members, rest) ← bracketed? (member? (document? bound)) '\x7d' bound inside
      some (Document.object members, rest)) = _
    rw [hread]
    rfl

theorem document?_writeItems (hstyle : style.IsBlank) (items : List Json) (depth bound : ℕ)
    (hbound : ∀ text ∈ style.writeItems depth items, text.length < bound) :
    List.Forall₂ (ReadsAs (document? bound)) (style.writeItems depth items)
      (toDocuments items) := by
  cases items with
  | nil => exact .nil
  | cons item items =>
    rw [Style.writeItems] at hbound ⊢
    rw [toDocuments]
    exact .cons
      (document?_write hstyle item depth bound (hbound _ (List.mem_cons_self ..)))
      (document?_writeItems hstyle items depth bound fun text htext ↦
        hbound text (List.mem_cons_of_mem _ htext))

theorem member?_writeMembers (hstyle : style.IsBlank) (members : List (String × Json))
    (depth bound : ℕ) (hbound : ∀ text ∈ style.writeMembers depth members, text.length < bound) :
    List.Forall₂ (ReadsAs (member? (document? bound))) (style.writeMembers depth members)
      (memberDocuments members) := by
  match members with
  | [] => exact .nil
  | (key, value) :: members =>
    rw [Style.writeMembers] at hbound ⊢
    rw [memberDocuments]
    have hvalue := hbound _ (List.mem_cons_self ..)
    rw [List.length_append] at hvalue
    exact .cons
      (member?_readsAs hstyle key (readsItems_document? bound).skip
        (document?_write hstyle value depth bound (by omega)))
      (member?_writeMembers hstyle members depth bound fun text htext ↦
        hbound text (List.mem_cons_of_mem _ htext))

end

/-- The text of a value is one document, and nothing is left of it. -/
theorem ofText?_render (hstyle : style.IsBlank) (value : Json) :
    Document.ofText? (style.render value) = some (toDocument value) := by
  have hread := document?_write hstyle value 0 ((style.write 0 value).length + 1)
    (Nat.lt_succ_self _) [] (by simp [EndsNumeral])
  rw [List.append_nil] at hread
  unfold Document.ofText? Style.render Document.ofChars?
  rw [String.toList_ofList, hread]
  rfl

end SpiralMachine.Json
