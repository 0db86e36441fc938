import Mathlib.Data.List.Basic
import Mathlib.Data.List.TakeWhile
import SpiralMachine.FileTree

/-!
# What can be stored, and what is read after it

A file that was stored is found by the same path, with the text that was stored (`read_store`).
Storing it puts a file in the place of a file or in a vacant place; the directories on the way
to it are left as they are, so that the same names lead there (`follow_put`).

A path of proper names (`Spells`) can be stored wherever it begins, unless a file stands on its way
or a directory in its place (`Spells.store_of_clear`): the directories that are missing are made one
below another (`makeWay_of_clear`), and nothing else of the tree is touched.
-/

set_option autoImplicit false

namespace SpiralMachine.FileTree

variable {tree : FileTree}

theorem lookup_filter_ne {α : Type} (entries : List (FilePath × α)) {place other : FilePath}
    (h : other ≠ place) :
    (entries.filter (·.1 ≠ place)).lookup other = entries.lookup other := by
  induction entries with
  | nil => rfl
  | cons entry rest ih =>
    by_cases hplace : entry.1 = place
    · have hother : (other == entry.1) = false := by simpa [hplace] using h
      rw [List.filter_cons_of_neg (by simpa using hplace), ih, List.lookup_cons, hother]
    · rw [List.filter_cons_of_pos (by simpa using hplace), List.lookup_cons, List.lookup_cons, ih]

/-- Putting an entry at a place changes what stands there, and nothing else. -/
theorem entry?_put {place : FilePath} (hplace : place ≠ []) (entry : FileEntry)
    (other : FilePath) :
    FileTree.entry? (tree.put place entry) other =
      if other = place then some entry else tree.entry? other := by
  have hput : (tree.put place entry).entries.lookup other =
      ((tree.entries.filter (·.1 ≠ place)).lookup other).or ([(place, entry)].lookup other) :=
    List.lookup_append
  unfold entry?
  rw [hput]
  by_cases hother : other = place
  · have hnone : (tree.entries.filter (·.1 ≠ place)).lookup place = none := by
      rw [List.lookup_eq_none_iff]
      intro found hfound
      have hne : found.1 ≠ place := by simpa using (List.mem_filter.mp hfound).2
      simpa using hne.symm
    rw [if_pos hother, hother, hnone, if_neg (by simpa using hplace)]
    simp
  · have hbeq : (other == place) = false := by simpa using hother
    rw [if_neg hother, lookup_filter_ne _ hother, List.lookup_cons, hbeq, List.lookup_nil,
      Option.or_none]

/-- In an empty tree stand the top and the working directory. -/
theorem entry?_empty (place : FilePath) : empty.entry? place =
    if place = [] ∨ place = empty.home then some .directory else none := by
  unfold entry? empty
  by_cases hplace : place = ["home"]
  · simp [hplace]
  · have hbeq : (place == ["home"]) = false := by simpa using hplace
    simp [List.lookup_cons, hbeq, hplace]

/-! ### What is read -/

/-- Names lead past a new file where they led before, if it takes no directory's place. -/
theorem follow_put {place : FilePath} (hplace : place ≠ []) (text : String)
    (hfree : tree.entry? place ≠ some .directory) {start stop : FilePath} {names : List String}
    (h : tree.follow start names = .ok stop) :
    (tree.put place (.file text)).follow start names = .ok stop := by
  induction names generalizing start with
  | nil => exact h
  | cons name rest ih =>
    unfold follow at h ⊢
    by_cases hstays : stays name
    · rw [if_pos hstays] at h ⊢
      exact ih h
    by_cases hup : name = ".."
    · rw [if_neg hstays, if_pos hup] at h ⊢
      exact ih h
    by_cases hlong : nameLimit < name.utf8ByteSize
    · rw [if_neg hstays, if_neg hup, if_pos hlong] at h
      cases h
    · rw [if_neg hstays, if_neg hup, if_neg hlong] at h ⊢
      split at h
      · rename_i hdirectory
        have hother : start ++ [name] ≠ place := fun heq ↦ hfree (heq ▸ hdirectory)
        rw [entry?_put hplace, if_neg hother, hdirectory]
        exact ih h
      · cases h
      · cases h

/-- A path that is not refused leads where its names but the last lead. -/
theorem locate_eq (tree : FileTree) (path : String) :
    tree.locate path =
      match refusal? path with
      | some cause => .error cause
      | none =>
        let proper := (names path).filter (· ≠ "")
        (tree.follow (tree.start path) proper.dropLast).map fun place ↦
          (place, proper.getLastD ".") := by
  unfold locate
  cases refusal? path with
  | some cause => rfl
  | none =>
    dsimp only
    cases tree.follow (tree.start path) ((names path).filter (· ≠ "")).dropLast <;> rfl

/-- A path leads past a new file where it led before, if the file takes no directory's place. -/
theorem locate_put {path name : String} {start place : FilePath} (hplace : place ≠ [])
    (text : String) (hfree : tree.entry? place ≠ some .directory)
    (h : tree.locate path = .ok (start, name)) :
    (tree.put place (.file text)).locate path = .ok (start, name) := by
  rw [locate_eq] at h ⊢
  cases hrefusal : refusal? path with
  | some cause =>
    rw [hrefusal] at h
    cases h
  | none =>
    rw [hrefusal] at h
    dsimp only at h ⊢
    cases hstart : tree.follow (tree.start path) ((names path).filter (· ≠ "")).dropLast with
    | error cause =>
      rw [hstart] at h
      cases h
    | ok stop =>
      rw [hstart] at h
      rw [show (tree.put place (.file text)).start path = tree.start path from rfl,
        follow_put hplace text hfree hstart]
      exact h

/-- What an update does under the last name of a path. -/
theorem update_eq {path name : String} {start : FilePath}
    (hlocate : tree.locate path = .ok (start, name)) (text : String → String) :
    tree.update path text =
      if name = "." ∨ name = ".." ∨ asksDirectory path then .error .isDirectory
      else if nameLimit < name.utf8ByteSize then .error .nameTooLong
      else match tree.entry? (start ++ [name]) with
        | some .directory => .error .isDirectory
        | some (.file old) => .ok (tree.put (start ++ [name]) (.file (text old)))
        | none => .ok (tree.put (start ++ [name]) (.file (text ""))) := by
  have hcondition : (name = "." ∨ name = ".." ∨ asksDirectory path) ↔
      (decide (name = ".") || decide (name = "..") || asksDirectory path) = true := by
    simp [or_assoc]
  rw [update, hlocate, if_congr hcondition rfl rfl]
  rfl

/-- An update puts a file under a proper name in a directory, where none stands. -/
theorem exists_put_of_update {path : String} {text : String → String} {updated : FileTree}
    (h : tree.update path text = .ok updated) :
    ∃ start name old, tree.locate path = .ok (start, name) ∧
      ¬(name = "." ∨ name = ".." ∨ asksDirectory path) ∧ name.utf8ByteSize ≤ nameLimit ∧
      tree.entry? (start ++ [name]) ≠ some .directory ∧
      updated = tree.put (start ++ [name]) (.file (text old)) := by
  cases hlocate : tree.locate path with
  | error cause =>
    rw [update, hlocate] at h
    cases h
  | ok found =>
    obtain ⟨start, name⟩ := found
    rw [update_eq hlocate] at h
    by_cases hdirectory : name = "." ∨ name = ".." ∨ asksDirectory path
    · rw [if_pos hdirectory] at h
      cases h
    by_cases hlong : nameLimit < name.utf8ByteSize
    · rw [if_neg hdirectory, if_pos hlong] at h
      cases h
    · rw [if_neg hdirectory, if_neg hlong] at h
      split at h <;> rename_i hentry <;> cases h
      · exact ⟨start, name, _, rfl, hdirectory, Nat.not_lt.mp hlong, by simp [hentry], rfl⟩
      · exact ⟨start, name, _, rfl, hdirectory, Nat.not_lt.mp hlong, by simp [hentry], rfl⟩

/-- A file that was updated holds what was made of its old text. -/
theorem read_update {path : String} {text : String → String} {updated : FileTree}
    (h : tree.update path text = .ok updated) : ∃ old, updated.read path = .ok (text old) := by
  obtain ⟨start, name, old, hlocate, hdirectory, hshort, hfree, rfl⟩ := exists_put_of_update h
  simp only [not_or] at hdirectory
  obtain ⟨hdot, hup, hasks⟩ := hdirectory
  have hbelow : start ++ [name] ≠ [] := by simp
  refine ⟨old, ?_⟩
  rw [read, locate_put hbelow _ hfree hlocate]
  change (if (decide (name = ".") || decide (name = "..")) = true then _ else _) = _
  rw [if_neg (by simp [hdot, hup]), if_neg (Nat.not_lt.mpr hshort), entry?_put hbelow, if_pos rfl]
  change (if asksDirectory path = true then _ else _) = _
  rw [if_neg hasks]
  rfl

/-- A file that was stored holds what was made of its old text. -/
theorem read_store {stored : FileTree} {path : String} {text : String → String}
    (h : tree.store path text = (stored, none)) : ∃ old, stored.read path = .ok (text old) := by
  unfold store at h
  split at h
  · cases h
  · split at h
    · rename_i updated hupdate
      cases h
      exact read_update hupdate
    · cases h

/-! ### What can be stored -/

/-- The names that a file or a directory can have. -/
def IsProper (name : String) : Prop :=
  ¬stays name ∧ name ≠ ".." ∧ name.utf8ByteSize ≤ nameLimit

instance (name : String) : Decidable (IsProper name) :=
  inferInstanceAs (Decidable (_ ∧ _))

theorem IsProper.ne_empty {name : String} (h : IsProper name) : name ≠ "" := by
  rintro rfl
  exact h.1 rfl

/-- A proper name leads on to the directory that bears it. -/
theorem follow_cons {start : FilePath} {name : String} {rest : List String}
    (hname : IsProper name) (hentry : tree.entry? (start ++ [name]) = some .directory) :
    tree.follow start (name :: rest) = tree.follow (start ++ [name]) rest := by
  rw [follow, if_neg hname.1, if_neg hname.2.1, if_neg (Nat.not_lt.mpr hname.2.2), hentry]

/-- Under a proper name that no file bears a directory is found or made, and nothing else is
touched. -/
theorem makeWay_cons (made : Bool) {start : FilePath} {name : String} (rest : List String)
    (hname : IsProper name) (hclear : ∀ text, tree.entry? (start ++ [name]) ≠ some (.file text)) :
    ∃ made' next, tree.makeWay made start (name :: rest) =
        FileTree.makeWay next made' (start ++ [name]) rest ∧ next.home = tree.home ∧
      ∀ other, next.entry? other =
        if other = start ++ [name] then some .directory else tree.entry? other := by
  rw [makeWay, if_neg hname.1, if_neg hname.2.1, if_neg (Nat.not_lt.mpr hname.2.2)]
  cases hentry : tree.entry? (start ++ [name]) with
  | some entry =>
    cases entry with
    | file text => exact absurd hentry (hclear text)
    | directory =>
      refine ⟨made, tree, rfl, rfl, fun other ↦ ?_⟩
      split
      · rename_i hother
        rw [hother, hentry]
      · rfl
  | none => exact ⟨true, _, rfl, rfl, entry?_put (by simp) .directory⟩

/-- A way of proper names on which no file stands can be made, and then leads where its names
say. Nothing beside it is touched. -/
theorem makeWay_of_clear (made : Bool) {start : FilePath} {names : List String}
    (hnames : ∀ name ∈ names, IsProper name)
    (hclear : ∀ front, front <+: names → ∀ text, tree.entry? (start ++ front) ≠ some (.file text)) :
    ∃ way, tree.makeWay made start names = (way, none) ∧ way.home = tree.home ∧
      FileTree.follow way start names = .ok (start ++ names) ∧
      ∀ other, (∀ front, front <+: names → front ≠ [] → other ≠ start ++ front) →
        way.entry? other = tree.entry? other := by
  induction names generalizing tree made start with
  | nil => exact ⟨tree, rfl, rfl, by rw [follow, List.append_nil], fun _ _ ↦ rfl⟩
  | cons name rest ih =>
    rw [List.forall_mem_cons] at hnames
    have hfirst : [name] <+: name :: rest := by simp
    obtain ⟨made', next, hmake, hhome, hnext⟩ :=
      makeWay_cons made rest hnames.1 (hclear [name] hfirst)
    have hclear' : ∀ front, front <+: rest →
        ∀ text, next.entry? (start ++ [name] ++ front) ≠ some (.file text) := by
      intro front hfront text
      rw [hnext]
      split
      · simp
      · rw [List.append_assoc]
        exact hclear (name :: front) (by simpa using hfront) text
    obtain ⟨way, hway, hhome', hfollow, hkept⟩ := ih made' hnames.2 hclear'
    have hdirectory : way.entry? (start ++ [name]) = some .directory := by
      rw [hkept, hnext, if_pos rfl]
      intro front _ hne heq
      exact hne (by simpa using heq)
    refine ⟨way, hmake.trans hway, hhome'.trans hhome, ?_, fun other hother ↦ ?_⟩
    · rw [follow_cons hnames.1 hdirectory, hfollow, List.append_assoc, List.singleton_append]
    · have hne : other ≠ start ++ [name] := hother [name] hfirst (by simp)
      rw [hkept, hnext, if_neg hne]
      intro front hfront _
      rw [List.append_assoc]
      exact hother (name :: front) (by simpa using hfront) (by simp)

/-- The names of a path with the slashes between them give the path. -/
theorem intercalate_names (path : String) : String.intercalate "/" (names path) = path := by
  rw [← String.toList_inj, String.toList_intercalate, names, List.map_map]
  simp [Function.comp_def, List.intercalate_splitOn]

/-- What begins a path that is not refused is not refused. -/
theorem refusal?_of_append {front back : String} (hfront : front ≠ "")
    (h : refusal? (front ++ back) = none) : refusal? front = none := by
  have hne : front ++ back ≠ "" := by simp [hfront]
  unfold refusal? at h ⊢
  rw [if_neg hne] at h
  rw [if_neg hfront]
  by_cases hnul : '\x00' ∈ (front ++ back).toList
  · rw [if_pos hnul] at h
    cases h
  by_cases hlong : pathLimit ≤ (front ++ back).utf8ByteSize
  · rw [if_neg hnul, if_pos hlong] at h
    cases h
  · rw [String.toList_append, List.mem_append, not_or] at hnul
    rw [String.utf8ByteSize_append] at hlong
    rw [if_neg hnul.1, if_neg (by omega)]

theorem intercalate_ne_empty {front : List String} {name : String} (hname : name ∈ front)
    (hne : name ≠ "") : String.intercalate "/" front ≠ "" := by
  cases front with
  | nil => simp at hname
  | cons first rest =>
    by_cases hrest : rest = []
    · have hfirst : name = first := by simpa [hrest] using hname
      simpa [hrest, ← hfirst] using hne
    · rw [String.intercalate_cons_of_ne_nil hrest]
      simp

/-- Empty names make nothing. -/
theorem makeWay_slashes {slashes : List String} (hslashes : ∀ slash ∈ slashes, slash = "")
    (made : Bool) (start : FilePath) (below : List String) :
    tree.makeWay made start (slashes ++ below) = tree.makeWay made start below := by
  induction slashes with
  | nil => rfl
  | cons slash rest ih =>
    rw [List.forall_mem_cons] at hslashes
    rw [List.cons_append, makeWay, hslashes.1, if_pos (by decide), ih hslashes.2]

/-- A path that is not refused and has proper names, after slashes or none: the names `below`
lead to the directory of the last name. -/
structure Spells (path : String) (slashes below : List String) (name : String) : Prop where
  refusal : refusal? path = none
  names_eq : names path = slashes ++ (below ++ [name])
  slashes_eq : ∀ slash ∈ slashes, slash = ""
  below_proper : ∀ part ∈ below, IsProper part
  name_proper : IsProper name

namespace Spells

variable {path name : String} {slashes below : List String}

/-- The directory of a path has the names before the last. -/
theorem parentNames_eq (h : Spells path slashes below name) :
    parentNames path = if below = [] then [] else slashes ++ below := by
  have hname : ¬stays name := h.name_proper.1
  have hreverse : (names path).reverse.dropWhile stays = name :: (slashes ++ below).reverse := by
    rw [h.names_eq]
    simp [hname]
  rw [parentNames, hreverse, List.tail_cons]
  rcases List.eq_nil_or_concat below with rfl | ⟨rest, last, rfl⟩
  · rw [if_pos rfl, List.append_nil, List.dropWhile_eq_nil_iff.mpr, List.reverse_nil]
    intro slash hslash
    simp [stays, h.slashes_eq slash (by simpa using hslash)]
  · have hlast : ¬stays last := (h.below_proper last (by simp)).1
    rw [if_neg (by simp)]
    simp [hlast]

/-- The path of the directory is not refused. -/
theorem refusal?_parent (h : Spells path slashes below name) (hbelow : below ≠ []) :
    refusal? (String.intercalate "/" (slashes ++ below)) = none := by
  obtain ⟨first, hfirst⟩ := List.exists_mem_of_ne_nil below hbelow
  have hnonempty : String.intercalate "/" (slashes ++ below) ≠ "" :=
    intercalate_ne_empty (List.mem_append_right _ hfirst) (h.below_proper first hfirst).ne_empty
  have hfront : slashes ++ below ≠ [] := by simp [hbelow]
  have htext : String.intercalate "/" (slashes ++ below) ++ ("/" ++ name) = path := by
    calc String.intercalate "/" (slashes ++ below) ++ ("/" ++ name)
        = String.intercalate "/" (slashes ++ below ++ [name]) := by
          rw [String.intercalate_append_of_ne_nil hfront (by simp),
            String.intercalate_singleton, String.append_assoc]
      _ = path := by rw [List.append_assoc, ← h.names_eq, intercalate_names]
  exact refusal?_of_append hnonempty (htext.symm ▸ h.refusal)

/-- The directories of a path are made as the way of its names below where it begins. -/
theorem makeParents_eq (h : Spells path slashes below name) :
    tree.makeParents path = tree.makeWay false (tree.start path) below := by
  rw [makeParents, h.parentNames_eq]
  by_cases hbelow : below = []
  · rw [if_pos hbelow, hbelow]
    rfl
  · rw [if_neg hbelow]
    split
    · rename_i heq
      simp [hbelow] at heq
    · rw [h.refusal?_parent hbelow]
      exact makeWay_slashes h.slashes_eq ..

theorem locate_eq (h : Spells path slashes below name) {place : FilePath}
    (hfollow : tree.follow (tree.start path) below = .ok place) :
    tree.locate path = .ok (place, name) := by
  have hproper : (names path).filter (· ≠ "") = below ++ [name] := by
    have hslashes : slashes.filter (· ≠ "") = [] := by simpa using h.slashes_eq
    have hbelow : below.filter (· ≠ "") = below := by
      rw [List.filter_eq_self]
      intro part hpart
      simpa using (h.below_proper part hpart).ne_empty
    have hname : [name].filter (· ≠ "") = [name] := by simpa using h.name_proper.ne_empty
    rw [h.names_eq, List.filter_append, List.filter_append, hslashes, hbelow, hname,
      List.nil_append]
  rw [FileTree.locate_eq, h.refusal, hproper]
  dsimp only
  rw [List.dropLast_concat, hfollow]
  simp [Except.map]

/-- The last name leads to no directory by itself. -/
theorem not_directory (h : Spells path slashes below name) :
    ¬(name = "." ∨ name = ".." ∨ asksDirectory path) := by
  have hstays : ¬(name = "" ∨ name = ".") := by simpa [stays] using h.name_proper.1
  have hasks : ¬asksDirectory path := by
    simp [asksDirectory, h.names_eq, h.name_proper.ne_empty]
  rintro (hdot | hup | hask)
  · exact hstays (.inr hdot)
  · exact h.name_proper.2.1 hup
  · exact hasks hask

/-- A path of proper names can be stored, whether it begins with slashes or not, if no file stands
on its way and no directory in its place. The directories on its way are made. -/
theorem store_of_clear (h : Spells path slashes below name)
    (hclear : ∀ front, front <+: below →
      ∀ text, tree.entry? (tree.start path ++ front) ≠ some (.file text))
    (hfree : tree.entry? (tree.start path ++ (below ++ [name])) ≠ some .directory)
    (text : String → String) : (tree.store path text).2 = none := by
  obtain ⟨way, hway, hhome, hfollow, hkept⟩ := makeWay_of_clear false h.below_proper hclear
  have hstart : way.start path = tree.start path := by rw [start, hhome, start]
  have hlocate : way.locate path = .ok (tree.start path ++ below, name) :=
    h.locate_eq (hstart ▸ hfollow)
  have hvacant : way.entry? (tree.start path ++ below ++ [name]) ≠ some .directory := by
    rw [List.append_assoc, hkept]
    · exact hfree
    · intro front hfront _ heq
      have hlength := hfront.length_le
      rw [← List.append_cancel_left heq, List.length_append, List.length_singleton] at hlength
      omega
  obtain ⟨updated, hupdate⟩ : ∃ updated, way.update path text = .ok updated := by
    rw [update_eq hlocate, if_neg h.not_directory, if_neg (Nat.not_lt.mpr h.name_proper.2.2)]
    split
    · rename_i hentry
      exact absurd hentry hvacant
    · exact ⟨_, rfl⟩
    · exact ⟨_, rfl⟩
  rw [store, h.makeParents_eq, hway]
  dsimp only
  rw [hupdate]

/-- In an empty tree a path of proper names can be stored, unless it leads to the working
directory. -/
theorem store_empty (h : Spells path slashes below name)
    (hhome : empty.start path ++ (below ++ [name]) ≠ empty.home) (text : String → String) :
    (empty.store path text).2 = none := by
  refine h.store_of_clear (fun front _ text ↦ ?_) ?_ text
  · rw [entry?_empty]
    split <;> simp
  · rw [entry?_empty, if_neg (by simp [hhome])]
    simp

end Spells

end SpiralMachine.FileTree
