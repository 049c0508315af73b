import Mathlib.Tactic.Push
import StackScript.Files
import StackScript.Proofs.Outcome

/-!
# Files read back

What is written to a path is read from it. The directories on the way stay what they are, since a
new file only adds to them. The file itself is kept under the path of its place, and that path leads
to the place: a place that a path leads to goes back some directories, or starts at the root, and
then follows names.

## Main definitions

* `IsFileName`: a part of a path that leads further.
* `Place.Canonical`: a place that a path may lead to.

## Main results

* `Place.Canonical.placeOf_path`: the path of a place leads to the place.
* `Files.read_write`: what is written to a path is read from it.
-/

namespace StackScript

/-! ### Places -/

/-- A part of a path that leads further. -/
structure IsFileName (part : String) : Prop where
  no_slash : '/' ∉ part.toList
  moves : staysHere part = false
  ne_back : part ≠ ".."

/-- A place that a path may lead to: names behind the root, or behind some steps back. -/
def Place.Canonical (place : Place) : Prop :=
  ∃ names : List String, (∀ name ∈ names, IsFileName name) ∧
    (place = "/" :: names ∨ ∃ back, place = List.replicate back ".." ++ names)

theorem notMem_of_mem_splitOn {c : Char} {text part : List Char} (h : part ∈ text.splitOn c) :
    c ∉ part := by
  induction text generalizing part with
  | nil =>
    rw [List.splitOn_nil, List.mem_singleton] at h
    rw [h]
    exact List.not_mem_nil
  | cons d text ih =>
    rw [List.splitOn_cons_eq_if_modifyHead] at h
    by_cases hd : (d == c) = true
    · rw [if_pos hd] at h
      rcases List.mem_cons.mp h with rfl | h
      · exact List.not_mem_nil
      · exact ih h
    · rw [if_neg hd] at h
      have hne : d ≠ c := by simpa using hd
      -- the character joins the first part, the others stay as they are
      generalize text.splitOn c = parts at h ih
      cases parts with
      | nil => cases h
      | cons first others =>
        rcases List.mem_cons.mp h with rfl | h
        · exact List.not_mem_cons_of_ne_of_not_mem hne.symm (ih List.mem_cons_self)
        · exact ih (List.mem_cons_of_mem _ h)

theorem no_slash_of_mem_pathParts {path part : String} (h : part ∈ pathParts path) :
    '/' ∉ part.toList := by
  obtain ⟨characters, hcharacters, rfl⟩ := List.mem_map.mp h
  rw [String.toList_ofList]
  exact notMem_of_mem_splitOn hcharacters

namespace Place

variable {place : Place} {part : String}

theorem canonical_start (path : String) : (start path).Canonical := by
  unfold start
  split
  · exact ⟨[], by simp, .inl rfl⟩
  · exact ⟨[], by simp, .inr ⟨0, rfl⟩⟩

theorem Canonical.append (h : place.Canonical) (hpart : IsFileName part) :
    Canonical (place ++ [part]) := by
  obtain ⟨names, hnames, hplace⟩ := h
  refine ⟨names ++ [part], ?_, ?_⟩
  · intro name hname
    rcases List.mem_append.mp hname with hname | hname
    · exact hnames name hname
    · exact List.mem_singleton.mp hname ▸ hpart
  · rcases hplace with rfl | ⟨back, rfl⟩
    · exact .inl rfl
    · exact .inr ⟨back, List.append_assoc _ _ _⟩

/-- Behind a step back one goes back further. -/
theorem outer_of_back (h : place.getLast? = some "..") : place.outer = place ++ [".."] := by
  unfold Place.outer
  rw [h]
  rfl

theorem getLast?_replicate_back (back : Nat) :
    (List.replicate (back + 1) "..").getLast? = some ".." := by
  rw [List.getLast?_replicate, if_neg (Nat.succ_ne_zero back)]

theorem Canonical.outer (h : place.Canonical) : place.outer.Canonical := by
  obtain ⟨names, hnames, hplace⟩ := h
  rcases List.eq_nil_or_concat names with rfl | ⟨names, last, rfl⟩
  · -- nothing but steps back, or the root itself
    rcases hplace with rfl | ⟨back, rfl⟩
    · exact ⟨[], hnames, .inl rfl⟩
    · refine ⟨[], hnames, .inr ⟨back + 1, ?_⟩⟩
      cases back with
      | zero => rfl
      | succ back =>
        rw [List.append_nil, outer_of_back (getLast?_replicate_back back), List.append_nil,
          ← List.replicate_succ']
  · obtain ⟨hnames, hlast⟩ := List.forall_mem_append.mp (List.concat_eq_append ▸ hnames)
    have hfile := hlast last List.mem_cons_self
    -- a file's name is none of the three that `outer` treats apart
    have houter : ∀ before : Place, Place.outer (before ++ [last]) = before := by
      intro before
      unfold Place.outer
      rw [List.getLast?_concat]
      split
      · rename_i heq
        cases heq
      · rename_i heq
        exact absurd (Option.some.inj heq) hfile.ne_back
      · rename_i heq
        exact absurd (Option.some.inj heq ▸ hfile.no_slash) (by decide)
      · exact List.dropLast_concat
    refine ⟨names, hnames, ?_⟩
    rcases hplace with rfl | ⟨back, rfl⟩
    · rw [List.concat_eq_append, ← List.cons_append, houter]
      exact .inl rfl
    · rw [List.concat_eq_append, ← List.append_assoc, houter]
      exact .inr ⟨back, rfl⟩

/-- A step along a path leads from such a place to another. -/
theorem Canonical.step (h : place.Canonical) (hpart : '/' ∉ part.toList) :
    (place.step part).Canonical := by
  unfold Place.step
  by_cases hstays : staysHere part = true
  · rw [if_pos hstays]
    exact h
  by_cases hback : part = ".."
  · rw [if_neg hstays, if_pos (beq_iff_eq.mpr hback)]
    exact h.outer
  · rw [if_neg hstays, if_neg (by simpa using hback)]
    exact h.append ⟨hpart, by simpa using hstays, hback⟩

/-! ### Paths of places -/

theorem foldl_step_names {names : List String} (h : ∀ name ∈ names, IsFileName name)
    (place : Place) : names.foldl Place.step place = place ++ names := by
  induction names generalizing place with
  | nil => exact (List.append_nil _).symm
  | cons name names ih =>
    obtain ⟨hname, hnames⟩ := List.forall_mem_cons.mp h
    have hstep : place.step name = place ++ [name] := by
      unfold Place.step
      rw [hname.moves, if_neg Bool.false_ne_true, if_neg (by simpa using hname.ne_back)]
    rw [List.foldl_cons, hstep, ih hnames, List.append_assoc, List.singleton_append]

theorem foldl_step_back (back : Nat) :
    (List.replicate back "..").foldl Place.step [] = List.replicate back ".." := by
  induction back with
  | zero => rfl
  | succ back ih =>
    have hstep (place : Place) : place.step ".." = place.outer := by
      unfold Place.step
      rw [if_neg (by decide), if_pos (by decide)]
    rw [List.replicate_succ', List.foldl_append, ih, List.foldl_cons, List.foldl_nil, hstep]
    cases back with
    | zero => rfl
    | succ back => rw [outer_of_back (getLast?_replicate_back back)]

theorem pathParts_intercalate {parts : List String} (h : ∀ part ∈ parts, '/' ∉ part.toList)
    (hne : parts ≠ []) : pathParts ("/".intercalate parts) = parts := by
  have hsplit : (['/'].intercalate (parts.map String.toList)).splitOn '/' =
      parts.map String.toList :=
    List.splitOn_intercalate '/' (List.forall_mem_map.mpr h) (by simpa using hne)
  have hslash : "/".toList = ['/'] := rfl
  rw [pathParts, String.toList_intercalate, hslash, hsplit, List.map_map]
  simp [Function.comp_def]

theorem isAbsolute_intercalate {first : String} {others : List String}
    (hfirst : '/' ∉ first.toList) (hne : first ≠ "") :
    isAbsolute ("/".intercalate (first :: others)) = false := by
  have htext : ∃ c text more, ("/".intercalate (first :: others)).toList = c :: text ++ more ∧
      first.toList = c :: text := by
    obtain ⟨c, text, htext⟩ := List.exists_cons_of_ne_nil (by simpa using hne : first.toList ≠ [])
    refine ⟨c, text, ?_⟩
    rw [String.toList_intercalate, List.map_cons, htext]
    cases others with
    | nil => exact ⟨[], by simp [List.intercalate], rfl⟩
    | cons other others =>
      refine ⟨'/' :: ['/'].intercalate ((other :: others).map String.toList), ?_, rfl⟩
      simp [List.intercalate]
  obtain ⟨c, text, more, hall, hchars⟩ := htext
  have hc : c ≠ '/' := by
    rintro rfl
    exact hfirst (hchars ▸ List.mem_cons_self)
  unfold isAbsolute
  rw [hall, List.cons_append, List.head?_cons]
  simpa using hc

theorem pathParts_slash (path : String) : pathParts ("/" ++ path) = "" :: pathParts path := by
  have htext : ("/" ++ path).toList = '/' :: path.toList := String.toList_append
  rw [pathParts, htext, List.splitOn_cons_eq_if_modifyHead, if_pos (beq_self_eq_true '/')]
  rfl

theorem Canonical.placeOf_root {names : List String} (h : ∀ name ∈ names, IsFileName name) :
    placeOf (path ("/" :: names)) = "/" :: names := by
  have hstart : start ("/" ++ "/".intercalate names) = ["/"] := by
    have htext : ("/" ++ "/".intercalate names).toList = '/' :: ("/".intercalate names).toList :=
      String.toList_append
    unfold start isAbsolute
    rw [htext]
    rfl
  change placeOf ("/" ++ "/".intercalate names) = _
  rw [placeOf, hstart, pathParts_slash]
  by_cases hnames : names = []
  · subst hnames
    decide
  · rw [pathParts_intercalate (fun name hname => (h name hname).no_slash) hnames]
    exact foldl_step_names h ["/"]

theorem Canonical.placeOf_relative {names : List String} (back : Nat)
    (h : ∀ name ∈ names, IsFileName name) :
    placeOf (path (List.replicate back ".." ++ names)) = List.replicate back ".." ++ names := by
  have hparts : ∀ part ∈ List.replicate back ".." ++ names, '/' ∉ part.toList ∧ part ≠ "" := by
    intro part hpart
    rcases List.mem_append.mp hpart with hpart | hpart
    · rw [List.eq_of_mem_replicate hpart]
      decide
    · refine ⟨(h part hpart).no_slash, ?_⟩
      rintro rfl
      exact absurd (h "" hpart).moves (by decide)
  have hfold : (List.replicate back ".." ++ names).foldl Place.step [] =
      List.replicate back ".." ++ names := by
    rw [List.foldl_append, foldl_step_back, foldl_step_names h]
  -- from here on only the two facts on the parts matter
  generalize List.replicate back ".." ++ names = parts at hparts hfold
  cases parts with
  | nil => decide
  | cons first others =>
    obtain ⟨hslash, hne⟩ := hparts first List.mem_cons_self
    -- a part holds no slash, so it is not taken for the root
    have hpath : path (first :: others) = "/".intercalate (first :: others) := by
      unfold path
      split
      · rename_i heq
        cases heq
        exact absurd hslash (by decide)
      · rfl
    have hstart : start ("/".intercalate (first :: others)) = [] := by
      rw [start, isAbsolute_intercalate hslash hne, if_neg Bool.false_ne_true]
    rw [hpath, placeOf, hstart,
      pathParts_intercalate (fun part hpart => (hparts part hpart).1) (List.cons_ne_nil _ _), hfold]

/-- The path of a place leads to the place. -/
theorem Canonical.placeOf_path (h : place.Canonical) : placeOf place.path = place := by
  obtain ⟨names, hnames, rfl | ⟨back, rfl⟩⟩ := h
  · exact placeOf_root hnames
  · exact placeOf_relative back hnames

end Place

/-! ### Reading and writing -/

namespace Files

variable {files : Files} {place next : Place} {text : String}

theorem map_fst_put (place : Place) (text : String) (entries : List (String × String)) :
    (put place text entries).map Prod.fst = entries.map Prod.fst ∨
      (put place text entries).map Prod.fst = entries.map Prod.fst ++ [place.path] := by
  induction entries with
  | nil => exact .inr rfl
  | cons entry rest ih =>
    unfold put
    by_cases hentry : (placeOf entry.1 == place) = true
    · rw [if_pos hentry]
      exact .inl rfl
    · rw [if_neg hentry, List.map_cons, List.map_cons]
      exact ih.imp (congrArg _) (congrArg _)

/-- A directory is known by the paths of the files. -/
theorem hasDirectory_eq (files : Files) (place : Place) :
    files.hasDirectory place = (place == ["/"] || place.all (· == "..") ||
      ((files.entries.map Prod.fst).any fun path => place.isPrefixOf (placeOf path).dropLast) ||
      files.directories.any fun path => place.isPrefixOf (placeOf path)) := by
  rw [List.any_map]
  rfl

theorem find?_put (hplace : placeOf place.path = place) (text : String)
    (entries : List (String × String)) :
    ((put place text entries).find? fun entry => placeOf entry.1 == place).map Prod.snd =
      some text := by
  induction entries with
  | nil => simp [put, hplace]
  | cons entry rest ih =>
    unfold put
    by_cases hentry : (placeOf entry.1 == place) = true
    · rw [if_pos hentry, List.find?_cons, hentry]
      rfl
    · rw [if_neg hentry, List.find?_cons, Bool.eq_false_iff.mpr hentry]
      exact ih

/-- The directories of some files are those of the same files with one more. -/
theorem hasDirectory_put (h : files.hasDirectory next = true) (place : Place) (text : String) :
    Files.hasDirectory { files with entries := put place text files.entries } next = true := by
  rw [hasDirectory_eq] at h ⊢
  rcases map_fst_put place text files.entries with heq | heq
  · rw [heq]
    exact h
  · rw [heq, List.any_append]
    simp only [Bool.or_eq_true] at h ⊢
    exact h.imp_left (Or.imp_right Or.inl)

/-- A new file is no directory. -/
theorem hasDirectory_put_self (hplace : placeOf place.path = place)
    (h : files.hasDirectory place = false) (text : String) :
    Files.hasDirectory { files with entries := put place text files.entries } place = false := by
  have hne : place ≠ [] := by
    rintro rfl
    cases h
  -- Only what a file lies in is a directory for it, and that is shorter than its place.
  have hself : place.isPrefixOf place.dropLast = false := by
    rw [Bool.eq_false_iff, ne_eq, List.isPrefixOf_iff_prefix]
    intro hprefix
    have hlength := hprefix.length_le
    have hpos := List.length_pos_iff.mpr hne
    rw [List.length_dropLast] at hlength
    omega
  rw [hasDirectory_eq] at h ⊢
  rcases map_fst_put place text files.entries with heq | heq
  · rw [heq]
    exact h
  · rw [heq, List.any_append, List.any_cons, hplace, hself]
    simpa using h

theorem enter_cons {part : String} {parts : List String}
    (h : files.enter place (part :: parts) = .ok next) :
    ¬ maxPartBytes < (utf8 part).length ∧ files.hasDirectory (place.step part) = true ∧
      files.enter (place.step part) parts = .ok next := by
  rw [enter] at h
  by_cases hbytes : maxPartBytes < (utf8 part).length
  · rw [if_pos hbytes] at h
    cases h
  by_cases hdirectory : files.hasDirectory (place.step part) = true
  · rw [if_neg hbytes, if_pos hdirectory] at h
    exact ⟨hbytes, hdirectory, h⟩
  · rw [if_neg hbytes, if_neg hdirectory] at h
    split at h <;> cases h

/-- A path leads to a place. -/
theorem canonical_of_enter {parts : List String} (hparts : ∀ part ∈ parts, '/' ∉ part.toList)
    (hplace : place.Canonical) (h : files.enter place parts = .ok next) : next.Canonical := by
  induction parts generalizing place with
  | nil =>
    cases h
    exact hplace
  | cons part parts ih =>
    obtain ⟨hpart, hparts⟩ := List.forall_mem_cons.mp hparts
    obtain ⟨-, -, hrest⟩ := enter_cons h
    exact ih hparts (hplace.step hpart) hrest

/-- One more file does not change where a path leads. -/
theorem enter_put {parts : List String} (h : files.enter place parts = .ok next) (target : Place)
    (text : String) :
    Files.enter { files with entries := put target text files.entries } place parts = .ok next := by
  induction parts generalizing place with
  | nil => exact h
  | cons part parts ih =>
    obtain ⟨hbytes, hdirectory, hrest⟩ := enter_cons h
    rw [enter, if_neg hbytes, if_pos (hasDirectory_put hdirectory target text)]
    exact ih hrest

/-- What a part leads to, if a file may be written there. -/
theorem find_eq_ok {part : String} {found : Found} (h : files.find place part = .ok found)
    (hfound : found ≠ .directory) :
    ¬ maxPartBytes < (utf8 part).length ∧ files.hasDirectory (place.step part) = false ∧
      (found = .vacant (place.step part) ∨ ∃ text, found = .file (place.step part) text) := by
  unfold find at h
  dsimp only at h
  by_cases hbytes : maxPartBytes < (utf8 part).length
  · rw [if_pos hbytes] at h
    cases h
  by_cases hdirectory : files.hasDirectory (place.step part) = true
  · rw [if_neg hbytes, if_pos hdirectory] at h
    cases h
    exact absurd rfl hfound
  rw [if_neg hbytes, if_neg hdirectory] at h
  refine ⟨hbytes, Bool.eq_false_iff.mpr hdirectory, ?_⟩
  split at h <;> cases h
  · exact .inr ⟨_, rfl⟩
  · exact .inl rfl

/-- A file that was written is found. -/
theorem find_put {part : String} (hbytes : ¬ maxPartBytes < (utf8 part).length)
    (hdirectory : files.hasDirectory (place.step part) = false)
    (hcanonical : (place.step part).Canonical) (text : String) :
    Files.find { files with entries := put (place.step part) text files.entries } place part =
      .ok (.file (place.step part) text) := by
  have hplace := hcanonical.placeOf_path
  have htext : Files.text? { files with entries := put (place.step part) text files.entries }
      (place.step part) = some text := find?_put hplace text files.entries
  unfold find
  dsimp only
  rw [if_neg hbytes, hasDirectory_put_self hplace hdirectory, if_neg Bool.false_ne_true, htext]

/-- What a path is written to: the place of its last part in the directory of the others. -/
theorem write_eq_ok {files files' : Files} {path text : String}
    (h : files.write path text = .ok files') :
    ∃ place, checkPath path = .ok () ∧
      files.enter (Place.start path) (pathParts path).dropLast = .ok place ∧
      ¬ maxPartBytes < (utf8 ((pathParts path).getLastD "")).length ∧
      files.hasDirectory (place.step ((pathParts path).getLastD "")) = false ∧
      files' = { files with
        entries := put (place.step ((pathParts path).getLastD "")) text files.entries } := by
  obtain ⟨_, hcheck, h⟩ := bind_eq_ok_iff.mp h
  obtain ⟨place, henter, h⟩ := bind_eq_ok_iff.mp h
  -- a path that is written to has no empty part at its end
  have hnamed : ((pathParts path).reverse.dropWhile (· == "")).reverse = pathParts path := by
    have hlength : ¬ ((pathParts path).reverse.dropWhile (· == "")).reverse.length <
        (pathParts path).length := by
      intro hless
      rw [if_pos hless] at h
      cases h
    have hlength' : (pathParts path).reverse.length ≤
        ((pathParts path).reverse.dropWhile (· == "")).length := by
      simpa using Nat.not_lt.mp hlength
    rw [(List.dropWhile_suffix _).eq_of_length_le hlength', List.reverse_reverse]
  rw [hnamed] at henter h
  rw [if_neg (Nat.lt_irrefl _)] at h
  obtain ⟨found, hfind, h⟩ := bind_eq_ok_iff.mp h
  have hfound : found ≠ .directory := by
    rintro rfl
    cases h
  obtain ⟨hbytes, hdirectory, heq⟩ := find_eq_ok hfind hfound
  refine ⟨place, hcheck, henter, hbytes, hdirectory, ?_⟩
  rcases heq with rfl | ⟨_, rfl⟩ <;> exact (Except.ok.inj h).symm

/-- What is written to a path is read from it. -/
theorem read_write {files files' : Files} {path text : String}
    (h : files.write path text = .ok files') : files'.read path = .ok (unifyNewlines text) := by
  obtain ⟨place, hcheck, henter, hbytes, hdirectory, rfl⟩ := write_eq_ok h
  have hslash : ∀ part ∈ pathParts path, '/' ∉ part.toList := fun part hpart =>
    no_slash_of_mem_pathParts hpart
  have hplace : place.Canonical :=
    canonical_of_enter (fun part hpart => hslash part (List.dropLast_subset _ hpart))
      (Place.canonical_start path) henter
  have hlast : '/' ∉ ((pathParts path).getLastD "").toList := by
    rcases List.eq_nil_or_concat (pathParts path) with hnil | ⟨parts, last, hconcat⟩
    · rw [hnil]
      decide
    · rw [hconcat, List.concat_eq_append] at hslash ⊢
      rw [List.getLastD_concat]
      exact hslash last (by simp)
  -- the place that was written to is entered the same way and holds the new text
  have hlook : Files.look { files with
      entries := put (place.step ((pathParts path).getLastD "")) text files.entries } path =
      .ok (.file (place.step ((pathParts path).getLastD "")) text) :=
    bind_eq_ok_iff.mpr ⟨(), hcheck, bind_eq_ok_iff.mpr
      ⟨place, enter_put henter _ text, find_put hbytes hdirectory (hplace.step hlast) text⟩⟩
  rw [read, hlook]
  rfl

end Files

end StackScript
