import Mathlib.Tactic.Common
import NoteShell.Host.Files
import NoteShell.Proofs.Text.Lengths

/-!
# Files in a directory

A plain name leads from a directory to the place of that name in it, and nowhere else leads there.
What is written under one name does not touch the files under other names, and directories that are
made take nothing away.

## Main definitions

* `IsPlainName` : names that are a single step into a directory.

## Main results

* `pathSteps_joinPath` : the steps of the path of a name in a directory.
* `Files.locate_joinPath` : where such a path leads.
* `Files.directory?_mono` : a directory stays where it is as further ones are made.
* `Files.contentAt?_write_self`, `Files.contentAt?_write_of_ne` : the files after one was written.
-/

namespace NoteShell

open NoteShell.Text

/-! ### Steps of paths -/

/-- A name that is a single step into a directory. -/
structure IsPlainName (name : String) : Prop where
  slash : '/' ∉ name.toList
  ne_empty : name ≠ ""
  ne_dot : name ≠ "."
  ne_dots : name ≠ ".."

theorem splitLoop_of_not_mem {x : Char} {cs : List Char} (hcs : x ∉ cs) (cuts : Nat)
    (piece : List Char) (pieces : List (List Char)) :
    splitLoop [x] cuts 0 piece pieces cs = pieces.reverse ++ [piece.reverse ++ cs] := by
  induction cs generalizing piece with
  | nil => cases cuts <;> simp [splitLoop]
  | cons c cs ih =>
    rw [List.mem_cons, not_or] at hcs
    have hprefix : [x].isPrefixOf (c :: cs) = false := by simp [List.isPrefixOf, hcs.1]
    cases cuts with
    | zero => rw [splitLoop, ih hcs.2, List.reverse_cons, List.append_assoc]; rfl
    | succ cuts =>
      rw [splitLoop, hprefix, if_neg Bool.false_ne_true, ih hcs.2, List.reverse_cons,
        List.append_assoc]
      rfl

/-- A piece after a last separator is the last piece. -/
theorem splitLoop_append {x : Char} {last : List Char} (hlast : x ∉ last) (cs : List Char)
    (cuts cuts' : Nat) (hcuts : cs.length < cuts) (hcuts' : cs.length ≤ cuts') (piece : List Char)
    (pieces : List (List Char)) :
    splitLoop [x] cuts 0 piece pieces (cs ++ x :: last) =
      splitLoop [x] cuts' 0 piece pieces cs ++ [last] := by
  induction cs generalizing cuts cuts' piece pieces with
  | nil =>
    obtain ⟨cuts, rfl⟩ := Nat.exists_eq_add_one_of_ne_zero (Nat.ne_zero_of_lt hcuts)
    have hprefix : [x].isPrefixOf (x :: last) = true := by simp [List.isPrefixOf]
    have hnil : splitLoop [x] cuts' 0 piece pieces [] = (piece.reverse :: pieces).reverse := by
      cases cuts' <;> rfl
    rw [List.nil_append, hnil, splitLoop, if_pos hprefix]
    exact splitLoop_of_not_mem hlast cuts [] _
  | cons c cs ih =>
    rw [List.length_cons] at hcuts hcuts'
    obtain ⟨cuts, rfl⟩ := Nat.exists_eq_add_one_of_ne_zero (Nat.ne_zero_of_lt hcuts)
    obtain ⟨cuts', rfl⟩ := Nat.exists_eq_add_one_of_ne_zero (Nat.ne_zero_of_lt hcuts')
    have hprefix : [x].isPrefixOf (c :: (cs ++ x :: last)) = [x].isPrefixOf (c :: cs) := by
      simp [List.isPrefixOf]
    rw [List.cons_append, splitLoop, splitLoop, hprefix]
    split_ifs with hc
    · exact ih cuts cuts' (by omega) (by omega) _ _
    · exact ih (cuts + 1) (cuts' + 1) (by omega) (by omega) _ _

/-- The steps of a path and a further one after a slash. -/
theorem pathSteps_append (path name : String) (hname : '/' ∉ name.toList) :
    pathSteps (path ++ "/" ++ name) = pathSteps path ++ [name] := by
  have hlength := length_toList_le_utf8ByteSize path
  have hchars : (path ++ "/" ++ name).toList = path.toList ++ '/' :: name.toList := by
    rw [String.toList_append, String.toList_append, List.append_assoc]
    rfl
  have hcuts : path.toList.length < (path ++ "/" ++ name).utf8ByteSize := by
    rw [String.utf8ByteSize_append, String.utf8ByteSize_append]
    exact Nat.lt_of_lt_of_le (Nat.lt_succ_of_le hlength) (Nat.le_add_right _ _)
  have hsplit := splitLoop_append hname path.toList _ _ hcuts hlength [] []
  rw [pathSteps, pathSteps, splitAll, splitAll, splitChars, splitChars, hchars]
  refine (congrArg (List.map String.ofList) hsplit).trans ?_
  rw [List.map_append, List.map_singleton, String.ofList_toList]
  rfl

/-- A path that does not end with a slash has a slash between itself and a name, and one that does
has the name in the place of the last step. -/
theorem pathSteps_joinPath {dir : String} (hdir : dir ≠ "") :
    ∃ steps, (pathSteps dir = steps ∨ pathSteps dir = steps ++ [""]) ∧
      ∀ name, '/' ∉ name.toList → pathSteps (joinPath dir name) = steps ++ [name] := by
  have hempty : dir.isEmpty = false := by simpa using hdir
  by_cases hslash : endsWith "/" dir = true
  · obtain ⟨above, habove⟩ : ∃ above, dir = above ++ "/" := by
      obtain ⟨rest, hrest⟩ := List.isPrefixOf_iff_prefix.mp hslash
      refine ⟨String.ofList rest.reverse, String.toList_inj.mp ?_⟩
      rw [String.toList_append, String.toList_ofList, ← List.reverse_inj, ← hrest,
        List.reverse_append, List.reverse_reverse]
    refine ⟨pathSteps above, .inr ?_, fun name hname => ?_⟩
    · rw [habove, ← pathSteps_append above "" (by simp), String.append_empty]
    · rw [joinPath, hempty, if_neg Bool.false_ne_true, if_pos hslash, habove,
        pathSteps_append _ _ hname]
  · refine ⟨pathSteps dir, .inl rfl, fun name hname => ?_⟩
    rw [joinPath, hempty, if_neg Bool.false_ne_true, if_neg hslash, pathSteps_append _ _ hname]

theorem exists_joinPath {dir : String} (hdir : dir ≠ "") (name : String) :
    ∃ rest, joinPath dir name = dir ++ rest := by
  have hempty : dir.isEmpty = false := by simpa using hdir
  rw [joinPath, hempty, if_neg Bool.false_ne_true]
  split_ifs with hslash
  · exact ⟨name, rfl⟩
  · exact ⟨"/" ++ name, String.append_assoc⟩

theorem pathStart_joinPath {dir : String} (hdir : dir ≠ "") (name : String) :
    pathStart (joinPath dir name) = pathStart dir := by
  obtain ⟨rest, hrest⟩ := exists_joinPath hdir name
  obtain ⟨c, cs, hcs⟩ := List.exists_cons_of_ne_nil (mt String.toList_eq_nil_iff.mp hdir)
  rw [pathStart, pathStart, hrest, startsWith, startsWith, String.toList_append, hcs]
  rfl

/-- A path is no longer than the path of a name in its directory. -/
theorem pathFault?_dir {dir : String} (hdir : dir ≠ "") {name : String}
    (hpath : pathFault? (joinPath dir name) = none) : pathFault? dir = none := by
  obtain ⟨rest, hrest⟩ := exists_joinPath hdir name
  rw [hrest, pathFault?] at hpath
  split_ifs at hpath with hzero hempty hlong
  rw [String.toList_append, List.contains_iff_mem, List.mem_append, not_or] at hzero
  rw [String.utf8ByteSize_append] at hlong
  rw [pathFault?, if_neg (by rw [List.contains_iff_mem]; exact hzero.1),
    if_neg (by simpa using hdir), if_neg (by omega)]

/-- A plain name leads to the place of that name in a directory. -/
theorem IsPlainName.step {name : String} (h : IsPlainName name) (place : Place) :
    place.step name = name :: place := by
  unfold Place.step
  rw [if_neg (not_or.mpr ⟨h.ne_empty, h.ne_dot⟩), if_neg h.ne_dots]

namespace Files

variable {files files' : Files} {place : Place}

/-! ### Where paths lead -/

/-- The last step of a path leads from a directory. -/
theorem follow_concat (files : Files) (place : Place) (steps : List String) (name : String)
    (target : Place) :
    files.follow place (steps ++ [name]) = .ok target ↔
      ∃ dir, files.follow place steps = .ok dir ∧ files.hasDirectory dir = true ∧
        name.utf8ByteSize ≤ maxNameBytes ∧ target = dir.step name := by
  induction steps generalizing place with
  | nil =>
    rw [List.nil_append, follow, follow, follow]
    split_ifs with hdirectory hlong habove
    · have hlong' : ¬ name.utf8ByteSize ≤ maxNameBytes := by omega
      simp [hlong']
    · simp only [Except.ok.injEq, exists_eq_left', hdirectory, Nat.not_lt.mp hlong, true_and]
      exact eq_comm
    · simp [hdirectory]
    · simp [hdirectory]
  | cons step steps ih =>
    rw [List.cons_append, follow, follow]
    split_ifs with hdirectory hlong habove
    · simp
    · exact ih _
    · simp
    · simp

theorem locate_eq_ok {path : String} :
    files.locate path = .ok place ↔
      pathFault? path = none ∧ files.follow (pathStart path) (pathSteps path) = .ok place := by
  rw [locate]
  cases pathFault? path with
  | none => simp
  | some fault => simp

theorem directory?_eq_some {dir : String} :
    files.directory? dir = some place ↔
      files.locate dir = .ok place ∧ files.hasDirectory place = true := by
  rw [directory?]
  cases files.locate dir with
  | error fault => simp
  | ok found =>
    by_cases hfound : files.hasDirectory found = true
    · simp only [hfound, if_true, Option.some.injEq, Except.ok.injEq]
      exact ⟨fun h => ⟨h, h ▸ hfound⟩, fun h => h.1⟩
    · simp only [hfound, Except.ok.injEq]
      exact ⟨nofun, fun h => absurd (h.1 ▸ h.2) hfound⟩

/-- The path of a plain name in a directory leads to the place of that name in the directory. -/
theorem locate_joinPath {dir name : String} (hdir : dir ≠ "") (hname : IsPlainName name) :
    files.locate (joinPath dir name) = .ok place ↔
      pathFault? (joinPath dir name) = none ∧ name.utf8ByteSize ≤ maxNameBytes ∧
        ∃ above, files.directory? dir = some above ∧ place = name :: above := by
  obtain ⟨steps, hsteps, hjoin⟩ := pathSteps_joinPath hdir
  have habove (hpath : pathFault? (joinPath dir name) = none) (above : Place) :
      files.directory? dir = some above ↔
        files.follow (pathStart dir) steps = .ok above ∧ files.hasDirectory above = true := by
    rw [directory?_eq_some, locate_eq_ok, and_iff_right (pathFault?_dir hdir hpath)]
    obtain hsteps | hsteps := hsteps
    · rw [hsteps]
    · -- The empty step after a slash at the end stays in the directory.
      rw [hsteps, follow_concat]
      constructor
      · rintro ⟨⟨d, hd, hdirectory, -, rfl⟩, habove⟩
        exact ⟨hd, habove⟩
      · rintro ⟨habove, hdirectory⟩
        exact ⟨⟨above, habove, hdirectory, Nat.zero_le _, rfl⟩, hdirectory⟩
  rw [locate_eq_ok, pathStart_joinPath hdir, hjoin name hname.slash, follow_concat]
  constructor
  · rintro ⟨hpath, above, hfollow, hdirectory, hlong, rfl⟩
    exact ⟨hpath, hlong, above, (habove hpath above).mpr ⟨hfollow, hdirectory⟩, hname.step above⟩
  · rintro ⟨hpath, hlong, above, hdirectory, rfl⟩
    obtain ⟨hfollow, hdirectory⟩ := (habove hpath above).mp hdirectory
    exact ⟨hpath, above, hfollow, hdirectory, hlong, (hname.step above).symm⟩

/-! ### Directories that are made -/

theorem hasDirectory_mono (hsubset : files.directories ⊆ files'.directories)
    (hplace : files.hasDirectory place = true) : files'.hasDirectory place = true := by
  rw [hasDirectory, Bool.or_eq_true, List.contains_iff_mem] at hplace ⊢
  exact hplace.imp_right fun h => hsubset h

theorem follow_mono (hsubset : files.directories ⊆ files'.directories) {steps : List String}
    {target : Place} (htarget : files.follow place steps = .ok target) :
    files'.follow place steps = .ok target := by
  induction steps generalizing place with
  | nil => exact htarget
  | cons step steps ih =>
    rw [follow] at htarget ⊢
    split_ifs at htarget with hdirectory hlong
    rw [if_pos (hasDirectory_mono hsubset hdirectory), if_neg hlong]
    exact ih htarget

/-- Where a directory is does not change as further directories are made. -/
theorem directory?_mono (hsubset : files.directories ⊆ files'.directories) {dir : String}
    (hdir : files.directory? dir = some place) : files'.directory? dir = some place := by
  rw [directory?_eq_some, locate_eq_ok] at hdir ⊢
  exact ⟨⟨hdir.1.1, follow_mono hsubset hdir.1.2⟩, hasDirectory_mono hsubset hdir.2⟩

theorem enter?_extends {name : String} {next : Place}
    (henter : files.enter? place name = some (files', next)) :
    files.directories ⊆ files'.directories ∧ files'.entries = files.entries := by
  unfold enter? at henter
  dsimp only at henter
  split_ifs at henter
  · cases henter
    exact ⟨List.Subset.refl _, rfl⟩
  · cases henter
    exact ⟨List.subset_cons_self _ _, rfl⟩

theorem makeAlong_extends (files : Files) (place : Place) (steps : List String) :
    files.directories ⊆ (files.makeAlong place steps).directories ∧
      (files.makeAlong place steps).entries = files.entries := by
  induction steps generalizing files place with
  | nil => exact ⟨List.Subset.refl _, rfl⟩
  | cons name steps ih =>
    rw [makeAlong]
    cases henter : files.enter? place name with
    | none => exact ⟨List.Subset.refl _, rfl⟩
    | some next =>
      obtain ⟨hdirectories, hentries⟩ := enter?_extends henter
      obtain ⟨hrest, hentries'⟩ := ih next.1 next.2
      exact ⟨List.Subset.trans hdirectories hrest, hentries'.trans hentries⟩

/-- Making directories adds directories and changes no file. -/
theorem makeDirectories_extends (files : Files) (path : String) :
    files.directories ⊆ (files.makeDirectories path).directories ∧
      (files.makeDirectories path).entries = files.entries := by
  rw [makeDirectories]
  cases pathFault? path with
  | none => exact makeAlong_extends files _ _
  | some fault => exact ⟨List.Subset.refl _, rfl⟩

/-- A step that is entered leads to a directory. -/
theorem enter?_hasDirectory {name : String} {next : Place}
    (henter : files.enter? place name = some (files', next)) :
    files'.hasDirectory next = true ∧ next = place.step name := by
  unfold enter? at henter
  dsimp only at henter
  split_ifs at henter with hdirectory
  · cases henter
    exact ⟨hdirectory, rfl⟩
  · cases henter
    exact ⟨by simp [hasDirectory], rfl⟩

/-- Directories that were made along some steps are not made again, as long as no file is
removed. -/
theorem makeAlong_of_made {steps : List String}
    (hdirectories : files'.directories = (files.makeAlong place steps).directories)
    (hcontent : ∀ p, (files.contentAt? p).isSome = true → (files'.contentAt? p).isSome = true) :
    files'.makeAlong place steps = files' := by
  induction steps generalizing files place with
  | nil => rfl
  | cons name steps ih =>
    rw [makeAlong] at hdirectories ⊢
    cases henter : files.enter? place name with
    | some entered =>
      obtain ⟨made, next⟩ := entered
      rw [henter] at hdirectories
      obtain ⟨hnext, hstep⟩ := enter?_hasDirectory henter
      have hnext' : files'.hasDirectory (place.step name) = true :=
        hstep ▸ hasDirectory_mono (hdirectories ▸ (makeAlong_extends made next steps).1) hnext
      rw [enter?, if_pos hnext', ← hstep]
      refine ih hdirectories fun p hp => hcontent p ?_
      rwa [contentAt?, (enter?_extends henter).2] at hp
    | none =>
      rw [henter] at hdirectories
      unfold enter? at henter
      dsimp only at henter
      split_ifs at henter with hdirectory hblocked
      have hdirectory' : ¬ files'.hasDirectory (place.step name) = true := by
        rwa [hasDirectory, hdirectories]
      have hblocked' : (decide (maxNameBytes < name.utf8ByteSize) ||
          (files'.contentAt? (place.step name)).isSome) = true :=
        (Bool.or_eq_true _ _).mpr (((Bool.or_eq_true _ _).mp hblocked).imp_right (hcontent _))
      rw [enter?, if_neg hdirectory', if_pos hblocked']

/-! ### Files that are written and removed -/

theorem find?_replaceOrAdd_self (place : Place) (content : FileContent)
    (entries : List (Place × FileContent)) :
    (replaceOrAdd place content entries).find? (fun e => e.1 == place) = some (place, content) := by
  induction entries with
  | nil => simp [replaceOrAdd]
  | cons e entries ih =>
    rw [replaceOrAdd]
    split_ifs with he
    · simp
    · rw [List.find?_cons_of_neg (by simpa using he), ih]

theorem find?_replaceOrAdd_of_ne {other : Place} (hne : other ≠ place) (content : FileContent)
    (entries : List (Place × FileContent)) :
    (replaceOrAdd place content entries).find? (fun e => e.1 == other) =
      entries.find? fun e => e.1 == other := by
  induction entries with
  | nil => simp [replaceOrAdd, hne.symm]
  | cons e entries ih =>
    rw [replaceOrAdd]
    split_ifs with he
    · rw [List.find?_cons_of_neg (by simpa using hne.symm), List.find?_cons_of_neg (by
        simpa [he] using hne.symm)]
    · rw [List.find?_cons, List.find?_cons, ih]

/-- Writing to a path gives the place where it leads the new content, leaves the content of every
other place as it is, and makes no directory. -/
theorem write_of_target {path : String} (htarget : files.target? path = some place)
    (content : FileContent) :
    (files.write path content).contentAt? place = some content ∧
      (∀ other ≠ place, (files.write path content).contentAt? other = files.contentAt? other) ∧
      (files.write path content).directories = files.directories := by
  simp only [write, htarget, contentAt?]
  refine ⟨?_, fun other hother => ?_, trivial⟩
  · rw [find?_replaceOrAdd_self]
    rfl
  · rw [find?_replaceOrAdd_of_ne hother]

theorem locate_of_target {path : String} (htarget : files.target? path = some place) :
    files.locate path = .ok place := by
  rw [target?] at htarget
  cases hlocate : files.locate path with
  | error fault => rw [hlocate] at htarget; cases htarget
  | ok found =>
    rw [hlocate] at htarget
    dsimp only at htarget
    split_ifs at htarget
    exact congrArg Except.ok (Option.some.inj htarget)

/-- What can be written to a path can still be written to it while the directories are the same. -/
theorem target?_of_directories_eq {path : String}
    (hdirectories : files'.directories = files.directories)
    (htarget : files.target? path = some place) : files'.target? path = some place := by
  have hlocate := locate_eq_ok.mp (locate_of_target htarget)
  have hlocate' : files'.locate path = .ok place :=
    locate_eq_ok.mpr ⟨hlocate.1, follow_mono (hdirectories ▸ List.Subset.refl _) hlocate.2⟩
  rw [target?, locate_of_target htarget] at htarget
  rw [target?, hlocate']
  dsimp only at htarget ⊢
  rwa [hasDirectory, hdirectories]

/-- Directories that were made are not made again after a file was written. -/
theorem makeDirectories_write (files : Files) {dir path : String} (content : FileContent)
    (htarget : (files.makeDirectories dir).target? path = some place) :
    ((files.makeDirectories dir).write path content).makeDirectories dir =
      (files.makeDirectories dir).write path content := by
  obtain ⟨hself, hother, hdirectories⟩ := write_of_target htarget content
  have hcontent (p : Place) (hp : (files.contentAt? p).isSome = true) :
      (((files.makeDirectories dir).write path content).contentAt? p).isSome = true := by
    by_cases hplace : p = place
    · rw [hplace, hself]
      rfl
    · rwa [hother p hplace, contentAt?, (makeDirectories_extends files dir).2]
  generalize (files.makeDirectories dir).write path content = written at hdirectories hcontent
  rw [makeDirectories] at hdirectories ⊢
  cases hfault : pathFault? dir with
  | some fault => rfl
  | none =>
    rw [hfault] at hdirectories
    exact makeAlong_of_made hdirectories hcontent

/-- No content is left at a place that is removed, and none appears at another. -/
theorem contentAt?_removeAll (files : Files) (places : List Place) (place : Place) :
    (files.removeAll places).contentAt? place =
      if place ∈ places then none else files.contentAt? place := by
  rw [contentAt?, contentAt?, removeAll]
  dsimp only
  rw [List.find?_filter]
  split_ifs with hplace
  · rw [List.find?_eq_none.mpr, Option.map_none]
    rintro e - he
    rw [decide_eq_true_eq, Bool.not_eq_true', List.contains_eq_mem, decide_eq_false_iff_not] at he
    exact he.1 ((beq_iff_eq.mp he.2) ▸ hplace)
  · congr 2
    funext e
    by_cases he : e.1 = place
    · simp [he, hplace]
    · simp [he]

end Files

end NoteShell
