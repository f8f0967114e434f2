import Mathlib.Data.List.DropRight
import Mathlib.Tactic.Common
import NoteShell.Json.Parser
import NoteShell.Json.Printer

/-!
# Reading indented documents back

A document without numbers is read back from its indented form, except that the members of its
objects come in key order.

## Main definitions

* `Json.sorted` : a document with the members of all objects in key order.
* `Json.TextualWithin` : documents without numbers that are not nested too deep.
* `Json.ReadsAs` : what is written after a text is read as a given document.

## Main results

* `Json.readText_escaped` : escaped texts are read back.
* `Json.parse?_indented` : documents without numbers are read back.
-/

namespace NoteShell.Json

/-! ### Texts -/

theorem hex4?_hexDigit {n : Nat} (hn : n < 0x20) :
    hex4? '0' '0' (hexDigit (n / 16)) (hexDigit (n % 16)) = some n := by
  revert n
  decide

/-- An escaped character is read as the character. -/
theorem readText_escapeChar (c : Char) (acc rest : List Char) :
    readText none acc (escapeChar c ++ rest) = readText none (c :: acc) rest := by
  unfold escapeChar
  split
  case h_8 _ hquote hbackslash _ _ _ _ _ =>
    split_ifs with hcontrol
    · refine (readText.eq_2 _ _ _ _ _ _ _ (hex4?_hexDigit hcontrol)).trans ?_
      rw [if_neg (by omega), if_neg (by omega), Char.ofNat_toNat]
      rfl
    · refine (readText.eq_7 _ _ _ _ (fun _ _ _ _ _ h _ => hbackslash h)
        fun _ _ h _ => hbackslash h).trans ?_
      rw [if_neg (by simpa [hcontrol] using hbackslash), if_neg (by simpa using hquote)]
      rfl
  all_goals rfl

/-- An escaped text is read up to the quote after it. -/
theorem readText_escaped (cs acc rest : List Char) :
    readText none acc (cs.flatMap escapeChar ++ '"' :: rest) =
      some (String.ofList (acc.reverse ++ cs), rest) := by
  induction cs generalizing acc with
  | nil =>
    rw [List.append_nil]
    rfl
  | cons c cs ih =>
    rw [List.flatMap_cons, List.append_assoc, readText_escapeChar, ih, List.reverse_cons,
      List.append_assoc, List.singleton_append]

theorem toList_foldl_push (cs : List Char) (out : String) :
    (cs.foldl String.push out).toList = out.toList ++ cs := by
  induction cs generalizing out with
  | nil => exact (List.append_nil _).symm
  | cons c cs ih => rw [List.foldl_cons, ih, String.toList_push, List.append_assoc,
      List.singleton_append]

/-- The characters of a quoted text. -/
theorem toList_writeQuoted (out s : String) :
    (writeQuoted out s).toList = out.toList ++ '"' :: (s.toList.flatMap escapeChar ++ ['"']) := by
  have hfold (cs : List Char) (out : String) :
      (cs.foldl (fun out c => (escapeChar c).foldl String.push out) out).toList =
        out.toList ++ cs.flatMap escapeChar := by
    induction cs generalizing out with
    | nil => exact (List.append_nil _).symm
    | cons c cs ih => rw [List.foldl_cons, ih, toList_foldl_push, List.flatMap_cons,
        List.append_assoc]
  rw [writeQuoted, String.toList_push, String.foldl_eq_foldl_toList, hfold, String.toList_push,
    List.append_assoc, List.append_assoc, List.singleton_append]

/-! ### Space -/

theorem skipSpace_append {spaces : List Char} (hspaces : ∀ c ∈ spaces, isSpace c = true) {c : Char}
    (hc : isSpace c = false) (cs : List Char) : skipSpace (spaces ++ c :: cs) = c :: cs := by
  rw [skipSpace, List.dropWhile_append_of_pos hspaces, List.dropWhile_cons_of_neg (by simp [hc])]

theorem skipSpace_cons {c : Char} (hc : isSpace c = false) (cs : List Char) :
    skipSpace (c :: cs) = c :: cs :=
  skipSpace_append (List.forall_mem_nil _) hc cs

theorem skipSpace_skipSpace (cs : List Char) : skipSpace (skipSpace cs) = skipSpace cs :=
  List.dropWhile_idempotent _ _

/-- The line end and the space before a line that stands `level` levels deep. -/
def indentation (level : Nat) : List Char := '\n' :: List.replicate (2 * level) ' '

theorem toList_newline (out : String) (level : Nat) :
    (newline out level).toList = out.toList ++ indentation level := by
  simp only [newline, String.toList_append, String.toList_ofList, List.append_assoc]
  rfl

theorem isSpace_of_mem_indentation {level : Nat} {c : Char} (hc : c ∈ indentation level) :
    isSpace c = true := by
  obtain rfl | hc := List.mem_cons.mp hc
  · rfl
  · rw [(List.mem_replicate.mp hc).2]
    rfl

/-! ### Documents -/

/-- A document with the members of all objects in key order. -/
def sorted : Json → Json
  | arr items => arr (items.map sorted)
  | obj members => object (members.map fun m => (m.1, sorted m.2))
  | j => j
decreasing_by
  · have := List.sizeOf_lt_of_mem ‹_›
    simp
    omega
  · have := List.sizeOf_lt_of_mem ‹_›
    obtain ⟨key, value⟩ := m
    simp at this ⊢
    omega

/-- Documents without numbers whose arrays and objects nest at most the given number of levels. -/
def TextualWithin : (depth : Nat) → Json → Prop
  | _, null | _, bool _ | _, str _ => True
  | depth + 1, arr items => ∀ item ∈ items, TextualWithin depth item
  | depth + 1, obj members => ∀ m ∈ members, TextualWithin depth m.2
  | _, _ => False

/-- The characters `cs` are written after any text. -/
def Writes (write : String → String) (cs : List Char) : Prop :=
  ∀ out, (write out).toList = out.toList ++ cs

/-- Characters begin with a value: neither with space nor with the end of an array. -/
def BeginsValue (cs : List Char) : Prop :=
  ∃ c cs', cs = c :: cs' ∧ isSpace c = false ∧ c ≠ ']'

/-- The characters `cs` are read as a document, whatever comes after them. -/
def ReadsAs (value : Reader) (cs : List Char) (j : Json) : Prop :=
  BeginsValue cs ∧ ∀ rest, value (cs ++ rest) = some (j, rest)

theorem BeginsValue.append {cs : List Char} (h : BeginsValue cs) (rest : List Char) :
    BeginsValue (cs ++ rest) := by
  obtain ⟨c, cs, rfl, hc⟩ := h
  exact ⟨c, cs ++ rest, rfl, hc⟩

theorem BeginsValue.skipSpace_append {cs : List Char} (h : BeginsValue cs) {spaces : List Char}
    (hspaces : ∀ c ∈ spaces, isSpace c = true) : skipSpace (spaces ++ cs) = cs := by
  obtain ⟨c, cs, rfl, hspace, -⟩ := h
  exact Json.skipSpace_append hspaces hspace cs

theorem BeginsValue.skipSpace {cs : List Char} (h : BeginsValue cs) : skipSpace cs = cs :=
  h.skipSpace_append (List.forall_mem_nil _)

variable {value : Reader} {level : Nat} {f : Json → Json}

/-! ### Arrays -/

theorem readItems_skipSpace (fuel : Nat) (acc : List Json) (cs : List Char) :
    readItems value fuel acc (skipSpace cs) = readItems value fuel acc cs := by
  cases fuel with
  | zero => rfl
  | succ fuel => rw [readItems, readItems, skipSpace_skipSpace]

/-- Lines of items that are each read by `value` are read as the array of these items. -/
theorem readItems_writeItemLines (item : Json) (items : List Json)
    (hitems : ∀ i ∈ item :: items, ∃ cs, Writes (writeIndented · level i) cs ∧
      ReadsAs value cs (f i)) :
    ∃ cs, Writes (writeItemLines · level true (item :: items)) (indentation level ++ cs) ∧
      BeginsValue cs ∧ items.length < cs.length ∧
      ∀ fuel acc outer rest, items.length < fuel →
        readItems value fuel acc (cs ++ (indentation outer ++ ']' :: rest)) =
          some (arr (acc.reverse ++ (item :: items).map f), rest) := by
  induction items generalizing item with
  | nil =>
    obtain ⟨cs, hwrites, hbegins, hread⟩ := hitems item (by simp)
    refine ⟨cs, fun out => ?_, hbegins, ?_, fun fuel acc outer rest hfuel => ?_⟩
    · simp only [writeItemLines, if_true]
      rw [hwrites, toList_newline, List.append_assoc]
    · obtain ⟨c, cs, rfl, -⟩ := hbegins
      exact Nat.zero_lt_succ _
    · obtain ⟨fuel, rfl⟩ := Nat.exists_eq_add_one_of_ne_zero (Nat.ne_zero_of_lt hfuel)
      rw [readItems, (hbegins.append _).skipSpace, hread]
      dsimp only
      rw [skipSpace_append (fun _ => isSpace_of_mem_indentation) rfl, List.reverse_cons]
      rfl
  | cons next items ih =>
    obtain ⟨cs, hwrites, hbegins, hread⟩ := hitems item (by simp)
    obtain ⟨cs', hwrites', hbegins', hlength', hread'⟩ :=
      ih next fun i hi => hitems i (List.mem_cons_of_mem _ hi)
    refine ⟨cs ++ ',' :: (indentation level ++ cs'), fun out => ?_, hbegins.append _, ?_,
      fun fuel acc outer rest hfuel => ?_⟩
    · have hrest := hwrites' (writeIndented (newline out level) level item ++ ",")
      simp only [writeItemLines, if_true, Bool.false_eq_true, if_false] at hrest ⊢
      rw [hrest, String.toList_append, hwrites, toList_newline]
      simp only [List.append_assoc]
      rfl
    · rw [List.length_append, List.length_cons, List.length_cons, List.length_append]
      omega
    · obtain ⟨fuel, rfl⟩ := Nat.exists_eq_add_one_of_ne_zero (Nat.ne_zero_of_lt hfuel)
      rw [readItems, List.append_assoc, (hbegins.append _).skipSpace, hread]
      dsimp only
      rw [List.cons_append, skipSpace_cons rfl]
      change readItems value fuel (f item :: acc) _ = _
      rw [List.append_assoc, ← readItems_skipSpace,
        (hbegins'.append _).skipSpace_append fun _ => isSpace_of_mem_indentation,
        hread' _ _ _ _ (Nat.lt_of_succ_lt_succ hfuel), List.reverse_cons, List.append_assoc]
      rfl

/-! ### Objects -/

theorem readMembers_skipSpace (fuel : Nat) (acc : List (String × Json)) (cs : List Char) :
    readMembers value fuel acc (skipSpace cs) = readMembers value fuel acc cs := by
  cases fuel with
  | zero => rfl
  | succ fuel => rw [readMembers, readMembers, skipSpace_skipSpace]

/-- The characters of a key and of a value after it. -/
def memberChars (key : String) (cs : List Char) : List Char :=
  '"' :: (key.toList.flatMap escapeChar ++ '"' :: ':' :: ' ' :: cs)

/-- After a member, a comma continues the object and a brace ends it. -/
theorem readMembers_memberChars {key : String} {cs : List Char} {j : Json}
    (hread : ReadsAs value cs j)
    (fuel : Nat) (acc : List (String × Json)) {rest rest' : List Char} :
    (skipSpace rest = ',' :: rest' →
      readMembers value (fuel + 1) acc (memberChars key cs ++ rest) =
        readMembers value fuel ((key, j) :: acc) rest') ∧
    (skipSpace rest = '\x7d' :: rest' →
      readMembers value (fuel + 1) acc (memberChars key cs ++ rest) =
        some (object (acc.reverse ++ [(key, j)]), rest')) := by
  have hkey : memberChars key cs ++ rest =
      '"' :: (key.toList.flatMap escapeChar ++ '"' :: ':' :: ' ' :: (cs ++ rest)) := by
    rw [memberChars, List.cons_append, List.append_assoc]
    rfl
  have hspace : skipSpace (' ' :: (cs ++ rest)) = cs ++ rest :=
    (hread.1.append rest).skipSpace_append (List.forall_mem_singleton.mpr rfl)
  constructor <;> intro hrest <;>
    simp only [readMembers, hkey, skipSpace_cons (c := '"') rfl,
      skipSpace_cons (c := ':') rfl, hspace,
      readText_escaped, List.reverse_nil, List.nil_append, String.ofList_toList, hread.2, hrest,
      List.reverse_cons]

theorem head?_memberChars (key : String) (cs rest : List Char) :
    (memberChars key cs ++ rest).head? = some '"' :=
  rfl

theorem toList_member (out key : String) {cs : List Char} {j : Json}
    (hwrites : Writes (writeIndented · level j) cs) :
    (writeIndented (writeQuoted (newline out level) key ++ ": ") level j).toList =
      out.toList ++ (indentation level ++ memberChars key cs) := by
  rw [hwrites, String.toList_append, toList_writeQuoted, toList_newline, memberChars]
  simp only [List.append_assoc, List.cons_append]
  rfl

theorem length_memberChars (key : String) (cs : List Char) : 0 < (memberChars key cs).length :=
  Nat.zero_lt_succ _

/-- Lines of members whose values are each read by `value` are read as the object of these
members. -/
theorem readMembers_writeMemberLines (m : String × Json) (members : List (String × Json))
    (hmembers : ∀ m' ∈ m :: members, ∃ cs, Writes (writeIndented · level m'.2) cs ∧
      ReadsAs value cs (f m'.2)) :
    ∃ cs, Writes (writeMemberLines · level true (m :: members)) (indentation level ++ cs) ∧
      cs.head? = some '"' ∧ members.length < cs.length ∧
      ∀ fuel acc outer rest, members.length < fuel →
        readMembers value fuel acc (cs ++ (indentation outer ++ '\x7d' :: rest)) =
          some (object (acc.reverse ++ (m :: members).map fun m => (m.1, f m.2)), rest) := by
  induction members generalizing m with
  | nil =>
    obtain ⟨cs, hwrites, hread⟩ := hmembers m (by simp)
    refine ⟨memberChars m.1 cs, fun out => ?_, rfl, length_memberChars m.1 cs,
      fun fuel acc outer rest hfuel => ?_⟩
    · simp only [writeMemberLines, if_true]
      exact toList_member out m.1 hwrites
    · obtain ⟨fuel, rfl⟩ := Nat.exists_eq_add_one_of_ne_zero (Nat.ne_zero_of_lt hfuel)
      exact (readMembers_memberChars hread fuel acc).2
        (skipSpace_append (fun _ => isSpace_of_mem_indentation) rfl rest)
  | cons next members ih =>
    obtain ⟨cs, hwrites, hread⟩ := hmembers m (by simp)
    obtain ⟨cs', hwrites', hhead', hlength', hread'⟩ :=
      ih next fun i hi => hmembers i (List.mem_cons_of_mem _ hi)
    refine ⟨memberChars m.1 cs ++ ',' :: (indentation level ++ cs'), fun out => ?_,
      head?_memberChars _ _ _, ?_, fun fuel acc outer rest hfuel => ?_⟩
    · have hrest := hwrites'
        (writeIndented (writeQuoted (newline out level) m.1 ++ ": ") level m.2 ++ ",")
      simp only [writeMemberLines, if_true, Bool.false_eq_true, if_false] at hrest ⊢
      rw [hrest, String.toList_append, toList_member out m.1 hwrites]
      simp only [List.append_assoc]
      rfl
    · have hpos := length_memberChars m.1 cs
      rw [List.length_append, List.length_cons, List.length_cons, List.length_append]
      omega
    · obtain ⟨fuel, rfl⟩ := Nat.exists_eq_add_one_of_ne_zero (Nat.ne_zero_of_lt hfuel)
      obtain ⟨rest', rfl⟩ : ∃ rest', cs' = '"' :: rest' := List.head?_eq_some_iff.mp hhead'
      rw [List.append_assoc, List.cons_append,
        (readMembers_memberChars hread fuel acc).1 (skipSpace_cons rfl _), List.append_assoc,
        ← readMembers_skipSpace, List.cons_append,
        skipSpace_append (fun _ => isSpace_of_mem_indentation) rfl, ← List.cons_append,
        hread' _ _ _ _ (Nat.lt_of_succ_lt_succ hfuel), List.reverse_cons, List.append_assoc]
      rfl

/-! ### All documents -/

theorem readValue_of_scalar {c : Char} (harray : c ≠ '[') (hobject : c ≠ '\x7b') (depth : Nat)
    (cs : List Char) : readValue depth (c :: cs) = readScalar (c :: cs) := by
  cases depth with
  | zero => rfl
  | succ depth =>
    exact readValue.eq_4 _ _ (fun _ h => harray (List.cons.inj h).1)
      fun _ h => hobject (List.cons.inj h).1

theorem readValue_array {cs : List Char} (hcs : BeginsValue cs) (depth level : Nat) :
    readValue (depth + 1) ('[' :: (indentation level ++ cs)) =
      readItems (readValue depth) (cs.length + 1) [] cs := by
  rw [readValue.eq_2, hcs.skipSpace_append fun _ => isSpace_of_mem_indentation]
  obtain ⟨c, cs, rfl, -, hend⟩ := hcs
  split
  · exact absurd (List.cons.inj ‹_›).1 hend
  · rfl

theorem readValue_object {cs : List Char} (depth level : Nat) (hcs : cs.head? = some '"') :
    readValue (depth + 1) ('\x7b' :: (indentation level ++ cs)) =
      readMembers (readValue depth) (cs.length + 1) [] cs := by
  obtain ⟨cs, rfl⟩ := List.head?_eq_some_iff.mp hcs
  rw [readValue.eq_3, skipSpace_append (fun _ => isSpace_of_mem_indentation) rfl]
  rfl

theorem readsAs_scalar {c : Char} {cs : List Char} {j : Json} (hspace : isSpace c = false)
    (hends : c ∉ [']', '[', '\x7b']) (depth : Nat)
    (hread : ∀ rest, readScalar (c :: cs ++ rest) = some (j, rest)) :
    ReadsAs (readValue depth) (c :: cs) j := by
  simp only [List.mem_cons, List.not_mem_nil, or_false, not_or] at hends
  exact ⟨⟨c, cs, rfl, hspace, hends.1⟩, fun rest =>
    (readValue_of_scalar hends.2.1 hends.2.2 depth _).trans (hread rest)⟩

theorem sorted_of_scalar {j : Json} (hj : TextualWithin 0 j) : sorted j = j := by
  cases j with
  | arr items => exact hj.elim
  | obj members => exact hj.elim
  | _ => rw [sorted] <;> simp

/-- What is written for a document without containers and numbers is read as this document. -/
theorem readsAs_writeIndented_scalar {j : Json} (hj : TextualWithin 0 j) (depth level : Nat) :
    ∃ cs, Writes (writeIndented · level j) cs ∧ ReadsAs (readValue depth) cs (sorted j) := by
  rw [sorted_of_scalar hj]
  cases j with
  | null =>
    refine ⟨"null".toList, fun out => ?_, ?_⟩
    · simp only [writeIndented, String.toList_append]
    · exact readsAs_scalar rfl (by decide) depth fun _ => rfl
  | bool b =>
    refine ⟨(if b then "true" else "false").toList, fun out => ?_, ?_⟩
    · simp only [writeIndented, String.toList_append]
    · cases b <;> exact readsAs_scalar rfl (by decide) depth fun _ => rfl
  | str s =>
    refine ⟨'"' :: (s.toList.flatMap escapeChar ++ ['"']), fun out => ?_, ?_⟩
    · simp only [writeIndented, toList_writeQuoted]
    · refine readsAs_scalar rfl (by decide) depth fun rest => ?_
      rw [List.cons_append, readScalar.eq_4, List.append_assoc, List.singleton_append,
        readText_escaped, List.reverse_nil, List.nil_append, String.ofList_toList]
      rfl
  | int i => exact hj.elim
  | float x => exact hj.elim
  | arr items => exact hj.elim
  | obj members => exact hj.elim

/-- An array is read as the array of what its items are read as. -/
theorem readsAs_writeIndented_arr {depth : Nat} {items : List Json} (level : Nat)
    (hitems : ∀ i ∈ items, ∃ cs, Writes (writeIndented · (level + 1) i) cs ∧
      ReadsAs (readValue depth) cs (f i)) :
    ∃ cs, Writes (writeIndented · level (arr items)) cs ∧
      ReadsAs (readValue (depth + 1)) cs (arr (items.map f)) := by
  cases items with
  | nil =>
    refine ⟨['[', ']'], fun out => ?_, ⟨_, _, rfl, rfl, by decide⟩, fun rest => rfl⟩
    simp only [writeIndented, String.toList_append]
    rfl
  | cons item items =>
    obtain ⟨cs, hwrites, hbegins, hlength, hread⟩ := readItems_writeItemLines item items hitems
    refine ⟨'[' :: (indentation (level + 1) ++ cs ++ (indentation level ++ [']'])), fun out => ?_,
      ⟨_, _, rfl, rfl, by decide⟩, fun rest => ?_⟩
    · simp only [writeIndented, String.toList_append, toList_newline, hwrites (out ++ "[")]
      simp only [List.append_assoc]
      rfl
    · rw [List.cons_append, List.append_assoc, List.append_assoc, List.append_assoc,
        List.singleton_append, readValue_array (hbegins.append _), hread _ _ _ _ ?_]
      · rfl
      · rw [List.length_append]
        omega

/-- An object is read as the object of what its values are read as. -/
theorem readsAs_writeIndented_obj {depth : Nat} {members : List (String × Json)} (level : Nat)
    (hmembers : ∀ m ∈ members, ∃ cs, Writes (writeIndented · (level + 1) m.2) cs ∧
      ReadsAs (readValue depth) cs (f m.2)) :
    ∃ cs, Writes (writeIndented · level (obj members)) cs ∧
      ReadsAs (readValue (depth + 1)) cs (object (members.map fun m => (m.1, f m.2))) := by
  cases members with
  | nil =>
    refine ⟨['\x7b', '\x7d'], fun out => ?_, ⟨_, _, rfl, rfl, by decide⟩, fun rest => rfl⟩
    simp only [writeIndented, String.toList_append]
    rfl
  | cons m members =>
    obtain ⟨cs, hwrites, hhead, hlength, hread⟩ := readMembers_writeMemberLines m members hmembers
    refine ⟨'\x7b' :: (indentation (level + 1) ++ cs ++ (indentation level ++ ['\x7d'])),
      fun out => ?_, ⟨_, _, rfl, rfl, by decide⟩, fun rest => ?_⟩
    · simp only [writeIndented, String.toList_append, toList_newline, hwrites (out ++ "\x7b")]
      simp only [List.append_assoc]
      rfl
    · rw [List.cons_append, List.append_assoc, List.append_assoc, List.append_assoc,
        List.singleton_append, readValue_object _ _ (by rw [List.head?_append, hhead]; rfl),
        hread _ _ _ _ ?_]
      · rfl
      · rw [List.length_append]
        omega

/-- What is written for a document without numbers is read as this document. -/
theorem readsAs_writeIndented {depth : Nat} {j : Json} (hj : TextualWithin depth j) (level : Nat) :
    ∃ cs, Writes (writeIndented · level j) cs ∧ ReadsAs (readValue depth) cs (sorted j) := by
  induction depth generalizing j level with
  | zero => exact readsAs_writeIndented_scalar hj 0 level
  | succ depth ih =>
    cases j with
    | null => exact readsAs_writeIndented_scalar (by trivial) _ level
    | bool b => exact readsAs_writeIndented_scalar (by trivial) _ level
    | int i => exact hj.elim
    | float x => exact hj.elim
    | str s => exact readsAs_writeIndented_scalar (by trivial) _ level
    | arr items =>
      rw [sorted]
      exact readsAs_writeIndented_arr level fun i hi => ih (hj i hi) (level + 1)
    | obj members =>
      rw [sorted]
      exact readsAs_writeIndented_obj level fun m hm => ih (hj m hm) (level + 1)

/-- A document without numbers is read back from its indented form. -/
theorem parse?_indented {j : Json} (hj : TextualWithin maxNesting j) :
    parse? j.indented = some (sorted j) := by
  obtain ⟨cs, hwrites, hbegins, hread⟩ := readsAs_writeIndented hj 0
  have hchars : j.indented.toList = cs := hwrites ""
  have hvalue := hread []
  rw [List.append_nil] at hvalue
  rw [parse?, hchars, hbegins.skipSpace, hvalue]
  rfl

end NoteShell.Json
