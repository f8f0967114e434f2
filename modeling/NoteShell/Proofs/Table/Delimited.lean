import Mathlib.Tactic.Common
import NoteShell.Table.Basic
import NoteShell.Table.Delimited

/-!
# Delimited text read back

Records are written one to a line, each field in quotes or, where nothing in it could be mistaken,
as it is. However the fields are written and the lines end, the records are read back from the text.
The first record becomes the header of a table, as long as none of the others is wider.

## Main definitions

* `WrittenField`, `WrittenRecord` : fields and records with the way in which they are written.
* `writtenChars` : the text of some records.

## Main results

* `readDelimited_field`, `readDelimited_record` : what is read of one field and one record.
* `ofRecords_of_le`, `ofRecords_of_not_le` : the table of some records, or why there is none.
* `parseDelimited_written` : records are read back, and make a table.
-/

namespace NoteShell

/-! ### Writing -/

/-- The characters of a field may stand without quotes. -/
structure IsPlain (sep : Char) (cs : List Char) : Prop where
  ne_nil : cs ≠ []
  chars : ∀ c ∈ cs, c ≠ sep ∧ c ≠ '"' ∧ c ≠ '\r' ∧ c ≠ '\n'
  mark : cs.head? ≠ some byteOrderMark

/-- A field and the way in which it is written. -/
structure WrittenField (sep : Char) where
  text : String
  quoted : Bool
  plain : quoted = false → IsPlain sep text.toList

/-- A record of at least one field and the way in which it is written. -/
structure WrittenRecord (sep : Char) where
  first : WrittenField sep
  others : List (WrittenField sep)
  /-- Whether a carriage return stands before the line feed. -/
  returns : Bool

variable {sep : Char}

/-- Characters with each quote doubled. -/
def doubled (cs : List Char) : List Char := cs.flatMap fun c => if c = '"' then ['"', '"'] else [c]

/-- The characters that a field is written with. -/
def WrittenField.chars (f : WrittenField sep) : List Char :=
  if f.quoted then '"' :: (doubled f.text.toList ++ ['"']) else f.text.toList

namespace WrittenRecord

/-- The fields of a record. -/
def fields (r : WrittenRecord sep) : List String := r.first.text :: r.others.map (·.text)

/-- The characters that a record is written with, without the line end. -/
def chars (r : WrittenRecord sep) : List Char :=
  r.first.chars ++ r.others.flatMap fun f => sep :: f.chars

/-- The line end of a record. -/
def lineEnd (r : WrittenRecord sep) : List Char := if r.returns then ['\r', '\n'] else ['\n']

end WrittenRecord

/-- The characters that records are written with, the last one with or without its line end. -/
def writtenChars (closed : Bool) : List (WrittenRecord sep) → List Char
  | [] => []
  | [r] => r.chars ++ if closed then r.lineEnd else []
  | r :: rest => r.chars ++ r.lineEnd ++ writtenChars closed rest

/-! ### Reading fields -/

/-- No quote comes next. -/
def NoQuote (cs : List Char) : Prop := cs.head? ≠ some '"'

variable {s : DelimitedState} {cs rest : List Char}

theorem noQuote_cons {c : Char} (hc : c ≠ '"') : NoQuote (c :: rest) := fun h =>
  hc (Option.some.inj h)

theorem readDelimited_quotePair :
    readDelimited sep true s ('"' :: '"' :: rest) = readDelimited sep true (s.push '"') rest := rfl

theorem readDelimited_end :
    readDelimited sep false s [] = some s.endRecord.records.reverse := rfl

theorem readDelimited_cons {c : Char} :
    readDelimited sep false s (c :: rest) =
      if c = '"' ∧ s.field = [] then readDelimited sep true { s with started := true } rest
      else if c = '\r' then readDelimited sep false s rest
      else if c = '\n' then readDelimited sep false s.endRecord rest
      else if c = sep then readDelimited sep false s.endField rest
      else readDelimited sep false (s.push c) rest := rfl

/-- The quote that closes a field. -/
theorem readDelimited_close (hrest : NoQuote rest) :
    readDelimited sep true s ('"' :: rest) = readDelimited sep false s rest := by
  rw [readDelimited.eq_3, if_pos rfl]
  rintro rest' - rfl
  exact hrest rfl

theorem readDelimited_inside {c : Char} (hc : c ≠ '"') :
    readDelimited sep true s (c :: rest) = readDelimited sep true (s.push c) rest := by
  rw [readDelimited.eq_3, if_neg hc]
  exact fun _ h _ => hc h

theorem readDelimited_outside {c : Char} (hc : c ≠ sep ∧ c ≠ '"' ∧ c ≠ '\r' ∧ c ≠ '\n') :
    readDelimited sep false s (c :: rest) = readDelimited sep false (s.push c) rest := by
  obtain ⟨hsep, hquote, hreturn, hfeed⟩ := hc
  rw [readDelimited_cons, if_neg fun h => hquote h.1, if_neg hreturn, if_neg hfeed, if_neg hsep]

/-- Inside of quotes everything is read up to the closing one. -/
theorem readDelimited_doubled (hs : s.started = true) (cs : List Char) (hrest : NoQuote rest) :
    readDelimited sep true s (doubled cs ++ '"' :: rest) =
      readDelimited sep false { s with field := cs.reverse ++ s.field } rest := by
  induction cs generalizing s with
  | nil => exact readDelimited_close hrest
  | cons c cs ih =>
    have hpush := ih (s := s.push c) rfl
    have hstate : { s with field := (c :: cs).reverse ++ s.field } =
        { s.push c with field := cs.reverse ++ (s.push c).field } := by
      simp [DelimitedState.push, hs]
    rw [hstate, ← hpush]
    by_cases hc : c = '"'
    · subst hc
      exact readDelimited_quotePair
    · have hcons : doubled (c :: cs) = c :: doubled cs := by
        rw [doubled, List.flatMap_cons, if_neg hc]
        rfl
      rw [hcons]
      exact readDelimited_inside hc

/-- Outside of quotes plain characters are read as they are. -/
theorem readDelimited_plain (hs : s.started = true) {cs : List Char}
    (hcs : ∀ c ∈ cs, c ≠ sep ∧ c ≠ '"' ∧ c ≠ '\r' ∧ c ≠ '\n') (rest : List Char) :
    readDelimited sep false s (cs ++ rest) =
      readDelimited sep false { s with field := cs.reverse ++ s.field } rest := by
  induction cs generalizing s with
  | nil => rfl
  | cons c cs ih =>
    rw [List.forall_mem_cons] at hcs
    have hstate : { s with field := (c :: cs).reverse ++ s.field } =
        { s.push c with field := cs.reverse ++ (s.push c).field } := by
      simp [DelimitedState.push, hs]
    rw [List.cons_append, readDelimited_outside hcs.1, ih rfl hcs.2, hstate]

/-- A field is read, in whichever way it is written. -/
theorem readDelimited_field (f : WrittenField sep) (record : List String)
    (records : List (List String)) (started : Bool) (hrest : NoQuote rest) :
    readDelimited sep false ⟨[], record, records, started⟩ (f.chars ++ rest) =
      readDelimited sep false ⟨f.text.toList.reverse, record, records, true⟩ rest := by
  rw [WrittenField.chars]
  split_ifs with hquoted
  · rw [List.cons_append, List.append_assoc, readDelimited_cons, if_pos ⟨rfl, rfl⟩]
    rw [List.singleton_append, readDelimited_doubled rfl _ hrest, List.append_nil]
  · have hplain := f.plain (Bool.not_eq_true _ ▸ hquoted)
    obtain ⟨c, cs, hcs⟩ := List.exists_cons_of_ne_nil hplain.ne_nil
    have hchars := hplain.chars
    rw [hcs] at hchars ⊢
    rw [List.forall_mem_cons] at hchars
    rw [List.cons_append, readDelimited_outside hchars.1, readDelimited_plain rfl hchars.2]
    simp [DelimitedState.push]

/-! ### Reading records -/

/-- The other fields of a record are read, each after a separator. -/
theorem readDelimited_others (hsep : sep ≠ '"' ∧ sep ≠ '\r' ∧ sep ≠ '\n')
    (fs : List (WrittenField sep)) (text : String) (record : List String)
    (records : List (List String)) (hrest : NoQuote rest) :
    ∃ last done, readDelimited sep false ⟨text.toList.reverse, record, records, true⟩
        ((fs.flatMap fun f => sep :: f.chars) ++ rest) =
      readDelimited sep false ⟨last, done, records, true⟩ rest ∧
      (String.ofList last.reverse :: done).reverse = record.reverse ++ text :: fs.map (·.text) := by
  induction fs generalizing text record with
  | nil => exact ⟨_, _, rfl, by simp⟩
  | cons f fs ih =>
    have hnext : NoQuote ((fs.flatMap fun f => sep :: f.chars) ++ rest) := by
      cases fs with
      | nil => exact hrest
      | cons f fs => exact noQuote_cons hsep.1
    obtain ⟨last, done, hread, hfields⟩ := ih f.text (text :: record)
    refine ⟨last, done, ?_, by rw [hfields]; simp⟩
    rw [List.flatMap_cons, List.append_assoc, List.cons_append, readDelimited_cons,
      if_neg fun h => hsep.1 h.1, if_neg hsep.2.1, if_neg hsep.2.2, if_pos rfl, ← hread]
    have hend : (DelimitedState.mk text.toList.reverse record records true).endField =
        ⟨[], text :: record, records, true⟩ := by
      change DelimitedState.mk [] (String.ofList text.toList.reverse.reverse :: record)
        records true = _
      rw [List.reverse_reverse, String.ofList_toList]
    rw [hend, readDelimited_field f _ _ _ hnext]

/-- What the end of a record makes of the fields that have been read. -/
theorem readDelimited_record (hsep : sep ≠ '"' ∧ sep ≠ '\r' ∧ sep ≠ '\n') (r : WrittenRecord sep)
    (records : List (List String)) (hrest : NoQuote rest) :
    ∃ s : DelimitedState, s.endRecord = ⟨[], [], r.fields :: records, false⟩ ∧
      readDelimited sep false ⟨[], [], records, false⟩ (r.chars ++ rest) =
        readDelimited sep false s rest := by
  have hnext : NoQuote ((r.others.flatMap fun f => sep :: f.chars) ++ rest) := by
    cases r.others with
    | nil => exact hrest
    | cons f fs => exact noQuote_cons hsep.1
  obtain ⟨last, done, hread, hfields⟩ :=
    readDelimited_others hsep r.others r.first.text [] records hrest
  refine ⟨⟨last, done, records, true⟩, ?_, ?_⟩
  · change DelimitedState.mk [] [] ((String.ofList last.reverse :: done).reverse :: records) false =
      _
    rw [hfields]
    rfl
  · rw [WrittenRecord.chars, List.append_assoc, readDelimited_field r.first _ _ _ hnext, hread]

/-- A line end is read, with or without a carriage return. -/
theorem readDelimited_lineEnd (r : WrittenRecord sep) (s : DelimitedState) (rest : List Char) :
    readDelimited sep false s (r.lineEnd ++ rest) = readDelimited sep false s.endRecord rest := by
  have hfeed : readDelimited sep false s ('\n' :: rest) =
      readDelimited sep false s.endRecord rest := by
    rw [readDelimited_cons, if_neg (by simp), if_neg (by decide), if_pos rfl]
  rw [WrittenRecord.lineEnd]
  split_ifs
  · rw [List.cons_append, List.singleton_append, readDelimited_cons, if_neg (by simp),
      if_pos rfl, hfeed]
  · exact hfeed

theorem noQuote_lineEnd (r : WrittenRecord sep) (rest : List Char) :
    NoQuote (r.lineEnd ++ rest) := by
  rw [WrittenRecord.lineEnd]
  split_ifs <;> exact noQuote_cons (by decide)

/-- All records are read in order. -/
theorem readDelimited_written (hsep : sep ≠ '"' ∧ sep ≠ '\r' ∧ sep ≠ '\n') (closed : Bool)
    (rs : List (WrittenRecord sep)) (records : List (List String)) :
    readDelimited sep false ⟨[], [], records, false⟩ (writtenChars closed rs) =
      some (records.reverse ++ rs.map (·.fields)) := by
  -- What is left after a line end.
  have hclosed (r : WrittenRecord sep) (rest : List Char) (records : List (List String)) :
      readDelimited sep false ⟨[], [], records, false⟩ (r.chars ++ (r.lineEnd ++ rest)) =
        readDelimited sep false ⟨[], [], r.fields :: records, false⟩ rest := by
    obtain ⟨s, hs, hread⟩ := readDelimited_record hsep r records (noQuote_lineEnd r rest)
    rw [hread, readDelimited_lineEnd, hs]
  have hend (records : List (List String)) :
      readDelimited sep false ⟨[], [], records, false⟩ [] = some records.reverse :=
    readDelimited_end
  induction rs generalizing records with
  | nil => rw [writtenChars, hend, List.map_nil, List.append_nil]
  | cons r rs ih =>
    have hreverse : (r.fields :: records).reverse ++ rs.map (·.fields) =
        records.reverse ++ (r :: rs).map (·.fields) := by simp
    cases rs with
    | cons next rs =>
      rw [writtenChars, List.append_assoc, hclosed, ih, hreverse]
      simp
    | nil =>
      rw [writtenChars]
      cases closed with
      | true =>
        have h := hclosed r [] records
        rw [List.append_nil] at h
        rw [if_pos rfl, h, hend]
        simp
      | false =>
        have hrest : NoQuote [] := nofun
        obtain ⟨s, hs, hread⟩ := readDelimited_record hsep r records hrest
        rw [if_neg Bool.false_ne_true, hread, readDelimited_end, hs]
        simp

/-- No mark stands before the records, which would be dropped. -/
theorem dropWhile_writtenChars (closed : Bool) (rs : List (WrittenRecord sep)) :
    (writtenChars closed rs).dropWhile (· = byteOrderMark) = writtenChars closed rs := by
  have hfield (f : WrittenField sep) : ∃ c cs, f.chars = c :: cs ∧ c ≠ byteOrderMark := by
    rw [WrittenField.chars]
    split_ifs with hquoted
    · exact ⟨_, _, rfl, by decide⟩
    · have hplain := f.plain (Bool.not_eq_true _ ▸ hquoted)
      obtain ⟨c, cs, hcs⟩ := List.exists_cons_of_ne_nil hplain.ne_nil
      refine ⟨c, cs, hcs, fun hc => hplain.mark ?_⟩
      rw [hcs, hc]
      rfl
  have hrecord (r : WrittenRecord sep) (rest : List Char) :
      (r.chars ++ rest).dropWhile (· = byteOrderMark) = r.chars ++ rest := by
    obtain ⟨c, cs, hcs, hc⟩ := hfield r.first
    rw [WrittenRecord.chars, hcs]
    exact List.dropWhile_cons_of_neg (by simpa using hc)
  match rs with
  | [] => rfl
  | [r] => exact hrecord r _
  | r :: next :: rs =>
    rw [writtenChars, List.append_assoc]
    · exact hrecord r _
    · simp

/-! ### Tables -/

/-- The error for rows that are too wide names the first of them, with its line. -/
theorem exists_widthError {width : Nat} {rows : List (List String)}
    (h : ¬ ∀ row ∈ rows, row.length ≤ width) (line : Nat) :
    ∃ before row after, rows = before ++ row :: after ∧ (∀ r ∈ before, r.length ≤ width) ∧
      width < row.length ∧
      widthError width line rows = .tooManyFields width (line + before.length) row.length := by
  induction rows generalizing line with
  | nil => exact absurd (by simp) h
  | cons row rows ih =>
    rw [widthError]
    split_ifs with hwide
    · exact ⟨[], row, rows, rfl, by simp, hwide, rfl⟩
    · have hrow : row.length ≤ width := Nat.le_of_not_lt hwide
      rw [List.forall_mem_cons, not_and] at h
      obtain ⟨before, wide, after, rfl, hbefore, hwide, herror⟩ := ih (h hrow) (line + 1)
      refine ⟨row :: before, wide, after, rfl, List.forall_mem_cons.mpr ⟨hrow, hbefore⟩, hwide, ?_⟩
      rw [herror, List.length_cons, Nat.add_assoc, Nat.add_comm 1]

/-- The records after the first one are filled up to its width. -/
theorem ofRecords_of_le {headers : List String} {rows : List (List String)}
    (h : ∀ row ∈ rows, row.length ≤ headers.length) :
    ∃ table, Table.ofRecords (headers :: rows) = .ok table ∧ table.headers = headers ∧
      table.rows = rows.map fun row => row ++ List.replicate (headers.length - row.length) "" := by
  rw [Table.ofRecords, dif_pos h]
  exact ⟨_, rfl, rfl, rfl⟩

/-- A record that is wider than the first one is reported with its line. -/
theorem ofRecords_of_not_le {headers : List String} {rows : List (List String)}
    (h : ¬ ∀ row ∈ rows, row.length ≤ headers.length) :
    ∃ before row after, rows = before ++ row :: after ∧
      (∀ r ∈ before, r.length ≤ headers.length) ∧ headers.length < row.length ∧
      Table.ofRecords (headers :: rows) =
        .error (.tooManyFields headers.length (2 + before.length) row.length) := by
  obtain ⟨before, row, after, hrows, hbefore, hwide, herror⟩ := exists_widthError h 2
  refine ⟨before, row, after, hrows, hbefore, hwide, ?_⟩
  rw [Table.ofRecords, dif_neg h, herror]

/-! ### Records as texts and tables -/

/-- Any records can be written, for example with all fields in quotes. -/
theorem exists_written (sep : Char) {records : List (List String)} (h : ∀ r ∈ records, r ≠ []) :
    ∃ rs : List (WrittenRecord sep), rs.map (·.fields) = records := by
  let field (text : String) : WrittenField sep := ⟨text, true, nofun⟩
  induction records with
  | nil => exact ⟨[], rfl⟩
  | cons r records ih =>
    rw [List.forall_mem_cons] at h
    obtain ⟨text, texts, rfl⟩ := List.exists_cons_of_ne_nil h.1
    obtain ⟨rs, rfl⟩ := ih h.2
    refine ⟨⟨field text, texts.map field, false⟩ :: rs, ?_⟩
    simp [WrittenRecord.fields, field, Function.comp_def]

/-- For every separator that is no quote and no part of a line end, records are read back from their
text, however their fields are written and their lines end, and any records can be written. As long
as none of them is wider, the first record is the header of a table whose rows are the others,
filled up with empty cells. Otherwise there is no table. -/
theorem parseDelimited_written {sep : Char} (hsep : sep ≠ '"' ∧ sep ≠ '\r' ∧ sep ≠ '\n') :
    (∀ closed (rs : List (WrittenRecord sep)),
      parseDelimited? sep (String.ofList (writtenChars closed rs)) = some (rs.map (·.fields))) ∧
    (∀ records : List (List String), (∀ r ∈ records, r ≠ []) →
      ∃ rs : List (WrittenRecord sep), rs.map (·.fields) = records) ∧
    (∀ headers rows, (∀ row ∈ rows, row.length ≤ headers.length) →
      ∃ table, Table.ofRecords (headers :: rows) = .ok table ∧ table.headers = headers ∧
        table.rows = rows.map fun row => row ++ List.replicate (headers.length - row.length) "") ∧
    (∀ headers rows, (¬ ∀ row ∈ rows, row.length ≤ headers.length) →
      ∃ e, Table.ofRecords (headers :: rows) = .error e) ∧
    ∃ e, Table.ofRecords [] = .error e := by
  refine ⟨fun closed rs => ?_, fun records => exists_written sep, fun _ _ => ofRecords_of_le,
    fun headers rows h => ?_, ⟨_, rfl⟩⟩
  · rw [parseDelimited?, String.toList_ofList, dropWhile_writtenChars]
    exact readDelimited_written hsep closed rs []
  · obtain ⟨before, row, after, -, -, -, herror⟩ := ofRecords_of_not_le h
    exact ⟨_, herror⟩

/-- A quoted field with quotes, a line end and a separator, a plain one, an empty one, and a record
of one empty field. -/
def mixedRecords : List (WrittenRecord ';') :=
  [⟨⟨"a\"\n;", true, nofun⟩, [⟨"b c", false, fun _ => ⟨by decide, by simp, by simp [byteOrderMark]⟩⟩,
      ⟨"", true, nofun⟩], true⟩,
    ⟨⟨"", true, nofun⟩, [], false⟩]

/-- `mixedRecords` are read back, and the second record is filled up in the table. -/
theorem parseDelimited_written_mixed :
    String.ofList (writtenChars false mixedRecords) = "\"a\"\"\n;\";b c;\"\"\r\n\"\"" ∧
    parseDelimited? ';' (String.ofList (writtenChars false mixedRecords)) =
      some [["a\"\n;", "b c", ""], [""]] ∧
    ∃ table, Table.ofRecords [["a\"\n;", "b c", ""], [""]] = .ok table ∧
      table.rows = [["", "", ""]] := by
  have hsep : ';' ≠ '"' ∧ ';' ≠ '\r' ∧ ';' ≠ '\n' := by decide
  obtain ⟨hread, -, htable, -, -⟩ := parseDelimited_written hsep
  obtain ⟨table, htable, -, hrows⟩ := htable ["a\"\n;", "b c", ""] [[""]] (by decide)
  exact ⟨by decide, hread false mixedRecords, table, htable, hrows⟩

end NoteShell
