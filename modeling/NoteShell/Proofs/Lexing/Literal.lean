import NoteShell.Decimal.Notation
import NoteShell.Proofs.Lexing.Lexeme
import NoteShell.Text.Quoted

/-!
# Literals that are read back

A number written in decimal digits, and a text written between quotes, are scanned as one token that
holds the number or the text again. What follows an opening quote is read one character or one
escape at a time.

## Main definitions

* `Quotes.Closes` : a character ends a text.

## Main results

* `scanText_plain`, `scanText_escape`, `scanText_closes` : a step of reading a text.
* `lexes_natText` : the digits of a number.
* `lexes_quoted` : a text between quotes.
-/

namespace NoteShell.Grammar

open NoteShell.Decimal NoteShell.Text

variable {rest : List Char}

/-! ### Numbers -/

theorem readDigits_append (base : Nat) (cs cs' : List Char) (value : Nat) :
    readDigits base value (cs ++ cs') =
      (readDigits base value cs).bind fun n => readDigits base n cs' := by
  induction cs generalizing value with
  | nil => rfl
  | cons c cs ih =>
    rw [List.cons_append, readDigits, readDigits]
    cases digitOf? base c with
    | none => rfl
    | some d => exact ih _

theorem digitOf?_digitChar {d : Nat} (hd : d < 10) : digitOf? 10 d.digitChar = some d := by
  revert d
  decide

/-- The digits of a number are read as the number. -/
theorem readDigits_toDigits (n : Nat) : readDigits 10 0 (Nat.toDigits 10 n) = some n := by
  induction n using Nat.strongRecOn with
  | ind n ih =>
    rw [Nat.toDigits_eq_if (by decide)]
    split_ifs with hn
    · simp [readDigits, digitOf?_digitChar hn]
    · have hlast : n % 10 < 10 := Nat.mod_lt n (by decide)
      rw [readDigits_append, ih (n / 10) (by omega)]
      simp [readDigits, digitOf?_digitChar hlast, Nat.div_add_mod]

theorem isDigit_of_mem_toDigits {n : Nat} {c : Char} (hc : c ∈ Nat.toDigits 10 n) :
    c.isDigit = true :=
  Nat.isDigit_of_mem_toDigits (by decide) (by decide) hc

/-- The digits of a number begin with a digit. -/
theorem toDigits_eq_cons (n : Nat) : ∃ d ds, Nat.toDigits 10 n = d :: ds ∧ d.isDigit = true := by
  obtain ⟨d, ds, hds⟩ := List.exists_cons_of_ne_nil (Nat.toDigits_ne_nil (n := n) (b := 10))
  exact ⟨d, ds, hds, isDigit_of_mem_toDigits (hds ▸ List.mem_cons_self)⟩

theorem intOfDigits?_toDigits (n : Nat) : intOfDigits? 10 (Nat.toDigits 10 n) = some (n : Int) := by
  obtain ⟨d, ds, hds, hd⟩ := toDigits_eq_cons n
  have hread : natOfDigits? 10 (d :: ds) = some n := by
    rw [natOfDigits?, ← hds, readDigits_toDigits]
    exact List.cons_ne_nil d ds
  have hminus : d ≠ '-' := by rintro rfl; exact absurd hd (by decide)
  have hplus : d ≠ '+' := by rintro rfl; exact absurd hd (by decide)
  rw [hds, intOfDigits?, hread]
  · rfl
  · rintro tail ⟨rfl, -⟩
    exact hminus rfl
  · rintro tail ⟨rfl, -⟩
    exact hplus rfl

/-- The digits of a number are scanned as an integer. -/
theorem scanDecimal_toDigits {n : Nat} {word : Int64} (hword : int64? n = some word)
    (hrest : Delimits rest) : scanDecimal (Nat.toDigits 10 n ++ rest) = .ok (.int word, rest) := by
  have hparts : ∀ c ∈ Nat.toDigits 10 n, isDecimalPart c = true := fun c hc => by
    simp [isDecimalPart, isDigit_of_mem_toDigits hc]
  obtain ⟨htake, hdrop⟩ := takeWhile_append_of_head hparts
    (hrest.head (p := fun c => isDecimalPart c = false) ⟨rfl, rfl, rfl, rfl, rfl⟩)
  have hplain : withoutUnderscores (Nat.toDigits 10 n) = Nat.toDigits 10 n := by
    refine List.filter_eq_self.mpr fun c hc => decide_eq_true ?_
    rintro rfl
    exact absurd (isDigit_of_mem_toDigits hc) (by decide)
  have hend : scanExponent rest = ([], rest) ∧ checkNumberEnd rest = .ok () := by
    cases rest with
    | nil => exact ⟨rfl, rfl⟩
    | cons c rest =>
      have hc := hrest c rfl
      simp only [List.mem_cons, List.not_mem_nil, or_false] at hc
      rcases hc with rfl | rfl | rfl | rfl | rfl <;> exact ⟨rfl, rfl⟩
  have hpoint : ∀ tail, rest ≠ '.' :: tail := by
    rintro tail rfl
    exact absurd (hrest '.' rfl) (by decide)
  have hread : readInt64? 10 (Nat.toDigits 10 n) = some word := by
    rw [readInt64?, intOfDigits?_toDigits]
    exact hword
  simp only [scanDecimal, htake, hdrop, hend.1, hend.2, hplain, hread]
  rfl

/-- The digits of a number that a word can hold. -/
theorem lexes_natText {n : Nat} {word : Int64} (hword : int64? n = some word)
    (hrest : Delimits rest) : Lexes (natText n).toList [.int word] rest := by
  obtain ⟨d, ds, hds, hd⟩ := toDigits_eq_cons n
  have hnumber : scanNumber (d :: (ds ++ rest)) = .ok (.int word, rest) := by
    have hscan := scanDecimal_toDigits hword hrest
    rw [hds, List.cons_append] at hscan
    rw [scanNumber.eq_def]
    split
    next mark tail heq =>
      have hradix : radixOf? mark = none := by
        have hmark : mark.isDigit = true ∨ mark ∈ [',', ':', ']', '}', '+'] := by
          cases ds with
          | nil => exact .inr (hrest mark (by simp_all))
          | cons e es =>
            obtain rfl : e = mark := by
              simp only [List.cons_append, List.cons.injEq] at heq
              exact heq.2.1
            exact .inl (isDigit_of_mem_toDigits (n := n) (hds ▸ by simp))
        rw [radixOf?]
        all_goals
          rintro rfl
          revert hmark
          decide
      rw [hradix]
      exact hscan
    next => exact hscan
  refine lexes_of_step (by simp [natText, hds]) fun s hs => ?_
  rw [natText, String.toList_ofList, hds, List.cons_append] at hs
  have hne : ∀ c : Char, c.isDigit = false → d ≠ c := by
    rintro c hc rfl
    exact absurd hd (by simp [hc])
  have htake : s.takeInLine = s.takeNumber.map some := by
    simp [Scan.takeInLine, hs, hd, hne ' ' rfl, hne '\t' rfl, hne '\x0c' rfl, hne '\r' rfl,
      hne '#' rfl, hne '\n' rfl, hne '\\' rfl, hne '"' rfl, hne '\'' rfl]
  rw [htake, Scan.takeNumber, hs, hnumber]
  exact ⟨_, rfl, rfl, rfl, rfl, rfl⟩

/-! ### Texts, one character at a time -/

section Steps

variable {q : Quotes} {line skip : Nat} {acc cs : List Char} {c next : Char}

/-- A character ends a text: it is the quote, followed by two more where the text has three. -/
def Quotes.Closes (q : Quotes) (c : Char) (cs : List Char) : Prop :=
  c = q.mark ∧ (q.triple = false ∨ [q.mark, q.mark].isPrefixOf cs)

theorem scanText_skip : scanText q (skip + 1) line acc (c :: cs) = scanText q skip line acc cs := by
  rw [scanText.eq_def]

theorem scanText_closes (h : q.Closes c cs) : scanText q 0 line acc (c :: cs) =
    .ok (String.ofList acc.reverse, line, if q.triple then cs.drop 2 else cs) := by
  rw [scanText.eq_def]
  exact if_pos h

theorem scanText_newline (h : ¬ q.Closes '\n' cs) (htriple : q.triple = true) :
    scanText q 0 line acc ('\n' :: cs) = scanText q 0 (line + 1) ('\n' :: acc) cs := by
  unfold Quotes.Closes at h
  rw [scanText.eq_def]
  dsimp only
  rw [if_neg h, if_pos rfl, if_pos htriple]

theorem scanText_plain (h : ¬ q.Closes c cs) (hnewline : c ≠ '\n') (hback : c ≠ '\\') :
    scanText q 0 line acc (c :: cs) = scanText q 0 line (c :: acc) cs := by
  unfold Quotes.Closes at h
  rw [scanText.eq_def]
  dsimp only
  rw [if_neg h, if_neg hnewline, if_neg hback]

/-- Where backslashes are kept, the next character is kept with them. -/
theorem scanText_raw (h : ¬ q.Closes '\\' (next :: cs)) (hraw : q.raw = true) :
    scanText q 0 line acc ('\\' :: next :: cs) =
      scanText q 1 (if next = '\n' then line + 1 else line) (next :: '\\' :: acc) (next :: cs) := by
  unfold Quotes.Closes at h
  rw [scanText.eq_def]
  dsimp only
  rw [if_neg h, if_neg (by decide), if_pos rfl, if_pos hraw]

/-- The end of a line is left out behind a backslash. -/
theorem scanText_joinedLine (h : ¬ q.Closes '\\' ('\n' :: cs)) (hraw : q.raw = false) :
    scanText q 0 line acc ('\\' :: '\n' :: cs) = scanText q 1 (line + 1) acc ('\n' :: cs) := by
  unfold Quotes.Closes at h
  rw [scanText.eq_def]
  dsimp only
  rw [if_neg h, if_neg (by decide), if_pos rfl, if_neg (by simp [hraw]), if_pos rfl, if_pos rfl]

theorem scanText_escape (h : ¬ q.Closes '\\' (next :: cs)) (hraw : q.raw = false)
    (hnext : next ≠ '\n') :
    scanText q 0 line acc ('\\' :: next :: cs) =
      scanText q (decodeEscape next cs).2 line ((decodeEscape next cs).1.reverseAux acc)
        (next :: cs) := by
  unfold Quotes.Closes at h
  rw [scanText.eq_def]
  dsimp only
  rw [if_neg h, if_neg (by decide), if_pos rfl, if_neg (by simp [hraw]), if_neg hnext, if_neg hnext]

/-- A text of one line does not go past its end. -/
theorem scanText_openLine (h : ¬ q.Closes '\n' cs) (htriple : q.triple = false) :
    scanText q 0 line acc ('\n' :: cs) = .error (.unterminatedText false line) := by
  unfold Quotes.Closes at h
  rw [scanText.eq_def]
  dsimp only
  rw [if_neg h, if_pos rfl, if_neg (by simp [htriple])]

theorem scanText_back (h : ¬ q.Closes '\\' []) :
    scanText q 0 line acc ['\\'] = .error (.unterminatedText q.triple line) := by
  unfold Quotes.Closes at h
  rw [scanText.eq_def]
  dsimp only
  rw [if_neg h, if_neg (by decide), if_pos rfl, scanText.eq_def]

/-- Characters that are skipped do not matter. -/
theorem scanText_drop (h : skip ≤ cs.length) :
    scanText q skip line acc cs = scanText q 0 line acc (cs.drop skip) := by
  induction skip generalizing cs with
  | zero => rfl
  | succ skip ih =>
    cases cs with
    | nil => cases h
    | cons c cs => rw [scanText_skip, ih (Nat.le_of_succ_le_succ h), List.drop_succ_cons]

end Steps

/-! ### Texts -/

/-- The two digits of a character's code are read as the character. -/
theorem escapedCodePoint?_hexDigits {c : Char} (hc : c.toNat < 128) (tail : List Char) :
    escapedCodePoint? 2 (hexDigitChar (c.toNat / 16) :: hexDigitChar (c.toNat % 16) :: tail) =
      some c := by
  have hread : ∀ n < 128, escapedCodePoint? 2 [hexDigitChar (n / 16), hexDigitChar (n % 16)] =
      some (Char.ofNat n) := by decide
  exact (hread _ hc).trans (by rw [Char.ofNat_toNat])

section Quotes

variable {mark : Char} (hmark : mark = '\'' ∨ mark = '"')

include hmark

/-- A character written between quotes is read as the character. -/
theorem scanText_quoteChar (c : Char) (line : Nat) (acc tail : List Char) :
    scanText ⟨mark, false, false⟩ 0 line acc (quoteChar mark c ++ tail) =
      scanText ⟨mark, false, false⟩ 0 line (c :: acc) tail := by
  have hback : mark ≠ '\\' := by rcases hmark with rfl | rfl <;> decide
  rw [quoteChar.eq_def]
  split
  case h_5 hslash hnewline _ _ =>
    split_ifs with hc hcontrol
    · subst hc
      rcases hmark with rfl | rfl <;> simp [scanText, decodeEscape]
    · have hread := escapedCodePoint?_hexDigits (c := c) (by omega) tail
      simp [scanText, hback.symm, decodeEscape, hread]
    · exact scanText_plain (fun hclose => hc hclose.1) hnewline hslash
  all_goals simp [scanText, hback.symm, decodeEscape]

/-- A text written between quotes is read up to the closing quote. -/
theorem scanText_quoteChars (cs : List Char) (line : Nat) (acc : List Char) :
    scanText ⟨mark, false, false⟩ 0 line acc (cs.flatMap (quoteChar mark) ++ mark :: rest) =
      .ok (String.ofList (acc.reverse ++ cs), line, rest) := by
  induction cs generalizing acc with
  | nil => simp [scanText]
  | cons c cs ih =>
    rw [List.flatMap_cons, List.append_assoc, scanText_quoteChar hmark, ih]
    simp

/-- No character is written with a quote in front. -/
theorem quoteChar_eq_cons (c : Char) : ∃ d ds, quoteChar mark c = d :: ds ∧ d ≠ mark := by
  have hback : '\\' ≠ mark := by rcases hmark with rfl | rfl <;> decide
  rw [quoteChar.eq_def]
  split
  case h_5 =>
    split_ifs with hc
    · exact ⟨_, _, rfl, hback⟩
    · exact ⟨_, _, rfl, hback⟩
    · exact ⟨_, _, rfl, hc⟩
  all_goals exact ⟨_, _, rfl, hback⟩

/-- A quote in front of a text is not followed by two more. -/
theorem isPrefixOf_quoteChars (cs : List Char) (hrest : ∀ c ∈ rest.head?, c ≠ mark) :
    [mark, mark].isPrefixOf (cs.flatMap (quoteChar mark) ++ mark :: rest) = false := by
  cases cs with
  | nil =>
    cases rest with
    | nil => simp [List.isPrefixOf]
    | cons c rest => simp [List.isPrefixOf, (hrest c rfl).symm]
  | cons c cs =>
    obtain ⟨d, ds, hds, hd⟩ := quoteChar_eq_cons hmark c
    simp [hds, List.isPrefixOf, hd.symm]

/-- A quote begins a text. -/
theorem takeInLine_of_quote {s : Scan} {cs : List Char} (hs : s.rest = mark :: cs) :
    s.takeInLine = (s.takeText false false s.rest).map some := by
  rw [Scan.takeInLine, hs]
  rcases hmark with rfl | rfl <;> rfl

end Quotes

theorem quoteFor_eq (cs : List Char) : quoteFor cs = '\'' ∨ quoteFor cs = '"' := by
  unfold quoteFor
  split_ifs
  · exact .inr rfl
  · exact .inl rfl

/-- A text between quotes. -/
theorem lexes_quoted (s : String) (hrest : Delimits rest) :
    Lexes (quoted s).toList [.str s] rest := by
  have hmark := quoteFor_eq s.toList
  have hhead : ∀ c ∈ rest.head?, c ≠ quoteFor s.toList := by
    rcases hmark with h | h <;> rw [h]
    · exact hrest.head (by decide)
    · exact hrest.head (by decide)
  refine lexes_of_step (by simp [quoted]) fun t ht => ?_
  have hrest' : t.rest = quoteFor s.toList ::
      (s.toList.flatMap (quoteChar (quoteFor s.toList)) ++ quoteFor s.toList :: rest) := by
    simpa [quoted] using ht
  rw [takeInLine_of_quote hmark hrest', hrest', Scan.takeText, isPrefixOf_quoteChars hmark _ hhead]
  simp only [Bool.false_eq_true, ↓reduceIte, scanText_quoteChars hmark]
  refine ⟨_, rfl, rfl, rfl, rfl, ?_⟩
  simp [kinds]

end NoteShell.Grammar
