import NoteShell.Grammar.Layout
import NoteShell.Proofs.Parsing.Readable

/-!
# Scanning the parts of a line

What the scan of a source text finds in a part of a line does not depend on what stands before it,
and on what follows only through the next character. Statements of this kind are put together from
left to right, so that a text that is written piece by piece can be scanned piece by piece.

## Main definitions

* `Scan.Finds` : a scan goes on within a line and finds tokens.
* `Lexes` : some characters are scanned as some tokens, before a given rest.
* `Delimits` : a text that no word or number runs into.

## Main results

* `Lexes.append` : parts that follow each other.
* `tokenize_of_lexes` : a text of one line has the tokens of the line.
-/

namespace NoteShell.Grammar

open NoteShell.Text

/-- From `s` the scan comes to `t` within a line and finds the tokens `ks` on the way. It makes no
more steps than there are characters. -/
structure Scan.Finds (s t : Scan) (ks : List TokenKind) : Prop where
  steps : ∃ steps, steps + t.rest.length ≤ s.rest.length ∧ ∀ n, s.run (n + steps) = t.run n
  inLine : t.atLineStart = false
  indents : t.indents = s.indents
  found : kinds t.found = ks.reverse ++ kinds s.found

/-- Within a line the characters `cs` are scanned as the tokens `ks`, if `rest` follows them. -/
def Lexes (cs : List Char) (ks : List TokenKind) (rest : List Char) : Prop :=
  ∀ s : Scan, s.atLineStart = false → s.rest = cs ++ rest → ∃ t : Scan, t.rest = rest ∧ s.Finds t ks

variable {s t u : Scan} {cs cs' rest : List Char} {ks ks' : List TokenKind} {k : TokenKind}

theorem Scan.Finds.refl (h : s.atLineStart = false) : s.Finds s [] :=
  ⟨⟨0, by omega, fun _ => rfl⟩, h, rfl, rfl⟩

theorem Scan.Finds.trans (h : s.Finds t ks) (h' : t.Finds u ks') : s.Finds u (ks ++ ks') := by
  obtain ⟨m, hm, hrun⟩ := h.steps
  obtain ⟨m', hm', hrun'⟩ := h'.steps
  refine ⟨⟨m' + m, by omega, fun n => ?_⟩, h'.inLine, h'.indents.trans h.indents, ?_⟩
  · rw [← Nat.add_assoc, hrun, hrun']
  · rw [h'.found, h.found, List.reverse_append, List.append_assoc]

theorem lexes_nil (rest : List Char) : Lexes [] [] rest :=
  fun s hline hs => ⟨s, hs, .refl hline⟩

/-- Parts that follow each other. -/
theorem Lexes.append (h : Lexes cs ks (cs' ++ rest)) (h' : Lexes cs' ks' rest) :
    Lexes (cs ++ cs') (ks ++ ks') rest := by
  intro s hline hs
  obtain ⟨t, ht, hst⟩ := h s hline (by rw [hs, List.append_assoc])
  obtain ⟨u, hu, htu⟩ := h' t hst.inLine ht
  exact ⟨u, hu, hst.trans htu⟩

/-- A part without any token of its own in front. -/
theorem Lexes.cons {c : Char} (h : Lexes [c] [k] (cs ++ rest)) (h' : Lexes cs ks rest) :
    Lexes (c :: cs) (k :: ks) rest :=
  h.append h'

/-- A part that is scanned in one step. -/
theorem lexes_of_step (hcs : cs ≠ [])
    (h : ∀ s : Scan, s.rest = cs ++ rest → ∃ t : Scan, s.takeInLine = .ok (some t) ∧
      t.rest = rest ∧ t.atLineStart = s.atLineStart ∧ t.indents = s.indents ∧
      kinds t.found = ks.reverse ++ kinds s.found) : Lexes cs ks rest := by
  intro s hline hs
  obtain ⟨t, hstep, ht, hline', hindents, hfound⟩ := h s hs
  refine ⟨t, ht, ⟨1, ?_, fun n => ?_⟩, hline'.trans hline, hindents, hfound⟩
  · have hpos := List.length_pos_iff.mpr hcs
    rw [hs, ht, List.length_append]
    omega
  · have hstep' : s.step = .ok (some t) := by rw [Scan.step, hline]; exact hstep
    rw [Scan.run, hstep']

/-! ### Blanks and symbols -/

theorem lexes_blank (rest : List Char) : Lexes [' '] [] rest := by
  refine lexes_of_step (by simp) fun s hs => ?_
  refine ⟨{ s with rest := rest }, ?_, rfl, rfl, rfl, rfl⟩
  simp [Scan.takeInLine, hs]

/-- The characters that are symbols of their own, whatever follows them. -/
def isLoneSymbol (c : Char) : Bool := ['[', ']', '{', '}', ',', ':'].contains c

theorem takeInLine_of_symbol {c : Char} (hc : isLoneSymbol c = true ∨ c ∈ ['-', '+'])
    (hs : s.rest = c :: rest) : s.takeInLine = (s.takeSymbol c).map some := by
  simp only [isLoneSymbol, List.contains_iff_mem, List.mem_cons, List.not_mem_nil, or_false] at hc
  rw [Scan.takeInLine, hs]
  rcases hc with (rfl | rfl | rfl | rfl | rfl | rfl) | (rfl | rfl) <;> rfl

theorem lexes_of_atStart {c : Char} {symbol : Symbol} (hc : isLoneSymbol c = true ∨ c ∈ ['-', '+'])
    (hsymbol : Symbol.atStart? (c :: rest) = some symbol) (hchars : symbol.chars = [c]) :
    Lexes [c] [.symbol symbol] rest := by
  refine lexes_of_step (by simp) fun s hs => ?_
  rw [takeInLine_of_symbol hc hs, Scan.takeSymbol, hs, List.singleton_append, hsymbol]
  refine ⟨_, rfl, ?_, rfl, rfl, rfl⟩
  simp [Scan.push, hchars]

/-- A bracket, a comma or a colon. -/
theorem lexes_symbol (symbol : Symbol) (rest : List Char) {c : Char} (hc : isLoneSymbol c = true)
    (hsymbol : Symbol.atStart? [c] = some symbol) : Lexes [c] [.symbol symbol] rest := by
  have hc' := hc
  simp only [isLoneSymbol, List.contains_iff_mem, List.mem_cons, List.not_mem_nil, or_false] at hc'
  rcases hc' with rfl | rfl | rfl | rfl | rfl | rfl <;> cases hsymbol <;>
    exact lexes_of_atStart (.inl hc) rfl rfl

/-- A sign before a digit. -/
theorem lexes_sign {c d : Char} {symbol : Symbol}
    (hc : c = '-' ∧ symbol = .minus ∨ c = '+' ∧ symbol = .plus) (hd : d.isDigit = true)
    (rest : List Char) : Lexes [c] [.symbol symbol] (d :: rest) := by
  have hequal : ('=' == d) = false := beq_false_of_ne (by rintro rfl; exact absurd hd (by decide))
  have harrow : ('>' == d) = false := beq_false_of_ne (by rintro rfl; exact absurd hd (by decide))
  rcases hc with ⟨rfl, rfl⟩ | ⟨rfl, rfl⟩
  · refine lexes_of_atStart (.inr (by decide)) ?_ rfl
    simp [Symbol.atStart?, Symbol.all, Symbol.chars, List.isPrefixOf, hequal, harrow]
  · refine lexes_of_atStart (.inr (by decide)) ?_ rfl
    simp [Symbol.atStart?, Symbol.all, Symbol.chars, List.isPrefixOf, hequal]

/-! ### The end of a word or number -/

/-- A text that no word or number runs into: it is empty, or begins with a comma, a colon, a plus or
a closing bracket. -/
def Delimits (rest : List Char) : Prop := ∀ c ∈ rest.head?, c ∈ [',', ':', ']', '}', '+']

theorem delimits_nil : Delimits [] := by simp [Delimits]

theorem delimits_cons {c : Char} (h : c ∈ [',', ':', ']', '}', '+']) (rest : List Char) :
    Delimits (c :: rest) := by simpa [Delimits] using h

/-- What holds of all characters that end a word holds of the character that does. -/
theorem Delimits.head {p : Char → Prop} (h : Delimits rest)
    (hp : p ',' ∧ p ':' ∧ p ']' ∧ p '}' ∧ p '+') : ∀ c ∈ rest.head?, p c := by
  intro c hc
  have hmem := h c hc
  simp only [List.mem_cons, List.not_mem_nil, or_false] at hmem
  obtain ⟨hcomma, hcolon, hbracket, hbrace, hplus⟩ := hp
  rcases hmem with rfl | rfl | rfl | rfl | rfl <;> assumption

/-- The characters of a class end where none of them follows. -/
theorem takeWhile_append_of_head {p : Char → Bool} (hcs : ∀ c ∈ cs, p c = true)
    (hrest : ∀ c ∈ rest.head?, p c = false) :
    (cs ++ rest).takeWhile p = cs ∧ (cs ++ rest).dropWhile p = rest := by
  rw [List.takeWhile_append_of_pos hcs, List.dropWhile_append_of_pos hcs]
  cases rest with
  | nil => simp
  | cons c rest =>
    have hc : p c = false := hrest c rfl
    simp [hc]

/-- A word that is no keyword for quotes is a name. -/
theorem lexes_word (word : List Char)
    (hword : word ∈ ["None".toList, "True".toList, "False".toList])
    (hrest : Delimits rest) : Lexes word [.name (String.ofList word)] rest := by
  have hparts : word.all Scan.isNamePart = true := by
    simp only [List.mem_cons, List.not_mem_nil, or_false] at hword
    rcases hword with rfl | rfl | rfl <;> decide +kernel
  obtain ⟨htake, hdrop⟩ := takeWhile_append_of_head (List.all_eq_true.mp hparts)
    (hrest.head (p := fun c => Scan.isNamePart c = false) ⟨rfl, rfl, rfl, rfl, rfl⟩)
  have hquoted : Scan.startsQuoted rest = false := by
    cases rest with
    | nil => rfl
    | cons c rest =>
      exact hrest.head (p := fun c => (c == '"' || c == '\'') = false)
        ⟨rfl, rfl, rfl, rfl, rfl⟩ c rfl
  refine lexes_of_step (by rintro rfl; simp at hword) fun s hs => ?_
  have hname : s.takeInLine = (s.takeName).map some := by
    simp only [List.mem_cons, List.not_mem_nil, or_false] at hword
    rw [Scan.takeInLine, hs]
    rcases hword with rfl | rfl | rfl <;> rfl
  rw [hname, Scan.takeName, hs, htake, hdrop, hquoted]
  exact ⟨_, rfl, rfl, rfl, rfl, rfl⟩

/-! ### Texts of one line -/

/-- The characters that are not skipped at the start of a line. -/
def startsLine (c : Char) : Bool := !([' ', '\t', '\x0c', '#', '\r', '\n'].contains c)

/-- At the start of a text without indentation the scan begins as within a line. -/
theorem step_start {c : Char} (hc : startsLine c = true) (cs : List Char) :
    (Scan.start (c :: cs)).step = { Scan.start (c :: cs) with atLineStart := false }.step := by
  simp only [startsLine, Bool.not_eq_true', List.contains_eq_mem, decide_eq_false_iff_not,
    List.mem_cons, List.not_mem_nil, or_false, not_or] at hc
  obtain ⟨hblank, htab, hfeed, hcomment, hreturn, hnewline⟩ := hc
  have hmeasure : Scan.measureIndent 0 (c :: cs) = (0, c :: cs) := by
    rw [Scan.measureIndent] <;> simp_all
  simp [Scan.step, Scan.start, hmeasure, hcomment, hreturn, hnewline, Scan.indentTo]

/-- The last tokens of a text whose last line is not ended and whose blocks are closed. -/
theorem kinds_finish (hindents : s.indents = [0]) (hfound : kinds s.found = k :: ks)
    (hk : k.isNewline = false) : kinds s.finish = (k :: ks).reverse ++ [.newline, .finish] := by
  obtain ⟨t, ts, hts, rfl, rfl⟩ := kinds_eq_cons hfound
  simp [Scan.finish, Scan.endLine, Scan.push, hts, hk, hindents, kinds]

/-- The tokens of a text of one line, which begins without indentation. -/
theorem tokenize_of_lexes {source : String} {c : Char} (hsource : source.toList = c :: cs)
    (hc : startsLine c = true) (h : Lexes source.toList (ks ++ [k]) []) (hk : k.isNewline = false) :
    ∃ ts, tokenize source = .ok ts ∧ kinds ts = ks ++ [k] ++ [.newline, .finish] := by
  rw [hsource] at h
  obtain ⟨t, ht, hfinds⟩ :=
    h { Scan.start (c :: cs) with atLineStart := false } rfl (List.append_nil _).symm
  obtain ⟨steps, hsteps, hrun⟩ := hfinds.steps
  refine ⟨t.finish, ?_, ?_⟩
  · have hle : steps ≤ (c :: cs).length := by
      rw [ht] at hsteps
      exact hsteps
    obtain ⟨extra, hextra⟩ := Nat.exists_eq_add_of_le' hle
    have hend : t.step = .ok none := by simp [Scan.step, hfinds.inLine, Scan.takeInLine, ht]
    calc tokenize source = (Scan.start (c :: cs)).run ((c :: cs).length + 1) := by
          rw [tokenize, hsource]
      _ = { Scan.start (c :: cs) with atLineStart := false }.run ((c :: cs).length + 1) := by
          rw [Scan.run, Scan.run, step_start hc]
          rfl
      _ = t.run (extra + 1) := by rw [hextra, Nat.add_right_comm, hrun]
      _ = .ok t.finish := by rw [Scan.run, hend]
  · have hfound : kinds t.found = k :: ks.reverse := by
      rw [hfinds.found]
      simp [Scan.start]
    rw [kinds_finish hfinds.indents hfound hk]
    simp

end NoteShell.Grammar
