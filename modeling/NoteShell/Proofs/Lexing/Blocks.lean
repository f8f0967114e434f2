import Mathlib.Data.List.Basic
import NoteShell.Grammar.Layout
import NoteShell.Proofs.Lexing.Numbers

/-!
# Lines, blocks and brackets in token lists

The tokens of a source text are laid out in lines and blocks. Seen from its last token, a list of
tokens is laid out token by token: an end of a line stands after another token, the start of a block
after an end of a line, and the end of a block inside of one. The indentations that the scan keeps
are those of the blocks that are open, so that every token that it finds keeps this order. Lines and
blocks end outside of brackets only, except at the end of the text, where no bracket closes any
more.

## Main definitions

* `Laid` : tokens that are laid out in lines and blocks, some of them still open.
* `Scan.LineStep`, `Scan.StepsTo` : a step of the scan, by what stands at the position.
* `LayoutOutside` : lines and blocks end and begin outside of brackets.
* `Scan.InOrder` : what a scan has found is laid out as its indentations say.
* `BlockStructured` : the block structure of a token list.

## Main results

* `Scan.lineStep_of_takeInLine`, `Scan.stepsTo_of_step` : all that a step can do.
* `Scan.InOrder.step` : a step of the scan keeps the tokens in order.
* `blockStructured_of_tokenize` : the tokens of every source text have block structure.
-/

namespace NoteShell.Grammar

namespace TokenKind

/-- Whether a token starts a block. -/
def isIndent : TokenKind → Bool
  | indent => true
  | _ => false

/-- Whether a token ends a block. -/
def isDedent : TokenKind → Bool
  | dedent => true
  | _ => false

/-- Whether a token is an end of a line, or the start or the end of a block. -/
def isLayout : TokenKind → Bool
  | newline | indent | dedent => true
  | _ => false

/-- Whether a token stands for characters within a line. -/
def isWord : TokenKind → Bool
  | newline | indent | dedent | finish => false
  | _ => true

theorem eq_newline {k : TokenKind} (h : k.isNewline = true) : k = .newline := by
  cases k <;> first | rfl | cases h

/-- Whether a token opens a bracket. -/
def opens : TokenKind → Bool
  | symbol s => s.opens
  | _ => false

/-- Whether a token closes a bracket. -/
def closes : TokenKind → Bool
  | symbol s => s.closes
  | _ => false

/-- The number of open brackets after a token. A bracket that closes none is ignored. -/
def depthAfter (k : TokenKind) (depth : Nat) : Nat :=
  if k.opens then depth + 1 else if k.closes then depth - 1 else depth

theorem depthAfter_of_opens {k : TokenKind} (h : k.opens = true) (depth : Nat) :
    k.closes = false ∧ k.depthAfter depth = depth + 1 := by
  refine ⟨?_, if_pos h⟩
  cases k with
  | symbol s => cases s <;> first | rfl | cases h
  | _ => rfl

theorem depthAfter_of_closes {k : TokenKind} (h : k.closes = true) (depth : Nat) :
    k.opens = false ∧ k.depthAfter depth = depth - 1 := by
  have hopens : k.opens = false := by
    by_contra hopens
    rw [(depthAfter_of_opens (Bool.not_eq_false _ ▸ hopens) 0).1] at h
    cases h
  exact ⟨hopens, by rw [depthAfter, hopens, h]; rfl⟩

theorem depthAfter_of_neither {k : TokenKind} (hopens : k.opens = false)
    (hcloses : k.closes = false)
    (depth : Nat) : k.depthAfter depth = depth := by
  rw [depthAfter, hopens, hcloses]
  rfl

end TokenKind

/-! ### Tokens in lines and blocks -/

/-- The tokens `ts`, last one first, are laid out in lines and blocks, of which `level` blocks are
still open. -/
inductive Laid : (level : Nat) → (ts : List Token) → Prop
  | start : Laid 0 []
  | word {level : Nat} {ts : List Token} {t : Token} (h : Laid level ts) (ht : t.kind.isWord = true) :
    Laid level (t :: ts)
  | newline {level : Nat} {ts : List Token} {t : Token} (h : Laid level (t :: ts))
    (ht : t.kind.isNewline = false) (line : Nat) : Laid level (⟨.newline, line⟩ :: t :: ts)
  | indent {level : Nat} {ts : List Token} {t : Token} (h : Laid level (t :: ts))
    (ht : t.kind.isNewline = true) (line : Nat) : Laid (level + 1) (⟨.indent, line⟩ :: t :: ts)
  | dedent {level : Nat} {ts : List Token} (h : Laid (level + 1) ts) (line : Nat) :
    Laid level (⟨.dedent, line⟩ :: ts)

variable {t u : Token} {ts later earlier : List Token} {level : Nat}

namespace Laid

/-- Blocks are started once more for each that is still open. -/
theorem countP_isIndent (h : Laid level ts) :
    ts.countP (·.kind.isIndent) = ts.countP (·.kind.isDedent) + level := by
  induction h with
  | start => rfl
  | @word _ ts t _ ht ih =>
    have hnone : t.kind.isIndent = false ∧ t.kind.isDedent = false := by
      cases hk : t.kind <;> rw [hk] at ht <;> first | exact ⟨rfl, rfl⟩ | cases ht
    rw [List.countP_cons_of_neg (by simp [hnone.1]),
      List.countP_cons_of_neg (by simp [hnone.2]), ih]
  | @newline _ ts t _ _ line ih =>
    generalize t :: ts = us at ih ⊢
    rwa [List.countP_cons_of_neg Bool.false_ne_true, List.countP_cons_of_neg Bool.false_ne_true]
  | @indent _ ts t _ _ line ih =>
    generalize t :: ts = us at ih ⊢
    rw [List.countP_cons_of_pos rfl, List.countP_cons_of_neg Bool.false_ne_true, ih, Nat.add_assoc]
  | dedent _ line ih =>
    rw [List.countP_cons_of_neg Bool.false_ne_true, List.countP_cons_of_pos rfl, ih]
    omega

theorem tail (h : Laid level (t :: ts)) : ∃ level, Laid level ts := by
  cases h with
  | word h | newline h | indent h | dedent h => exact ⟨_, h⟩

/-- What stands before some tokens is laid out as well. -/
theorem of_append (h : Laid level (later ++ ts)) : ∃ level, Laid level ts := by
  induction later generalizing level with
  | nil => exact ⟨level, h⟩
  | cons t later ih =>
    obtain ⟨level, h⟩ := h.tail
    exact ih h

theorem not_finish (h : Laid level ts) : ∀ t ∈ ts, t.kind ≠ .finish := by
  induction h with
  | start => simp
  | @word _ ts t _ ht ih =>
    refine List.forall_mem_cons.mpr ⟨fun hk => ?_, ih⟩
    rw [hk] at ht
    cases ht
  | newline _ _ _ ih | indent _ _ _ ih | dedent _ _ ih => exact List.forall_mem_cons.mpr ⟨nofun, ih⟩

/-- The start of a block stands right after an end of a line. -/
theorem before_indent (h : Laid level (later ++ t :: ts)) (ht : t.kind = .indent) :
    ∃ u earlier, ts = u :: earlier ∧ u.kind = .newline := by
  obtain ⟨level, h⟩ := h.of_append
  cases h with
  | word _ hword => rw [ht] at hword; cases hword
  | newline => cases ht
  | dedent => cases ht
  | @indent _ ts u _ hu line => exact ⟨u, ts, rfl, TokenKind.eq_newline hu⟩

/-- An end of a line does not stand right after another one. -/
theorem before_newline (h : Laid level (later ++ t :: u :: ts)) (ht : t.kind = .newline) :
    u.kind ≠ .newline := by
  obtain ⟨level, h⟩ := h.of_append
  cases h with
  | word _ hword => rw [ht] at hword; cases hword
  | indent => cases ht
  | dedent => cases ht
  | newline _ hu =>
    intro hnewline
    rw [hnewline] at hu
    cases hu

/-- All blocks can be ended. -/
theorem close (h : Laid level ts) (line : Nat) :
    Laid 0 (List.replicate level (Token.mk .dedent line) ++ ts) := by
  induction level generalizing ts with
  | zero => exact h
  | succ level ih =>
    rw [List.replicate_succ', List.append_assoc]
    exact ih (h.dedent line)

end Laid

/-! ### Brackets -/

/-- The number of brackets that are open after some tokens, last one first. -/
def bracketDepth : List Token → Nat
  | [] => 0
  | t :: ts => t.kind.depthAfter (bracketDepth ts)

/-- No line or block begins or ends while brackets are open. The tokens stand last one first. -/
def LayoutOutside : List Token → Prop
  | [] => True
  | t :: ts => (t.kind.isLayout = true → bracketDepth ts = 0) ∧ LayoutOutside ts

/-- Brackets that are opened among some tokens are closed there. -/
structure Balanced (ts : List Token) : Prop where
  closes_eq : ts.countP (·.kind.closes) = ts.countP (·.kind.opens)
  closes_le : ∀ p, p <+: ts → p.countP (·.kind.closes) ≤ p.countP (·.kind.opens)

theorem LayoutOutside.of_append (h : LayoutOutside (later ++ ts)) : LayoutOutside ts := by
  induction later with
  | nil => exact h
  | cons t later ih => exact ih h.2

/-- As long as no bracket closes one that was open before, the brackets are counted exactly. -/
theorem bracketDepth_reverse_append (later earlier : List Token)
    (h : ∀ p, p <+: later →
      p.countP (·.kind.closes) ≤ p.countP (·.kind.opens) + bracketDepth earlier) :
    bracketDepth (later.reverse ++ earlier) + later.countP (·.kind.closes) =
      bracketDepth earlier + later.countP (·.kind.opens) := by
  induction later generalizing earlier with
  | nil => rfl
  | cons t later ih =>
    have hone := h [t] (List.prefix_append [t] later)
    have hlonger (p : List Token) (hp : p <+: later) :=
      h (t :: p) (List.cons_prefix_cons.mpr ⟨rfl, hp⟩)
    have hnext := ih (t :: earlier)
    rw [List.reverse_cons, List.append_assoc, List.singleton_append]
    simp only [List.countP_cons, List.countP_nil, bracketDepth] at hone hlonger hnext ⊢
    cases hopens : t.kind.opens with
    | true =>
      obtain ⟨hcloses, hdepth⟩ := TokenKind.depthAfter_of_opens hopens (bracketDepth earlier)
      simp only [hopens, hcloses, hdepth, if_true, Bool.false_eq_true, if_false]
        at hone hlonger hnext ⊢
      have := hnext fun p hp => by have := hlonger p hp; omega
      omega
    | false =>
      cases hcloses : t.kind.closes with
      | true =>
        have hdepth := (TokenKind.depthAfter_of_closes hcloses (bracketDepth earlier)).2
        simp only [hopens, hcloses, hdepth, if_true, Bool.false_eq_true, if_false]
          at hone hlonger hnext ⊢
        have := hnext fun p hp => by have := hlonger p hp; omega
        omega
      | false =>
        have hdepth := TokenKind.depthAfter_of_neither hopens hcloses (bracketDepth earlier)
        simp only [hopens, hcloses, hdepth, Bool.false_eq_true, if_false] at hone hlonger hnext ⊢
        exact hnext hlonger

/-! ### Words within a line -/

/-- A number is a word without brackets. -/
theorem isWord_scanNumber {cs rest : List Char} {k : TokenKind}
    (h : scanNumber cs = .ok (k, rest)) :
    k.isWord = true ∧ k.opens = false ∧ k.closes = false := by
  rcases kind_scanNumber h with ⟨n, rfl⟩ | ⟨x, rfl⟩ <;> exact ⟨rfl, rfl, rfl⟩

namespace Scan

variable {s t : Scan}

/-- The characters of a text stand behind its opening quotes. -/
theorem suffix_of_quotes (mark : Char) (tail : List Char) :
    (if [mark, mark].isPrefixOf tail = true then tail.drop 2 else tail) <:+ tail := by
  split_ifs
  · exact List.drop_suffix _ _
  · exact List.suffix_refl _

/-- A text is scanned from behind its opening quotes. -/
theorem takeText_eq_ok {raw isFormatted : Bool} {mark : Char} {tail : List Char}
    (h : s.takeText raw isFormatted (mark :: tail) = .ok t) :
    ∃ text line rest,
      scanText ⟨mark, [mark, mark].isPrefixOf tail, raw⟩ 0 s.line []
        (if [mark, mark].isPrefixOf tail = true then tail.drop 2 else tail) =
          .ok (text, line, rest) ∧
      t = { s with
        rest := rest
        line := line
        found := ⟨if isFormatted then .formatted text else .str text, s.line⟩ :: s.found } := by
  rw [takeText] at h
  dsimp only at h
  split at h
  · cases h
  · next text line rest hscan =>
    cases h
    exact ⟨text, line, rest, hscan, rfl⟩

theorem eq_cons_of_startsQuoted {cs : List Char} (h : startsQuoted cs = true) :
    ∃ mark tail, cs = mark :: tail ∧ (mark = '\'' ∨ mark = '"') := by
  cases cs with
  | nil => cases h
  | cons mark tail =>
    simp only [startsQuoted, Bool.or_eq_true, beq_iff_eq] at h
    exact ⟨mark, tail, rfl, h.symm⟩

/-- A name, or a text whose quote stands behind letters. -/
theorem takeName_cases (h : s.takeName = .ok t) :
    (∃ raw isFormatted mark tail,
      textMarks? (s.rest.takeWhile isNamePart) = some (raw, isFormatted) ∧
      s.rest.dropWhile isNamePart = mark :: tail ∧ (mark = '\'' ∨ mark = '"') ∧
      s.takeText raw isFormatted (mark :: tail) = .ok t) ∨
    t = { s with rest := s.rest.dropWhile isNamePart }.push
      (.name (String.ofList (s.rest.takeWhile isNamePart))) := by
  rw [takeName] at h
  split at h
  · next raw isFormatted hquoted hmarks =>
    obtain ⟨mark, tail, htail, hmark⟩ := eq_cons_of_startsQuoted hquoted
    exact .inl ⟨raw, isFormatted, mark, tail, hmarks, htail, hmark, htail ▸ h⟩
  · cases h
    exact .inr rfl

theorem takeNumber_eq_ok (h : s.takeNumber = .ok t) :
    ∃ k rest, scanNumber s.rest = .ok (k, rest) ∧ t = { s with rest := rest }.push k := by
  rw [takeNumber] at h
  split at h
  · cases h
  · next k rest hscan =>
    cases h
    exact ⟨k, rest, hscan, rfl⟩

theorem takeSymbol_eq_ok {c : Char} (h : s.takeSymbol c = .ok t) :
    ∃ symbol, Symbol.atStart? s.rest = some symbol ∧
      t = { s with
        rest := s.rest.drop symbol.chars.length
        depth := (TokenKind.symbol symbol).depthAfter s.depth }.push (.symbol symbol) := by
  rw [takeSymbol] at h
  split at h
  · cases h
  · next symbol hsymbol =>
    cases h
    exact ⟨symbol, hsymbol, rfl⟩

/-- From `s` to `t` a scan finds one word within a line. -/
def FindsWord (s t : Scan) : Prop :=
  ∃ u : Token, u.kind.isWord = true ∧ t.found = u :: s.found ∧
    t.depth = u.kind.depthAfter s.depth ∧ t.indents = s.indents ∧ t.atLineStart = s.atLineStart

theorem findsWord_takeText {raw isFormatted : Bool} {mark : Char} {tail : List Char}
    (h : s.takeText raw isFormatted (mark :: tail) = .ok t) : s.FindsWord t := by
  obtain ⟨text, line, rest, -, rfl⟩ := takeText_eq_ok h
  cases isFormatted <;> exact ⟨_, rfl, rfl, rfl, rfl, rfl⟩

theorem findsWord_takeName (h : s.takeName = .ok t) : s.FindsWord t := by
  rcases takeName_cases h with ⟨_, _, _, _, -, -, -, htext⟩ | rfl
  · exact findsWord_takeText htext
  · exact ⟨_, rfl, rfl, rfl, rfl, rfl⟩

theorem findsWord_takeNumber (h : s.takeNumber = .ok t) : s.FindsWord t := by
  obtain ⟨k, rest, hscan, rfl⟩ := takeNumber_eq_ok h
  obtain ⟨hword, hopens, hcloses⟩ := isWord_scanNumber hscan
  exact ⟨_, hword, rfl, (TokenKind.depthAfter_of_neither hopens hcloses _).symm, rfl, rfl⟩

theorem findsWord_takeSymbol {c : Char} (h : s.takeSymbol c = .ok t) : s.FindsWord t := by
  obtain ⟨symbol, -, rfl⟩ := takeSymbol_eq_ok h
  exact ⟨_, rfl, rfl, rfl, rfl, rfl⟩

theorem endLine_depth_indents (s : Scan) :
    s.endLine.depth = s.depth ∧ s.endLine.indents = s.indents := by
  rw [endLine]
  split
  · split_ifs <;> exact ⟨rfl, rfl⟩
  · exact ⟨rfl, rfl⟩

/-- What a part of a step has found is what the step finds. -/
theorem eq_ok_of_map_some {x : Except SourceError Scan} (h : x.map some = .ok (some t)) :
    x = .ok t := by
  cases x <;> cases h
  rfl

/-- A step within a line, by what stands at the position. -/
inductive LineStep (s : Scan) : Scan → Prop
  | blank {c : Char} {rest : List Char} (hs : s.rest = c :: rest) (hc : c ∈ [' ', '\t', '\x0c', '\r']) :
    LineStep s { s with rest := rest }
  | comment {rest : List Char} (hs : s.rest = '#' :: rest) : LineStep s { s with rest := dropComment rest }
  | lineEnd {rest : List Char} (hs : s.rest = '\n' :: rest) (hdepth : s.depth = 0) :
    LineStep s { s.endLine with atLineStart := true, rest := rest, line := s.endLine.line + 1 }
  | innerLineEnd {rest : List Char} (hs : s.rest = '\n' :: rest) :
    LineStep s { s with rest := rest, line := s.line + 1 }
  | brokenLine {cs rest : List Char} (hcs : cs = ['\\', '\n'] ∨ cs = ['\\', '\r', '\n'])
    (hs : s.rest = cs ++ rest) : LineStep s { s with rest := rest, line := s.line + 1 }
  | text {t : Scan} {mark : Char} {tail : List Char} (hmark : mark = '\'' ∨ mark = '"')
    (hs : s.rest = mark :: tail) (h : s.takeText false false (mark :: tail) = .ok t) : LineStep s t
  | number {t : Scan} {c : Char} {rest : List Char} (hs : s.rest = c :: rest)
    (hc : c.isDigit = true ∨ c = '.') (h : s.takeNumber = .ok t) : LineStep s t
  | name {t : Scan} {c : Char} {rest : List Char} (hs : s.rest = c :: rest) (hc : isNameStart c = true)
    (h : s.takeName = .ok t) : LineStep s t
  | symbol {t : Scan} {c : Char} {rest : List Char} (hs : s.rest = c :: rest)
    (h : s.takeSymbol c = .ok t) : LineStep s t

/-- All that a step within a line can do. -/
theorem lineStep_of_takeInLine (h : s.takeInLine = .ok (some t)) : s.LineStep t := by
  rw [takeInLine] at h
  split at h
  · cases h
  · next c rest hs =>
    split_ifs at h with hblank hcomment hnewline hdepth hbroken hbroken' hquote hdigit hdot hname
    · cases h
      exact .blank hs (by simpa using hblank)
    · cases h
      exact .comment (hcomment ▸ hs)
    · cases h
      exact .lineEnd (hnewline ▸ hs) hdepth
    · cases h
      exact .innerLineEnd (hnewline ▸ hs)
    · cases h
      obtain ⟨rfl, hfront⟩ := hbroken
      obtain ⟨tail, rfl⟩ := List.isPrefixOf_iff_prefix.mp hfront
      exact .brokenLine (.inl rfl) hs
    · cases h
      obtain ⟨rfl, hfront⟩ := hbroken'
      obtain ⟨tail, rfl⟩ := List.isPrefixOf_iff_prefix.mp hfront
      exact .brokenLine (.inr rfl) hs
    · exact .text hquote.symm hs (hs ▸ eq_ok_of_map_some h)
    · exact .number hs (.inl hdigit) (eq_ok_of_map_some h)
    · exact .number hs (.inr hdot.1) (eq_ok_of_map_some h)
    · exact .name hs hname (eq_ok_of_map_some h)
    · exact .symbol hs (eq_ok_of_map_some h)

/-- What a scan does within a line: it goes on without a token, it finds a word, or it comes to the
end of a line outside of brackets. -/
theorem LineStep.found_cases (h : s.LineStep t) :
    (t.found = s.found ∧ t.depth = s.depth ∧ t.indents = s.indents ∧
      t.atLineStart = s.atLineStart) ∨
      s.FindsWord t ∨
      (s.depth = 0 ∧ t.depth = 0 ∧ t.found = s.endLine.found ∧ t.indents = s.indents ∧
        t.atLineStart = true) := by
  cases h with
  | blank | comment | innerLineEnd | brokenLine => exact .inl ⟨rfl, rfl, rfl, rfl⟩
  | lineEnd _ hdepth =>
    obtain ⟨hdepth', hindents⟩ := s.endLine_depth_indents
    exact .inr (.inr ⟨hdepth, hdepth'.trans hdepth, rfl, hindents, rfl⟩)
  | text _ _ h => exact .inr (.inl (findsWord_takeText h))
  | number _ _ h => exact .inr (.inl (findsWord_takeNumber h))
  | name _ _ h => exact .inr (.inl (findsWord_takeName h))
  | symbol _ h => exact .inr (.inl (findsWord_takeSymbol h))

/-- A step, by what stands at the position. At the start of a line that is outside of brackets,
blanks are measured first. -/
inductive StepsTo (s : Scan) : Scan → Prop
  | inLine {t : Scan} (hline : ¬ (s.atLineStart && s.depth == 0) = true) (h : s.LineStep t) : StepsTo s t
  | comment {column : Nat} {rest : List Char} (hs : measureIndent 0 s.rest = (column, '#' :: rest)) :
    StepsTo s { s with rest := dropComment rest }
  | carriageReturn {column : Nat} {rest : List Char} (hs : measureIndent 0 s.rest = (column, '\r' :: rest)) :
    StepsTo s { s with rest := rest }
  | blankLine {column : Nat} {rest : List Char} (hs : measureIndent 0 s.rest = (column, '\n' :: rest)) :
    StepsTo s { s with rest := rest, line := s.line + 1 }
  | lineStart {t u : Scan} {column : Nat} {c : Char} {rest : List Char} (hstart : s.atLineStart = true)
    (hs : measureIndent 0 s.rest = (column, c :: rest))
    (hu : ({ s with rest := c :: rest } : Scan).indentTo column = .ok u) (h : u.LineStep t) : StepsTo s t

/-- All that a step can do. -/
theorem stepsTo_of_step (h : s.step = .ok (some t)) : s.StepsTo t := by
  rw [step] at h
  split_ifs at h with hline
  · split at h
    next column rest hmeasure =>
    split at h
    · cases h
    · split_ifs at h with hcomment hreturn hnewline
      · cases h
        exact .comment (hcomment ▸ hmeasure)
      · cases h
        exact .carriageReturn (hreturn ▸ hmeasure)
      · cases h
        exact .blankLine (hnewline ▸ hmeasure)
      · dsimp only at h
        split at h
        · next u hu =>
          exact .lineStart (Bool.and_eq_true_iff.mp hline).1 hmeasure hu (lineStep_of_takeInLine h)
        · cases h
  · exact .inLine hline (lineStep_of_takeInLine h)

/-! ### The order of what is found -/

/-- What a scan has found is laid out as its indentations and its number of brackets say. At the
start of a line the last token is an end of a line. -/
structure InOrder (s : Scan) : Prop where
  laid : ∃ level, s.indents.length = level + 1 ∧ Laid level s.found
  depth_eq : s.depth = bracketDepth s.found
  outside : LayoutOutside s.found
  lineStart : s.atLineStart = true →
    s.depth = 0 ∧ ∀ t ∈ s.found.head?, t.kind.isNewline = true

/-- An end of a line is added after other tokens than an end of a line. -/
theorem found_endLine_cases (s : Scan) :
    (s.endLine.found = s.found ∧ ∀ t ∈ s.found.head?, t.kind.isNewline = true) ∨
      ∃ t ts, s.found = t :: ts ∧ t.kind.isNewline = false ∧
        s.endLine.found = ⟨.newline, s.line⟩ :: t :: ts := by
  rw [endLine]
  cases hfound : s.found with
  | nil => exact .inl ⟨hfound, by simp⟩
  | cons t ts =>
    dsimp only
    split_ifs with ht
    · exact .inl ⟨hfound, by simpa using ht⟩
    · exact .inr ⟨t, ts, rfl, Bool.not_eq_true _ ▸ ht, by rw [push, hfound]⟩

theorem laid_endLine {level : Nat} (h : Laid level s.found) : Laid level s.endLine.found := by
  rcases s.found_endLine_cases with ⟨hsame, -⟩ | ⟨t, ts, hfound, ht, hend⟩
  · rwa [hsame]
  · rw [hend]
    exact .newline (hfound ▸ h) ht _

theorem inOrder_start (source : List Char) : (start source).InOrder :=
  ⟨⟨0, rfl, .start⟩, rfl, trivial, fun _ => ⟨rfl, nofun⟩⟩

namespace InOrder

/-- Other characters and lines do not matter. -/
theorem congr (hs : s.InOrder) (hfound : t.found = s.found) (hdepth : t.depth = s.depth)
    (hindents : t.indents = s.indents) (hline : t.atLineStart = s.atLineStart) : t.InOrder := by
  obtain ⟨hlaid, hdepth', houtside, hstart⟩ := hs
  refine ⟨?_, ?_, ?_, ?_⟩
  · rwa [hindents, hfound]
  · rwa [hdepth, hfound]
  · rwa [hfound]
  · rwa [hline, hdepth, hfound]

/-- A word keeps the order, within a line. -/
theorem word (hs : s.InOrder) (hline : s.atLineStart = false) (h : s.FindsWord t) : t.InOrder := by
  obtain ⟨u, hword, hfound, hdepth, hindents, hline'⟩ := h
  obtain ⟨level, hlevel, hlaid⟩ := hs.laid
  have hlayout : u.kind.isLayout = false := by
    cases hk : u.kind <;> rw [hk] at hword <;> first | rfl | cases hword
  refine ⟨⟨level, hindents ▸ hlevel, hfound ▸ .word hlaid hword⟩, ?_, ?_, fun hstart => ?_⟩
  · rw [hdepth, hfound, bracketDepth, hs.depth_eq]
  · rw [hfound]
    exact ⟨fun h => (Bool.eq_false_iff.mp hlayout h).elim, hs.outside⟩
  · rw [hline', hline] at hstart
    cases hstart

/-- A step within a line keeps the order. -/
theorem lineStep (hs : s.InOrder) (hline : s.atLineStart = false) (h : s.LineStep t) :
    t.InOrder := by
  rcases h.found_cases with ⟨hfound, hdepth, hindents, hline'⟩ | hword |
    ⟨hopen, hdepth, hfound, hindents, -⟩
  · exact hs.congr hfound hdepth hindents hline'
  · exact hs.word hline hword
  · obtain ⟨level, hlevel, hlaid⟩ := hs.laid
    have hclosed : bracketDepth s.found = 0 := hs.depth_eq.symm.trans hopen
    refine ⟨⟨level, hindents ▸ hlevel, hfound ▸ laid_endLine hlaid⟩, ?_, ?_, fun _ => ⟨hdepth, ?_⟩⟩
    all_goals
      rw [hfound]
      rcases s.found_endLine_cases with ⟨hsame, hhead⟩ | ⟨u, us, hus, -, hend⟩
    · rw [hdepth, hsame, hclosed]
    · rw [hdepth, hend, ← hus, bracketDepth, hclosed]
      rfl
    · rw [hsame]
      exact hs.outside
    · rw [hend, ← hus]
      exact ⟨fun _ => hclosed, hs.outside⟩
    · rwa [hsame]
    · rw [hend]
      simp [TokenKind.isNewline]

end InOrder

/-- Ending blocks keeps the order, as long as an indentation is left. -/
theorem laid_closeBlocks {column line level : Nat} {indents : List Nat} {found : List Token}
    (hlevel : indents.length = level + 1) (hlaid : Laid level found)
    (hclosed : bracketDepth found = 0)
    (houtside : LayoutOutside found) (hleft : (closeBlocks column line indents found).1 ≠ []) :
    (∃ level, (closeBlocks column line indents found).1.length = level + 1 ∧
        Laid level (closeBlocks column line indents found).2) ∧
      bracketDepth (closeBlocks column line indents found).2 = 0 ∧
      LayoutOutside (closeBlocks column line indents found).2 := by
  induction indents generalizing level found with
  | nil => cases hlevel
  | cons column' outer ih =>
    rw [closeBlocks] at hleft ⊢
    split_ifs at hleft ⊢
    · cases outer with
      | nil => exact absurd rfl hleft
      | cons next outer =>
        obtain ⟨level, rfl⟩ : ∃ k, level = k + 1 := ⟨outer.length, Nat.succ.inj hlevel.symm⟩
        exact ih (Nat.succ.inj hlevel) (hlaid.dedent line)
          hclosed ⟨fun _ => hclosed, houtside⟩ hleft
    · exact ⟨⟨level, hlevel, hlaid⟩, hclosed, houtside⟩

namespace InOrder

/-- Opening or closing blocks at the start of a line keeps the order. -/
theorem indentTo {column : Nat} (hs : s.InOrder) (hstart : s.atLineStart = true)
    (h : s.indentTo column = .ok t) : t.InOrder ∧ t.atLineStart = false := by
  obtain ⟨level, hlevel, hlaid⟩ := hs.laid
  obtain ⟨hopen, hhead⟩ := hs.lineStart hstart
  have hclosed : bracketDepth s.found = 0 := hs.depth_eq.symm.trans hopen
  rw [Scan.indentTo] at h
  dsimp only at h
  split_ifs at h with hdeeper hfound hshallower hmatch
  · cases h
    refine ⟨⟨⟨level + 1, congrArg (· + 1) hlevel, ?_⟩, ?_, ?_, nofun⟩, rfl⟩
    · cases hfirst : s.found with
      | nil => exact absurd (by rw [hfirst]; rfl) hfound
      | cons u us =>
        rw [hfirst] at hlaid hhead
        exact .indent hlaid (hhead u rfl) _
    · exact hopen.trans hclosed.symm
    · exact ⟨fun _ => hclosed, hs.outside⟩
  · cases h
    have hleft : (closeBlocks column s.line s.indents s.found).1 ≠ [] := by
      intro hnil
      rw [hnil] at hmatch
      cases hmatch
    obtain ⟨hlaid', hclosed', houtside⟩ := laid_closeBlocks hlevel hlaid hclosed hs.outside hleft
    exact ⟨⟨hlaid', hopen.trans hclosed'.symm, houtside, nofun⟩, rfl⟩
  · cases h
    exact ⟨⟨⟨level, hlevel, hlaid⟩, hs.depth_eq, hs.outside, nofun⟩, rfl⟩

/-- A step of the scan keeps the order. -/
theorem step (hs : s.InOrder) (h : s.step = .ok (some t)) : t.InOrder := by
  cases stepsTo_of_step h with
  | comment | carriageReturn | blankLine => exact hs.congr rfl rfl rfl rfl
  | @lineStart _ u column c rest hstart _ hu h =>
    have hrest : { s with rest := c :: rest }.InOrder := hs.congr rfl rfl rfl rfl
    obtain ⟨hu', hline⟩ := hrest.indentTo hstart hu
    exact hu'.lineStep hline h
  | inLine hline h =>
    refine hs.lineStep ?_ h
    by_contra hstart
    have hstart : s.atLineStart = true := Bool.not_eq_false _ ▸ hstart
    exact hline (by rw [hstart, (hs.lineStart hstart).1]; rfl)

end InOrder

end Scan

/-! ### Block structure -/

/-- The block structure of a token list. -/
structure BlockStructured (tokens : List Token) : Prop where
  /-- No block ends before it starts. -/
  dedents_le : ∀ p, p <+: tokens → p.countP (·.kind.isDedent) ≤ p.countP (·.kind.isIndent)
  /-- All blocks end. -/
  dedents_eq : tokens.countP (·.kind.isDedent) = tokens.countP (·.kind.isIndent)
  newline_indent : ∀ before t after, tokens = before ++ t :: after → t.kind = .indent →
    ∃ earlier u, before = earlier ++ [u] ∧ u.kind = .newline
  newline_newline : ∀ before t u after, tokens = before ++ t :: u :: after →
    t.kind = .newline → u.kind ≠ .newline
  finish_last : ∃ others t, tokens = others ++ [t] ∧ t.kind = .finish ∧ ∀ u ∈ others, u.kind ≠ .finish
  /-- Between a bracket and the one that closes it no line ends, and no block starts or ends. -/
  layout_outside : ∀ before o inner c after, tokens = before ++ o :: (inner ++ c :: after) →
    o.kind.opens = true → c.kind.closes = true → Balanced inner →
    ∀ t ∈ inner, t.kind.isLayout = false

/-- Where no line or block begins or ends while brackets are open, there is no layout among the
tokens that follow an opening bracket and leave it open. -/
theorem LayoutOutside.not_mem {inner : List Token} {o : Token}
    (h : LayoutOutside (inner.reverse ++ o :: earlier)) (ho : o.kind.opens = true)
    (hinner : Balanced inner) : ∀ t ∈ inner, t.kind.isLayout = false := by
  intro t ht
  by_contra hlayout
  obtain ⟨p, q, rfl⟩ := List.append_of_mem ht
  have hsplit : (p ++ t :: q).reverse ++ o :: earlier =
      q.reverse ++ t :: (p.reverse ++ o :: earlier) := by simp
  rw [hsplit] at h
  have hclosed := h.of_append.1 (Bool.not_eq_false _ ▸ hlayout)
  have hdepth : bracketDepth (o :: earlier) = bracketDepth earlier + 1 :=
    (TokenKind.depthAfter_of_opens ho _).2
  have hfront (p' : List Token) (hp : p' <+: p) : p' <+: p ++ t :: q :=
    hp.trans (List.prefix_append _ _)
  have hcount := bracketDepth_reverse_append p (o :: earlier) fun p' hp =>
    Nat.le_add_right_of_le (hinner.closes_le p' (hfront p' hp))
  have hle := hinner.closes_le p (hfront p (List.prefix_refl p))
  omega

/-- A token that is not among the first ones comes after them. -/
theorem exists_append_of_not_mem (ht : t ∉ later) {front : List Token}
    (h : later ++ ts = front ++ t :: earlier) : ∃ front, ts = front ++ t :: earlier := by
  induction later generalizing front with
  | nil => exact ⟨front, h⟩
  | cons u later ih =>
    rw [List.mem_cons, not_or] at ht
    cases front with
    | nil => exact absurd (List.cons.inj h).1.symm ht.1
    | cons u' front => exact ih ht.2 (List.cons.inj h).2

/-- Among the first tokens, blocks do not end before they start. -/
theorem Laid.dedents_le {p : List Token} (h : Laid level ts) (hp : p <+: ts.reverse) :
    p.countP (·.kind.isDedent) ≤ p.countP (·.kind.isIndent) := by
  obtain ⟨later, hlater⟩ := List.reverse_suffix.mpr hp
  rw [List.reverse_reverse] at hlater
  subst hlater
  obtain ⟨level, hp⟩ := h.of_append
  have hcount := hp.countP_isIndent
  rw [List.countP_reverse, List.countP_reverse] at hcount
  omega

namespace Scan

variable {s : Scan}

theorem finish_reverse (s : Scan) :
    s.finish.reverse = ⟨.finish, s.endLine.line⟩ ::
      (List.replicate (s.endLine.indents.length - 1)
        ⟨.dedent, s.endLine.line⟩ ++ s.endLine.found) := by
  rw [finish, List.reverse_reverse]

/-- At the end of the text the last line and all blocks are ended. -/
theorem InOrder.laid_finish (hs : s.InOrder) :
    ∃ ts, s.finish.reverse = ⟨.finish, s.endLine.line⟩ :: ts ∧ Laid 0 ts := by
  obtain ⟨level, hlevel, hlaid⟩ := hs.laid
  refine ⟨_, s.finish_reverse, ?_⟩
  rw [s.endLine_depth_indents.2, hlevel]
  exact (laid_endLine hlaid).close _

/-- The tokens at the end of the text close no bracket. -/
theorem finish_reverse_eq_append (s : Scan) :
    ∃ last, s.finish.reverse = last ++ s.found ∧ ∀ t ∈ last, t.kind.closes = false := by
  have hdedents : ∀ t ∈ (⟨.finish, s.endLine.line⟩ : Token) ::
      List.replicate (s.endLine.indents.length - 1) ⟨.dedent, s.endLine.line⟩,
      t.kind.closes = false :=
    List.forall_mem_cons.mpr ⟨rfl, fun t ht => by rw [List.eq_of_mem_replicate ht]; rfl⟩
  rcases s.found_endLine_cases with ⟨hsame, -⟩ | ⟨t, ts, hfound, -, hend⟩
  · exact ⟨_, by rw [s.finish_reverse, hsame, List.cons_append], hdedents⟩
  · refine ⟨_ ++ [⟨.newline, s.line⟩], ?_, List.forall_mem_append.mpr ⟨hdedents, ?_⟩⟩
    · rw [s.finish_reverse, hend, hfound, List.append_assoc, List.singleton_append,
        List.cons_append]
    · exact List.forall_mem_singleton.mpr rfl

/-- A scan that has come to the end of the text ends the last line and all blocks. -/
theorem InOrder.blockStructured (hs : s.InOrder) : BlockStructured s.finish := by
  obtain ⟨ts, hreverse, hts⟩ := hs.laid_finish
  have hfinish : s.finish = ts.reverse ++ [⟨.finish, s.endLine.line⟩] :=
    List.reverse_eq_cons_iff.mp hreverse
  have hend : s.finish.countP (·.kind.isDedent) = s.finish.countP (·.kind.isIndent) := by
    rw [hfinish, List.countP_append, List.countP_append, List.countP_reverse, List.countP_reverse,
      hts.countP_isIndent]
    rfl
  -- Any other token of the text stands among the tokens that are laid out.
  have hlaid {t : Token} {before after : List Token} (ht : t.kind ≠ .finish)
      (h : s.finish = before ++ t :: after) : ∃ later, Laid 0 (later ++ t :: before.reverse) := by
    have hsplit : [⟨.finish, s.endLine.line⟩] ++ ts = after.reverse ++ t :: before.reverse := by
      rw [List.singleton_append, ← hreverse, h]
      simp
    obtain ⟨later, rfl⟩ :=
      exists_append_of_not_mem (fun hmem => ht (congrArg _ (List.mem_singleton.mp hmem))) hsplit
    exact ⟨later, hts⟩
  refine ⟨fun p hp => ?_, hend, fun before t after h ht => ?_, fun before t u after h ht hu => ?_,
    ⟨ts.reverse, _, hfinish, rfl, fun t ht => hts.not_finish t (List.mem_reverse.mp ht)⟩,
    fun before o inner c after h ho hc hinner => ?_⟩
  · rw [hfinish, List.prefix_concat_iff, ← hfinish] at hp
    rcases hp with rfl | hp
    · exact Nat.le_of_eq hend
    · exact hts.dedents_le hp
  · obtain ⟨later, hts⟩ := hlaid (ht ▸ nofun) h
    obtain ⟨u, earlier, hbefore, hu⟩ := hts.before_indent ht
    exact ⟨earlier.reverse, u, List.reverse_eq_cons_iff.mp hbefore, hu⟩
  · have h' : s.finish = (before ++ [t]) ++ u :: after := by rw [h, List.append_cons]
    obtain ⟨later, hts⟩ := hlaid (hu ▸ nofun) h'
    rw [List.reverse_append, List.reverse_singleton, List.singleton_append] at hts
    exact hts.before_newline hu ht
  · obtain ⟨last, hlast, hcloses⟩ := s.finish_reverse_eq_append
    have hsplit : last ++ s.found =
        after.reverse ++ c :: (inner.reverse ++ o :: before.reverse) := by
      rw [← hlast, h]
      simp
    have hnot : c ∉ last := fun hmem => Bool.false_ne_true ((hcloses c hmem).symm.trans hc)
    obtain ⟨front, hfound⟩ := exists_append_of_not_mem hnot hsplit
    have houtside : LayoutOutside (front ++ c :: (inner.reverse ++ o :: before.reverse)) :=
      hfound ▸ hs.outside
    exact houtside.of_append.2.not_mem ho hinner

end Scan

/-- However far a scan that is in order runs, its tokens have block structure. -/
theorem blockStructured_of_run {s : Scan} {steps : Nat} {tokens : List Token} (hs : s.InOrder)
    (h : s.run steps = .ok tokens) : BlockStructured tokens := by
  induction steps generalizing s with
  | zero =>
    cases h
    exact hs.blockStructured
  | succ steps ih =>
    rw [Scan.run] at h
    split at h
    · cases h
    · cases h
      exact hs.blockStructured
    · next hnext => exact ih (hs.step hnext) h

/-- The tokens of every source text have block structure. -/
theorem blockStructured_of_tokenize {source : String} {tokens : List Token}
    (h : tokenize source = .ok tokens) : BlockStructured tokens :=
  blockStructured_of_run (Scan.inOrder_start source.toList) h

/-- A block ends with the text, and a line that is broken inside of a bracket does not. -/
theorem blockStructured_of_tokenize_call :
    ∃ tokens, tokenize "if a:\n  f(\n 1)" = .ok tokens ∧
      tokens.map (·.kind.isLayout) =
        [false, false, false, true, true, false, false, false, false, true, true, false] ∧
      BlockStructured tokens := by
  have hlayout : (tokenize "if a:\n  f(\n 1)").toOption.map (·.map (·.kind.isLayout)) =
      some [false, false, false, true, true, false, false, false, false, true, true, false] := by
    decide +kernel
  cases htokens : tokenize "if a:\n  f(\n 1)" with
  | error e => rw [htokens] at hlayout; cases hlayout
  | ok tokens =>
    rw [htokens] at hlayout
    exact ⟨tokens, rfl, Option.some.inj hlayout, blockStructured_of_tokenize htokens⟩

end NoteShell.Grammar
