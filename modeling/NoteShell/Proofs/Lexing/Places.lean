import NoteShell.Proofs.Lexing.Quotation

/-!
# The places of words

A source text consists of words and of what is skipped between them: blanks, comments, ends of lines
and broken lines. How the words are spelled leaves each of them a single place in the text.

## Main definitions

* `Skips` : characters between words.
* `Spells` : the characters of a word.
* `Carries` : characters that consist of words and of what is skipped.
* `StandsAt` : the place of a word in a source text.

## Main results

* `Spells.eq` : a word has a single spelling at a place.
* `StandsAt.unique` : a word has a single place.
-/

namespace NoteShell.Grammar

open NoteShell.Decimal NoteShell.Text

/-! ### Words and what is skipped between them -/

/-- The characters `cs`, followed by `rest`, are skipped. A comment runs to the end of its line. -/
inductive Skips : (cs rest : List Char) → Prop
  | blank {c : Char} (hc : c ∈ [' ', '\t', '\x0c', '\r', '\n']) (rest : List Char) : Skips [c] rest
  | brokenLine (rest : List Char) : Skips ['\\', '\n'] rest
  | brokenLineReturn (rest : List Char) : Skips ['\\', '\r', '\n'] rest
  | comment {cs rest : List Char} (hcs : '\n' ∉ cs) (hrest : ∀ c ∈ rest.head?, c = '\n') :
    Skips ('#' :: cs) rest

/-- The marks that open a text. -/
def Quotes.opening (q : Quotes) : List Char := if q.triple then [q.mark, q.mark, q.mark] else [q.mark]

/-- The letters in front of a quote, if there are any. -/
def IsTextWord (word : List Char) (raw isFormatted : Bool) : Prop :=
  word = [] ∧ raw = false ∧ isFormatted = false ∨ Scan.textMarks? word = some (raw, isFormatted)

/-- The characters `cs`, followed by `rest`, are a word. A name is as long as it can be, and so is a
symbol; a number and a text end where they are read to. A text begins with its letters or its
quote. -/
inductive Spells : (cs rest : List Char) → TokenKind → Prop
  | number {c : Char} {cs rest : List Char} {k : TokenKind} (hc : c.isDigit = true ∨ c = '.')
    (h : scanNumber (c :: (cs ++ rest)) = .ok (k, rest)) : Spells (c :: cs) rest k
  | name {c : Char} {cs rest : List Char} (hc : Scan.isNameStart c = true)
    (hcs : ∀ d ∈ cs, Scan.isNamePart d = true) (hrest : ∀ d ∈ rest.head?, Scan.isNamePart d = false) :
    Spells (c :: cs) rest (.name (String.ofList (c :: cs)))
  | symbol {s : Symbol} {rest : List Char} (h : Symbol.atStart? (s.chars ++ rest) = some s) :
    Spells s.chars rest (.symbol s)
  | text {word body rest : List Char} {q : Quotes} {isFormatted : Bool} {text : String}
    (hword : IsTextWord word q.raw isFormatted) (hmark : q.mark = '\'' ∨ q.mark = '"')
    (hsingle : q.triple = false → ¬ [q.mark, q.mark] <+: body ++ rest)
    (h : ∀ line, scanText q 0 line [] (body ++ rest) = .ok (text, line + body.count '\n', rest)) :
    Spells (word ++ (q.opening ++ body)) rest (if isFormatted then .formatted text else .str text)

/-- The characters `cs`, followed by `rest`, consist of the words `ks` in their order and of what is
skipped between them. -/
inductive Carries : (cs : List Char) → (ks : List TokenKind) → (rest : List Char) → Prop
  | nil (rest : List Char) : Carries [] [] rest
  | skip {cs cs' rest : List Char} {ks : List TokenKind} (h : Skips cs (cs' ++ rest))
    (h' : Carries cs' ks rest) : Carries (cs ++ cs') ks rest
  | word {cs cs' rest : List Char} {k : TokenKind} {ks : List TokenKind} (h : Spells cs (cs' ++ rest) k)
    (h' : Carries cs' ks rest) : Carries (cs ++ cs') (k :: ks) rest

/-- In a source text the word `k` stands right behind the characters `before`, with the words
`earlier` before and the words `later` after it. -/
def StandsAt (source : List Char) (earlier : List TokenKind) (k : TokenKind) (later : List TokenKind)
    (before : List Char) : Prop :=
  ∃ lexeme after, source = before ++ (lexeme ++ after) ∧ Carries before earlier (lexeme ++ after) ∧
    Spells lexeme after k ∧ Carries after later []

variable {cs cs' rest rest' before before' : List Char} {k : TokenKind}
    {ks earlier later : List TokenKind}

/-! ### The place of a word -/

/-- A run of characters of a class that ends at another character has a single end. -/
theorem eq_of_append_eq {p : Char → Bool} (hcs : ∀ c ∈ cs, p c = true)
    (hrest : ∀ c ∈ rest.head?, p c = false) (hcs' : ∀ c ∈ cs', p c = true)
    (hrest' : ∀ c ∈ rest'.head?, p c = false)
    (h : cs ++ rest = cs' ++ rest') : cs = cs' := by
  rw [← (takeWhile_append_of_head hcs hrest).1, h, (takeWhile_append_of_head hcs' hrest').1]

/-- What is skipped at a place is determined by the characters there. -/
theorem Skips.eq (h : Skips cs rest) (h' : Skips cs' rest') (heq : cs ++ rest = cs' ++ rest') :
    cs = cs' := by
  -- A blank is neither a backslash nor the mark of a comment.
  have hblank {c d : Char} {cs cs' : List Char} (hc : c ∈ [' ', '\t', '\x0c', '\r', '\n'])
      (hd : d ∈ ['\\', '#']) : c :: cs ≠ d :: cs' := fun heq => by
    obtain ⟨rfl, -⟩ := List.cons.inj heq
    rcases List.mem_cons.mp hd with rfl | hd
    · exact absurd hc (by decide)
    · exact absurd (List.mem_singleton.mp hd ▸ hc) (by decide)
  cases h with
  | blank hc =>
    cases h' with
    | blank => rw [(List.cons.inj heq).1]
    | brokenLine | brokenLineReturn | comment => exact absurd heq (hblank hc (by decide))
  | brokenLine =>
    cases h' with
    | brokenLine => rfl
    | brokenLineReturn | comment => cases heq
    | blank hc => exact absurd heq.symm (hblank hc (by decide))
  | brokenLineReturn =>
    cases h' with
    | brokenLineReturn => rfl
    | brokenLine | comment => cases heq
    | blank hc => exact absurd heq.symm (hblank hc (by decide))
  | comment hcs hrest =>
    cases h' with
    | brokenLine | brokenLineReturn => cases heq
    | blank hc => exact absurd heq.symm (hblank hc (by decide))
    | comment hcs' hrest' =>
      have hends {rest : List Char} (hrest : ∀ c ∈ rest.head?, c = '\n') :
          ∀ c ∈ rest.head?, (c != '\n') = false := fun c hc => by rw [hrest c hc]; rfl
      have hline {cs : List Char} (hcs : '\n' ∉ cs) : ∀ c ∈ cs, (c != '\n') = true :=
        fun c hc => bne_iff_ne.mpr fun hnewline => hcs (hnewline ▸ hc)
      rw [eq_of_append_eq (hline hcs) (hends hrest) (hline hcs') (hends hrest')
        (List.cons.inj heq).2]

/-- The characters that what is skipped begins with. -/
def skipStarts : List Char := [' ', '\t', '\x0c', '\r', '\n', '\\', '#']

theorem Skips.head_mem (h : Skips cs rest) : ∃ c tail, cs = c :: tail ∧ c ∈ skipStarts := by
  cases h with
  | @blank c hc => exact ⟨c, [], rfl, List.mem_append_left ['\\', '#'] hc⟩
  | brokenLine | brokenLineReturn | comment => exact ⟨_, _, rfl, by decide⟩

/-- The letters that may stand in front of a quote. -/
def isTextLetter (c : Char) : Bool := ['f', 'r'].contains c.toLower

theorem IsTextWord.isTextLetter {word : List Char} {raw isFormatted : Bool}
    (h : IsTextWord word raw isFormatted) : ∀ c ∈ word, isTextLetter c = true := by
  rcases h with ⟨rfl, -⟩ | h
  · simp
  · have hletters : ∀ d ∈ word.map Char.toLower, d ∈ ['f', 'r'] := by
      unfold Scan.textMarks? at h
      split at h
      case h_5 => cases h
      all_goals
        next hword =>
        rw [hword]
        simp
    exact fun c hc => List.contains_iff_mem.mpr (hletters _ (List.mem_map_of_mem hc))

theorem Quotes.opening_eq_cons (q : Quotes) : ∃ tail, q.opening = q.mark :: tail := by
  unfold Quotes.opening
  split_ifs <;> exact ⟨_, rfl⟩

theorem not_isTextLetter_opening {q : Quotes} (hmark : q.mark = '\'' ∨ q.mark = '"')
    (cs : List Char) :
    ∀ c ∈ (q.opening ++ cs).head?, isTextLetter c = false := by
  obtain ⟨tail, htail⟩ := q.opening_eq_cons
  rw [htail]
  rintro c ⟨⟩
  rcases hmark with hmark | hmark <;> rw [hmark] <;> rfl

theorem Spells.head_notMem (h : Spells cs rest k) : ∃ c tail, cs = c :: tail ∧ c ∉ skipStarts := by
  cases h with
  | number hc =>
    refine ⟨_, _, rfl, fun hmem => ?_⟩
    have hnone : ∀ c ∈ skipStarts, c.isDigit = false ∧ c ≠ '.' :=
      List.all_iff_forall_prop.mp (by decide)
    obtain ⟨hdigit, hdot⟩ := hnone _ hmem
    exact hc.elim (fun hc => Bool.false_ne_true (hdigit.symm.trans hc)) hdot
  | name hc =>
    refine ⟨_, _, rfl, fun hmem => ?_⟩
    have hnone : ∀ c ∈ skipStarts, Scan.isNameStart c = false :=
      List.all_iff_forall_prop.mp (by decide +kernel)
    exact Bool.false_ne_true ((hnone _ hmem).symm.trans hc)
  | @symbol s => cases s <;> exact ⟨_, _, rfl, by decide⟩
  | @text word body rest q isFormatted text hword hmark =>
    have hnone : ∀ c ∈ skipStarts, isTextLetter c = false ∧ c ≠ '\'' ∧ c ≠ '"' :=
      List.all_iff_forall_prop.mp (by decide)
    cases word with
    | cons c word =>
      refine ⟨c, _, rfl, fun hmem => ?_⟩
      exact Bool.false_ne_true ((hnone c hmem).1.symm.trans
        (hword.isTextLetter c List.mem_cons_self))
    | nil =>
      obtain ⟨tail, htail⟩ := q.opening_eq_cons
      refine ⟨q.mark, tail ++ body, by rw [htail]; rfl, fun hmem => ?_⟩
      exact hmark.elim (hnone _ hmem).2.1 (hnone _ hmem).2.2

/-- No word begins where something is skipped. -/
theorem Skips.not_spells (h : Skips cs rest) (h' : Spells cs' rest' k) :
    cs ++ rest ≠ cs' ++ rest' := by
  obtain ⟨c, tail, rfl, hc⟩ := h.head_mem
  obtain ⟨d, tail', rfl, hd⟩ := h'.head_notMem
  intro heq
  obtain ⟨rfl, -⟩ := List.cons.inj heq
  exact hd hc

theorem IsTextWord.unique {word : List Char} {raw raw' isFormatted isFormatted' : Bool}
    (h : IsTextWord word raw isFormatted) (h' : IsTextWord word raw' isFormatted') :
    raw = raw' := by
  rcases h with ⟨rfl, rfl, -⟩ | h
  · rcases h' with ⟨-, rfl, -⟩ | h'
    · rfl
    · cases h'
  · rcases h' with ⟨rfl, -⟩ | h'
    · cases h
    · rw [h] at h'
      exact congrArg Prod.fst (Option.some.inj h')

/-- The quotes of a text are determined by the characters there. -/
theorem quotes_eq {q q' : Quotes} (hraw : q.raw = q'.raw)
    (hsingle : q.triple = false → ¬ [q.mark, q.mark] <+: cs)
    (hsingle' : q'.triple = false → ¬ [q'.mark, q'.mark] <+: cs')
    (heq : q.opening ++ cs = q'.opening ++ cs') : q = q' := by
  obtain ⟨mark, triple, raw⟩ := q
  obtain ⟨mark', triple', raw'⟩ := q'
  obtain rfl : raw = raw' := hraw
  cases triple <;> cases triple' <;> obtain ⟨rfl, htail⟩ := List.cons.inj heq
  · rfl
  · exact absurd ⟨cs', htail.symm⟩ (hsingle rfl)
  · exact absurd ⟨cs, htail⟩ (hsingle' rfl)
  · rfl

/-- A word that is known has a single spelling at a place. -/
theorem Spells.eq (h : Spells cs rest k) (h' : Spells cs' rest' k)
    (heq : cs ++ rest = cs' ++ rest') :
    cs = cs' := by
  generalize hk : k = k' at h'
  cases h with
  | number hc hread =>
    cases h' with
    | number hc' hread' =>
      have hsame := hread.symm.trans ((congrArg scanNumber heq).trans hread')
      simp only [Except.ok.injEq, Prod.mk.injEq] at hsame
      rw [hsame.2] at heq
      exact List.append_cancel_right heq
    | name | symbol | text =>
      rcases kind_scanNumber hread with ⟨n, rfl⟩ | ⟨x, rfl⟩ <;> first | cases hk | split_ifs at hk
  | name hc hcs hrest =>
    cases h' with
    | name hc' hcs' hrest' =>
      exact eq_of_append_eq (List.forall_mem_cons.mpr ⟨Scan.isNamePart_of_isNameStart hc, hcs⟩)
        hrest
        (List.forall_mem_cons.mpr ⟨Scan.isNamePart_of_isNameStart hc', hcs'⟩) hrest' heq
    | number hc' hread' =>
      rcases kind_scanNumber hread' with ⟨n, rfl⟩ | ⟨x, rfl⟩ <;> cases hk
    | symbol => cases hk
    | text => split_ifs at hk
  | symbol hstart =>
    cases h' with
    | symbol hstart' => cases hk; rfl
    | number hc' hread' =>
      rcases kind_scanNumber hread' with ⟨n, rfl⟩ | ⟨x, rfl⟩ <;> cases hk
    | name => cases hk
    | text => split_ifs at hk
  | @text word body rest q isFormatted text hword hmark hsingle hread =>
    cases h' with
    | number hc' hread' =>
      rcases kind_scanNumber hread' with ⟨n, rfl⟩ | ⟨x, rfl⟩ <;> split_ifs at hk
    | name | symbol => split_ifs at hk
    | @text word' body' rest' q' isFormatted' text' hword' hmark' hsingle' hread' =>
      rw [List.append_assoc, List.append_assoc, List.append_assoc, List.append_assoc] at heq
      obtain rfl : word = word' :=
        eq_of_append_eq hword.isTextLetter (not_isTextLetter_opening hmark _)
        hword'.isTextLetter (not_isTextLetter_opening hmark' _) heq
      have hafter := List.append_cancel_left heq
      obtain rfl : q = q' := quotes_eq (hword.unique hword') hsingle hsingle' hafter
      have hbody := List.append_cancel_left hafter
      have hsame := (hread 0).symm.trans ((congrArg (scanText q 0 0 []) hbody).trans (hread' 0))
      simp only [Except.ok.injEq, Prod.mk.injEq] at hsame
      rw [hsame.2.2] at hbody
      rw [List.append_cancel_right hbody]

theorem Carries.eq {lexeme lexeme' after after' : List Char}
    (h : Carries before ks (lexeme ++ after))
    (hspells : Spells lexeme after k) (h' : Carries before' ks (lexeme' ++ after'))
    (hspells' : Spells lexeme' after' k)
    (heq : before ++ (lexeme ++ after) = before' ++ (lexeme' ++ after')) : before = before' := by
  generalize hrest : lexeme ++ after = rest at h
  generalize hrest' : lexeme' ++ after' = rest' at h'
  rw [hrest, hrest'] at heq
  induction h generalizing before' with
  | nil =>
    cases h' with
    | nil => rfl
    | skip hskips =>
      rw [List.append_assoc] at heq
      exact absurd (heq.symm.trans hrest.symm) (hskips.not_spells hspells)
  | skip hskips hcarries ih =>
    rw [List.append_assoc] at heq
    cases h' with
    | nil => exact absurd (heq.trans hrest'.symm) (hskips.not_spells hspells')
    | skip hskips' hcarries' =>
      rw [List.append_assoc] at heq
      obtain rfl := hskips.eq hskips' heq
      rw [ih hrest (List.append_cancel_left heq) hcarries']
    | word hspells'' =>
      rw [List.append_assoc] at heq
      exact absurd heq (hskips.not_spells hspells'')
  | word hword hcarries ih =>
    rw [List.append_assoc] at heq
    cases h' with
    | skip hskips' =>
      rw [List.append_assoc] at heq
      exact absurd heq.symm (hskips'.not_spells hword)
    | word hword' hcarries' =>
      rw [List.append_assoc] at heq
      obtain rfl := hword.eq hword' heq
      rw [ih hrest (List.append_cancel_left heq) hcarries']

/-- A word has a single place. -/
theorem StandsAt.unique {source : List Char} (h : StandsAt source earlier k later before)
    (h' : StandsAt source earlier k later before') : before = before' := by
  obtain ⟨lexeme, after, hsource, hcarries, hspells, -⟩ := h
  obtain ⟨lexeme', after', hsource', hcarries', hspells', -⟩ := h'
  exact hcarries.eq hspells hcarries' hspells' (hsource.symm.trans hsource')

end NoteShell.Grammar
