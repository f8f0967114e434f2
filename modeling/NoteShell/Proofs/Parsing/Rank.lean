import Mathlib.Tactic.Common
import NoteShell.Grammar.Expression

/-!
# Ranks of the expression grammar

A parser that meets the nesting limit fails, and it fails for no other reason on tokens that spell
an expression. `Leads p q fits ts rest` says both at once: if the levels suffice, which `fits` says,
then `p` on `ts` goes on as `q` on `rest`, and otherwise it fails because the nesting is too deep.
Such statements are put together along the binds of a parser, so that every parser of the grammar
gets one statement about what it reads and one side condition about its levels.

The parsers of the grammar are ordered by how tightly what they read binds. A parser reads an
expression of its own rank, or hands on what the parser of the next tighter rank has read if no
token follows that extends it. The ranks that group to the left are read by a loop, so for them it
is said in which round of the loop an expression has been read.

## Main definitions

* `Leads` : how a parser goes on when its levels suffice, and how it fails otherwise.
* `Rank` : the ranks, from the loosest to the tightest, each with its parser.
* `Rank.Stops` : the tokens that follow do not extend an expression.
* `Rank.Reads` : tokens are read as an expression of a rank.
* `Rank.Grows` : the same for the ranks that group to the left, before the loop ends.

## Main results

* `Leads.bind` : a parser followed by another one.
* `Leads.expression`, `Leads.negation`, `Leads.signed`, `Leads.bracket` : entering a level.
* `Rank.Reads.looser` : what is read at a rank is read at the next looser one.
* `Rank.Reads.enclosed` : an expression in parentheses is read at every rank.
-/

namespace NoteShell.Grammar

open NoteShell.Grammar.Parser

/-! ### Limited nesting levels -/

section Levels

variable {α β : Type}

namespace Parser

theorem bind_of_ok {p : Parser α} {f : α → Parser β} {ts rest : List Token} {a : α}
    (h : p ts = .ok (a, rest)) : (p >>= f) ts = f a rest := by
  change Except.bind (p ts) _ = _
  rw [h]
  rfl

theorem bind_of_error {p : Parser α} {f : α → Parser β} {ts : List Token} {e : SourceError}
    (h : p ts = .error e) : (p >>= f) ts = .error e := by
  change Except.bind (p ts) _ = _
  rw [h]
  rfl

end Parser

/-- On `ts` the parser `p` goes on as `q` on `rest`, if `fits` holds. If not, it fails because the
nesting is too deep. -/
structure Leads (p q : Parser α) (fits : Prop) (ts rest : List Token) : Prop where
  goesOn : fits → p ts = q rest
  tooDeep : ¬ fits → ∃ line, p ts = .error ⟨.tooDeep, line⟩

namespace Leads

variable {p q q' : Parser α} {f : α → Parser β} {s : Parser β} {a : α} {fits fits' : Prop}
  {ts mid rest : List Token}

/-- A parser leads to itself without any level. -/
theorem refl (p : Parser α) (ts : List Token) : Leads p p True ts ts :=
  ⟨fun _ => rfl, fun h => absurd trivial h⟩

theorem congr (h : Leads p q fits ts rest) (hfits : fits ↔ fits') : Leads p q fits' ts rest :=
  ⟨fun hf => h.goesOn (hfits.mpr hf), fun hf => h.tooDeep fun hf' => hf (hfits.mp hf')⟩

theorem trans (h : Leads p q fits ts mid) (h' : Leads q q' fits' mid rest) :
    Leads p q' (fits ∧ fits') ts rest where
  goesOn hf := (h.goesOn hf.1).trans (h'.goesOn hf.2)
  tooDeep hf := by
    by_cases hfits : fits
    · obtain ⟨line, hline⟩ := h'.tooDeep fun hfits' => hf ⟨hfits, hfits'⟩
      exact ⟨line, (h.goesOn hfits).trans hline⟩
    · exact h.tooDeep hfits

/-- What a parser goes on as may be replaced by its result. -/
theorem of_eq (h : Leads p q fits ts rest) (hq : q rest = q' mid) : Leads p q' fits ts mid :=
  ⟨fun hf => (h.goesOn hf).trans hq, h.tooDeep⟩

/-- A parser may be replaced by one that does the same on the tokens. -/
theorem eq_trans (hp : p ts = q mid) (h : Leads q q' fits mid rest) : Leads p q' fits ts rest :=
  ⟨fun hf => hp.trans (h.goesOn hf), fun hf => hp ▸ h.tooDeep hf⟩

/-- A parser that gives `a`, followed by one that depends on `a`. -/
theorem bind (h : Leads p (pure a) fits ts mid) (h' : Leads (f a) s fits' mid rest) :
    Leads (p >>= f) s (fits ∧ fits') ts rest where
  goesOn hf := (bind_of_ok (h.goesOn hf.1)).trans (h'.goesOn hf.2)
  tooDeep hf := by
    by_cases hfits : fits
    · obtain ⟨line, hline⟩ := h'.tooDeep fun hfits' => hf ⟨hfits, hfits'⟩
      exact ⟨line, (bind_of_ok (h.goesOn hfits)).trans hline⟩
    · obtain ⟨line, hline⟩ := h.tooDeep hfits
      exact ⟨line, bind_of_error hline⟩

/-- A parser that gives `a`, with a function applied to its result. -/
theorem map (h : Leads p (pure a) fits ts rest) (g : α → β) :
    Leads (g <$> p) (pure (g a)) fits ts rest := by
  have hmap : g <$> p = p >>= fun a => pure (g a) := rfl
  rw [hmap]
  exact (h.bind (Leads.refl (pure (g a)) rest)).congr (and_iff_left trivial)

/-- A step that needs no level, followed by the rest of a parser. -/
theorem step (h : p ts = .ok (a, mid)) (h' : Leads (f a) s fits mid rest) :
    Leads (p >>= f) s fits ts rest :=
  eq_trans (bind_of_ok h) h'

/-- A test that comes out true. -/
theorem step_true {p : Parser Bool} {yes no : Parser β} (h : p ts = .ok (true, mid))
    (h' : Leads yes s fits mid rest) :
    Leads (p >>= fun b => if b = true then yes else no) s fits ts rest :=
  step h (by simpa only [if_true] using h')

/-- A test that comes out false. -/
theorem step_false {p : Parser Bool} {yes no : Parser β} (h : p ts = .ok (false, mid))
    (h' : Leads no s fits mid rest) :
    Leads (p >>= fun b => if b = true then yes else no) s fits ts rest :=
  step h (by simpa only [Bool.false_eq_true, if_false] using h')

/-! ### Entering a level -/

/-- A level is entered if one is left, and then one less is left inside. -/
theorem enter {p : Nat → Parser α} {inside : Nat → Parser α} {cost : Nat}
    (hzero : p 0 = Parser.fail .tooDeep) (hsucc : ∀ n, p (n + 1) = inside n)
    (h : ∀ n, Leads (inside n) q (cost ≤ n) ts rest) (n : Nat) :
    Leads (p n) q (cost + 1 ≤ n) ts rest := by
  cases n with
  | zero =>
    rw [hzero]
    exact ⟨fun hf => by omega, fun _ => ⟨headLine ts, rfl⟩⟩
  | succ n =>
    rw [hsucc]
    exact (h n).congr (by omega)

variable {r : Reading} {cost : Nat} {q : Parser Expr}

theorem expression (h : ∀ n, Leads (conditional r (Level.ofBudget r n)) q (cost ≤ n) ts rest)
    (n : Nat) : Leads (Level.ofBudget r n).expression q (cost + 1 ≤ n) ts rest :=
  enter (p := fun n => (Level.ofBudget r n).expression) rfl (fun _ => rfl) h n

theorem negation (h : ∀ n, Leads (Grammar.negation r (Level.ofBudget r n)) q (cost ≤ n) ts rest)
    (n : Nat) : Leads (Level.ofBudget r n).negation q (cost + 1 ≤ n) ts rest :=
  enter (p := fun n => (Level.ofBudget r n).negation) rfl (fun _ => rfl) h n

theorem signed (h : ∀ n, Leads (Grammar.signed r (Level.ofBudget r n)) q (cost ≤ n) ts rest)
    (n : Nat) : Leads (Level.ofBudget r n).signed q (cost + 1 ≤ n) ts rest :=
  enter (p := fun n => (Level.ofBudget r n).signed) rfl (fun _ => rfl) h n

theorem bracket {body : Parser Expr → Parser Expr}
    (h : ∀ n, Leads (body (Level.ofBudget r n).expression) q (cost ≤ n) ts rest) (n : Nat) :
    Leads ((Level.ofBudget r n).bracket body) q (cost + 1 ≤ n) ts rest :=
  enter (p := fun n => (Level.ofBudget r n).bracket body) rfl (fun _ => rfl) h n

end Leads

end Levels

/-! ### Ranks -/

/-- How tightly an expression binds, from the loosest to the tightest. -/
inductive Rank where
  | conditional
  | disjunction
  | conjunction
  | negation
  | comparison
  | sum
  | product
  | signed
  | power
  | postfixed
  | atom
deriving DecidableEq

namespace Rank

/-- The place of a rank in their order. -/
def tightness : Rank → Nat
  | conditional => 0
  | disjunction => 1
  | conjunction => 2
  | negation => 3
  | comparison => 4
  | sum => 5
  | product => 6
  | signed => 7
  | power => 8
  | postfixed => 9
  | atom => 10

/-- The next tighter rank, where there is one. -/
def tighter : Rank → Rank
  | conditional => disjunction
  | disjunction => conjunction
  | conjunction => negation
  | negation => comparison
  | comparison => sum
  | sum => product
  | product => signed
  | signed => power
  | power => postfixed
  | postfixed => atom
  | atom => atom

theorem tightness_injective : Function.Injective tightness := by
  intro j k h
  cases j <;> cases k <;> first | rfl | cases h

theorem tightness_tighter {k : Rank} (h : k ≠ atom) : k.tighter.tightness = k.tightness + 1 := by
  cases k <;> first | rfl | exact absurd rfl h

theorem tightness_le_tighter (k : Rank) : k.tightness ≤ k.tighter.tightness := by
  cases k <;> decide

theorem tightness_le_atom (k : Rank) : k.tightness ≤ atom.tightness := by
  cases k <;> decide

/-- The parser of a rank. -/
def parser (r : Reading) (next : Level) : Rank → Parser Expr
  | conditional => Grammar.conditional r next
  | disjunction => Grammar.disjunction r next
  | conjunction => Grammar.conjunction r next
  | negation => Grammar.negation r next
  | comparison => Grammar.comparison r next
  | sum => Grammar.sum r next
  | product => Grammar.product r next
  | signed => Grammar.signed r next
  | power => Grammar.power r next
  | postfixed => Grammar.postfixed r next
  | atom => Grammar.atom r next

/-- How a token joins two operands, at the ranks that are chains of operators. -/
def joinOf? : Rank → TokenKind → Option (Expr → Expr → Expr)
  | disjunction => disjunctionOf?
  | conjunction => conjunctionOf?
  | sum => sumOf?
  | product => productOf?
  | _ => fun _ => none

/-- Whether expressions of a rank are chains of operators. -/
def isChain : Rank → Bool
  | disjunction | conjunction | sum | product => true
  | _ => false

/-- Whether expressions of a rank group to the left. -/
def isLeftNested (k : Rank) : Bool := k.isChain || k == postfixed

/-- What the parser of a rank that groups to the left does after it has read `e`, with a number of
rounds left. -/
def resume (r : Reading) (next : Level) (k : Rank) (fuel : Nat) (e : Expr) : Parser Expr :=
  if k = postfixed then trailers r next fuel e
  else leftChain (k.tighter.parser r next) k.joinOf? fuel e

/-! ### Tokens after an expression -/

/-- Whether an expression of exactly this rank goes on with the given two tokens. -/
def extendedBy (first second : TokenKind) : Rank → Bool
  | conditional => isWord "if" first
  | disjunction => (disjunctionOf? first).isSome
  | conjunction => (conjunctionOf? first).isSome
  | negation => false
  | comparison => (comparisonOf? first second).isSome
  | sum => (sumOf? first).isSome
  | product => (productOf? first).isSome
  | signed => false
  | power => isSymbol .power first
  | postfixed =>
    isSymbol .openParen first || isSymbol .openBracket first || isSymbol .dot first
  | atom =>
    match first with
    | .str _ => true
    | _ => false

/-- The next tokens extend no expression of rank `k` or of a tighter rank. -/
def Stops (k : Rank) (ts : List Token) : Prop :=
  ∀ j : Rank, k.tightness ≤ j.tightness → extendedBy (headKind ts) (headKind (ts.drop 1)) j = false

theorem Stops.mono {j k : Rank} {ts : List Token} (h : Stops j ts)
    (hle : j.tightness ≤ k.tightness) : Stops k ts :=
  fun i hi => h i (Nat.le_trans hle hi)

theorem Stops.tighter {k : Rank} {ts : List Token} (h : Stops k ts) : Stops k.tighter ts :=
  h.mono k.tightness_le_tighter

theorem Stops.self {k : Rank} {ts : List Token} (h : Stops k ts) :
    extendedBy (headKind ts) (headKind (ts.drop 1)) k = false :=
  h k (Nat.le_refl _)

/-- Whether tokens stop an expression can be seen from the first token where no second one
matters. -/
theorem stops_cons {k : Rank} {t : Token} {ts : List Token}
    (h : ∀ second j, k.tightness ≤ j.tightness → extendedBy t.kind second j = false) :
    Stops k (t :: ts) :=
  fun j hj => h _ j hj

/-! ### Tokens before an expression -/

/-- Whether an atom can begin with a token. -/
def opensAtom : TokenKind → Bool
  | .int _ | .float _ | .str _ | .formatted _ => true
  | .name word => (wordExpr? word).isSome
  | .symbol s => s == .openParen || s == .openBracket || s == .openBrace
  | _ => false

/-- Whether an expression of a rank can begin with a token. -/
def begunBy (t : TokenKind) (k : Rank) : Bool :=
  opensAtom t || (decide (k.tightness ≤ signed.tightness) && (signOf? t).isSome)
    || (decide (k.tightness ≤ negation.tightness) && isWord "not" t)

/-- Some tokens begin like an expression of a rank. -/
def Opens (k : Rank) (ts : List Token) : Prop := ∃ t rest, ts = t :: rest ∧ begunBy t.kind k = true

theorem begunBy_mono {j k : Rank} {t : TokenKind} (h : begunBy t j = true)
    (hle : k.tightness ≤ j.tightness) : begunBy t k = true := by
  simp only [begunBy, Bool.or_eq_true, Bool.and_eq_true, decide_eq_true_eq] at h ⊢
  rcases h with (h | ⟨hj, h⟩) | ⟨hj, h⟩
  · exact Or.inl (Or.inl h)
  · exact Or.inl (Or.inr ⟨Nat.le_trans hle hj, h⟩)
  · exact Or.inr ⟨Nat.le_trans hle hj, h⟩

theorem Opens.mono {j k : Rank} {ts : List Token} (h : Opens j ts)
    (hle : k.tightness ≤ j.tightness) : Opens k ts := by
  obtain ⟨t, rest, rfl, ht⟩ := h
  exact ⟨t, rest, rfl, begunBy_mono ht hle⟩

theorem Opens.append {k : Rank} {ts : List Token} (h : Opens k ts) (rest : List Token) :
    Opens k (ts ++ rest) := by
  obtain ⟨t, tail, rfl, ht⟩ := h
  exact ⟨t, tail ++ rest, rfl, ht⟩

theorem Opens.head {k : Rank} {ts : List Token} (h : Opens k ts) :
    begunBy (headKind ts) k = true := by
  obtain ⟨t, rest, rfl, ht⟩ := h
  exact ht

theorem Opens.length_pos {k : Rank} {ts : List Token} (h : Opens k ts) : 0 < ts.length := by
  obtain ⟨t, rest, rfl, -⟩ := h
  exact Nat.succ_pos _

/-- No expression tighter than a sign begins with one. -/
theorem signOf?_of_begunBy_power {t : TokenKind} (h : begunBy t power = true) :
    signOf? t = none := by
  cases t with
  | symbol s => cases s <;> first | rfl | (revert h; decide)
  | _ => rfl

/-- No expression tighter than a negation begins with one. -/
theorem isWord_not_of_begunBy_comparison {t : TokenKind} (h : begunBy t comparison = true) :
    isWord "not" t = false := by
  cases t with
  | name word =>
    by_contra hne
    have hword : word = "not" := by simpa [isWord] using hne
    subst hword
    revert h
    decide
  | _ => rfl

end Rank

end NoteShell.Grammar
