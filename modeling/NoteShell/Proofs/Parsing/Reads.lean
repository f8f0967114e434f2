import NoteShell.Proofs.Parsing.Rank

/-!
# Reading expressions at a rank

What it means that tokens are read as an expression at a rank, and how such statements move between
ranks: from a rank to the looser ones, and through parentheses from the loosest rank to the
tightest.

## Main definitions

* `Rank.Reads` : tokens are read as an expression at a rank.
* `Rank.Grows` : the same for the ranks that group to the left, before their loop ends.

## Main results

* `Rank.Reads.looser` : what is read at a rank is read at the next looser one.
* `Rank.Reads.enclosed` : an expression in parentheses is read as an atom.
-/

namespace NoteShell.Grammar.Rank

open NoteShell.Grammar.Parser

/-- At rank `k` the tokens `ts` are read as `e`, wherever tokens follow that do not extend it. -/
def Reads (r : Reading) (next : Level) (k : Rank) (e : Expr) (ts : List Token)
    (fits : Prop) : Prop :=
  ∀ rest, Stops k rest → Leads (k.parser r next) (pure e) fits (ts ++ rest) rest

/-- At a rank that groups to the left the tokens `ts` are read as `e`, and then the loop of the rank
goes on. It has used up at most one round for each token. -/
def Grows (r : Reading) (next : Level) (k : Rank) (e : Expr) (ts : List Token)
    (fits : Prop) : Prop :=
  ∀ rest, Stops k.tighter rest → ∃ fuel, r.bound ≤ fuel + ts.length ∧
    Leads (k.parser r next) (k.resume r next fuel e) fits (ts ++ rest) rest

variable {r : Reading} {next : Level} {k : Rank} {e : Expr} {ts : List Token} {fits : Prop}

/-! ### The loops of the left-nested ranks -/

theorem leftChain_of_none {operand : Parser Expr} {join? : TokenKind → Option (Expr → Expr → Expr)}
    {rest : List Token} (h : join? (headKind rest) = none) (fuel : Nat) :
    leftChain operand join? fuel e rest = .ok (e, rest) := by
  cases fuel with
  | zero => rfl
  | succ fuel =>
    rw [leftChain, bind_of_ok (p := peek) rfl, h]
    rfl

theorem trailers_of_stops {rest : List Token} (h : Stops postfixed rest) (fuel : Nat) :
    trailers r next fuel e rest = .ok (e, rest) := by
  cases fuel with
  | zero => rfl
  | succ fuel =>
    rw [trailers, bind_of_ok (p := peek) rfl]
    have hself := h.self
    cases hkind : headKind rest with
    | symbol s =>
      rw [hkind] at hself
      cases s <;> first | rfl | cases hself
    | _ => rfl

theorem joinOf?_eq_none_of_stops (hk : k.isChain = true) {rest : List Token} (h : Stops k rest) :
    k.joinOf? (headKind rest) = none := by
  have hself := h.self
  cases k <;> simp_all [isChain, extendedBy, joinOf?]

/-- The loop of a rank ends at tokens that do not extend an expression of the rank. -/
theorem resume_of_stops (hk : k.isLeftNested = true) {rest : List Token} (h : Stops k rest)
    (fuel : Nat) : k.resume r next fuel e rest = .ok (e, rest) := by
  by_cases hp : k = postfixed
  · subst hp
    exact trailers_of_stops h fuel
  · have hchain : k.isChain = true := by simpa [isLeftNested, hp] using hk
    rw [resume, if_neg hp]
    exact leftChain_of_none (joinOf?_eq_none_of_stops hchain h) fuel

/-- The parser of a left-nested rank reads with the next tighter rank and then enters its loop. -/
theorem parser_of_isLeftNested (hk : k.isLeftNested = true) :
    k.parser r next = k.tighter.parser r next >>= k.resume r next r.bound := by
  cases k <;> first | rfl | exact absurd hk (by decide)

theorem Grows.reads (hk : k.isLeftNested = true) (h : Grows r next k e ts fits) :
    Reads r next k e ts fits := by
  intro rest hrest
  obtain ⟨fuel, -, hleads⟩ := h rest hrest.tighter
  exact hleads.of_eq (resume_of_stops hk hrest fuel)

/-- The loop of a rank starts with what the next tighter rank has read. -/
theorem Reads.grows (hk : k.isLeftNested = true) (h : Reads r next k.tighter e ts fits) :
    Grows r next k e ts fits := by
  intro rest hrest
  refine ⟨r.bound, Nat.le_add_right _ _, ?_⟩
  rw [parser_of_isLeftNested hk]
  exact ((h rest hrest).bind (Leads.refl _ rest)).congr (and_iff_left trivial)

/-! ### From a rank to looser ones -/

theorem comparisonLinks_of_stops {operand : Parser Expr} {rest : List Token}
    (h : Stops comparison rest) (fuel : Nat) (acc : List (Comparison × Expr)) :
    comparisonLinks operand fuel acc rest = .ok (acc.reverse, rest) := by
  cases fuel with
  | zero => rfl
  | succ fuel =>
    have hself : comparisonOf? (headKind rest) (headKind (rest.drop 1)) = none := by
      simpa [extendedBy] using h.self
    have htake : takeComparison? rest = .ok (none, rest) := by
      simp only [takeComparison?, hself]
    rw [comparisonLinks, bind_of_ok htake]
    rfl

theorem takeWord?_of_isWord_false {word : String} {ts : List Token}
    (h : isWord word (headKind ts) = false) : takeWord? word ts = .ok (false, ts) := by
  simp [takeWord?, h]

theorem takeSymbol?_of_isSymbol_false {s : Symbol} {ts : List Token}
    (h : isSymbol s (headKind ts) = false) : takeSymbol? s ts = .ok (false, ts) := by
  simp [takeSymbol?, h]

/-- What is read at a rank is read at the next looser one, if no token extends it there. -/
theorem Reads.looser (hopens : Opens k.tighter ts) (h : Reads r next k.tighter e ts fits) :
    Reads r next k e ts fits := by
  by_cases hnested : k.isLeftNested = true
  · exact (h.grows hnested).reads hnested
  intro rest hrest
  have hread := h rest hrest.tighter
  have hhead := (hopens.append rest).head
  cases k with
  | disjunction | conjunction | sum | product | postfixed => exact absurd rfl hnested
  | atom => exact hread
  | conditional =>
    refine (hread.bind ?_).congr (and_iff_left trivial)
    exact .step_false (takeWord?_of_isWord_false hrest.self) (.refl _ rest)
  | negation =>
    refine .step_false (takeWord?_of_isWord_false ?_) hread
    exact isWord_not_of_begunBy_comparison hhead
  | comparison =>
    refine (hread.bind ?_).congr (and_iff_left trivial)
    exact .step (comparisonLinks_of_stops hrest _ []) (.refl _ rest)
  | signed =>
    refine .step (p := peek) rfl ?_
    rw [signOf?_of_begunBy_power hhead]
    exact hread
  | power =>
    refine (hread.bind ?_).congr (and_iff_left trivial)
    exact .step_false (takeSymbol?_of_isSymbol_false hrest.self) (.refl _ rest)

/-- What is read at a rank is read at every looser one, if no token extends it there. -/
theorem Reads.descend {j : Rank} (hopens : Opens j ts) (h : Reads r next j e ts fits)
    (hle : k.tightness ≤ j.tightness) : Reads r next k e ts fits := by
  obtain ⟨d, hd⟩ := Nat.exists_eq_add_of_le hle
  induction d generalizing k with
  | zero => exact tightness_injective hd ▸ h
  | succ d ih =>
    have hk : k ≠ atom := by
      rintro rfl
      have := tightness_le_atom j
      omega
    have htight := tightness_tighter hk
    exact Reads.looser (hopens.mono (by omega)) (ih (by omega) (by omega))

/-! ### Parentheses -/

theorem isSymbol_of_kind {s : Symbol} {t : Token} {ts : List Token} (h : t.kind = .symbol s) :
    isSymbol s (headKind (t :: ts)) = true := by
  simp [headKind, isSymbol, h]

theorem isSymbol_eq_false {s : Symbol} {t : TokenKind} (h : t ≠ .symbol s) :
    isSymbol s t = false := by
  cases t with
  | symbol s' =>
    have hne : s ≠ s' := fun heq => h (by rw [heq])
    simpa [isSymbol] using hne
  | _ => rfl

theorem expectSymbol_of_kind {s : Symbol} {t : Token} {ts : List Token} (h : t.kind = .symbol s) :
    expectSymbol s (t :: ts) = .ok ((), ts) := by
  rw [expectSymbol, if_pos (isSymbol_of_kind h)]
  rfl

theorem atSymbol_of_isSymbol {s : Symbol} {b : Bool} {ts : List Token}
    (h : isSymbol s (headKind ts) = b) : atSymbol s ts = .ok (b, ts) := by
  rw [atSymbol, h]

theorem atSymbol_of_ne {s s' : Symbol} {t : Token} {ts : List Token} (h : t.kind = .symbol s')
    (hne : s ≠ s') : atSymbol s (t :: ts) = .ok (false, t :: ts) := by
  simp [atSymbol, headKind, isSymbol, h, hne]

/-- A closing token extends no expression. -/
theorem stops_of_closes {t : Token} {rest : List Token} {s : Symbol} (ht : t.kind = .symbol s)
    (hs : s = .comma ∨ s = .colon ∨ s.closes = true) : Stops k (t :: rest) := by
  refine stops_cons fun second j _ => ?_
  rw [ht]
  rcases hs with rfl | rfl | hs
  · cases j <;> rfl
  · cases j <;> rfl
  · cases s <;> first | exact absurd hs (by decide) | (cases j <;> rfl)

/-- An expression in parentheses is an atom, and takes two levels more. -/
theorem Reads.enclosed {cost : Nat} {o c : Token}
    (h : ∀ n, Reads r (Level.ofBudget r n) conditional e ts (cost ≤ n))
    (ho : o.kind = .symbol .openParen) (hc : c.kind = .symbol .closeParen) (n : Nat) :
    Reads r (Level.ofBudget r n) atom e (o :: (ts ++ [c])) (cost + 2 ≤ n) := by
  intro rest _
  have hatom : Grammar.atom r (Level.ofBudget r n) (o :: (ts ++ [c]) ++ rest) =
      (Level.ofBudget r n).bracket parenthesized (ts ++ c :: rest) := by
    simp [Grammar.atom, headKind, ho]
  refine .eq_trans hatom (Leads.bracket (fun n => ?_) n)
  have hstops : Stops conditional (c :: rest) := stops_of_closes hc (.inr (.inr rfl))
  have hinner := Leads.expression (fun n => h n (c :: rest) hstops) n
  refine (hinner.bind ?_).congr (and_iff_left trivial)
  refine .step_false (atSymbol_of_ne hc (by decide)) ?_
  exact .step (expectSymbol_of_kind hc) (.refl _ rest)

end NoteShell.Grammar.Rank
