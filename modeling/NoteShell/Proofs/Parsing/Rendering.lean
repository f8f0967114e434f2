import NoteShell.Proofs.Parsing.Rank

/-!
# Writing expressions as tokens

An expression is written with parentheses only where a part binds less tightly than its place asks
for. Two things are computed from a tree: its tokens, and how many nesting levels a parser has to
enter at once to read them. Formatted texts, whose body is source text of its own, are left out.

## Main definitions

* `Expr.Plain` : the trees that can be written.
* `Expr.rank`, `Expr.tokens`, `Expr.tokensAt` : how tightly a tree binds, and how it is written.
* `Expr.scopes` : the nesting levels that its tokens enter at once.

## Main results

* `Expr.Plain.begins` : how the tokens of a tree begin.
-/

namespace NoteShell.Grammar

/-! ### Operators -/

/-- The token of an operator with one operand. -/
def UnaryOp.token : UnaryOp → TokenKind
  | .negate => .symbol .minus
  | .plus => .symbol .plus
  | .not => .name "not"

/-- The rank of an operator with one operand, which is also that of its operand. -/
def UnaryOp.rank : UnaryOp → Rank
  | .negate => .signed
  | .plus => .signed
  | .not => .negation

/-- The token of an arithmetic operator. -/
def BinaryOp.symbol : BinaryOp → Symbol
  | .add => .plus
  | .sub => .minus
  | .mul => .star
  | .div => .slash
  | .floorDiv => .floor
  | .mod => .percent
  | .pow => .power

/-- The rank of an arithmetic operator. -/
def BinaryOp.rank : BinaryOp → Rank
  | .add | .sub => .sum
  | .mul | .div | .floorDiv | .mod => .product
  | .pow => .power

/-- The rank of the left operand: operators group to the left, but for powers. -/
def BinaryOp.leftRank : BinaryOp → Rank
  | .pow => .postfixed
  | op => op.rank

/-- The rank of the right operand. An exponent may be signed. -/
def BinaryOp.rightRank : BinaryOp → Rank
  | .pow => .signed
  | op => op.rank.tighter

theorem UnaryOp.begunBy_token (op : UnaryOp) : Rank.begunBy op.token op.rank = true := by
  cases op <;> decide

theorem BinaryOp.rank_le_leftRank (op : BinaryOp) :
    op.rank.tightness ≤ op.leftRank.tightness := by
  cases op <;> decide

/-- The levels that the right operand enters besides its own. -/
def BinaryOp.rightScopes : BinaryOp → Nat
  | .pow => 1
  | _ => 0

/-- The tokens of a comparison operator. -/
def Comparison.tokens : Comparison → List TokenKind
  | .equal => [.symbol .equal]
  | .notEqual => [.symbol .notEqual]
  | .less => [.symbol .less]
  | .lessEqual => [.symbol .lessEqual]
  | .greater => [.symbol .greater]
  | .greaterEqual => [.symbol .greaterEqual]
  | .isIn => [.name "in"]
  | .notIn => [.name "not", .name "in"]
  | .same => [.name "is"]
  | .notSame => [.name "is", .name "not"]

/-- The word of a logical operator. -/
def LogicOp.word : LogicOp → String
  | .and => "and"
  | .or => "or"

/-- The rank of a logical operator. -/
def LogicOp.rank : LogicOp → Rank
  | .and => .conjunction
  | .or => .disjunction

/-! ### Trees that can be written -/

namespace Expr

/-- The trees that can be written as tokens. -/
inductive Plain : Expr → Prop
  | none : Plain .none
  | bool (b : Bool) : Plain (.bool b)
  | int (i : Int64) (hi : 0 ≤ i) : Plain (.int i)
  | str (s : String) : Plain (.str s)
  | name (n : String) (hkeyword : isKeyword n = false) (hliteral : n ∉ ["true", "false", "null"]) :
      Plain (.name n)
  | list (items : List Expr) (hitems : ∀ e ∈ items, Plain e) : Plain (.list items)
  | dict (entries : List (Expr × Expr)) (hkeys : ∀ p ∈ entries, Plain p.1)
      (hvalues : ∀ p ∈ entries, Plain p.2) : Plain (.dict entries)
  | member (target : Expr) (n : String) (htarget : Plain target) (hn : isKeyword n = false) :
      Plain (.member target n)
  | index (target i : Expr) (htarget : Plain target) (hi : Plain i) : Plain (.index target i)
  | slice (target : Expr) (start stop : Option Expr) (htarget : Plain target)
      (hstart : ∀ e ∈ start, Plain e) (hstop : ∀ e ∈ stop, Plain e) :
      Plain (.slice target start stop)
  | call (callee : Expr) (args : List Expr) (keywords : List (String × Expr))
      (hcallee : Plain callee) (hargs : ∀ e ∈ args, Plain e) (hvalues : ∀ p ∈ keywords, Plain p.2)
      (hnames : ∀ p ∈ keywords, isKeyword p.1 = false) (hdistinct : (keywords.map (·.1)).Nodup) :
      Plain (.call callee args keywords)
  | unary (op : UnaryOp) (operand : Expr) (hoperand : Plain operand) : Plain (.unary op operand)
  | binary (op : BinaryOp) (left right : Expr) (hleft : Plain left) (hright : Plain right) :
      Plain (.binary op left right)
  | compare (first : Expr) (links : List (Comparison × Expr)) (hfirst : Plain first)
      (hlinks : ∀ p ∈ links, Plain p.2) (hne : links ≠ []) : Plain (.compare first links)
  | logic (op : LogicOp) (left right : Expr) (hleft : Plain left) (hright : Plain right) :
      Plain (.logic op left right)
  | conditional (test body otherwise : Expr) (htest : Plain test) (hbody : Plain body)
      (hotherwise : Plain otherwise) : Plain (.conditional test body otherwise)

/-- How tightly a tree binds. -/
def rank : Expr → Rank
  | .unary op _ => op.rank
  | .binary op _ _ => op.rank
  | .compare .. => .comparison
  | .logic op _ _ => op.rank
  | .conditional .. => .conditional
  | .member .. | .index .. | .slice .. | .call .. => .postfixed
  | _ => .atom

/-- Whether a tree needs parentheses where rank `k` is asked for. -/
def needsParens (k : Rank) (e : Expr) : Prop := e.rank.tightness < k.tightness

instance (k : Rank) (e : Expr) : Decidable (needsParens k e) :=
  inferInstanceAs (Decidable (_ < _))

/-! ### Tokens -/

/-- Tokens of a tree at a place where rank `k` is asked for. -/
def enclose (k : Rank) (e : Expr) (tokens : List TokenKind) : List TokenKind :=
  if needsParens k e then .symbol .openParen :: (tokens ++ [.symbol .closeParen]) else tokens

/-- Several parts with commas between them. -/
def separated : List (List TokenKind) → List TokenKind
  | [] => []
  | [part] => part
  | part :: next :: parts => part ++ .symbol .comma :: separated (next :: parts)

mutual

/-- The tokens of a tree. -/
def tokens : Expr → List TokenKind
  | .none => [.name "None"]
  | .bool b => [.name (if b then "True" else "False")]
  | .int i => [.int i]
  | .float x => [.float x]
  | .str s => [.str s]
  | .formatted _ => []
  | .list items => .symbol .openBracket :: (separated (itemTokens items) ++ [.symbol .closeBracket])
  | .dict entries =>
    .symbol .openBrace :: (separated (entryTokens entries) ++ [.symbol .closeBrace])
  | .name n => [.name n]
  | .member target n => enclose .postfixed target (tokens target) ++ [.symbol .dot, .name n]
  | .index target i =>
    enclose .postfixed target (tokens target) ++
      .symbol .openBracket :: (tokens i ++ [.symbol .closeBracket])
  | .slice target start stop =>
    enclose .postfixed target (tokens target) ++
      .symbol .openBracket :: (boundTokens start ++
        .symbol .colon :: (boundTokens stop ++ [.symbol .closeBracket]))
  | .call callee args keywords =>
    enclose .postfixed callee (tokens callee) ++
      .symbol .openParen ::
        (separated (itemTokens args ++ keywordTokens keywords) ++ [.symbol .closeParen])
  | .unary op operand => op.token :: enclose op.rank operand (tokens operand)
  | .binary op left right =>
    enclose op.leftRank left (tokens left) ++
      .symbol op.symbol :: enclose op.rightRank right (tokens right)
  | .compare first links => enclose .sum first (tokens first) ++ linkTokens links
  | .logic op left right =>
    enclose op.rank left (tokens left) ++
      .name op.word :: enclose op.rank.tighter right (tokens right)
  | .conditional test body otherwise =>
    enclose .disjunction body (tokens body) ++
      .name "if" :: (enclose .disjunction test (tokens test) ++ .name "else" :: tokens otherwise)

/-- The tokens of each of several items. -/
def itemTokens : List Expr → List (List TokenKind)
  | [] => []
  | e :: rest => tokens e :: itemTokens rest

/-- The tokens of each of several dict entries. -/
def entryTokens : List (Expr × Expr) → List (List TokenKind)
  | [] => []
  | (key, value) :: rest => (tokens key ++ .symbol .colon :: tokens value) :: entryTokens rest

/-- The tokens of each of several named arguments. -/
def keywordTokens : List (String × Expr) → List (List TokenKind)
  | [] => []
  | (n, value) :: rest => (.name n :: .symbol .assign :: tokens value) :: keywordTokens rest

/-- The tokens of a bound of a slice, which may be missing. -/
def boundTokens : Option Expr → List TokenKind
  | .none => []
  | .some e => tokens e

/-- The tokens of the links of a comparison chain. -/
def linkTokens : List (Comparison × Expr) → List TokenKind
  | [] => []
  | (op, e) :: rest => op.tokens ++ (enclose .sum e (tokens e) ++ linkTokens rest)

end

/-- The tokens of a tree at a place where rank `k` is asked for. -/
def tokensAt (k : Rank) (e : Expr) : List TokenKind := enclose k e e.tokens

/-! ### Levels -/

/-- The levels of a tree at a place where rank `k` is asked for, from those inside any
parentheses. -/
def encloseScopes (k : Rank) (e : Expr) (scopes : Nat) : Nat :=
  if needsParens k e then scopes + 2 else scopes

mutual

/-- The levels that the tokens of a tree enter at once, besides the one that the tree stands in. -/
def scopes : Expr → Nat
  | .none | .bool _ | .int _ | .float _ | .str _ | .formatted _ | .name _ => 0
  | .list items => itemScopes items + 1
  | .dict entries => entryScopes entries + 1
  | .member target _ => encloseScopes .postfixed target (scopes target)
  | .index target i => max (encloseScopes .postfixed target (scopes target)) (scopes i + 1)
  | .slice target start stop =>
    max (encloseScopes .postfixed target (scopes target)) (max (boundScopes start) (boundScopes stop))
  | .call callee args keywords =>
    max (encloseScopes .postfixed callee (scopes callee))
      (max (itemScopes args) (keywordScopes keywords))
  | .unary op operand => encloseScopes op.rank operand (scopes operand) + 1
  | .binary op left right =>
    max (encloseScopes op.leftRank left (scopes left))
      (encloseScopes op.rightRank right (scopes right) + op.rightScopes)
  | .compare first links => max (encloseScopes .sum first (scopes first)) (linkScopes links)
  | .logic op left right =>
    max (encloseScopes op.rank left (scopes left))
      (encloseScopes op.rank.tighter right (scopes right))
  | .conditional test body otherwise =>
    max (encloseScopes .disjunction body (scopes body))
      (max (encloseScopes .disjunction test (scopes test)) (scopes otherwise + 1))

/-- The levels of items, each of which is a whole expression. -/
def itemScopes : List Expr → Nat
  | [] => 0
  | e :: rest => max (scopes e + 1) (itemScopes rest)

/-- The levels of dict entries. -/
def entryScopes : List (Expr × Expr) → Nat
  | [] => 0
  | (key, value) :: rest => max (max (scopes key + 1) (scopes value + 1)) (entryScopes rest)

/-- The levels of named arguments. -/
def keywordScopes : List (String × Expr) → Nat
  | [] => 0
  | (_, value) :: rest => max (scopes value + 1) (keywordScopes rest)

/-- The levels of a bound of a slice. -/
def boundScopes : Option Expr → Nat
  | .none => 0
  | .some e => scopes e + 1

/-- The levels of the links of a comparison chain. -/
def linkScopes : List (Comparison × Expr) → Nat
  | [] => 0
  | (_, e) :: rest => max (encloseScopes .sum e (scopes e)) (linkScopes rest)

end

/-- The levels of a tree at a place where rank `k` is asked for. -/
def scopesAt (k : Rank) (e : Expr) : Nat := encloseScopes k e e.scopes

/-! ### The first tokens of a tree -/

/-- Some tokens begin like an expression of a rank, and no equal sign comes second. -/
def Begins (k : Rank) (ks : List TokenKind) : Prop :=
  ∃ t more, ks = t :: more ∧ Rank.begunBy t k = true ∧ more.head? ≠ some (.symbol .assign)

theorem Begins.mono {j k : Rank} {ks : List TokenKind} (h : Begins j ks)
    (hle : k.tightness ≤ j.tightness) : Begins k ks := by
  obtain ⟨t, more, rfl, ht, hmore⟩ := h
  exact ⟨t, more, rfl, Rank.begunBy_mono ht hle, hmore⟩

theorem Begins.append {k : Rank} {ks : List TokenKind} (h : Begins k ks) {ks' : List TokenKind}
    (h' : ks'.head? ≠ some (.symbol .assign)) : Begins k (ks ++ ks') := by
  obtain ⟨t, more, rfl, ht, hmore⟩ := h
  refine ⟨t, more ++ ks', rfl, ht, ?_⟩
  cases more with
  | nil => exact h'
  | cons u more => exact hmore

/-- A token that begins an expression is no equal sign. -/
theorem Begins.head_ne_assign {k : Rank} {ks : List TokenKind} (h : Begins k ks)
    (ks' : List TokenKind) : (ks ++ ks').head? ≠ some (.symbol .assign) := by
  obtain ⟨t, more, rfl, ht, -⟩ := h
  rintro heq
  obtain rfl : t = .symbol .assign := by simpa using heq
  cases k <;> revert ht <;> decide

/-- A token before an expression begins one if it is a bracket, a sign or a negation. -/
theorem Begins.cons {j k : Rank} {t : TokenKind} {ks : List TokenKind}
    (ht : Rank.begunBy t k = true) (h : Begins j ks) : Begins k (t :: ks) :=
  ⟨t, ks, rfl, ht, by simpa using h.head_ne_assign []⟩

theorem Begins.enclose {k : Rank} {e : Expr} (h : Begins e.rank e.tokens) :
    Begins k (enclose k e e.tokens) := by
  unfold Expr.enclose
  split_ifs with hp
  · exact ⟨_, _, rfl, by cases k <;> rfl, h.head_ne_assign _⟩
  · exact h.mono (Nat.le_of_not_lt hp)

theorem begins_separated {k : Rank} {close : TokenKind} {parts : List (List TokenKind)}
    (hclose : close ≠ .symbol .assign) (h : ∀ p ∈ parts, Begins k p) :
    (separated parts ++ [close]).head? ≠ some (.symbol .assign) := by
  match parts with
  | [] => simpa [separated] using hclose
  | [p] => exact (h p (by simp)).head_ne_assign _
  | p :: q :: parts =>
    rw [separated, List.append_assoc]
    exact (h p (by simp)).head_ne_assign _

theorem itemTokens_eq_map (items : List Expr) : itemTokens items = items.map tokens := by
  induction items with
  | nil => rfl
  | cons e rest ih => rw [itemTokens, ih, List.map_cons]

theorem entryTokens_eq_map (entries : List (Expr × Expr)) :
    entryTokens entries = entries.map fun p => p.1.tokens ++ .symbol .colon :: p.2.tokens := by
  induction entries with
  | nil => rfl
  | cons p rest ih => rw [entryTokens, ih, List.map_cons]

theorem keywordTokens_eq_map (keywords : List (String × Expr)) :
    keywordTokens keywords =
      keywords.map fun p => .name p.1 :: .symbol .assign :: p.2.tokens := by
  induction keywords with
  | nil => rfl
  | cons p rest ih => rw [keywordTokens, ih, List.map_cons]

/-- A word that is neither reserved nor a literal is a name. -/
theorem wordExpr?_of_isName {n : String} (hkeyword : isKeyword n = false)
    (hliteral : n ∉ ["true", "false", "null"]) : wordExpr? n = some (.name n) := by
  have hne (w : String) (hw : isKeyword w = true) : n ≠ w := by
    rintro rfl
    exact absurd hw (by rw [hkeyword]; decide)
  simp only [List.mem_cons, List.not_mem_nil, or_false, not_or] at hliteral
  obtain ⟨htrue, hfalse, hnull⟩ := hliteral
  have hTrue := hne "True" (by decide)
  have hFalse := hne "False" (by decide)
  have hNone := hne "None" (by decide)
  simp [wordExpr?, hkeyword, htrue, hfalse, hnull, hTrue, hFalse, hNone]

/-- The tokens of a tree begin like an expression of its rank. -/
theorem Plain.begins {e : Expr} (h : Plain e) : Begins e.rank e.tokens := by
  induction h with
  | none | int | str => exact ⟨_, [], rfl, rfl, by simp⟩
  | bool b => exact ⟨_, [], rfl, by cases b <;> decide, by simp⟩
  | name n hkeyword hliteral =>
    refine ⟨_, [], rfl, ?_, by simp⟩
    simp [Rank.begunBy, Rank.opensAtom, wordExpr?_of_isName hkeyword hliteral]
  | list items _ ih =>
    refine ⟨_, _, by rw [tokens], rfl, begins_separated (k := .conditional) (by simp) ?_⟩
    rw [itemTokens_eq_map]
    intro p hp
    obtain ⟨e, he, rfl⟩ := List.mem_map.mp hp
    exact (ih e he).mono (Nat.zero_le _)
  | dict entries _ _ ihkeys ihvalues =>
    refine ⟨_, _, by rw [tokens], rfl, begins_separated (k := .conditional) (by simp) ?_⟩
    rw [entryTokens_eq_map]
    intro p hp
    obtain ⟨entry, he, rfl⟩ := List.mem_map.mp hp
    exact ((ihkeys entry he).append (by simp)).mono (Nat.zero_le _)
  | member target n _ _ ih =>
    rw [tokens]
    exact ih.enclose.append (by simp)
  | index target i _ _ ih _ =>
    rw [tokens]
    exact ih.enclose.append (by simp)
  | slice target start stop _ _ _ ih _ _ =>
    rw [tokens]
    exact ih.enclose.append (by simp)
  | call callee args keywords _ _ _ _ _ ih _ _ =>
    rw [tokens]
    exact ih.enclose.append (by simp)
  | unary op operand _ ih =>
    rw [tokens]
    exact .cons (UnaryOp.begunBy_token op) (ih.enclose (k := op.rank))
  | binary op left right _ _ ih _ =>
    rw [tokens]
    refine (ih.enclose.mono (BinaryOp.rank_le_leftRank op)).append ?_
    cases op <;> simp [BinaryOp.symbol]
  | compare first links _ _ hne ih _ =>
    rw [tokens]
    refine (ih.enclose.mono (k := .comparison) (by decide)).append ?_
    obtain ⟨link, rest, rfl⟩ := List.exists_cons_of_ne_nil hne
    rw [linkTokens]
    cases link.1 <;> simp [Comparison.tokens]
  | logic op left right _ _ ih _ =>
    rw [tokens]
    exact ih.enclose.append (by simp)
  | conditional test body otherwise _ _ _ _ ih _ =>
    rw [tokens]
    exact (ih.enclose.mono (Nat.zero_le _)).append (by simp)

/-- The tokens of a tree begin like an expression of the rank that its place asks for. -/
theorem Plain.begins_tokensAt {e : Expr} (h : Plain e) (k : Rank) : Begins k (e.tokensAt k) :=
  h.begins.enclose

end Expr

end NoteShell.Grammar
