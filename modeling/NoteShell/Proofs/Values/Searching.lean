import NoteShell.Proofs.Values.Data
import NoteShell.Proofs.Values.TextLimit

/-!
# Searching and splitting

Texts are split, searched, counted and replaced in at the same occurrences of a separator, from left
to right and without overlap. Each of these operations is therefore told by the pieces between the
occurrences: they are joined again to the text or to one with another separator, there is one more
of them than there are occurrences, and the first occurrence is behind the first one.

## Main definitions

* `SplitsInto`, `JoinsTo` : what splitting gives, and what joining makes of it.
* `SearchesBy` : the operations on a text, told by its pieces.

## Main results

* `splitsInto_splitAtMost` : the pieces that splitting gives.
* `search_and_split` : all operations agree on the pieces.
-/

namespace NoteShell.Script

open NoteShell.Grammar NoteShell.Text

variable {w : World} {s t u : String} {pieces : List String} {args : List Value}

/-- Splitting a text gives a new list of its pieces and changes no list or dict that there is. -/
def SplitsInto (w : World) (s : String) (args : List Value) (pieces : List String) : Prop :=
  ∃ r h, callText s .split args w = (.ok (.list r), ⟨h, w.host⟩) ∧ w.heap.Extends h ∧
    (h.items r).toList = pieces.map .str

/-- Joining pieces makes a text of them, wherever the list of them is, unless the text is too
large. -/
def JoinsTo (sep : String) (pieces : List String) (x : String) : Prop :=
  ∀ (w : World) (r : ListRef), (w.heap.items r).toList = pieces.map .str →
    callText sep .join [.list r] w = (checkedText 0 x, w)

/-- The operations on a text `s` with a separator `t` and a text `u` to replace it, told by the
pieces of `s` and the number of occurrences between them. -/
structure SearchesBy (w : World) (s t u : String) (pieces : List String) (hits : Nat) : Prop where
  /-- The pieces are those between the occurrences from left to right. -/
  cut : ∃ most, s.length ≤ most ∧ Cut t.toList most s.toList (pieces.map String.toList)
  split : SplitsInto w s [.str t] pieces
  join : JoinsTo t pieces s
  length : pieces.length = hits + 1
  /-- A limited number of splits gives fewer pieces of the same text. -/
  splitAtMost : ∀ m : Int64, ∃ parts, SplitsInto w s [.str t, .int m] parts ∧ JoinsTo t parts s ∧
    (0 ≤ m.toInt → parts.length = min m.toInt.toNat hits + 1) ∧ (m.toInt < 0 → parts = pieces)
  count : callText s .count [.str t] w = (.ok (.int (Int64.ofNat hits)), w)
  hits_le : hits ≤ s.length
  /-- What replacing makes of the text is what joining makes of the pieces. -/
  replace : ∃ x, JoinsTo u pieces x ∧
    callText s .replace [.str t, .str u] w = (checkedText (hits * t.utf8ByteSize) x, w)
  find : ∃ i, callText s .find [.str t] w = (.ok (.int i), w) ∧ (hits = 0 → i = -1) ∧
    (0 < hits → ∃ first others, pieces = first :: others ∧ i = Int64.ofNat first.length)
  isIn : compares .isIn (.str t) (.str s) w.heap = .ok (decide (0 < hits))
  pieces : ∀ p ∈ pieces, compares .isIn (.str t) (.str p) w.heap = .ok false

/-! ### Splitting -/

/-- The number of splits that the arguments ask for. -/
def cutsOf (s : String) (m : Int64) : Nat :=
  if m.toInt < 0 then s.utf8ByteSize else min m.toInt.toNat s.utf8ByteSize

theorem splitsInto_of_eq (hsplit : splitText s ⟨args, []⟩ = .ok pieces)
    (hargs : args.length ≤ 2) : SplitsInto w s args pieces := by
  have hop : callStrMethod s .split ⟨args, []⟩ w.heap =
      HeapM.perform (.newList (pieces.map Value.str).toArray) w.heap := by
    have harity : CallArgs.checkArity ⟨args, []⟩ ("str." ++ StrMethod.split.name) 0 2 = .ok () :=
      if_pos ⟨Nat.zero_le _, hargs⟩
    change (liftM (CallArgs.checkArity ⟨args, []⟩ ("str." ++ StrMethod.split.name) 0 2) >>= fun _ =>
      liftM (splitText s ⟨args, []⟩) >>= fun _ => _ : HeapOp) w.heap = _
    rw [HeapM.check_bind, harity]
    change (liftM (splitText s ⟨args, []⟩) >>= fun _ => _ : HeapOp) w.heap = _
    rw [HeapM.check_bind, hsplit]
  refine ⟨⟨w.heap.lists.size⟩, (w.heap.newList (pieces.map Value.str).toArray).2,
    Work.onHeap_of_eq hop, w.heap.extends_newList _, ?_⟩
  simp [Heap.newList, Heap.items]

theorem splitsInto_splitAll (ht : t ≠ "") (w : World) (s : String) :
    SplitsInto w s [.str t] (splitAll t s) := by
  have hempty : t.isEmpty = false := by simpa using ht
  refine splitsInto_of_eq ?_ (by simp)
  rw [splitAll_eq]
  change (if t.isEmpty then _ else _) = _
  rw [hempty]
  rfl

theorem splitsInto_splitAtMost (ht : t ≠ "") (w : World) (s : String) (m : Int64) :
    SplitsInto w s [.str t, .int m] (splitAtMost t (cutsOf s m) s) := by
  have hempty : t.isEmpty = false := by simpa using ht
  refine splitsInto_of_eq ?_ (by simp)
  change (if t.isEmpty then _ else _) = _
  rw [hempty]
  rfl

/-! ### Agreement -/

theorem joinsTo_of_eq {x : String} (hx : join t pieces = x) : JoinsTo t pieces x :=
  fun _ _ hr => hx ▸ callText_join t hr

theorem callText_find (s t : String) (w : World) :
    callText s .find [.str t] w =
      (.ok (.int (((find? t s).map Int64.ofNat).getD (-1))), w) := by
  have hop : callStrMethod s .find ⟨[.str t], []⟩ w.heap =
      (.ok (.int (((find? t s).map Int64.ofNat).getD (-1))), w.heap) := by
    have hwords (name : String) : (CallArgs.mk [.str t] []).onlyKeywords name [] = .ok () := rfl
    have harity (name : String) : (CallArgs.mk [.str t] []).checkArity name 1 1 = .ok () := rfl
    have htext (name : String) : textArgument name (CallArgs.mk [.str t] []).first = .ok t := rfl
    simp only [callStrMethod, HeapM.check_bind, hwords, harity, htext]
    cases find? t s <;> rfl
  exact Work.onHeap_of_eq hop

/-- Texts are split, searched, counted and replaced in at the same occurrences, whatever the texts
are. The separator must not be empty. -/
theorem search_and_split (ht : t ≠ "") (w : World) (s u : String) :
    ∃ pieces hits, SearchesBy w s t u pieces hits := by
  obtain ⟨first, others, hpieces⟩ := List.exists_cons_of_ne_nil
    (List.ne_nil_of_length_eq_add_one (length_splitAll ht s))
  have hcountLe := countOccurrences_le ht s
  refine ⟨splitAll t s, countOccurrences t s, ?_⟩
  constructor
  case cut => exact ⟨_, length_le_utf8ByteSize s, cut_splitAll ht s⟩
  case split => exact splitsInto_splitAll ht w s
  case join => exact joinsTo_of_eq (join_splitAll ht s)
  case length => exact length_splitAll ht s
  case splitAtMost =>
    intro m
    refine ⟨_, splitsInto_splitAtMost ht w s m,
      joinsTo_of_eq (join_splitAtMost ht _ s), fun hm => ?_, fun hm => ?_⟩
    · have hbytes := length_le_utf8ByteSize s
      rw [length_splitAtMost ht, cutsOf, if_neg (Int.not_lt.mpr hm)]
      omega
    · rw [cutsOf, if_pos hm, splitAll_eq]
  case count => rfl
  case hits_le => exact hcountLe
  case replace =>
    exact ⟨_, joinsTo_of_eq (replace_eq ht u s).symm, callText_replace s t u w⟩
  case find =>
    have hlength := length_splitAll ht s
    rw [hpieces, List.length_cons, Nat.succ.injEq] at hlength
    refine ⟨_, callText_find s t w, fun hnone => ?_, fun hsome => ⟨first, others, hpieces, ?_⟩⟩
    · rw [find?_eq ht hpieces, if_pos (List.eq_nil_of_length_eq_zero (hlength.trans hnone))]
      rfl
    · rw [find?_eq ht hpieces, if_neg (List.ne_nil_of_length_pos (hlength ▸ hsome))]
      rfl
  case isIn => exact congrArg Except.ok (occursIn_eq ht s)
  case pieces => exact fun p hp => congrArg Except.ok (occursIn_of_mem_splitAll ht hp)

/-- Occurrences at both ends of a text, one of which another one overlaps, of two characters with
two bytes each. -/
theorem search_and_split_overlapping :
    let w : World := ⟨.empty, .ofFiles .empty⟩
    "éé" ≠ "" ∧ SearchesBy w "ééébéé" "éé" "-" ["", "éb", ""] 2 ∧
    callText "ééébéé" .find [.str "éé"] w = (.ok (.int 0), w) ∧
    JoinsTo "-" ["", "éb", ""] "-éb-" := by
  intro w
  have hne : "éé" ≠ "" := by decide
  obtain ⟨pieces, hits, h⟩ := search_and_split hne w "ééébéé" "-"
  have hpieces : pieces = ["", "éb", ""] := by
    obtain ⟨r, heap, hcall, -, hitems⟩ := h.split
    have hsplit : callText "ééébéé" .split [.str "éé"] w =
        (.ok (.list ⟨0⟩), ⟨⟨#[#[.str "", .str "éb", .str ""]], #[], #[]⟩, w.host⟩) := rfl
    rw [hsplit, Prod.mk.injEq, Except.ok.injEq, Value.list.injEq, World.mk.injEq] at hcall
    obtain ⟨rfl, rfl, -⟩ := hcall
    exact List.map_injective_iff.mpr (fun _ _ => Value.str.inj) hitems.symm
  subst hpieces
  have hhits : hits = 2 := (Nat.succ.inj h.length).symm
  subst hhits
  obtain ⟨i, hfind, -, hfirst⟩ := h.find
  obtain ⟨first, others, hcons, rfl⟩ := hfirst (by decide)
  cases hcons
  exact ⟨hne, h, hfind, joinsTo_of_eq rfl⟩

end NoteShell.Script
