import NoteShell.Proofs.Execution.Run
import NoteShell.Proofs.Text.Occurrences

/-!
# The limit on texts

Sums, products and joins of texts and replacements in texts are refused where they would be too
large. The size that is checked beforehand is that of the result in bytes. With a replacement the
occurrences are added to it, though they are taken away. What has too many characters is therefore
never made, and what has not is made as long as its characters have one byte each and nothing is
taken away. A text of other characters may be refused although it is short enough, and so may a text
in which something is replaced.

## Main definitions

* `callText` : a call of a method of a text.
* `MakesWithin` : an operation makes a text or refuses it as too large.

## Main results

* `onHeap_add`, `onHeap_mul`, `callText_join`, `callText_replace` : what each operation makes, and
  where it refuses to.
* `texts_within_limit` : what is said above, for all of these operations.
* `fitting_texts_refused` : texts that are refused although they are short enough.
-/

namespace NoteShell.Script

open NoteShell.Text

variable {w : World} {x s t : String} {spare n : Nat} {action : Work Value}

/-- Call a method of a text with arguments given by position. -/
def callText (s : String) (m : StrMethod) (args : List Value) : Work Value :=
  Work.onHeap (callStrMethod s m ⟨args, []⟩)

/-- A text, or an error where its bytes and some spare ones are more than a text may have items. -/
def checkedText (spare : Nat) (x : String) : Except Failure Value :=
  if maxSequence < x.utf8ByteSize + spare then .error (.error (.overflow .sequence))
  else .ok (.str x)

/-- An operation makes a text or refuses it as too large. Its bytes decide this, and some spare ones
for what is taken away. In no case is a text made that has too many characters. -/
structure MakesWithin (action : Work Value) (w : World) (x : String) (spare : Nat) : Prop where
  refuses : maxSequence < x.utf8ByteSize + spare → action w = (.error (.error (.overflow .sequence)), w)
  makes : x.utf8ByteSize + spare ≤ maxSequence → action w = (.ok (.str x), w)
  tooLong : maxSequence < x.length → action w = (.error (.error (.overflow .sequence)), w)
  /-- With characters of seven bits and nothing taken away, the number of characters decides. -/
  fits : (∀ c ∈ x.toList, c.toNat < 128) → spare = 0 → x.length ≤ maxSequence →
    action w = (.ok (.str x), w)

theorem makesWithin_of_eq (h : action w = (checkedText spare x, w)) :
    MakesWithin action w x spare := by
  have hrefuses (hsize : maxSequence < x.utf8ByteSize + spare) :
      action w = (.error (.error (.overflow .sequence)), w) := by
    rw [h, checkedText, if_pos hsize]
  have hmakes (hsize : x.utf8ByteSize + spare ≤ maxSequence) : action w = (.ok (.str x), w) := by
    rw [h, checkedText, if_neg (Nat.not_lt.mpr hsize)]
  refine ⟨hrefuses, hmakes, fun hlength => hrefuses ?_, fun hascii hspare hlength => hmakes ?_⟩
  · have hbytes := length_le_utf8ByteSize x
    omega
  · rw [utf8ByteSize_eq_length hascii, hspare]
    exact hlength

/-! ### The operations -/

/-- An operation checks the size of the text that it makes. -/
theorem onHeap_checked {op : HeapOp}
    (hop : op w.heap = (((checkLength n).map fun _ => Value.str x).mapError .error, w.heap))
    (hn : n = x.utf8ByteSize + spare) : Work.onHeap op w = (checkedText spare x, w) := by
  subst hn
  rw [Work.onHeap_of_eq hop, checkLength, checkedText]
  split_ifs <;> rfl

theorem onHeap_add (s t : String) (w : World) :
    Work.onHeap (binary .add (.str s) (.str t)) w = (checkedText 0 (s ++ t), w) := by
  refine onHeap_checked (n := s.utf8ByteSize + t.utf8ByteSize) ?_ String.utf8ByteSize_append.symm
  change (liftM (checkLength (s.utf8ByteSize + t.utf8ByteSize)) >>= fun _ => _ : HeapOp) w.heap = _
  rw [HeapM.check_bind]
  cases checkLength (s.utf8ByteSize + t.utf8ByteSize) <;> rfl

theorem repeatText_eq (s : String) (n : Nat) (acc : String) :
    repeatText s n acc = acc ++ String.join (List.replicate n s) := by
  induction n generalizing acc with
  | zero => rw [repeatText, List.replicate_zero, String.join_nil, String.append_empty]
  | succ n ih => rw [repeatText, ih, List.replicate_succ, String.join_cons, String.append_assoc]

theorem repeatedText_eq (s : String) (i : Int64) :
    repeatedText s i = (checkLength (s.utf8ByteSize * i.toInt.toNat)).map fun _ =>
      Value.str (String.join (List.replicate i.toInt.toNat s)) := by
  have hempty (n : Nat) : String.join (List.replicate n "") = "" := by
    induction n with
    | zero => rfl
    | succ n ih => rw [List.replicate_succ, String.join_cons, ih, String.append_empty]
  have htext : (if s.isEmpty then "" else repeatText s i.toInt.toNat "") =
      String.join (List.replicate i.toInt.toNat s) := by
    split_ifs with hs
    · rw [String.isEmpty_iff.mp hs, hempty]
    · rw [repeatText_eq, String.empty_append]
  rw [repeatedText, repeatCount, ← htext]
  cases checkLength (s.utf8ByteSize * i.toInt.toNat) <;> rfl

theorem onHeap_mul (s : String) (i : Int64) (w : World) :
    Work.onHeap (binary .mul (.str s) (.int i)) w =
        (checkedText 0 (String.join (List.replicate i.toInt.toNat s)), w) ∧
      Work.onHeap (binary .mul (.int i) (.str s)) w =
        (checkedText 0 (String.join (List.replicate i.toInt.toNat s)), w) := by
  have hsize : s.utf8ByteSize * i.toInt.toNat =
      (String.join (List.replicate i.toInt.toNat s)).utf8ByteSize + 0 := by
    rw [addsUp_utf8ByteSize.replicate, Nat.mul_comm, Nat.add_zero]
  have hrepeated : (liftM (repeatedText s i) : HeapOp) w.heap =
      (((checkLength (s.utf8ByteSize * i.toInt.toNat)).map fun _ =>
        Value.str (String.join (List.replicate i.toInt.toNat s))).mapError .error, w.heap) := by
    rw [HeapM.result_apply, repeatedText_eq]
  exact ⟨onHeap_checked hrepeated hsize, onHeap_checked hrepeated hsize⟩

theorem textItems_eq (n : Nat) (acc pieces : List String) :
    textItems n acc (pieces.map .str) = .ok (acc.reverse ++ pieces) := by
  induction pieces generalizing n acc with
  | nil => rw [List.map_nil, textItems, List.append_nil]
  | cons p pieces ih =>
    rw [List.map_cons, textItems, ih, List.reverse_cons, List.append_assoc, List.singleton_append]

/-- The items of a list of texts are joined. -/
theorem callText_join (sep : String) {r : ListRef} {pieces : List String}
    (hr : (w.heap.items r).toList = pieces.map .str) :
    callText sep .join [.list r] w = (checkedText 0 (join sep pieces), w) := by
  have hitems : textItems 0 [] (w.heap.items r).toList = .ok pieces := by
    rw [hr, textItems_eq, List.reverse_nil, List.nil_append]
  refine onHeap_checked (n := pieces.foldl (fun n p => n + p.utf8ByteSize) 0 +
    sep.utf8ByteSize * (pieces.length - 1)) ?_ ?_
  · change (liftM (joinTexts sep (w.heap.items r)) >>= fun _ => _ : HeapOp) w.heap = _
    have hjoined : joinTexts sep (w.heap.items r) =
        (checkLength (pieces.foldl (fun n p => n + p.utf8ByteSize) 0 +
          sep.utf8ByteSize * (pieces.length - 1))).map fun _ => join sep pieces := by
      rw [joinTexts, hitems]
      rfl
    rw [HeapM.check_bind, hjoined]
    cases checkLength (pieces.foldl (fun n p => n + p.utf8ByteSize) 0 +
      sep.utf8ByteSize * (pieces.length - 1)) <;> rfl
  · rw [addsUp_utf8ByteSize.join, List.sum_eq_foldl, List.foldl_map, Nat.add_zero]

theorem callText_replace (s old new : String) (w : World) :
    callText s .replace [.str old, .str new] w =
      (checkedText (countOccurrences old s * old.utf8ByteSize) (replace old new s), w) := by
  refine onHeap_checked ?_ (addsUp_utf8ByteSize.replace old new s).symm
  change (liftM (replaceText s old new) >>= fun _ => _ : HeapOp) w.heap = _
  rw [HeapM.check_bind, replaceText]
  cases checkLength (s.utf8ByteSize + countOccurrences old s * new.utf8ByteSize) <;> rfl

/-- Sums, products, joins and replacements are the texts that they should be or are refused as too
large. Which of these it is depends on the bytes of the result, and in a replacement also on those
of the occurrences. Whatever has too many characters is refused. -/
theorem texts_within_limit (w : World) (s t old new : String) (i : Int64) :
    MakesWithin (Work.onHeap (binary .add (.str s) (.str t))) w (s ++ t) 0 ∧
    MakesWithin (Work.onHeap (binary .mul (.str s) (.int i))) w
      (String.join (List.replicate i.toInt.toNat s)) 0 ∧
    MakesWithin (Work.onHeap (binary .mul (.int i) (.str s))) w
      (String.join (List.replicate i.toInt.toNat s)) 0 ∧
    (∀ (r : ListRef) (pieces : List String), (w.heap.items r).toList = pieces.map .str →
      MakesWithin (callText s .join [.list r]) w (join s pieces) 0) ∧
    MakesWithin (callText s .replace [.str old, .str new]) w (replace old new s)
      (countOccurrences old s * old.utf8ByteSize) :=
  ⟨makesWithin_of_eq (onHeap_add s t w), makesWithin_of_eq (onHeap_mul s i w).1,
    makesWithin_of_eq (onHeap_mul s i w).2, fun _ _ hr => makesWithin_of_eq (callText_join s hr),
    makesWithin_of_eq (callText_replace s old new w)⟩

/-- The items of a list are joined, characters are taken away, and a product is refused whose size
no longer fits 64 bits. -/
theorem texts_within_limit_joined :
    let w : World := ⟨⟨#[#[.str "x", .str "é"]], #[], #[]⟩, .ofFiles .empty⟩
    (w.heap.items ⟨0⟩).toList = ["x", "é"].map .str ∧
    callText ", " .join [.list ⟨0⟩] w = (.ok (.str "x, é"), w) ∧
    callText "aéa" .replace [.str "a", .str ""] w = (.ok (.str "é"), w) ∧
    Work.onHeap (binary .mul (.str "é") (.int 9223372036854775807)) w =
      (.error (.error (.overflow .sequence)), w) := by
  intro w
  have hitems : (w.heap.items ⟨0⟩).toList = ["x", "é"].map .str := rfl
  obtain ⟨-, -, -, hjoin, -⟩ := texts_within_limit w ", " "" "" "" 0
  obtain ⟨-, -, -, -, hreplace⟩ := texts_within_limit w "aéa" "" "a" "" 0
  obtain ⟨-, hmul, -, -, -⟩ := texts_within_limit w "é" "" "" "" 9223372036854775807
  refine ⟨hitems, (hjoin ⟨0⟩ ["x", "é"] hitems).makes (by decide +kernel),
    hreplace.makes (by decide +kernel), hmul.refuses ?_⟩
  rw [addsUp_utf8ByteSize.replicate]
  decide

/-- Three million characters of two bytes each are refused, and so is the replacement of every
character in the longest text there may be by another one. -/
theorem fitting_texts_refused :
    let w : World := ⟨.empty, .ofFiles .empty⟩
    let wide := String.join (List.replicate 3000000 "é")
    let long := String.join (List.replicate 4194304 "a")
    wide.length ≤ maxSequence ∧
    Work.onHeap (binary .mul (.str "é") (.int 3000000)) w =
      (.error (.error (.overflow .sequence)), w) ∧
    (replace "a" "b" long).length ≤ maxSequence ∧
    callText long .replace [.str "a", .str "b"] w = (.error (.error (.overflow .sequence)), w) := by
  intro w wide long
  have hwide := makesWithin_of_eq (onHeap_mul "é" 3000000 w).1
  have hlong := makesWithin_of_eq (callText_replace long "a" "b" w)
  have hlength := addsUp_length.replace "a" "b" long
  have hbytes := addsUp_utf8ByteSize.replace "a" "b" long
  have hcount : 0 < countOccurrences "a" long := by
    have hcons : long = "a" ++ String.join (List.replicate 4194303 "a") := String.join_cons
    have hwithin : "a".toList <:+: long.toList := by
      rw [hcons, String.toList_append]
      exact (List.prefix_append _ _).isInfix
    have hoccurs := (occursIn_iff_isInfix (by decide) long).mpr hwithin
    rwa [occursIn_eq (by decide), decide_eq_true_iff] at hoccurs
  refine ⟨?_, hwide.refuses ?_, ?_, hlong.refuses ?_⟩
  · rw [addsUp_length.replicate]
    decide
  · rw [addsUp_utf8ByteSize.replicate]
    decide
  · have hlong : long.length = 4194304 * 1 := addsUp_length.replicate 4194304 "a"
    have hsame : "a".length = "b".length := rfl
    rw [hsame, Nat.add_right_cancel_iff] at hlength
    rw [hlength, hlong]
    decide
  · have hlong : long.utf8ByteSize = 4194304 * 1 := addsUp_utf8ByteSize.replicate 4194304 "a"
    have hone : "b".utf8ByteSize = 1 := rfl
    rw [hbytes, hlong, hone, maxSequence]
    omega

end NoteShell.Script
