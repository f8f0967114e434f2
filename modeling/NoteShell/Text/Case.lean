import NoteShell.Text.CaseTable
import NoteShell.Text.Cased

/-!
# Upper and lower case

Full case mappings: one character may become several, and a capital sigma becomes the final form at
the end of a word.
-/

namespace NoteShell.Text

private def mapCase (runs : Array CaseRun) (expansions : Array (Nat × List Nat)) (c : Char) :
    List Char :=
  match expansions.find? (fun e => e.1 == c.toNat) with
  | some (_, image) => image.map Char.ofNat
  | none => [Char.ofNat ((runs.findSome? (·.image? c.toNat)).getD c.toNat)]

/-- The upper case of a character. -/
def upperChar (c : Char) : List Char :=
  if c.toNat < 128 then [c.toUpper] else mapCase upperRuns upperExpansions c

/-- The lower case of a character on its own. -/
def lowerChar (c : Char) : List Char :=
  if c.toNat < 128 then [c.toLower] else mapCase lowerRuns lowerExpansions c

/-- Whether the first character that is not skipped next to a sigma is cased. -/
private def startsCased : List Char → Bool
  | [] => false
  | c :: rest => if caseIgnorableChars.contains c then startsCased rest else casedChars.contains c

/-- The upper case of a text. -/
def upper (s : String) : String :=
  String.ofList (s.toList.foldl (fun acc c => (upperChar c).reverseAux acc) []).reverse

/-- Lower case of a list whose preceding characters are `before`, nearest first; the result is put
in front of `acc` in reverse. -/
private def lowerLoop (before acc : List Char) : List Char → List Char
  | [] => acc.reverse
  | c :: rest =>
    let image :=
      if c == 'Σ' then [if startsCased before && !startsCased rest then 'ς' else 'σ']
      else lowerChar c
    lowerLoop (c :: before) (image.reverseAux acc) rest

/-- The lower case of a text. A capital sigma that ends a word becomes `ς`, any other `σ`. -/
def lower (s : String) : String :=
  String.ofList (lowerLoop [] [] s.toList)

/-- Among the first 128 characters each has its own lower case. -/
theorem toList_lower_of_ascii {s : String} (hs : ∀ c ∈ s.toList, c.toNat < 128) :
    (lower s).toList = s.toList.map Char.toLower := by
  have hloop (cs before acc : List Char) (hcs : ∀ c ∈ cs, c.toNat < 128) :
      lowerLoop before acc cs = acc.reverse ++ cs.map Char.toLower := by
    induction cs generalizing before acc with
    | nil => simp [lowerLoop]
    | cons c cs ih =>
      obtain ⟨hc, hcs⟩ := List.forall_mem_cons.mp hcs
      have hsigma : (c == 'Σ') = false := beq_false_of_ne fun h => absurd (h ▸ hc) (by decide)
      rw [lowerLoop, hsigma, lowerChar, if_pos hc, ih _ _ hcs]
      simp
  rw [lower, String.toList_ofList, hloop _ _ _ hs]
  rfl

end NoteShell.Text
