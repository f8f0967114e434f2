import NoteShell.Script.CallArgs
import NoteShell.Script.Sequence
import NoteShell.Text.Case
import NoteShell.Text.Search
import NoteShell.Text.Trim

/-!
# Methods of texts

Case, trimming, splitting, joining, replacing and searching. Texts are immutable, so every method
gives a new value.
-/

namespace NoteShell.Script

open NoteShell.Text

/-- The words of a text between blank space. After `cuts` words the rest is one word; `pieces` are
the words so far in reverse. -/
private def splitWords : (fuel cuts : Nat) → (pieces : List String) → List Char → List String
  | 0, _, pieces, _ => pieces.reverse
  | fuel + 1, cuts, pieces, cs =>
    if cs.isEmpty then pieces.reverse
    else
      match cuts with
      | 0 => (String.ofList (dropEndWhile isBlank cs) :: pieces).reverse
      | cuts + 1 =>
        let word := cs.takeWhile fun c => !isBlank c
        let rest := (cs.dropWhile fun c => !isBlank c).dropWhile isBlank
        splitWords fuel cuts (String.ofList word :: pieces) rest

/-- The words of a text, of which at most `cuts` are split off. -/
def splitBlank (cuts : Nat) (s : String) : List String :=
  splitWords (s.length + 1) cuts [] (s.toList.dropWhile isBlank)

/-- The characters to strip, or blank space where none are given. -/
def stripClass (args : CallArgs) : Except EvalError (Char → Bool) :=
  match args.positional? 0 with
  | none => .ok isBlank
  | some .none => .ok isBlank
  | some (.str set) =>
    let set := set.toList
    .ok fun c => set.contains c
  | some v => .error (.type (.stripType v.typeName))

/-- The pieces of a text as the arguments of a split ask for. -/
def splitText (s : String) (args : CallArgs) : Except EvalError (List String) := do
  let most ←
    match args.get? 1 "maxsplit" with
    | some v => intArgument v
    | none => pure (-1)
  let cuts := if most.toInt < 0 then s.utf8ByteSize else min most.toInt.toNat s.utf8ByteSize
  match args.get? 0 "sep" with
  | none => return splitBlank cuts s
  | some .none => return splitBlank cuts s
  | some (.str sep) =>
    if sep.isEmpty then
      throw (.value .emptySeparator)
    return splitAtMost sep cuts s
  | some v => throw (.type (.splitType v.typeName))

/-- The texts among items, which must all be texts. -/
def textItems : (position : Nat) → (acc : List String) → List Value →
    Except EvalError (List String)
  | _, acc, [] => .ok acc.reverse
  | n, acc, .str s :: rest => textItems (n + 1) (s :: acc) rest
  | n, _, v :: _ => .error (.type (.joinItem n v.typeName))

/-- Texts joined with a separator. -/
def joinTexts (sep : String) (items : Array Value) : Except EvalError String := do
  let pieces ← textItems 0 [] items.toList
  checkLength (pieces.foldl (fun n p => n + p.utf8ByteSize) 0 +
    sep.utf8ByteSize * (pieces.length - 1))
  return join sep pieces

/-- A text with every occurrence of another replaced. -/
def replaceText (s old new : String) : Except EvalError String := do
  checkLength (s.utf8ByteSize + countOccurrences old s * new.utf8ByteSize)
  return replace old new s

/-- Call a method of a text. -/
def callStrMethod (s : String) (m : StrMethod) (args : CallArgs) : HeapOp := do
  let name := "str." ++ m.name
  match m with
  | .upper | .lower =>
    args.onlyKeywords name []
    args.checkArity name 0 0
    return .str (if m = .upper then upper s else lower s)
  | .strip | .lstrip | .rstrip =>
    args.onlyKeywords name []
    args.checkArity name 0 1
    let inClass ← stripClass args
    return .str (
      if m = .strip then trimWhile inClass s
      else if m = .lstrip then trimStartWhile inClass s
      else trimEndWhile inClass s)
  | .split =>
    args.onlyKeywords name ["sep", "maxsplit"]
    args.checkArity name 0 2
    let pieces ← splitText s args
    HeapM.perform (.newList (pieces.map Value.str).toArray)
  | .join =>
    args.onlyKeywords name []
    args.checkArity name 1 1
    let items ← itemsOf (← get) args.first
    let joined ← joinTexts s items
    return .str joined
  | .replace =>
    args.onlyKeywords name []
    args.checkArity name 2 2
    let old ← textArgument name args.first
    let new ← textArgument name args.second
    let replaced ← replaceText s old new
    return .str replaced
  | .startsWith | .endsWith =>
    args.onlyKeywords name []
    args.checkArity name 1 1
    let affix ← textArgument name args.first
    return .bool (if m = .startsWith then startsWith affix s else endsWith affix s)
  | .find =>
    args.onlyKeywords name []
    args.checkArity name 1 1
    let needle ← textArgument name args.first
    match Text.find? needle s with
    | some n => return .int (Int64.ofNat n)
    | none => return .int (-1)
  | .count =>
    args.onlyKeywords name []
    args.checkArity name 1 1
    let needle ← textArgument name args.first
    return .int (Int64.ofNat (countOccurrences needle s))

end NoteShell.Script
