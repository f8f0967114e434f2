import NoteShell.Json.Parser

/-!
# Parts of a document as they are written

The items of an array and the members of an object can be taken out of the text of a document
without reading them any further. A part is passed over by its form alone: it may nest to any depth,
its numbers may be of any size, and its texts may hold escaped halves of surrogate pairs. Members
with the same key are all kept.

## Main definitions

* `Json.skipValue?`: what follows the value at the start of a text.
* `Json.itemsWritten?`, `Json.membersWritten?`: the parts of an array and of an object.
-/

namespace NoteShell.Json

/-- The rest of a text after the quoted text whose opening quote stands before it. -/
def skipText? : List Char → Option (List Char)
  | [] => none
  | '"' :: rest => some rest
  | '\\' :: 'u' :: a :: b :: c :: d :: rest =>
    if [a, b, c, d].all fun c => (hexDigit? c).isSome then skipText? rest else none
  | '\\' :: e :: rest => if (simpleEscape? e).isSome then skipText? rest else none
  | c :: rest => if c.toNat < 0x20 ∨ c = '\\' then none else skipText? rest

/-- The rest of a text after one or more digits. -/
private def skipDigits? : List Char → Option (List Char)
  | c :: rest => if c.isDigit then some (rest.dropWhile Char.isDigit) else none
  | [] => none

private def skipFraction? : List Char → Option (List Char)
  | '.' :: rest => skipDigits? rest
  | cs => some cs

private def skipExponent? : List Char → Option (List Char)
  | c :: rest =>
    if c = 'e' ∨ c = 'E' then
      match rest with
      | '+' :: rest | '-' :: rest => skipDigits? rest
      | rest => skipDigits? rest
    else some (c :: rest)
  | [] => some []

/-- The rest of a text after a number. -/
def skipNumber? (cs : List Char) : Option (List Char) := do
  let digits := match cs with
    | '-' :: rest => rest
    | cs => cs
  let rest ← match digits with
    | '0' :: c :: rest => if c.isDigit then none else some (c :: rest)
    | cs => skipDigits? cs
  skipExponent? (← skipFraction? rest)

/-- The rest of a text after a value without containers. -/
private def skipScalar? : List Char → Option (List Char)
  | 'n' :: 'u' :: 'l' :: 'l' :: rest => some rest
  | 't' :: 'r' :: 'u' :: 'e' :: rest => some rest
  | 'f' :: 'a' :: 'l' :: 's' :: 'e' :: rest => some rest
  | '"' :: rest => skipText? rest
  | cs => skipNumber? cs

/-- The text from the value of a member on, which stands after its key and a colon. -/
private def skipKey? (cs : List Char) : Option (List Char) :=
  match skipSpace cs with
  | '"' :: rest =>
    match (skipText? rest).map skipSpace with
    | some (':' :: rest) => some rest
    | _ => none
  | _ => none

/-- A container that is open. -/
private inductive Open where
  | items
  | members

/-- The rest of a text after the value at its start, or after the rest of one, and after all
`opened` containers, the innermost first. -/
private def skipLoop : (fuel : Nat) → (opened : List Open) → (atValue : Bool) → List Char →
    Option (List Char)
  | 0, _, _, _ => none
  | fuel + 1, opened, true, cs =>
    match skipSpace cs with
    | '[' :: rest =>
      match skipSpace rest with
      | ']' :: rest => skipLoop fuel opened false rest
      | rest => skipLoop fuel (.items :: opened) true rest
    | '{' :: rest =>
      match skipSpace rest with
      | '}' :: rest => skipLoop fuel opened false rest
      | rest =>
        match skipKey? rest with
        | some rest => skipLoop fuel (.members :: opened) true rest
        | none => none
    | cs =>
      match skipScalar? cs with
      | some rest => skipLoop fuel opened false rest
      | none => none
  | _ + 1, [], false, cs => some cs
  | fuel + 1, .items :: opened, false, cs =>
    match skipSpace cs with
    | ',' :: rest => skipLoop fuel (.items :: opened) true rest
    | ']' :: rest => skipLoop fuel opened false rest
    | _ => none
  | fuel + 1, .members :: opened, false, cs =>
    match skipSpace cs with
    | ',' :: rest =>
      match skipKey? rest with
      | some rest => skipLoop fuel (.members :: opened) true rest
      | none => none
    | '}' :: rest => skipLoop fuel opened false rest
    | _ => none

/-- The rest of a text after the value at its start. -/
def skipValue? (cs : List Char) : Option (List Char) :=
  skipLoop (2 * cs.length + 2) [] true cs

/-- The value at the start of a text, as it is written, and the rest of the text. -/
private def takeValue? (cs : List Char) : Option (List Char × List Char) :=
  let cs := skipSpace cs
  (skipValue? cs).map fun rest => (cs.take (cs.length - rest.length), rest)

/-- The items of an array after its first bracket or a comma. -/
private def takeItems? : (fuel : Nat) → List Char → Option (List (List Char) × List Char)
  | 0, _ => none
  | fuel + 1, cs => do
    let (item, rest) ← takeValue? cs
    match skipSpace rest with
    | ',' :: rest =>
      let (items, rest) ← takeItems? fuel rest
      some (item :: items, rest)
    | ']' :: rest => some ([item], rest)
    | _ => none

/-- The key of a member, and the text from its value on. -/
private def takeKey? (cs : List Char) : Option (String × List Char) := do
  let (key, rest) ← takeValue? cs
  match parse? (String.ofList key), skipSpace rest with
  | some (.str key), ':' :: rest => some (key, rest)
  | _, _ => none

/-- The members of an object after its first brace or a comma. -/
private def takeMembers? :
    (fuel : Nat) → List Char → Option (List (String × List Char) × List Char)
  | 0, _ => none
  | fuel + 1, cs => do
    let (key, rest) ← takeKey? cs
    let (value, rest) ← takeValue? rest
    match skipSpace rest with
    | ',' :: rest =>
      let (members, rest) ← takeMembers? fuel rest
      some ((key, value) :: members, rest)
    | '}' :: rest => some ([(key, value)], rest)
    | _ => none

/-- What has been read, where only space follows it. -/
private def whole? {α : Type} : α × List Char → Option α
  | (a, rest) => if (skipSpace rest).isEmpty then some a else none

/-- The items of the array that a text holds. -/
def itemsWritten? (cs : List Char) : Option (List (List Char)) :=
  match skipSpace cs with
  | '[' :: rest =>
    match skipSpace rest with
    | ']' :: rest => whole? ([], rest)
    | rest => (takeItems? rest.length rest).bind whole?
  | _ => none

/-- The members of the object that a text holds. -/
def membersWritten? (cs : List Char) : Option (List (String × List Char)) :=
  match skipSpace cs with
  | '{' :: rest =>
    match skipSpace rest with
    | '}' :: rest => whole? ([], rest)
    | rest => (takeMembers? rest.length rest).bind whole?
  | _ => none

/-- The values of the named fields of the record that a text holds, as they are written. An object
holds each field at most once, in any order and possibly among other members. An array holds them in
order, and at least the first `least` of them. -/
def fieldsWritten? (names : List String) (least : Nat) (cs : List Char) :
    Option (List (String × List Char)) :=
  match membersWritten? cs, itemsWritten? cs with
  | some members, _ =>
    let fields := members.filter fun e => names.contains e.1
    if (fields.map (·.1)).eraseDups.length = fields.length then some fields else none
  | none, some items =>
    if least ≤ items.length ∧ items.length ≤ names.length then some (names.zip items) else none
  | none, none => none

end NoteShell.Json
