import NoteShell.Text.CharClass
import NoteShell.Text.Lines
import NoteShell.Text.Search

/-!
# Context ids

A prompt can name the conversation that it belongs to. The name is looked for in the header of the
prompt: the block between two fences where the prompt opens with one, and its first ten lines
otherwise. A fence is a line of three dashes, which blank space may follow.

## Main definitions

* `promptHeader`: the part of a prompt in which its context id is looked for.
* `contextId?`: the context id that a prompt names.
* `safeContextId`: the form of a context id that stands in names of files.
-/

namespace NoteShell.Chat

open NoteShell.Text

/-- The number of lines that are the header of a prompt without fences. -/
def headerLines : Nat := 10

/-- The texts after the line ends in the blank space at the start of a text, the shortest first. -/
def blockStarts (found : List (List Char)) : List Char → List (List Char)
  | [] => found
  | c :: rest =>
    if isBlank c then blockStarts (if c = '\n' then rest :: found else found) rest else found

/-- Whether a line ends here and a closing fence follows it. -/
def closesBlock : List Char → Bool
  | '\n' :: '-' :: '-' :: '-' :: rest => (rest.takeWhile isBlank).contains '\n'
  | _ => false

/-- The text before the first closing fence, after the characters `body` in reverse. -/
def blockBody? (body : List Char) : List Char → Option (List Char)
  | [] => none
  | c :: rest =>
    if closesBlock (c :: rest) then some body.reverse else blockBody? (c :: body) rest

/-- The text between the fences at the start of a prompt. -/
def fencedBlock? : List Char → Option (List Char)
  | '-' :: '-' :: '-' :: rest => (blockStarts [] rest).findSome? (blockBody? [])
  | _ => none

/-- The part of a prompt in which its context id is looked for. -/
def promptHeader (prompt : String) : List Char :=
  match fencedBlock? prompt.toList with
  | some block => block
  | none => (join "\n" ((lines prompt).take headerLines)).toList

/-- Whether a character can stand in a context id. -/
def isContextIdChar (c : Char) : Bool := c.isAlphanum || c == '_' || c == '-'

/-- The context id in a text that begins with a keyword, a colon and the id, with any blank space
around the colon. -/
def idAfter? (keyword text : List Char) : Option (List Char) :=
  if keyword.isPrefixOf text then
    match (text.drop keyword.length).dropWhile isBlank with
    | ':' :: rest =>
      match (rest.dropWhile isBlank).takeWhile isContextIdChar with
      | [] => none
      | id => some id
    | _ => none
  else none

/-- The first context id in a text that stands after a keyword. -/
def firstId? (keyword : List Char) : List Char → Option (List Char)
  | [] => none
  | c :: rest =>
    match idAfter? keyword (c :: rest) with
    | some id => some id
    | none => firstId? keyword rest

/-- The keywords before a context id. The first one goes before the second wherever both stand. -/
def contextKeywords : List String := ["chat_context", "context"]

/-- The context id that a prompt names. -/
def contextId? (prompt : String) : Option String :=
  let header := promptHeader prompt
  (contextKeywords.findSome? fun keyword => firstId? keyword.toList header).map String.ofList

/-- The form of a context id that stands in names of files. -/
def safeContextId (id : String) : String :=
  String.ofList (id.toList.map fun c => if isContextIdChar c then c else '_')

end NoteShell.Chat
