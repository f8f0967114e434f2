import NoteShell.Proofs.Shell.InputLines

/-!
# The context that a session shares

A session begins with an empty context. A line that is an envelope replaces the context as a whole,
and no other line changes it: neither a command, nor a text that only looks like an envelope, nor
bytes that are no text. At any time the context is therefore that of the last envelope among the
lines that have been handled. These are all lines of the input, unless one of them has made the
program crash.

## Main definitions

* `IsEnvelope` : the lines that are envelopes, with their fields.

## Main results

* `note_handleLine`, `note_handleLine_of_not` : the context after a line.
* `sharedContext_run` : the context after any input.
-/

namespace NoteShell

open NoteShell.Text

/-- A line is an envelope with the given fields: without the blank space around it, it begins with a
brace and holds a JSON object. -/
def IsEnvelope (line : Bytes) (fields : Json.Members) : Prop :=
  ∃ text, decodeUtf8 line = .ok text ∧ startsWith "\x7b" (trim text) = true ∧
    Json.parse? (trim text) = some (.obj fields)

/-- The members of a field of an envelope that is an object, and none for any other field. -/
def objectIn : Option Json → Json.Members
  | some (.obj members) => members
  | _ => []

/-- The text of a field that is a text, and the empty one for any other field. -/
def textIn : Option Json → String
  | some (.str text) => text
  | _ => ""

namespace Session

variable {session : Session} {line : Bytes} {fields : Json.Members}

/-- A command does not change the context. -/
theorem note_runCommand (command : String) (session : Session) :
    (runCommand command session).note = session.note := by
  obtain ⟨shell, note, host⟩ := session
  delta runCommand
  cases normalizeCommand command <;> rfl

theorem note_handleText (text : String) (session : Session) :
    (handleText text session).note = (route text session.note).2 := by
  obtain ⟨shell, note, host⟩ := session
  rw [handleText]
  generalize route text note = routed
  obtain ⟨command, note'⟩ := routed
  exact note_runCommand command ⟨shell, note', host⟩

/-- The context after an envelope is the one that it carries. -/
theorem note_handleLine (hline : IsEnvelope line fields) :
    (session.handleLine line).note = (Envelope.ofMembers fields).note := by
  obtain ⟨text, hdecode, hstart, hparse⟩ := hline
  have henvelope : Envelope.parse? (trim text) = some (Envelope.ofMembers fields) := by
    rw [Envelope.parse?, hparse]
    rfl
  simp only [handleLine, hdecode]
  rw [note_handleText, route, if_pos hstart, henvelope]

/-- Any other line leaves the context as it is. -/
theorem note_handleLine_of_not (hline : ∀ fields, ¬ IsEnvelope line fields) :
    (session.handleLine line).note = session.note := by
  rw [handleLine]
  cases hdecode : decodeUtf8 line with
  | error fault => rfl
  | ok text =>
    dsimp only
    rw [note_handleText, route]
    split_ifs with hstart
    · cases henvelope : Envelope.parse? (trim text) with
      | none => rfl
      | some envelope =>
        obtain ⟨fields, hfields, -⟩ := Option.map_eq_some_iff.mp henvelope
        obtain ⟨document, hparse, hmembers⟩ := Option.bind_eq_some_iff.mp hfields
        cases document with
        | obj members => exact absurd ⟨text, hdecode, hstart, hparse⟩ (hline members)
        | _ => cases hmembers
    · rfl

/-- Lines that are no envelopes leave the context as it is. -/
theorem note_foldl_of_not (session : Session) {lines : List Bytes}
    (hlines : ∀ line ∈ lines, ∀ fields, ¬ IsEnvelope line fields) :
    (lines.foldl handleLine session).note = session.note := by
  induction lines generalizing session with
  | nil => rfl
  | cons line lines ih =>
    rw [List.forall_mem_cons] at hlines
    rw [List.foldl_cons, ih _ hlines.2, note_handleLine_of_not hlines.1]

end Session

theorem objectField_eq (key : String) (fields : Json.Members) :
    Envelope.objectField key fields = objectIn (Json.find? key fields) := by
  rw [Envelope.objectField]
  rcases Json.find? key fields with _ | (_ | _ | _ | _ | _ | _ | _) <;> rfl

theorem notePath_eq (note : NoteContext) :
    note.notePath = textIn (Json.find? "notePath" note.context) := by
  rw [NoteContext.notePath]
  rcases Json.find? "notePath" note.context with _ | (_ | _ | _ | _ | _ | _ | _) <;> rfl

/-- Whatever bytes a session reads and whatever their commands do, the front matter and the context
are afterwards the fields of the last line that is an envelope, as far as they are objects, and the
path of the note is the one in this context, if it is a text. Without any envelope the context is
empty. This is about the lines that the session handles: all of them, or those up to the first one
that makes the program crash. -/
theorem sharedContext_run (shell : Shell) (host : Host) (input : Bytes) :
    ∃ handled, (Session.ofShell shell host).Handles (Session.inputLines input) handled ∧
      let note := ((Session.ofShell shell host).run input).note
      (∀ before line after fields, handled = before ++ line :: after →
        IsEnvelope line fields → (∀ later ∈ after, ∀ fields, ¬ IsEnvelope later fields) →
        note.frontmatter = objectIn (Json.find? "frontmatter" fields) ∧
        note.context = objectIn (Json.find? "context" fields) ∧
        note.notePath = textIn (Json.find? "notePath" note.context)) ∧
      ((∀ line ∈ handled, ∀ fields, ¬ IsEnvelope line fields) →
        note.frontmatter = [] ∧ note.context = [] ∧ note.notePath = "") := by
  obtain ⟨handled, hhandled⟩ :=
    (Session.ofShell shell host).exists_handles (Session.inputLines input)
  refine ⟨handled, hhandled, ?_⟩
  intro note
  have hrun : note = (handled.foldl Session.handleLine (Session.ofShell shell host)).note :=
    congrArg Session.note hhandled.eq
  refine ⟨fun before line after fields hinput hline hafter => ?_, fun hinput => ?_⟩
  · have hnote : note = (Envelope.ofMembers fields).note := by
      rw [hrun, hinput, List.foldl_append, List.foldl_cons, Session.note_foldl_of_not _ hafter,
        Session.note_handleLine hline]
    refine ⟨?_, ?_, notePath_eq note⟩
    · rw [hnote]
      exact objectField_eq "frontmatter" fields
    · rw [hnote]
      exact objectField_eq "context" fields
  · have hnote : note = .empty := hrun.trans (Session.note_foldl_of_not _ hinput)
    rw [hnote]
    exact ⟨rfl, rfl, rfl⟩

/-- An envelope, a line that only looks like one, a byte that is no text, and a command. -/
def mixedInput : Bytes :=
  encodeUtf8 "\x7b\"context\": \x7b\"notePath\": \"a.md\"\x7d\x7d\n\x7b\"context\": 1\n" ++
    [0xFF, 10] ++ encodeUtf8 "x = 1\n"

/-- After `mixedInput`, all lines of which are handled, the context is that of its first line. -/
theorem sharedContext_run_mixed :
    (emptySession.run mixedInput).crashed = false ∧
      let note := (emptySession.run mixedInput).note
      note.frontmatter = [] ∧ note.context = [("notePath", .str "a.md")] ∧
        note.notePath = "a.md" := by
  have hcrashed : (emptySession.run mixedInput).crashed = false := by decide +kernel
  have hlines : Session.inputLines mixedInput =
      [] ++ encodeUtf8 "\x7b\"context\": \x7b\"notePath\": \"a.md\"\x7d\x7d\n" ::
        [encodeUtf8 "\x7b\"context\": 1\n", [0xFF, 10], encodeUtf8 "x = 1\n"] := by
    decide +kernel
  have hfirst : IsEnvelope (encodeUtf8 "\x7b\"context\": \x7b\"notePath\": \"a.md\"\x7d\x7d\n")
      [("context", .obj [("notePath", .str "a.md")])] :=
    ⟨_, decodeUtf8_encodeUtf8 _, rfl, rfl⟩
  have hlater : ∀ later ∈ [encodeUtf8 "\x7b\"context\": 1\n", [0xFF, 10], encodeUtf8 "x = 1\n"],
      ∀ fields, ¬ IsEnvelope later fields := by
    rintro later hlater fields ⟨text, hdecode, hstart, hparse⟩
    obtain rfl | rfl | rfl : later = _ ∨ later = _ ∨ later = _ := by simpa using hlater
    · cases (decodeUtf8_encodeUtf8 _).symm.trans hdecode
      cases hparse
    · cases hdecode
    · cases (decodeUtf8_encodeUtf8 _).symm.trans hdecode
      cases hstart
  obtain ⟨handled, hhandled, hcontext, -⟩ :=
    sharedContext_run (.ofRegistry (.empty Script.coreNames) 1) (.ofFiles .empty) mixedInput
  obtain ⟨rest, hrest, rfl | hcrash⟩ := hhandled.unhandled
  · rw [List.append_nil] at hrest
    obtain ⟨hfrontmatter, hcontext, hpath⟩ := hcontext _ _ _ _ (hrest ▸ hlines) hfirst hlater
    exact ⟨hcrashed, hfrontmatter, hcontext, hpath.trans (by rw [hcontext]; rfl)⟩
  · rw [← hhandled.eq] at hcrash
    exact absurd hcrash (by rw [← Session.run]; exact Bool.eq_false_iff.mp hcrashed)

/-- An envelope after a line that makes the program crash. -/
def unreadInput : Bytes :=
  encodeUtf8 "d = \x7b\x7d\ndel d[d]\n\x7b\"context\": \x7b\"notePath\": \"a.md\"\x7d\x7d\n"

/-- The context after `unreadInput` is empty, although its last line is an envelope. -/
theorem envelope_unhandled :
    (∃ before line, Session.inputLines unreadInput = before ++ [line] ∧
      IsEnvelope line [("context", .obj [("notePath", .str "a.md")])]) ∧
    (emptySession.run unreadInput).note.context = [] ∧
    (emptySession.run unreadInput).note.notePath = "" := by
  have hlines : Session.inputLines unreadInput =
      [encodeUtf8 "d = \x7b\x7d\n", encodeUtf8 "del d[d]\n"] ++
        [encodeUtf8 "\x7b\"context\": \x7b\"notePath\": \"a.md\"\x7d\x7d\n"] := by
    decide +kernel
  refine ⟨⟨_, _, hlines, _, decodeUtf8_encodeUtf8 _, rfl, rfl⟩, ?_, ?_⟩
  · rw [← List.isEmpty_iff]
    decide +kernel
  · decide +kernel

end NoteShell
