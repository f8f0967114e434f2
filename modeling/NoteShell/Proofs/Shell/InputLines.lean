import Mathlib.Tactic.Common
import NoteShell.Proofs.Text.Utf8
import NoteShell.Shell.Session

/-!
# A session line by line

The input of a session is cut at its line feeds before anything else is done with it, so that
neither the state of the session nor what comes of a line decides where the next line begins. A
session is therefore a fold of its lines up to the first one that makes the program crash, and an
input may be cut at any line end. A line that is no text leaves everything as it is but for one
record in the output.

## Main definitions

* `IsLine` : a line with its line end.
* `SplitsInto` : an input as lines, and what follows the last line end.
* `OneLine` : a text without any line end.
* `Session.Handles` : the lines that a session handles before it comes to an end.

## Main results

* `Session.inputLines_eq` : the lines of an input.
* `Session.handleLine_of_not_text` : what comes of a line that is no text.
* `Session.exists_handles` : a session handles all of its lines, or those up to a crash.
* `run_lineByLine` : a session as a fold of its lines.
-/

namespace NoteShell

open NoteShell.Text

/-- A line with its line end, which is its only line feed. -/
def IsLine (line : Bytes) : Prop := ∃ content, (10 : UInt8) ∉ content ∧ line = content ++ [10]

/-- An input is empty or ends with a line end. -/
def EndsLine (input : Bytes) : Prop := input = [] ∨ ∃ content, input = content ++ [10]

/-- An input consists of some lines and of what follows the last line end. -/
structure SplitsInto (input : Bytes) (lines : List Bytes) (rest : Bytes) : Prop where
  isLine : ∀ line ∈ lines, IsLine line
  not_mem : (10 : UInt8) ∉ rest
  eq : input = lines.flatten ++ rest

/-- A text is a single line without any line end. -/
def OneLine (s : String) : Prop := '\n' ∉ s.toList ∧ '\r' ∉ s.toList

instance (s : String) : Decidable (OneLine s) := inferInstanceAs (Decidable (_ ∧ _))

variable {a b input line rest : Bytes} {lines : List Bytes}

/-! ### Records of one line -/

theorem OneLine.append {s t : String} (hs : OneLine s) (ht : OneLine t) : OneLine (s ++ t) := by
  simp only [OneLine, String.toList_append, List.mem_append, not_or]
  exact ⟨⟨hs.1, ht.1⟩, hs.2, ht.2⟩

theorem oneLine_toString (n : Nat) : OneLine (toString n) := by
  have hdigits : (toString n).toList = Nat.toDigits 10 n := String.toList_ofList
  have hnot {c : Char} (hc : c.isDigit = false) : c ∉ (toString n).toList := by
    intro hmem
    rw [hdigits] at hmem
    rw [Nat.isDigit_of_mem_toDigits (by decide) (by decide) hmem] at hc
    cases hc
  exact ⟨hnot rfl, hnot rfl⟩

theorem oneLine_faultMessage (fault : Utf8Fault) : OneLine fault.message := by
  cases fault with
  | invalid size index =>
    exact (((show OneLine "invalid utf-8 sequence of " by decide).append
      (oneLine_toString size)).append (by decide)).append (oneLine_toString index)
  | incomplete index =>
    exact (show OneLine "incomplete utf-8 byte sequence from index " by decide).append
      (oneLine_toString index)

/-- A single line is written as it is. -/
theorem frame_of_oneLine {s : String} (hs : OneLine s) : frame s = s := by
  have hchars : ∀ cs : List Char, '\n' ∉ cs → '\r' ∉ cs → cs.flatMap frameChar = cs := by
    intro cs
    induction cs with
    | nil => exact fun _ _ => rfl
    | cons c cs ih =>
      intro hfeed hreturn
      rw [List.mem_cons, not_or] at hfeed hreturn
      rw [List.flatMap_cons, frameChar, if_neg (Ne.symm hreturn.1), if_neg (Ne.symm hfeed.1),
        ih hfeed.2 hreturn.2]
      rfl
  rw [frame, hchars _ hs.1 hs.2, String.ofList_toList]

/-! ### Lines of an input -/

theorem exists_splitsInto (input : Bytes) : ∃ lines rest, SplitsInto input lines rest := by
  induction input with
  | nil => exact ⟨[], [], ⟨by simp, List.not_mem_nil, rfl⟩⟩
  | cons c input ih =>
    obtain ⟨lines, rest, h⟩ := ih
    by_cases hc : c = 10
    · refine ⟨[c] :: lines, rest, ⟨List.forall_mem_cons.mpr ⟨?_, h.isLine⟩, h.not_mem, ?_⟩⟩
      · exact ⟨[], List.not_mem_nil, by rw [hc]; rfl⟩
      · rw [h.eq]
        rfl
    -- Any other byte goes to the first line, if there is one.
    · cases lines with
      | nil => exact ⟨[], c :: rest, ⟨h.isLine, by simp [Ne.symm hc, h.not_mem], by rw [h.eq]; rfl⟩⟩
      | cons line lines =>
        have hlines := List.forall_mem_cons.mp h.isLine
        obtain ⟨content, hcontent, rfl⟩ := hlines.1
        refine ⟨(c :: content ++ [10]) :: lines, rest,
          ⟨List.forall_mem_cons.mpr ⟨⟨_, ?_, rfl⟩, hlines.2⟩, h.not_mem, by rw [h.eq]; rfl⟩⟩
        simp [Ne.symm hc, hcontent]

/-- An input that ends with a line end has nothing after its lines. -/
theorem SplitsInto.rest_eq_nil (h : SplitsInto input lines rest) (hinput : EndsLine input) :
    rest = [] := by
  rcases hinput with hnil | ⟨content, hcontent⟩
  · exact (List.append_eq_nil_iff.mp (h.eq.symm.trans hnil)).2
  · rcases List.eq_nil_or_concat rest with hnil | ⟨start, last, hlast⟩
    · exact hnil
    · have hcut : (lines.flatten ++ start) ++ [last] = content ++ [10] := by
        rw [List.append_assoc, ← List.concat_eq_append, ← hlast, ← h.eq, hcontent]
      have hmem : (10 : UInt8) ∈ rest := by
        rw [hlast, ← List.singleton_inj.mp (List.append_inj_right' hcut rfl)]
        simp
      exact absurd hmem h.not_mem

namespace Session

/-- Bytes before a line feed are collected. -/
theorem splitLines_of_not_mem {content : Bytes} (h : (10 : UInt8) ∉ content) (acc rest : Bytes) :
    splitLines acc (content ++ rest) = splitLines (content.reverse ++ acc) rest := by
  induction content generalizing acc with
  | nil => rfl
  | cons c content ih =>
    rw [List.mem_cons, not_or] at h
    rw [List.cons_append, splitLines, if_neg (Ne.symm h.1), ih h.2, List.reverse_cons,
      List.append_assoc]
    rfl

/-- A line is cut off. -/
theorem inputLines_line (hline : IsLine line) (rest : Bytes) :
    inputLines (line ++ rest) = line :: inputLines rest := by
  obtain ⟨content, hcontent, rfl⟩ := hline
  rw [inputLines, List.append_assoc, splitLines_of_not_mem hcontent, List.singleton_append,
    splitLines, if_pos rfl, List.append_nil, List.reverse_cons, List.reverse_reverse, inputLines]

/-- What has no line feed is a line of its own, if it is not empty. -/
theorem inputLines_of_not_mem (hrest : (10 : UInt8) ∉ rest) :
    inputLines rest = if rest = [] then [] else [rest] := by
  have h := splitLines_of_not_mem hrest [] []
  rw [List.append_nil, List.append_nil] at h
  rw [inputLines, h, splitLines, List.isEmpty_reverse, List.reverse_reverse]
  simp only [List.isEmpty_iff]

theorem inputLines_flatten (hlines : ∀ line ∈ lines, IsLine line) (rest : Bytes) :
    inputLines (lines.flatten ++ rest) = lines ++ inputLines rest := by
  induction lines with
  | nil => rfl
  | cons line lines ih =>
    rw [List.forall_mem_cons] at hlines
    rw [List.flatten_cons, List.append_assoc, inputLines_line hlines.1, ih hlines.2]
    rfl

/-- The lines of an input are those into which it splits. -/
theorem inputLines_eq (h : SplitsInto input lines rest) :
    inputLines input = lines ++ if rest = [] then [] else [rest] := by
  rw [h.eq, inputLines_flatten h.isLine, inputLines_of_not_mem h.not_mem]

/-- At a line end an input can be cut into two. -/
theorem inputLines_append (ha : EndsLine a) (b : Bytes) :
    inputLines (a ++ b) = inputLines a ++ inputLines b := by
  obtain ⟨lines, rest, h⟩ := exists_splitsInto a
  obtain rfl := h.rest_eq_nil ha
  rw [inputLines_eq h, h.eq, List.append_nil, inputLines_flatten h.isLine, if_pos rfl,
    List.append_nil]

/-! ### Runs -/

/-- Of some lines a session handles the first ones, one after the other: all of them, or those up to
the first one that makes the program crash. -/
structure Handles (session : Session) (lines handled : List Bytes) : Prop where
  eq : session.handleLines lines = handled.foldl handleLine session
  running : ∀ before line after, handled = before ++ line :: after →
    (before.foldl handleLine session).crashed = false
  unhandled : ∃ rest, lines = handled ++ rest ∧
    (rest = [] ∨ (handled.foldl handleLine session).crashed = true)

theorem exists_handles (session : Session) (lines : List Bytes) :
    ∃ handled, session.Handles lines handled := by
  induction lines generalizing session with
  | nil => exact ⟨[], rfl, by simp, [], rfl, .inl rfl⟩
  | cons line lines ih =>
    by_cases hcrashed : session.crashed = true
    · exact ⟨[], if_pos hcrashed, by simp, line :: lines, rfl, .inr hcrashed⟩
    · obtain ⟨handled, heq, hafter, rest, hlines, hrest⟩ := ih (session.handleLine line)
      refine ⟨line :: handled, (if_neg hcrashed).trans heq, ?_, rest, by rw [hlines]; rfl, hrest⟩
      intro before next after hbefore
      cases before with
      | nil => exact Bool.eq_false_iff.mpr hcrashed
      | cons first before =>
        rw [List.cons_append, List.cons.injEq] at hbefore
        obtain ⟨rfl, hhandled⟩ := hbefore
        exact hafter before next after hhandled

theorem handleLines_append (session : Session) (lines rest : List Bytes) :
    session.handleLines (lines ++ rest) = (session.handleLines lines).handleLines rest := by
  induction lines generalizing session with
  | nil => rfl
  | cons line lines ih =>
    rw [List.cons_append, handleLines, handleLines]
    split_ifs with hcrashed
    · cases rest with
      | nil => rfl
      | cons => exact (if_pos hcrashed).symm
    · exact ih (session.handleLine line)

theorem run_append (session : Session) (ha : EndsLine a) (b : Bytes) :
    session.run (a ++ b) = (session.run a).run b := by
  rw [run, inputLines_append ha, handleLines_append]
  rfl

/-- The lines after one that does not make the program crash are handled as they stand. -/
theorem run_line (session : Session) (ha : EndsLine a) (hline : IsLine line) (b : Bytes)
    (hrunning : (session.run a).crashed = false) :
    session.run (a ++ line ++ b) = ((session.run a).handleLine line).run b := by
  rw [List.append_assoc, session.run_append ha, run, inputLines_line hline, handleLines, hrunning]
  rfl

/-- A line that is no text leaves everything as it is, but for a record of one line in the
output. -/
theorem handleLine_of_not_text (session : Session) (hline : ∀ text, line ≠ encodeUtf8 text) :
    ∃ reason, OneLine reason ∧
      session.handleLine line =
        { session with
          host :=
            { session.host with
              output := session.host.output ++ "Loop error: " ++ reason ++ "\n" } } := by
  obtain ⟨fault, hfault⟩ := exists_fault_iff.mpr hline
  have hreason : OneLine ("Invalid input: input is not valid UTF-8 (" ++ fault.message ++ ")") :=
    ((show OneLine "Invalid input: input is not valid UTF-8 (" by decide).append
      (oneLine_faultMessage fault)).append (by decide)
  have htext : invalidLineText fault =
      "Loop error: " ++ ("Invalid input: input is not valid UTF-8 (" ++ fault.message ++ ")") := by
    have hhead : "Loop error: Invalid input: input is not valid UTF-8 (" =
        "Loop error: " ++ "Invalid input: input is not valid UTF-8 (" := rfl
    unfold invalidLineText
    simp only [hhead, String.append_assoc]
  refine ⟨_, hreason, ?_⟩
  rw [handleLine, hfault]
  dsimp only
  rw [Host.log, logged, emitted, htext,
    frame_of_oneLine ((show OneLine "Loop error: " by decide).append hreason)]
  simp only [String.append_assoc]

end Session

/-- A session is a fold of the lines of its input, whatever state it begins in: of all of them, or
of those up to the first one that makes the program crash. Each line is handled once, in order, and
an input may be cut at any line end. A line that is no text writes one record and changes nothing
else. Unless the program has crashed, the lines after any line are read as they stand. -/
theorem run_lineByLine (session : Session) :
    (∀ a b, EndsLine a → session.run (a ++ b) = (session.run a).run b) ∧
    (∀ input, ∃ lines rest, SplitsInto input lines rest) ∧
    (∀ input lines rest, SplitsInto input lines rest → ∃ handled,
      session.Handles (lines ++ if rest = [] then [] else [rest]) handled ∧
      session.run input = handled.foldl Session.handleLine session) ∧
    (∀ line, (∀ text, line ≠ encodeUtf8 text) → ∃ reason, OneLine reason ∧
      session.handleLine line =
        { session with
          host :=
            { session.host with
              output := session.host.output ++ "Loop error: " ++ reason ++ "\n" } }) ∧
    ∀ a line b, EndsLine a → IsLine line → (session.run a).crashed = false →
      session.run (a ++ line ++ b) = ((session.run a).handleLine line).run b := by
  refine ⟨fun a b ha => session.run_append ha b, exists_splitsInto, ?_,
    fun line hline => session.handleLine_of_not_text hline,
    fun a line b ha hline => session.run_line ha hline b⟩
  intro input lines rest h
  obtain ⟨handled, hhandled⟩ := session.exists_handles (lines ++ if rest = [] then [] else [rest])
  refine ⟨handled, hhandled, ?_⟩
  rw [Session.run, Session.inputLines_eq h, hhandled.eq]

/-- A session with an empty host, in which nothing has been read. -/
def emptySession : Session := .ofShell (.ofRegistry (.empty Script.coreNames) 1) (.ofFiles .empty)

/-- Bytes that are no text, after a command and before another one. -/
theorem run_lineByLine_broken :
    let first := emptySession.handleLine (encodeUtf8 "x = 1\n")
    EndsLine (encodeUtf8 "x = 1\n") ∧ IsLine [0xC3, 10] ∧
    (emptySession.run (encodeUtf8 "x = 1\n")).crashed = false ∧
    ∃ reason, OneLine reason ∧
      emptySession.run (encodeUtf8 "x = 1\n" ++ [0xC3, 10] ++ encodeUtf8 "x") =
        Session.run
          { first with
            host :=
              { first.host with output := first.host.output ++ "Loop error: " ++ reason ++ "\n" } }
          (encodeUtf8 "x") := by
  intro first
  have hends : EndsLine (encodeUtf8 "x = 1\n") := .inr ⟨[120, 32, 61, 32, 49], by decide +kernel⟩
  have hline : IsLine [0xC3, 10] := ⟨[0xC3], by decide, rfl⟩
  have hbroken : ∀ text, ([0xC3, 10] : Bytes) ≠ encodeUtf8 text :=
    exists_fault_iff.mp ⟨.invalid 1 0, by decide⟩
  have hrunning : (emptySession.run (encodeUtf8 "x = 1\n")).crashed = false := by decide +kernel
  have hfirst : emptySession.run (encodeUtf8 "x = 1\n") = first := by
    have hinput : Session.inputLines (encodeUtf8 "x = 1\n") = [encodeUtf8 "x = 1\n"] := by
      decide +kernel
    rw [Session.run, hinput]
    rfl
  obtain ⟨-, -, -, -, hcut⟩ := run_lineByLine emptySession
  obtain ⟨-, -, -, hreport, -⟩ := run_lineByLine first
  obtain ⟨reason, hreason, hreported⟩ := hreport _ hbroken
  refine ⟨hends, hline, hrunning, reason, hreason, ?_⟩
  rw [hcut _ _ _ hends hline hrunning, hfirst, hreported]

/-- A line that deletes a dict's entry for the dict itself makes the program crash. The line after
it, which would show a number, is not handled. -/
theorem line_unhandled :
    EndsLine (encodeUtf8 "d = \x7b\x7d\ndel d[d]\n") ∧
    (emptySession.run (encodeUtf8 "d = \x7b\x7d\ndel d[d]\n" ++ encodeUtf8 "1 + 1\n")).host.output = "" ∧
    (emptySession.run (encodeUtf8 "1 + 1\n")).host.output = "2\n" := by
  refine ⟨.inr ⟨[100, 32, 61, 32, 123, 125, 10, 100, 101, 108, 32, 100, 91, 100, 93], ?_⟩,
    ?_, ?_⟩ <;>
    decide +kernel

end NoteShell
