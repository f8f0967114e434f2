import NoteShell.Proofs.Execution.SafePrograms
import NoteShell.Proofs.Shell.Commands
import NoteShell.Shell.Session

/-!
# Sessions keep heaps sound

Each line of a session carries a command, and may carry a new shared context. Whatever the lines
are, the values that a session keeps from one command to the next stay sound, where sizes matter as
long as the lines are not too long and their commands check the sizes of what they make.

## Main definitions

* `Session.after` : a session after some lines.
* `Session.Reaches` : the points that the command of a line passes.
* `SoundLine` : lines that keep sessions sound.

## Main results

* `Session.Sound.after` : sessions stay sound.
* `Session.Sound.reaches` : every point of a command in a sound session is sound.
-/

namespace NoteShell

open NoteShell.Grammar NoteShell.Script NoteShell.Text

variable {bounded : Bool} {session : Session} {line : String}

/-! ### Lines -/

/-- The command that a line carries, if it does. -/
def commandOf? (line : String) : Option String := normalizeCommand (route line .empty).1

/-- The command does not depend on what the host has shared before. -/
theorem route_command (line : String) (note : NoteContext) :
    normalizeCommand (route line note).1 = commandOf? line := by
  rw [commandOf?, route, route]
  split_ifs
  · cases Envelope.parse? (trim line) <;> rfl
  · rfl

/-- The shell of a session after a line with a command. -/
theorem Session.shell_handleText (session : Session) {command : String}
    (hcommand : commandOf? line = some command) :
    (session.handleText line).shell =
      (session.shell.execute (route line session.note).2 command session.host).1 := by
  obtain ⟨shell, note, host⟩ := session
  rw [← route_command line note] at hcommand
  rw [Session.handleText]
  generalize route line note = routed at hcommand ⊢
  obtain ⟨text, note'⟩ := routed
  delta Session.runCommand
  dsimp only at hcommand ⊢
  rw [hcommand]

/-- A session after some lines. -/
def Session.after (session : Session) (lines : List String) : Session :=
  lines.foldl (fun session line => session.handleText line) session

theorem Session.after_singleton (session : Session) (line : String) :
    session.after [line] = session.handleText line := by
  rw [Session.after, List.foldl_cons, List.foldl_nil]

/-- The points that the command of a line passes. -/
def Session.Reaches (session : Session) (line : String) (p : RunPoint) : Prop :=
  ∃ command, commandOf? line = some command ∧
    CommandReaches (session.shell.env (route line session.note).2) command
      (session.shell.state session.host) p

/-- A command that is an expression passes the state in which it begins. -/
theorem Session.reaches_start (session : Session) {command : String}
    (hcommand : commandOf? line = some command) {e : Expr} (he : parseExpression command = .ok e) :
    session.Reaches line ⟨maxCallDepth, none, none, session.shell.state session.host⟩ := by
  refine ⟨command, hcommand, ?_⟩
  rw [CommandReaches, he]
  exact .here _ _

/-- All expressions of a command are sound. -/
structure SoundCommand (bounded : Bool) (command : String) : Prop where
  expression : ∀ e, parseExpression command = .ok e → e.Holds (Expr.Sound bounded)
  program : ∀ stmts, parseProgram command = .ok stmts →
    ∀ s ∈ stmts, s.Holds (Expr.Sound bounded)

/-- A line is not too long, where sizes matter, and its command is sound. -/
structure SoundLine (bounded : Bool) (line : String) : Prop where
  length : Within bounded line.length
  command : ∀ command, commandOf? line = some command → SoundCommand bounded command

/-- A field of an envelope that is an object. -/
theorem sound_objectField {fields : Json.Members} (hfields : Json.SoundMembers bounded fields)
    (key : String) : Json.SoundMembers bounded (Envelope.objectField key fields) := by
  rw [Envelope.objectField]
  cases hobject : (Json.find? key fields).bind Json.asMembers? with
  | none => exact Json.soundMembers_nil
  | some members =>
    obtain ⟨j, hj, hmembers⟩ := Option.bind_eq_some_iff.mp hobject
    have hsound := hfields.find? hj
    cases j with
    | obj _ =>
      cases hmembers
      exact Json.sound_obj.mp hsound
    | _ => cases hmembers

/-- The command of an envelope. -/
theorem within_command {fields : Json.Members} (hfields : Json.SoundMembers bounded fields) :
    Within bounded (Envelope.ofMembers fields).command.length := by
  rw [Envelope.ofMembers]
  cases htext : (Json.find? "command" fields).bind Json.asText? with
  | none => exact within_of_le (Nat.zero_le _)
  | some s =>
    obtain ⟨j, hj, hs⟩ := Option.bind_eq_some_iff.mp htext
    have hsound := hfields.find? hj
    cases j with
    | str _ =>
      cases hs
      cases hsound with
      | str hlength => exact hlength
    | _ => cases hs

/-- The command in a line is not too long, and the context that the line shares is sound. -/
theorem sound_route (hline : Within bounded line.length) {note : NoteContext}
    (hnote : NoteContext.Sound bounded note) :
    Within bounded (route line note).1.length ∧ NoteContext.Sound bounded (route line note).2 := by
  have htrim : Within bounded (trim line).length := hline.mono (length_trimWhile_le isBlank line)
  rw [route]
  split_ifs
  · cases henvelope : Envelope.parse? (trim line) with
    | none => exact ⟨htrim, hnote⟩
    | some envelope =>
      obtain ⟨fields, hfields, rfl⟩ := Option.map_eq_some_iff.mp henvelope
      obtain ⟨j, hj, hmembers⟩ := Option.bind_eq_some_iff.mp hfields
      have hsound := Json.sound_of_parse htrim hj
      cases j with
      | obj _ =>
        cases hmembers
        have hmembers := Json.sound_obj.mp hsound
        exact ⟨within_command hmembers,
          ⟨sound_objectField hmembers "frontmatter", sound_objectField hmembers "context"⟩⟩
      | _ => cases hmembers
  · exact ⟨htrim, hnote⟩

theorem length_normalizeCommand {text command : String} (h : normalizeCommand text = some command) :
    command.length ≤ text.length := by
  have hdropStart (s : String) : (dropMarkStart s).length ≤ s.length := by
    rw [dropMarkStart]
    split_ifs
    · rw [String.length_ofList, List.length_drop, String.length_toList]
      exact Nat.sub_le _ _
    · exact Nat.le_refl _
  have hdropEnd (s : String) : (dropMarkEnd s).length ≤ s.length := by
    rw [dropMarkEnd]
    split_ifs
    · rw [String.length_ofList, List.length_take, String.length_toList]
      exact Nat.min_le_right _ _
    · exact Nat.le_refl _
  unfold normalizeCommand at h
  dsimp only at h
  split_ifs at h
  obtain rfl := Option.some.inj h
  calc (trim (dropMarkEnd (dropMarkStart (trim text)))).length
      ≤ (dropMarkEnd (dropMarkStart (trim text))).length := length_trimWhile_le isBlank _
    _ ≤ (dropMarkStart (trim text)).length := hdropEnd _
    _ ≤ (trim text).length := hdropStart _
    _ ≤ text.length := length_trimWhile_le isBlank text

/-- The command that a line carries is not too long, if the line is not. -/
theorem within_commandOf? (hline : Within bounded line.length) {command : String}
    (hcommand : commandOf? line = some command) : Within bounded command.length :=
  (sound_route hline sound_emptyNote).1.mono (length_normalizeCommand hcommand)

/-! ### Commands -/

theorem keeps_showValue {env : Env} (henv : env.Sound bounded) {e : Expr}
    (he : e.Holds (Expr.Sound bounded)) : (showValue env e).Keeps bounded fun _ => True := by
  refine run_keeps_iff.mpr (Run.obeys_bind (run_keeps_iff.mp (keeps_evaluate henv he))
    fun v _ => ?_)
  split_ifs
  · exact Run.obeys_pure trivial
  · have htext : Work.Obeys (soundness bounded) (fun _ => True)
        (Work.readHeap fun h => Except.ok (strValue h v)) :=
      Work.obeys_readHeap fun h _ => ensures_true
    exact Run.obeys_bind (Run.obeys_onWorld htext) fun text _ => Run.obeys_onWorld Work.obeys_onHost

theorem SoundCommand.keeps {command : String} (hcommand : SoundCommand bounded command) {env : Env}
    (henv : env.Sound bounded) : (runCommand env command).Keeps bounded fun _ => True := by
  rw [runCommand]
  cases hparse : parseExpression command with
  | ok e => exact keeps_showValue henv (hcommand.expression e hparse)
  | error _ =>
    dsimp only
    rw [runText]
    cases hprogram : parseProgram command with
    | ok stmts => exact keeps_runProgram henv (hcommand.program stmts hprogram)
    | error _ => exact run_keeps_iff.mpr Run.obeys_fail

theorem SoundCommand.reaches {command : String} (hcommand : SoundCommand bounded command)
    {env : Env} (henv : env.Sound bounded) {s : State} (hs : s.Sound bounded) {p : RunPoint}
    (hp : CommandReaches env command s p) : p.state.Sound bounded := by
  rw [CommandReaches] at hp
  cases hparse : parseExpression command with
  | ok e =>
    rw [hparse] at hp
    exact hp.sound henv (safe_evalExpr henv e (hcommand.expression e hparse)).lift hs
  | error _ =>
    rw [hparse] at hp
    obtain ⟨stmts, hprogram, hp⟩ := hp
    exact hp.sound henv (safe_execBlock henv (hcommand.program stmts hprogram)) hs

/-! ### Sessions -/

/-- What a session keeps is sound. -/
structure Session.Sound (bounded : Bool) (session : Session) : Prop where
  registry : Registry.Sound bounded session.shell.registry
  note : NoteContext.Sound bounded session.note
  heap : session.shell.heap.Sound bounded
  globals : ∀ e ∈ session.shell.globals, e.2.Sound bounded

/-- A session that has read nothing yet. -/
theorem sound_ofShell {registry : Registry} (hregistry : Registry.Sound bounded registry)
    (rounds : Nat) (host : Host) :
    (Session.ofShell (.ofRegistry registry rounds) host).Sound bounded :=
  ⟨hregistry, sound_emptyNote, sound_empty, fun _ he => absurd he List.not_mem_nil⟩

theorem sound_env {shell : Shell} {note : NoteContext}
    (hregistry : Registry.Sound bounded shell.registry) (hnote : NoteContext.Sound bounded note) :
    (shell.env note).Sound bounded :=
  ⟨hnote, hregistry⟩

namespace Session.Sound

theorem state (hs : session.Sound bounded) :
    (session.shell.state session.host).Sound bounded :=
  ⟨hs.heap, hs.globals, fun _ hframe => absurd hframe List.not_mem_nil⟩

/-- A command in a session. -/
theorem runCommand (hs : session.Sound bounded) {command : String}
    (hcommand : ∀ c, normalizeCommand command = some c → SoundCommand bounded c) :
    (Session.runCommand command session).Sound bounded := by
  delta Session.runCommand
  generalize normalizeCommand command = normal at hcommand ⊢
  obtain ⟨shell, note, host⟩ := session
  cases normal with
  | none => exact hs
  | some c =>
    have henv : (shell.env note).Sound bounded := sound_env hs.registry hs.note
    have hrun := (hcommand c rfl).keeps henv _ hs.state
    have hshell := execute_shell shell note c host
    dsimp only
    generalize shell.execute note c host = outcome at hshell ⊢
    obtain ⟨shell', host'⟩ := outcome
    obtain rfl : shell' = _ := hshell
    exact ⟨hs.registry, hs.note, hrun.1.heap, hrun.1.globals⟩

theorem handleText (hs : session.Sound bounded) (hline : SoundLine bounded line) :
    (Session.handleText line session).Sound bounded := by
  have hnote := (sound_route hline.length hs.note).2
  have hcommand := hline.command
  obtain ⟨shell, note, host⟩ := session
  rw [← route_command line note] at hcommand
  rw [Session.handleText]
  generalize route line note = routed at hnote hcommand ⊢
  obtain ⟨command, note'⟩ := routed
  have hrouted : Session.Sound bounded ⟨shell, note', host⟩ :=
    ⟨hs.registry, hnote, hs.heap, hs.globals⟩
  exact hrouted.runCommand hcommand

/-- Sessions stay sound, whatever lines they read. -/
theorem after (hs : session.Sound bounded) {lines : List String}
    (hlines : ∀ line ∈ lines, SoundLine bounded line) : (session.after lines).Sound bounded := by
  exact List.foldlRecOn lines _ hs fun session hs line hline => hs.handleText (hlines line hline)

/-- Every point of a command in a sound session is sound. -/
theorem reaches (hs : session.Sound bounded) (hline : SoundLine bounded line) {p : RunPoint}
    (hp : session.Reaches line p) : p.state.Sound bounded := by
  obtain ⟨command, hcommand, hp⟩ := hp
  have henv := sound_env hs.registry (sound_route hline.length hs.note).2
  exact (hline.command command hcommand).reaches henv hs.state hp

end Session.Sound

end NoteShell
