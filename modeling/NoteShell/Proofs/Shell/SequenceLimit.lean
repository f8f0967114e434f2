import NoteShell.Proofs.Shell.Sessions
import NoteShell.Shell.Startup

/-!
# How long texts and lists get

A text or list may have 4194304 items at most. The operators check this before they make anything,
and so do the methods and functions that make longer texts and lists from shorter ones. A session
keeps to the limit as long as its commands use nothing else. But a formatted text is as long as its
fields together, and its length is not checked; neither is that of the texts and lists that a few
functions and methods make.

## Main definitions

* `OperatorsCheck` : what operators do instead of making something too long.
* `State.Limited` : all texts and lists in a state keep to the limit.
* `ChecksSizes` : lines whose commands use only what checks sizes.

## Main results

* `operatorsCheck` : operators fail rather than make something too long.
* `limited_of_checksSizes` : at every point of such a session everything keeps to the limit.
* `formattedText_tooLong` : a formatted text that does not.
-/

namespace NoteShell

open NoteShell.Grammar NoteShell.Script NoteShell.Text

/-! ### Operators -/

theorem checkLength_tooLong {length : Nat} (hlength : maxSequence < length) :
    checkLength length = .error (.overflow .sequence) := if_pos hlength

/-- Sums and products of texts and lists that would be too long fail. -/
structure OperatorsCheck (h : Heap) : Prop where
  textSum : ∀ a b : String, maxSequence < a.length + b.length →
    binary .add (.str a) (.str b) h = (.error (.error (.overflow .sequence)), h)
  listSum : ∀ r r' : ListRef, maxSequence < (h.items r).size + (h.items r').size →
    binary .add (.list r) (.list r') h = (.error (.error (.overflow .sequence)), h)
  textProduct : ∀ (a : String) (n : Int64), maxSequence < a.length * n.toInt.toNat →
    binary .mul (.str a) (.int n) h = (.error (.error (.overflow .sequence)), h)
  listProduct : ∀ (r : ListRef) (n : Int64), maxSequence < (h.items r).size * n.toInt.toNat →
    binary .mul (.list r) (.int n) h = (.error (.error (.overflow .sequence)), h)

theorem operatorsCheck (h : Heap) : OperatorsCheck h := by
  have hcheck {n : Nat} (hn : maxSequence < n) (next : HeapOp) :
      (liftM (checkLength n) >>= fun _ => next : HeapOp) h =
        (.error (.error (.overflow .sequence)), h) := by
    rw [HeapM.check_bind, checkLength_tooLong hn]
  have hrepeat (i : Int64) {n : Nat} (hn : maxSequence < n * i.toInt.toNat) :
      repeatCount i n = .error (.overflow .sequence) := by
    rw [repeatCount, checkLength_tooLong hn]
    rfl
  constructor
  case textSum =>
    intro a b hlong
    have ha := length_le_utf8ByteSize a
    have hb := length_le_utf8ByteSize b
    exact hcheck (by omega) _
  case listSum => exact fun r r' hlong => hcheck hlong _
  case textProduct =>
    intro a n hlong
    have hle := Nat.mul_le_mul_right n.toInt.toNat (length_le_utf8ByteSize a)
    have htext : repeatedText a n = .error (.overflow .sequence) := by
      rw [repeatedText, hrepeat n (Nat.lt_of_lt_of_le hlong hle)]
      rfl
    change (liftM (repeatedText a n) : HeapOp) h = _
    rw [HeapM.result_apply, htext]
    rfl
  case listProduct =>
    intro r n hlong
    change (liftM (repeatCount n (h.items r).size) >>= fun _ => _ : HeapOp) h = _
    rw [HeapM.check_bind, hrepeat n hlong]

/-! ### States -/

/-- All texts and lists in a state keep to the limit. -/
structure State.Limited (s : State) : Prop where
  lists : ∀ items ∈ s.heap.lists, items.size ≤ maxSequence ∧ ∀ v ∈ items, v.Limited
  dicts : ∀ es ∈ s.heap.dicts, ∀ e ∈ es, e.1.length ≤ maxSequence ∧ e.2.Limited
  defaults : ∀ f ∈ s.heap.functions, ∀ p ∈ f.params, ∀ v ∈ p.2, v.Limited
  globals : ∀ e ∈ s.globals, e.2.Limited
  locals : ∀ frame ∈ s.frames, ∀ e ∈ frame.locals, e.2.Limited

theorem limited_of_sound {s : State} (hs : s.Sound true) : State.Limited s where
  lists items hitems :=
    have hsound := hs.heap.lists items hitems
    ⟨hsound.size rfl, fun v hv => (hsound.values v hv rfl).1⟩
  dicts es hes e he :=
    have hsound := (hs.heap.dicts es hes).entries e he
    ⟨hsound.1 rfl, (hsound.2 rfl).1⟩
  defaults f hf p hp v hv := ((hs.heap.functions f hf).defaults p hp v hv rfl).1
  globals e he := (hs.globals e he rfl).1
  locals frame hframe e he := (hs.locals frame hframe e he rfl).1

/-! ### Sessions -/

/-- A line that is not too long, whose command makes no text or list without checking its size. -/
structure ChecksSizes (line : String) : Prop where
  length : line.length ≤ maxSequence
  expression : ∀ command e, commandOf? line = some command → parseExpression command = .ok e →
    e.Holds Expr.ChecksSize
  program : ∀ command stmts, commandOf? line = some command → parseProgram command = .ok stmts →
    ∀ s ∈ stmts, s.Holds Expr.ChecksSize

/-- Texts and lists that are written down keep to the limit, since the line does. -/
theorem ChecksSizes.sound {line : String} (h : ChecksSizes line) : SoundLine true line := by
  refine ⟨within_of_le h.length, fun command hcommand => ?_⟩
  have hlength := within_commandOf? (within_of_le h.length) hcommand rfl
  obtain ⟨hexpression, hprogram⟩ := fits_of_parse command
  constructor
  · exact fun e he g hg _ =>
      ⟨h.expression command e hcommand he g hg, (hexpression e he g hg).mono hlength⟩
  · exact fun stmts hstmts s hs g hg _ =>
      ⟨h.program command stmts hcommand hstmts s hs g hg,
        (hprogram stmts hstmts s hs g hg).mono hlength⟩

/-- The skills of the program are few, and their names are short. -/
theorem soundRegistry_skillModules (settings : Chat.Settings) (dataDir : String)
    (transport : Chat.Transport) (address : Picture → String) :
    Registry.Sound true (.ofModules (skillModules settings dataDir transport address)) := by
  have hnames : (Registry.ofModules (skillModules settings dataDir transport address)).names =
      ["chat", "chat4", "chat5", "clean_chat", "chat_key", "plot", "csv_table", "excel_table"] := by
    unfold skillModules chatModuleOf
    dsimp only
    split <;> rfl
  constructor
  · rw [availableObjects, hnames]
    exact within_of_le (by decide)
  · rw [availableObjects, hnames]
    intro name hname
    exact within_of_le (by revert name; decide)

/-- While the commands of a session check the sizes of what they make, every text and list that it
keeps from one command to the next has at most 4194304 items, and so has every one in the state at
any point of a command. From there no expression that checks sizes gives a longer text, and the
operators fail where they would make one. -/
theorem limited_of_checksSizes {registry : Registry} (hregistry : Registry.Sound true registry)
    (rounds : Nat) (host : Host) {lines : List String} (hlines : ∀ line ∈ lines, ChecksSizes line) :
    let session := (Session.ofShell (.ofRegistry registry rounds) host).after lines
    State.Limited (session.shell.state session.host) ∧
    (∀ line p, ChecksSizes line → session.Reaches line p → State.Limited p.state ∧
      ∀ e : Expr, e.Holds Expr.ChecksSize → e.Holds (Expr.Fits maxSequence) →
        ∀ v t, (evalExpr (session.shell.env (route line session.note).2) e).run
          (session.shell.env (route line session.note).2)
          (callFunction (session.shell.env (route line session.note).2) p.depth) p.state =
            (.ok v, t) → v.Limited ∧ State.Limited t) ∧
    ∀ h : Heap, OperatorsCheck h := by
  have hs : ((Session.ofShell (.ofRegistry registry rounds) host).after lines).Sound true :=
    (sound_ofShell hregistry rounds host).after fun line hline => (hlines line hline).sound
  dsimp only
  generalize (Session.ofShell (.ofRegistry registry rounds) host).after lines = session at hs ⊢
  refine ⟨limited_of_sound hs.state, fun line p hline hp => ?_, operatorsCheck⟩
  have hp := hs.reaches hline.sound hp
  have henv := sound_env hs.registry (sound_route hline.sound.length hs.note).2
  generalize session.shell.env (route line session.note).2 = env at henv ⊢
  refine ⟨limited_of_sound hp, fun e hchecks hfits v t hrun => ?_⟩
  have hsafe := safe_evalExpr henv e fun g hg _ => ⟨hchecks g hg, hfits g hg⟩
  have hkeeps := hsafe.run henv (keeps_callFunction henv p.depth)
  obtain ⟨ht, hv⟩ := hkeeps.of_eq hp hrun
  exact ⟨(hv v rfl rfl).1, limited_of_sound ht⟩

/-! ### A formatted text that is too long -/

/-- A command that makes the longest text there may be. -/
def longLine : String := "s = 'a' * 4194304"

/-- A command that asks for the length of a formatted text. -/
def formattedLine : String := "len(f'\x7bs\x7d\x7bs\x7d')"

/-- What `longLine` multiplies. -/
def longProduct : Expr := .binary .mul (.str "a") (.int 4194304)

/-- The formatted text in `formattedLine`. -/
def twoFields : Expr := .formatted [.field (.name "s") false none, .field (.name "s") false none]

/-- The parts of a program of the form of `longLine`. -/
def productParts? : Except SourceError (List Stmt) → Option (String × String × Int64)
  | .ok [.assign [.name x] (.binary .mul (.str a) (.int n))] => some (x, a, n)
  | _ => none

/-- `longLine` is a command, and it is a program but no expression. -/
theorem longLine_parses :
    commandOf? longLine = some longLine ∧
      productParts? (parseProgram longLine) = some ("s", "a", 4194304) ∧
      (parseExpression longLine).toOption.isNone = true := by
  decide +kernel

theorem parseProgram_longLine : parseProgram longLine = .ok [.assign [.name "s"] longProduct] := by
  have hparts := longLine_parses.2.1
  generalize parseProgram longLine = result at hparts ⊢
  unfold productParts? at hparts
  split at hparts <;> cases hparts
  rfl

theorem parseExpression_longLine (e : Expr) : parseExpression longLine ≠ .ok e := by
  have herror := longLine_parses.2.2
  intro he
  rw [he] at herror
  cases herror

/-- The names in an expression of the form of `formattedLine`. -/
def fieldNames? : Except SourceError Expr → Option (List String)
  | .ok (.call (.name f) [.formatted [.field (.name x) false none, .field (.name y) false none]] []) =>
    some [f, x, y]
  | _ => none

theorem parseExpression_formattedLine :
    parseExpression formattedLine = .ok (.call (.name "len") [twoFields] []) := by
  have hnames : fieldNames? (parseExpression formattedLine) = some ["len", "s", "s"] := by
    decide +kernel
  generalize parseExpression formattedLine = result at hnames ⊢
  unfold fieldNames? at hnames
  split at hnames <;> cases hnames
  rfl

/-- The product is as long as a text may be. -/
theorem binary_longProduct (h : Heap) : ∃ text : String, text.length = maxSequence ∧
    binary .mul (.str "a") (.int 4194304) h = (.ok (.str text), h) := by
  have hcount : repeatCount 4194304 "a".utf8ByteSize = .ok 4194304 := rfl
  have hempty : ¬ "a".isEmpty = true := by decide
  refine ⟨repeatText "a" 4194304 "", ?_, ?_⟩
  · rw [length_repeatText]
    decide
  · have hrepeated : repeatedText "a" 4194304 = .ok (.str (repeatText "a" 4194304 "")) := by
      simp only [repeatedText, hcount, if_neg hempty]
      rfl
    change (liftM (repeatedText "a" 4194304) : HeapOp) h = _
    rw [HeapM.result_apply, hrepeated]
    rfl

variable {env : Env} {call : Caller}

theorem run_longProduct (s : State) : ∃ text : String, text.length = maxSequence ∧
    (evalExpr env longProduct).run env call s = (.ok (.str text), s) := by
  obtain ⟨text, hlength, hop⟩ := binary_longProduct s.heap
  refine ⟨text, hlength, ?_⟩
  rw [longProduct, evalExpr, evalExpr, evalExpr]
  refine (congrFun (Evaluation.run_lift _) s).trans ?_
  rw [Run.onHeap_apply, hop]

/-- In an empty session the text is bound to a name. -/
theorem runCommand_longLine (host : Host) : ∃ text : String, text.length = maxSequence ∧
    (runCommand env longLine ⟨[], [], .empty, host⟩).2 =
      ⟨[("s", .str text)], [], .empty, host⟩ := by
  obtain ⟨text, hlength, hproduct⟩ :=
    @run_longProduct env (callHere env ⟨[], [], .empty, host⟩) ⟨[], [], .empty, host⟩
  refine ⟨text, hlength, ?_⟩
  have hstmt : (execStmt env (.assign [.name "s"] longProduct)).run env
      (callHere env ⟨[], [], .empty, host⟩) ⟨[], [], .empty, host⟩ =
        (.ok .normal, ⟨[("s", .str text)], [], .empty, host⟩) := by
    rw [execStmt, Execution.run_bind, Execution.run_lift, Run.bind_of_ok hproduct]
    rfl
  have hcommand : runCommand env longLine =
      runProgram env [.assign [.name "s"] longProduct] := by
    rw [runCommand]
    cases hparse : parseExpression longLine with
    | ok e => exact absurd hparse (parseExpression_longLine e)
    | error _ =>
      dsimp only
      rw [runText, parseProgram_longLine]
  rw [hcommand, runProgram_state, execBlock, Execution.run_bind, Run.bind_of_ok hstmt]
  rfl

theorem evaluate_twoFields (text : String) (heap : Heap) (host : Host) :
    evaluate env twoFields ⟨[("s", .str text)], [], heap, host⟩ =
      (.ok (.str ("" ++ text ++ text)), ⟨[("s", .str text)], [], heap, host⟩) := rfl

theorem evaluate_length (text : String) (heap : Heap) (host : Host) :
    evaluate env (.call (.name "len") [twoFields] []) ⟨[("s", .str text)], [], heap, host⟩ =
      (.ok (.int (Int64.ofNat ("" ++ text ++ text).length)),
        ⟨[("s", .str text)], [], heap, host⟩) := rfl

/-- A session that has run `longLine` has the longest text there may be. -/
theorem shell_longLine (host : Host) : ∃ text : String, text.length = maxSequence ∧
    ∃ session, session = (Session.ofShell (.ofRegistry (.empty coreNames) 1) host).after
      [longLine] ∧
      session.shell.globals = [("s", .str text)] := by
  have hshell := Session.shell_handleText
    (Session.ofShell (.ofRegistry (.empty coreNames) 1) host) longLine_parses.1
  have hstate : (Session.ofShell (.ofRegistry (.empty coreNames) 1) host).shell.state
      (Session.ofShell (.ofRegistry (.empty coreNames) 1) host).host = ⟨[], [], .empty, host⟩ := rfl
  rw [execute_shell, hstate] at hshell
  generalize Shell.env _ _ = env at hshell
  obtain ⟨text, hlength, hrun⟩ := @runCommand_longLine env host
  rw [hrun, ← Session.after_singleton] at hshell
  exact ⟨text, hlength, _, rfl, congrArg Shell.globals hshell⟩

theorem checksSizes_longLine : ChecksSizes longLine := by
  have hproduct : longProduct.Holds Expr.ChecksSize := by
    refine Expr.holds_iff.mpr ⟨trivial, fun c hc => ?_⟩
    rcases List.mem_cons.mp hc with rfl | hc
    · exact Expr.holds_of_leaf trivial rfl
    · obtain rfl := List.mem_singleton.mp hc
      exact Expr.holds_of_leaf trivial rfl
  refine ⟨by decide, fun command e hc he => ?_, fun command stmts hc hstmts s hs => ?_⟩
  · obtain rfl := Option.some.inj (longLine_parses.1.symm.trans hc)
    exact absurd he (parseExpression_longLine e)
  · obtain rfl := Option.some.inj (longLine_parses.1.symm.trans hc)
    obtain rfl := Except.ok.inj (parseProgram_longLine.symm.trans hstmts)
    obtain rfl := List.mem_singleton.mp hs
    refine Stmt.holds_iff.mpr ⟨fun e he => ?_, fun _ ht => absurd ht List.not_mem_nil⟩
    obtain rfl := List.mem_singleton.mp he
    exact hproduct

/-- The longest text there may be, in the state in which `longLine` is run once more. -/
theorem limited_of_checksSizes_longLine :
    ∃ session,
      session = (Session.ofShell (.ofRegistry (.empty coreNames) 1) (.ofFiles .empty)).after [longLine] ∧
      State.Limited (session.shell.state session.host) ∧
      ∃ p text, session.Reaches longLine p ∧ State.Limited p.state ∧ text.length = maxSequence ∧
        (evalExpr (session.shell.env (route longLine session.note).2) (.name "s")).run
          (session.shell.env (route longLine session.note).2)
          (callFunction (session.shell.env (route longLine session.note).2) p.depth) p.state =
            (.ok (.str text), p.state) ∧ (Value.str text).Limited := by
  have hregistry : Registry.Sound true (.empty coreNames) :=
    ⟨within_of_le (by decide), fun name hname => within_of_le (by revert name; decide)⟩
  have hlines : ∀ line ∈ [longLine], ChecksSizes line :=
    List.forall_mem_singleton.mpr checksSizes_longLine
  obtain ⟨hstate, hpoints, -⟩ := limited_of_checksSizes hregistry 1 (.ofFiles .empty) hlines
  obtain ⟨text, hlength, session, hsession, hglobals⟩ := shell_longLine (.ofFiles .empty)
  rw [← hsession] at hstate hpoints
  have hreaches : session.Reaches longLine
      ⟨maxCallDepth, none, none, session.shell.state session.host⟩ := by
    refine ⟨longLine, longLine_parses.1, ?_⟩
    rw [CommandReaches]
    cases hparse : parseExpression longLine with
    | ok e => exact absurd hparse (parseExpression_longLine e)
    | error _ => exact ⟨_, parseProgram_longLine, .here _ _⟩
  obtain ⟨hpoint, hvalues⟩ := hpoints longLine _ checksSizes_longLine hreaches
  have hchecks : (Expr.name "s").Holds Expr.ChecksSize := by
    refine Expr.holds_of_leaf (fun b hb => ?_) rfl
    have hbuiltin : Builtin.ofName? "s" = none := by decide
    rw [hbuiltin] at hb
    cases hb
  have hfits : (Expr.name "s").Holds (Expr.Fits maxSequence) := Expr.holds_of_leaf trivial rfl
  have hname (env : Env) (call : Caller) : (evalExpr env (.name "s")).run env call
      (session.shell.state session.host) = (.ok (.str text), session.shell.state session.host) := by
    rw [Shell.state, hglobals]
    rfl
  exact ⟨session, hsession, hstate, _, text, hreaches, hpoint, hlength, hname _ _,
    (hvalues (.name "s") hchecks hfits _ _ (hname _ _)).1⟩

/-- Two short commands make a text that is too long: the formatted text in the second one, which has
8388608 characters and of which the command shows the length. -/
theorem formattedText_tooLong :
    longLine.length ≤ maxSequence ∧ formattedLine.length ≤ maxSequence ∧
    commandOf? formattedLine = some formattedLine ∧
    parseExpression formattedLine = .ok (.call (.name "len") [twoFields] []) ∧
    ∃ session,
      session = (Session.ofShell (.ofRegistry (.empty coreNames) 1) (.ofFiles .empty)).after [longLine] ∧
      (∃ text, evaluate (session.shell.env (route formattedLine session.note).2) twoFields
        (session.shell.state session.host) = (.ok (.str text), session.shell.state session.host) ∧
        text.length = 8388608 ∧ maxSequence < text.length) ∧
      evaluate (session.shell.env (route formattedLine session.note).2)
        (.call (.name "len") [twoFields] []) (session.shell.state session.host) =
          (.ok (.int 8388608), session.shell.state session.host) := by
  obtain ⟨text, hlength, session, hsession, hglobals⟩ := shell_longLine (.ofFiles .empty)
  refine ⟨by decide, by decide, by decide +kernel, parseExpression_formattedLine,
    session, hsession, ?_⟩
  have hdouble : ("" ++ text ++ text).length = 8388608 := by
    rw [String.length_append, String.length_append, hlength]
    rfl
  generalize session.shell.env (route formattedLine session.note).2 = env
  rw [Shell.state, hglobals]
  refine ⟨⟨_, evaluate_twoFields text _ _, hdouble, ?_⟩, ?_⟩
  · rw [hdouble]
    decide
  · rw [evaluate_length, hdouble]
    rfl

end NoteShell
