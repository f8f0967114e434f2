import NoteShell.Chat.Skills
import NoteShell.Proofs.Chat.Histories

/-!
# Prompts that are sent again

A prompt whose request is refused as too large is sent again without the oldest exchange of its
history, as often as there is something left to drop. The requests of a turn follow from the history
at its start and from the answers: each one has two messages less than the one before it. What was
dropped stays dropped, also where the last request fails.

## Main definitions

* `Turn` : a turn of a conversation.
* `Turn.IsRefused` : a request of a turn is refused as too large, with a history that can be
  shortened.
* `Turn.Sends` : how a turn comes to send one more request.
* `Turn.EndsAfter` : what a turn with a history leaves.

## Main results

* `loadHistory_saveHistory` : a history that is saved is loaded again.
* `Turn.Sends.kept` : what holds whenever a request is sent.
* `Turn.Sends.sendUntilFit_eq` : every turn comes to a request that is not refused.
* `action_endsAfter` : the requests of a turn, its reply and the history that it leaves.
-/

namespace NoteShell.Chat

/-! ### Histories that are saved -/

variable {files : Files} {dir : String} {id : Option String}

/-- Where a history could be saved, it is loaded again, and others can be saved. -/
theorem loadHistory_saveHistory
    (hwrites : ((files.makeDirectories dir).target? (historyPath dir id)).isSome = true)
    (messages : List Message) :
    loadHistory (saveHistory files dir id messages) dir id = messages ∧
      (((saveHistory files dir id messages).makeDirectories dir).target?
        (historyPath dir id)).isSome = true := by
  obtain ⟨place, htarget⟩ := Option.isSome_iff_exists.mp hwrites
  obtain ⟨hcontent, -, hdirectories⟩ :=
    Files.write_of_target htarget (.bytes (Text.encodeUtf8 (textOfMessages messages)))
  have htarget' := Files.target?_of_directories_eq hdirectories htarget
  rw [saveHistory, Files.makeDirectories_write files _ htarget, htarget']
  refine ⟨?_, rfl⟩
  have htext : Files.textOf (.bytes (Text.encodeUtf8 (textOfMessages messages))) =
      .ok (textOfMessages messages) := by
    rw [Files.textOf, Text.decodeUtf8_encodeUtf8]
  rw [loadHistory, Files.readText?, Files.readText, Files.read, Files.locate_of_target htarget']
  dsimp only
  rw [hcontent]
  simp only [Except.bind, htext, Except.toOption, messagesOfText_textOfMessages]

/-! ### Turns -/

/-- As long as there is a history, its two oldest messages can be dropped, or its only one. -/
theorem shorterHistories_of_ne_nil {history : List Message} (hhistory : history ≠ []) :
    shorterHistories history = history.drop 2 :: shorterHistories (history.drop 2) := by
  match history with
  | [] => exact absurd rfl hhistory
  | [_] => rfl
  | _ :: _ :: _ => rfl

/-- A turn of a conversation: a prompt and the key with which it is sent, and the host at that
time. -/
structure Turn where
  service : Service
  key : String
  prompt : Prompt
  host : Host

namespace Turn

variable (turn : Turn)

/-- The context id of the prompt. -/
def id? : Option String := contextId? turn.prompt.text

/-- The history of the conversation in some files. -/
def historyOf (files : Files) : List Message := loadHistory files turn.service.memoryDir turn.id?

/-- The history of the conversation before the turn. -/
def history : List Message := turn.historyOf turn.host.files

/-- The request that sends the prompt after some history. -/
def requestWith (history : List Message) : ChatRequest :=
  ⟨turn.prompt.model, turn.key,
    systemMessages turn.prompt ++ turn.service.noteMessages turn.host.files turn.id? ++ history ++
      [⟨.user, turn.prompt.text⟩]⟩

/-- The request with the number `k`: the history in it lacks its first `2 * k` messages. -/
def requestAt (k : Nat) : ChatRequest := turn.requestWith (turn.history.drop (2 * k))

/-- All requests before the one with the number `k`. -/
def requestsBefore (k : Nat) : List ChatRequest :=
  turn.host.requests ++ (List.range k).map turn.requestAt

/-- The answer to the request with the number `k`. -/
def answerAt (k : Nat) : Except ProviderError (Option String) :=
  turn.service.provider (turn.requestsBefore k) (turn.requestAt k)

/-- The request with the number `k` is refused as too large, although there is history to drop. -/
def IsRefused (k : Nat) : Prop :=
  (∃ e, turn.answerAt k = .error e ∧ e.isTooLarge = true) ∧ turn.history.drop (2 * k) ≠ []

/-- A turn has come to the request with the number `k`, which is sent from the host `h`. -/
inductive Sends : (k : Nat) → (h : Host) → Prop
  | first : Sends 0 turn.host
  | again {k : Nat} {h : Host} (hsends : Sends k h) (hrefused : turn.IsRefused k) :
    Sends (k + 1) (turn.service.save turn.id? (turn.history.drop (2 * (k + 1)))
      { h with requests := h.requests ++ [turn.requestAt k] })

variable {turn} {k : Nat} {h : Host}

theorem requestsBefore_succ (turn : Turn) (k : Nat) :
    turn.requestsBefore (k + 1) = turn.requestsBefore k ++ [turn.requestAt k] := by
  rw [requestsBefore, requestsBefore, List.range_succ, List.map_append, List.append_assoc]
  rfl

namespace Sends

/-- The requests before one that is sent were all refused, and nothing is written meanwhile. -/
theorem before (hsends : turn.Sends k h) :
    h.requests = turn.requestsBefore k ∧ h.output = turn.host.output ∧
      ∀ j < k, turn.IsRefused j := by
  induction hsends with
  | first => exact ⟨(List.append_nil _).symm, rfl, nofun⟩
  | @again k h hsends hrefused ih =>
    obtain ⟨hrequests, houtput, hbefore⟩ := ih
    refine ⟨?_, houtput, fun j hj => ?_⟩
    · rw [requestsBefore_succ, ← hrequests]
      rfl
    · rcases Nat.lt_succ_iff_lt_or_eq.mp hj with hj | rfl
      · exact hbefore j hj
      · exact hrefused

/-- Every request that is sent again leaves two messages less, or one if there is no more. -/
theorem le_length (hsends : turn.Sends k h) : k ≤ (turn.history.length + 1) / 2 := by
  cases hsends with
  | first => exact Nat.zero_le _
  | @again k h hsends hrefused =>
    have hlt : 2 * k < turn.history.length := by
      by_contra hle
      exact hrefused.2 (List.drop_eq_nil_of_le (Nat.le_of_not_lt hle))
    omega

/-- Where histories can be saved, the one that is left is the one that is sent. -/
theorem kept (hsends : turn.Sends k h)
    (hwrites : ((turn.host.files.makeDirectories turn.service.memoryDir).target?
      (historyPath turn.service.memoryDir turn.id?)).isSome = true) :
    turn.historyOf h.files = turn.history.drop (2 * k) ∧
      ((h.files.makeDirectories turn.service.memoryDir).target?
        (historyPath turn.service.memoryDir turn.id?)).isSome = true := by
  induction hsends with
  | first => exact ⟨rfl, hwrites⟩
  | again hsends hrefused ih => exact loadHistory_saveHistory ih.2 _

/-- A request is answered by the provider after those before it. -/
theorem send_eq (hsends : turn.Sends k h) :
    turn.service.send (turn.requestWith (turn.history.drop (2 * k))) h =
      (turn.answerAt k, { h with requests := h.requests ++ [turn.requestAt k] }) := by
  rw [Service.send, hsends.before.1]
  rfl

/-- A request that is refused is followed by the next one, with a shorter history. -/
theorem sendUntilFit_of_isRefused (hsends : turn.Sends k h) (hrefused : turn.IsRefused k) :
    turn.service.sendUntilFit turn.requestWith turn.id? (turn.history.drop (2 * k))
        (shorterHistories (turn.history.drop (2 * k))) h =
      turn.service.sendUntilFit turn.requestWith turn.id? (turn.history.drop (2 * (k + 1)))
        (shorterHistories (turn.history.drop (2 * (k + 1))))
        (turn.service.save turn.id? (turn.history.drop (2 * (k + 1)))
          { h with requests := h.requests ++ [turn.requestAt k] }) := by
  obtain ⟨⟨e, hanswer, hlarge⟩, hleft⟩ := hrefused
  have hdrop : turn.history.drop (2 * (k + 1)) = (turn.history.drop (2 * k)).drop 2 := by
    rw [List.drop_drop, Nat.mul_succ]
  rw [shorterHistories_of_ne_nil hleft, ← hdrop, Service.sendUntilFit, hsends.send_eq, hanswer]
  exact if_pos hlarge

/-- A request that is not refused is the last one. -/
theorem sendUntilFit_of_not_isRefused (hsends : turn.Sends k h) (hlast : ¬ turn.IsRefused k) :
    turn.service.sendUntilFit turn.requestWith turn.id? (turn.history.drop (2 * k))
        (shorterHistories (turn.history.drop (2 * k))) h =
      ((turn.answerAt k).map fun content => (content.getD "", turn.history.drop (2 * k)),
        { h with requests := h.requests ++ [turn.requestAt k] }) := by
  rw [Service.sendUntilFit.eq_def, hsends.send_eq]
  cases hanswer : turn.answerAt k with
  | ok content => rfl
  | error e =>
    dsimp only
    split
    · rfl
    · next hshorter =>
      have hleft : turn.history.drop (2 * k) ≠ [] := fun hnil => by
        rw [hnil] at hshorter
        cases hshorter
      rw [if_neg fun hlarge => hlast ⟨⟨e, hanswer, hlarge⟩, hleft⟩]
      rfl

/-- A turn comes to a request that is not refused, and ends with it. -/
theorem sendUntilFit_eq (hsends : turn.Sends k h) :
    ∃ last h', turn.Sends last h' ∧ ¬ turn.IsRefused last ∧
      turn.service.sendUntilFit turn.requestWith turn.id? (turn.history.drop (2 * k))
          (shorterHistories (turn.history.drop (2 * k))) h =
        ((turn.answerAt last).map fun content => (content.getD "", turn.history.drop (2 * last)),
          { h' with requests := h'.requests ++ [turn.requestAt last] }) := by
  induction hrest : turn.history.length + 1 - 2 * k using Nat.strong_induction_on
    generalizing k h with
  | _ rest ih =>
    by_cases hrefused : turn.IsRefused k
    · have hlonger := (hsends.again hrefused).le_length
      rw [hsends.sendUntilFit_of_isRefused hrefused]
      exact ih _ (by omega) (hsends.again hrefused) rfl
    · exact ⟨k, h, hsends, hrefused, hsends.sendUntilFit_of_not_isRefused hrefused⟩

end Sends

variable (turn) in
/-- What a turn with a history leaves, as its result and its host, where the request with the number
`last` was the last one. -/
structure EndsAfter (last : Nat) (result : Except SkillError Unit × Host) : Prop where
  /-- The prompt was sent with the whole history, and then with less and less of it. -/
  requests : result.2.requests = turn.host.requests ++ (List.range (last + 1)).map turn.requestAt
  /-- After exactly the requests that were refused there was a further one. -/
  further : ∀ k ≤ last, k < last ↔ turn.IsRefused k
  few : last ≤ (turn.history.length + 1) / 2
  /-- A reply is written, and becomes part of the history that was sent. -/
  reply : ∀ content, turn.answerAt last = .ok content →
    result.1 = .ok () ∧
      result.2.output = turn.host.output ++ emitted (content.getD "" ++ "\n") ∧
      turn.historyOf result.2.files = turn.history.drop (2 * last) ++
        [⟨.user, turn.prompt.text⟩, ⟨.assistant, content.getD ""⟩]
  /-- After a failure nothing is written, and the history that was sent is left. -/
  failure : ∀ e, turn.answerAt last = .error e →
    result.1 = .error (.failed e.message) ∧ result.2.output = turn.host.output ∧
      turn.historyOf result.2.files = turn.history.drop (2 * last) ∧
      (last = 0 → result.2.files = turn.host.files)

variable (turn) in
/-- What a turn without a history leaves, as its result and its host. -/
structure EndsAtOnce (result : Except SkillError Unit × Host) : Prop where
  requests : result.2.requests = turn.host.requests ++ [turn.requestWith []]
  files : result.2.files = turn.host.files
  reply : ∀ content, turn.service.provider turn.host.requests (turn.requestWith []) = .ok content →
    result.1 = .ok () ∧ result.2.output = turn.host.output ++ emitted (content.getD "" ++ "\n")
  failure : ∀ e, turn.service.provider turn.host.requests (turn.requestWith []) = .error e →
    result.1 = .error (.failed e.message) ∧ result.2.output = turn.host.output

theorem converse_of_keepsHistory (hkeeps : turn.prompt.keepsHistory = true) :
    turn.service.converse turn.key turn.prompt turn.host =
      match turn.service.sendUntilFit turn.requestWith turn.id? (turn.history.drop (2 * 0))
        (shorterHistories (turn.history.drop (2 * 0))) turn.host with
      | (.ok (reply, history), host) =>
        (.ok reply, turn.service.save turn.id?
          (history ++ [⟨.user, turn.prompt.text⟩, ⟨.assistant, reply⟩]) host)
      | (.error e, host) => (.error e, host) := by
  rw [Service.converse, if_pos hkeeps]
  rfl

/-- A turn that keeps the history ends with the first request that is not refused. -/
theorem answer_of_keepsHistory (hkeeps : turn.prompt.keepsHistory = true)
    (hkey : turn.service.key? turn.host = some turn.key)
    (hwrites : ((turn.host.files.makeDirectories turn.service.memoryDir).target?
      (historyPath turn.service.memoryDir turn.id?)).isSome = true) :
    ∃ last, turn.EndsAfter last (turn.service.answer turn.prompt turn.host) := by
  have hstart : turn.Sends 0 turn.host := .first
  obtain ⟨last, h, hsends, hlast, hrun⟩ := hstart.sendUntilFit_eq
  obtain ⟨hrequests, houtput, hbefore⟩ := hsends.before
  obtain ⟨hhistory, hwrites⟩ := hsends.kept hwrites
  have hsent : h.requests ++ [turn.requestAt last] =
      turn.host.requests ++ (List.range (last + 1)).map turn.requestAt := by
    rw [hrequests, ← requestsBefore_succ, requestsBefore]
  have hfurther : ∀ k ≤ last, k < last ↔ turn.IsRefused k := fun k hk =>
    ⟨hbefore k, fun hrefused => Nat.lt_of_le_of_ne hk fun hkl => hlast (hkl ▸ hrefused)⟩
  have hfirst : last = 0 → h.files = turn.host.files := by
    rintro rfl
    cases hsends
    rfl
  refine ⟨last, ?_⟩
  rw [Service.answer, hkey]
  dsimp only
  rw [converse_of_keepsHistory hkeeps, hrun]
  cases hanswer : turn.answerAt last with
  | ok content =>
    refine ⟨hsent, hfurther, hsends.le_length, fun content' hcontent => ?_,
      fun e he => nomatch hanswer.symm.trans he⟩
    cases hanswer.symm.trans hcontent
    exact ⟨rfl, congrArg (· ++ _) houtput, (loadHistory_saveHistory hwrites _).1⟩
  | error e =>
    refine ⟨hsent, hfurther, hsends.le_length,
      fun content hcontent => (nomatch hanswer.symm.trans hcontent), fun e' he => ?_⟩
    cases hanswer.symm.trans he
    exact ⟨rfl, houtput, hhistory, hfirst⟩

theorem converse_of_not_keepsHistory (hkeeps : turn.prompt.keepsHistory = false) :
    turn.service.converse turn.key turn.prompt turn.host =
      match turn.service.sendUntilFit turn.requestWith turn.id? [] [] turn.host with
      | (.ok (reply, _), host) => (.ok reply, host)
      | (.error e, host) => (.error e, host) := by
  rw [Service.converse, if_neg (hkeeps ▸ Bool.false_ne_true)]
  rfl

/-- A turn that does not keep the history ends with its only request. -/
theorem answer_of_not_keepsHistory (hkeeps : turn.prompt.keepsHistory = false)
    (hkey : turn.service.key? turn.host = some turn.key) :
    turn.EndsAtOnce (turn.service.answer turn.prompt turn.host) := by
  rw [Service.answer, hkey]
  dsimp only
  rw [converse_of_not_keepsHistory hkeeps, Service.sendUntilFit, Service.send]
  cases hanswer : turn.service.provider turn.host.requests (turn.requestWith []) with
  | ok content =>
    refine ⟨rfl, rfl, fun content' hcontent => ?_, fun e he => nomatch hanswer.symm.trans he⟩
    cases hanswer.symm.trans hcontent
    exact ⟨rfl, rfl⟩
  | error e =>
    refine ⟨rfl, rfl, fun content hcontent =>
      (nomatch hanswer.symm.trans hcontent), fun e' he => ?_⟩
    cases hanswer.symm.trans he
    exact ⟨rfl, rfl⟩

end Turn

/-- With a key, and where the history can be saved, a turn that keeps the history sends the prompt
with the whole history, and after every refusal with two messages less of it, as long as there are
any. A reply to one of the requests is written and saved with the prompt after what that request
sent of the history, and after any other failure just that is left of the history. A turn that does
not keep the history sends one request without it and changes no file. -/
theorem action_endsAfter {turn : Turn} {name : String} {pinned : Option String} {call : SkillCall}
    (hprompt : promptOf name pinned turn.service.settings.model call.args = .ok turn.prompt)
    (hkey : turn.service.key? turn.host = some turn.key) :
    (turn.prompt.keepsHistory = true →
      ((turn.host.files.makeDirectories turn.service.memoryDir).target?
        (historyPath turn.service.memoryDir turn.id?)).isSome = true →
      ∃ last, turn.EndsAfter last ((chatSkill turn.service name pinned).action call turn.host)) ∧
    (turn.prompt.keepsHistory = false →
      turn.EndsAtOnce ((chatSkill turn.service name pinned).action call turn.host)) := by
  have haction : (chatSkill turn.service name pinned).action call turn.host =
      turn.service.answer turn.prompt turn.host := by
    simp only [chatSkill, hprompt]
  rw [haction]
  exact ⟨fun hkeeps hwrites => turn.answer_of_keepsHistory hkeeps hkey hwrites,
    fun hkeeps => turn.answer_of_not_keepsHistory hkeeps hkey⟩

/-- A service that refuses its first two requests. -/
def reluctantService : Service where
  provider earlier _ :=
    if earlier.length < 2 then .error (.contextLengthExceeded "too long") else .ok (some "r")
  settings := { Settings.default with apiKey := some "k" }
  memoryDir := "m"

/-- A turn after three messages. -/
def reluctantTurn : Turn where
  service := reluctantService
  key := "k"
  prompt := { text := "d", system := none, keepsHistory := true, model := defaultModel }
  host := .ofFiles (saveHistory .empty "m" none [⟨.user, "a"⟩, ⟨.assistant, "b"⟩, ⟨.user, "c"⟩])

/-- The prompt is sent after three messages, after the last one of them, and alone. -/
theorem action_endsAfter_reluctant :
    let result := (chatSkill reluctantTurn.service "chat" none).action ⟨⟨[.str "d"], []⟩, .empty⟩
      reluctantTurn.host
    result.1 = .ok () ∧ result.2.output = "r\n\n" ∧
      result.2.requests.map (·.messages) =
        [[⟨.user, "a"⟩, ⟨.assistant, "b"⟩, ⟨.user, "c"⟩, ⟨.user, "d"⟩],
          [⟨.user, "c"⟩, ⟨.user, "d"⟩],
          [⟨.user, "d"⟩]] ∧
      reluctantTurn.historyOf result.2.files = [⟨.user, "d"⟩, ⟨.assistant, "r"⟩] := by
  intro result
  have hwrites : ((Files.empty.makeDirectories "m").target?
      (historyPath "m" none)).isSome = true := by
    decide +kernel
  obtain ⟨hhistory, hwrites⟩ :
      reluctantTurn.history = [⟨.user, "a"⟩, ⟨.assistant, "b"⟩, ⟨.user, "c"⟩] ∧ _ :=
    loadHistory_saveHistory hwrites _
  have hrefused : reluctantTurn.IsRefused 0 ∧ reluctantTurn.IsRefused 1 := by
    refine ⟨⟨⟨_, rfl, rfl⟩, ?_⟩, ⟨_, rfl, rfl⟩, ?_⟩ <;> rw [hhistory] <;> simp
  obtain ⟨last, h⟩ : ∃ last, reluctantTurn.EndsAfter last result :=
    (action_endsAfter rfl rfl).1 rfl hwrites
  obtain rfl : last = 2 := by
    have hfew : last ≤ 2 := by simpa [hhistory] using h.few
    have h0 := (h.further 0 (Nat.zero_le _)).mpr hrefused.1
    have h1 := (h.further 1 h0).mpr hrefused.2
    omega
  obtain ⟨hresult, houtput, hleft⟩ := h.reply (some "r") rfl
  have hrequest (k : Nat) : (reluctantTurn.requestAt k).messages =
      reluctantTurn.history.drop (2 * k) ++ [⟨.user, "d"⟩] := rfl
  refine ⟨hresult, houtput, ?_, ?_⟩
  · have hnone : reluctantTurn.host.requests = [] := rfl
    rw [h.requests]
    simp [List.range_succ, hnone, hrequest, hhistory]
  · rw [hleft, hhistory]
    rfl

end NoteShell.Chat
