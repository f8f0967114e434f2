import NoteShell.Chat.Skills
import NoteShell.Proofs.Chat.Histories

/-!
# Conversations do not mix

The history that is sent with a prompt consists of the earlier exchanges of its conversation since
all histories were last forgotten. Conversations are told apart by the names of their history files,
that is by their context ids, except that prompts without an id and prompts with the id `global` are
one conversation.

## Main definitions

* `Exchange` : a prompt and the reply to it.
* `IsExchange` : a call of a chat skill that is answered and whose history can be written.
* `Exchanged` : the exchanges since all histories were last forgotten, along any sequence of calls.
* `historyFor` : the messages of the exchanges with a given context id.

## Main results

* `IsExchange.action_eq` : what a call sends and saves.
* `Exchanged.keeps` : after any sequence of calls the files hold the exchanges.
* `requests_eq_historyFor` : the history that is sent with a prompt.
-/

namespace NoteShell.Chat

/-- A prompt and the reply to it. -/
structure Exchange where
  prompt : Prompt
  reply : String

namespace Exchange

/-- The context id of the prompt. -/
def id? (e : Exchange) : Option String := contextId? e.prompt.text

/-- The two messages of an exchange. -/
def messages (e : Exchange) : List Message := [⟨.user, e.prompt.text⟩, ⟨.assistant, e.reply⟩]

end Exchange

/-- A call of a chat skill makes an exchange: it keeps the history, whose file can be written, and
the first request that it sends is answered with the reply. -/
structure IsExchange (service : Service) (name : String) (pinned : Option String) (call : SkillCall)
    (host : Host) (e : Exchange) : Prop where
  prompt : promptOf name pinned service.settings.model call.args = .ok e.prompt
  keepsHistory : e.prompt.keepsHistory = true
  writes : ((host.files.makeDirectories service.memoryDir).target?
    (historyPath service.memoryDir e.id?)).isSome = true
  answers : ∀ request,
    ((chatSkill service name pinned).action call host).2.requests[host.requests.length]? =
      some request → (service.provider host.requests request).map (·.getD "") = .ok e.reply

/-- The host after any sequence of calls of chat skills that make exchanges and of calls that forget
all histories, with the exchanges since the last one of these. -/
inductive Exchanged (service : Service) (start : Host) : List Exchange → Host → Prop
  | start : Exchanged service start [] start
  | exchange {past : List Exchange} {host : Host} {name : String} {pinned : Option String}
    {call : SkillCall} {e : Exchange} (hpast : Exchanged service start past host)
    (he : IsExchange service name pinned call host e) :
    Exchanged service start (past ++ [e]) ((chatSkill service name pinned).action call host).2
  | clean {past : List Exchange} {host : Host} (hpast : Exchanged service start past host)
    (call : SkillCall) : Exchanged service start [] ((cleanChat service).action call host).2

/-- The messages of the exchanges whose prompts have a context id, or have none. -/
def historyFor (id : Option String) (past : List Exchange) : List Message :=
  (past.filter fun e => e.id? = id).flatMap Exchange.messages

/-- The messages of the exchanges whose history is in a file. -/
def historyIn (past : List Exchange) (name : String) : List Message :=
  (past.filter fun e => historyName e.id? = name).flatMap Exchange.messages

variable {service : Service} {name : String} {pinned : Option String} {call : SkillCall}
  {host start : Host} {e : Exchange} {past : List Exchange} {place : Place} {key : String}
  {histories : String → List Message}

/-! ### One call -/

/-- The first request of a call is the one with the whole history. -/
theorem requests_sendUntilFit (service : Service) (request : List Message → ChatRequest)
    (id : Option String) (history : List Message) (shorter : List (List Message)) (host : Host) :
    ∃ rest, (service.sendUntilFit request id history shorter host).2.requests =
      host.requests ++ request history :: rest := by
  induction shorter generalizing history host with
  | nil =>
    refine ⟨[], ?_⟩
    rw [Service.sendUntilFit, Service.send]
    cases service.provider host.requests (request history) <;> rfl
  | cons next shorter ih =>
    rw [Service.sendUntilFit, Service.send]
    cases service.provider host.requests (request history) with
    | ok reply => exact ⟨[], rfl⟩
    | error e =>
      dsimp only
      split_ifs
      · obtain ⟨rest, hrest⟩ := ih next (service.save id next
          { host with requests := host.requests ++ [request history] })
        exact ⟨request next :: rest, hrest.trans (List.append_assoc _ _ _)⟩
      · exact ⟨[], rfl⟩

/-- An answered request is the only one. -/
theorem sendUntilFit_of_ok (request : List Message → ChatRequest) (id : Option String)
    (history : List Message) (shorter : List (List Message)) {content : Option String}
    (hcontent : service.provider host.requests (request history) = .ok content) :
    service.sendUntilFit request id history shorter host =
      (.ok (content.getD "", history),
        { host with requests := host.requests ++ [request history] }) := by
  cases shorter <;> simp only [Service.sendUntilFit, Service.send, hcontent]

/-- The request for a prompt with a history. -/
def Exchange.request (e : Exchange) (service : Service) (key : String) (host : Host)
    (history : List Message) : ChatRequest :=
  ⟨e.prompt.model, key, systemMessages e.prompt ++ service.noteMessages host.files e.id? ++ history ++
    [⟨.user, e.prompt.text⟩]⟩

/-- The history that is loaded for the prompt of an exchange. -/
def Exchange.loaded (e : Exchange) (service : Service) (host : Host) : List Message :=
  loadHistory host.files service.memoryDir e.id?

theorem IsExchange.action_eq_sendUntilFit (he : IsExchange service name pinned call host e)
    (hkey : service.key? host = some key) :
    (chatSkill service name pinned).action call host =
      match service.sendUntilFit (e.request service key host) e.id? (e.loaded service host)
        (shorterHistories (e.loaded service host)) host with
      | (.ok (reply, history), host) =>
        (.ok (), (service.save e.id?
          (history ++ [⟨.user, e.prompt.text⟩, ⟨.assistant, reply⟩]) host).emit (reply ++ "\n"))
      | (.error e, host) => (.error (.failed e.message), host) := by
  have hconverse : service.converse key e.prompt host =
      match service.sendUntilFit (e.request service key host) e.id? (e.loaded service host)
        (shorterHistories (e.loaded service host)) host with
      | (.ok (reply, history), host) =>
        (.ok reply, service.save e.id?
          (history ++ [⟨.user, e.prompt.text⟩, ⟨.assistant, reply⟩]) host)
      | (.error e, host) => (.error e, host) := by
    rw [Service.converse, if_pos he.keepsHistory]
    rfl
  simp only [chatSkill, he.prompt, Service.answer, hkey, hconverse]
  generalize service.sendUntilFit (e.request service key host) e.id? (e.loaded service host) _
    host = result
  obtain ⟨⟨reply, history⟩ | fault, after⟩ := result <;> rfl

/-- The first request of a call is answered with the reply of its exchange. -/
theorem IsExchange.provider_eq (he : IsExchange service name pinned call host e)
    (hkey : service.key? host = some key) :
    (service.provider host.requests (e.request service key host (e.loaded service host))).map
      (·.getD "") = .ok e.reply := by
  obtain ⟨rest, hrest⟩ := requests_sendUntilFit service (e.request service key host) e.id?
    (e.loaded service host) (shorterHistories (e.loaded service host)) host
  refine he.answers _ ?_
  rw [he.action_eq_sendUntilFit hkey]
  generalize service.sendUntilFit (e.request service key host) e.id? (e.loaded service host) _
    host = result at hrest
  have hfirst : result.2.requests[host.requests.length]? =
      some (e.request service key host (e.loaded service host)) := by
    rw [hrest, List.getElem?_append_right (Nat.le_refl _), Nat.sub_self]
    rfl
  obtain ⟨⟨reply, history⟩ | fault, after⟩ := result <;> exact hfirst

/-- A call sends one request, with the history that is kept for its conversation, and saves that
history with the new exchange. -/
theorem IsExchange.action_eq (he : IsExchange service name pinned call host e)
    (hkey : service.key? host = some key)
    (hkeeps : Keeps host.files service.memoryDir place histories) :
    (chatSkill service name pinned).action call host =
      (.ok (), (service.save e.id? (histories (historyName e.id?) ++ e.messages)
        { host with requests := host.requests ++
          [e.request service key host (histories (historyName e.id?))] }).emit
            (e.reply ++ "\n")) := by
  have hloaded : e.loaded service host = histories (historyName e.id?) :=
    hkeeps.loadHistory he.writes
  have hanswer := he.provider_eq hkey
  rw [he.action_eq_sendUntilFit hkey]
  rw [hloaded] at hanswer ⊢
  cases hprovider : service.provider host.requests
      (e.request service key host (histories (historyName e.id?))) with
  | error fault => rw [hprovider] at hanswer; cases hanswer
  | ok content =>
    rw [hprovider] at hanswer
    obtain hreply : content.getD "" = e.reply := Except.ok.inj hanswer
    rw [sendUntilFit_of_ok _ _ _ _ hprovider, hreply]
    rfl

/-! ### Sequences of calls -/

/-- A new exchange continues the history in its own file. -/
theorem historyIn_concat (past : List Exchange) (e : Exchange) :
    historyIn (past ++ [e]) = Function.update (historyIn past) (historyName e.id?)
      (historyIn past (historyName e.id?) ++ e.messages) := by
  funext name
  by_cases hname : name = historyName e.id?
  · subst hname
    rw [Function.update_self, historyIn, historyIn, List.filter_append, List.flatMap_append,
      List.filter_cons_of_pos (by simp)]
    simp
  · rw [Function.update_of_ne hname, historyIn, historyIn, List.filter_append,
      List.filter_cons_of_neg (by simpa using Ne.symm hname), List.filter_nil, List.append_nil]

/-- After any sequence of calls the directory holds the exchanges since all histories were last
forgotten, and the key is the same. -/
theorem Exchanged.keeps (hrun : Exchanged service start past host)
    (hempty : IsEmptyDirectory start.files service.memoryDir place)
    (hkey : service.key? start = some key) :
    service.key? host = some key ∧ Keeps host.files service.memoryDir place (historyIn past) := by
  induction hrun with
  | start => exact ⟨hkey, hempty.keeps⟩
  | @exchange past host name pinned call e hpast he ih =>
    obtain ⟨hkey, hkeeps⟩ := ih
    rw [he.action_eq hkey hkeeps, historyIn_concat]
    exact ⟨hkey, hkeeps.saveHistory he.writes (by simp [Exchange.messages])⟩
  | clean hpast call ih => exact ⟨ih.1, ih.2.clearHistories⟩

/-- Two prompts of which one has no context id and the other one has the id `global`. -/
def ShareGlobal (a b : Option String) : Prop :=
  a = none ∧ b = some "global" ∨ a = some "global" ∧ b = none

theorem Exchange.isContextId (e : Exchange) : ∀ id ∈ e.id?, IsContextId id :=
  fun _ h => isContextId_contextId? h

instance (a b : Option String) : Decidable (ShareGlobal a b) :=
  inferInstanceAs (Decidable (_ ∨ _))

/-- Apart from these, two prompts have the same history file just where they have the same context
id. -/
theorem historyName_id?_eq_iff (e e' : Exchange) (hglobal : ¬ ShareGlobal e'.id? e.id?) :
    historyName e'.id? = historyName e.id? ↔ e'.id? = e.id? := by
  rw [historyName_eq_iff e'.isContextId e.isContextId]
  refine ⟨fun h => ?_, fun h => by rw [h]⟩
  cases h' : e'.id? with
  | none =>
    cases h'' : e.id? with
    | none => rfl
    | some id =>
      rw [h', h''] at h
      exact absurd (.inl ⟨h', h''.trans (congrArg some h.symm)⟩) hglobal
  | some id' =>
    cases h'' : e.id? with
    | none =>
      rw [h', h''] at h
      exact absurd (.inr ⟨h'.trans (congrArg some h), h''⟩) hglobal
    | some id =>
      rw [h', h''] at h
      exact congrArg some h

/-- The file of a prompt holds the exchanges with its context id, unless it is taken for the same
conversation as a prompt with another one. -/
theorem historyIn_eq_historyFor (e : Exchange)
    (hglobal : ∀ e' ∈ past, ¬ ShareGlobal e'.id? e.id?) :
    historyIn past (historyName e.id?) = historyFor e.id? past := by
  rw [historyIn, historyFor]
  congr 1
  refine List.filter_congr fun e' he' => ?_
  exact decide_eq_decide.mpr (historyName_id?_eq_iff e e' (hglobal e' he'))

/-- With a key and an empty directory at the start, and as long as all histories can be written and
all requests are answered, a call sends one request. The history in it consists of the exchanges
since all histories were last forgotten whose prompts have the same context id as this one, or none
as this one, unless one of these prompts has no id where the other one has the id `global`. -/
theorem requests_eq_historyFor (hempty : IsEmptyDirectory start.files service.memoryDir place)
    (hkey : service.key? start = some key) (hrun : Exchanged service start past host)
    (he : IsExchange service name pinned call host e)
    (hglobal : ∀ e' ∈ past, ¬ ShareGlobal e'.id? e.id?) :
    ((chatSkill service name pinned).action call host).1 = .ok () ∧
      ((chatSkill service name pinned).action call host).2.requests =
        host.requests ++ [⟨e.prompt.model, key, systemMessages e.prompt ++
          service.noteMessages host.files e.id? ++ historyFor e.id? past ++
          [⟨.user, e.prompt.text⟩]⟩] := by
  obtain ⟨hkey, hkeeps⟩ := hrun.keeps hempty hkey
  rw [he.action_eq hkey hkeeps, historyIn_eq_historyFor e hglobal]
  exact ⟨rfl, rfl⟩

/-! ### A run -/

/-- A service that replies to everything. -/
def echoService : Service where
  provider _ _ := .ok (some "r")
  settings := { Settings.default with apiKey := some "k" }
  memoryDir := "m"

/-- A call with a prompt as its only argument. -/
def askCall (text : String) : SkillCall := ⟨⟨[.str text], []⟩, .empty⟩

/-- The exchange that such a call makes. -/
def echo (text : String) : Exchange where
  prompt := { text, system := none, keepsHistory := true, model := defaultModel }
  reply := "r"

/-- The host after prompts on an empty one. -/
def echoHost : List String → Host
  | [] => .ofFiles .empty
  | text :: earlier =>
    ((chatSkill echoService "chat" none).action (askCall text) (echoHost earlier)).2

theorem echoHost_cons (text : String) (earlier : List String) :
    echoHost (text :: earlier) =
      ((chatSkill echoService "chat" none).action (askCall text) (echoHost earlier)).2 :=
  rfl

theorem isExchange_echo {text : String} {host : Host}
    (hwrites : ((host.files.makeDirectories "m").target?
      (historyPath "m" (contextId? text))).isSome = true) :
    IsExchange echoService "chat" none (askCall text) host (echo text) :=
  ⟨rfl, rfl, hwrites, fun _ _ => rfl⟩

theorem isEmptyDirectory_echo : IsEmptyDirectory (echoHost []).files echoService.memoryDir ["m"] :=
  ⟨rfl, rfl⟩

theorem key?_echo : echoService.key? (echoHost []) = some "k" := rfl

theorem request_echo (text : String) (host : Host) (history : List Message) :
    (echo text).request echoService "k" host history =
      ⟨defaultModel, "k", history ++ [⟨.user, text⟩]⟩ := by
  have hnote : echoService.noteMessages host.files (echo text).id? = [] := by
    cases hid : (echo text).id? <;> rfl
  rw [Exchange.request, hnote]
  rfl

/-- The third prompt is sent with the exchange of the first one, which has the same context id, and
without that of the second one, which has none. -/
theorem requests_eq_historyFor_echo :
    (echoHost ["context: a\nq3", "q2", "context: a\nq1"]).requests =
      (echoHost ["q2", "context: a\nq1"]).requests ++ [⟨defaultModel, "k",
        [⟨.user, "context: a\nq1"⟩, ⟨.assistant, "r"⟩, ⟨.user, "context: a\nq3"⟩]⟩] := by
  have hrun : Exchanged echoService (echoHost []) [echo "context: a\nq1", echo "q2"]
      (echoHost ["q2", "context: a\nq1"]) :=
    .exchange (.exchange .start (isExchange_echo (by decide +kernel)))
      (isExchange_echo (by decide +kernel))
  have he : IsExchange echoService "chat" none (askCall "context: a\nq3")
      (echoHost ["q2", "context: a\nq1"]) (echo "context: a\nq3") :=
    isExchange_echo (by decide +kernel)
  have hhistory : historyFor (echo "context: a\nq3").id? [echo "context: a\nq1", echo "q2"] =
      [⟨.user, "context: a\nq1"⟩, ⟨.assistant, "r"⟩] := by
    decide +kernel
  have hglobal : ∀ e ∈ [echo "context: a\nq1", echo "q2"],
      ¬ ShareGlobal e.id? (echo "context: a\nq3").id? := by
    decide +kernel
  have hsent := (requests_eq_historyFor isEmptyDirectory_echo key?_echo hrun he hglobal).2
  rw [hhistory] at hsent
  rw [echoHost_cons, hsent]
  exact congrArg (_ ++ [·]) (request_echo _ _ _)

/-- A prompt without a context id is sent with the exchange of an earlier prompt with the id
`global`. -/
theorem requests_of_shareGlobal :
    contextId? "q2" ≠ contextId? "context: global\nq1" ∧
      historyFor (contextId? "q2") [echo "context: global\nq1"] = [] ∧
      (echoHost ["q2", "context: global\nq1"]).requests =
        (echoHost ["context: global\nq1"]).requests ++ [⟨defaultModel, "k",
          [⟨.user, "context: global\nq1"⟩, ⟨.assistant, "r"⟩, ⟨.user, "q2"⟩]⟩] := by
  have hrun : Exchanged echoService (echoHost []) [echo "context: global\nq1"]
      (echoHost ["context: global\nq1"]) :=
    .exchange .start (isExchange_echo (by decide +kernel))
  obtain ⟨hkey, hkeeps⟩ := hrun.keeps isEmptyDirectory_echo key?_echo
  have he : IsExchange echoService "chat" none (askCall "q2") (echoHost ["context: global\nq1"])
      (echo "q2") :=
    isExchange_echo (by decide +kernel)
  have hhistory : historyIn [echo "context: global\nq1"] (historyName (echo "q2").id?) =
      [⟨.user, "context: global\nq1"⟩, ⟨.assistant, "r"⟩] := by
    decide +kernel
  refine ⟨by decide +kernel, by decide +kernel, ?_⟩
  rw [echoHost_cons "q2", he.action_eq hkey hkeeps, hhistory, request_echo]
  rfl

end NoteShell.Chat
