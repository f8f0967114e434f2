import Mathlib.Tactic.Common
import NoteShell.Host.Basic
import NoteShell.Proofs.Text.Utf8

/-!
# Reading a log back

A log is read back record by record: a line end that the continuation mark follows belongs to a
message, and any other line end closes one. The first line of a message is written as it is, so a
message that itself begins with the mark is read as further lines of the message before it. Up to
this, and up to the carriage returns that framing drops, a log determines its messages.

## Main definitions

* `withoutReturns` : a message as framing keeps it.
* `messagesIn` : the messages that are read from a log.
* `joined` : messages with every marked one joined to the message before it.

## Main results

* `messagesIn_logChars` : what is read from the log of some messages are the joined messages.
* `log_eq_iff` : logs are equal exactly where the joined messages are.
* `joined_eq_of_log_eq` : the bytes of a log determine its messages.
-/

namespace NoteShell

open NoteShell.Text

/-- A message without its carriage returns. -/
def withoutReturns (message : String) : String :=
  String.ofList (message.toList.filter (· ≠ '\r'))

/-- Whether a message begins with the continuation mark, carriage returns apart. -/
def IsMarked (message : String) : Prop :=
  startsWith continuationMark (withoutReturns message) = true

instance (message : String) : Decidable (IsMarked message) :=
  inferInstanceAs (Decidable (_ = true))

/-- The message `current` and the messages after it, where each marked one continues the one before
it as further lines. -/
def joinedAfter (current : List Char) : List String → List String
  | [] => [String.ofList current]
  | message :: rest =>
    let kept := (withoutReturns message).toList
    if IsMarked message then
      joinedAfter (current ++ '\n' :: kept.drop continuationMark.length) rest
    else String.ofList current :: joinedAfter kept rest

/-- Messages without carriage returns, where each marked one but the first continues the one before
it as further lines. -/
def joined : List String → List String
  | [] => []
  | message :: rest => joinedAfter (withoutReturns message).toList rest

/-- The messages in the characters of a log, the first of which begins with `current`. -/
def messagesIn (current : List Char) : List Char → List String
  | [] => []
  | c :: rest =>
    if c = '\n' then
      if continuationMark.toList.isPrefixOf rest then
        messagesIn (current ++ ['\n']) (rest.drop continuationMark.length)
      else String.ofList current :: messagesIn [] rest
    else messagesIn (current ++ [c]) rest
termination_by cs => cs.length
decreasing_by all_goals simp; try omega

/-- The characters of a log. -/
def logChars (messages : List String) : List Char :=
  messages.flatMap fun message => (logged message).toList

/-! ### What is written -/

theorem logChars_cons (message : String) (messages : List String) :
    logChars (message :: messages) =
      message.toList.flatMap frameChar ++ '\n' :: logChars messages := by
  rw [logChars, List.flatMap_cons, logged, emitted, frame, String.toList_append,
    String.toList_ofList, List.append_assoc]
  rfl

theorem output_foldl_log (host : Host) (messages : List String) :
    (messages.foldl Host.log host).output.toList = host.output.toList ++ logChars messages := by
  induction messages generalizing host with
  | nil => exact (List.append_nil _).symm
  | cons message messages ih =>
    rw [List.foldl_cons, ih, Host.log, String.toList_append, List.append_assoc]
    rfl

/-- Carriage returns are not written. -/
theorem frame_withoutReturns (message : String) :
    (withoutReturns message).toList.flatMap frameChar = message.toList.flatMap frameChar := by
  rw [withoutReturns, String.toList_ofList]
  induction message.toList with
  | nil => rfl
  | cons c cs ih =>
    by_cases hc : c = '\r'
    · rw [List.filter_cons_of_neg (by simpa using hc), ih, List.flatMap_cons, frameChar, if_pos hc,
        List.nil_append]
    · rw [List.filter_cons_of_pos (by simpa using hc), List.flatMap_cons, List.flatMap_cons, ih]

/-- A marked message is the mark with further characters after it. -/
theorem IsMarked.eq_append {message : String} (h : IsMarked message) :
    (withoutReturns message).toList =
      continuationMark.toList ++ (withoutReturns message).toList.drop continuationMark.length := by
  obtain ⟨rest, hrest⟩ := List.isPrefixOf_iff_prefix.mp h
  rw [← hrest, ← String.length_toList, List.drop_left]

theorem frameChar_lineEnd : frameChar '\n' = '\n' :: continuationMark.toList := rfl

/-- The mark is written as it is. -/
theorem flatMap_frameChar_mark (cs : List Char) :
    (continuationMark.toList ++ cs).flatMap frameChar =
      continuationMark.toList ++ cs.flatMap frameChar := by
  rw [List.flatMap_append]
  rfl

/-- A message that begins with the mark is written as further lines of the message before it. -/
theorem logChars_joinedAfter (current : List Char) (messages : List String) :
    logChars (joinedAfter current messages) =
      current.flatMap frameChar ++ '\n' :: logChars messages := by
  induction messages generalizing current with
  | nil => rw [joinedAfter, logChars_cons, String.toList_ofList]
  | cons message rest ih =>
    rw [joinedAfter]
    split_ifs with hmark
    · rw [ih, List.flatMap_append, List.append_assoc, logChars_cons, ← frame_withoutReturns message,
        hmark.eq_append, flatMap_frameChar_mark, ← hmark.eq_append, List.append_assoc,
        List.flatMap_cons, frameChar_lineEnd, List.append_assoc, List.cons_append]
    · rw [logChars_cons, ih, String.toList_ofList, frame_withoutReturns, logChars_cons]

/-- Joined messages are written as the messages are. -/
theorem logChars_joined (messages : List String) :
    logChars (joined messages) = logChars messages := by
  cases messages with
  | nil => rfl
  | cons message rest => rw [joined, logChars_joinedAfter, frame_withoutReturns, logChars_cons]

/-! ### What is read -/

/-- A line that begins with the mark continues the message. -/
theorem messagesIn_mark (current rest : List Char) :
    messagesIn current ('\n' :: (continuationMark.toList ++ rest)) =
      messagesIn (current ++ ['\n']) rest := by
  rw [messagesIn, if_pos rfl, if_pos (List.isPrefixOf_iff_prefix.mpr (List.prefix_append _ _)),
    List.drop_left' String.length_toList]

/-- What is written for some characters is read as these characters. -/
theorem messagesIn_frame (cs current rest : List Char) :
    messagesIn current (cs.flatMap frameChar ++ rest) =
      messagesIn (current ++ cs.filter (· ≠ '\r')) rest := by
  induction cs generalizing current with
  | nil => rw [List.flatMap_nil, List.nil_append, List.filter_nil, List.append_nil]
  | cons c cs ih =>
    rw [List.flatMap_cons, List.append_assoc, frameChar]
    split_ifs with hreturn hend
    · rw [List.nil_append, ih, hreturn]
      rfl
    · rw [List.cons_append, messagesIn_mark, ih, hend, List.append_assoc]
      rfl
    · rw [List.singleton_append, messagesIn, if_neg hend, ih, List.append_assoc,
        List.filter_cons_of_pos (by simpa using hreturn)]
      rfl

/-- A text without line ends begins what is written for a message just where it begins the message
without its carriage returns. -/
theorem isPrefixOf_frame (head cs rest : List Char) (hend : '\n' ∉ head) (hreturn : '\r' ∉ head) :
    head.isPrefixOf (cs.flatMap frameChar ++ '\n' :: rest) =
      head.isPrefixOf (cs.filter (· ≠ '\r')) := by
  induction cs generalizing head with
  | nil =>
    cases head with
    | nil => rfl
    | cons x head =>
      have hx : x ≠ '\n' := fun h => hend (h ▸ List.mem_cons_self)
      simp [List.isPrefixOf, hx]
  | cons c cs ih =>
    cases head with
    | nil => rw [List.isPrefixOf_nil_left, List.isPrefixOf_nil_left]
    | cons x head =>
      have hx : x ≠ '\n' := fun h => hend (h ▸ List.mem_cons_self)
      rw [List.flatMap_cons, List.append_assoc, frameChar]
      split_ifs with hc₁ hc₂
      · rw [List.nil_append, ih _ hend hreturn, hc₁]
        rfl
      · rw [List.cons_append, List.filter_cons_of_pos (by simpa using hc₁), List.isPrefixOf,
          List.isPrefixOf, hc₂, beq_eq_false_iff_ne.mpr hx, Bool.false_and, Bool.false_and]
      · rw [List.singleton_append, List.filter_cons_of_pos (by simpa using hc₁), List.isPrefixOf,
          List.isPrefixOf, ih head (fun h => hend (List.mem_cons_of_mem _ h))
            (fun h => hreturn (List.mem_cons_of_mem _ h))]

/-- The mark begins a log just where it begins the first message. -/
theorem isPrefixOf_logChars (message : String) (rest : List String) :
    continuationMark.toList.isPrefixOf (logChars (message :: rest)) = true ↔ IsMarked message := by
  rw [logChars_cons, isPrefixOf_frame _ _ _ (by decide) (by decide), IsMarked, startsWith,
    withoutReturns, String.toList_ofList]

/-- Nothing of a message without carriage returns is dropped. -/
theorem filter_withoutReturns {message : String} {cs : List Char}
    (hcs : cs ⊆ (withoutReturns message).toList) : cs.filter (· ≠ '\r') = cs := by
  refine List.filter_eq_self.mpr fun c hc => ?_
  have hmem := hcs hc
  rw [withoutReturns, String.toList_ofList] at hmem
  exact (List.mem_filter.mp hmem).2

/-- After the message `current` the joined messages are read. -/
theorem messagesIn_joinedAfter (current : List Char) (messages : List String) :
    messagesIn current ('\n' :: logChars messages) = joinedAfter current messages := by
  induction messages generalizing current with
  | nil =>
    exact (messagesIn.eq_2 current '\n' []).trans (congrArg (List.cons _) (messagesIn.eq_1 []))
  | cons message rest ih =>
    rw [joinedAfter]
    split_ifs with hmark
    · rw [logChars_cons, ← frame_withoutReturns, hmark.eq_append, flatMap_frameChar_mark,
        ← hmark.eq_append, List.append_assoc, messagesIn_mark, messagesIn_frame,
        filter_withoutReturns (List.drop_subset _ _), ih, List.append_assoc, List.singleton_append]
    · rw [messagesIn, if_pos rfl, if_neg (mt (isPrefixOf_logChars message rest).mp hmark),
        logChars_cons, ← frame_withoutReturns, messagesIn_frame,
        filter_withoutReturns (List.Subset.refl _), ih, List.nil_append]

/-- What is read from the log of some messages are the joined messages. -/
theorem messagesIn_logChars (messages : List String) :
    messagesIn [] (logChars messages) = joined messages := by
  cases messages with
  | nil => exact messagesIn.eq_1 []
  | cons message rest =>
    rw [logChars_cons, ← frame_withoutReturns, messagesIn_frame,
      filter_withoutReturns (List.Subset.refl _), messagesIn_joinedAfter, List.nil_append, joined]

/-! ### Equal logs -/

/-- Messages of which none is marked are not joined. -/
theorem joinedAfter_of_not_marked (current : List Char) {messages : List String}
    (hmessages : ∀ message ∈ messages, ¬ IsMarked message) :
    joinedAfter current messages = String.ofList current :: messages.map withoutReturns := by
  induction messages generalizing current with
  | nil => rfl
  | cons message rest ih =>
    rw [List.forall_mem_cons] at hmessages
    rw [joinedAfter, if_neg hmessages.1, ih _ hmessages.2, String.ofList_toList, List.map_cons]

/-- Messages of which none but the first is marked are not joined. -/
theorem joined_of_not_marked {messages : List String}
    (hmessages : ∀ message ∈ messages.tail, ¬ IsMarked message) :
    joined messages = messages.map withoutReturns := by
  cases messages with
  | nil => rfl
  | cons message rest =>
    refine (joinedAfter_of_not_marked _ hmessages).trans ?_
    rw [String.ofList_toList, List.map_cons, List.tail_cons]

/-- Two logs are equal exactly where the joined messages are. -/
theorem log_eq_iff (host : Host) (first second : List String) :
    (first.foldl Host.log host).output = (second.foldl Host.log host).output ↔
      joined first = joined second := by
  rw [← String.toList_inj, output_foldl_log, output_foldl_log, List.append_cancel_left_eq]
  constructor
  · intro h
    rw [← messagesIn_logChars, h, messagesIn_logChars]
  · intro h
    rw [← logChars_joined, h, logChars_joined]

/-- The bytes of a log determine its messages without carriage returns, as far as no message is
marked: a marked one is joined to the message before it. -/
theorem joined_eq_of_log_eq (host : Host) (first second : List String)
    (hlog : encodeUtf8 (first.foldl Host.log host).output =
      encodeUtf8 (second.foldl Host.log host).output) :
    joined first = joined second ∧
      ((∀ message ∈ first.tail, ¬ IsMarked message) →
        (∀ message ∈ second.tail, ¬ IsMarked message) →
        first.map withoutReturns = second.map withoutReturns) := by
  have hjoined : joined first = joined second :=
    (log_eq_iff host first second).mp (encodeUtf8_inj.mp hlog)
  refine ⟨hjoined, fun hfirst hsecond => ?_⟩
  rw [← joined_of_not_marked hfirst, ← joined_of_not_marked hsecond, hjoined]

/-- Two logs of two messages that differ in carriage returns only. -/
theorem joined_eq_of_log_eq_returns :
    ["a >> b", "c\r\n\nd"].map withoutReturns = ["a >> b\r", "c\n\nd"].map withoutReturns :=
  (joined_eq_of_log_eq (.ofFiles .empty) _ _ (encodeUtf8_inj.mpr (by decide))).2
    (by decide) (by decide)

/-- A log does not determine its messages where one of them is marked: it is taken for the second
line of the message before it. -/
theorem log_eq_of_marked :
    encodeUtf8 (["a", " >> b"].foldl Host.log (.ofFiles .empty)).output =
        encodeUtf8 (["a\nb"].foldl Host.log (.ofFiles .empty)).output ∧
      ["a", " >> b"].map withoutReturns ≠ ["a\nb"].map withoutReturns :=
  ⟨encodeUtf8_inj.mpr (by decide), by decide⟩

end NoteShell
