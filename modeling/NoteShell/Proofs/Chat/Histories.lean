import Mathlib.Logic.Function.Basic
import NoteShell.Chat.History
import NoteShell.Proofs.Host.Files
import NoteShell.Proofs.Json.Indented
import NoteShell.Proofs.Text.Utf8

/-!
# Histories in files

The directory of the histories holds what a map from file names to histories holds: a saved history
is loaded again, saving one history does not change those in other files, and clearing leaves none.

## Main definitions

* `IsContextId` : ids that keep their form in names of files.
* `Keeps` : a directory holds the histories of a map.

## Main results

* `messagesOfText_textOfMessages` : messages are read back from the text of a history file.
* `historyName_eq_iff` : the context ids that share a history file.
* `Keeps.loadHistory`, `Keeps.saveHistory`, `Keeps.clearHistories` : the directory follows the map.
-/

namespace NoteShell.Chat

open NoteShell.Text

/-! ### Messages -/

theorem sorted_toJson (m : Message) :
    m.toJson.sorted = .obj [("content", .str m.content), ("role", .str m.role.name)] := by
  have hne : ¬ "role" = "content" := by decide
  have hlt : "content" < "role" := by decide
  rw [Message.toJson, Message.members, Json.sorted]
  simp only [List.map_cons, List.map_nil, Json.sorted, Json.object, Json.membersOf, List.foldl_cons,
    List.foldl_nil, Json.insert, hne, hlt, if_false, if_true]

theorem ofJson?_sorted_toJson (m : Message) : Message.ofJson? m.toJson.sorted = some m := by
  rw [sorted_toJson]
  obtain ⟨role, content⟩ := m
  cases role <;> rfl

/-- Messages are read back from the text of a history file. -/
theorem messagesOfText_textOfMessages (messages : List Message) :
    messagesOfText (textOfMessages messages) = messages := by
  have htextual : (Json.arr (messages.map Message.toJson)).TextualWithin Json.maxNesting := by
    intro item hitem
    obtain ⟨m, -, rfl⟩ := List.mem_map.mp hitem
    intro member hmember
    obtain rfl | rfl : member = _ ∨ member = _ := by simpa [Message.members] using hmember
    · trivial
    · trivial
  rw [messagesOfText, textOfMessages, Json.parse?_indented htextual]
  dsimp only
  rw [Json.sorted, messagesOfJson, List.map_map, List.filterMap_map]
  have hread : (Message.ofJson? ∘ Json.sorted ∘ Message.toJson) = some :=
    funext ofJson?_sorted_toJson
  rw [hread, List.filterMap_some]

/-! ### Names of history files -/

/-- A context id that keeps its form in names of files. -/
def IsContextId (id : String) : Prop := ∀ c ∈ id.toList, isContextIdChar c = true

theorem safeContextId_of_isContextId {id : String} (hid : IsContextId id) :
    safeContextId id = id := by
  have hmap : (id.toList.map fun c => if isContextIdChar c then c else '_') = id.toList :=
    (List.map_congr_left fun c hc => if_pos (hid c hc)).trans (List.map_id' _)
  rw [safeContextId, hmap, String.ofList_toList]

theorem idAfter?_chars {keyword text id : List Char} (h : idAfter? keyword text = some id) :
    ∀ c ∈ id, isContextIdChar c = true := by
  rw [idAfter?] at h
  split_ifs at h
  split at h
  · rename_i rest _
    have hchars := List.all_eq_true.mp
      (List.all_takeWhile (p := isContextIdChar) (l := rest.dropWhile isBlank))
    split at h
    · cases h
    · cases h
      exact hchars
  · cases h

theorem firstId?_chars {keyword text id : List Char} (h : firstId? keyword text = some id) :
    ∀ c ∈ id, isContextIdChar c = true := by
  induction text with
  | nil => cases h
  | cons c text ih =>
    rw [firstId?] at h
    split at h
    · cases h
      exact idAfter?_chars ‹_›
    · exact ih h

/-- The context id of a prompt keeps its form in names of files. -/
theorem isContextId_contextId? {prompt id : String} (h : contextId? prompt = some id) :
    IsContextId id := by
  obtain ⟨chars, hchars, rfl⟩ := Option.map_eq_some_iff.mp h
  obtain ⟨keyword, -, hfirst⟩ := List.exists_of_findSome?_eq_some hchars
  rw [IsContextId, String.toList_ofList]
  exact firstId?_chars hfirst

/-- The part of the name of a history file between its start and its end. -/
theorem historyName_eq (id : Option String) :
    historyName id = historyStart ++ (id.map safeContextId).getD "global" ++ historyEnd := by
  cases id <;> rfl

theorem slash_not_mem_safeContextId (id : String) : '/' ∉ (safeContextId id).toList := by
  rw [safeContextId, String.toList_ofList, List.mem_map]
  rintro ⟨c, -, hc⟩
  split_ifs at hc with hchar
  · subst hc
    cases hchar
  · cases hc

theorem isPlainName_historyName (id : Option String) : IsPlainName (historyName id) := by
  have hlength : historyStart.length ≤ (historyName id).length := by
    rw [historyName_eq, String.length_append, String.length_append]
    omega
  have hne {name : String} (hname : name.length < historyStart.length) : historyName id ≠ name :=
    fun h => by rw [h] at hlength; omega
  refine ⟨?_, hne (by decide), hne (by decide), hne (by decide)⟩
  rw [historyName_eq, String.toList_append, String.toList_append, List.mem_append, List.mem_append,
    not_or, not_or]
  refine ⟨⟨by decide, ?_⟩, by decide⟩
  cases id with
  | none => decide
  | some id => exact slash_not_mem_safeContextId id

theorem isHistoryName_historyName (id : Option String) : isHistoryName (historyName id) = true := by
  rw [isHistoryName, historyName_eq, startsWith, endsWith, Bool.and_eq_true,
    List.isPrefixOf_iff_prefix, List.isPrefixOf_iff_prefix, List.reverse_prefix,
    String.toList_append,
    String.toList_append, List.append_assoc]
  exact ⟨List.prefix_append _ _, (List.suffix_append _ _).trans (List.suffix_append _ _)⟩

/-- Two context ids share a history file exactly where they are the same, except that prompts
without an id share the one of the id `global`. -/
theorem historyName_eq_iff {a b : Option String} (ha : ∀ id ∈ a, IsContextId id)
    (hb : ∀ id ∈ b, IsContextId id) :
    historyName a = historyName b ↔ a.getD "global" = b.getD "global" := by
  have hsafe {id : Option String} (hid : ∀ i ∈ id, IsContextId i) :
      (id.map safeContextId).getD "global" = id.getD "global" := by
    cases id with
    | none => rfl
    | some id => exact safeContextId_of_isContextId (hid id rfl)
  rw [historyName_eq, historyName_eq, hsafe ha, hsafe hb]
  refine ⟨fun h => ?_, fun h => by rw [h]⟩
  have hchars := congrArg String.toList h
  simp only [String.toList_append] at hchars
  exact String.toList_inj.mp (List.append_cancel_left (List.append_cancel_right hchars))

/-! ### Histories in a directory -/

/-- The content of the file of a history: an empty one has no file. -/
def contentOf : List Message → Option FileContent
  | [] => none
  | messages => some (.bytes (encodeUtf8 (textOfMessages messages)))

/-- The directory `dir`, which is at a place or can be made there, holds the histories of a map from
names of files. -/
structure Keeps (files : Files) (dir : String) (place : Place) (histories : String → List Message) :
    Prop where
  made : (files.makeDirectories dir).directory? dir = some place
  /-- Before the directory is made there are no histories. -/
  present : files.directory? dir = some place ∨ ∀ id, histories (historyName id) = []
  content : ∀ id, files.contentAt? (historyName id :: place) = contentOf (histories (historyName id))

/-- A directory that is there or can be made, and in which no file is then. -/
structure IsEmptyDirectory (files : Files) (dir : String) (place : Place) : Prop where
  made : (files.makeDirectories dir).directory? dir = some place
  empty : (files.makeDirectories dir).inDirectory dir = []

variable {files : Files} {dir : String} {place : Place} {histories : String → List Message}
  {id : Option String}

theorem mem_inDirectory {name : String} {content : FileContent}
    (hdir : files.directory? dir = some place)
    (hcontent : files.contentAt? (name :: place) = some content) :
    (name, name :: place) ∈ files.inDirectory dir := by
  obtain ⟨e, he, -⟩ := Option.map_eq_some_iff.mp hcontent
  have hfound : (e.1 == name :: place) = true :=
    List.find?_some (p := fun e : Place × FileContent => e.1 == name :: place) he
  have hplace : e.1 = name :: place := beq_iff_eq.mp hfound
  rw [Files.inDirectory, hdir]
  refine List.mem_filterMap.mpr ⟨e, List.mem_of_find?_eq_some he, ?_⟩
  rw [hplace, Files.nameIn?, if_pos rfl]
  rfl

theorem contentAt?_makeDirectories (files : Files) (dir : String) (place : Place) :
    (files.makeDirectories dir).contentAt? place = files.contentAt? place := by
  rw [Files.contentAt?, (files.makeDirectories_extends dir).2, Files.contentAt?]

/-- An empty directory holds no histories. -/
theorem IsEmptyDirectory.keeps (h : IsEmptyDirectory files dir place) :
    Keeps files dir place fun _ => [] := by
  refine ⟨h.made, .inr fun _ => rfl, fun id => ?_⟩
  cases hcontent : files.contentAt? (historyName id :: place) with
  | none => rfl
  | some content =>
    have hmem := mem_inDirectory h.made ((contentAt?_makeDirectories _ _ _).trans hcontent)
    rw [h.empty] at hmem
    cases hmem

theorem contentOf_of_ne_nil {messages : List Message} (hmessages : messages ≠ []) :
    contentOf messages = some (.bytes (encodeUtf8 (textOfMessages messages))) := by
  cases messages with
  | nil => exact absurd rfl hmessages
  | cons m messages => rfl

namespace Keeps

theorem dir_ne_empty (h : Keeps files dir place histories) : dir ≠ "" := by
  rintro rfl
  cases h.made

/-- Where the directory is before it is made, it is at its place. -/
theorem eq_place (h : Keeps files dir place histories) {found : Place}
    (hdir : files.directory? dir = some found) : found = place :=
  Option.some.inj ((Files.directory?_mono (files.makeDirectories_extends dir).1 hdir).symm.trans
    h.made)

/-- A history that can be written is written to its place in the directory. -/
theorem target_eq (h : Keeps files dir place histories) {target : Place}
    (htarget : (files.makeDirectories dir).target? (historyPath dir id) = some target) :
    target = historyName id :: place := by
  obtain ⟨-, -, above, habove, rfl⟩ := (Files.locate_joinPath h.dir_ne_empty
    (isPlainName_historyName id)).mp (Files.locate_of_target htarget)
  rw [Option.some.inj (habove.symm.trans h.made)]

/-- Where a history can be written, its path leads to its place in the directory. -/
theorem locate_iff (h : Keeps files dir place histories)
    (hpath : ((files.makeDirectories dir).target? (historyPath dir id)).isSome = true)
    (found : Place) :
    files.locate (historyPath dir id) = .ok found ↔
      files.directory? dir = some place ∧ found = historyName id :: place := by
  obtain ⟨target, htarget⟩ := Option.isSome_iff_exists.mp hpath
  obtain ⟨hfault, hsize, -⟩ := (Files.locate_joinPath h.dir_ne_empty
    (isPlainName_historyName id)).mp (Files.locate_of_target htarget)
  rw [historyPath, Files.locate_joinPath h.dir_ne_empty (isPlainName_historyName id)]
  constructor
  · rintro ⟨-, -, above, habove, rfl⟩
    obtain rfl := h.eq_place habove
    exact ⟨habove, rfl⟩
  · rintro ⟨hdir, rfl⟩
    exact ⟨hfault, hsize, place, hdir, rfl⟩

/-- A history is loaded as it is kept, where its path can be written to. -/
theorem loadHistory (h : Keeps files dir place histories)
    (hpath : ((files.makeDirectories dir).target? (historyPath dir id)).isSome = true) :
    loadHistory files dir id = histories (historyName id) := by
  rw [Chat.loadHistory, Files.readText?, Files.readText, Files.read]
  cases hlocate : files.locate (historyPath dir id) with
  | error fault =>
    obtain hdir | hnone := h.present
    · have hfound := (h.locate_iff hpath _).mpr ⟨hdir, rfl⟩
      rw [hlocate] at hfound
      cases hfound
    · rw [hnone]
      rfl
  | ok found =>
    obtain ⟨-, rfl⟩ := (h.locate_iff hpath found).mp hlocate
    have hcontent := h.content id
    dsimp only
    rw [hcontent]
    cases hmessages : histories (historyName id) with
    | nil => rfl
    | cons m messages =>
      have htext : Files.textOf (.bytes (encodeUtf8 (textOfMessages (m :: messages)))) =
          .ok (textOfMessages (m :: messages)) := by
        rw [Files.textOf, decodeUtf8_encodeUtf8]
      simp only [contentOf, Except.bind, htext, Except.toOption, messagesOfText_textOfMessages]

/-- A history that is saved is kept, and the histories in other files stay as they are. -/
theorem saveHistory (h : Keeps files dir place histories)
    (hpath : ((files.makeDirectories dir).target? (historyPath dir id)).isSome = true)
    {messages : List Message} (hmessages : messages ≠ []) :
    Keeps (saveHistory files dir id messages) dir place
      (Function.update histories (historyName id) messages) := by
  obtain ⟨target, htarget⟩ := Option.isSome_iff_exists.mp hpath
  obtain rfl := h.target_eq htarget
  obtain ⟨hself, hother, hdirectories⟩ :=
    Files.write_of_target htarget (.bytes (encodeUtf8 (textOfMessages messages)))
  have hsubset : (files.makeDirectories dir).directories ⊆
      (Chat.saveHistory files dir id messages).directories := fun d hd => by
    rw [Chat.saveHistory, hdirectories]
    exact hd
  have hdir := Files.directory?_mono hsubset h.made
  refine ⟨Files.directory?_mono (Files.makeDirectories_extends _ _).1 hdir, .inl hdir,
    fun id' => ?_⟩
  by_cases hname : historyName id' = historyName id
  · rw [hname, Function.update_self, contentOf_of_ne_nil hmessages]
    exact hself
  · rw [Function.update_of_ne hname, ← h.content id', ← contentAt?_makeDirectories files dir]
    exact hother _ fun heq => hname (List.cons.inj heq).1

/-- No history is kept after all were cleared. -/
theorem clearHistories (h : Keeps files dir place histories) :
    Keeps (clearHistories files dir) dir place fun _ => [] := by
  cases hdir : files.directory? dir with
  | none =>
    have hplaces : historyPlaces files dir = [] := by
      rw [historyPlaces, Files.inDirectory, hdir]
      rfl
    have hfiles : Chat.clearHistories files dir = files := by
      rw [Chat.clearHistories, hplaces, Files.removeAll]
      simp
    have hnone : ∀ id, histories (historyName id) = [] :=
      h.present.resolve_left fun hsome => by rw [hdir] at hsome; cases hsome
    rw [hfiles]
    exact ⟨h.made, .inr fun _ => rfl, fun id =>
      (h.content id).trans (congrArg contentOf (hnone id))⟩
  | some found =>
    obtain rfl := h.eq_place hdir
    have hsubset : files.directories ⊆ (Chat.clearHistories files dir).directories :=
      List.Subset.refl _
    have hcleared := Files.directory?_mono hsubset hdir
    refine ⟨Files.directory?_mono (Files.makeDirectories_extends _ _).1 hcleared, .inl hcleared,
      fun id => ?_⟩
    rw [Chat.clearHistories, Files.contentAt?_removeAll]
    split_ifs with hplace
    · rfl
    · cases hcontent : files.contentAt? (historyName id :: found) with
      | none => rfl
      | some content =>
        have hentry : (historyName id, historyName id :: found) ∈
            (files.inDirectory dir).filter fun e => isHistoryName e.1 :=
          List.mem_filter.mpr ⟨mem_inDirectory hdir hcontent, isHistoryName_historyName id⟩
        exact absurd (List.mem_map.mpr ⟨_, hentry, rfl⟩) hplace

end Keeps

end NoteShell.Chat
