import NoteShell.Proofs.Execution.DisciplinedPrograms
import NoteShell.Proofs.Execution.PrimitiveMethods
import NoteShell.Proofs.Json.Sound
import NoteShell.Proofs.Values.Builtins

/-!
# Calls from primitive steps

Builtin functions and skills obey every discipline that the primitive values and steps obey, and so
do the values that are made of documents and the names of the shared context, where the surroundings
are as the discipline asks. Such a discipline is lawful as soon as its programs are.

## Main definitions

* `Discipline.Documents` : documents whose values are values of a discipline.
* `Env.Fits` : surroundings that a discipline allows.
* `Discipline.Programs` : what is left to say of programs.

## Main results

* `obeys_callPureBuiltin`, `obeys_callBuiltin` : builtin functions.
* `obeys_ofJson` : the value of a document.
* `Discipline.Primitives.lawful` : a discipline that primitive values and steps obey is lawful.
-/

namespace NoteShell.Script

open NoteShell.Grammar

/-- The texts and arrays of a document fit, and so does what the entries of its objects are made
to. -/
structure Discipline.Documents (D : Discipline) (fits : Nat → Prop) (document : Json → Prop) :
    Prop where
  text : ∀ {s}, document (.str s) → fits s.length
  items : ∀ {items}, document (.arr items) → fits items.length ∧ ∀ j ∈ items, document j
  members : ∀ {members}, document (.obj members) → ∀ m ∈ members, document m.2
  entries : ∀ {members} {es : Entries}, document (.obj members) → es.keys = members.map (·.1) →
    (∀ e ∈ es, D.value e.2) → D.entries es

/-- What the host shares is made of such documents, and the names that commands can use fit. -/
structure Env.Fits (fits : Nat → Prop) (document : Json → Prop) (env : Env) : Prop where
  frontmatter : document (.obj env.note.frontmatter)
  context : document (.obj env.note.context)
  notePath : fits env.note.notePath.length
  objects : fits (availableObjects env.registry).length
  names : ∀ name ∈ availableObjects env.registry, fits name.length

/-- The names, expressions, functions and statements of a discipline go together with its values and
heaps. -/
structure Discipline.Programs (D : Discipline) (fits : Nat → Prop) : Prop where
  bound : ∀ {n v}, D.value v → D.means n v
  builtinName : ∀ {n b}, Builtin.ofName? n = some b → D.means n (.builtin b)
  skillName : ∀ n, D.means n (.skill n)
  operand : ∀ {n v}, D.means n v → D.Operand v
  text : ∀ {s}, D.expr (.str s) → fits s.length
  formatted : ∀ {pieces}, D.expr (.formatted pieces) → ∀ n, fits n
  display : ∀ {items}, D.expr (.list items) → fits items.length
  name : ∀ {n v}, D.expr (.name n) → D.means n v → D.value v
  method : ∀ {target n v}, D.expr (.member target n) → D.value v → Ensures D.value (methodOf v n)
  newFunction : ∀ {name body h} {params : List (String × Option Value)},
    (∀ p ∈ params, ∀ v ∈ p.2, D.value v) → (∀ s ∈ body, D.stmt s) → D.heap h →
      Effect.Obeys D h fun h => h.newFunction ⟨name, params, body⟩
  defaults : ∀ {h r}, D.heap h → D.value (.function r) →
    ∀ p ∈ (h.function r).params, ∀ v ∈ p.2, D.value v
  body : ∀ {h r}, D.heap h → D.value (.function r) → ∀ s ∈ (h.function r).body, D.stmt s
  exprs : ∀ {s}, D.stmt s → ∀ e ∈ s.exprs, e.Holds D.expr
  bodies : ∀ {s}, D.stmt s → ∀ t ∈ s.bodies, D.stmt t
  loops : ∀ {test body}, D.stmt (.whileLoop test body) → D.runsOut

variable {D : Discipline} {fits : Nat → Prop} {mayChange : Value → Prop} {document : Json → Prop}
  {env : Env} {h : Heap} {v : Value} {args : CallArgs} {es : Entries}

/-- Where everything fits, nothing is asked of documents. -/
theorem Discipline.documents_of_values
    (hentries : ∀ {es : Entries}, (∀ e ∈ es, D.value e.2) → D.entries es) :
    D.Documents (fun _ => True) fun _ => True where
  text _ := trivial
  items _ := ⟨trivial, fun _ _ => trivial⟩
  members _ _ _ := trivial
  entries _ _ := hentries

theorem Env.fits_true (env : Env) : env.Fits (fun _ => True) fun _ => True :=
  ⟨trivial, trivial, trivial, trivial, fun _ _ => trivial⟩

section Primitives

variable (hD : D.Primitives fits mayChange)

include hD

/-! ### Builtin functions -/

/-- The length of a sum of lists is checked at each step. -/
theorem items_addLists (hh : D.heap h) {total : Array Value} (htotal : D.Items fits total)
    {vs : List Value} (hvs : ∀ v ∈ vs, D.value v) :
    Ensures (D.Items fits) (addLists h total vs) := by
  fun_induction addLists h total vs with
  | case1 total => exact ensures_ok htotal
  | case2 total r rest ih =>
    rw [List.forall_mem_cons] at hvs
    refine (ensures_checkLength _).bind fun _ hle => ?_
    exact ih (items_append hD htotal.values (hD.items hh hvs.1).values hle) hvs.2
  | case3 => exact ensures_error

theorem obeys_sumOf {start : Value} (hstart : D.value start) (hv : D.value v) :
    (sumOf start v).Obeys D D.value := by
  intro h hh
  refine HeapM.obeysAt_get ?_
  split
  · exact HeapM.obeysAt_fail_bind hh
  · refine .check hh (value_itemsOf hD hh hv) fun vs hvs => ?_
    have hlist : ∀ v ∈ vs.toList, D.value v := fun v hv => hvs v (Array.mem_toList_iff.mp hv)
    split
    · exact HeapM.obeysAt_pure hh hstart
    · exact .check hh (items_addLists hD hh (hD.items hh hstart) hlist) fun total htotal =>
        obeysAt_newList hD hh htotal
    · exact HeapM.obeysAt_result hh (ensures_addNumbers hD.number hstart _)

theorem entries_dictArgument (hh : D.heap h) (name : String) (hv : D.value v) :
    Ensures D.entries (dictArgument name h v) := by
  cases v with
  | dict r => exact ensures_ok (hD.entries hh hv)
  | _ => exact ensures_error

theorem obeys_callPureBuiltin (sorter : Sorter) {b : Builtin} (hb : D.value (.builtin b))
    (hargs : args.Obeys D) : (callPureBuiltin sorter b args).Obeys D D.value := by
  intro h hh
  have hfirst : D.value args.first := hargs.first hD.none
  have hnumber {x : Except EvalError Value} (hx : GivesNumber x) :
      (liftM x : HeapOp).ObeysAt D D.value h :=
    HeapM.obeysAt_result hh (hx.mono fun v hv => hD.number hv)
  have hlist (hunchecked : b.checksSize = false) {items : Array Value}
      (hitems : ∀ v ∈ items, D.value v) : (HeapM.perform (.newList items)).ObeysAt D D.value h :=
    obeysAt_newList hD hh ⟨hD.builtin hb hunchecked _, hitems⟩
  refine .after hh fun _ => HeapM.obeysAt_get ?_
  cases b with
  | len => exact .after hh fun _ => .after hh fun n => obeysAt_number hD hh rfl
  | str | repr => exact .after hh fun _ => obeysAt_text hD hh (hD.builtin hb rfl _)
  | int => exact .after hh fun _ => hnumber (givesNumber_intConversion args)
  | float =>
    refine .after hh fun _ => ?_
    split
    · exact obeysAt_number hD hh rfl
    · exact hnumber (givesNumber_toFloat _)
  | bool => exact .after hh fun _ => obeysAt_number hD hh rfl
  | list =>
    refine .after hh fun _ => ?_
    split
    · exact obeysAt_newList hD hh (items_empty hD)
    · next v hv =>
      exact .check hh (value_itemsOf hD hh (hargs.positional? hv)) fun items hitems =>
        hlist rfl hitems
  | range =>
    refine .after hh fun _ => HeapM.obeysAt_result hh ((ensures_rangeArguments _).mono ?_)
    rintro _ ⟨r, rfl⟩
    exact hD.range r
  | abs => exact .after hh fun _ => hnumber (givesNumber_magnitude _)
  | min | max =>
    exact HeapM.obeysAt_ask hh
      (ensures_extreme hargs.positional (fun v => value_itemsOf hD hh) _ _ _)
  | sum =>
    exact .after hh fun _ =>
      obeys_sumOf hD (value_getD (fun _ => hargs.get?) (hD.number rfl)) hfirst h hh
  | round => exact .after hh fun _ => .after hh fun places => hnumber (givesNumber_roundNumber _ _)
  | sorted =>
    exact .after hh fun _ => .check hh (value_itemsOf hD hh hfirst) fun items hitems =>
      .ask hh (value_sortValues sorter hitems h _) fun sorted hsorted => hlist rfl hsorted
  | type => exact .after hh fun _ => HeapM.obeysAt_pure hh (hD.type _)
  | keys =>
    exact .after hh fun _ => .check hh (entries_dictArgument hD hh _ hfirst) fun es hes =>
      hlist rfl (value_keys hD hes)
  | values =>
    exact .after hh fun _ => .check hh (entries_dictArgument hD hh _ hfirst) fun es hes =>
      hlist rfl (value_values hD hes)
  | print | getFrontmatter | info | available => exact HeapM.obeysAt_pure hh hD.none

end Primitives

/-! ### Documents -/

mutual

/-- The value of a document is a value of the discipline, and so are the values in the lists and
dicts that are made for it. -/
theorem obeys_ofJson (hD : D.Primitives fits mayChange) (hdocs : D.Documents fits document) :
    ∀ (j : Json) {h : Heap}, document j → D.heap h → Effect.Obeys D h fun h => ofJson h j
  | .null, _, _, hh => ⟨hD.none, hh⟩
  | .bool _, _, _, hh | .float _, _, _, hh => ⟨hD.number rfl, hh⟩
  | .str _, _, hj, hh => ⟨hD.text.mpr (hdocs.text hj), hh⟩
  | .int i, h, _, hh => by
    rw [Effect.Obeys, ofJson]
    split <;> exact ⟨hD.number rfl, hh⟩
  | .arr items, h, hj, hh => by
    obtain ⟨hlength, hvalues, hh'⟩ := obeys_ofJsonItems hD hdocs items (hdocs.items hj).2 hh
    rw [Effect.Obeys, ofJson]
    refine hD.newList hh' ⟨?_, fun v hv => hvalues v (List.mem_toArray.mp hv)⟩
    rw [List.size_toArray, hlength]
    exact (hdocs.items hj).1
  | .obj members, h, hj, hh => by
    obtain ⟨hkeys, hvalues, hh'⟩ := obeys_ofJsonMembers hD hdocs members (hdocs.members hj) hh
    rw [Effect.Obeys, ofJson]
    exact hD.newDict hh' (hdocs.entries hj hkeys hvalues)

theorem obeys_ofJsonItems (hD : D.Primitives fits mayChange) (hdocs : D.Documents fits document) :
    ∀ (items : List Json) {h : Heap}, (∀ j ∈ items, document j) → D.heap h →
      (ofJsonItems h items).1.length = items.length ∧
        (∀ v ∈ (ofJsonItems h items).1, D.value v) ∧ D.heap (ofJsonItems h items).2
  | [], _, _, hh => ⟨rfl, by simp [ofJsonItems], hh⟩
  | item :: rest, h, hitems, hh => by
    rw [List.forall_mem_cons] at hitems
    obtain ⟨hv, hh'⟩ := obeys_ofJson hD hdocs item hitems.1 hh
    obtain ⟨hlength, hvalues, hh''⟩ := obeys_ofJsonItems hD hdocs rest hitems.2 hh'
    rw [ofJsonItems]
    exact ⟨congrArg (· + 1) hlength, List.forall_mem_cons.mpr ⟨hv, hvalues⟩, hh''⟩

theorem obeys_ofJsonMembers (hD : D.Primitives fits mayChange) (hdocs : D.Documents fits document) :
    ∀ (members : Json.Members) {h : Heap}, (∀ m ∈ members, document m.2) → D.heap h →
      Entries.keys (ofJsonMembers h members).1 = members.map (·.1) ∧
        (∀ e ∈ (ofJsonMembers h members).1, D.value e.2) ∧ D.heap (ofJsonMembers h members).2
  | [], _, _, hh => ⟨rfl, by simp [ofJsonMembers], hh⟩
  | (key, item) :: rest, h, hmembers, hh => by
    rw [List.forall_mem_cons] at hmembers
    obtain ⟨hv, hh'⟩ := obeys_ofJson hD hdocs item hmembers.1 hh
    obtain ⟨hkeys, hvalues, hh''⟩ := obeys_ofJsonMembers hD hdocs rest hmembers.2 hh'
    rw [ofJsonMembers]
    exact ⟨congrArg (key :: ·) hkeys, List.forall_mem_cons.mpr ⟨hv, hvalues⟩, hh''⟩

end

/-! ### Names and calls -/

section Surroundings

variable (hD : D.Primitives fits mayChange) (hdocs : D.Documents fits document)
  (henv : env.Fits fits document)

include hD hdocs henv

theorem obeys_contextValue (hh : D.heap h) (c : ContextName) :
    (contextValue env.note c).Obeys D h := by
  cases c with
  | frontmatter => exact obeys_ofJson hD hdocs _ henv.frontmatter hh
  | context => exact obeys_ofJson hD hdocs _ henv.context hh
  | notePath => exact ⟨hD.text.mpr henv.notePath, hh⟩

/-- A name that the program has not bound means what the discipline says. -/
theorem obeys_ambientValue (hprograms : D.Programs fits) (name : String) :
    (ambientValue env name).Obeys D (D.means name) := by
  unfold ambientValue
  split
  · refine Work.obeys_onHeap fun h hh => ?_
    exact (HeapM.obeysAt_perform (obeys_contextValue hD hdocs henv hh _)).mono fun _ =>
      hprograms.bound
  · split
    · next b hb => exact Work.obeys_pure (hprograms.builtinName hb)
    · split_ifs
      · exact Work.obeys_pure (hprograms.skillName name)
      · exact Work.obeys_fail

theorem obeys_callBuiltin {b : Builtin} (hb : D.value (.builtin b)) (hargs : args.Obeys D) :
    (callBuiltin env b args).Obeys D D.value := by
  have hcheck : (Work.ofResult (checkNoArguments b args)).Obeys D fun _ => True :=
    Work.obeys_ofResult ensures_true
  cases b with
  | print =>
    refine Work.obeys_bind (Work.obeys_readHeap fun h _ => ensures_true) fun text _ => ?_
    exact Work.obeys_bind Work.obeys_onHost fun _ _ => Work.obeys_pure hD.none
  | getFrontmatter =>
    refine Work.obeys_onHeap fun h hh =>
      .after hh fun _ => .after hh fun _ => .after hh fun key => ?_
    split
    · next j hj =>
      have hdocument := hdocs.members henv.frontmatter _ (Json.mem_of_find? hj)
      exact HeapM.obeysAt_perform (obeys_ofJson hD hdocs j hdocument hh)
    · exact HeapM.obeysAt_pure hh (value_getD (fun _ => hargs.get?) hD.none)
  | info =>
    refine Work.obeys_bind hcheck fun _ _ => ?_
    exact Work.obeys_bind Work.obeys_onHost fun _ _ => Work.obeys_pure hD.none
  | available =>
    refine Work.obeys_bind hcheck fun _ _ => Work.obeys_perform fun h hh => ?_
    refine hD.newList hh ⟨by simpa using henv.objects, fun v hv => ?_⟩
    obtain ⟨name, hname, rfl⟩ := List.mem_map.mp (List.mem_toArray.mp hv)
    exact hD.text.mpr (henv.names name hname)
  | _ => exact Work.obeys_onHeap (obeys_callPureBuiltin hD env.sorter hb hargs)

omit hdocs henv in
theorem obeys_callSkill (env : Env) (name : String) (args : CallArgs) :
    (callSkill env name args).Obeys D D.value := by
  refine Work.obeys_bind (Work.obeys_readHeap fun h _ => ensures_true) fun args _ => ?_
  exact Work.obeys_bind Work.obeys_onHost fun _ _ => Work.obeys_pure hD.none

end Surroundings

/-! ### Programs -/

/-- A discipline that primitive values and steps obey is lawful, as far as its programs are. -/
theorem Discipline.Primitives.lawful (hD : D.Primitives fits fun _ => True)
    (hdocs : D.Documents fits document) (henv : env.Fits fits document)
    (hprograms : D.Programs fits) :
    D.Lawful env where
  bound := hprograms.bound
  ambient := obeys_ambientValue hD hdocs henv hprograms
  number := hD.number
  none := hD.none
  text he := hD.text.mpr (hprograms.text he)
  formatted he _ := hD.text.mpr (hprograms.formatted he _)
  name := hprograms.name
  method := hprograms.method
  newList he hlength hvs hh :=
    hD.newList hh ⟨by simpa [hlength] using hprograms.display he, by simpa using hvs⟩
  dictKey := key_dictKey hD
  noEntries := hD.noEntries
  set := hD.set
  newDict hes hh := hD.newDict hh hes
  items := value_itemsOf hD
  getItem hh hcontainer shown index := value_getItem hD hh shown hcontainer index
  sliceOf := obeys_sliceOf hD
  unary := value_unary hD
  binary op _ _ ha hb := obeys_binary hD op (D.operand_of_value ha) (D.operand_of_value hb)
  updateInPlace op _ _ _ hcurrent hv :=
    obeys_updateInPlace hD op trivial (hprograms.operand hcurrent) hv
  setItem := obeys_setItem hD trivial
  deleteItem := obeys_deleteItem hD trivial
  builtin := obeys_callBuiltin hD hdocs henv
  skill := obeys_callSkill hD env
  strMethod := obeys_callStrMethod hD
  listMethod hm := obeys_callListMethod hD env.sorter trivial (hD.listMethod hm) _
  dictMethod := obeys_callDictMethod hD trivial
  newFunction := hprograms.newFunction
  defaults := hprograms.defaults
  body := hprograms.body
  exprs := hprograms.exprs
  bodies := hprograms.bodies
  loops := hprograms.loops

end NoteShell.Script
