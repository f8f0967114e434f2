import Mathlib.Tactic.Common
import NoteShell.Proofs.Values.Entries
import NoteShell.Script.Call

/-!
# How arguments are bound

The arguments of a call are given to the parameters in three passes: by position, by name, and from
the defaults. The passes go over one list of slots, one for each parameter. As parameters have
different names, and arguments that are given by name do too, each of these has a slot of its own.
The passes succeed together just where the arguments fit the parameters, which is said here without
any slots. A call that is made binds exactly the parameters of its function, and has declared no
name global.

## Main definitions

* `CallArgs.Fit` : the arguments that can be bound to some parameters.
* `CallArgs.Binds` : the local names to which they are bound.

## Main results

* `bindArguments_eq_ok` : the frame of a call comes from slots that are all filled.
* `get?_locals_isSome_iff` : a call binds the parameters of its function and nothing else.
* `fillSlots_eq_ok_iff` : when arguments that are given by name find their slots.
* `bindArguments_eq_ok_iff`, `binds_boundNames` : when a call binds its arguments, and to what.
-/

namespace NoteShell.Script

open NoteShell.Grammar

variable {function name : String} {v : Value} {params : List (String × Option Value)}
  {slots filled : List Slot} {named : Entries}

/-! ### The names of a call -/

theorem positionalSlots_names (params : List (String × Option Value)) (args : List Value) :
    (positionalSlots params args).map (·.name) = params.map (·.1) := by
  induction params generalizing args with
  | nil => rfl
  | cons param params ih =>
    obtain ⟨name, default?⟩ := param
    cases args <;> rw [positionalSlots, List.map_cons, List.map_cons, ih]

theorem fillSlot_names {function name : String} {v : Value} {slots filled : List Slot}
    (h : fillSlot function name v slots = .ok filled) :
    filled.map (·.name) = slots.map (·.name) := by
  induction slots generalizing filled with
  | nil => cases h
  | cons slot slots ih =>
    rw [fillSlot] at h
    split_ifs at h
    · cases h
      rfl
    · cases hrest : fillSlot function name v slots with
      | error e =>
        rw [hrest] at h
        cases h
      | ok rest =>
        rw [hrest] at h
        cases h
        rw [List.map_cons, List.map_cons, ih hrest]

theorem fillSlots_names {function : String} {named : List (String × Value)}
    {slots filled : List Slot} (h : fillSlots function named slots = .ok filled) :
    filled.map (·.name) = slots.map (·.name) := by
  induction named generalizing slots with
  | nil =>
    cases h
    rfl
  | cons arg named ih =>
    obtain ⟨name, v⟩ := arg
    rw [fillSlots] at h
    cases hslot : fillSlot function name v slots with
    | error e =>
      rw [hslot] at h
      cases h
    | ok next =>
      rw [hslot] at h
      exact (ih h).trans (fillSlot_names hslot)

/-- The frame of a call comes from one slot for each parameter, all of them filled. -/
theorem bindArguments_eq_ok {f : Function} {args : CallArgs} {frame : Frame}
    (h : bindArguments f args = .ok frame) :
    ∃ slots : List Slot, slots.map (·.name) = f.params.map (·.1) ∧ missingNames slots = [] ∧
      frame = ⟨boundNames slots, []⟩ := by
  rw [bindArguments] at h
  split_ifs at h
  · cases h
  · cases hslots : fillSlots f.name args.keyword (positionalSlots f.params args.positional) with
    | error e =>
      rw [hslots] at h
      cases h
    | ok slots =>
      rw [hslots] at h
      cases hmissing : missingNames slots with
      | nil =>
        simp only [bind, Except.bind, hmissing] at h
        cases h
        exact ⟨slots, (fillSlots_names hslots).trans (positionalSlots_names _ _), hmissing, rfl⟩
      | cons name names =>
        simp only [bind, Except.bind, hmissing] at h
        cases h

/-- The frame of a call has declared no name global. -/
theorem declared_of_bindArguments {f : Function} {args : CallArgs} {frame : Frame}
    (h : bindArguments f args = .ok frame) : frame.declared = [] := by
  obtain ⟨slots, -, -, rfl⟩ := bindArguments_eq_ok h
  rfl

/-- Filled slots bind their names. -/
theorem keys_boundNames {slots : List Slot} (h : missingNames slots = []) :
    (boundNames slots).keys = slots.map (·.name) := by
  induction slots with
  | nil => rfl
  | cons slot slots ih =>
    cases hvalue : slot.value? with
    | none => simp [missingNames, hvalue] at h
    | some v =>
      have hrest : missingNames slots = [] := by simpa [missingNames, hvalue] using h
      have hbound : boundNames (slot :: slots) = (slot.name, v) :: boundNames slots := by
        simp [boundNames, hvalue]
      rw [hbound, Entries.keys_cons, ih hrest, List.map_cons]

/-- A call binds the parameters of its function and nothing else. -/
theorem get?_locals_isSome_iff {f : Function} {args : CallArgs} {frame : Frame}
    (h : bindArguments f args = .ok frame) (name : String) :
    (Entries.get? name frame.locals).isSome = true ↔ name ∈ f.params.map (·.1) := by
  obtain ⟨slots, hnames, hmissing, rfl⟩ := bindArguments_eq_ok h
  rw [← hnames, ← keys_boundNames hmissing, Option.isSome_iff_ne_none, ne_eq,
    Entries.get?_eq_none_iff, not_not]

/-! ### Slots -/

/-- A slot with the argument for its name, if none has been given by position. -/
def Slot.fill (named : Entries) (slot : Slot) : Slot :=
  { slot with given := slot.given.or (Entries.get? slot.name named) }

theorem Slot.fill_nil (slot : Slot) : slot.fill [] = slot := by
  rw [fill, Entries.get?, Option.or_none]

theorem Slot.fill_of_ne {slot : Slot} (hname : slot.name ≠ name) (v : Value) (named : Entries) :
    slot.fill ((name, v) :: named) = slot.fill named := by
  rw [fill, Entries.get?, if_neg (Ne.symm hname)]
  rfl

theorem Slot.fill_fill (slot : Slot) (name : String) (v : Value) (named : Entries) :
    (slot.fill [(name, v)]).fill named = slot.fill ((name, v) :: named) := by
  by_cases hname : slot.name = name
  · simp [fill, Entries.get?, hname]
  · rw [fill_of_ne hname, fill_of_ne hname, fill_nil]

theorem map_fill_of_ne (hnames : ∀ slot ∈ slots, slot.name ≠ name) (v : Value) :
    slots.map (Slot.fill [(name, v)]) = slots := by
  refine (List.map_congr_left fun slot hslot => ?_).trans (List.map_id slots)
  rw [Slot.fill_of_ne (hnames slot hslot), Slot.fill_nil, id]

/-- An argument that is given by name takes the slot of its name, which must be free. -/
theorem fillSlot_eq_ok_iff (hnames : (slots.map (·.name)).Nodup) :
    fillSlot function name v slots = .ok filled ↔
      (∃ slot ∈ slots, slot.name = name ∧ slot.given = none) ∧
        filled = slots.map (Slot.fill [(name, v)]) := by
  induction slots generalizing filled with
  | nil => simp [fillSlot]
  | cons slot slots ih =>
    rw [List.map_cons, List.nodup_cons] at hnames
    rw [fillSlot]
    by_cases hname : slot.name = name
    · have hothers : ∀ other ∈ slots, other.name ≠ name := by
        rintro other hother rfl
        exact hnames.1 (hname ▸ List.mem_map_of_mem hother)
      rw [if_pos hname, List.map_cons, map_fill_of_ne hothers]
      cases hgiven : slot.given with
      | some w =>
        refine iff_of_false (by rintro ⟨⟩) ?_
        rintro ⟨⟨other, hother, hother', hfree⟩, -⟩
        rcases List.mem_cons.mp hother with rfl | hother
        · cases hgiven.symm.trans hfree
        · exact hothers other hother hother'
      | none =>
        have hfill : slot.fill [(name, v)] = { slot with given := some v } := by
          rw [Slot.fill, hgiven, Option.none_or, Entries.get?, if_pos hname.symm]
        rw [hfill, and_iff_right ⟨slot, List.mem_cons_self, hname, hgiven⟩]
        exact ⟨fun h => (Except.ok.inj h).symm, fun h => congrArg Except.ok h.symm⟩
    · have hfree : (∃ other ∈ slot :: slots, other.name = name ∧ other.given = none) ↔
          ∃ other ∈ slots, other.name = name ∧ other.given = none := by
        simp [hname]
      rw [if_neg hname, hfree, List.map_cons, Slot.fill_of_ne hname, Slot.fill_nil]
      cases hrest : fillSlot function name v slots with
      | error e =>
        refine iff_of_false (by rintro ⟨⟩) ?_
        rintro ⟨hslot, -⟩
        cases hrest.symm.trans ((ih hnames.2).mpr ⟨hslot, rfl⟩)
      | ok rest =>
        obtain ⟨hslot, rfl⟩ := (ih hnames.2).mp hrest
        rw [and_iff_right hslot]
        exact ⟨fun h => (Except.ok.inj h).symm, fun h => congrArg Except.ok h.symm⟩

theorem map_name_fill (named : Entries) (slots : List Slot) :
    (slots.map (Slot.fill named)).map (·.name) = slots.map (·.name) := by
  rw [List.map_map]
  rfl

/-- Arguments that are given by different names each take the slot of their name. -/
theorem fillSlots_eq_ok_iff (hnames : (slots.map (·.name)).Nodup)
    (hnamed : (Entries.keys named).Nodup) :
    fillSlots function named slots = .ok filled ↔
      (∀ e ∈ named, ∃ slot ∈ slots, slot.name = e.1 ∧ slot.given = none) ∧
        filled = slots.map (Slot.fill named) := by
  induction named generalizing slots with
  | nil =>
    have hfill : slots.map (Slot.fill []) = slots :=
      (List.map_congr_left fun slot _ => slot.fill_nil).trans (List.map_id slots)
    rw [fillSlots, hfill]
    simp [eq_comm]
  | cons e named ih =>
    obtain ⟨name, v⟩ := e
    rw [Entries.keys_cons, List.nodup_cons] at hnamed
    -- The slot that the first argument takes is none of those that the others take.
    have hfree : (∀ e ∈ named, ∃ slot ∈ slots.map (Slot.fill [(name, v)]),
          slot.name = e.1 ∧ slot.given = none) ↔
        ∀ e ∈ named, ∃ slot ∈ slots, slot.name = e.1 ∧ slot.given = none := by
      refine forall₂_congr fun e he => ?_
      simp only [List.mem_map, exists_exists_and_eq_and]
      refine exists_congr fun slot => and_congr_right fun _ => and_congr_right fun hname => ?_
      have hne : slot.name ≠ name := by
        rintro rfl
        exact hnamed.1 (List.mem_map.mpr ⟨e, he, hname.symm⟩)
      rw [Slot.fill_of_ne hne, Slot.fill_nil]
    have hfill : (slots.map (Slot.fill [(name, v)])).map (Slot.fill named) =
        slots.map (Slot.fill ((name, v) :: named)) := by
      rw [List.map_map]
      exact List.map_congr_left fun slot _ => slot.fill_fill name v named
    rw [fillSlots, List.forall_mem_cons]
    cases hslot : fillSlot function name v slots with
    | error e =>
      refine iff_of_false (by rintro ⟨⟩) ?_
      rintro ⟨⟨hfirst, -⟩, -⟩
      cases hslot.symm.trans ((fillSlot_eq_ok_iff hnames).mpr ⟨hfirst, rfl⟩)
    | ok next =>
      obtain ⟨hfirst, rfl⟩ := (fillSlot_eq_ok_iff hnames).mp hslot
      change fillSlots function named _ = _ ↔ _
      rw [ih (by rwa [map_name_fill]) hnamed.2, hfree, hfill, and_iff_right hfirst]

theorem getElem?_positionalSlots (params : List (String × Option Value)) (values : List Value)
    (i : Nat) : (positionalSlots params values)[i]? =
      (params[i]?).map fun p => ⟨p.1, values[i]?, p.2⟩ := by
  induction params generalizing values i with
  | nil => simp [positionalSlots]
  | cons p params ih =>
    obtain ⟨name, default?⟩ := p
    cases values with
    | nil => cases i <;> simp [positionalSlots, ih]
    | cons v values => cases i <;> simp [positionalSlots, ih]

theorem mem_positionalSlots {params : List (String × Option Value)} {values : List Value}
    {slot : Slot} :
    slot ∈ positionalSlots params values ↔
      ∃ (i : Nat) (p : String × Option Value), params[i]? = some p ∧
        slot = ⟨p.1, values[i]?, p.2⟩ := by
  simp only [List.mem_iff_getElem?, getElem?_positionalSlots, Option.map_eq_some_iff]
  exact exists₂_congr fun i p => and_congr_right fun _ => eq_comm

/-! ### The frame of a call -/

/-- The arguments of a call fit some parameters: no more of them are given by position than there
are parameters, each one that is given by name belongs to a parameter which no argument has been
given for by position, and every parameter without a default has an argument. -/
structure CallArgs.Fit (args : CallArgs) (params : List (String × Option Value)) : Prop where
  positional : args.positional.length ≤ params.length
  keyword : ∀ e ∈ args.keyword, ∃ (i : Nat) (p : String × Option Value),
    args.positional.length ≤ i ∧ params[i]? = some p ∧ p.1 = e.1
  filled : ∀ (i : Nat) (p : String × Option Value), params[i]? = some p → p.2 = none →
    i < args.positional.length ∨ p.1 ∈ Entries.keys args.keyword

/-- The names of a call are its parameters, each of which is bound to the argument for its position,
the argument for its name or its default. -/
structure CallArgs.Binds (args : CallArgs) (params : List (String × Option Value)) (locals : Entries) :
    Prop where
  names : locals.keys = params.map (·.1)
  positional : ∀ (i : Nat) (p : String × Option Value) (v : Value), params[i]? = some p →
    args.positional[i]? = some v → locals.get? p.1 = some v
  keyword : ∀ e ∈ args.keyword, locals.get? e.1 = some e.2
  default : ∀ (i : Nat) (p : String × Option Value) (v : Value), params[i]? = some p →
    args.positional.length ≤ i → p.1 ∉ Entries.keys args.keyword → p.2 = some v →
    locals.get? p.1 = some v

variable {f : Function} {args : CallArgs} {frame : Frame}

theorem missingNames_eq_nil : missingNames slots = [] ↔ ∀ slot ∈ slots, slot.value? ≠ none := by
  simp [missingNames, List.filter_eq_nil_iff]

/-- The parameters of a call with all arguments. -/
def callSlots (params : List (String × Option Value)) (args : CallArgs) : List Slot :=
  (positionalSlots params args.positional).map (Slot.fill args.keyword)

theorem mem_callSlots {slot : Slot} :
    slot ∈ callSlots params args ↔ ∃ (i : Nat) (p : String × Option Value), params[i]? = some p ∧
      slot = ⟨p.1, args.positional[i]?.or (Entries.get? p.1 args.keyword), p.2⟩ := by
  simp only [callSlots, List.mem_map, mem_positionalSlots]
  constructor
  · rintro ⟨_, ⟨i, p, hp, rfl⟩, rfl⟩
    exact ⟨i, p, hp, rfl⟩
  · rintro ⟨i, p, hp, rfl⟩
    exact ⟨_, ⟨i, p, hp, rfl⟩, rfl⟩

theorem callSlots_names (params : List (String × Option Value)) (args : CallArgs) :
    (callSlots params args).map (·.name) = params.map (·.1) := by
  rw [callSlots, map_name_fill, positionalSlots_names]

/-- No parameter is left without a value just where those without a default have an argument. -/
theorem missingNames_callSlots :
    missingNames (callSlots params args) = [] ↔
      ∀ (i : Nat) (p : String × Option Value), params[i]? = some p → p.2 = none →
        i < args.positional.length ∨ p.1 ∈ Entries.keys args.keyword := by
  rw [missingNames_eq_nil]
  constructor
  · intro h i p hp hdefault
    have hvalue := h _ (mem_callSlots.mpr ⟨i, p, hp, rfl⟩)
    rw [Slot.value?, hdefault, Option.or_none] at hvalue
    by_contra hnot
    obtain ⟨hi, hkey⟩ := not_or.mp hnot
    exact hvalue (by rw [List.getElem?_eq_none (Nat.not_lt.mp hi),
      Entries.get?_eq_none_iff.mpr hkey]; rfl)
  · intro h slot hslot
    obtain ⟨i, p, hp, rfl⟩ := mem_callSlots.mp hslot
    rw [Slot.value?, Ne, Option.or_eq_none_iff, Option.or_eq_none_iff, List.getElem?_eq_none_iff,
      Entries.get?_eq_none_iff]
    rintro ⟨⟨hi, hkey⟩, hdefault⟩
    exact (h i p hp hdefault).elim (Nat.not_lt.mpr hi) hkey

/-- Binding succeeds just where the arguments fit, and the frame is then made of the filled
slots. -/
theorem bindArguments_eq_ok_iff (hnames : (f.params.map (·.1)).Nodup)
    (hkeyword : (Entries.keys args.keyword).Nodup) :
    bindArguments f args = .ok frame ↔
      args.Fit f.params ∧ frame = ⟨boundNames (callSlots f.params args), []⟩ := by
  have hnames' : ((positionalSlots f.params args.positional).map (·.name)).Nodup := by
    rwa [positionalSlots_names]
  have hfree : (∀ e ∈ args.keyword, ∃ slot ∈ positionalSlots f.params args.positional,
        slot.name = e.1 ∧ slot.given = none) ↔
      ∀ e ∈ args.keyword, ∃ (i : Nat) (p : String × Option Value),
        args.positional.length ≤ i ∧ f.params[i]? = some p ∧ p.1 = e.1 := by
    refine forall₂_congr fun e _ => ?_
    simp only [mem_positionalSlots]
    constructor
    · rintro ⟨_, ⟨i, p, hp, rfl⟩, hname, hgiven⟩
      exact ⟨i, p, List.getElem?_eq_none_iff.mp hgiven, hp, hname⟩
    · rintro ⟨i, p, hi, hp, hname⟩
      exact ⟨_, ⟨i, p, hp, rfl⟩, hname, List.getElem?_eq_none_iff.mpr hi⟩
  rw [bindArguments]
  split_ifs with hlength
  · exact iff_of_false (by rintro ⟨⟩) fun h => Nat.not_lt.mpr h.1.positional hlength
  · cases hslots : fillSlots f.name args.keyword (positionalSlots f.params args.positional) with
    | error e =>
      refine iff_of_false (by rintro ⟨⟩) fun h => ?_
      cases hslots.symm.trans ((fillSlots_eq_ok_iff hnames' hkeyword).mpr
        ⟨hfree.mpr h.1.keyword, rfl⟩)
    | ok slots =>
      obtain ⟨hkeywords, hfilled⟩ := (fillSlots_eq_ok_iff hnames' hkeyword).mp hslots
      obtain rfl : slots = callSlots f.params args := hfilled
      cases hmissing : missingNames (callSlots f.params args) with
      | nil =>
        simp only [bind, Except.bind, pure, Except.pure, hmissing]
        have hfit : args.Fit f.params :=
          ⟨Nat.not_lt.mp hlength, hfree.mp hkeywords, missingNames_callSlots.mp hmissing⟩
        rw [and_iff_right hfit]
        exact ⟨fun h => (Except.ok.inj h).symm, fun h => congrArg Except.ok h.symm⟩
      | cons name names =>
        simp only [bind, Except.bind, hmissing]
        refine iff_of_false (by rintro ⟨⟩) fun h => ?_
        cases hmissing.symm.trans (missingNames_callSlots.mpr h.1.filled)

/-- Arguments that fit bind the parameters. -/
theorem binds_boundNames (hnames : (params.map (·.1)).Nodup)
    (hkeyword : (Entries.keys args.keyword).Nodup) (hfit : args.Fit params) :
    args.Binds params (boundNames (callSlots params args)) := by
  have hkeys : (boundNames (callSlots params args)).keys = params.map (·.1) :=
    (keys_boundNames (missingNames_callSlots.mpr hfit.filled)).trans (callSlots_names params args)
  have hbound {i : Nat} {p : String × Option Value} {v : Value} (hp : params[i]? = some p)
      (hv : (args.positional[i]?.or (Entries.get? p.1 args.keyword)).or p.2 = some v) :
      (boundNames (callSlots params args)).get? p.1 = some v := by
    refine Entries.get?_of_mem (hkeys ▸ hnames) (List.mem_filterMap.mpr ?_)
    exact ⟨_, mem_callSlots.mpr ⟨i, p, hp, rfl⟩, by rw [Slot.value?, hv]; rfl⟩
  refine ⟨hkeys, fun i p v hp hv => ?positional, fun e he => ?keyword,
    fun i p v hp hi hname hv => ?default⟩
  case positional =>
    refine hbound hp ?_
    rw [hv]
    rfl
  case keyword =>
    obtain ⟨i, p, hi, hp, hname⟩ := hfit.keyword e he
    rw [← hname]
    refine hbound hp ?_
    rw [List.getElem?_eq_none hi, hname, Entries.get?_of_mem hkeyword he]
    rfl
  case default =>
    refine hbound hp ?_
    rw [List.getElem?_eq_none hi, Entries.get?_eq_none_iff.mpr hname]
    exact hv

end NoteShell.Script
