import Mathlib.Data.List.Induction
import Mathlib.Data.List.Nodup
import Mathlib.Tactic.Common
import NoteShell.Shell.Startup

/-!
# Registration of skills

Registering skills one by one, or module by module, comes down to a list of requests, each for a
name and a binding. The registry that comes of it can be read off the requests: a name that is not
reserved is bound to what was first asked for it, and the bound names stand in the order in which
they were first asked for.

## Main definitions

* `Registration` : the ways to ask for bindings.
* `Registry.Answers` : a registry is what some requests make of an empty one.

## Main results

* `Registry.Answers.register` : one more request.
* `registry_consistent` : what registries are like after any registrations.
* `nodup_availableObjects` : the overview lists no name twice.
-/

namespace NoteShell

/-- Ways to ask for bindings. -/
inductive Registration where
  | single (name : String) (binding : SkillBinding)
  | skill (s : Skill)
  | module (m : SkillModule)

/-- The names that a registration asks for, and what they are to be bound to. -/
def Registration.requests : Registration → List (String × SkillBinding)
  | single name binding => [(name, binding)]
  | skill s => [(s.name, .available s)]
  | module m => Registry.bindingsOf m

namespace Registry

/-- Carry out a registration. -/
def perform (r : Registry) : Registration → List RegisterOutcome × Registry
  | .single name binding => ([(r.register name binding).1], (r.register name binding).2)
  | .skill s => ([(r.registerSkill s).1], (r.registerSkill s).2)
  | .module m => r.registerModule m

/-- Carry out registrations in order. -/
def performAll (r : Registry) : List Registration → List RegisterOutcome × Registry
  | [] => ([], r)
  | registration :: rest =>
    let (outcomes, r) := r.perform registration
    let (others, r) := r.performAll rest
    (outcomes ++ others, r)

/-- The names that are asked for and not reserved, each where it is asked for first. -/
def firstNames (reserved : List String) (requests : List (String × SkillBinding)) : List String :=
  ((requests.map (·.1)).filter fun name => !reserved.contains name).eraseDups

/-- A registry with these reserved names is what the requests make of an empty one. -/
structure Answers (r : Registry) (reserved : List String) (requests : List (String × SkillBinding)) :
    Prop where
  reserved_eq : r.reserved = reserved
  nodup : r.names.Nodup
  names_eq : r.names = firstNames reserved requests
  get?_eq : ∀ name, r.get? name = if name ∈ reserved then none else requests.lookup name

variable {r : Registry} {reserved : List String} {requests : List (String × SkillBinding)}
  {name : String} {binding : SkillBinding}

/-! ### One request -/

theorem register_of_reserved (h : name ∈ r.reserved) :
    r.register name binding = (.skipped ("'" ++ name ++ "' is a core name"), r) :=
  if_pos (List.contains_iff_mem.mpr h)

theorem register_of_bound (h : name ∉ r.reserved) (hbound : (r.get? name).isSome = true) :
    r.register name binding = (.skipped ("'" ++ name ++ "' is already registered"), r) :=
  (if_neg (mt List.contains_iff_mem.mp h)).trans (if_pos hbound)

theorem register_of_free (h : name ∉ r.reserved) (hfree : r.get? name = none) :
    r.register name binding = (.registered,
      { r with bindings := (name, binding) :: r.bindings, order := r.order ++ [name] }) :=
  (if_neg (mt List.contains_iff_mem.mp h)).trans (if_neg (by simp [contains, hfree]))

/-- A request is answered by `registered` exactly where it binds its name. -/
theorem register_eq_registered_iff :
    (r.register name binding).1 = .registered ↔
      r.get? name = none ∧ (r.register name binding).2.get? name = some binding := by
  by_cases hreserved : name ∈ r.reserved
  · rw [register_of_reserved hreserved]
    simp +contextual
  · cases hbound : r.get? name with
    | some b => simp [register_of_bound hreserved (Option.isSome_iff_exists.mpr ⟨b, hbound⟩)]
    | none =>
      rw [register_of_free hreserved hbound]
      simp [get?]

/-- A bound name keeps its binding. -/
theorem get?_register (h : r.get? name = some binding) (other : String) (b : SkillBinding) :
    (r.register other b).2.get? name = some binding := by
  by_cases hreserved : other ∈ r.reserved
  · rwa [register_of_reserved hreserved]
  · cases hbound : r.get? other with
    | some b' => rwa [register_of_bound hreserved (Option.isSome_iff_exists.mpr ⟨b', hbound⟩)]
    | none =>
      rw [register_of_free hreserved hbound]
      have hne : name ≠ other := fun heq => by rw [heq, hbound] at h; cases h
      rw [get?, List.lookup_cons, beq_false_of_ne hne]
      exact h

/-! ### What requests make of an empty registry -/

theorem lookup_concat_of_ne {other : String} (hne : other ≠ name) :
    (requests ++ [(name, binding)]).lookup other = requests.lookup other := by
  rw [List.lookup_append, List.lookup_cons, beq_false_of_ne hne, List.lookup_nil, Option.or_none]

theorem lookup_concat_self :
    (requests ++ [(name, binding)]).lookup name = (requests.lookup name).or (some binding) := by
  rw [List.lookup_append, List.lookup_cons_self]

theorem mem_firstNames :
    name ∈ firstNames reserved requests ↔ name ∉ reserved ∧
      (requests.lookup name).isSome = true := by
  have hmap : name ∈ requests.map (·.1) ↔ ∃ p ∈ requests, (name == p.1) = true := by
    rw [List.mem_map]
    exact exists_congr fun p => and_congr_right fun _ => by rw [beq_iff_eq, eq_comm]
  rw [firstNames, List.mem_eraseDups, List.mem_filter, List.lookup_isSome_iff, hmap, and_comm,
    Bool.not_eq_true', List.contains_eq_mem, decide_eq_false_iff_not]

theorem firstNames_concat :
    firstNames reserved (requests ++ [(name, binding)]) =
      firstNames reserved requests ++
        if name ∈ reserved ∨ name ∈ firstNames reserved requests then [] else [name] := by
  by_cases hreserved : name ∈ reserved
  · simp [firstNames, hreserved]
  · have hasked : ([name].filter fun name => !reserved.contains name) = [name] := by
      simp [hreserved]
    rw [firstNames, List.map_append, List.map_singleton, List.filter_append, hasked,
      List.eraseDups_append, ← firstNames]
    by_cases hmem : name ∈ firstNames reserved requests
    · have hlisted := List.mem_eraseDups.mp hmem
      rw [if_pos (.inr hmem), List.removeAll, List.filter_cons_of_neg (by simpa using hlisted)]
      rfl
    · have hlisted := mt List.mem_eraseDups.mpr hmem
      rw [if_neg (not_or.mpr ⟨hreserved, hmem⟩), List.removeAll,
        List.filter_cons_of_pos (by simpa using hlisted)]
      rfl

theorem answers_empty (reserved : List String) : (empty reserved).Answers reserved [] :=
  ⟨rfl, List.nodup_nil, rfl, fun name => by simp [get?, empty]⟩

namespace Answers

/-- The bound names are those that have a binding. -/
theorem mem_names_iff (h : r.Answers reserved requests) :
    name ∈ r.names ↔ (r.get? name).isSome = true := by
  rw [h.names_eq, mem_firstNames, h.get?_eq]
  split_ifs with hreserved <;> simp [hreserved]

/-- A request for a name that is reserved or was asked for before changes nothing. -/
theorem skip (h : r.Answers reserved requests)
    (hname : name ∈ reserved ∨ (requests.lookup name).isSome = true) (binding : SkillBinding) :
    r.Answers reserved (requests ++ [(name, binding)]) := by
  refine ⟨h.reserved_eq, h.nodup, ?_, fun other => ?_⟩
  · have hlisted : name ∈ reserved ∨ name ∈ firstNames reserved requests := by
      rw [mem_firstNames]
      tauto
    rw [firstNames_concat, if_pos hlisted, List.append_nil, h.names_eq]
  · rw [h.get?_eq]
    split_ifs with hreserved
    · rfl
    · by_cases hne : other = name
      · subst hne
        rw [lookup_concat_self, Option.or_of_isSome (hname.resolve_left hreserved)]
      · rw [lookup_concat_of_ne hne]

/-- The registry after one more request. -/
theorem register (h : r.Answers reserved requests) (name : String) (binding : SkillBinding) :
    (r.register name binding).2.Answers reserved (requests ++ [(name, binding)]) := by
  obtain rfl := h.reserved_eq
  have hget := h.get?_eq name
  by_cases hreserved : name ∈ r.reserved
  · rw [register_of_reserved hreserved]
    exact h.skip (.inl hreserved) binding
  rw [if_neg hreserved] at hget
  cases hasked : requests.lookup name with
  | some b =>
    rw [register_of_bound hreserved (by rw [hget, hasked]; rfl)]
    exact h.skip (.inr (by rw [hasked]; rfl)) binding
  | none =>
    rw [hasked] at hget
    rw [register_of_free hreserved hget]
    have hnew : name ∉ r.names := by simp [h.mem_names_iff, hget]
    have hfirst : name ∉ firstNames r.reserved requests := h.names_eq ▸ hnew
    refine ⟨rfl, List.nodup_append.mpr ⟨h.nodup, List.nodup_singleton name, ?_⟩, ?_,
      fun other => ?_⟩
    · rintro a ha b hb rfl
      exact hnew (List.mem_singleton.mp hb ▸ ha)
    · rw [firstNames_concat, if_neg (not_or.mpr ⟨hreserved, hfirst⟩), ← h.names_eq]
      rfl
    · by_cases hne : other = name
      · subst hne
        rw [if_neg hreserved, lookup_concat_self, hasked, get?, List.lookup_cons_self]
        rfl
      · rw [lookup_concat_of_ne hne, ← h.get?_eq, get?, List.lookup_cons, beq_false_of_ne hne]
        rfl

end Answers

/-! ### Many requests -/

theorem registerAll_append (r : Registry) (before after : List (String × SkillBinding)) :
    r.registerAll (before ++ after) =
      ((r.registerAll before).1 ++ ((r.registerAll before).2.registerAll after).1,
        ((r.registerAll before).2.registerAll after).2) := by
  induction before generalizing r with
  | nil => rfl
  | cons request before ih =>
    simp only [List.cons_append, registerAll, ih]

/-- Registrations come down to their requests. -/
theorem performAll_eq (r : Registry) (registrations : List Registration) :
    r.performAll registrations = r.registerAll (registrations.flatMap Registration.requests) := by
  induction registrations generalizing r with
  | nil => rfl
  | cons registration rest ih =>
    have hperform : r.perform registration = r.registerAll registration.requests := by
      cases registration <;> rfl
    simp only [List.flatMap_cons, registerAll_append, performAll, hperform, ih]

/-- The registry after any requests. -/
theorem answers_registerAll (reserved : List String) (requests : List (String × SkillBinding)) :
    ((empty reserved).registerAll requests).2.Answers reserved requests := by
  induction requests using List.reverseRecOn with
  | nil => exact answers_empty reserved
  | append_singleton requests request ih =>
    rw [registerAll_append]
    exact ih.register request.1 request.2

theorem length_registerAll (r : Registry) (requests : List (String × SkillBinding)) :
    (r.registerAll requests).1.length = requests.length := by
  induction requests generalizing r with
  | nil => rfl
  | cons request requests ih => exact congrArg (· + 1) (ih _)

/-- A bound name keeps its binding. -/
theorem get?_registerAll (h : r.get? name = some binding)
    (requests : List (String × SkillBinding)) :
    (r.registerAll requests).2.get? name = some binding := by
  induction requests generalizing r with
  | nil => exact h
  | cons request requests ih => exact ih (get?_register h request.1 request.2)

/-- The names of available skills are those of the bound names that are bound to a skill. -/
theorem mem_availableNames (h : r.Answers reserved requests) :
    name ∈ r.availableNames ↔ ∃ skill, r.get? name = some (.available skill) := by
  rw [availableNames, List.mem_filter]
  have hmem : name ∈ r.names ↔ (r.get? name).isSome = true := h.mem_names_iff
  constructor
  · rintro ⟨-, havailable⟩
    cases hget : r.get? name with
    | none => rw [hget] at havailable; cases havailable
    | some binding =>
      rw [hget] at havailable
      cases binding with
      | available skill => exact ⟨skill, rfl⟩
      | unavailable module reason => cases havailable
  · rintro ⟨skill, hget⟩
    exact ⟨hmem.mpr (by rw [hget]; rfl), by rw [hget]; rfl⟩

/-- After any registrations the bound names are listed once each, in the order in which they were
first asked for; they are those that have a binding, and no reserved name is among them. A name is
bound to what was first asked for it, and stays so whatever is registered later. Of all requests
exactly those are reported as registered which bind their name. The available names are those of the
bound names that are bound to a skill. -/
theorem registry_consistent (reserved : List String) (registrations : List Registration) :
    let requests := registrations.flatMap Registration.requests
    let outcomes := ((empty reserved).performAll registrations).1
    let r := ((empty reserved).performAll registrations).2
    r.names.Nodup ∧
    (∀ name, name ∈ r.names ↔ (r.get? name).isSome = true) ∧
    (∀ name ∈ reserved, r.get? name = none) ∧
    r.names = ((requests.map (·.1)).filter fun name => !reserved.contains name).eraseDups ∧
    (∀ name, name ∉ reserved → r.get? name = requests.lookup name) ∧
    (∀ later name binding, r.get? name = some binding →
      (r.performAll later).2.get? name = some binding) ∧
    outcomes.length = requests.length ∧
    (∀ before name binding after, requests = before ++ (name, binding) :: after →
      let earlier := ((empty reserved).registerAll before).2
      (outcomes[before.length]? = some .registered ↔
        earlier.get? name = none ∧ (earlier.register name binding).2.get? name = some binding)) ∧
    r.availableNames.Sublist r.names ∧
    ∀ name, name ∈ r.availableNames ↔ ∃ skill, r.get? name = some (.available skill) := by
  intro requests outcomes r
  have hperform : (empty reserved).performAll registrations =
      (empty reserved).registerAll requests :=
    performAll_eq _ _
  have hr : r.Answers reserved requests := by
    simp only [r, hperform]
    exact answers_registerAll reserved requests
  refine ⟨hr.nodup, fun name => hr.mem_names_iff, fun name hname => ?_, hr.names_eq,
    fun name hname => ?_,
    fun later name binding h => ?_, ?_, ?_, List.filter_sublist, fun name => mem_availableNames hr⟩
  · rw [hr.get?_eq, if_pos hname]
  · rw [hr.get?_eq, if_neg hname]
  · rw [performAll_eq]
    exact get?_registerAll h _
  · simp only [outcomes, hperform]
    exact length_registerAll _ _
  · intro before name binding after hrequests earlier
    have houtcome : outcomes[before.length]? = some (earlier.register name binding).1 := by
      simp only [outcomes, hperform, hrequests, registerAll_append]
      rw [List.getElem?_append_right (Nat.le_of_eq (length_registerAll _ _)), length_registerAll,
        Nat.sub_self]
      rfl
    rw [houtcome, Option.some.injEq, register_eq_registered_iff]

/-- Two skills and a module without its skills, of which one has a name that is taken and another
one a reserved name. -/
theorem registry_consistent_collisions :
    let echo (name : String) : Skill := ⟨name, fun _ host => (.ok (), host)⟩
    let registrations : List Registration := [.skill (echo "echo"),
      .module (.unavailable "charts" ["print", "echo", "plot"] "no"), .skill (echo "plot")]
    let result := (empty ["print", "len"]).performAll registrations
    result.2.names = ["echo", "plot"] ∧
      result.2.get? "print" = none ∧
      result.2.get? "plot" = some (.unavailable "charts" "no") ∧
      (result.2.perform (.skill (echo "plot"))).2.get? "plot" = some (.unavailable "charts" "no") ∧
      result.1[3]? = some .registered := by
  intro echo registrations result
  obtain ⟨-, -, hreserved, hnames, hget, hlater, -, houtcomes, -, -⟩ :=
    registry_consistent ["print", "len"] registrations
  have hplot := hget "plot" (by decide)
  exact ⟨hnames.trans (by decide), hreserved "print" (by decide), hplot,
    hlater [.skill (echo "plot")] "plot" _ hplot,
    (houtcomes [("echo", .available (echo "echo")), ("print", .unavailable "charts" "no"),
      ("echo", .unavailable "charts" "no")] "plot" (.unavailable "charts" "no")
      [("plot", .available (echo "plot"))] rfl).mpr ⟨rfl, rfl⟩⟩

/-! ### The registry of a session -/

theorem ofModules_eq (modules : List SkillModule) :
    ofModules modules = ((empty Script.coreNames).performAll (modules.map .module)).2 := by
  rw [ofModules]
  generalize empty Script.coreNames = r
  induction modules generalizing r with
  | nil => rfl
  | cons m modules ih => exact ih _

/-- The overview of a session lists no name twice: a skill takes neither the name of another one nor
one of the names of the shell. -/
theorem nodup_availableObjects (modules : List SkillModule) :
    (Script.availableObjects (ofModules modules)).Nodup := by
  have hr : (ofModules modules).Answers Script.coreNames
      ((modules.map Registration.module).flatMap Registration.requests) := by
    rw [ofModules_eq, performAll_eq]
    exact answers_registerAll _ _
  have hcore {name : String} (hname : name ∈ Script.coreNames) :
      name ∉ (ofModules modules).names := by
    rw [hr.mem_names_iff, hr.get?_eq, if_pos hname]
    exact Bool.false_ne_true
  have hnot {name : String}
      (hname : name ∈ ["info", "available", "frontmatter", "context", "note_path",
        "get_frontmatter"]) : name ∉ (ofModules modules).names :=
    hcore (by revert name; decide)
  rw [Script.availableObjects, List.nodup_append, List.nodup_append]
  refine ⟨⟨by decide, hr.nodup, ?_⟩, by decide, ?_⟩
  · rintro a ha b hb rfl
    exact hnot (List.mem_append_left _ ha) hb
  · rintro a ha b hb rfl
    have hdisjoint : ∀ name ∈ ["info", "available"],
        name ∉ ["frontmatter", "context", "note_path", "get_frontmatter"] := by decide
    rcases List.mem_append.mp ha with ha | ha
    · exact hdisjoint a ha hb
    · exact hnot (List.mem_append_right ["info", "available"] hb) ha

end Registry

end NoteShell
