import NoteShell.Proofs.Parsing.Limits
import NoteShell.Proofs.Values.Entries
import NoteShell.Script.Effect

/-!
# Sound heaps

In a sound heap the keys of each dict are distinct. A heap may moreover be bounded: its texts and
lists have no more items than a sequence may have. Some operations do not check the size of what
they make, and in a bounded heap no value stands for one of them. Both kinds of heaps are treated
together: where `bounded` is false, sizes do not matter.

## Main definitions

* `Value.Sound`, `Heap.Sound` : sound values and heaps.
* `Ensures` : what is known of a result, if there is one.
-/

namespace NoteShell.Script

/-! ### Operations without a check -/

/-- Whether a builtin function makes no text or list without checking its size. -/
def Builtin.checksSize : Builtin → Bool
  | .str | .repr | .list | .sorted | .keys | .values => false
  | _ => true

/-- Whether a method of texts makes no text or list without checking its size. -/
def StrMethod.checksSize : StrMethod → Bool
  | .upper | .lower | .split => false
  | _ => true

/-- Whether a method of dicts makes no list without checking its size. -/
def DictMethod.checksSize : DictMethod → Bool
  | .keys | .values | .items => false
  | _ => true

end NoteShell.Script

namespace NoteShell.Grammar

open NoteShell.Script

/-- An expression makes no text or list without checking its size: it fills no fields into a text,
and names no function or method without such a check. -/
def Expr.ChecksSize : Expr → Prop
  | .formatted _ => False
  | .name n => ∀ b, Builtin.ofName? n = some b → b.checksSize = true
  | .member _ n =>
    (∀ m, StrMethod.ofName? n = some m → m.checksSize = true) ∧
      ∀ m, DictMethod.ofName? n = some m → m.checksSize = true
  | _ => True

/-- Where sizes matter, an expression keeps to them. -/
def Expr.Sound (bounded : Bool) (e : Expr) : Prop :=
  bounded = true → e.ChecksSize ∧ e.Fits maxSequence

end NoteShell.Grammar

namespace NoteShell.Script

open NoteShell.Grammar

/-! ### Values and heaps -/

/-- The text in a value is not too long. -/
def Value.Limited : Value → Prop
  | .str s | .strMethod s _ => s.length ≤ maxSequence
  | _ => True

/-- A value stands for no operation that does not check sizes. -/
def Value.ChecksSize : Value → Prop
  | .builtin b => b.checksSize = true
  | .strMethod _ m => m.checksSize = true
  | .dictMethod _ m => m.checksSize = true
  | _ => True

variable {bounded : Bool}

/-- Where sizes matter, a number of items is not too large. -/
def Within (bounded : Bool) (n : Nat) : Prop := bounded = true → n ≤ maxSequence

/-- Where sizes matter, a value keeps to them. -/
def Value.Sound (bounded : Bool) (v : Value) : Prop := bounded = true → v.Limited ∧ v.ChecksSize

/-- The items of a list are sound and not too many. -/
structure SoundItems (bounded : Bool) (items : Array Value) : Prop where
  size : Within bounded items.size
  values : ∀ v ∈ items, v.Sound bounded

/-- The keys of a dict are distinct, and keys and values are sound. -/
structure SoundEntries (bounded : Bool) (es : Entries) : Prop where
  nodup : es.keys.Nodup
  entries : ∀ e ∈ es, Within bounded e.1.length ∧ e.2.Sound bounded

/-- The defaults and the body of a function are sound. -/
structure Function.Sound (bounded : Bool) (f : Function) : Prop where
  defaults : ∀ p ∈ f.params, ∀ v ∈ p.2, v.Sound bounded
  body : ∀ s ∈ f.body, s.Holds (Expr.Sound bounded)

/-- All lists, dicts and functions of a heap are sound. -/
structure Heap.Sound (bounded : Bool) (h : Heap) : Prop where
  lists : ∀ items ∈ h.lists, SoundItems bounded items
  dicts : ∀ es ∈ h.dicts, SoundEntries bounded es
  functions : ∀ f ∈ h.functions, f.Sound bounded

theorem Within.mono {n m : Nat} (h : Within bounded n) (hm : m ≤ n) : Within bounded m :=
  fun hb => Nat.le_trans hm (h hb)

theorem within_of_le {n : Nat} (h : n ≤ maxSequence) : Within bounded n := fun _ => h

theorem sound_str {s : String} : (Value.str s).Sound bounded ↔ Within bounded s.length :=
  ⟨fun h hb => (h hb).1, fun h hb => ⟨h hb, trivial⟩⟩

theorem sound_of_isNumber {v : Value} (hv : v.isNumber = true) : v.Sound bounded := by
  intro _
  cases v <;> first | exact ⟨trivial, trivial⟩ | cases hv

theorem sound_none : Value.none.Sound bounded := fun _ => ⟨trivial, trivial⟩

theorem sound_list (r : ListRef) : (Value.list r).Sound bounded := fun _ => ⟨trivial, trivial⟩

theorem sound_dict (r : DictRef) : (Value.dict r).Sound bounded := fun _ => ⟨trivial, trivial⟩

theorem sound_range (r : Range) : (Value.range r).Sound bounded := fun _ => ⟨trivial, trivial⟩

theorem sound_function (r : FunctionRef) : (Value.function r).Sound bounded :=
  fun _ => ⟨trivial, trivial⟩

theorem soundItems_empty : SoundItems bounded #[] := ⟨fun _ => Nat.zero_le _, by simp⟩

theorem soundEntries_nil : SoundEntries bounded [] := ⟨List.nodup_nil, by simp⟩

/-- An operation that does not check sizes is only there where they do not matter. -/
theorem within_of_unchecked {checks : Bool} (h : bounded = true → checks = true)
    (hchecks : checks = false) (n : Nat) : Within bounded n :=
  fun hb => absurd (hchecks.symm.trans (h hb)) Bool.false_ne_true

/-- The heap without anything in it. -/
theorem sound_empty : Heap.empty.Sound bounded := by
  constructor <;> simp [Heap.empty]

namespace SoundEntries

variable {es : Entries} {key : String} {v : Value}

theorem set (h : SoundEntries bounded es) (hkey : Within bounded key.length)
    (hv : v.Sound bounded) :
    SoundEntries bounded (es.set key v) := by
  refine ⟨Entries.nodup_keys_set h.nodup key v, fun e he => ?_⟩
  rcases Entries.mem_of_mem_set he with rfl | he
  · exact ⟨hkey, hv⟩
  · exact h.entries e he

theorem erase (h : SoundEntries bounded es) (key : String) : SoundEntries bounded (es.erase key) :=
  ⟨Entries.nodup_keys_erase h.nodup key,
    fun e he => h.entries e ((Entries.erase_sublist key es).subset he)⟩

end SoundEntries

namespace Heap.Sound

variable {h : Heap}

theorem getD_of_forall_mem {α : Type} {P : α → Prop} {xs : Array α} {default : α}
    (hxs : ∀ a ∈ xs, P a) (hdefault : P default) (n : Nat) : P (xs.getD n default) := by
  rw [Array.getD_eq_getD_getElem?]
  cases hn : xs[n]? with
  | none => exact hdefault
  | some a => exact hxs a (Array.mem_of_getElem? hn)

theorem items (hh : h.Sound bounded) (r : ListRef) : SoundItems bounded (h.items r) :=
  getD_of_forall_mem hh.lists soundItems_empty r.index

theorem entries (hh : h.Sound bounded) (r : DictRef) : SoundEntries bounded (h.entries r) :=
  getD_of_forall_mem hh.dicts soundEntries_nil r.index

theorem function (hh : h.Sound bounded) (r : FunctionRef) : (h.function r).Sound bounded :=
  getD_of_forall_mem hh.functions ⟨by simp, by simp⟩ r.index

/-- After a change in one place, everything is as it was or the changed thing. -/
theorem forall_mem_modify {α : Type} {P : α → Prop} {xs : Array α} {default : α} {n : Nat}
    {f : α → α} (hxs : ∀ a ∈ xs, P a) (hf : P (f (xs.getD n default))) :
    ∀ a ∈ xs.modify n f, P a := by
  intro a ha
  obtain ⟨i, hi⟩ := Array.getElem?_of_mem ha
  rw [Array.getElem?_modify] at hi
  split_ifs at hi with hn
  · obtain ⟨b, hb, rfl⟩ := Option.map_eq_some_iff.mp hi
    rw [Array.getD_eq_getD_getElem?, hn, hb] at hf
    exact hf
  · exact hxs a (Array.mem_of_getElem? hi)

theorem updateList (hh : h.Sound bounded) {r : ListRef} {f : Array Value → Array Value}
    (hf : SoundItems bounded (f (h.items r))) : (h.updateList r f).Sound bounded :=
  ⟨forall_mem_modify hh.lists hf, hh.dicts, hh.functions⟩

theorem updateDict (hh : h.Sound bounded) {r : DictRef} {f : Entries → Entries}
    (hf : SoundEntries bounded (f (h.entries r))) : (h.updateDict r f).Sound bounded :=
  ⟨hh.lists, forall_mem_modify hh.dicts hf, hh.functions⟩

theorem forall_mem_push {α : Type} {P : α → Prop} {xs : Array α} {a : α} (hxs : ∀ a ∈ xs, P a)
    (ha : P a) : ∀ b ∈ xs.push a, P b := by
  intro b hb
  rcases Array.mem_push.mp hb with hb | rfl
  · exact hxs b hb
  · exact ha

theorem newList (hh : h.Sound bounded) {items : Array Value} (hitems : SoundItems bounded items) :
    (h.newList items).2.Sound bounded :=
  ⟨forall_mem_push hh.lists hitems, hh.dicts, hh.functions⟩

theorem newDict (hh : h.Sound bounded) {es : Entries} (hes : SoundEntries bounded es) :
    (h.newDict es).2.Sound bounded :=
  ⟨hh.lists, forall_mem_push hh.dicts hes, hh.functions⟩

theorem newFunction (hh : h.Sound bounded) {f : Function} (hf : f.Sound bounded) :
    (h.newFunction f).2.Sound bounded :=
  ⟨hh.lists, hh.dicts, forall_mem_push hh.functions hf⟩

end Heap.Sound

/-! ### Results -/

/-- What is known of a result, if there is one. -/
def Ensures {ε α : Type} (A : α → Prop) (x : Except ε α) : Prop := ∀ a, x = .ok a → A a

section Ensures

variable {ε α β : Type} {A : α → Prop} {B : β → Prop} {x : Except ε α}

theorem ensures_ok {a : α} (ha : A a) : Ensures A (.ok a : Except ε α) := by
  rintro _ ⟨⟩
  exact ha

theorem ensures_error {e : ε} : Ensures A (.error e) := nofun

theorem ensures_true : Ensures (fun _ => True) x := fun _ _ => trivial

theorem Ensures.bind {f : α → Except ε β} (hx : Ensures A x)
    (hf : ∀ a, A a → Ensures B (f a)) : Ensures B (x >>= f) := by
  cases x with
  | error e => exact ensures_error
  | ok a => exact hf a (hx a rfl)

/-- A check goes first. -/
theorem Ensures.after {f : α → Except ε β} (hf : ∀ a, Ensures B (f a)) :
    Ensures B (x >>= f) :=
  ensures_true.bind fun a _ => hf a

theorem Ensures.map {f : α → β} (hx : Ensures A x) (hf : ∀ a, A a → B (f a)) :
    Ensures B (f <$> x) := by
  cases x with
  | error e => exact ensures_error
  | ok a => exact ensures_ok (hf a (hx a rfl))

theorem Ensures.mono {A' : α → Prop} (hx : Ensures A x) (h : ∀ a, A a → A' a) : Ensures A' x :=
  fun a ha => h a (hx a ha)

/-- A result that fails with an error only is the same where there may be a crash. -/
theorem Ensures.lift {x : Except EvalError α} (hx : Ensures A x) :
    Ensures A (liftM x : Except Failure α) := by
  cases x with
  | error e => exact ensures_error
  | ok a => exact ensures_ok (hx a rfl)

theorem ensures_ite {c : Prop} [Decidable c] {y : Except ε α} (hx : c → Ensures A x)
    (hy : ¬ c → Ensures A y) : Ensures A (if c then x else y) := by
  split_ifs with hc
  · exact hx hc
  · exact hy hc

end Ensures

end NoteShell.Script
