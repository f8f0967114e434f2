import NoteShell.Json.Parser
import NoteShell.Proofs.Values.Sound

/-!
# Sound documents

The members of an object that is read stand in the order of their keys, each key once. No text or
array in a document has more items than the document was written with characters.

## Main definitions

* `Json.Sound` : documents with distinct keys, whose texts and arrays are not too long.
* `Json.TakesSound` : what a reader takes from the start of a text is sound.

## Main results

* `Json.sound_of_parse` : documents that are read are sound.
-/

namespace NoteShell.Json

open NoteShell.Script

variable {bounded : Bool}

/-- The keys of a document are distinct, and where sizes matter its texts and arrays keep to
them. -/
inductive Sound (bounded : Bool) : Json → Prop
  | null : Sound bounded null
  | bool (b : Bool) : Sound bounded (bool b)
  | int (i : Int) : Sound bounded (int i)
  | float (x : Float) : Sound bounded (float x)
  | str {s : String} (hs : Within bounded s.length) : Sound bounded (str s)
  | arr {items : List Json} (hsize : Within bounded items.length)
    (hitems : ∀ j ∈ items, Sound bounded j) : Sound bounded (arr items)
  | obj {members : Members} (horder : (members.map (·.1)).Pairwise (· < ·))
    (hkeys : ∀ m ∈ members, Within bounded m.1.length)
    (hvalues : ∀ m ∈ members, Sound bounded m.2) : Sound bounded (obj members)

/-- Members in the order of their keys, with sound values. -/
structure SoundMembers (bounded : Bool) (members : Members) : Prop where
  order : (members.map (·.1)).Pairwise (· < ·)
  members : ∀ m ∈ members, Within bounded m.1.length ∧ m.2.Sound bounded

theorem soundMembers_nil : SoundMembers bounded [] := ⟨.nil, by simp⟩

theorem sound_obj {members : Members} :
    (obj members).Sound bounded ↔ SoundMembers bounded members := by
  constructor
  · rintro (_ | _ | _ | _ | _ | _ | ⟨horder, hkeys, hvalues⟩)
    exact ⟨horder, fun m hm => ⟨hkeys m hm, hvalues m hm⟩⟩
  · rintro ⟨horder, hmembers⟩
    exact .obj horder (fun m hm => (hmembers m hm).1) fun m hm => (hmembers m hm).2

theorem mem_of_find? {members : Members} {key : String} {j : Json}
    (hj : Json.find? key members = some j) : (key, j) ∈ members := by
  induction members with
  | nil => cases hj
  | cons m members ih =>
    rw [Json.find?] at hj
    split_ifs at hj with hkey
    · cases hj
      cases hkey
      exact List.mem_cons_self
    · exact List.mem_cons_of_mem _ (ih hj)

theorem SoundMembers.find? {members : Members} (h : SoundMembers bounded members) {key : String}
    {j : Json} (hj : Json.find? key members = some j) : j.Sound bounded :=
  (h.members _ (mem_of_find? hj)).2

/-! ### Members in the order of their keys -/

theorem mem_of_mem_insert {key : String} {value : Json} {members : Members} {m : String × Json}
    (hm : m ∈ insert key value members) : m = (key, value) ∨ m ∈ members := by
  induction members with
  | nil => exact .inl (List.mem_singleton.mp hm)
  | cons entry members ih =>
    obtain ⟨k, v⟩ := entry
    rw [insert] at hm
    split_ifs at hm
    · rcases List.mem_cons.mp hm with rfl | hm
      · exact .inl rfl
      · exact .inr (List.mem_cons_of_mem _ hm)
    · exact List.mem_cons.mp hm
    · rcases List.mem_cons.mp hm with rfl | hm
      · exact .inr List.mem_cons_self
      · exact (ih hm).imp_right (List.mem_cons_of_mem _)

/-- A new member goes to its place in the order. -/
theorem pairwise_insert {members : Members} (h : (members.map (·.1)).Pairwise (· < ·))
    (key : String) (value : Json) : ((insert key value members).map (·.1)).Pairwise (· < ·) := by
  induction members with
  | nil => exact List.pairwise_singleton _ _
  | cons entry members ih =>
    obtain ⟨k, v⟩ := entry
    obtain ⟨hk, hmembers⟩ := List.pairwise_cons.mp h
    rw [insert]
    split_ifs with heq hlt
    · exact heq ▸ h
    · refine List.pairwise_cons.mpr ⟨fun k' hk' => ?_, h⟩
      rcases List.mem_cons.mp hk' with rfl | hk'
      · exact hlt
      · exact String.lt_trans hlt (hk k' hk')
    · refine List.pairwise_cons.mpr ⟨fun k' hk' => ?_, ih hmembers⟩
      obtain ⟨m, hm, rfl⟩ := List.mem_map.mp hk'
      rcases mem_of_mem_insert hm with rfl | hm
      · exact ((Std.lt_trichotomy k key).resolve_right (not_or.mpr ⟨heq, hlt⟩))
      · exact hk _ (List.mem_map_of_mem hm)

theorem SoundMembers.insert {members : Members} (h : SoundMembers bounded members) {key : String}
    {value : Json} (hkey : Within bounded key.length) (hvalue : value.Sound bounded) :
    SoundMembers bounded (insert key value members) := by
  refine ⟨pairwise_insert h.order key value, fun m hm => ?_⟩
  rcases mem_of_mem_insert hm with rfl | hm
  · exact ⟨hkey, hvalue⟩
  · exact h.members m hm

/-- Members in any order, of which some may have the same key. -/
theorem soundMembers_membersOf {entries : List (String × Json)}
    (h : ∀ e ∈ entries, Within bounded e.1.length ∧ e.2.Sound bounded) :
    SoundMembers bounded (membersOf entries) := by
  have hfold {members : Members} (hmembers : SoundMembers bounded members) :
      SoundMembers bounded (entries.foldl (fun acc e => Json.insert e.1 e.2 acc) members) := by
    induction entries generalizing members with
    | nil => exact hmembers
    | cons e entries ih =>
      rw [List.forall_mem_cons] at h
      exact ih h.2 (hmembers.insert h.1.1 h.1.2)
  exact hfold soundMembers_nil

/-! ### Readers -/

/-- What is taken from the start of `n` characters is sound, and no characters are added. -/
def TakesSound (bounded : Bool) (n : Nat) (x : Option (Json × List Char)) : Prop :=
  ∀ j rest, x = some (j, rest) → j.Sound bounded ∧ rest.length ≤ n

section Results

variable {n m : Nat} {j : Json} {rest cs : List Char} {x : Option (Json × List Char)}

theorem takesSound_none : TakesSound bounded n none := nofun

theorem takesSound_some (hj : j.Sound bounded) (hrest : rest.length ≤ n) :
    TakesSound bounded n (some (j, rest)) := by
  rintro _ _ ⟨⟩
  exact ⟨hj, hrest⟩

theorem TakesSound.mono (hx : TakesSound bounded n x) (hn : n ≤ m) : TakesSound bounded m x :=
  fun j rest h => ⟨(hx j rest h).1, Nat.le_trans (hx j rest h).2 hn⟩

theorem takesSound_ite {c : Prop} [Decidable c] {y : Option (Json × List Char)}
    (hx : c → TakesSound bounded n x) (hy : ¬ c → TakesSound bounded n y) :
    TakesSound bounded n (if c then x else y) := by
  split_ifs with hc
  · exact hx hc
  · exact hy hc

theorem length_skipSpace_le (cs : List Char) : (skipSpace cs).length ≤ cs.length :=
  (List.dropWhile_suffix _).length_le

/-! ### Numbers -/

/-- A number that stands before the rest of the text. -/
theorem takesSound_map {number : Option Json} (hnumber : ∀ j ∈ number, j.Sound bounded)
    (hrest : rest.length ≤ n) : TakesSound bounded n (number.map (·, rest)) := by
  intro j rest' h
  obtain ⟨j', hj', hpair⟩ := Option.map_eq_some_iff.mp h
  cases hpair
  exact ⟨hnumber j hj', hrest⟩

theorem sound_floatOf (negative : Bool) (significand : Nat) (exponent : Int) :
    ∀ j ∈ floatOf negative significand exponent, j.Sound bounded := by
  intro j hj
  obtain ⟨x, -, rfl⟩ := Option.map_eq_some_iff.mp hj
  exact .float _

theorem takesSound_readExponent (negative : Bool) (significand : Nat) (exponent : Int)
    (cs : List Char) :
    TakesSound bounded cs.length (readExponent negative significand exponent cs) := by
  unfold readExponent
  split
  next down ds hds =>
  have hle : ds.length ≤ cs.length := by
    split at hds <;> cases hds <;> simp
  refine takesSound_ite (fun _ => takesSound_none) fun _ => takesSound_map ?_ ?_
  · split_ifs
    · exact sound_floatOf _ _ _
    · exact sound_floatOf _ _ _
    · nofun
    · rintro j ⟨⟩
      exact .float _
    · rintro j ⟨⟩
      exact .float _
  · exact Nat.le_trans (List.dropWhile_suffix _).length_le hle

theorem takesSound_readTail (negative : Bool) (significand : Nat) (exponent : Int)
    (cs : List Char) :
    TakesSound bounded cs.length (readTail negative significand exponent cs) := by
  cases cs with
  | nil => exact takesSound_map (sound_floatOf _ _ _) (Nat.le_refl _)
  | cons c rest =>
    refine takesSound_ite (fun _ => ?_) fun _ =>
      takesSound_map (sound_floatOf _ _ _) (Nat.le_refl _)
    exact (takesSound_readExponent _ _ _ _).mono (Nat.le_succ _)

theorem length_takeFraction_le (significand count : Nat) (cs : List Char) :
    (takeFraction significand count cs).2.2.length ≤ cs.length := by
  fun_induction takeFraction significand count cs with
  | case1 _ _ c rest _ _ ih => exact Nat.le_trans ih (Nat.le_succ _)
  | _ => exact Nat.le_refl _

theorem length_takeWhole_le (significand : Nat) (cs : List Char) :
    (takeWhole significand cs).2.length ≤ cs.length := by
  fun_induction takeWhole significand cs with
  | case1 _ c rest _ _ ih => exact Nat.le_trans ih (Nat.le_succ _)
  | _ => exact Nat.le_refl _

theorem takesSound_readFraction (negative : Bool) (significand : Nat) (exponent : Int)
    (cs : List Char) :
    TakesSound bounded cs.length (readFraction negative significand exponent cs) := by
  cases cs with
  | nil => exact takesSound_none
  | cons c rest =>
    have hle := length_takeFraction_le significand 0 (c :: rest)
    refine takesSound_ite (fun _ => (takesSound_readTail _ _ _ _).mono ?_) fun _ => takesSound_none
    exact Nat.le_trans (List.dropWhile_suffix _).length_le hle

theorem sound_integer (negative : Bool) (significand : Nat) :
    (readAfterWhole.integer negative significand).Sound bounded := by
  rw [readAfterWhole.integer]
  split_ifs
  · exact .float _
  · exact .int _
  · exact .int _

theorem takesSound_readAfterWhole (negative : Bool) (significand : Nat) (cs : List Char) :
    TakesSound bounded cs.length (readAfterWhole negative significand cs) := by
  unfold readAfterWhole
  split
  · exact (takesSound_readFraction _ _ _ _).mono (Nat.le_succ _)
  · next c rest _ =>
    have hle : ((c :: rest).dropWhile Char.isDigit).length ≤ (c :: rest).length :=
      (List.dropWhile_suffix _).length_le
    refine takesSound_ite (fun _ => (takesSound_readExponent _ _ _ _).mono (Nat.le_succ _))
      fun _ => takesSound_ite (fun _ => ?_) fun _ => ?_
    · dsimp only
      split
      · next tail htail =>
        rw [htail] at hle
        exact (takesSound_readFraction _ _ _ _).mono (Nat.le_trans (Nat.le_succ _) hle)
      · exact (takesSound_readTail _ _ _ _).mono hle
    · exact takesSound_some (sound_integer _ _) (Nat.le_refl _)
  · exact takesSound_some (sound_integer _ _) (Nat.le_refl _)

theorem takesSound_readNumber (cs : List Char) : TakesSound bounded cs.length (readNumber? cs) := by
  unfold readNumber?
  split
  next negative ds hds =>
  have hle : ds.length ≤ cs.length := by
    split at hds <;> cases hds <;> simp
  refine TakesSound.mono ?_ hle
  cases ds with
  | nil => exact takesSound_none
  | cons c rest =>
    have hwhole (significand : Nat) : TakesSound bounded (rest.length + 1)
        (readAfterWhole negative significand rest) :=
      (takesSound_readAfterWhole negative significand rest).mono (Nat.le_succ _)
    refine takesSound_ite (fun _ => ?_) fun _ => takesSound_ite (fun _ => ?_) fun _ =>
      takesSound_none
    · cases rest with
      | nil => exact hwhole 0
      | cons d rest => exact takesSound_ite (fun _ => takesSound_none) fun _ => hwhole 0
    · exact (takesSound_readAfterWhole _ _ _).mono (length_takeWhole_le 0 (c :: rest))

/-! ### Texts and containers -/

/-- A text has fewer characters than it is written with, its quote among them. -/
theorem length_readText {pending : Option Nat} {acc cs rest : List Char} {s : String}
    (h : readText pending acc cs = some (s, rest)) :
    s.length + rest.length + 1 ≤ acc.length + cs.length := by
  fun_induction readText pending acc cs with
  | case2 | case4 | case5 | case8 | case12 =>
    rename_i ih
    have hle := ih h
    simp only [List.length_cons] at hle ⊢
    omega
  | case11 =>
    cases h
    simp only [String.length_ofList, List.length_reverse, List.length_cons]
    omega
  | _ => cases h

theorem takesSound_readScalar (cs : List Char) (hcs : Within bounded cs.length) :
    TakesSound bounded cs.length (readScalar cs) := by
  unfold readScalar
  split
  · exact takesSound_some .null (by simp only [List.length_cons]; omega)
  · exact takesSound_some (.bool _) (by simp only [List.length_cons]; omega)
  · exact takesSound_some (.bool _) (by simp only [List.length_cons]; omega)
  · intro j rest h
    obtain ⟨⟨s, tail⟩, hs, hpair⟩ := Option.map_eq_some_iff.mp h
    cases hpair
    have hle := length_readText hs
    rw [List.length_nil] at hle
    rw [List.length_cons] at hcs ⊢
    exact ⟨.str (hcs.mono (by omega)), by omega⟩
  · exact takesSound_readNumber cs

/-- A reader takes sound documents from texts that are not too long. -/
def TakesSoundValues (bounded : Bool) (value : Reader) : Prop :=
  ∀ cs : List Char, Within bounded cs.length → TakesSound bounded cs.length (value cs)

variable {value : Reader}

/-- The items of an array, each of which is written with a character at least. -/
theorem takesSound_readItems (hvalue : TakesSoundValues bounded value) (fuel : Nat)
    {acc : List Json} (hacc : ∀ j ∈ acc, j.Sound bounded)
    (hcs : Within bounded (acc.length + cs.length)) :
    TakesSound bounded cs.length (readItems value fuel acc cs) := by
  induction fuel generalizing acc cs with
  | zero => exact takesSound_none
  | succ fuel ih =>
    have hspace := length_skipSpace_le cs
    rw [readItems]
    split
    · exact takesSound_none
    next item rest hitem =>
    obtain ⟨hsound, hrest⟩ := hvalue _ (hcs.mono (by omega)) item rest hitem
    have hspace' := length_skipSpace_le rest
    have hacc' : ∀ j ∈ item :: acc, j.Sound bounded := List.forall_mem_cons.mpr ⟨hsound, hacc⟩
    split
    · next tail htail =>
      rw [htail, List.length_cons] at hspace'
      refine (ih hacc' (hcs.mono ?_)).mono (by omega)
      rw [List.length_cons]
      omega
    · next tail htail =>
      rw [htail, List.length_cons] at hspace'
      refine takesSound_some (.arr (hcs.mono ?_) ?_) (by omega)
      · rw [List.length_reverse, List.length_cons]
        omega
      · exact fun j hj => hacc' j (List.mem_reverse.mp hj)
    · exact takesSound_none

/-- The members of an object, which are put in the order of their keys. -/
theorem takesSound_readMembers (hvalue : TakesSoundValues bounded value) (fuel : Nat)
    {acc : List (String × Json)}
    (hacc : ∀ e ∈ acc, Within bounded e.1.length ∧ e.2.Sound bounded)
    (hcs : Within bounded cs.length) :
    TakesSound bounded cs.length (readMembers value fuel acc cs) := by
  induction fuel generalizing acc cs with
  | zero => exact takesSound_none
  | succ fuel ih =>
    have hspace := length_skipSpace_le cs
    rw [readMembers]
    split
    swap
    · exact takesSound_none
    next rest hquote =>
    rw [hquote, List.length_cons] at hspace
    split
    · exact takesSound_none
    next key rest' hkey =>
    have hkeyLength := length_readText hkey
    have hspace' := length_skipSpace_le rest'
    rw [List.length_nil] at hkeyLength
    split
    swap
    · exact takesSound_none
    next tail hcolon =>
    rw [hcolon, List.length_cons] at hspace'
    have hspaceTail := length_skipSpace_le tail
    split
    · exact takesSound_none
    next item tail' hitem =>
    obtain ⟨hsound, hrest⟩ := hvalue _ (hcs.mono (by omega)) item tail' hitem
    have hspaceTail' := length_skipSpace_le tail'
    have hkey' : Within bounded key.length := hcs.mono (by omega)
    have hacc' : ∀ e ∈ (key, item) :: acc, Within bounded e.1.length ∧ e.2.Sound bounded :=
      List.forall_mem_cons.mpr ⟨⟨hkey', hsound⟩, hacc⟩
    split
    · next end' hcomma =>
      rw [hcomma, List.length_cons] at hspaceTail'
      exact (ih hacc' (hcs.mono (by omega))).mono (by omega)
    · next end' hclose =>
      rw [hclose, List.length_cons] at hspaceTail'
      refine takesSound_some (sound_obj.mpr (soundMembers_membersOf ?_)) (by omega)
      exact fun e he => hacc' e (List.mem_reverse.mp he)
    · exact takesSound_none

theorem takesSound_readValue (depth : Nat) : TakesSoundValues bounded (readValue depth) := by
  induction depth with
  | zero => exact takesSound_readScalar
  | succ depth ih =>
    intro cs hcs
    unfold readValue
    split
    · next rest =>
      have hspace := length_skipSpace_le rest
      rw [List.length_cons] at hcs ⊢
      split
      · next tail htail =>
        rw [htail, List.length_cons] at hspace
        exact takesSound_some (.arr (fun _ => Nat.zero_le _) (by simp)) (by omega)
      · refine (takesSound_readItems ih _ (by simp) (hcs.mono ?_)).mono (by omega)
        rw [List.length_nil]
        omega
    · next rest =>
      have hspace := length_skipSpace_le rest
      rw [List.length_cons] at hcs ⊢
      split
      · next tail htail =>
        rw [htail, List.length_cons] at hspace
        exact takesSound_some (sound_obj.mpr soundMembers_nil) (by omega)
      · exact (takesSound_readMembers ih _ (by simp) (hcs.mono (by omega))).mono (by omega)
    · exact takesSound_readScalar cs hcs

end Results

/-- Documents that are read are sound. -/
theorem sound_of_parse {text : String} {j : Json} (htext : Within bounded text.length)
    (h : parse? text = some j) : j.Sound bounded := by
  unfold parse? at h
  split at h
  · next value rest hvalue =>
    have hspace := length_skipSpace_le text.toList
    rw [String.length_toList] at hspace
    split_ifs at h
    cases h
    exact (takesSound_readValue maxNesting _ (htext.mono hspace) _ rest hvalue).1
  · cases h

end NoteShell.Json
