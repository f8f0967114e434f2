import NoteShell.Chart.Color
import NoteShell.Proofs.Values.IntegerTexts

/-!
# Texts of colours

Among the texts of the first 128 characters a colour is written as one of the names, or as a hash
sign with three or six hexadecimal digits, where blank space around the text and its case do not
count. With six digits a plus sign in the place of the first digit of a channel is taken as well.

## Main definitions

* `IsChannel` : the two characters of a channel.
* `StandsFor` : the characters of a colour.

## Main results

* `parse?_eq_some_iff` : which texts are colours.
* `color_of_text` : the digits and the signs of colours.
-/

namespace NoteShell.Color

open NoteShell.Script NoteShell.Text

/-- Two hexadecimal digits stand for the value of a channel. Where they may be signed, a plus sign
stands in the place of the first digit. -/
inductive IsChannel (signed : Bool) : (high low : Char) → (value : UInt8) → Prop
  | digits {high low : Char} {h l : Nat} {value : UInt8} (hhigh : IsDigit 16 high h)
    (hlow : IsDigit 16 low l) (hvalue : value.toNat = 16 * h + l) : IsChannel signed high low value
  | plus {low : Char} {value : UInt8} (hsigned : signed = true) (hlow : IsDigit 16 low value.toNat) :
    IsChannel signed '+' low value

/-- The characters stand for a colour: they are one of the names, or a hash sign with the digits of
the channels, each digit being doubled where there are three of them. -/
inductive StandsFor (signed : Bool) : List Char → Color → Prop
  | name {name : String} {color : Color} (h : (name, color) ∈ named) : StandsFor signed name.toList color
  | pairs {r₁ r₂ g₁ g₂ b₁ b₂ : Char} {color : Color} (hred : IsChannel signed r₁ r₂ color.red)
    (hgreen : IsChannel signed g₁ g₂ color.green) (hblue : IsChannel signed b₁ b₂ color.blue) :
    StandsFor signed ['#', r₁, r₂, g₁, g₂, b₁, b₂] color
  | doubled {r g b : Char} {color : Color} (hred : IsChannel false r r color.red)
    (hgreen : IsChannel false g g color.green) (hblue : IsChannel false b b color.blue) :
    StandsFor signed ['#', r, g, b] color

/-- The characters of a text in lower case, without the blank space around them. -/
def plainForm (spec : String) : List Char := (trimChars spec.toList).map Char.toLower

variable {signed : Bool} {high low : Char} {value : UInt8} {cs : List Char} {color : Color}
    {spec : String}

/-! ### Channels -/

theorem toNat_toUInt8 {n : Nat} (h : n < 256) : n.toUInt8.toNat = n := Nat.mod_eq_of_lt h

theorem not_isDigit_plus {d : Nat} : ¬ IsDigit 16 '+' d := fun h => by
  rw [← digitOf?_eq_some_iff] at h
  cases h

theorem channel?_eq_some_iff : channel? high low = some value ↔ IsChannel true high low value := by
  constructor
  · intro h
    rw [channel?] at h
    split at h
    · cases h
    · next l hl =>
      have hlow := digitOf?_eq_some_iff.mp hl
      have hsmall := hlow.1
      split_ifs at h with hplus
      · cases h
        rw [hplus]
        have hvalue : l.toUInt8.toNat = l := toNat_toUInt8 (by omega)
        exact .plus rfl (hvalue.symm ▸ hlow)
      · obtain ⟨d, hd, rfl⟩ := Option.map_eq_some_iff.mp h
        have hhigh := digitOf?_eq_some_iff.mp hd
        have hsmall' := hhigh.1
        exact .digits hhigh hlow (toNat_toUInt8 (by omega))
  · rintro (⟨hhigh, hlow, hvalue⟩ | ⟨-, hlow⟩)
    · have hplus : high ≠ '+' := fun h => not_isDigit_plus (h ▸ hhigh)
      rw [channel?, digitOf?_eq_some_iff.mpr hlow]
      dsimp only
      rw [if_neg hplus, digitOf?_eq_some_iff.mpr hhigh, Option.map_some, ← hvalue]
      exact congrArg some UInt8.ofNat_toNat
    · rw [channel?, digitOf?_eq_some_iff.mpr hlow]
      dsimp only
      rw [if_pos rfl]
      exact congrArg some UInt8.ofNat_toNat

theorem IsChannel.of_ne (h : IsChannel true high low value) (hne : high ≠ '+') :
    IsChannel signed high low value := by
  cases h with
  | digits hhigh hlow hvalue => exact .digits hhigh hlow hvalue
  | plus => exact absurd rfl hne

theorem IsChannel.signed_of (h : IsChannel signed high low value) :
    IsChannel true high low value := by
  cases h with
  | digits hhigh hlow hvalue => exact .digits hhigh hlow hvalue
  | plus _ hlow => exact .plus rfl hlow

/-- A digit that is doubled is no sign. -/
theorem IsChannel.of_doubled (h : IsChannel true low low value) :
    IsChannel signed low low value := by
  cases h with
  | digits hhigh hlow hvalue => exact .digits hhigh hlow hvalue
  | plus _ hlow => exact absurd hlow not_isDigit_plus

/-- The channels of characters of one byte each are pairs of them. -/
theorem readChannels_pairs {r₁ r₂ g₁ g₂ b₁ b₂ : Char}
    (hsize : ∀ c ∈ [r₁, r₂, g₁, g₂, b₁, b₂], c.utf8Size = 1) :
    readChannels [r₁, r₂, g₁, g₂, b₁, b₂] = some (do
      let red ← channel? r₁ r₂
      let green ← channel? g₁ g₂
      let blue ← channel? b₁ b₂
      return ⟨red, green, blue⟩) := by
  simp only [List.forall_mem_cons] at hsize
  obtain ⟨hr₁, hr₂, hg₁, hg₂, hb₁, hb₂, -⟩ := hsize
  have hnext {c d : Char} (hc : c.utf8Size = 1) (hd : d.utf8Size = 1) (cs : List Char) :
      nextChannel (c :: d :: cs) = some (channel? c d, cs) := by
    have hsplit : splitBytes 2 (c :: d :: cs) = some ([c, d], cs) := by
      simp [splitBytes, hc, hd]
    rw [nextChannel, hsplit]
    rfl
  rw [readChannels, hnext hr₁ hr₂]
  cases channel? r₁ r₂ with
  | none => rfl
  | some red =>
    change (nextChannel _ >>= _) = _
    rw [hnext hg₁ hg₂]
    cases channel? g₁ g₂ with
    | none => rfl
    | some green =>
      change (nextChannel _ >>= _) = _
      rw [hnext hb₁ hb₂]
      cases channel? b₁ b₂ <;> rfl

/-! ### Texts -/

/-- A name belongs to a single colour. -/
theorem find?_named_eq_some_iff {name : String} :
    (named.find? fun e => e.1 == name).map (·.2) = some color ↔ (name, color) ∈ named := by
  have hsingle : ∀ e ∈ named, named.find? (fun e' => e'.1 == e.1) = some e := by decide +kernel
  constructor
  · intro h
    obtain ⟨e, he, rfl⟩ := Option.map_eq_some_iff.mp h
    obtain rfl : e.1 = name := by simpa using List.find?_some he
    exact List.mem_of_find?_eq_some he
  · intro h
    rw [hsingle _ h, Option.map_some]

/-- No name begins with a hash sign. -/
theorem head?_of_mem_named {name : String} (h : (name, color) ∈ named) (cs : List Char) :
    name.toList ≠ '#' :: cs := by
  have hhead : ∀ e ∈ named, e.1.toList.head? ≠ some '#' := by decide +kernel
  intro heq
  exact hhead _ h (by rw [heq]; rfl)

/-- The channels that characters of one byte each are read as. -/
theorem readHex_eq (hsize : ∀ c ∈ cs, c.utf8Size = 1) :
    readHex cs =
      match cs with
      | [r, g, b] => readChannels [r, r, g, g, b, b]
      | [_, _, _, _, _, _] => readChannels cs
      | _ => some none := by
  have hlength : byteCount cs = cs.length := by
    induction cs with
    | nil => rfl
    | cons c cs ih =>
      obtain ⟨hc, hcs⟩ := List.forall_mem_cons.mp hsize
      rw [byteCount, hc, ih hcs, List.length_cons, Nat.add_comm]
  rw [readHex, hlength]
  rcases cs with _ | ⟨r₁, _ | ⟨r₂, _ | ⟨g₁, _ | ⟨g₂, _ | ⟨b₁, _ | ⟨b₂, _ | ⟨c, cs⟩⟩⟩⟩⟩⟩⟩ <;> rfl

/-- The digits behind a hash sign are read as the channels, in whatever way they end up. -/
theorem readHex_eq_some_iff (hsize : ∀ c ∈ cs, c.utf8Size = 1) :
    readHex cs = some (some color) ↔ StandsFor true ('#' :: cs) color := by
  have hchannels {r₁ r₂ g₁ g₂ b₁ b₂ : Char}
      (hsize : ∀ c ∈ [r₁, r₂, g₁, g₂, b₁, b₂], c.utf8Size = 1) :
      readChannels [r₁, r₂, g₁, g₂, b₁, b₂] = some (some color) ↔
        IsChannel true r₁ r₂ color.red ∧ IsChannel true g₁ g₂ color.green ∧
          IsChannel true b₁ b₂ color.blue := by
    obtain ⟨red, green, blue⟩ := color
    rw [readChannels_pairs hsize, ← channel?_eq_some_iff, ← channel?_eq_some_iff,
      ← channel?_eq_some_iff]
    cases channel? r₁ r₂ <;> cases channel? g₁ g₂ <;> cases channel? b₁ b₂ <;> simp
  rw [readHex_eq hsize]
  constructor
  · intro h
    rcases cs with _ | ⟨r₁, _ | ⟨r₂, _ | ⟨g₁, _ | ⟨g₂, _ | ⟨b₁, _ | ⟨b₂, _ | ⟨c, cs⟩⟩⟩⟩⟩⟩⟩
    case cons.cons.cons.nil =>
      obtain ⟨hred, hgreen, hblue⟩ := (hchannels fun c hc => hsize c (by simp_all)).mp h
      exact .doubled hred.of_doubled hgreen.of_doubled hblue.of_doubled
    case cons.cons.cons.cons.cons.cons.nil =>
      obtain ⟨hred, hgreen, hblue⟩ := (hchannels hsize).mp h
      exact .pairs hred hgreen hblue
    all_goals cases h
  · generalize hcs' : '#' :: cs = cs'
    rintro (hmem | ⟨hred, hgreen, hblue⟩ | ⟨hred, hgreen, hblue⟩)
    · exact absurd hcs'.symm (head?_of_mem_named hmem cs)
    · cases hcs'
      exact (hchannels hsize).mpr ⟨hred, hgreen, hblue⟩
    · cases hcs'
      exact (hchannels fun c hc => hsize c (by simp_all)).mpr
        ⟨hred.signed_of, hgreen.signed_of, hblue.signed_of⟩

/-- A text of characters of one byte each is read without a crash. -/
theorem isSome_readHex (hsize : ∀ c ∈ cs, c.utf8Size = 1) : (readHex cs).isSome := by
  rw [readHex_eq hsize]
  rcases cs with _ | ⟨r₁, _ | ⟨r₂, _ | ⟨g₁, _ | ⟨g₂, _ | ⟨b₁, _ | ⟨b₂, _ | ⟨c, cs⟩⟩⟩⟩⟩⟩⟩
  case cons.cons.cons.nil =>
    dsimp only
    rw [readChannels_pairs fun c hc => hsize c (by simp_all)]
    rfl
  case cons.cons.cons.cons.cons.cons.nil =>
    dsimp only
    rw [readChannels_pairs hsize]
    rfl
  all_goals rfl

theorem toList_lower_trim (hspec : ∀ c ∈ spec.toList, c.toNat < 128) :
    (lower (trim spec)).toList = plainForm spec := by
  have htrim : (trim spec).toList = trimChars spec.toList := String.toList_ofList
  obtain ⟨before, after, hsplit, -⟩ := exists_blanks spec.toList
  rw [toList_lower_of_ascii, htrim, plainForm]
  intro c hc
  rw [htrim] at hc
  refine hspec c ?_
  rw [hsplit]
  simp [hc]

/-- The characters of such a text have one byte each, also in lower case. -/
theorem utf8Size_of_mem_plainForm (hspec : ∀ c ∈ spec.toList, c.toNat < 128) :
    ∀ c ∈ plainForm spec, c.utf8Size = 1 := by
  have hlower : ∀ n < 128, (Char.ofNat n).toLower.utf8Size = 1 := by decide +kernel
  obtain ⟨before, after, hsplit, -⟩ := exists_blanks spec.toList
  intro c hc
  obtain ⟨d, hd, rfl⟩ := List.mem_map.mp hc
  have hmem : d ∈ spec.toList := by
    rw [hsplit]
    simp [hd]
  have hsize := hlower d.toNat (hspec d hmem)
  rwa [Char.ofNat_toNat] at hsize

/-- Which texts are colours. None of them is a crash. -/
theorem read_eq_some_iff (hspec : ∀ c ∈ spec.toList, c.toNat < 128) :
    (read spec).isSome ∧
      ∀ color, read spec = some (some color) ↔ StandsFor true (plainForm spec) color := by
  have hlist := toList_lower_trim hspec
  have hsize := utf8Size_of_mem_plainForm hspec
  rw [read]
  split
  · next channels hchannels =>
    rw [← hlist, hchannels] at hsize ⊢
    have hsize := (List.forall_mem_cons.mp hsize).2
    exact ⟨isSome_readHex hsize, fun _ => readHex_eq_some_iff hsize⟩
  · next hother =>
    refine ⟨rfl, fun color => ?_⟩
    rw [Option.some_inj, find?_named_eq_some_iff, ← hlist]
    generalize lower (trim spec) = name at hother
    constructor
    · exact .name
    · generalize hcs : name.toList = cs
      rintro (hmem | _ | _)
      · rwa [String.toList_inj.mp hcs]
      · exact absurd hcs (hother _)
      · exact absurd hcs (hother _)

theorem parse?_eq_some_iff (hspec : ∀ c ∈ spec.toList, c.toNat < 128) :
    parse? spec = some color ↔ StandsFor true (plainForm spec) color := by
  rw [parse?, Option.join_eq_some_iff]
  exact (read_eq_some_iff hspec).2 color

theorem mem_of_mem_plainForm {c : Char} (hspec : ∀ c ∈ spec.toList, c.toNat < 128)
    (hc : ∀ n < 128, (Char.ofNat n).toLower = c → Char.ofNat n = c) (h : c ∈ plainForm spec) :
    c ∈ spec.toList := by
  obtain ⟨before, after, hsplit, -⟩ := exists_blanks spec.toList
  obtain ⟨d, hd, hlower⟩ := List.mem_map.mp h
  have hmem : d ∈ spec.toList := by
    rw [hsplit]
    simp [hd]
  have hsame := hc d.toNat (hspec d hmem)
  rw [Char.ofNat_toNat] at hsame
  exact hsame hlower ▸ hmem

theorem StandsFor.of_notMem (h : StandsFor true cs color) (hcs : '+' ∉ cs) :
    StandsFor signed cs color := by
  cases h with
  | name hmem => exact .name hmem
  | pairs hred hgreen hblue =>
    simp only [List.mem_cons, not_or] at hcs
    exact .pairs (hred.of_ne (Ne.symm hcs.2.1)) (hgreen.of_ne (Ne.symm hcs.2.2.2.1))
      (hblue.of_ne (Ne.symm hcs.2.2.2.2.2.1))
  | doubled hred hgreen hblue => exact .doubled hred hgreen hblue

theorem StandsFor.signed_of (h : StandsFor signed cs color) : StandsFor true cs color := by
  cases h with
  | name hmem => exact .name hmem
  | pairs hred hgreen hblue => exact .pairs hred.signed_of hgreen.signed_of hblue.signed_of
  | doubled hred hgreen hblue => exact .doubled hred hgreen hblue

/-- A text of the first 128 characters is a colour if and only if its characters, in lower case and
without blank space around them, stand for it; a plus sign in the place of the first digit of a
channel is taken, and without plus signs there are only digits. Three digits give the same colour as
each of them twice. No such text is a crash. -/
theorem color_of_text {spec : String} (hspec : ∀ c ∈ spec.toList, c.toNat < 128) :
    read spec = some (parse? spec) ∧
    (∀ color, parse? spec = some color ↔ StandsFor true (plainForm spec) color) ∧
    ('+' ∉ spec.toList → ∀ color, parse? spec = some color ↔ StandsFor false (plainForm spec) color) ∧
    ∀ long : String, (∀ c ∈ long.toList, c.toNat < 128) → ∀ r g b, plainForm spec = ['#', r, g, b] →
      plainForm long = ['#', r, r, g, g, b, b] → parse? spec = parse? long := by
  refine ⟨?_, fun color => parse?_eq_some_iff hspec, fun hplus color => ?_,
    fun long hlong r g b hshort hdouble => ?_⟩
  · obtain ⟨answer, hanswer⟩ := Option.isSome_iff_exists.mp (read_eq_some_iff hspec).1
    rw [parse?, hanswer]
    rfl
  · have hnone : '+' ∉ plainForm spec := fun hmem =>
      hplus (mem_of_mem_plainForm hspec (by decide +kernel) hmem)
    rw [parse?_eq_some_iff hspec]
    exact ⟨fun h => h.of_notMem hnone, fun h => h.signed_of⟩
  · refine Option.ext fun color => ?_
    have hsize := utf8Size_of_mem_plainForm hspec
    have hsize' := utf8Size_of_mem_plainForm hlong
    rw [hshort, List.forall_mem_cons] at hsize
    rw [hdouble, List.forall_mem_cons] at hsize'
    rw [parse?_eq_some_iff hspec, parse?_eq_some_iff hlong, hshort, hdouble,
      ← readHex_eq_some_iff hsize.2, ← readHex_eq_some_iff hsize'.2, readHex_eq hsize.2,
      readHex_eq hsize'.2]

/-- Three digits with blank space around them, in both cases. -/
theorem color_of_text_short :
    (∀ c ∈ " #0fA\n".toList, c.toNat < 128) ∧ '+' ∉ " #0fA\n".toList ∧
      read " #0fA\n" = some (some ⟨0, 255, 170⟩) ∧ parse? " #0fA\n" = some ⟨0, 255, 170⟩ ∧
      parse? "#00FFaa" = some ⟨0, 255, 170⟩ := by
  have hspec : ∀ c ∈ " #0fA\n".toList, c.toNat < 128 := List.all_iff_forall_prop.mp (by decide)
  have hplus : '+' ∉ " #0fA\n".toList := by decide
  have hlong : ∀ c ∈ "#00FFaa".toList, c.toNat < 128 := List.all_iff_forall_prop.mp (by decide)
  obtain ⟨hread', -, hdigits, hdouble⟩ := color_of_text hspec
  have hread (c : Char) (d : Nat) (h : digitOf? 16 c = some d) : IsDigit 16 c d :=
    digitOf?_eq_some_iff.mp h
  have hform : plainForm " #0fA\n" = ['#', '0', 'f', 'a'] := by decide +kernel
  have hcolor : parse? " #0fA\n" = some ⟨0, 255, 170⟩ := by
    refine (hdigits hplus _).mpr (hform.symm ▸ .doubled ?_ ?_ ?_)
    · exact .digits (hread '0' 0 rfl) (hread '0' 0 rfl) rfl
    · exact .digits (hread 'f' 15 rfl) (hread 'f' 15 rfl) rfl
    · exact .digits (hread 'a' 10 rfl) (hread 'a' 10 rfl) rfl
  refine ⟨hspec, hplus, hcolor ▸ hread', hcolor, ?_⟩
  rw [← hcolor]
  exact (hdouble "#00FFaa" hlong '0' 'f' 'a' hform (by decide +kernel)).symm

/-- Plus signs are taken in the place of digits, although they are none. -/
theorem color_signed :
    parse? "#+1+2+3" = some ⟨1, 2, 3⟩ ∧ ∀ color, ¬ StandsFor false (plainForm "#+1+2+3") color := by
  constructor
  · decide +kernel
  · have hform : plainForm "#+1+2+3" = ['#', '+', '1', '+', '2', '+', '3'] := by decide +kernel
    intro color h
    rw [hform] at h
    generalize hcs : ['#', '+', '1', '+', '2', '+', '3'] = cs at h
    cases h with
    | name hmem => exact head?_of_mem_named hmem _ hcs.symm
    | pairs hred =>
      cases hcs
      cases hred with
      | digits hhigh => exact not_isDigit_plus hhigh
      | plus hsigned => cases hsigned
    | doubled => cases hcs

end NoteShell.Color
