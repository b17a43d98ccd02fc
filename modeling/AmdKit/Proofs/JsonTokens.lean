/-
  AmdKit.Proofs.JsonTokens
  ────────────────────────────────
  **STRINGS AND NUMBERS ARE READ FROM THEIR OWN TEXT.**

  A reader that succeeds has used the front of its text, and takes the same
  front for the same wherever it stands:

      read (used ++ rest)  =  x, rest left over       for every rest allowed

  A string is closed by its quote, so anything may follow.  A number ends where
  no character follows that could belong to it, so what follows has to `Stop`:

      literals, escapes, strings  — before anything
      numbers                     — before all but a digit, a point and an exponent
-/
import Mathlib.Data.List.TakeWhile
import Mathlib.Logic.Basic
import AmdKit.Json.Reader
import AmdKit.Proofs.JsonSteps

namespace AmdKit.Json

open Text (byteLength)

/-! ## §1. Readers that use the front of a text. -/

/-- The reader takes `used` for `x`, whatever follows of what is allowed. -/
def Takes {α : Type} (allowed : List Char → Prop)
    (read : List Char → Except Fault (α × List Char)) (used : List Char) (x : α) : Prop :=
  ∀ rest, allowed rest → read (used ++ rest) = .ok (x, rest)

/-- Fuel for each character of `used` is enough for the reader to take it. -/
def TakesFueled {α : Type} (allowed : List Char → Prop)
    (read : Nat → List Char → Except Fault (α × List Char)) (used : List Char) (x : α) : Prop :=
  ∀ fuel, used.length ≤ fuel → Takes allowed (read fuel) used x

/-- A reader that succeeds has used a front of its text, and takes that front for
the same wherever it stands. -/
def Local {α : Type} (allowed : List Char → Prop)
    (read : List Char → Except Fault (α × List Char)) : Prop :=
  ∀ {cs rest x}, read cs = .ok (x, rest) → ∃ used, cs = used ++ rest ∧ Takes allowed read used x

/-- No condition on what follows. -/
def Anything (_ : List Char) : Prop := True

/-- No character that could belong to a number follows. -/
def Stops (cs : List Char) : Prop :=
  ∀ c ∈ cs.head?, isDigit c = false ∧ c ≠ '.' ∧ c ≠ 'e' ∧ c ≠ 'E'

/-- Nothing more stands at the end of a text. -/
theorem stops_nil : Stops [] := fun _ hc => nomatch hc

/-- A word is read wherever it stands in front. -/
theorem literal_append (es rest : List Char) : literal es (es ++ rest) = .ok rest := by
  induction es with
  | nil => rfl
  | cons e es ih =>
      rw [List.cons_append, literal, if_pos rfl]
      exact ih

/-- What has been read as a word begins with it. -/
theorem eq_append_of_literal {es cs rest : List Char} (h : literal es cs = .ok rest) :
    cs = es ++ rest := by
  induction es generalizing cs with
  | nil =>
      cases h
      rfl
  | cons e es ih =>
      cases cs with
      | nil => cases h
      | cons c cs =>
          rw [literal] at h
          split at h
          case isTrue hc => rw [hc, ih h, List.cons_append]
          case isFalse => cases h

/-! ## §2. Strings. -/

/-- Four digits are read, whatever follows them. -/
theorem hexEscape_local : Local Anything hexEscape := by
  intro cs rest n h
  unfold hexEscape at h
  split at h
  case isTrue => cases h
  case isFalse hlength =>
    split at h
    case h_2 => cases h
    case h_1 a b c d cs =>
      split at h
      case h_2 => cases h
      case h_1 hvalue =>
        cases h
        refine ⟨[a, b, c, d], rfl, ?_⟩
        intro rest' _
        -- Only the four digits are measured.
        have hlength' : ¬ byteLength (([a, b, c, d] ++ rest').take 4) < 4 := hlength
        unfold hexEscape
        rw [if_neg hlength']
        simp only [List.cons_append, List.nil_append, hvalue]

/-- An escape may take a second one with it, and then uses both of them. -/
theorem unicodeEscape_local : Local Anything unicodeEscape := by
  intro cs rest c h
  obtain ⟨⟨n, behind⟩, hn, hescape⟩ := bind_eq_ok_iff.mp h
  clear h
  -- The first four digits are used in any case; what they say decides whether more are.
  obtain ⟨used, rfl, htakes⟩ := hexEscape_local hn
  rcases ite_eq_iff.mp hescape with ⟨-, h⟩ | ⟨hlow, h⟩
  · cases h
  rcases ite_eq_iff.mp h with ⟨hplane, h⟩ | ⟨hpair, h⟩
  · cases h
    refine ⟨used, rfl, fun rest' _ => bind_eq_ok_iff.mpr ⟨_, htakes rest' trivial, ?_⟩⟩
    dsimp only
    rw [if_neg hlow, if_pos hplane]
  · -- The first half of a pair; the second one follows as an escape of its own.
    split at h
    case h_3 =>
      obtain ⟨⟨m, behind⟩, hm, hlast⟩ := bind_eq_ok_iff.mp h
      clear h
      obtain ⟨used', rfl, htakes'⟩ := hexEscape_local hm
      rcases ite_eq_iff.mp hlast with ⟨-, h⟩ | ⟨hhigh, h⟩
      · cases h
      obtain ⟨rfl, rfl⟩ := Prod.mk.inj (Except.ok.inj h)
      refine ⟨used ++ ('\\' :: 'u' :: used'), by simp, ?_⟩
      intro rest' _
      rw [List.append_assoc]
      refine bind_eq_ok_iff.mpr ⟨_, htakes _ trivial, ?_⟩
      dsimp only [List.cons_append]
      rw [if_neg hlow, if_neg hpair]
      refine bind_eq_ok_iff.mpr ⟨_, htakes' rest' trivial, ?_⟩
      dsimp only
      rw [if_neg hhigh]
    all_goals cases h

/-- An escape is read by the character that it begins with. -/
theorem escapeSequence_local : Local Anything escapeSequence := by
  intro cs rest c h
  unfold escapeSequence at h
  split at h
  case h_10 cs =>
    obtain ⟨used, rfl, htakes⟩ := unicodeEscape_local h
    exact ⟨'u' :: used, rfl, htakes⟩
  case h_1 => cases h
  case h_11 => cases h
  -- The letters that stand for one character.
  all_goals
    cases h
    exact ⟨[_], rfl, fun _ _ => rfl⟩

/-- The rest of a string ends at its closing quote, by induction on the fuel. -/
theorem stringBody_local {fuel : Nat} {cs rest ds : List Char}
    (h : stringBody fuel cs = .ok (ds, rest)) :
    ∃ used, cs = used ++ rest ∧ TakesFueled Anything stringBody used ds := by
  -- One character or escape at a time; the first quote that is not escaped closes.
  induction fuel generalizing cs ds with
  | zero => cases h
  | succ fuel ih =>
      cases cs with
      | nil => cases h
      | cons c cs =>
          rw [stringBody] at h
          rcases ite_eq_iff.mp h with ⟨rfl, h⟩ | ⟨hquote, h⟩
          · cases h
            refine ⟨['"'], rfl, ?_⟩
            intro fuel hfuel rest' _
            obtain ⟨fuel, rfl⟩ := Nat.exists_eq_add_of_le' hfuel
            rfl
          rcases ite_eq_iff.mp h with ⟨rfl, h⟩ | ⟨hback, h⟩
          · obtain ⟨⟨d, behind⟩, hd, h⟩ := bind_eq_ok_iff.mp h
            obtain ⟨ds, hds, rfl⟩ := exists_of_return_eq_ok h
            obtain ⟨escape, rfl, hescape⟩ := escapeSequence_local hd
            obtain ⟨used, rfl, htakes⟩ := ih hds
            refine ⟨'\\' :: (escape ++ used), by simp, ?_⟩
            intro fuel hfuel rest' _
            simp only [List.length_cons, List.length_append] at hfuel
            obtain ⟨fuel, rfl⟩ : ∃ n, fuel = n + 1 := ⟨fuel - 1, by omega⟩
            rw [List.cons_append, List.append_assoc, stringBody, if_neg hquote, if_pos rfl]
            refine bind_eq_ok_iff.mpr ⟨_, hescape _ trivial, ?_⟩
            exact bind_eq_ok_iff.mpr ⟨_, htakes fuel (by omega) rest' trivial, rfl⟩
          rcases ite_eq_iff.mp h with ⟨-, h⟩ | ⟨hcontrol, h⟩
          · cases h
          · obtain ⟨ds, hds, rfl⟩ := exists_of_return_eq_ok h
            obtain ⟨used, rfl, htakes⟩ := ih hds
            refine ⟨c :: used, rfl, ?_⟩
            intro fuel hfuel rest' _
            rw [List.length_cons] at hfuel
            obtain ⟨fuel, rfl⟩ : ∃ n, fuel = n + 1 := ⟨fuel - 1, by omega⟩
            rw [List.cons_append, stringBody, if_neg hquote, if_neg hback, if_neg hcontrol]
            exact bind_eq_ok_iff.mpr ⟨_, htakes fuel (by omega) rest' trivial, rfl⟩

/-- A string is read up to its closing quote, whatever follows it. -/
theorem readString_local : Local Anything readString := by
  intro cs rest s h
  obtain ⟨ds, hds, rfl⟩ := exists_of_return_eq_ok h
  obtain ⟨used, rfl, htakes⟩ := stringBody_local hds
  refine ⟨used, rfl, ?_⟩
  intro rest' _
  refine bind_eq_ok_iff.mpr ⟨_, htakes _ ?_ rest' trivial, rfl⟩
  rw [List.length_append]
  omega

/-! ## §3. Numbers. -/

/-- A text that does not begin with a digit. -/
def NoDigit (cs : List Char) : Prop := ∀ c ∈ cs.head?, isDigit c = false

theorem NoDigit.not_isDigit {cs : List Char} (h : NoDigit cs) {c : Char}
    (hc : cs.head? = some c) : ¬ isDigit c = true := by
  rw [h c hc]
  exact Bool.false_ne_true

theorem Stops.noDigit {cs : List Char} (h : Stops cs) : NoDigit cs := fun c hc => (h c hc).1

/-- No digit follows behind digits that have been dropped. -/
theorem noDigit_dropWhile (cs : List Char) : NoDigit (cs.dropWhile isDigit) := by
  intro c hc
  have hhead := List.head?_dropWhile_not isDigit cs
  rw [Option.mem_def.mp hc] at hhead
  simpa using hhead

/-- What follows a text that begins with no digit can be exchanged for what stops. -/
theorem NoDigit.exchange {used rest rest' : List Char} (h : NoDigit (used ++ rest))
    (hrest : Stops rest') : NoDigit (used ++ rest') := by
  cases used with
  | nil => exact hrest.noDigit
  | cons c used => exact h

/-- Digits that a text began with are told from what follows them. -/
theorem span_takeWhile (cs : List Char) {rest : List Char} (hrest : NoDigit rest) :
    (cs.takeWhile isDigit ++ rest).takeWhile isDigit = cs.takeWhile isDigit
      ∧ (cs.takeWhile isDigit ++ rest).dropWhile isDigit = rest := by
  have hdigits : ∀ d ∈ cs.takeWhile isDigit, isDigit d = true :=
    fun d hd => List.mem_takeWhile_imp hd
  rw [List.takeWhile_append_of_pos hdigits, List.dropWhile_append_of_pos hdigits]
  cases rest with
  | nil => exact ⟨List.append_nil _, rfl⟩
  | cons c rest =>
      have hc : ¬ isDigit c = true := hrest.not_isDigit rfl
      rw [List.takeWhile_cons_of_neg hc, List.dropWhile_cons_of_neg hc]
      exact ⟨List.append_nil _, rfl⟩

section

variable {negative : Bool} {significand : Nat} {start : Int}

/-- A number that has been read whole uses nothing more. -/
theorem doubleOf_takes {cs rest : List Char} {x : Numeral}
    (h : doubleOf negative significand start cs = .ok (x, rest)) :
    cs = rest ∧ Takes Anything (doubleOf negative significand start) [] x := by
  unfold doubleOf at h
  split at h
  case h_2 => cases h
  case h_1 y hy =>
    cases h
    refine ⟨rfl, ?_⟩
    intro rest' _
    unfold doubleOf
    rw [hy]
    rfl

/-- Neither does one without a fraction and an exponent. -/
theorem wholeNumber_takes {cs rest : List Char} {x : Numeral}
    (h : wholeNumber negative significand cs = .ok (x, rest)) :
    cs = rest ∧ Takes Anything (wholeNumber negative significand) [] x := by
  unfold wholeNumber at h
  split at h
  case isFalse hpositive =>
    cases h
    refine ⟨rfl, ?_⟩
    intro rest' _
    unfold wholeNumber
    rw [if_neg hpositive]
    rfl
  case isTrue hnegative =>
    split at h
    case isTrue hlarge =>
      obtain ⟨hcs, htakes⟩ := doubleOf_takes h
      refine ⟨hcs, ?_⟩
      intro rest' _
      unfold wholeNumber
      rw [if_pos hnegative, if_pos hlarge]
      exact htakes rest' trivial
    case isFalse hsmall =>
      cases h
      refine ⟨rfl, ?_⟩
      intro rest' _
      unfold wholeNumber
      rw [if_pos hnegative, if_neg hsmall]
      rfl

/-- The digits of an exponent end in front of anything else. -/
theorem exponentDigits_of_noDigit (n : Nat) {cs : List Char} (h : NoDigit cs) :
    exponentDigits n cs = (some n, cs) := by
  cases cs with
  | nil => rfl
  | cons c cs => rw [exponentDigits, if_neg (h.not_isDigit rfl)]

/-- An exponent that is counted ends with its digits. -/
theorem exponentDigits_some {n e : Nat} {cs rest : List Char}
    (h : exponentDigits n cs = (some e, rest)) :
    ∃ ds, cs = ds ++ rest ∧ ∀ rest', NoDigit rest' →
      exponentDigits n (ds ++ rest') = (some e, rest') := by
  induction cs generalizing n with
  | nil =>
      cases h
      exact ⟨[], rfl, fun _ hrest' => exponentDigits_of_noDigit _ hrest'⟩
  | cons c cs ih =>
      rw [exponentDigits] at h
      split at h
      case isTrue hc =>
        split at h
        case isTrue => cases h
        case isFalse hn =>
          obtain ⟨ds, rfl, hds⟩ := ih h
          refine ⟨c :: ds, rfl, ?_⟩
          intro rest' hrest'
          rw [List.cons_append, exponentDigits, if_pos hc, if_neg hn]
          exact hds rest' hrest'
      case isFalse hc =>
        cases h
        exact ⟨[], rfl, fun _ hrest' => exponentDigits_of_noDigit _ hrest'⟩

/-- An exponent that grows too large is given up at one of its digits. -/
theorem exponentDigits_none {n : Nat} {cs rest : List Char}
    (h : exponentDigits n cs = (none, rest)) :
    ∃ ds, cs = ds ++ rest ∧ ∀ rest', exponentDigits n (ds ++ rest') = (none, rest') := by
  induction cs generalizing n with
  | nil => cases h
  | cons c cs ih =>
      rw [exponentDigits] at h
      split at h
      case isFalse => cases h
      case isTrue hc =>
        split at h
        case isTrue hn =>
          cases h
          refine ⟨[c], rfl, ?_⟩
          intro rest'
          rw [List.singleton_append, exponentDigits, if_pos hc, if_pos hn]
        case isFalse hn =>
          obtain ⟨ds, rfl, hds⟩ := ih h
          refine ⟨c :: ds, rfl, ?_⟩
          intro rest'
          rw [List.cons_append, exponentDigits, if_pos hc, if_neg hn]
          exact hds rest'

/-- Read the digits of an exponent whose sign has been read. -/
def unsignedExponent (negative : Bool) (significand : Nat) (start : Int) (up : Bool) :
    List Char → Except Fault (Numeral × List Char)
  | [] => failBefore .endInValue []
  | c :: rest =>
    if isDigit c then
      match exponentDigits (digitValue c) rest with
      | (some e, rest) => doubleOf negative significand (if up then start + e else start - e) rest
      | (none, rest) =>
        if significand ≠ 0 ∧ up then failBefore .numberOutOfRange rest
        else .ok (.double negative .zero, rest.dropWhile isDigit)
    else failAt .invalidNumber (c :: rest)

theorem exponentPart_plus (cs : List Char) :
    exponentPart negative significand start ('+' :: cs)
      = unsignedExponent negative significand start true cs := by
  cases cs <;> rfl

theorem exponentPart_minus (cs : List Char) :
    exponentPart negative significand start ('-' :: cs)
      = unsignedExponent negative significand start false cs := by
  cases cs <;> rfl

/-- An exponent without a sign counts upwards. -/
theorem exponentPart_unsigned {c : Char} (hplus : c ≠ '+') (hminus : c ≠ '-') (cs : List Char) :
    exponentPart negative significand start (c :: cs)
      = unsignedExponent negative significand start true (c :: cs) := by
  unfold exponentPart
  split
  case h_1 hsign =>
    split at hsign
    case h_1 heq => exact absurd (List.cons.inj heq).1 hplus
    case h_2 heq => exact absurd (List.cons.inj heq).1 hminus
    case h_3 =>
      cases hsign
      rfl

/-- An exponent behind its sign has a digit at least, and ends in front of what is none.
-/
theorem unsignedExponent_local {up : Bool} {cs rest : List Char} {x : Numeral}
    (h : unsignedExponent negative significand start up cs = .ok (x, rest)) :
    ∃ c used, cs = c :: used ++ rest
      ∧ Takes Stops (unsignedExponent negative significand start up) (c :: used) x := by
  cases cs with
  | nil => cases h
  | cons c cs =>
      rw [unsignedExponent] at h
      split at h
      case isFalse => cases h
      case isTrue hc =>
        refine ⟨c, ?_⟩
        split at h
        case h_1 e behind hdigits =>
          obtain ⟨rfl, htakes⟩ := doubleOf_takes h
          obtain ⟨ds, rfl, hds⟩ := exponentDigits_some hdigits
          refine ⟨ds, rfl, ?_⟩
          intro rest' hrest'
          rw [List.cons_append, unsignedExponent, if_pos hc, hds rest' hrest'.noDigit]
          exact htakes rest' trivial
        case h_2 behind hdigits =>
          split at h
          case isTrue => cases h
          case isFalse hzero =>
            cases h
            obtain ⟨ds, rfl, hds⟩ := exponentDigits_none hdigits
            -- The digits after the one that gave the exponent up are still read.
            refine ⟨ds ++ behind.takeWhile isDigit, ?_, fun rest' hrest' => ?_⟩
            · rw [List.cons_append, List.append_assoc, List.takeWhile_append_dropWhile]
            · have hspan := span_takeWhile behind hrest'.noDigit
              rw [List.cons_append, unsignedExponent, if_pos hc, List.append_assoc, hds]
              dsimp only
              rw [if_neg hzero, hspan.2]

/-- So has an exponent with its sign. -/
theorem exponentPart_local : Local Stops (exponentPart negative significand start) := by
  intro cs rest x h
  cases cs with
  | nil => cases h
  | cons c cs =>
      -- The sign goes to the front of what the digits use; without one, they are it.
      by_cases hplus : c = '+'
      · rw [hplus, exponentPart_plus] at h
        obtain ⟨d, used, rfl, htakes⟩ := unsignedExponent_local h
        refine ⟨c :: d :: used, rfl, ?_⟩
        intro rest' hrest'
        rw [hplus, List.cons_append, exponentPart_plus]
        exact htakes rest' hrest'
      by_cases hminus : c = '-'
      · rw [hminus, exponentPart_minus] at h
        obtain ⟨d, used, rfl, htakes⟩ := unsignedExponent_local h
        refine ⟨c :: d :: used, rfl, ?_⟩
        intro rest' hrest'
        rw [hminus, List.cons_append, exponentPart_minus]
        exact htakes rest' hrest'
      · rw [exponentPart_unsigned hplus hminus] at h
        obtain ⟨d, used, hcs, htakes⟩ := unsignedExponent_local h
        obtain ⟨rfl, rfl⟩ := List.cons.inj hcs
        refine ⟨c :: used, rfl, ?_⟩
        intro rest' hrest'
        rw [List.cons_append, exponentPart_unsigned hplus hminus]
        exact htakes rest' hrest'

/-- Behind a fraction a number ends where nothing can make it longer. -/
theorem afterDigits_of_stops {cs : List Char} (h : Stops cs) :
    afterDigits negative significand start cs = doubleOf negative significand start cs := by
  unfold afterDigits
  split
  case h_1 => exact absurd rfl (h 'e' rfl).2.2.1
  case h_2 => exact absurd rfl (h 'E' rfl).2.2.2
  case h_3 => rfl

/-- Behind a fraction an exponent may follow. -/
theorem afterDigits_local : Local Stops (afterDigits negative significand start) := by
  intro cs rest x h
  unfold afterDigits at h
  split at h
  case h_1 =>
    obtain ⟨used, rfl, htakes⟩ := exponentPart_local h
    exact ⟨'e' :: used, rfl, htakes⟩
  case h_2 =>
    obtain ⟨used, rfl, htakes⟩ := exponentPart_local h
    exact ⟨'E' :: used, rfl, htakes⟩
  case h_3 =>
    -- No exponent: nothing is used, and what stops the number keeps it so.
    obtain ⟨rfl, htakes⟩ := doubleOf_takes h
    refine ⟨[], rfl, ?_⟩
    intro rest' hrest'
    rw [List.nil_append, afterDigits_of_stops hrest']
    exact htakes rest' trivial

/-- A fraction has a digit at least behind its point. -/
theorem fractionPart_local : Local Stops (fractionPart negative significand start) := by
  intro cs rest x h
  unfold fractionPart at h
  dsimp only at h
  split at h
  case isTrue => split at h <;> cases h
  case isFalse hdigits =>
    obtain ⟨used, hused, htakes⟩ := afterDigits_local h
    -- The digits end where they ended: no digit stands behind them before or after.
    have hnodigit : NoDigit (used ++ rest) := hused ▸ noDigit_dropWhile cs
    refine ⟨cs.takeWhile isDigit ++ used, ?_, fun rest' hrest' => ?_⟩
    · rw [List.append_assoc, ← hused, List.takeWhile_append_dropWhile]
    · have hspan := span_takeWhile cs (hnodigit.exchange hrest')
      unfold fractionPart
      dsimp only
      rw [List.append_assoc, hspan.1, hspan.2, if_neg hdigits]
      exact htakes rest' hrest'

/-- Read what follows the digits of a whole part that begins with `c`. -/
def afterWhole (negative : Bool) (c : Char) (significand : Nat) (left : List Char) :
    List Char → Except Fault (Numeral × List Char)
  | '.' :: rest => fractionPart negative significand left.length rest
  | 'e' :: rest => exponentPart negative significand left.length rest
  | 'E' :: rest => exponentPart negative significand left.length rest
  | rest =>
    if c = '0' ∧ (rest.head?.map isDigit).getD false then failAt .invalidNumber rest
    else if left.isEmpty then wholeNumber negative significand rest
    else doubleOf negative significand left.length rest

theorem readNumber_zero (cs : List Char) :
    readNumber negative ('0' :: cs) = afterWhole negative '0' 0 [] cs := rfl

/-- A number takes all digits that it begins with. -/
theorem readNumber_digit {c : Char} (hc : isDigit c = true) (hzero : c ≠ '0') (cs : List Char) :
    readNumber negative (c :: cs)
      = afterWhole negative c (significandOf 0 (c :: cs.takeWhile isDigit)).1
          (significandOf 0 (c :: cs.takeWhile isDigit)).2 (cs.dropWhile isDigit) := by
  unfold readNumber
  simp only [if_pos hc, if_neg hzero]
  rfl

/-- Behind its whole part a number ends where nothing can make it longer. -/
theorem afterWhole_of_stops {c : Char} {left cs : List Char} (h : Stops cs) :
    afterWhole negative c significand left cs
      = if left.isEmpty then wholeNumber negative significand cs
        else doubleOf negative significand left.length cs := by
  unfold afterWhole
  split
  case h_1 => exact absurd rfl (h '.' rfl).2.1
  case h_2 => exact absurd rfl (h 'e' rfl).2.2.1
  case h_3 => exact absurd rfl (h 'E' rfl).2.2.2
  case h_4 =>
    refine if_neg fun hc => ?_
    cases hcs : cs.head? with
    | none => simp [hcs] at hc
    | some d => simp [hcs, (h d hcs).1] at hc

/-- Behind its whole part a fraction or an exponent may follow. -/
theorem afterWhole_local {c : Char} {left : List Char} :
    Local Stops (afterWhole negative c significand left) := by
  intro cs rest x h
  unfold afterWhole at h
  split at h
  case h_1 =>
    obtain ⟨used, rfl, htakes⟩ := fractionPart_local h
    exact ⟨'.' :: used, rfl, htakes⟩
  case h_2 =>
    obtain ⟨used, rfl, htakes⟩ := exponentPart_local h
    exact ⟨'e' :: used, rfl, htakes⟩
  case h_3 =>
    obtain ⟨used, rfl, htakes⟩ := exponentPart_local h
    exact ⟨'E' :: used, rfl, htakes⟩
  case h_4 =>
    rcases ite_eq_iff.mp h with ⟨-, h⟩ | ⟨-, h⟩
    · cases h
    rcases ite_eq_iff.mp h with ⟨hleft, h⟩ | ⟨hleft, h⟩
    · obtain ⟨rfl, htakes⟩ := wholeNumber_takes h
      refine ⟨[], rfl, ?_⟩
      intro rest' hrest'
      rw [List.nil_append, afterWhole_of_stops hrest', if_pos hleft]
      exact htakes rest' trivial
    · obtain ⟨rfl, htakes⟩ := doubleOf_takes h
      refine ⟨[], rfl, ?_⟩
      intro rest' hrest'
      rw [List.nil_append, afterWhole_of_stops hrest', if_neg hleft]
      exact htakes rest' trivial

/-- A number is read up to what can not make it longer. -/
theorem readNumber_local : Local Stops (readNumber negative) := by
  intro cs rest x h
  cases cs with
  | nil => cases h
  | cons c cs =>
      by_cases hc : isDigit c = true
      case neg =>
        rw [readNumber, if_neg hc] at h
        cases h
      -- A zero is a whole part of its own; other digits are taken as far as they go.
      by_cases hzero : c = '0'
      · rw [hzero, readNumber_zero] at h
        obtain ⟨used, rfl, htakes⟩ := afterWhole_local h
        refine ⟨c :: used, rfl, ?_⟩
        intro rest' hrest'
        rw [hzero, List.cons_append, readNumber_zero]
        exact htakes rest' hrest'
      · rw [readNumber_digit hc hzero] at h
        obtain ⟨used, hused, htakes⟩ := afterWhole_local h
        have hnodigit : NoDigit (used ++ rest) := hused ▸ noDigit_dropWhile cs
        refine ⟨c :: cs.takeWhile isDigit ++ used, ?_, fun rest' hrest' => ?_⟩
        · rw [List.cons_append, List.cons_append, List.append_assoc, ← hused,
              List.takeWhile_append_dropWhile]
        · have hspan := span_takeWhile cs (hnodigit.exchange hrest')
          rw [List.cons_append, List.cons_append, List.append_assoc, readNumber_digit hc hzero,
              hspan.1, hspan.2]
          exact htakes rest' hrest'

end

end AmdKit.Json
