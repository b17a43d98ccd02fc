/-
  AmdKit.Proofs.JsonSteps
  ────────────────────────────────
  **THE JSON READER STEP BY STEP.**

  A reader that succeeds has taken one step and left the rest to readers with
  less fuel.  `ValueStep`, `ItemsStep` and `MembersStep` say all that such a
  step can be, and what is shown of the reader is shown by cases on them.

  Main result: every value that was read is `Distinct`.  No object inside it
  repeats a name, because members are set one after the other.
-/
import Mathlib.Logic.Basic
import AmdKit.Json.Reader
import AmdKit.Proofs.KeyedLists

namespace AmdKit

/-! ## §1. Results that may be faults. -/

section

variable {ε α β : Type}

/-- Two steps succeed one after the other. -/
theorem bind_eq_ok_iff {x : Except ε α} {f : α → Except ε β} {b : β} :
    (x >>= f) = .ok b ↔ ∃ a, x = .ok a ∧ f a = .ok b := by
  cases x with
  | error e =>
      constructor
      · intro h
        cases h
      · rintro ⟨a, ha, -⟩
        cases ha
  | ok a =>
      constructor
      · intro h
        exact ⟨a, rfl, h⟩
      · rintro ⟨a', ha, hf⟩
        cases ha
        exact hf

/-- The outcome of a run that is evaluated. -/
theorem eq_ok_of_toOption {x : Except ε α} {v : α} (h : x.toOption = some v) : x = .ok v := by
  cases x with
  | error e => cases h
  | ok w => exact congrArg Except.ok (Option.some.inj h)

end

end AmdKit

namespace AmdKit.Json

/-! ## §2. Steps. -/

/-- A reading that gives another one's result by another name. -/
theorem exists_of_return_eq_ok {α β : Type} {reading : Except Fault (α × List Char)} {g : α → β}
    {y : β} {rest : List Char}
    (h : (do
      let (x, rest) ← reading
      return (g x, rest)) = Except.ok (y, rest)) :
    ∃ x, reading = .ok (x, rest) ∧ g x = y := by
  obtain ⟨⟨x, rest'⟩, hx, h⟩ := bind_eq_ok_iff.mp h
  cases h
  exact ⟨x, hx, rfl⟩

/-- How a value can be read from its first character on. -/
inductive ValueStep (fuel depth : Nat) : List Char → Json → List Char → Prop where
  | null {cs rest : List Char} (h : literal ['u', 'l', 'l'] cs = .ok rest) :
      ValueStep fuel depth ('n' :: cs) .null rest
  | yes {cs rest : List Char} (h : literal ['r', 'u', 'e'] cs = .ok rest) :
      ValueStep fuel depth ('t' :: cs) (.bool true) rest
  | no {cs rest : List Char} (h : literal ['a', 'l', 's', 'e'] cs = .ok rest) :
      ValueStep fuel depth ('f' :: cs) (.bool false) rest
  | negative {cs rest : List Char} {n : Numeral} (h : readNumber true cs = .ok (n, rest)) :
      ValueStep fuel depth ('-' :: cs) (.number n) rest
  | number {c : Char} {cs rest : List Char} {n : Numeral} (hc : isDigit c = true)
      (h : readNumber false (c :: cs) = .ok (n, rest)) :
      ValueStep fuel depth (c :: cs) (.number n) rest
  | string {cs rest : List Char} {s : String} (h : readString cs = .ok (s, rest)) :
      ValueStep fuel depth ('"' :: cs) (.string s) rest
  | array {cs rest : List Char} {items : List Json} (hdepth : 1 < depth)
      (h : readItems fuel (depth - 1) true cs = .ok (items, rest)) :
      ValueStep fuel depth ('[' :: cs) (.array items) rest
  | object {cs rest : List Char} {members : Members} (hdepth : 1 < depth)
      (h : readMembers fuel (depth - 1) true [] cs = .ok (members, rest)) :
      ValueStep fuel depth ('{' :: cs) (.object members) rest

/-- A value that is read has been read in one of the ways of `ValueStep`. -/
theorem step_of_readValue {fuel depth : Nat} {cs rest : List Char} {v : Json}
    (h : readValue (fuel + 1) depth cs = .ok (v, rest)) :
    ValueStep fuel depth (skipSpace cs) v rest := by
  unfold readValue at h
  split at h
  case h_1 => cases h
  case h_2 c cs hcs =>
    rw [hcs]
    -- The first character decides which reader it is; the cases stand in its order.
    rcases ite_eq_iff.mp h with ⟨rfl, h⟩ | ⟨-, h⟩
    · obtain ⟨rest, hlit, h⟩ := bind_eq_ok_iff.mp h
      cases h
      exact .null hlit
    rcases ite_eq_iff.mp h with ⟨rfl, h⟩ | ⟨-, h⟩
    · obtain ⟨rest, hlit, h⟩ := bind_eq_ok_iff.mp h
      cases h
      exact .yes hlit
    rcases ite_eq_iff.mp h with ⟨rfl, h⟩ | ⟨-, h⟩
    · obtain ⟨rest, hlit, h⟩ := bind_eq_ok_iff.mp h
      cases h
      exact .no hlit
    rcases ite_eq_iff.mp h with ⟨rfl, h⟩ | ⟨-, h⟩
    · obtain ⟨n, hn, rfl⟩ := exists_of_return_eq_ok h
      exact .negative hn
    rcases ite_eq_iff.mp h with ⟨hc, h⟩ | ⟨-, h⟩
    · obtain ⟨n, hn, rfl⟩ := exists_of_return_eq_ok h
      exact .number hc hn
    rcases ite_eq_iff.mp h with ⟨rfl, h⟩ | ⟨-, h⟩
    · obtain ⟨s, hs, rfl⟩ := exists_of_return_eq_ok h
      exact .string hs
    rcases ite_eq_iff.mp h with ⟨rfl, h⟩ | ⟨-, h⟩
    · rcases ite_eq_iff.mp h with ⟨-, h⟩ | ⟨hdepth, h⟩
      · cases h
      · obtain ⟨items, hitems, rfl⟩ := exists_of_return_eq_ok h
        exact .array (by omega) hitems
    rcases ite_eq_iff.mp h with ⟨rfl, h⟩ | ⟨-, h⟩
    · rcases ite_eq_iff.mp h with ⟨-, h⟩ | ⟨hdepth, h⟩
      · cases h
      · obtain ⟨members, hmembers, rfl⟩ := exists_of_return_eq_ok h
        exact .object (by omega) hmembers
    · cases h

/-- And each of them reads one. -/
theorem readValue_of_step {fuel depth : Nat} {cs rest : List Char} {v : Json}
    (h : ValueStep fuel depth (skipSpace cs) v rest) :
    readValue (fuel + 1) depth cs = .ok (v, rest) := by
  unfold readValue
  generalize skipSpace cs = cs at h
  cases h with
  | null h => exact bind_eq_ok_iff.mpr ⟨_, h, rfl⟩
  | yes h => exact bind_eq_ok_iff.mpr ⟨_, h, rfl⟩
  | no h => exact bind_eq_ok_iff.mpr ⟨_, h, rfl⟩
  | negative h => exact bind_eq_ok_iff.mpr ⟨_, h, rfl⟩
  | @number c cs _ n hc h =>
      -- A digit is none of the characters that are asked for before it.
      have hother : ∀ d, isDigit d = false → c ≠ d := by
        rintro d hd rfl
        rw [hd] at hc
        cases hc
      dsimp only
      rw [if_neg (hother 'n' rfl), if_neg (hother 't' rfl), if_neg (hother 'f' rfl),
          if_neg (hother '-' rfl), if_pos hc]
      exact bind_eq_ok_iff.mpr ⟨_, h, rfl⟩
  | string h => exact bind_eq_ok_iff.mpr ⟨_, h, rfl⟩
  | array hdepth h =>
      show (if depth ≤ 1 then _ else _) = _
      rw [if_neg (by omega)]
      exact bind_eq_ok_iff.mpr ⟨_, h, rfl⟩
  | object hdepth h =>
      show (if depth ≤ 1 then _ else _) = _
      rw [if_neg (by omega)]
      exact bind_eq_ok_iff.mpr ⟨_, h, rfl⟩

/-- How the items of a list can be read, with the closing bracket. -/
inductive ItemsStep (fuel depth : Nat) (first : Bool) (cs : List Char) :
    List Json → List Char → Prop where
  | stop {rest : List Char} (h : nextItem first cs = .ok (false, rest)) :
      ItemsStep fuel depth first cs [] (rest.drop 1)
  | next {start behind rest : List Char} {x : Json} {xs : List Json}
      (hnext : nextItem first cs = .ok (true, start))
      (hx : readValue fuel depth start = .ok (x, behind))
      (hxs : readItems fuel depth false behind = .ok (xs, rest)) :
      ItemsStep fuel depth first cs (x :: xs) rest

/-- Items that are read end here, or go on with a value. -/
theorem step_of_readItems {fuel depth : Nat} {first : Bool} {cs rest : List Char}
    {items : List Json} (h : readItems (fuel + 1) depth first cs = .ok (items, rest)) :
    ItemsStep fuel depth first cs items rest := by
  unfold readItems at h
  obtain ⟨⟨more, start⟩, hnext, h⟩ := bind_eq_ok_iff.mp h
  cases more with
  | false =>
      cases h
      exact .stop hnext
  | true =>
      obtain ⟨⟨x, behind⟩, hx, h⟩ := bind_eq_ok_iff.mp h
      obtain ⟨xs, hxs, rfl⟩ := exists_of_return_eq_ok h
      exact .next hnext hx hxs

theorem readItems_of_step {fuel depth : Nat} {first : Bool} {cs rest : List Char}
    {items : List Json} (h : ItemsStep fuel depth first cs items rest) :
    readItems (fuel + 1) depth first cs = .ok (items, rest) := by
  unfold readItems
  cases h with
  | stop h => exact bind_eq_ok_iff.mpr ⟨_, h, rfl⟩
  | next hnext hx hxs =>
      refine bind_eq_ok_iff.mpr ⟨_, hnext, bind_eq_ok_iff.mpr ⟨_, hx, ?_⟩⟩
      exact bind_eq_ok_iff.mpr ⟨_, hxs, rfl⟩

/-- How the members of an object can be read, with the closing bracket. -/
inductive MembersStep (fuel depth : Nat) (first : Bool) (members : Members) (cs : List Char) :
    Members → List Char → Prop where
  | stop {rest : List Char} (h : nextMember first cs = .ok (false, rest)) :
      MembersStep fuel depth first members cs members (rest.drop 1)
  | next {start named start' behind rest : List Char} {name : String} {x : Json}
      {result : Members} (hnext : nextMember first cs = .ok (true, start))
      (hname : readString start = .ok (name, named)) (hcolon : colon named = .ok start')
      (hx : readValue fuel depth start' = .ok (x, behind))
      (hrest : readMembers fuel depth false (members.set name x) behind = .ok (result, rest)) :
      MembersStep fuel depth first members cs result rest

/-- Members that are read end here, or go on with a name and a value. -/
theorem step_of_readMembers {fuel depth : Nat} {first : Bool} {members : Members}
    {cs rest : List Char} {result : Members}
    (h : readMembers (fuel + 1) depth first members cs = .ok (result, rest)) :
    MembersStep fuel depth first members cs result rest := by
  unfold readMembers at h
  obtain ⟨⟨more, start⟩, hnext, h⟩ := bind_eq_ok_iff.mp h
  cases more with
  | false =>
      cases h
      exact .stop hnext
  | true =>
      obtain ⟨⟨name, named⟩, hname, h⟩ := bind_eq_ok_iff.mp h
      obtain ⟨start', hcolon, h⟩ := bind_eq_ok_iff.mp h
      obtain ⟨⟨x, behind⟩, hx, h⟩ := bind_eq_ok_iff.mp h
      exact .next hnext hname hcolon hx h

theorem readMembers_of_step {fuel depth : Nat} {first : Bool} {members : Members}
    {cs rest : List Char} {result : Members}
    (h : MembersStep fuel depth first members cs result rest) :
    readMembers (fuel + 1) depth first members cs = .ok (result, rest) := by
  unfold readMembers
  cases h with
  | stop h => exact bind_eq_ok_iff.mpr ⟨_, h, rfl⟩
  | next hnext hname hcolon hx hrest =>
      refine bind_eq_ok_iff.mpr ⟨_, hnext, bind_eq_ok_iff.mpr ⟨_, hname, ?_⟩⟩
      exact bind_eq_ok_iff.mpr ⟨_, hcolon, bind_eq_ok_iff.mpr ⟨_, hx, hrest⟩⟩

/-! ## §3. Names. -/

/-- No object inside the value repeats a name. -/
inductive Distinct : Json → Prop where
  | null : Distinct .null
  | bool (b : Bool) : Distinct (.bool b)
  | number (n : Numeral) : Distinct (.number n)
  | string (s : String) : Distinct (.string s)
  | array {items : List Json} (h : ∀ x ∈ items, Distinct x) : Distinct (.array items)
  | object {members : Members} (hnames : (members.map Prod.fst).Nodup)
      (h : ∀ m ∈ members, Distinct m.2) : Distinct (.object members)

/-- Setting a member leaves each name there once. -/
theorem Distinct.set {members : Members} (h : Distinct (.object members)) {x : Json}
    (hx : Distinct x) (name : String) : Distinct (.object (members.set name x)) := by
  cases h with
  | object hnames hmembers =>
      refine .object ?names fun m hm => ?_
      case names => exact Keyed.nodup_keys_upsert Keyed.replace_associative hnames
      rcases Keyed.mem_put hm with rfl | hm
      · exact hx
      · exact hmembers m hm

/-- Whatever is read is distinct, an object provided that its earlier members are. -/
theorem distinct_of_read (fuel : Nat) :
    (∀ {depth : Nat} {cs rest : List Char} {v : Json},
      readValue fuel depth cs = .ok (v, rest) → Distinct v)
    ∧ (∀ {depth : Nat} {first : Bool} {cs rest : List Char} {items : List Json},
      readItems fuel depth first cs = .ok (items, rest) → ∀ x ∈ items, Distinct x)
    ∧ ∀ {depth : Nat} {first : Bool} {members : Members} {cs rest : List Char}
        {result : Members}, Distinct (.object members) →
      readMembers fuel depth first members cs = .ok (result, rest) → Distinct (.object result) := by
  -- The three readers call each other, so all of them are proved at once, by induction on the
  -- fuel.
  induction fuel with
  | zero =>
      refine ⟨fun h => ?_, fun h => ?_, fun _ h => ?_⟩
      all_goals cases h
  | succ fuel ih =>
      obtain ⟨ihValue, ihItems, ihMembers⟩ := ih
      refine ⟨fun {depth cs rest v} h => ?value, fun h => ?items, fun hmembers h => ?members⟩
      case value =>
        have hstep := step_of_readValue h
        generalize skipSpace cs = cs at hstep
        cases hstep with
        | null => exact .null
        | yes => exact .bool true
        | no => exact .bool false
        | negative => exact .number _
        | number => exact .number _
        | string => exact .string _
        | array _ h => exact .array (ihItems h)
        | object _ h =>
            have hnone : Distinct (.object []) :=
              .object List.nodup_nil fun _ hm => absurd hm List.not_mem_nil
            exact ihMembers hnone h
      case items =>
        cases step_of_readItems h with
        | stop => exact fun _ hx => absurd hx List.not_mem_nil
        | next _ hx hxs => exact List.forall_mem_cons.mpr ⟨ihValue hx, ihItems hxs⟩
      case members =>
        cases step_of_readMembers h with
        | stop => exact hmembers
        | next _ _ _ hx hrest => exact ihMembers (hmembers.set (ihValue hx) _) hrest

/-- A text is parsed by the reader of values, with only blanks left behind. -/
theorem readValue_of_parse {text : String} {v : Json} (h : parse text = .ok v) :
    ∃ rest, readValue (2 * text.toList.length + 2) 128 text.toList = .ok (v, rest)
      ∧ skipSpace rest = [] := by
  unfold parse readWhole at h
  simp only at h
  split at h
  case h_2 => cases h
  case h_1 x hread =>
    cases h
    obtain ⟨⟨x, rest⟩, hx, hend⟩ := bind_eq_ok_iff.mp hread
    split at hend
    case h_2 => cases hend
    case h_1 hspace =>
      cases hend
      exact ⟨rest, hx, hspace⟩

/-- **No object of a document that was read repeats a name.** -/
theorem distinct_of_parse {text : String} {v : Json} (h : parse text = .ok v) : v.Distinct := by
  obtain ⟨rest, hread, -⟩ := readValue_of_parse h
  exact (distinct_of_read _).1 hread

end AmdKit.Json
