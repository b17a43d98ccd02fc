/-
  AmdKit.Proofs.JsonLocality
  ────────────────────────────────
  **A VALUE IS READ FROM ITS OWN TEXT.**

  What the reader makes of a value does not depend on what surrounds it: the
  characters that were used for it give the same value behind any blanks, with
  any fuel that is enough for them, and before anything that can follow a value.
  The readers of values, items and members call each other, so this is shown of
  all three at once, one step at a time (`LocalAt`).

  Main result: `exists_text_of_mem`.  Every member of a document that was read
  is the only member of some other document, be its value written as it may.
-/
import AmdKit.Proofs.JsonText
import AmdKit.Proofs.JsonTokens

namespace AmdKit.Json

/-! ## §1. Between the values. -/

/-- What is skipped is blank, and ends in front of something else. -/
theorem exists_gap {cs behind : List Char} {c : Char} (h : skipSpace cs = c :: behind) :
    ∃ gap, Blank gap ∧ isSpace c = false ∧ cs = gap ++ c :: behind := by
  refine ⟨cs.takeWhile isSpace, fun d hd => List.mem_takeWhile_imp hd, ?_, ?_⟩
  · have hhead := List.head?_dropWhile_not isSpace cs
    change skipSpace cs = _ at h
    unfold skipSpace at h
    rw [h] at hhead
    simpa using hhead
  · rw [← h]
    exact (List.takeWhile_append_dropWhile).symm

/-- Blanks in front of an item make no difference. -/
theorem nextItem_blank {gap : List Char} (h : Blank gap) (first : Bool) (cs : List Char) :
    nextItem first (gap ++ cs) = nextItem first cs := by
  unfold nextItem
  rw [skipSpace_blank h]

theorem nextMember_blank {gap : List Char} (h : Blank gap) (first : Bool) (cs : List Char) :
    nextMember first (gap ++ cs) = nextMember first cs := by
  unfold nextMember
  rw [skipSpace_blank h]

/-- The next item begins with a character of its own. -/
theorem nextItem_next {first : Bool} {cs start : List Char}
    (h : nextItem first cs = .ok (true, start)) :
    ∃ front c behind, cs = front ++ c :: behind ∧ start = c :: behind
      ∧ ∀ behind', nextItem first (front ++ c :: behind') = .ok (true, c :: behind') := by
  unfold nextItem at h
  split at h
  case h_1 => cases h
  case h_2 => cases h
  case h_3 c behind hopen hskip =>
    obtain ⟨gap, hgap, hc, rfl⟩ := exists_gap hskip
    -- A first item stands there already; any other one needs its comma.
    rcases ite_eq_iff.mp h with ⟨hfirst, hstart⟩ | ⟨hfirst, hcomma⟩
    · cases hstart
      refine ⟨gap, c, behind, rfl, rfl, ?_⟩
      intro behind'
      rw [hfirst]
      exact nextItem_of_first hgap ⟨c, [], rfl, hc, hopen⟩ behind'
    rcases ite_eq_iff.mp hcomma with ⟨rfl, hstart⟩ | ⟨-, hstart⟩
    · split at hstart
      case h_1 => cases hstart
      case h_2 => cases hstart
      case h_3 hnil hbracket =>
        cases hstart
        cases hskip' : skipSpace behind with
        | nil => exact absurd hskip' hnil
        | cons d behind =>
            obtain ⟨gap', hgap', hd, rfl⟩ := exists_gap hskip'
            have hopen' : d ≠ ']' := fun hd => hbracket behind (hd ▸ hskip')
            refine ⟨gap ++ ',' :: gap', d, behind, by simp, rfl, ?_⟩
            intro behind'
            rw [List.append_assoc, nextItem_blank hgap, Bool.eq_false_iff.mpr hfirst]
            exact nextItem_of_comma hgap' ⟨d, [], rfl, hd, hopen'⟩ behind'
    · cases hstart

/-- The list ends with a bracket. -/
theorem nextItem_end {first : Bool} {cs rest : List Char}
    (h : nextItem first cs = .ok (false, rest)) :
    ∃ gap behind, Blank gap ∧ cs = gap ++ ']' :: behind ∧ rest = ']' :: behind := by
  unfold nextItem at h
  split at h
  case h_1 => cases h
  case h_2 hskip =>
    cases h
    obtain ⟨gap, hgap, -, rfl⟩ := exists_gap hskip
    exact ⟨gap, _, hgap, rfl, rfl⟩
  case h_3 =>
    -- Behind a comma, or first, only an item is looked for.
    rcases ite_eq_iff.mp h with ⟨-, hend⟩ | ⟨-, hcomma⟩
    · cases hend
    rcases ite_eq_iff.mp hcomma with ⟨-, hend⟩ | ⟨-, hend⟩
    · split at hend <;> cases hend
    · cases hend

/-- The object ends with a bracket. -/
theorem nextMember_end {first : Bool} {cs rest : List Char}
    (h : nextMember first cs = .ok (false, rest)) :
    ∃ gap behind, Blank gap ∧ cs = gap ++ '}' :: behind ∧ rest = '}' :: behind := by
  unfold nextMember at h
  split at h
  case h_1 => cases h
  case h_2 hskip =>
    cases h
    obtain ⟨gap, hgap, -, rfl⟩ := exists_gap hskip
    exact ⟨gap, _, hgap, rfl, rfl⟩
  case h_3 =>
    rcases ite_eq_iff.mp h with ⟨-, hend⟩ | ⟨-, hcomma⟩
    · split at hend <;> cases hend
    rcases ite_eq_iff.mp hcomma with ⟨-, hend⟩ | ⟨-, hend⟩
    · split at hend <;> cases hend
    · cases hend

/-- What leads to the next member leads to any other in its place. -/
theorem nextMember_next {first : Bool} {cs start : List Char}
    (h : nextMember first cs = .ok (true, start)) :
    ∃ front, cs = front ++ start
      ∧ ∀ start', nextMember first (front ++ start') = .ok (true, start') := by
  unfold nextMember at h
  split at h
  case h_1 => cases h
  case h_2 => cases h
  case h_3 c behind hopen hskip =>
    obtain ⟨gap, hgap, hc, rfl⟩ := exists_gap hskip
    rcases ite_eq_iff.mp h with ⟨hfirst, hstart⟩ | ⟨hfirst, hcomma⟩
    · rcases ite_eq_iff.mp hstart with ⟨rfl, hstart⟩ | ⟨-, hstart⟩
      · cases hstart
        refine ⟨gap ++ ['"'], by simp, ?_⟩
        intro start'
        rw [hfirst, List.append_assoc]
        exact nextMember_of_first hgap start'
      · cases hstart
    rcases ite_eq_iff.mp hcomma with ⟨rfl, hstart⟩ | ⟨-, hstart⟩
    · split at hstart
      case h_2 start' hskip' =>
        cases hstart
        obtain ⟨gap', hgap', -, rfl⟩ := exists_gap hskip'
        refine ⟨gap ++ ',' :: gap' ++ ['"'], by simp, ?_⟩
        intro start''
        simp only [List.append_assoc, List.cons_append]
        rw [nextMember_blank hgap, Bool.eq_false_iff.mpr hfirst]
        exact nextMember_of_comma hgap' start''
      all_goals cases hstart
    · cases hstart

/-- So does what leads to a value behind its name. -/
theorem colon_local {cs rest : List Char} (h : colon cs = .ok rest) :
    ∃ front, cs = front ++ rest ∧ ∀ rest', colon (front ++ rest') = .ok rest' := by
  unfold colon at h
  split at h
  case h_2 hskip =>
    cases h
    obtain ⟨gap, hgap, -, rfl⟩ := exists_gap hskip
    refine ⟨gap ++ [':'], by simp, ?_⟩
    intro rest'
    unfold colon
    rw [List.append_assoc, skipSpace_blank hgap]
    rfl
  all_goals cases h

/-- What can stand behind a value stops it. -/
theorem stops_cons {c : Char} (h : isSpace c = true ∨ c = ',' ∨ c = ']' ∨ c = '}')
    (cs : List Char) : Stops (c :: cs) := by
  intro d hd
  cases hd
  unfold isSpace at h
  simp only [Bool.or_eq_true, beq_iff_eq, or_assoc] at h
  rcases h with rfl | rfl | rfl | rfl | rfl | rfl | rfl
  all_goals decide

/-- Behind a value there are blanks, a comma, or the end of what it is in: nothing that
makes a number longer. -/
theorem stops_of_skipSpace {cs behind : List Char} {c : Char} (h : skipSpace cs = c :: behind)
    (hc : c = ',' ∨ c = ']' ∨ c = '}') : Stops cs := by
  obtain ⟨gap, hgap, -, rfl⟩ := exists_gap h
  cases gap with
  | nil => exact stops_cons (Or.inr hc) behind
  | cons d gap => exact stops_cons (Or.inl (hgap d List.mem_cons_self)) _

theorem stops_of_nextItem {cs : List Char} {out : Bool × List Char}
    (h : nextItem false cs = .ok out) : Stops cs := by
  unfold nextItem at h
  split at h
  case h_1 => cases h
  case h_2 hskip => exact stops_of_skipSpace hskip (Or.inr (Or.inl rfl))
  case h_3 hskip =>
    rw [if_neg Bool.false_ne_true] at h
    rcases ite_eq_iff.mp h with ⟨hcomma, -⟩ | ⟨-, h⟩
    · exact stops_of_skipSpace hskip (Or.inl hcomma)
    · cases h

theorem stops_of_nextMember {cs : List Char} {out : Bool × List Char}
    (h : nextMember false cs = .ok out) : Stops cs := by
  unfold nextMember at h
  split at h
  case h_1 => cases h
  case h_2 hskip => exact stops_of_skipSpace hskip (Or.inr (Or.inr rfl))
  case h_3 hskip =>
    rw [if_neg Bool.false_ne_true] at h
    rcases ite_eq_iff.mp h with ⟨hcomma, -⟩ | ⟨-, h⟩
    · exact stops_of_skipSpace hskip (Or.inl hcomma)
    · cases h

/-! ## §2. Values. -/

/-- A text that the reader takes has a character, as without fuel it takes none. -/
theorem TakesFueled.length_pos {α : Type} {allowed : List Char → Prop}
    {read : Nat → List Char → Except Fault (α × List Char)} {used : List Char} {x : α}
    (h : TakesFueled allowed read used x) (hnil : allowed []) (hzero : ∀ y, read 0 [] ≠ .ok y) :
    0 < used.length := by
  refine List.length_pos_iff.mpr ?_
  rintro rfl
  exact hzero _ (h 0 (Nat.le_refl 0) [] hnil)

/-- A value ends in front of what is read behind it in a list. -/
theorem stops_of_readItems {fuel depth : Nat} {cs rest : List Char} {items : List Json}
    (h : readItems fuel depth false cs = .ok (items, rest)) : Stops cs := by
  cases fuel with
  | zero => cases h
  | succ fuel =>
      cases step_of_readItems h with
      | stop hnext => exact stops_of_nextItem hnext
      | next hnext _ _ => exact stops_of_nextItem hnext

/-- And in front of what is read behind it in an object. -/
theorem stops_of_readMembers {fuel depth : Nat} {members result : Members} {cs rest : List Char}
    (h : readMembers fuel depth false members cs = .ok (result, rest)) : Stops cs := by
  cases fuel with
  | zero => cases h
  | succ fuel =>
      cases step_of_readMembers h with
      | stop hnext => exact stops_of_nextMember hnext
      | next hnext _ _ _ _ => exact stops_of_nextMember hnext

/-- What the readers take with the given fuel, they take from the front of a text
that any fuel for its characters is enough for.  A value has to be followed by
what stops it; lists and objects bring their own end. -/
structure LocalAt (fuel : Nat) : Prop where
  value : ∀ {depth : Nat} {cs rest : List Char} {v : Json},
    readValue fuel depth cs = .ok (v, rest) →
      ∃ used, cs = used ++ rest ∧ TakesFueled Stops (fun fuel => readValue fuel depth) used v
  items : ∀ {depth : Nat} {first : Bool} {cs rest : List Char} {items : List Json},
    readItems fuel depth first cs = .ok (items, rest) →
      ∃ used, cs = used ++ rest
        ∧ TakesFueled Anything (fun fuel => readItems fuel depth first) used items
  members : ∀ {depth : Nat} {first : Bool} {members : Members} {cs rest : List Char}
    {result : Members}, readMembers fuel depth first members cs = .ok (result, rest) →
      ∃ used, cs = used ++ rest
        ∧ TakesFueled Anything (fun fuel => readMembers fuel depth first members) used result

section

variable {fuel depth : Nat} {rest : List Char}

/-- A step can be taken wherever the characters that it used stand. -/
theorem LocalAt.valueStep (h : LocalAt fuel) {c : Char} {behind : List Char} {v : Json}
    (hstep : ValueStep fuel depth (c :: behind) v rest) :
    ∃ used, behind = used ++ rest ∧ ∀ fuel rest', used.length ≤ fuel → Stops rest' →
      ValueStep fuel depth (c :: (used ++ rest')) v rest' := by
  cases hstep with
  | null hlit => exact ⟨_, eq_append_of_literal hlit, fun _ _ _ _ => .null (literal_append _ _)⟩
  | yes hlit => exact ⟨_, eq_append_of_literal hlit, fun _ _ _ _ => .yes (literal_append _ _)⟩
  | no hlit => exact ⟨_, eq_append_of_literal hlit, fun _ _ _ _ => .no (literal_append _ _)⟩
  | negative hn =>
      obtain ⟨used, rfl, htakes⟩ := readNumber_local hn
      exact ⟨used, rfl, fun _ _ _ hrest => .negative (htakes _ hrest)⟩
  | number hdigit hn =>
      obtain ⟨used, hused, htakes⟩ := readNumber_local hn
      -- The digit that was looked at is the first character of the number.
      cases used with
      | nil => exact nomatch htakes [] stops_nil
      | cons d used =>
          obtain ⟨rfl, rfl⟩ := List.cons.inj hused
          exact ⟨used, rfl, fun _ _ _ hrest => .number hdigit (htakes _ hrest)⟩
  | string hs =>
      obtain ⟨used, rfl, htakes⟩ := readString_local hs
      exact ⟨used, rfl, fun _ _ _ _ => .string (htakes _ trivial)⟩
  | array hdepth hitems =>
      obtain ⟨used, rfl, htakes⟩ := h.items hitems
      exact ⟨used, rfl, fun _ _ hfuel _ => .array hdepth (htakes _ hfuel _ trivial)⟩
  | object hdepth hmembers =>
      obtain ⟨used, rfl, htakes⟩ := h.members hmembers
      exact ⟨used, rfl, fun _ _ hfuel _ => .object hdepth (htakes _ hfuel _ trivial)⟩

/-- A value is local at the next fuel: it is behind blanks, and begins with a character
that tells its kind. -/
theorem LocalAt.readValue_succ (h : LocalAt fuel) {cs : List Char} {v : Json}
    (hread : readValue (fuel + 1) depth cs = .ok (v, rest)) :
    ∃ used, cs = used ++ rest ∧ TakesFueled Stops (fun fuel => readValue fuel depth) used v := by
  have hstep := step_of_readValue hread
  cases hskip : skipSpace cs with
  | nil =>
      rw [hskip] at hstep
      cases hstep
  | cons c behind =>
      rw [hskip] at hstep
      obtain ⟨gap, hgap, hc, rfl⟩ := exists_gap hskip
      obtain ⟨used, rfl, hused⟩ := h.valueStep hstep
      refine ⟨gap ++ c :: used, by simp, ?_⟩
      intro fuel hfuel rest' hrest'
      simp only [List.length_append, List.length_cons] at hfuel
      obtain ⟨fuel, rfl⟩ : ∃ n, fuel = n + 1 := ⟨fuel - 1, by omega⟩
      refine readValue_of_step ?_
      rw [List.append_assoc, skipSpace_blank hgap, List.cons_append, skipSpace_cons hc]
      exact hused fuel rest' (by omega) hrest'

/-- The items of a list are local at the next fuel: a value, and then the rest. -/
theorem LocalAt.readItems_succ (h : LocalAt fuel) {first : Bool} {cs : List Char}
    {items : List Json} (hread : readItems (fuel + 1) depth first cs = .ok (items, rest)) :
    ∃ used, cs = used ++ rest
      ∧ TakesFueled Anything (fun fuel => readItems fuel depth first) used items := by
  cases step_of_readItems hread with
  | stop hnext =>
      obtain ⟨gap, behind, hgap, rfl, rfl⟩ := nextItem_end hnext
      refine ⟨gap ++ [']'], by simp, ?_⟩
      intro fuel hfuel rest' _
      simp only [List.length_append, List.length_cons] at hfuel
      obtain ⟨fuel, rfl⟩ : ∃ n, fuel = n + 1 := ⟨fuel - 1, by omega⟩
      rw [List.append_assoc]
      exact readItems_end hgap fuel depth first rest'
  | next hnext hx hxs =>
      obtain ⟨front, c, start, rfl, rfl, hfront⟩ := nextItem_next hnext
      obtain ⟨usedX, hstart, htakesX⟩ := h.value hx
      obtain ⟨used, rfl, htakes⟩ := h.items hxs
      have hpos := htakes.length_pos trivial (by nofun)
      cases usedX with
      | nil => exact absurd (htakesX.length_pos stops_nil (by nofun)) (Nat.lt_irrefl 0)
      | cons d usedX =>
          obtain ⟨rfl, rfl⟩ := List.cons.inj hstart
          refine ⟨front ++ (c :: usedX ++ used), by simp, ?_⟩
          intro fuel hfuel rest' _
          simp only [List.length_append, List.length_cons] at hfuel
          obtain ⟨fuel, rfl⟩ : ∃ n, fuel = n + 1 := ⟨fuel - 1, by omega⟩
          -- The item is stopped by whatever the rest of the list begins with.
          have hxs' := htakes fuel (by omega) rest' trivial
          have hx' := htakesX fuel (by rw [List.length_cons]; omega) (used ++ rest')
            (stops_of_readItems hxs')
          rw [List.append_assoc, List.append_assoc]
          exact readItems_of_step (.next (hfront _) hx' hxs')

/-- So are the members of an object. -/
theorem LocalAt.readMembers_succ (h : LocalAt fuel) {first : Bool} {members result : Members}
    {cs : List Char}
    (hread : readMembers (fuel + 1) depth first members cs = .ok (result, rest)) :
    ∃ used, cs = used ++ rest
      ∧ TakesFueled Anything (fun fuel => readMembers fuel depth first members) used result := by
  cases step_of_readMembers hread with
  | stop hnext =>
      obtain ⟨gap, behind, hgap, rfl, rfl⟩ := nextMember_end hnext
      refine ⟨gap ++ ['}'], by simp, ?_⟩
      intro fuel hfuel rest' _
      simp only [List.length_append, List.length_cons] at hfuel
      obtain ⟨fuel, rfl⟩ : ∃ n, fuel = n + 1 := ⟨fuel - 1, by omega⟩
      rw [List.append_assoc]
      exact readMembers_end hgap fuel depth first members rest'
  | next hnext hname hcolon hx hrest =>
      obtain ⟨front, rfl, hfront⟩ := nextMember_next hnext
      -- The four parts of a member and the rest of the object, one after the other.
      obtain ⟨usedName, rfl, htakesName⟩ := readString_local hname
      obtain ⟨usedColon, rfl, htakesColon⟩ := colon_local hcolon
      obtain ⟨usedX, rfl, htakesX⟩ := h.value hx
      obtain ⟨used, rfl, htakes⟩ := h.members hrest
      have hpos := htakes.length_pos trivial (by nofun)
      have hposX := htakesX.length_pos stops_nil (by nofun)
      refine ⟨front ++ (usedName ++ (usedColon ++ (usedX ++ used))), by simp, ?_⟩
      intro fuel hfuel rest' _
      simp only [List.length_append] at hfuel
      obtain ⟨fuel, rfl⟩ : ∃ n, fuel = n + 1 := ⟨fuel - 1, by omega⟩
      have hrest' := htakes fuel (by omega) rest' trivial
      have hx' := htakesX fuel (by omega) (used ++ rest') (stops_of_readMembers hrest')
      simp only [List.append_assoc]
      exact readMembers_of_step
        (.next (hfront _) (htakesName _ trivial) (htakesColon _) hx' hrest')

end

/-- The readers are local at any fuel, by induction on it. -/
theorem localAt (fuel : Nat) : LocalAt fuel := by
  induction fuel with
  | zero =>
      refine ⟨fun h => ?_, fun h => ?_, fun h => ?_⟩
      all_goals cases h
  | succ fuel ih => exact ⟨ih.readValue_succ, ih.readItems_succ, ih.readMembers_succ⟩

/-! ## §3. Single members. -/

/-- Some text is read as the value, wherever it stands. -/
def Readable (depth : Nat) (v : Json) : Prop :=
  ∃ used, TakesFueled Stops (fun fuel => readValue fuel depth) used v

/-- The value of each member that has been read can be read on its own. -/
theorem readable_of_readMembers {fuel depth : Nat} {first : Bool} {members result : Members}
    {cs rest : List Char} (hmembers : ∀ m ∈ members, Readable depth m.2)
    (h : readMembers fuel depth first members cs = .ok (result, rest)) :
    ∀ m ∈ result, Readable depth m.2 := by
  induction fuel generalizing first members cs with
  | zero => cases h
  | succ fuel ih =>
      cases step_of_readMembers h with
      | stop => exact hmembers
      | next _ _ _ hx hrest =>
          refine ih (fun m hm => ?_) hrest
          -- A member that is set has the value just read; the others are older.
          rcases Keyed.mem_put hm with rfl | hm
          · obtain ⟨used, -, hused⟩ := (localAt fuel).value hx
            exact ⟨used, hused⟩
          · exact hmembers m hm

/-- So can the value of each member of a document. -/
theorem readable_of_parse {text : String} {document : Members}
    (h : parse text = .ok (.object document)) : ∀ m ∈ document, Readable 127 m.2 := by
  obtain ⟨rest, hread, -⟩ := readValue_of_parse h
  have hstep := step_of_readValue hread
  generalize skipSpace text.toList = cs at hstep
  cases hstep with
  | object _ hmembers =>
      exact readable_of_readMembers (fun _ hm => absurd hm List.not_mem_nil) hmembers

/-- The text of an object with one member. -/
def singleText (name : String) (value : List Char) : List Char :=
  '{' :: '"' :: (name.toList.flatMap escape ++ '"' :: ':' :: (value ++ ['}']))

/-- A value that can be read on its own can be read as the only member of an object. -/
theorem readValue_singleText {depth : Nat} {used : List Char} {v : Json} (name : String)
    (h : TakesFueled Stops (fun fuel => readValue fuel (depth + 1)) used v) {fuel : Nat}
    (hfuel : (singleText name used).length ≤ fuel) :
    readValue fuel (depth + 2) (singleText name used) = .ok (.object [(name, v)], []) := by
  unfold singleText at hfuel ⊢
  simp only [List.length_cons, List.length_append, List.length_nil] at hfuel
  -- One unit of fuel for each of the two brackets and the member.
  obtain ⟨fuel, rfl⟩ : ∃ n, fuel = n + 3 := ⟨fuel - 3, by omega⟩
  have hvalue : readValue (fuel + 1) (depth + 1) (used ++ ['}']) = .ok (v, ['}']) :=
    h (fuel + 1) (by omega) ['}'] (stops_cons (Or.inr (Or.inr (Or.inr rfl))) [])
  have hmembers : readMembers (fuel + 2) (depth + 1) true []
      ('"' :: (name.toList.flatMap escape ++ '"' :: ':' :: (used ++ ['}'])))
      = .ok ([(name, v)], []) :=
    readMembers_of_step (.next (nextMember_of_first blank_nil _) (readString_quoted name _) rfl
      hvalue (readMembers_end blank_nil fuel (depth + 1) false [(name, v)] []))
  exact readValue_of_step (.object (by omega) hmembers)

/-- **A member can stand alone.**  Each member of a document that was read is the
only member of some document. -/
theorem exists_text_of_mem {text : String} {document : Members}
    (h : parse text = .ok (.object document)) {m : String × Json} (hm : m ∈ document) :
    ∃ alone, parse alone = .ok (.object [m]) := by
  obtain ⟨used, hused⟩ := readable_of_parse h m hm
  exact ⟨_, parse_of_readValue fun fuel hfuel => readValue_singleText m.1 hused hfuel⟩

/-- The members with the given name. -/
def Members.only (members : Members) (name : String) : Members :=
  members.filter fun m => m.1 = name

/-- Of a member alone nothing else can be found. -/
theorem Members.get?_only (members : Members) (name other : String) :
    (members.only name).get? other = if other = name then members.get? other else none := by
  unfold Members.get? Members.only Keyed.find?
  simp only [List.find?_filter, decide_eq_true_eq]
  split
  case isTrue hname => simp only [hname, and_self]
  case isFalse hname =>
    -- No member has both names.
    have hnone : members.find? (fun m => decide (m.1 = name ∧ m.1 = other)) = none := by
      refine List.find?_eq_none.mpr fun m _ hm => hname ?_
      obtain ⟨hleft, hright⟩ := of_decide_eq_true hm
      exact hright.symm.trans hleft
    rw [hnone]
    rfl

/-- A document of distinct names has at most one member of a name. -/
theorem Members.only_cases {members : Members} (h : (members.map Prod.fst).Nodup) (name : String) :
    members.only name = [] ∨ ∃ m ∈ members, members.only name = [m] := by
  unfold Members.only
  induction members with
  | nil => exact Or.inl rfl
  | cons m members ih =>
      rw [List.map_cons, List.nodup_cons] at h
      by_cases hname : m.1 = name
      · have hrest : members.filter (fun m => m.1 = name) = [] := by
          refine List.filter_eq_nil_iff.mpr fun m' hm' hname' => h.1 ?_
          rw [hname, ← of_decide_eq_true hname']
          exact List.mem_map_of_mem hm'
        rw [List.filter_cons_of_pos (by simpa using hname), hrest]
        exact Or.inr ⟨m, List.mem_cons_self, rfl⟩
      · rw [List.filter_cons_of_neg (by simpa using hname)]
        rcases ih h.2 with hnone | ⟨m', hm', hone⟩
        · exact Or.inl hnone
        · exact Or.inr ⟨m', List.mem_cons_of_mem m hm', hone⟩

/-- A document that was read can be reduced to the members of one name. -/
theorem exists_text_of_only {text : String} {document : Members}
    (h : parse text = .ok (.object document)) (name : String) :
    ∃ reduced, parse reduced = .ok (.object (document.only name)) := by
  have hnames : (document.map Prod.fst).Nodup := by
    cases distinct_of_parse h with
    | object hnames _ => exact hnames
  rcases document.only_cases hnames name with hnone | ⟨m, hm, hone⟩
  · rw [hnone]
    exact ⟨"\x7b\x7d", rfl⟩
  · rw [hone]
    exact exists_text_of_mem h hm

end AmdKit.Json
