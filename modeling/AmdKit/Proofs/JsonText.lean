/-
  AmdKit.Proofs.JsonText
  ────────────────────────────────
  **READING BACK WRITTEN JSON.**

  The reader takes back what the printer writes, from the text without blanks
  and from the one with an entry on each line:

      parse (render v)  =  v  =  parse (renderPretty v)

  for every value without numbers in which no object repeats a name and which
  stays within the bracket limit.  `ReadsAs depth text v` says that the reader
  takes `text` for `v` whatever follows it; there is one such lemma for each
  kind of value, and the two layouts differ only in the blanks they put in:

      strings  — escaped character by character, and read back the same way
      lists    — each item behind a comma, blanks anywhere around it
      objects  — each member set after the earlier ones, blanks anywhere
-/
import AmdKit.Json.Printer
import AmdKit.Json.Reader
import AmdKit.Proofs.KeyedLists

namespace AmdKit.Json

open Text (byteLength)

/-! ## §1. Blanks. -/

/-- Nothing but blanks. -/
def Blank (cs : List Char) : Prop := ∀ c ∈ cs, isSpace c = true

theorem blank_nil : Blank [] := fun _ hc => absurd hc List.not_mem_nil

theorem blank_space : Blank [' '] := by
  intro c hc
  rw [List.mem_singleton.mp hc]
  rfl

/-- The break in front of a line and its indentation are blank. -/
theorem blank_newLine (depth : Nat) : Blank (newLine depth) := by
  intro c hc
  rcases List.mem_cons.mp hc with rfl | hc
  · rfl
  · rw [List.eq_of_mem_replicate hc]
    rfl

theorem Blank.append {gap last : List Char} (hgap : Blank gap) (hlast : Blank last) :
    Blank (gap ++ last) := fun c hc => (List.mem_append.mp hc).elim (hgap c) (hlast c)

/-- What is blank is skipped as a whole. -/
theorem skipSpace_blank {gap : List Char} (h : Blank gap) (cs : List Char) :
    skipSpace (gap ++ cs) = skipSpace cs :=
  List.dropWhile_append_of_pos h

/-- Nothing is skipped in front of anything else. -/
theorem skipSpace_cons {c : Char} (h : isSpace c = false) (cs : List Char) :
    skipSpace (c :: cs) = c :: cs :=
  List.dropWhile_cons_of_neg (by rw [h]; exact Bool.false_ne_true)

/-! ## §2. Strings. -/

/-- The two digits of a control character, with zeros before them, are its four
hexadecimal digits. -/
theorem hexValue4?_hexDigit : ∀ n < 32,
    byteLength ['0', '0', hexDigit (n / 16), hexDigit (n % 16)] = 4
      ∧ hexValue4? '0' '0' (hexDigit (n / 16)) (hexDigit (n % 16)) = some n := by
  decide

/-- A control character is read from the four digits that are written for it. -/
theorem unicodeEscape_hexDigit {c : Char} (hc : c.toNat < 0x20) (rest : List Char) :
    unicodeEscape ('0' :: '0' :: hexDigit (c.toNat / 16) :: hexDigit (c.toNat % 16) :: rest)
      = .ok (c, rest) := by
  obtain ⟨hlength, hvalue⟩ := hexValue4?_hexDigit c.toNat hc
  have hhex : hexEscape ('0' :: '0' :: hexDigit (c.toNat / 16) :: hexDigit (c.toNat % 16) :: rest)
      = .ok (c.toNat, rest) := by
    unfold hexEscape
    rw [List.take_succ_cons, List.take_succ_cons, List.take_succ_cons, List.take_succ_cons,
        List.take_zero, hlength, if_neg (by omega)]
    simp only [hvalue]
  -- Below the space, no escape is half of a surrogate pair.
  have hlow : ¬ (0xDC00 ≤ c.toNat ∧ c.toNat ≤ 0xDFFF) := by omega
  have hplane : c.toNat < 0xD800 ∨ 0xDBFF < c.toNat := Or.inl (by omega)
  unfold unicodeEscape
  rw [hhex]
  simp only [bind, Except.bind]
  rw [if_neg hlow, if_pos hplane, Char.ofNat_toNat]

/-- The digits of an escape are neither a quote nor a backslash. -/
theorem hexDigit_plain : ∀ n < 16, hexDigit n ≠ '"' ∧ hexDigit n ≠ '\\' := by
  decide

/-- A character stands for itself, or is written as a backslash and what is read as
the character behind one, in which only what the backslash escapes can be a quote. -/
theorem escape_cases (c : Char) :
    (escape c = [c] ∧ c ≠ '"' ∧ c ≠ '\\' ∧ ¬ c.toNat < 0x20)
      ∨ ∃ e digits, escape c = '\\' :: e :: digits
          ∧ (∀ x ∈ digits, x ≠ '"' ∧ x ≠ '\\')
          ∧ ∀ rest, escapeSequence (e :: (digits ++ rest)) = .ok (c, rest) := by
  have hletter : ∀ e : Char, (∀ rest, escapeSequence (e :: rest) = .ok (c, rest)) →
      ∃ e' digits, ['\\', e] = '\\' :: e' :: digits ∧ (∀ x ∈ digits, x ≠ '"' ∧ x ≠ '\\')
        ∧ ∀ rest, escapeSequence (e' :: (digits ++ rest)) = .ok (c, rest) :=
    fun e he => ⟨e, [], rfl, fun _ hx => absurd hx List.not_mem_nil, he⟩
  -- One case for each branch of `escape`: seven letters, the control characters,
  -- and the characters that stand for themselves.
  unfold escape
  split
  case isTrue hc => exact Or.inr (hletter '"' fun _ => by rw [hc]; rfl)
  split
  case isTrue hc => exact Or.inr (hletter '\\' fun _ => by rw [hc]; rfl)
  split
  case isTrue hc => exact Or.inr (hletter 'n' fun _ => hc ▸ rfl)
  split
  case isTrue hc => exact Or.inr (hletter 'r' fun _ => hc ▸ rfl)
  split
  case isTrue hc => exact Or.inr (hletter 't' fun _ => hc ▸ rfl)
  split
  case isTrue hc => exact Or.inr (hletter 'b' fun _ => hc ▸ rfl)
  split
  case isTrue hc => exact Or.inr (hletter 'f' fun _ => hc ▸ rfl)
  split
  case isTrue hc =>
    have hhigh := hexDigit_plain (c.toNat / 16) (by omega)
    have hlow := hexDigit_plain (c.toNat % 16) (by omega)
    refine Or.inr ⟨'u', ['0', '0', hexDigit (c.toNat / 16), hexDigit (c.toNat % 16)], rfl, ?_,
      unicodeEscape_hexDigit hc⟩
    simp [hhigh, hlow]
  case isFalse hquote hback _ _ _ _ _ hcontrol =>
    exact Or.inl ⟨rfl, hquote, hback, hcontrol⟩

/-- A written character is read back as one character of the string. -/
theorem stringBody_escape (c : Char) (fuel : Nat) (rest : List Char) :
    stringBody (fuel + 1) (escape c ++ rest)
      = (stringBody fuel rest).map fun out => (c :: out.1, out.2) := by
  rcases escape_cases c with ⟨hself, hquote, hback, hcontrol⟩ | ⟨e, digits, hescape, -, hread⟩
  · rw [hself, List.singleton_append, stringBody, if_neg hquote, if_neg hback, if_neg hcontrol]
    rfl
  · rw [hescape, List.cons_append, List.cons_append, stringBody, if_neg (by decide), if_pos rfl,
        hread]
    rfl

/-- The characters of a string are read as they were written, by induction on them. -/
theorem stringBody_written (cs rest : List Char) :
    ∀ fuel, cs.length < fuel →
      stringBody fuel (cs.flatMap escape ++ '"' :: rest) = .ok (cs, rest) := by
  induction cs with
  | nil =>
      intro fuel hfuel
      obtain ⟨fuel, rfl⟩ := Nat.exists_eq_add_of_lt hfuel
      rfl
  | cons c cs ih =>
      intro fuel hfuel
      -- An escape of six characters is one step of the reader, as a letter is.
      obtain ⟨fuel, rfl⟩ : ∃ n, fuel = n + 1 := ⟨fuel - 1, by omega⟩
      rw [List.length_cons] at hfuel
      rw [List.flatMap_cons, List.append_assoc, stringBody_escape, ih fuel (by omega)]
      rfl

/-- An escape takes at least a character, so the fuel is enough. -/
theorem length_le_length_flatMap_escape (cs : List Char) :
    cs.length ≤ (cs.flatMap escape).length := by
  have hone : ∀ c, 1 ≤ (escape c).length := by
    intro c
    rcases escape_cases c with ⟨hself, -⟩ | ⟨e, digits, hescape, -⟩
    · rw [hself]
      exact Nat.le_refl 1
    · rw [hescape]
      exact Nat.succ_pos _
  induction cs with
  | nil => exact Nat.le_refl 0
  | cons c cs ih =>
      have hc := hone c
      rw [List.flatMap_cons, List.length_append, List.length_cons]
      omega

/-- **A written string is read back.** -/
theorem readString_quoted (s : String) (rest : List Char) :
    readString (s.toList.flatMap escape ++ '"' :: rest) = .ok (s, rest) := by
  have hlength := length_le_length_flatMap_escape s.toList
  unfold readString
  rw [stringBody_written s.toList rest _ (by rw [List.length_append]; omega)]
  show Except.ok (String.ofList s.toList, rest) = _
  rw [String.ofList_toList]

/-! ## §3. Texts that are read as a value. -/

/-- A text that can stand in a list: it begins with neither a blank nor the end of
the list. -/
def Opens (text : List Char) : Prop := ∃ c cs, text = c :: cs ∧ isSpace c = false ∧ c ≠ ']'

/-- The text is read as the value, whatever follows, by a reader at the given
depth; fuel for each of its characters is enough. -/
structure ReadsAs (depth : Nat) (text : List Char) (v : Json) : Prop where
  opens : Opens text
  read : ∀ fuel rest, text.length ≤ fuel →
    readValue fuel depth (text ++ rest) = .ok (v, rest)

/-- Blanks before a value do not matter. -/
theorem ReadsAs.read_blank {depth : Nat} {text : List Char} {v : Json} (h : ReadsAs depth text v)
    {gap : List Char} (hgap : Blank gap) {fuel : Nat} (hfuel : text.length ≤ fuel)
    (rest : List Char) : readValue fuel depth (gap ++ (text ++ rest)) = .ok (v, rest) := by
  obtain ⟨c, cs, htext, -, -⟩ := h.opens
  obtain ⟨fuel, rfl⟩ : ∃ n, fuel = n + 1 := by
    rw [htext, List.length_cons] at hfuel
    exact ⟨fuel - 1, by omega⟩
  have hblank : readValue (fuel + 1) depth (gap ++ (text ++ rest))
      = readValue (fuel + 1) depth (text ++ rest) := by
    rw [readValue, readValue, skipSpace_blank hgap]
  rw [hblank, h.read _ _ hfuel]

/-- The words of the grammar are read as what they stand for. -/
theorem readsAs_null (depth : Nat) : ReadsAs depth (compact .null) .null where
  opens := ⟨'n', _, rfl, rfl, by decide⟩
  read fuel rest hfuel := by
    obtain ⟨fuel, rfl⟩ : ∃ n, fuel = n + 1 := ⟨fuel - 1, by
      have : 4 ≤ fuel := hfuel
      omega⟩
    rfl

theorem readsAs_bool (depth : Nat) (b : Bool) : ReadsAs depth (compact (.bool b)) (.bool b) where
  opens := by
    cases b with
    | false => exact ⟨'f', _, rfl, rfl, by decide⟩
    | true => exact ⟨'t', _, rfl, rfl, by decide⟩
  read fuel rest hfuel := by
    have hlength : 0 < (compact (.bool b)).length := by cases b <;> decide
    obtain ⟨fuel, rfl⟩ : ∃ n, fuel = n + 1 := ⟨fuel - 1, by omega⟩
    cases b <;> rfl

theorem readsAs_string (depth : Nat) (s : String) : ReadsAs depth (quoted s) (.string s) where
  opens := ⟨'"', _, rfl, rfl, by decide⟩
  read fuel rest hfuel := by
    have hread := readString_quoted s rest
    have hspace : isSpace '"' = false := rfl
    unfold quoted at hfuel ⊢
    rw [List.length_cons] at hfuel
    obtain ⟨fuel, rfl⟩ : ∃ n, fuel = n + 1 := ⟨fuel - 1, by omega⟩
    rw [List.cons_append, List.append_assoc, List.singleton_append, readValue,
        skipSpace_cons hspace]
    simp [hread, bind, Except.bind, pure, Except.pure, isDigit]

/-! ## §4. Lists. -/

/-- Entries after the first one, each behind a comma. -/
def behindCommas (gap : List Char) (texts : List (List Char)) : List Char :=
  texts.flatMap fun text => ',' :: (gap ++ text)

/-- Behind its comma and its blanks an entry stands in front of the others. -/
theorem behindCommas_cons (gap text : List Char) (texts : List (List Char)) :
    behindCommas gap (text :: texts) = ',' :: (gap ++ (text ++ behindCommas gap texts)) := by
  unfold behindCommas
  rw [List.flatMap_cons, List.cons_append, List.append_assoc]

/-- The first entry has no comma, all others have. -/
theorem intercalate_cons (gap text : List Char) (texts : List (List Char)) :
    (',' :: gap).intercalate (text :: texts) = text ++ behindCommas gap texts := by
  induction texts generalizing text with
  | nil => rw [List.intercalate_singleton, behindCommas, List.flatMap_nil, List.append_nil]
  | cons next texts ih =>
      rw [List.intercalate_cons_cons, ih, behindCommas_cons]
      simp only [List.cons_append, List.append_assoc]

/-- Entries between brackets, with commas between them, and blanks before each and
before the closing bracket. -/
def enclosed (gap last : List Char) (opening closing : Char) (entries : List (List Char)) :
    List Char :=
  opening :: (gap ++ ((',' :: gap).intercalate entries ++ (last ++ [closing])))

/-- A text that opens a value is found behind blanks, and does not close the list. -/
theorem Opens.skipSpace {text : List Char} (h : Opens text) {gap : List Char} (hgap : Blank gap)
    (rest : List Char) :
    ∃ c cs, skipSpace (gap ++ (text ++ rest)) = c :: cs ∧ c :: cs = text ++ rest ∧ c ≠ ']' := by
  obtain ⟨c, cs, rfl, hspace, hc⟩ := h
  refine ⟨c, cs ++ rest, ?_, rfl, hc⟩
  rw [skipSpace_blank hgap]
  exact skipSpace_cons hspace _

/-- Behind the first item of a list, a comma leads to the next one. -/
theorem nextItem_of_comma {gap text : List Char} (hgap : Blank gap) (htext : Opens text)
    (rest : List Char) :
    nextItem false (',' :: (gap ++ (text ++ rest))) = .ok (true, text ++ rest) := by
  obtain ⟨c, cs, hskip, htext, hc⟩ := htext.skipSpace hgap rest
  have hcomma : isSpace ',' = false := rfl
  unfold nextItem
  rw [skipSpace_cons hcomma]
  split
  case h_1 heq => exact absurd heq (List.cons_ne_nil _ _)
  case h_2 heq => exact absurd (List.cons.inj heq).1 (by decide)
  case h_3 heq =>
    -- Behind the comma stands the item, which no bracket closes.
    cases heq
    rw [if_neg Bool.false_ne_true, if_pos rfl, hskip, ← htext]
    split
    case h_1 heq => exact absurd heq (List.cons_ne_nil _ _)
    case h_2 heq => exact absurd (List.cons.inj heq).1 hc
    case h_3 => rfl

/-- The first item needs none. -/
theorem nextItem_of_first {gap text : List Char} (hgap : Blank gap) (htext : Opens text)
    (rest : List Char) :
    nextItem true (gap ++ (text ++ rest)) = .ok (true, text ++ rest) := by
  obtain ⟨c, cs, hskip, htext, hc⟩ := htext.skipSpace hgap rest
  unfold nextItem
  rw [hskip, ← htext]
  split
  case h_1 heq => exact absurd heq (List.cons_ne_nil _ _)
  case h_2 heq => exact absurd (List.cons.inj heq).1 hc
  case h_3 heq => rw [if_pos rfl, heq]

/-- The bracket ends the list, in front of a first item or behind others. -/
theorem nextItem_of_end {gap : List Char} (hgap : Blank gap) (first : Bool) (rest : List Char) :
    nextItem first (gap ++ ']' :: rest) = .ok (false, ']' :: rest) := by
  have hbracket : isSpace ']' = false := rfl
  unfold nextItem
  rw [skipSpace_blank hgap, skipSpace_cons hbracket]
  rfl

/-- No items are left in front of the bracket. -/
theorem readItems_end {gap : List Char} (hgap : Blank gap) (fuel depth : Nat) (first : Bool)
    (rest : List Char) :
    readItems (fuel + 1) depth first (gap ++ ']' :: rest) = .ok ([], rest) := by
  unfold readItems
  rw [nextItem_of_end hgap]
  rfl

/-- One more item is read once the reader stands before it. -/
theorem readItems_step {fuel depth : Nat} {first : Bool} {cs text rest rest' : List Char}
    {x : Json} {xs : List Json}
    (hnext : nextItem first cs = .ok (true, text ++ rest))
    (hx : readValue fuel depth (text ++ rest) = .ok (x, rest))
    (hxs : readItems fuel depth false rest = .ok (xs, rest')) :
    readItems (fuel + 1) depth first cs = .ok (x :: xs, rest') := by
  unfold readItems
  simp [hnext, hx, hxs, bind, Except.bind, pure, Except.pure]

section

variable {depth : Nat} {gap inner last : List Char} {write : Json → List Char}

/-- Items behind commas are read up to the bracket, by induction on them. -/
theorem readItems_behindCommas (hgap : Blank gap) (hlast : Blank last) {items : List Json}
    (h : ∀ x ∈ items, ReadsAs depth (write x) x) (rest : List Char) :
    ∀ fuel, (behindCommas gap (items.map write) ++ last).length < fuel →
      readItems fuel depth false (behindCommas gap (items.map write) ++ (last ++ ']' :: rest))
        = .ok (items, rest) := by
  induction items with
  | nil =>
      intro fuel hfuel
      obtain ⟨fuel, rfl⟩ : ∃ n, fuel = n + 1 := ⟨fuel - 1, by omega⟩
      exact readItems_end hlast fuel depth false rest
  | cons x items ih =>
      intro fuel hfuel
      rw [List.forall_mem_cons] at h
      rw [List.map_cons, behindCommas_cons] at hfuel ⊢
      simp only [List.cons_append, List.length_cons, List.length_append] at hfuel
      -- The comma pays for this step; the item and the tail have fuel of their own.
      obtain ⟨fuel, rfl⟩ : ∃ n, fuel = n + 1 := ⟨fuel - 1, by omega⟩
      have hlength : (behindCommas gap (items.map write) ++ last).length < fuel := by
        rw [List.length_append]
        omega
      have hnext := nextItem_of_comma hgap h.1.opens
        (behindCommas gap (items.map write) ++ (last ++ ']' :: rest))
      have hx := h.1.read fuel (behindCommas gap (items.map write) ++ (last ++ ']' :: rest))
        (by omega)
      have hxs := ih h.2 fuel hlength
      rw [List.cons_append, List.append_assoc, List.append_assoc]
      exact readItems_step hnext hx hxs

/-- The items between brackets are read, the first one without a comma. -/
theorem readItems_enclosed (hgap : Blank gap) (hlast : Blank last) {items : List Json}
    (h : ∀ x ∈ items, ReadsAs depth (write x) x) {fuel : Nat} (rest : List Char)
    (hfuel : ((',' :: gap).intercalate (items.map write) ++ last).length < fuel) :
    readItems fuel depth true
        (gap ++ ((',' :: gap).intercalate (items.map write) ++ (last ++ ']' :: rest)))
      = .ok (items, rest) := by
  obtain ⟨fuel, rfl⟩ : ∃ n, fuel = n + 1 := ⟨fuel - 1, by omega⟩
  cases items with
  | nil =>
      -- Without an item, the blanks before and after it are one run.
      have hend := readItems_end (hgap.append hlast) fuel depth true rest
      rwa [List.append_assoc] at hend
  | cons x items =>
      rw [List.forall_mem_cons] at h
      rw [List.map_cons, intercalate_cons] at hfuel ⊢
      -- The first item has no comma, but at least one character.
      have hlength : (behindCommas gap (items.map write) ++ last).length < fuel := by
        obtain ⟨c, cs, htext, -, -⟩ := h.1.opens
        simp only [htext, List.cons_append, List.length_cons, List.length_append] at hfuel
        rw [List.length_append]
        omega
      simp only [List.length_append] at hfuel
      have hnext := nextItem_of_first hgap h.1.opens
        (behindCommas gap (items.map write) ++ (last ++ ']' :: rest))
      have hx := h.1.read fuel (behindCommas gap (items.map write) ++ (last ++ ']' :: rest))
        (by omega)
      have hxs := readItems_behindCommas hgap hlast h.2 rest fuel hlength
      rw [List.append_assoc]
      exact readItems_step hnext hx hxs

/-- **A written list is read back.** -/
theorem readsAs_array (hgap : Blank gap) (hlast : Blank last) {items : List Json}
    (hdepth : 0 < depth) (h : ∀ x ∈ items, ReadsAs depth (write x) x) :
    ReadsAs (depth + 1) (enclosed gap last '[' ']' (items.map write)) (.array items) where
  opens := ⟨'[', _, rfl, rfl, by decide⟩
  read fuel rest hfuel := by
    have hbracket : isSpace '[' = false := rfl
    have hopen : ¬ depth + 1 ≤ 1 := by omega
    unfold enclosed at hfuel ⊢
    simp only [List.length_cons, List.length_append] at hfuel
    obtain ⟨fuel, rfl⟩ : ∃ n, fuel = n + 1 := ⟨fuel - 1, by omega⟩
    have hitems : readItems fuel depth true
        (gap ++ ((',' :: gap).intercalate (items.map write) ++ (last ++ ']' :: rest)))
        = .ok (items, rest) := by
      refine readItems_enclosed hgap hlast h rest ?_
      rw [List.length_append]
      omega
    simp only [List.cons_append, List.append_assoc, List.nil_append]
    rw [readValue, skipSpace_cons hbracket]
    simp [isDigit, hopen, hitems, bind, Except.bind, pure, Except.pure]

/-! ## §5. Objects. -/

/-- A member: its name, a colon and its value. -/
def memberText (inner : List Char) (write : Json → List Char) (m : String × Json) : List Char :=
  quoted m.1 ++ ':' :: (inner ++ write m.2)

/-- What is left of a member behind the quote that opens its name. -/
def openedMember (inner : List Char) (write : Json → List Char) (m : String × Json) : List Char :=
  m.1.toList.flatMap escape ++ '"' :: ':' :: (inner ++ write m.2)

theorem memberText_eq (inner : List Char) (write : Json → List Char) (m : String × Json) :
    memberText inner write m = '"' :: openedMember inner write m := by
  unfold memberText openedMember quoted
  rw [List.cons_append, List.append_assoc, List.singleton_append]

/-- The same holds of the members of an object, which begin with a quote. -/
theorem nextMember_of_comma (hgap : Blank gap) (rest : List Char) :
    nextMember false (',' :: (gap ++ '"' :: rest)) = .ok (true, rest) := by
  have hcomma : isSpace ',' = false := rfl
  have hquote : isSpace '"' = false := rfl
  have hskip : skipSpace (gap ++ '"' :: rest) = '"' :: rest := by
    rw [skipSpace_blank hgap, skipSpace_cons hquote]
  unfold nextMember
  rw [skipSpace_cons hcomma]
  split
  case h_1 heq => exact absurd heq (List.cons_ne_nil _ _)
  case h_2 heq => exact absurd (List.cons.inj heq).1 (by decide)
  case h_3 heq =>
    cases heq
    rw [if_neg Bool.false_ne_true, if_pos rfl, hskip]
    rfl

theorem nextMember_of_first (hgap : Blank gap) (rest : List Char) :
    nextMember true (gap ++ '"' :: rest) = .ok (true, rest) := by
  have hquote : isSpace '"' = false := rfl
  unfold nextMember
  rw [skipSpace_blank hgap, skipSpace_cons hquote]
  rfl

theorem nextMember_of_end (hgap : Blank gap) (first : Bool) (rest : List Char) :
    nextMember first (gap ++ '}' :: rest) = .ok (false, '}' :: rest) := by
  have hbrace : isSpace '}' = false := rfl
  unfold nextMember
  rw [skipSpace_blank hgap, skipSpace_cons hbrace]
  rfl

theorem readMembers_end (hgap : Blank gap) (fuel depth : Nat) (first : Bool) (members : Members)
    (rest : List Char) :
    readMembers (fuel + 1) depth first members (gap ++ '}' :: rest) = .ok (members, rest) := by
  unfold readMembers
  rw [nextMember_of_end hgap]
  rfl

/-- One more member is read and set once the reader stands behind the quote that
opens its name. -/
theorem readMembers_step (hinner : Blank inner) {m : String × Json}
    (h : ReadsAs depth (write m.2) m.2) {fuel : Nat}
    (hfuel : (memberText inner write m).length ≤ fuel) {first : Bool} {cs rest : List Char}
    (hnext : nextMember first cs = .ok (true, openedMember inner write m ++ rest))
    (members : Members) :
    readMembers (fuel + 1) depth first members cs
      = readMembers fuel depth false (members.set m.1 m.2) rest := by
  have hopened : openedMember inner write m ++ rest
      = m.1.toList.flatMap escape ++ '"' :: (':' :: (inner ++ (write m.2 ++ rest))) := by
    unfold openedMember
    rw [List.append_assoc, List.cons_append, List.cons_append, List.append_assoc]
  have hcolon : colon (':' :: (inner ++ (write m.2 ++ rest)))
      = .ok (inner ++ (write m.2 ++ rest)) := by
    have hspace : isSpace ':' = false := rfl
    unfold colon
    rw [skipSpace_cons hspace]
    rfl
  have hvalue : readValue fuel depth (inner ++ (write m.2 ++ rest)) = .ok (m.2, rest) := by
    refine h.read_blank hinner ?_ rest
    simp only [memberText, List.length_append, List.length_cons] at hfuel
    omega
  -- The name ends at its own closing quote, the value where `ReadsAs` says.
  rw [hopened] at hnext
  rw [readMembers]
  simp [hnext, readString_quoted, hcolon, hvalue, bind, Except.bind]

/-- Members behind commas are set one after the other, by induction on them. -/
theorem readMembers_behindCommas (hgap : Blank gap) (hinner : Blank inner) (hlast : Blank last)
    {new : Members} (h : ∀ m ∈ new, ReadsAs depth (write m.2) m.2) (rest : List Char) :
    ∀ (fuel : Nat) (members : Members),
      (behindCommas gap (new.map (memberText inner write)) ++ last).length < fuel →
      readMembers fuel depth false members
          (behindCommas gap (new.map (memberText inner write)) ++ (last ++ '}' :: rest))
        = .ok (members.setAll new, rest) := by
  induction new with
  | nil =>
      intro fuel members hfuel
      obtain ⟨fuel, rfl⟩ : ∃ n, fuel = n + 1 := ⟨fuel - 1, by omega⟩
      exact readMembers_end hlast fuel depth false members rest
  | cons m new ih =>
      intro fuel members hfuel
      rw [List.forall_mem_cons] at h
      rw [List.map_cons, behindCommas_cons] at hfuel ⊢
      simp only [List.cons_append, List.length_cons, List.length_append] at hfuel
      obtain ⟨fuel, rfl⟩ : ∃ n, fuel = n + 1 := ⟨fuel - 1, by omega⟩
      -- A member takes at least its comma, so the fuel that is left is enough for the others.
      have hlength : (behindCommas gap (new.map (memberText inner write)) ++ last).length
          < fuel := by
        rw [List.length_append]
        omega
      have hnext := nextMember_of_comma hgap (openedMember inner write m
        ++ (behindCommas gap (new.map (memberText inner write)) ++ (last ++ '}' :: rest)))
      rw [memberText_eq, List.cons_append, List.append_assoc, List.cons_append,
          List.cons_append, List.append_assoc,
          readMembers_step hinner h.1 (by omega) hnext members]
      exact ih h.2 fuel (members.set m.1 m.2) hlength

/-- The members between braces are read, the first one without a comma. -/
theorem readMembers_enclosed (hgap : Blank gap) (hinner : Blank inner) (hlast : Blank last)
    {members : Members} (h : ∀ m ∈ members, ReadsAs depth (write m.2) m.2) {fuel : Nat}
    (rest : List Char)
    (hfuel : ((',' :: gap).intercalate (members.map (memberText inner write)) ++ last).length
      < fuel) :
    readMembers fuel depth true []
        (gap ++ ((',' :: gap).intercalate (members.map (memberText inner write))
          ++ (last ++ '}' :: rest)))
      = .ok (Members.setAll [] members, rest) := by
  obtain ⟨fuel, rfl⟩ : ∃ n, fuel = n + 1 := ⟨fuel - 1, by omega⟩
  cases members with
  | nil =>
      have hend := readMembers_end (hgap.append hlast) fuel depth true [] rest
      rwa [List.append_assoc] at hend
  | cons m members =>
      rw [List.forall_mem_cons] at h
      rw [List.map_cons, intercalate_cons] at hfuel ⊢
      simp only [List.length_append] at hfuel
      have hlength : (behindCommas gap (members.map (memberText inner write)) ++ last).length
          < fuel := by
        rw [memberText_eq, List.length_cons] at hfuel
        rw [List.length_append]
        omega
      have hnext := nextMember_of_first hgap (openedMember inner write m
        ++ (behindCommas gap (members.map (memberText inner write)) ++ (last ++ '}' :: rest)))
      rw [memberText_eq, List.cons_append, List.cons_append, List.append_assoc,
          readMembers_step hinner h.1 (by omega) hnext []]
      exact readMembers_behindCommas hgap hinner hlast h.2 rest fuel _ hlength

/-- **A written object is read back**; of a name that repeats, the first position
and the last value are. -/
theorem readsAs_object (hgap : Blank gap) (hinner : Blank inner) (hlast : Blank last)
    {members : Members} (hdepth : 0 < depth)
    (h : ∀ m ∈ members, ReadsAs depth (write m.2) m.2) :
    ReadsAs (depth + 1) (enclosed gap last '{' '}' (members.map (memberText inner write)))
      (ofMembers members) where
  opens := ⟨'{', _, rfl, rfl, by decide⟩
  read fuel rest hfuel := by
    have hbrace : isSpace '{' = false := rfl
    have hopen : ¬ depth + 1 ≤ 1 := by omega
    unfold enclosed at hfuel ⊢
    simp only [List.length_cons, List.length_append] at hfuel
    obtain ⟨fuel, rfl⟩ : ∃ n, fuel = n + 1 := ⟨fuel - 1, by omega⟩
    have hmembers : readMembers fuel depth true []
        (gap ++ ((',' :: gap).intercalate (members.map (memberText inner write))
          ++ (last ++ '}' :: rest)))
        = .ok (Members.setAll [] members, rest) := by
      refine readMembers_enclosed hgap hinner hlast h rest ?_
      rw [List.length_append]
      omega
    simp only [List.cons_append, List.append_assoc, List.nil_append]
    rw [readValue, skipSpace_cons hbrace]
    simp [isDigit, hopen, hmembers, ofMembers, bind, Except.bind, pure, Except.pure]

end

/-- An object whose names are distinct is what its members make. -/
theorem ofMembers_of_nodup {members : Members} (h : (members.map Prod.fst).Nodup) :
    ofMembers members = .object members := by
  have hset : Members.setAll [] members = members := Keyed.upsertAll_of_nodup h
  unfold ofMembers
  rw [hset]

/-! ## §6. Whole values. -/

/-- At most `n` brackets stand open at a time, no object repeats a name, and no
number occurs. -/
inductive Within : Nat → Json → Prop where
  | null (n : Nat) : Within n .null
  | bool (n : Nat) (b : Bool) : Within n (.bool b)
  | string (n : Nat) (s : String) : Within n (.string s)
  | array {n : Nat} {items : List Json} (h : ∀ x ∈ items, Within n x) :
      Within (n + 1) (.array items)
  | object {n : Nat} {members : Members} (hnames : (members.map Prod.fst).Nodup)
      (h : ∀ m ∈ members, Within n m.2) : Within (n + 1) (.object members)

/-- Both ways to write a value write the entries one by one, and put them together in the
same shape. -/
theorem compactItems_eq_map (items : List Json) : compactItems items = items.map compact := by
  induction items with
  | nil => rfl
  | cons x items ih => rw [compactItems, ih, List.map_cons]

theorem compactMembers_eq_map (members : Members) :
    compactMembers members = members.map (memberText [] compact) := by
  induction members with
  | nil => rfl
  | cons m members ih =>
      rw [compactMembers, ih]
      rfl

theorem prettyItems_eq_map (depth : Nat) (items : List Json) :
    prettyItems depth items = items.map (prettyAt depth) := by
  induction items with
  | nil => rfl
  | cons x items ih => rw [prettyItems, ih, List.map_cons]

theorem prettyMembers_eq_map (depth : Nat) (members : Members) :
    prettyMembers depth members = members.map (memberText [' '] (prettyAt depth)) := by
  induction members with
  | nil => rfl
  | cons m members ih =>
      rw [prettyMembers, ih]
      rfl

/-- The blanks of a block; an empty one has none. -/
theorem exists_block_eq_enclosed (depth : Nat) (opening closing : Char)
    (entries : List (List Char)) :
    ∃ gap last, Blank gap ∧ Blank last
      ∧ block depth opening closing entries = enclosed gap last opening closing entries := by
  unfold block
  by_cases he : entries.isEmpty = true
  · refine ⟨[], [], blank_nil, blank_nil, ?_⟩
    rw [if_pos he, List.isEmpty_iff.mp he]
    rfl
  · refine ⟨newLine (depth + 1), newLine depth, blank_newLine _, blank_newLine _, ?_⟩
    rw [if_neg he]
    unfold enclosed
    simp only [List.append_assoc]

/-- What is written on one line is read as the value, by induction on how deep it is
nested. -/
theorem readsAs_compact {n : Nat} {v : Json} (h : Within n v) : ReadsAs (n + 1) (compact v) v := by
  induction h with
  | null n => exact readsAs_null _
  | bool n b => exact readsAs_bool _ b
  | string n s => exact readsAs_string _ s
  | @array n items _ ih =>
      have hread := readsAs_array blank_nil blank_nil (Nat.succ_pos n) ih
      rw [← compactItems_eq_map] at hread
      exact hread
  | @object n members hnames _ ih =>
      -- The reader sets the members one by one, which leaves distinct names alone.
      have hread := readsAs_object blank_nil blank_nil blank_nil (Nat.succ_pos n) ih
      rw [ofMembers_of_nodup hnames, ← compactMembers_eq_map] at hread
      exact hread

/-- So is what is written over several lines, at any indentation. -/
theorem readsAs_prettyAt {n : Nat} {v : Json} (h : Within n v) (indent : Nat) :
    ReadsAs (n + 1) (prettyAt indent v) v := by
  -- Entries are indented one level deeper than what they are in, so the indentation varies.
  induction h generalizing indent with
  | null n => exact readsAs_null _
  | bool n b =>
      have hsame : prettyAt indent (.bool b) = compact (.bool b) := by
        cases b <;> rfl
      rw [hsame]
      exact readsAs_bool _ b
  | string n s => exact readsAs_string _ s
  | @array n items _ ih =>
      obtain ⟨gap, last, hgap, hlast, hblock⟩ :=
        exists_block_eq_enclosed indent '[' ']' (items.map (prettyAt (indent + 1)))
      unfold prettyAt
      rw [prettyItems_eq_map, hblock]
      exact readsAs_array hgap hlast (Nat.succ_pos n) fun x hx => ih x hx (indent + 1)
  | @object n members hnames _ ih =>
      obtain ⟨gap, last, hgap, hlast, hblock⟩ := exists_block_eq_enclosed indent '{' '}'
        (members.map (memberText [' '] (prettyAt (indent + 1))))
      unfold prettyAt
      rw [prettyMembers_eq_map, hblock, ← ofMembers_of_nodup hnames]
      exact readsAs_object hgap blank_space hlast (Nat.succ_pos n)
        fun m hm => ih m hm (indent + 1)

/-- A text is a document if all of it is a value. -/
theorem parse_of_readValue {text : List Char} {v : Json}
    (h : ∀ fuel, text.length ≤ fuel → readValue fuel 128 text = .ok (v, [])) :
    parse (String.ofList text) = .ok v := by
  -- The fuel of `parse` is more than one unit for each character.
  have hread := h (2 * text.length + 2) (by omega)
  unfold parse readWhole
  rw [String.toList_ofList]
  simp only [hread]
  rfl

/-- A document is nested at most as deep as the reader goes. -/
theorem parse_of_readsAs {text : List Char} {v : Json} (h : ReadsAs 128 text v) :
    parse (String.ofList text) = .ok v := by
  refine parse_of_readValue fun fuel hfuel => ?_
  have hread := h.read fuel [] hfuel
  rwa [List.append_nil] at hread

/-- **A written value is read back**, from the text without blanks and from the one
with an entry on each line. -/
theorem parse_render {v : Json} (h : Within 127 v) :
    parse v.render = .ok v ∧ parse v.renderPretty = .ok v :=
  ⟨parse_of_readsAs (readsAs_compact h), parse_of_readsAs (readsAs_prettyAt h 0)⟩

end AmdKit.Json
