/-
  AmdKit.Proofs.TokenRanges
  ────────────────────────────────
  **TOKENS FOLLOW EACH OTHER.**

  Whatever is read off an input leaves a rest of that input, at the offset that the
  characters read take up:

      i.Ahead j   —   i.chars = front ++ j.chars,  j.offset = i.offset + byteLength front

  So the next token of an input begins where the input does or behind that, ends where
  the input after it begins, and takes up at least a byte if it is a word or a name;
  and the inputs around it are rests of the text that is read.
-/
import AmdKit.Script.Lexer
import AmdKit.Text.Bytes

namespace AmdKit.Script

open Text (isIdentifierStart byteLength)

/-! ## §1. Inputs. -/

/-- The second input is what is left of the first one behind some of its characters. -/
def Input.Ahead (i j : Input) : Prop :=
  ∃ front, i.chars = front ++ j.chars ∧ j.offset = i.offset + byteLength front

/-- No characters lead to the same input. -/
theorem Input.Ahead.refl (i : Input) : i.Ahead i := ⟨[], rfl, rfl⟩

/-- What is left of a rest is left of the whole. -/
theorem Input.Ahead.trans {i j k : Input} (h : i.Ahead j) (h' : j.Ahead k) : i.Ahead k := by
  obtain ⟨front, hchars, hoffset⟩ := h
  obtain ⟨front', hchars', hoffset'⟩ := h'
  refine ⟨front ++ front', ?_, ?_⟩
  · rw [hchars, hchars', List.append_assoc]
  · rw [hoffset', hoffset, Text.byteLength_append, Nat.add_assoc]

/-- A rest begins no earlier. -/
theorem Input.Ahead.offset_le {i j : Input} (h : i.Ahead j) : i.offset ≤ j.offset := by
  obtain ⟨front, -, hoffset⟩ := h
  rw [hoffset]
  exact Nat.le_add_right _ _

/-- The input is what is left of the text, at its offset. -/
def Input.In (i : Input) (text : List Char) : Prop :=
  ∃ front, text = front ++ i.chars ∧ i.offset = byteLength front

/-- What is ahead of an input in a text is in that text too. -/
theorem Input.In.ahead {i j : Input} {text : List Char} (h : i.In text) (hij : i.Ahead j) :
    j.In text := by
  obtain ⟨front, htext, hoffset⟩ := h
  obtain ⟨front', hchars, hoffset'⟩ := hij
  refine ⟨front ++ front', ?_, ?_⟩
  · rw [htext, hchars, List.append_assoc]
  · rw [hoffset', hoffset, Text.byteLength_append]

/-- One character is read. -/
theorem Input.ahead_next (i : Input) : i.Ahead i.next := by
  unfold next
  split
  · exact .refl i
  next c cs heq => exact ⟨[c], heq, rfl⟩

/-- A character takes up at least a byte. -/
theorem Input.offset_lt_next {i : Input} {c : Char} {cs : List Char} (h : i.chars = c :: cs) :
    i.offset < i.next.offset := by
  unfold next
  rw [h]
  exact Nat.lt_add_of_pos_right c.utf8Size_pos

/-- Some characters are read. -/
theorem Input.ahead_skip (n : Nat) (i : Input) : i.Ahead (i.skip n) := by
  induction n generalizing i with
  | zero => exact .refl i
  | succ n ih => exact i.ahead_next.trans (ih i.next)

/-- Skipping a character goes past at least a byte. -/
theorem Input.offset_lt_skip {i : Input} {c : Char} {cs : List Char} (h : i.chars = c :: cs)
    (n : Nat) : i.offset < (i.skip (n + 1)).offset :=
  Nat.lt_of_lt_of_le (offset_lt_next h) (i.next.ahead_skip n).offset_le

/-- The characters in front that satisfy a condition are read. -/
theorem Input.ahead_spanWhile (p : Char → Bool) (i : Input) : i.Ahead (i.spanWhile p).2 :=
  i.ahead_skip _

/-- So does a span that takes its first character. -/
theorem Input.offset_lt_spanWhile {p : Char → Bool} {i : Input} {c : Char} {cs : List Char}
    (h : i.chars = c :: cs) (hc : p c = true) : i.offset < (i.spanWhile p).2.offset := by
  unfold spanWhile
  rw [h, List.takeWhile_cons_of_pos hc]
  exact offset_lt_skip h _

/-- The rest of a line is read. -/
theorem Input.ahead_skipLine (i : Input) : i.Ahead i.skipLine := i.ahead_spanWhile _

/-- Blanks and comments are read. -/
theorem ahead_skipGap (gap : Gap) (lineBreak : Bool) (cs : List Char) (n stop : Nat) :
    Input.Ahead ⟨cs, n, stop⟩
      ⟨(skipGap gap lineBreak cs n).chars, (skipGap gap lineBreak cs n).offset, stop⟩ := by
  have hstep : ∀ {c : Char} {cs : List Char} {n : Nat},
      Input.Ahead ⟨c :: cs, n, stop⟩ ⟨cs, n + c.utf8Size, stop⟩ := fun {c cs n} => ⟨[c], rfl, rfl⟩
  fun_induction skipGap gap lineBreak cs n with
  | case1 nl cs n ih | case2 nl cs n ih | case8 nl cs n ih => exact (hstep.trans hstep).trans ih
  | case3 nl c cs n hslash hstar hline ih | case4 nl c cs n hslash hstar hline hgap ih
  | case6 nl c cs n hline ih | case7 nl c cs n hline ih | case9 nl c cs n hend ih =>
      exact hstep.trans ih
  | case5 | case10 | case11 => exact .refl _

/-! ## §2. Escapes and identifiers. -/

/-- The code point of an escape is read. -/
theorem ahead_unicodeEscape (start : Nat) (i : Input) :
    i.Ahead (unicodeEscape start i).2 := by
  have hbrace := i.ahead_next.trans (i.next.ahead_spanWhile isHexDigit)
  unfold unicodeEscape
  simp only
  split
  · split
    · exact hbrace
    · split
      · exact hbrace
      · split
        · exact hbrace.trans (Input.ahead_next _)
        · exact hbrace
  · split <;> exact i.ahead_skip _

/-- An escape of a string or a template is read. -/
theorem ahead_stringEscape (inTemplate : Bool) (start : Nat) (i : Input) :
    i.Ahead (stringEscape inTemplate start i).2 := by
  have hnext := i.ahead_next
  unfold stringEscape
  split
  · exact .refl i
  · have hskip := hnext.trans
      (i.next.ahead_skip ((i.next.chars.take 2).takeWhile isHexDigit).length)
    simp only
    split <;> exact hskip
  · exact hnext.trans (ahead_unicodeEscape start i.next)
  · exact i.ahead_skip 2
  · split
    · split <;> exact hnext
    · exact hnext

/-- The characters of an identifier are read. -/
theorem ahead_identifierChars (start fuel : Nat) (first : Bool) (i : Input) :
    i.Ahead (identifierChars start fuel first i).2 := by
  fun_induction identifierChars start fuel first i with
  | case1 | case2 | case7 => exact .refl _
  | case3 fuel first i c cs hchars hpart result after heq ih =>
      rw [heq] at ih
      exact i.ahead_next.trans ih
  | case4 fuel first i cs hu fault after heq =>
      have hescape := ahead_unicodeEscape i.offset (i.skip 2)
      rw [heq] at hescape
      exact (i.ahead_skip 2).trans hescape
  | case5 fuel first i cs hu value after heq d valid issues result after' heq' hchars hpart ih =>
      have hescape := ahead_unicodeEscape i.offset (i.skip 2)
      rw [heq] at hescape
      rw [heq'] at ih
      exact ((i.ahead_skip 2).trans hescape).trans ih
  | case6 fuel first i => exact i.ahead_next

/-! ## §3. Numbers. -/

/-- Digits are read. -/
theorem ahead_readDigits (radix : Nat) (i : Input) : i.Ahead (readDigits radix i).2.1 :=
  i.ahead_spanWhile _

/-- A number ends where its last digit does. -/
theorem after_finishNumber (start after : Input) (issues : List (Severity × Fault)) :
    (finishNumber start after issues).after = after := by
  unfold finishNumber
  split <;> rfl

/-- A big integer has a letter behind its digits. -/
theorem ahead_finishBigint (start after : Input) (issues : List (Severity × Fault)) :
    after.Ahead (finishBigint start after issues).after := after.ahead_next

/-- The exponent of a number is read, if it has one. -/
theorem ahead_readExponent (start : Input) (issues : List (Severity × Fault)) (i : Input) :
    i.Ahead (readExponent start issues i).after := by
  unfold readExponent
  split
  · have hsign : i.Ahead (if i.next.startsWith ['+'] = true ∨ i.next.startsWith ['-'] = true
        then i.next.next else i.next) := by
      split
      · exact i.ahead_next.trans i.next.ahead_next
      · exact i.ahead_next
    simp only
    generalize (if i.next.startsWith ['+'] = true ∨ i.next.startsWith ['-'] = true
      then i.next.next else i.next) = after at hsign ⊢
    split
    · exact hsign
    · rw [after_finishNumber]
      exact hsign.trans (ahead_readDigits 10 after)
  · rw [after_finishNumber]
    exact .refl i

/-- What follows the whole part of a number is read. -/
theorem ahead_readFraction (start : Input) (issues : List (Severity × Fault)) (i : Input) :
    i.Ahead (readFraction start issues i).after := by
  unfold readFraction
  split
  · exact (i.ahead_next.trans (ahead_readDigits 10 _)).trans (ahead_readExponent _ _ _)
  · exact ahead_readExponent _ _ _

/-- A number with a mark of its radix is read. -/
theorem ahead_readRadix (radix : Nat) (start : Input) :
    (start.skip 2).Ahead (readRadix radix start).after := by
  have hdigits := ahead_readDigits radix (start.skip 2)
  unfold readRadix
  simp only
  split
  · exact hdigits
  · split
    · exact hdigits.trans (ahead_finishBigint _ _ _)
    · rw [after_finishNumber]
      exact hdigits

/-- A digit is one of the decimal ones. -/
theorem isDigitOf_ten {c : Char} (h : isDigit c = true) : isDigitOf 10 c = true := by
  unfold isDigit at h
  rw [Bool.and_eq_true, decide_eq_true_iff, decide_eq_true_iff] at h
  have hvalue : c.toNat ≤ 57 := h.2
  unfold isDigitOf hexDigit?
  rw [if_pos h]
  exact decide_eq_true (show c.toNat - 48 < 10 by omega)

/-- A number that begins with a digit is read, behind the digits in front or behind the
mark of its radix. -/
theorem ahead_readNumber (start : Input) :
    (start.skip 2).Ahead (readNumber start).after
      ∨ (readDigits 10 start).2.1.Ahead (readNumber start).after := by
  unfold readNumber
  split <;> try exact Or.inl (ahead_readRadix _ start)
  refine Or.inr ?_
  simp only
  split
  · exact ahead_finishBigint _ _ _
  · split
    · exact ahead_readFraction _ _ _
    · split
      · rw [after_finishNumber]
        exact .refl _
      · exact ahead_readFraction _ _ _

/-- A number that begins with a digit goes past it. -/
theorem offset_lt_readNumber {start : Input} {c : Char} {cs : List Char}
    (h : start.chars = c :: cs) (hc : isDigit c = true) :
    start.offset < (readNumber start).after.offset := by
  have hdigits : start.offset < (readDigits 10 start).2.1.offset :=
    Input.offset_lt_spanWhile h (by rw [isDigitOf_ten hc]; rfl)
  rcases ahead_readNumber start with hahead | hahead
  · exact Nat.lt_of_lt_of_le (Input.offset_lt_skip h 1) hahead.offset_le
  · exact Nat.lt_of_lt_of_le hdigits hahead.offset_le

/-- A fraction goes past its point. -/
theorem offset_lt_readFraction {start i : Input} {issues : List (Severity × Fault)}
    {cs : List Char} (h : i.chars = '.' :: cs) :
    i.offset < (readFraction start issues i).after.offset := by
  have hpoint : i.startsWith ['.'] = true := by
    unfold Input.startsWith
    rw [h]
    rfl
  unfold readFraction
  rw [if_pos hpoint]
  exact Nat.lt_of_lt_of_le (Input.offset_lt_next h)
    ((ahead_readDigits 10 _).trans (ahead_readExponent _ _ _)).offset_le

/-! ## §4. Strings, templates and marks. -/

/-- The characters of a string are read. -/
theorem ahead_stringChars (start : Input) (quote : Char) (fuel : Nat) (i : Input) :
    i.Ahead (stringChars start quote fuel i).after := by
  fun_induction stringChars start quote fuel i with
  | case1 | case2 | case6 => exact .refl _
  | case3 fuel i => exact i.ahead_next
  | case4 fuel i cs fault after heq =>
      have hescape := ahead_stringEscape false i.offset i.next
      rw [heq] at hescape
      exact i.ahead_next.trans hescape
  | case5 fuel i cs issues after heq rest hchars hquote ih =>
      have hescape := ahead_stringEscape false i.offset i.next
      rw [heq] at hescape
      exact (i.ahead_next.trans hescape).trans ih
  | case7 fuel i c cs hchars hquote hslash hline ih => exact i.ahead_next.trans ih

/-- A piece of the text of a template is read. -/
theorem ahead_templatePiece (fuel : Nat) (fault : Option Fault) (i : Input) :
    i.Ahead (templatePiece fuel fault i).2.2 := by
  fun_induction templatePiece fuel fault i with
  | case1 | case2 | case3 | case4 => exact .refl _
  | case5 fuel fault i tail hchars fault' after heq ih
  | case6 fuel fault i tail hchars issues after heq ih =>
      have hescape := ahead_stringEscape true i.offset i.next
      rw [heq] at hescape
      exact (i.ahead_next.trans hescape).trans ih
  | case7 fuel fault i hnil hquote hdollar hslash ih => exact i.ahead_next.trans ih

/-- A piece of a template ends at its closing quote, or at a dollar and a brace, unless
nothing is left. -/
theorem chars_templatePiece {fuel : Nat} {fault fault' : Option Fault} {i j : Input}
    {stop : PieceEnd} (h : templatePiece fuel fault i = (stop, fault', j)) :
    (stop = .backquote → ∃ cs, j.chars = '\x60' :: cs)
      ∧ (stop = .placeholder → ∃ cs, j.chars = '$' :: '{' :: cs) := by
  fun_induction templatePiece fuel fault i with
  | case1 | case2 =>
      obtain rfl : PieceEnd.finish = stop := congrArg Prod.fst h
      exact ⟨nofun, nofun⟩
  | case3 fuel fault i tail hchars =>
      obtain rfl : PieceEnd.backquote = stop := congrArg Prod.fst h
      have hinput : i = j := congrArg (fun piece => piece.2.2) h
      exact ⟨fun _ => ⟨tail, hinput ▸ hchars⟩, nofun⟩
  | case4 fuel fault i tail hchars =>
      obtain rfl : PieceEnd.placeholder = stop := congrArg Prod.fst h
      have hinput : i = j := congrArg (fun piece => piece.2.2) h
      exact ⟨nofun, fun _ => ⟨tail, hinput ▸ hchars⟩⟩
  | case5 fuel fault i tail hchars fault' after heq ih
  | case6 fuel fault i tail hchars issues after heq ih
  | case7 fuel fault i hnil hquote hdollar hslash ih => exact ih h

/-- A placeholder begins with two bytes. -/
theorem offset_skip_placeholder {j : Input} {cs : List Char}
    (h : j.chars = '$' :: '{' :: cs) : (j.skip 2).offset = j.offset + 2 := by
  unfold Input.skip Input.skip Input.skip Input.next
  rw [h]
  rfl

/-- A regular expression and its flags are read. -/
theorem ahead_readRegex {i after : Input} {faults : List Fault}
    (h : readRegex i = (.ok faults, after)) : i.Ahead after := by
  unfold readRegex at h
  split at h
  · cases h
  next n _ =>
    have hafter := congrArg Prod.snd h
    rw [← show _ = after from hafter]
    exact (i.ahead_skip _).trans (Input.ahead_spanWhile _ _)

/-- A mark is read, or what is none. -/
theorem ahead_readMark (i : Input) : i.Ahead (readMark i).after := by
  unfold readMark
  split
  · exact .refl i
  · split
    · exact i.ahead_next
    · split
      · exact i.ahead_skip _
      · exact i.ahead_next

/-- A mark goes past its first character, whichever mark it is. -/
theorem offset_lt_readMark {i : Input} {c : Char} {cs : List Char} (h : i.chars = c :: cs) :
    i.offset < (readMark i).after.offset := by
  unfold readMark
  rw [h]
  simp only
  split
  · exact Input.offset_lt_next h
  · split
    next m hm =>
      -- No mark is spelled with nothing.
      have hspelled : ∀ m ∈ marks, m.1.length ≠ 0 := by decide
      obtain ⟨n, hn⟩ := Nat.exists_eq_succ_of_ne_zero (hspelled m (List.mem_of_find?_eq_some hm))
      rw [hn]
      exact Input.offset_lt_skip h n
    next => exact Input.offset_lt_next h

/-! ## §5. Tokens. -/

/-- At least one character belongs to an identifier that begins with a letter or an
escape. -/
theorem offset_lt_identifierChars {start fuel : Nat} {i : Input} {c : Char} {cs : List Char}
    (h : i.chars = c :: cs) (hc : isIdentifierStart c = true ∨ c = '\\') :
    i.offset < (identifierChars start (fuel + 1) true i).2.offset := by
  have hnext := Input.offset_lt_next h
  have hskip := Input.offset_lt_skip h 1
  unfold identifierChars
  rw [h]
  simp only [if_true]
  split
  · exact Nat.lt_of_lt_of_le hnext (ahead_identifierChars _ _ _ _).offset_le
  next hstart =>
    rw [if_pos (hc.resolve_left hstart)]
    split
    · -- An escape begins with its backslash and its letter, whatever follows them.
      have hescape := ahead_unicodeEscape i.offset (i.skip 2)
      split
      next heq =>
        rw [heq] at hescape
        exact Nat.lt_of_lt_of_le hskip hescape.offset_le
      next heq =>
        rw [heq] at hescape
        exact Nat.lt_of_lt_of_le hskip
          (hescape.trans (ahead_identifierChars _ _ _ _)).offset_le
    · exact hnext

/-- A word ends where its characters do. -/
theorem after_readWord (i : Input) :
    (readWord i).after = (identifierChars i.offset i.fuel true i).2 := by
  unfold readWord
  split
  next heq => rw [heq]
  next heq => rw [heq]

/-- A token takes up at least a byte unless nothing is left. -/
theorem offset_lt_readToken {i : Input} {c : Char} {cs : List Char} (h : i.chars = c :: cs) :
    i.offset < (readToken i).after.offset := by
  -- A token is told by its first character: a word, a number, a fraction, a string, or else a
  -- mark.
  unfold readToken
  rw [h]
  simp only
  split
  next hc =>
    rw [after_readWord]
    exact offset_lt_identifierChars h hc
  · split
    next hc => exact offset_lt_readNumber h hc
    · split
      next hc =>
        rw [hc.1] at h
        exact offset_lt_readFraction h
      · split
        · exact Nat.lt_of_lt_of_le (Input.offset_lt_next h) (ahead_stringChars _ _ _ _).offset_le
        · exact offset_lt_readMark h

/-- **A token is read,** and what is left is a rest of the input. -/
theorem ahead_readToken (i : Input) : i.Ahead (readToken i).after := by
  unfold readToken
  split
  · exact .refl i
  · split
    · rw [after_readWord]
      exact ahead_identifierChars _ _ _ _
    · split
      · -- A number may begin behind the two characters of its radix.
        rcases ahead_readNumber i with hahead | hahead
        · exact (i.ahead_skip 2).trans hahead
        · exact (ahead_readDigits 10 i).trans hahead
      · split
        · exact ahead_readFraction _ _ _
        · split
          · exact i.ahead_next.trans (ahead_stringChars _ _ _ _)
          · exact ahead_readMark i

/-- A word or a name takes up at least a byte. -/
theorem offset_lt_readToken_of_identifier {i : Input}
    (h : (readToken i).token.identifier?.isSome = true) :
    i.offset < (readToken i).after.offset := by
  cases hchars : i.chars with
  | nil =>
      unfold readToken at h
      rw [hchars] at h
      cases h
  | cons c cs => exact offset_lt_readToken hchars

/-- The token of a lexed input has the range between its two inputs, which are rests of
the input; it takes up at least a byte if it is a word or a name. -/
structure Lexed.Follows (l : Lexed) (i : Input) : Prop where
  span : l.lexeme.span = ⟨l.start.offset, l.after.offset⟩
  start : i.Ahead l.start
  after : l.start.Ahead l.after
  word : l.lexeme.token.identifier?.isSome = true → l.start.offset < l.after.offset

/-- A token that follows an input follows those in front of that one. -/
theorem Lexed.Follows.of_ahead {l : Lexed} {i j : Input} (h : l.Follows j) (hij : i.Ahead j) :
    l.Follows i := ⟨h.span, hij.trans h.start, h.after, h.word⟩

/-- Going past blanks moves where a token begins on, unless it has begun before. -/
theorem ahead_getD {start : Option Input} {i j : Input} (h : (start.getD i).Ahead i)
    (hij : i.Ahead j) :
    (start.getD i).Ahead (start.getD j) ∧ (start.getD j).Ahead j := by
  cases start with
  | none => exact ⟨hij, .refl j⟩
  | some first => exact ⟨.refl first, h.trans hij⟩

/-- A token is looked for behind blanks and comments, by induction on the fuel. -/
theorem follows_lexFrom (fuel : Nat) (start : Option Input) (lineBreak : Bool)
    (issues : List (Severity × Fault)) (i : Input) (h : (start.getD i).Ahead i) :
    (lexFrom fuel start lineBreak issues i).Follows (start.getD i) := by
  fun_induction lexFrom fuel start lineBreak issues i with
  | case1 start lineBreak issues i first => exact ⟨rfl, .refl _, h, fun hword => by cases hword⟩
  | case2 fuel start lineBreak issues i gap j first hgap =>
      obtain ⟨hfirst, hj⟩ := ahead_getD (j := j) h (ahead_skipGap _ _ _ _ _)
      exact ⟨rfl, hfirst, hj, fun hword => by cases hword⟩
  | case3 fuel start lineBreak issues i gap j first legacy hgap hmarkup ih
  | case4 fuel start lineBreak issues i gap j first legacy hgap hmarkup hmarkup' ih =>
      -- The rest is read with the token begun at the comment.
      obtain ⟨hfirst, hj⟩ := ahead_getD (j := j) h (ahead_skipGap _ _ _ _ _)
      exact (ih (hj.trans j.ahead_skipLine)).of_ahead hfirst
  -- No gap is left: the token itself is read.
  | case5 fuel start lineBreak issues i gap j first hgap hmarkup hmarkup' reading =>
      obtain ⟨hfirst, hj⟩ := ahead_getD (j := j) h (ahead_skipGap _ _ _ _ _)
      refine ⟨rfl, hfirst, hj.trans (ahead_readToken j), fun hword => ?_⟩
      exact Nat.lt_of_le_of_lt hj.offset_le (offset_lt_readToken_of_identifier hword)

/-- **The next token of an input.** -/
theorem follows_lex (lineBreak : Bool) (i : Input) : (lex lineBreak i).Follows i :=
  follows_lexFrom i.fuel none lineBreak [] i (.refl i)

/-- The closing quote of a template is a token. -/
theorem lex_backquote {i : Input} {cs : List Char} (h : i.chars = '\x60' :: cs) :
    lex false i = ⟨⟨.mark .backquote, ⟨i.offset, i.next.offset⟩, false, []⟩, i, i.next⟩ := by
  obtain ⟨chars, offset, stop⟩ := i
  obtain rfl : chars = '\x60' :: cs := h
  rfl

end AmdKit.Script
