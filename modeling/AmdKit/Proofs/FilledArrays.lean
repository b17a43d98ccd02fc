/-
  AmdKit.Proofs.FilledArrays
  ────────────────────────────────
  **A FILLED ARRAY HOLDS ITS MODULES.**

  Filling an empty array writes module ids between two brackets of a script.
  Where that array ends is for a scan to say that knows nothing of how it was
  written: it counts the brackets that are open, passes over strings, and over
  what a backslash escapes in them.  `closing` cuts a text behind the bracket
  that closes its first one, and

      closing (array ++ after)  =  array, after left over
      parse array               =  the modules, in their order

  whatever characters the modules hold.  `Crosses` says that a scan goes over a
  piece of text with a bracket open all the way:

      escapes  — stay inside of their string
      strings  — come out where they went in
      lists    — only commas and strings, so no bracket shows
-/
import AmdKit.Proofs.EditOrder
import AmdKit.Proofs.JsonText

namespace AmdKit.Json

/-! ## §1. The bracket that closes. -/

/-- Where a scan stands in a text. -/
inductive Spot where
  /-- Between strings, where brackets count. -/
  | outside
  /-- Inside of a string. -/
  | inside
  /-- Inside of a string, behind a backslash. -/
  | escaped
  deriving Repr, DecidableEq

/-- What a scan for a closing bracket knows. -/
structure Scan where
  /-- The number of brackets that are open. -/
  depth : Nat
  /-- Where it stands. -/
  spot : Spot
  deriving Repr, DecidableEq

/-- What is known behind one more character. -/
def Scan.next (s : Scan) (c : Char) : Scan :=
  match s.spot with
  | .outside =>
    if c = '"' then ⟨s.depth, .inside⟩
    else if c = '[' then ⟨s.depth + 1, .outside⟩
    else if c = ']' then ⟨s.depth - 1, .outside⟩
    else s
  | .inside =>
    if c = '"' then ⟨s.depth, .outside⟩
    else if c = '\\' then ⟨s.depth, .escaped⟩
    else s
  | .escaped => ⟨s.depth, .inside⟩

/-- Cut a text behind the character that closes the last open bracket. -/
def Scan.cut (s : Scan) : List Char → Option (List Char × List Char)
  | [] => none
  | c :: cs =>
    if (s.next c).depth = 0 then some ([c], cs)
    else ((s.next c).cut cs).map fun parts => (c :: parts.1, parts.2)

/-- Cut a text that begins with a bracket behind the bracket that closes it. -/
def closing : List Char → Option (List Char × List Char)
  | '[' :: cs => (Scan.cut ⟨1, .outside⟩ cs).map fun parts => ('[' :: parts.1, parts.2)
  | _ => none

/-- The scan goes over `used` from one state to another, and a bracket stays open
all the way. -/
def Scan.Crosses (s : Scan) (used : List Char) (s' : Scan) : Prop :=
  ∀ rest, s.cut (used ++ rest) = (s'.cut rest).map fun parts => (used ++ parts.1, parts.2)

namespace Scan

theorem Crosses.nil (s : Scan) : s.Crosses [] s := by
  intro rest
  show s.cut rest = (s.cut rest).map id
  rw [Option.map_id_fun, id]

theorem Crosses.append {s s' s'' : Scan} {used used' : List Char} (h : s.Crosses used s')
    (h' : s'.Crosses used' s'') : s.Crosses (used ++ used') s'' := by
  intro rest
  rw [List.append_assoc, h, h', Option.map_map]
  simp only [Function.comp_def, List.append_assoc]

theorem Crosses.char {s s' : Scan} {c : Char} (h : s.next c = s') (hopen : s'.depth ≠ 0) :
    s.Crosses [c] s' := by
  intro rest
  rw [List.singleton_append, cut, h, if_neg hopen]
  rfl

/-! ## §2. Escapes and strings. -/

variable {d : Nat}

/-- A character that is neither a quote nor a backslash leaves a scan in its string. -/
theorem crosses_plain (hd : d ≠ 0) {cs : List Char} (h : ∀ c ∈ cs, c ≠ '"' ∧ c ≠ '\\') :
    Crosses ⟨d, .inside⟩ cs ⟨d, .inside⟩ := by
  induction cs with
  | nil => exact Crosses.nil _
  | cons c cs ih =>
      -- The state is the same behind each character, so the rest goes on from it.
      rw [List.forall_mem_cons] at h
      have hnext : Scan.next ⟨d, .inside⟩ c = ⟨d, .inside⟩ := by
        simp only [next, if_neg h.1.1, if_neg h.1.2]
      exact (Crosses.char hnext hd).append (ih h.2)

/-- So does a backslash with what it escapes. -/
theorem crosses_backslash (hd : d ≠ 0) (c : Char) :
    Crosses ⟨d, .inside⟩ ['\\', c] ⟨d, .inside⟩ :=
  have hback : Crosses ⟨d, .inside⟩ ['\\'] ⟨d, .escaped⟩ := Crosses.char rfl hd
  hback.append (Crosses.char rfl hd)

/-- The escape of a character stays inside of the string. -/
theorem crosses_escape (hd : d ≠ 0) (c : Char) :
    Crosses ⟨d, .inside⟩ (escape c) ⟨d, .inside⟩ := by
  rcases escape_cases c with ⟨hself, hquote, hback, -⟩ | ⟨e, digits, hescape, hdigits, -⟩
  · rw [hself]
    exact crosses_plain hd (List.forall_mem_singleton.mpr ⟨hquote, hback⟩)
  · rw [hescape]
    exact (crosses_backslash hd e).append (crosses_plain hd hdigits)

/-- So do those of all characters of a string. -/
theorem crosses_flatMap_escape (hd : d ≠ 0) (cs : List Char) :
    Crosses ⟨d, .inside⟩ (cs.flatMap escape) ⟨d, .inside⟩ := by
  induction cs with
  | nil => exact Crosses.nil _
  | cons c cs ih =>
      rw [List.flatMap_cons]
      exact (crosses_escape hd c).append ih

/-- **A string hides its brackets,** and no character in it ends it. -/
theorem crosses_quoted (hd : d ≠ 0) (s : String) :
    Crosses ⟨d, .outside⟩ (quoted s) ⟨d, .outside⟩ := by
  have hopens : Crosses ⟨d, .outside⟩ ['"'] ⟨d, .inside⟩ := Crosses.char rfl hd
  have hcloses : Crosses ⟨d, .inside⟩ ['"'] ⟨d, .outside⟩ := Crosses.char rfl hd
  exact hopens.append ((crosses_flatMap_escape hd s.toList).append hcloses)

/-! ## §3. Lists of strings. -/

/-- Commas between strings are no brackets either. -/
theorem crosses_behindCommas (hd : d ≠ 0) (ss : List String) :
    Crosses ⟨d, .outside⟩ (behindCommas [] (ss.map quoted)) ⟨d, .outside⟩ := by
  have hcomma : Crosses ⟨d, .outside⟩ [','] ⟨d, .outside⟩ := Crosses.char rfl hd
  induction ss with
  | nil => exact Crosses.nil _
  | cons s ss ih =>
      rw [List.map_cons, behindCommas_cons, List.nil_append]
      exact hcomma.append ((crosses_quoted hd s).append ih)

/-- A list of strings leads back to the depth that it was entered at. -/
theorem crosses_quotedList (hd : d ≠ 0) (ss : List String) :
    Crosses ⟨d, .outside⟩ (quotedList ss) ⟨d, .outside⟩ := by
  unfold quotedList
  cases ss with
  | nil => exact Crosses.nil _
  | cons s ss =>
      -- The first string has no comma in front of it.
      rw [List.map_cons, intercalate_cons]
      exact (crosses_quoted hd s).append (crosses_behindCommas hd ss)

end Scan

/-- A list of strings between brackets is closed by the bracket that it was
written with. -/
theorem closing_quotedList (ss : List String) (rest : List Char) :
    closing ('[' :: (quotedList ss ++ ']' :: rest))
      = some ('[' :: (quotedList ss ++ [']']), rest) := by
  have hlast : Scan.cut ⟨1, .outside⟩ (']' :: rest) = some ([']'], rest) := rfl
  rw [closing, Scan.crosses_quotedList Nat.one_ne_zero ss, hlast]
  rfl

/-- Neither a bracket nor a quote behind a backslash ends the string. -/
example : closing "[\"]\\\"]\"]]".toList = some ("[\"]\\\"]\"]".toList, [']']) := by decide

/-- Between its brackets, a list of strings is written as it is filled in. -/
theorem compact_strings (ss : List String) :
    compact (.array (ss.map .string)) = '[' :: (quotedList ss ++ [']']) := by
  have hquoted : (compact ∘ Json.string) = quoted := rfl
  rw [compact, compactItems_eq_map, List.map_map, hquoted]
  rfl

/-- A list of strings is read back. -/
theorem parse_strings (ss : List String) :
    parse (String.ofList ('[' :: (quotedList ss ++ [']']))) = .ok (.array (ss.map .string)) := by
  have hwithin : Within 127 (.array (ss.map .string)) := by
    refine .array fun x hx => ?_
    obtain ⟨s, -, rfl⟩ := List.mem_map.mp hx
    exact .string _ s
  rw [← compact_strings]
  exact (parse_render hwithin).1

end AmdKit.Json

namespace AmdKit.Amd

open Text (Span byteLength cutAt_append)

/-! ## §4. Filling. -/

/-- **A filled array holds its modules.**  Filling an empty array, wherever it stands
in a script, succeeds, and what stands before and behind the array is left as it
was.  In the new script the array reaches from its opening bracket to the bracket
that closes it, and reads as a list of exactly the modules, whatever they are. -/
theorem apply_fillDependencies_array (before after : List Char) (scope : Span)
    (modules : List String) :
    ∃ array,
      Edit.apply (before ++ '[' :: ']' :: after)
          (.fillDependencies scope (byteLength before) modules) = .ok (before ++ (array ++ after))
        ∧ Json.closing (array ++ after) = some (array, after)
        ∧ Json.parse (String.ofList array) = .ok (.array (modules.map .string)) := by
  -- The bracket that the script had is the one that closes the array.
  have harray : ∀ rest : List Char, ('[' :: (Json.quotedList modules ++ [']'])) ++ rest
      = '[' :: (Json.quotedList modules ++ ']' :: rest) := by
    intro rest
    rw [List.cons_append, List.append_assoc, List.singleton_append]
  refine ⟨'[' :: (Json.quotedList modules ++ [']']), ?_, ?_, Json.parse_strings modules⟩
  · refine (apply_fillDependencies_eq_ok_iff _ _ scope _ modules).mpr ⟨before, after, ?_, ?_⟩
    · exact cutAt_append before ('[' :: ']' :: after)
    · rw [harray]
  · rw [harray]
    exact Json.closing_quotedList modules after

end AmdKit.Amd
