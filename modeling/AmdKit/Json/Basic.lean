/-
  AmdKit.Json.Basic
  ────────────────────────────────
  **JSON VALUES.**

  A value keeps what a document can show: the members of an object stay in the
  order in which their names were first seen, and a whole number in the range
  of 64 bits stays a whole number.
-/
import AmdKit.Keyed
import AmdKit.Number.Binary64

namespace AmdKit

open Number (Binary64)

/-- A number of a document. -/
inductive Numeral where
  /-- A whole number from `-2 ^ 63` up to `2 ^ 64 - 1`. -/
  | integer (n : Int)
  /-- Any other number, rounded to a double. -/
  | double (negative : Bool) (magnitude : Binary64)
  deriving Repr, DecidableEq

/-- A JSON value. -/
inductive Json where
  /-- The literal `null`. -/
  | null
  /-- The literal `true` or `false`. -/
  | bool (b : Bool)
  /-- A number. -/
  | number (n : Numeral)
  /-- A string. -/
  | string (s : String)
  /-- A list of values. -/
  | array (items : List Json)
  /-- An object, its members in order. -/
  | object (members : List (String × Json))
  deriving Repr, Inhabited

/-- The members of an object, in order. -/
abbrev Json.Members := List (String × Json)

namespace Json

/-- The value of the member `name`. -/
def Members.get? (members : Members) (name : String) : Option Json :=
  (Keyed.find? Prod.fst name members).map Prod.snd

/-- Set the member `name`: a name that is there keeps its position. -/
def Members.set (members : Members) (name : String) (value : Json) : Members :=
  Keyed.put Prod.fst (name, value) members

/-- A member that is set is found under its name, and the others are found as before. -/
theorem Members.get?_set (members : Members) (name : String) (value : Json) (wanted : String) :
    (Members.set members name value).get? wanted
      = if name = wanted then some value else members.get? wanted := by
  unfold Members.get? Members.set Keyed.put Keyed.find?
  induction members with
  | nil => by_cases hwanted : name = wanted <;> simp [Keyed.upsert, hwanted]
  | cons m members ih =>
      unfold Keyed.upsert
      by_cases hname : m.1 = name
      · rw [if_pos hname]
        by_cases hwanted : name = wanted <;> simp [hname, hwanted]
      · rw [if_neg hname]
        by_cases hwanted : m.1 = wanted
        · simp [hwanted, Ne.symm (hwanted ▸ hname)]
        · simpa [hwanted] using ih

/-- Set several members, one after the other. -/
def Members.setAll (members : Members) (new : Members) : Members :=
  new.foldl (fun acc m => Members.set acc m.1 m.2) members

/-- The object with the given members; a repeated name keeps its first position
and takes its last value. -/
def ofMembers (members : Members) : Json :=
  .object (Members.setAll [] members)

/-- The text of a string value. -/
def text? : Json → Option String
  | .string s => some s
  | _ => none

end Json

end AmdKit
