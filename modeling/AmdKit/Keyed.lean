/-
  AmdKit.Keyed
  ────────────────────────────────
  **ORDERED LISTS WITH KEYS.**

  Every ordered section of the library is a list whose entries carry a key.
  An entry is stored at the first-seen position of its key: `upsert` combines
  it with the entry that stands there, or appends it.  `keepFirst` and
  `keepLast` drop repeated keys from a list that was built without care.
-/

namespace AmdKit.Keyed

variable {α κ : Type} [DecidableEq κ]

/-! ## §1. Storing under a key. -/

/-- Store `x`: the first entry with its key becomes `combine entry x`, and
without such an entry `x` is appended. -/
def upsert (key : α → κ) (combine : α → α → α) (x : α) : List α → List α
  | [] => [x]
  | y :: ys => if key y = key x then combine y x :: ys else y :: upsert key combine x ys

/-- Store the entries one after the other. -/
def upsertAll (key : α → κ) (combine : α → α → α) (xs : List α) (into : List α) : List α :=
  xs.foldl (fun acc x => upsert key combine x acc) into

/-- Store `x` in place of the first entry with its key. -/
def put (key : α → κ) (x : α) (into : List α) : List α :=
  upsert key (fun _ new => new) x into

/-- The first entry with the key `k`. -/
def find? (key : α → κ) (k : κ) (entries : List α) : Option α :=
  entries.find? fun x => key x = k

/-! ## §2. Dropping repeated keys. -/

/-- The entries whose key is neither in `seen` nor that of an earlier entry. -/
def keepFirstFrom (key : α → κ) (seen : List κ) : List α → List α
  | [] => []
  | x :: xs =>
    if key x ∈ seen then keepFirstFrom key seen xs
    else x :: keepFirstFrom key (key x :: seen) xs

/-- The entries whose key does not occur earlier. -/
def keepFirst (key : α → κ) (xs : List α) : List α :=
  keepFirstFrom key [] xs

/-- The entries whose key does not occur later. -/
def keepLast (key : α → κ) : List α → List α
  | [] => []
  | x :: xs => if key x ∈ xs.map key then keepLast key xs else x :: keepLast key xs

end AmdKit.Keyed
