/-
  AmdKit.Loader.Files
  ────────────────────────────────
  **FILES.**

  A directory is an ordered list of named entries, each a file or a directory
  again.  A path is followed through such a tree step by step, and a text is read
  from the file that it leads to, or written to it.
-/
import AmdKit.Loader.Reader

namespace AmdKit.Loader

/-! ## §1. Trees of files. -/

/-- A file or a directory. -/
inductive Entry where
  /-- A file with its bytes. -/
  | file (bytes : ByteArray)
  /-- A directory with its entries. -/
  | directory (entries : List (String × Entry))

/-- The entries of a directory. -/
abbrev Directory := List (String × Entry)

/-- What a path leads to, or why it leads nowhere. -/
inductive Target where
  /-- An entry that is there. -/
  | entry (e : Entry)
  /-- A name that is free in a directory that is there. -/
  | free
  /-- The path can not be followed. -/
  | fault (f : AccessFault)

/-- A path as steps from the top of the tree. -/
structure Route where
  /-- The names to go through; `..` goes back by one. -/
  names : List String
  /-- The path ends in a slash, or in a step that names no entry. -/
  needsDirectory : Bool
  deriving Repr, DecidableEq

/-- The steps of a path. -/
def Route.ofPath (path : String) : Route :=
  let parts := path.splitOn "/"
  ⟨parts.filter fun s => s ≠ "" ∧ s ≠ ".", parts.getLast?.any fun s => s = "" ∨ s = "." ∨ s = ".."⟩

/-- The entry with a name. -/
def entry? (name : String) (d : Directory) : Option Entry :=
  (Keyed.find? Prod.fst name d).map Prod.snd

/-- Follow the names of a route from a directory, `above` being the directories
on the way to it, the innermost first. -/
def follow (above : List Directory) (here : Directory) : List String → Target
  | [] => .entry (.directory here)
  | ".." :: rest =>
    match above with
    | [] => follow [] here rest
    | up :: above => follow above up rest
  | name :: rest =>
    match entry? name here with
    | some (.directory inner) => follow (here :: above) inner rest
    | some (.file bytes) => if rest.isEmpty then .entry (.file bytes) else .fault .notDirectory
    | none => if rest.isEmpty then .free else .fault .missing

/-- What a path leads to. -/
def resolve (top : Directory) (path : String) : Target :=
  let route := Route.ofPath path
  if path.isEmpty then .fault .missing
  else
    match follow [] top route.names with
    | .entry (.file bytes) => if route.needsDirectory then .fault .notDirectory else .entry (.file bytes)
    | target => target

/-- Put an entry at the end of a route, with the directories on the way. -/
def placeEntry (e : Entry) : List String → Directory → Directory
  | [], d => d
  | [name], d => Keyed.put Prod.fst (name, e) d
  | name :: rest, d =>
    let inner := match entry? name d with
      | some (.directory inner) => inner
      | _ => []
    Keyed.put Prod.fst (name, .directory (placeEntry e rest inner)) d

/-- The names of a route without steps back. -/
def straighten (names : List String) : List String :=
  (names.foldl (fun acc name => if name = ".." then acc.drop 1 else name :: acc) []).reverse

/-- The tree with a file at a path. -/
def putFile (top : Directory) (path : String) (bytes : ByteArray) : Directory :=
  placeEntry (.file bytes) (straighten (Route.ofPath path).names) top

/-- The tree with a directory at a path; one that is there stays as it is. -/
def makeDirectory (top : Directory) (path : String) : Directory :=
  match resolve top path with
  | .entry _ => top
  | _ => placeEntry (.directory []) (straighten (Route.ofPath path).names) top

/-! ## §2. Texts. -/

/-- The text of the file at a path. -/
def readText (top : Directory) (path : String) : Except Failure String :=
  match resolve top path with
  | .entry (.file bytes) =>
    match String.fromUTF8? bytes with
    | some text => .ok text
    | none => .error (.inaccessible path .notText)
  | .entry (.directory _) => .error (.inaccessible path .isDirectory)
  | .free => .error (.inaccessible path .missing)
  | .fault f => .error (.inaccessible path f)

/-- The tree with a text at a path, in place of a file that may be there. -/
def writeText (top : Directory) (path text : String) : Except Failure Directory :=
  match resolve top path with
  | .entry (.file _) => .ok (putFile top path text.toUTF8)
  | .free =>
    if (Route.ofPath path).needsDirectory then .error (.inaccessible path .isDirectory)
    else .ok (putFile top path text.toUTF8)
  | .entry (.directory _) => .error (.inaccessible path .isDirectory)
  | .fault f => .error (.inaccessible path f)

end AmdKit.Loader
