/-
  AmdKit.Proofs.CallSites
  ────────────────────────────────
  **WHICH CALLS ARE REPORTED.**

  A node of a program is found by its path: the number of an item, then the
  number of one of its children, and so on.  In terms of paths, the walk over a
  program reports

      at a path    the node there, if it is a call of a bare `define` or `require`
      with it      the last statement that the path goes through before it
                   gets there, or the call itself if there is none

  and it does so once for every path, in the order of the walk.  The walk itself
  keeps the statements around it on a stack; that it comes out of every node with
  the stack that it went in with is `Walk.visit_eq`.
-/
import AmdKit.Proofs.Layout
import Mathlib.Data.List.Infix
import Mathlib.Data.List.Nodup

namespace AmdKit.Script

/-! ## §1. Paths. -/

/-- The node at a path. -/
def Node.at? : Node → List Nat → Option Node
  | n, [] => some n
  | n, i :: path => n.children[i]?.bind fun c => Node.at? c path

/-- The node at a path that begins with the number of an item. -/
def Program.at? (p : Program) : List Nat → Option Node
  | [] => none
  | i :: path => p.items[i]?.bind fun n => n.at? path

/-- A path leads through a part to what is found there. -/
theorem Node.at?_cons {n c : Node} {i : Nat} (hc : n.children[i]? = some c)
    (path : List Nat) : n.at? (i :: path) = c.at? path := by
  show (n.children[i]?.bind fun c => c.at? path) = _
  rw [hc]
  rfl

theorem Program.at?_cons {p : Program} {n : Node} {i : Nat} (hn : p.items[i]? = some n)
    (path : List Nat) : p.at? (i :: path) = n.at? path := by
  show (p.items[i]?.bind fun n => n.at? path) = _
  rw [hn]
  rfl

mutual

/-- The paths inside of a node, in walking order. -/
def Node.paths : Node → List (List Nat)
  | .mk _ _ children => [] :: Node.pathsFrom 0 children

/-- The paths inside of several nodes, which are numbered from `k` on. -/
def Node.pathsFrom (k : Nat) : List Node → List (List Nat)
  | [] => []
  | n :: ns => (Node.paths n).map (fun path => k :: path) ++ Node.pathsFrom (k + 1) ns

end

/-- The paths of a program. -/
def Program.paths (p : Program) : List (List Nat) := Node.pathsFrom 0 p.items

/-- The paths of a tree are the one to its root, and then those through its parts. -/
theorem Node.paths_eq (n : Node) : n.paths = [] :: Node.pathsFrom 0 n.children := by
  cases n
  unfold Node.paths
  rfl

/-- Through each part, the paths of that part. -/
theorem Node.pathsFrom_eq_flatMap (ns : List Node) :
    ∀ k, Node.pathsFrom k ns
      = (ns.zipIdx k).flatMap fun x => x.1.paths.map fun path => x.2 :: path := by
  induction ns with
  | nil =>
      intro k
      rfl
  | cons n ns ih =>
      intro k
      unfold Node.pathsFrom
      rw [ih, List.zipIdx_cons, List.flatMap_cons]

/-- The paths inside of several nodes begin with the number of one of them. -/
theorem Node.mem_pathsFrom_zero_iff {ns : List Node} {path : List Nat} :
    path ∈ Node.pathsFrom 0 ns
      ↔ ∃ i n rest, path = i :: rest ∧ ns[i]? = some n ∧ rest ∈ n.paths := by
  rw [Node.pathsFrom_eq_flatMap, List.mem_flatMap]
  constructor
  · rintro ⟨⟨n, i⟩, hmem, hpath⟩
    obtain ⟨rest, hrest, rfl⟩ := List.mem_map.mp hpath
    exact ⟨i, n, rest, rfl, List.mem_zipIdx_iff_getElem?.mp hmem, hrest⟩
  · rintro ⟨i, n, rest, rfl, hn, hrest⟩
    exact ⟨(n, i), List.mem_zipIdx_iff_getElem?.mpr hn, List.mem_map_of_mem hrest⟩

/-- The paths inside of a node are those that lead to a node. -/
theorem Node.mem_paths_iff (n : Node) : ∀ path, path ∈ n.paths ↔ (n.at? path).isSome := by
  induction n using Node.induction with
  | mk kind span children ih =>
      intro path
      rw [Node.paths_eq]
      cases path with
      | nil => exact iff_of_true List.mem_cons_self rfl
      | cons i path =>
          show _ ↔ (children[i]?.bind fun c => c.at? path).isSome
          rw [List.mem_cons, Node.mem_pathsFrom_zero_iff]
          show _ ∨ (∃ j c rest, i :: path = j :: rest ∧ children[j]? = some c ∧ rest ∈ c.paths) ↔ _
          cases hc : children[i]? with
          | none => simp [hc]
          | some c => simp [hc, ih c (List.mem_of_getElem? hc)]

/-- Paths through different parts differ in their first step. -/
theorem Node.nodup_pathsFrom {ns : List Node} (h : ∀ n ∈ ns, n.paths.Nodup) :
    ∀ k, (Node.pathsFrom k ns).Nodup := by
  intro k
  rw [Node.pathsFrom_eq_flatMap, List.nodup_flatMap]
  constructor
  · intro x hx
    exact (h x.1 (List.fst_mem_of_mem_zipIdx hx)).map (List.cons_injective)
  · -- Different nodes have different numbers, and their paths begin with these.
    have hnumbers : ((ns.zipIdx k).map Prod.snd).Nodup := by
      rw [List.zipIdx_map_snd]
      exact List.nodup_range'
    refine (List.pairwise_map.mp hnumbers).imp ?_
    intro x y hne path hx hy
    obtain ⟨rest, -, rfl⟩ := List.mem_map.mp hx
    obtain ⟨rest', -, heq⟩ := List.mem_map.mp hy
    exact hne (List.cons.inj heq).1.symm

/-- No path leads to a node twice. -/
theorem Node.nodup_paths (n : Node) : n.paths.Nodup := by
  induction n using Node.induction with
  | mk kind span children ih =>
      rw [Node.paths_eq, List.nodup_cons]
      refine ⟨?_, Node.nodup_pathsFrom ih 0⟩
      intro h
      obtain ⟨i, n, rest, hcons, -⟩ := Node.mem_pathsFrom_zero_iff.mp h
      exact List.cons_ne_nil _ _ hcons.symm

/-- The paths of a program are those that lead to a node. -/
theorem Program.mem_paths_iff (p : Program) (path : List Nat) :
    path ∈ p.paths ↔ (p.at? path).isSome := by
  unfold Program.paths
  rw [Node.mem_pathsFrom_zero_iff]
  cases path with
  | nil => simp [Program.at?]
  | cons i path =>
      show _ ↔ (p.items[i]?.bind fun n => n.at? path).isSome
      cases hn : p.items[i]? with
      | none => simp [hn]
      | some n => simp [hn, Node.mem_paths_iff n path]

theorem Program.nodup_paths (p : Program) : p.paths.Nodup :=
  Node.nodup_pathsFrom (fun n _ => n.nodup_paths) 0

/-- What is found at the paths inside of several nodes is what is found inside
of one after the other. -/
theorem Node.filterMap_pathsFrom {α : Type} {ns : List Node} {f : List Nat → Option α}
    {g : Node → List α}
    (h : ∀ i n, ns[i]? = some n → g n = n.paths.filterMap fun path => f (i :: path)) :
    (Node.pathsFrom 0 ns).filterMap f = ns.flatMap g := by
  have hnumbered : ns.flatMap g = ns.zipIdx.flatMap fun x => g x.1 := calc
    ns.flatMap g = (ns.zipIdx.map Prod.fst).flatMap g := by rw [List.zipIdx_map_fst]
    _ = ns.zipIdx.flatMap fun x => g x.1 := List.flatMap_map _ _ _
  rw [Node.pathsFrom_eq_flatMap, List.filterMap_flatMap, hnumbered]
  refine List.flatMap_congr fun x hx => ?_
  rw [h x.2 x.1 (List.mem_zipIdx_iff_getElem?.mp hx), List.filterMap_map]
  rfl

/-! ## §2. The nodes above a path. -/

/-- The nodes that a path goes through before it gets to its own, the nearest
one first; the first argument looks paths up. -/
def nodesAbove (at? : List Nat → Option Node) (path : List Nat) : List Node :=
  (path.inits.dropLast.filterMap at?).reverse

/-- The nearest statement above a path. -/
def nearestStatement? (at? : List Nat → Option Node) (path : List Nat) : Option Node :=
  (nodesAbove at? path).find? fun n => n.kind = .statement

/-- Above a path through a part stand the nodes in that part, and then the root. -/
theorem nodesAbove_cons (at? : List Nat → Option Node) (i : Nat) (path : List Nat) :
    nodesAbove at? (i :: path)
      = nodesAbove (fun q => at? (i :: q)) path ++ (at? []).toList := by
  have hinits : (i :: path).inits.dropLast
      = [] :: path.inits.dropLast.map fun q => i :: q := by
    have hne : path.inits.map (fun q => i :: q) ≠ [] := by
      intro h
      have hlength := congrArg List.length h
      simp at hlength
    rw [List.inits_cons, List.dropLast_cons_of_ne_nil hne, List.map_dropLast]
  unfold nodesAbove
  rw [hinits]
  cases h : at? [] with
  | none =>
      rw [List.filterMap_cons_none h, List.filterMap_map]
      exact (List.append_nil _).symm
  | some n =>
      rw [List.filterMap_cons_some h, List.filterMap_map, List.reverse_cons]
      rfl

/-- On the way down, a statement is nearest until another one is met. -/
theorem nearestStatement?_child {n c : Node} {i : Nat} (hc : n.children[i]? = some c)
    (path : List Nat) :
    nearestStatement? n.at? (i :: path)
      = (nearestStatement? c.at? path).or (if n.kind = .statement then some n else none) := by
  have hat : (fun q => n.at? (i :: q)) = c.at? := funext (Node.at?_cons hc)
  have hself : n.at? [] = some n := rfl
  unfold nearestStatement?
  rw [nodesAbove_cons, hat, hself, List.find?_append]
  simp

/-- Nothing stands above the items of a program. -/
theorem nearestStatement?_item {p : Program} {n : Node} {i : Nat} (hn : p.items[i]? = some n)
    (path : List Nat) :
    nearestStatement? p.at? (i :: path) = nearestStatement? n.at? path := by
  have hat : (fun q => p.at? (i :: q)) = n.at? := funext (Program.at?_cons hn)
  unfold nearestStatement?
  rw [nodesAbove_cons, hat]
  exact congrArg _ (List.append_nil _)

end AmdKit.Script

namespace AmdKit.Amd

open Script (Node Program nearestStatement?)
open Text (Span)

/-! ## §3. Call sites. -/

/-- The node calls a bare `define` or `require`. -/
def IsCallSite (n : Node) : Prop :=
  n.kind = .call ∧ ∃ callee arguments, n.children = callee :: arguments
    ∧ (callee.kind = .reference "define" ∨ callee.kind = .reference "require")

/-- The report is what there is to say about the call at a path. -/
def Source.Reports (s : Source) (path : List Nat) (c : Call) : Prop :=
  ∃ n kind callee arguments, s.program.at? path = some n
    ∧ n.children = callee :: arguments
    ∧ callee.kind = .reference (CallKind.name kind)
    ∧ c = Call.shift
        { kind
          callee := callee.span
          arguments := ⟨callee.span.stop, n.span.stop⟩
          argumentSpans := arguments.map Node.span
          hasArray := declaresArray arguments
          hasSpread := arguments.any isSpread
          statement := ((nearestStatement? s.program.at? path).getD n).span
          factory := arguments.getLast?.bind Factory.ofArgument? }
        s.base

/-- The callee of a call of either kind is its plain name. -/
theorem CallKind.ofCallee?_eq_some_iff {callee : Node} {kind : CallKind} :
    CallKind.ofCallee? callee = some kind ↔ callee.kind = .reference kind.name := by
  unfold CallKind.ofCallee?
  split
  next name heq =>
    rw [heq, Script.Kind.reference.injEq]
    by_cases hdefine : name = CallKind.define.name
    · rw [if_pos hdefine, hdefine]
      cases kind <;> simp [CallKind.name]
    · by_cases hrequire : name = CallKind.require.name
      · rw [if_neg hdefine, if_pos hrequire, hrequire]
        cases kind <;> simp [CallKind.name]
      · rw [if_neg hdefine, if_neg hrequire]
        cases kind <;> simp [hdefine, hrequire]
  next hother =>
    refine iff_of_false (by simp) ?_
    intro h
    exact hother kind.name h

/-- There are the two names only. -/
theorem CallKind.isSome_ofCallee?_iff {callee : Node} :
    (CallKind.ofCallee? callee).isSome
      ↔ callee.kind = .reference "define" ∨ callee.kind = .reference "require" := by
  rw [Option.isSome_iff_exists]
  constructor
  · intro h
    obtain ⟨kind, hkind⟩ := h
    have hcallee := CallKind.ofCallee?_eq_some_iff.mp hkind
    cases kind with
    | define => exact Or.inl hcallee
    | require => exact Or.inr hcallee
  · intro h
    rcases h with h | h
    · exact ⟨.define, CallKind.ofCallee?_eq_some_iff.mpr h⟩
    · exact ⟨.require, CallKind.ofCallee?_eq_some_iff.mpr h⟩

/-- A call is reported at call sites only. -/
theorem isSome_callAt?_iff {statement : Option Span} {n : Node} :
    (callAt? statement n).isSome ↔ IsCallSite n := by
  obtain ⟨kind, span, children⟩ := n
  -- A call without a callee can not be read, and is no call site either.
  by_cases hkind : kind = .call
  · subst hkind
    cases children with
    | nil =>
        refine iff_of_false (by simp [callAt?]) ?_
        intro h
        obtain ⟨-, callee, arguments, hchildren, -⟩ := h
        cases hchildren
    | cons callee arguments =>
        unfold callAt?
        rw [Option.isSome_map, CallKind.isSome_ofCallee?_iff]
        constructor
        · intro h
          exact ⟨rfl, callee, arguments, rfl, h⟩
        · intro h
          obtain ⟨-, callee', arguments', hchildren, h⟩ := h
          cases hchildren
          exact h
  · rw [callAt?_eq_none hkind]
    exact iff_of_false (by simp) fun h => hkind h.1

/-! ## §4. The walk, path by path. -/

/-- The calls inside of a node are the call sites at its paths, each inside of
the nearest statement above its path. -/
theorem callsWithin_eq_filterMap (n : Node) :
    ∀ statement, callsWithin statement n = n.paths.filterMap fun path =>
      (n.at? path).bind
        (callAt? (((nearestStatement? n.at? path).map Node.span).or statement)) := by
  induction n using Node.induction with
  | mk kind span children ih =>
      intro statement
      rw [callsWithin_eq, Node.paths_eq, List.filterMap_eq_flatMap_toList, List.flatMap_cons,
          ← List.filterMap_eq_flatMap_toList, Node.filterMap_pathsFrom]
      · rfl
      · -- A child looks its statements up in itself first, then in this node.
        intro i c hc
        rw [ih c (List.mem_of_getElem? hc)]
        refine List.filterMap_congr fun path _ => ?_
        rw [Node.at?_cons hc, Script.nearestStatement?_child hc, Option.map_or,
            Option.or_assoc]
        congr 3
        unfold statementWithin
        split <;> rfl

/-- The calls of a program are the call sites at its paths. -/
theorem callsOf_eq_filterMap (p : Program) :
    callsOf p = p.paths.filterMap fun path =>
      (p.at? path).bind (callAt? ((nearestStatement? p.at? path).map Node.span)) := by
  unfold Program.paths
  rw [callsOf_eq_flatMap, Node.filterMap_pathsFrom]
  intro i n hn
  rw [callsWithin_eq_filterMap]
  refine List.filterMap_congr fun path _ => ?_
  rw [Program.at?_cons hn, Script.nearestStatement?_item hn, Option.or_none]

theorem forall₂_filterMap {α β : Type} {R : α → β → Prop} {f : α → Option β}
    (h : ∀ a b, f a = some b → R a b) (l : List α) :
    List.Forall₂ R (l.filter fun a => (f a).isSome) (l.filterMap f) := by
  induction l with
  | nil => exact List.Forall₂.nil
  | cons a l ih =>
      cases ha : f a with
      | none => simpa [ha] using ih
      | some b => simpa [ha] using List.Forall₂.cons (h a b ha) ih

/-- What is reported of a path, if anything is. -/
def Source.report? (s : Source) (path : List Nat) : Option Call :=
  ((s.program.at? path).bind
      (callAt? ((nearestStatement? s.program.at? path).map Node.span))).map
    fun c => c.shift s.base

/-- The calls of a source are those reported at its paths, in the order of the walk. -/
theorem Source.calls_eq_filterMap (s : Source) :
    s.calls = s.program.paths.filterMap s.report? := by
  unfold Source.calls
  rw [callsOf_eq_filterMap, List.map_filterMap]
  rfl

/-- Something is reported of the paths of call sites. -/
theorem Source.isSome_report?_iff {s : Source} {path : List Nat} :
    (s.report? path).isSome ↔ ∃ n, s.program.at? path = some n ∧ IsCallSite n := by
  unfold Source.report?
  rw [Option.isSome_map]
  cases s.program.at? path with
  | none => simp
  | some n => simp [isSome_callAt?_iff]

/-- And what is reported is true. -/
theorem Source.reports_of_report? {s : Source} {path : List Nat} {c : Call}
    (h : s.report? path = some c) : s.Reports path c := by
  obtain ⟨d, hd, rfl⟩ := Option.map_eq_some_iff.mp h
  obtain ⟨n, hn, hcall⟩ := Option.bind_eq_some_iff.mp hd
  unfold callAt? at hcall
  split at hcall
  next span callee arguments =>
    obtain ⟨kind, hkind, rfl⟩ := Option.map_eq_some_iff.mp hcall
    refine ⟨_, kind, callee, arguments, hn, rfl, CallKind.ofCallee?_eq_some_iff.mp hkind, ?_⟩
    -- Both sides differ in where the range of the call stands in for a statement.
    cases nearestStatement? s.program.at? path <;> rfl
  next => cases hcall

/-- **What is reported.**  Every call of a bare `define` or `require` is reported
once, wherever in the program it stands, and nothing else is; and the statement
of each is the nearest one above it, or the call itself if there is none. -/
theorem Source.calls_reported (s : Source) :
    ∃ sites : List (List Nat), sites.Nodup
      ∧ (∀ path, path ∈ sites ↔ ∃ n, s.program.at? path = some n ∧ IsCallSite n)
      ∧ List.Forall₂ s.Reports sites s.calls := by
  refine ⟨s.program.paths.filter fun path => (s.report? path).isSome,
    s.program.nodup_paths.filter _, ?_, ?_⟩
  · intro path
    rw [List.mem_filter, Program.mem_paths_iff, Source.isSome_report?_iff]
    constructor
    · intro h
      exact h.2
    · intro h
      obtain ⟨n, hn, hsite⟩ := h
      exact ⟨by rw [hn]; rfl, n, hn, hsite⟩
  · rw [Source.calls_eq_filterMap]
    exact forall₂_filterMap (fun path c => Source.reports_of_report?) _

/-- A parenthesized name and a member make no call site, and an exported call is
in no statement. -/
example : (match Source.read
      "(define)(1); a.define(2); export default require(() => \x7b define(3); \x7d)".toList with
    | .ok (s : Source) => s.calls.map fun (c : Call) => (c.kind, c.statement)
    | .error _ => [])
    = [(.require, ⟨41, 70⟩), (.define, ⟨57, 67⟩)] := by
  decide +kernel

end AmdKit.Amd
