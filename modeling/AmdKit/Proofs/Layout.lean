/-
  AmdKit.Proofs.Layout
  ────────────────────────────────
  **WHERE THE ARRAYS OF A TREE GO.**

  `LaidOut` is what a parser promises about the ranges of one node: the parts
  of a node lie inside of it and apart from each other, between the callee and
  the arguments of a call stands at least a parenthesis, and an argument has at
  least one byte.  When all nodes of a tree are laid out,

      n.start < point < n.stop                 for every call inside of n
      different calls have different points
      every point lies inside the statement around its call

  where the point of a call is the offset at which its last argument begins.
-/
import AmdKit.Proofs.Injection

namespace AmdKit.Script

/-! ## §1. Trees. -/

/-- Induction on a node by way of its children. -/
theorem Node.induction {P : Node → Prop}
    (mk : ∀ kind span children, (∀ c ∈ children, P c) → P (.mk kind span children))
    (n : Node) : P n :=
  @Node.rec P (fun cs => ∀ c ∈ cs, P c) mk
    (fun _ h => absurd h List.not_mem_nil)
    (fun _ _ hhead htail => List.forall_mem_cons.mpr ⟨hhead, htail⟩) n

mutual

/-- The node and all nodes inside of it. -/
def Node.subtrees : Node → List Node
  | .mk kind span children => .mk kind span children :: Node.subtreesAll children

/-- The nodes and all nodes inside of them. -/
def Node.subtreesAll : List Node → List Node
  | [] => []
  | n :: ns => n.subtrees ++ Node.subtreesAll ns

end

theorem Node.subtreesAll_eq_flatMap (ns : List Node) :
    Node.subtreesAll ns = ns.flatMap Node.subtrees := by
  induction ns with
  | nil => rfl
  | cons n ns ih =>
      unfold Node.subtreesAll
      rw [ih, List.flatMap_cons]

theorem Node.mem_subtrees_self (n : Node) : n ∈ n.subtrees := by
  cases n
  unfold Node.subtrees
  exact List.mem_cons_self

theorem Node.mem_subtrees_of_child {n c m : Node} (hc : c ∈ n.children)
    (hm : m ∈ c.subtrees) : m ∈ n.subtrees := by
  cases n
  unfold Node.subtrees
  rw [Node.subtreesAll_eq_flatMap]
  exact List.mem_cons_of_mem _ (List.mem_flatMap.mpr ⟨c, hc, hm⟩)

/-- The nodes of a program. -/
def Program.nodes (p : Program) : List Node := Node.subtreesAll p.items

theorem Program.mem_nodes {p : Program} {n m : Node} (hn : n ∈ p.items)
    (hm : m ∈ n.subtrees) : m ∈ p.nodes := by
  unfold Program.nodes
  rw [Node.subtreesAll_eq_flatMap]
  exact List.mem_flatMap.mpr ⟨n, hn, hm⟩

/-! ## §2. Layout. -/

/-- The ranges of two nodes have no byte in common. -/
def Node.Apart (a b : Node) : Prop :=
  a.span.stop ≤ b.span.start ∨ b.span.stop ≤ a.span.start

instance (a b : Node) : Decidable (a.Apart b) :=
  inferInstanceAs (Decidable (_ ∨ _))

/-- The callee stops before its arguments begin, with a parenthesis in between,
and no argument is empty: an empty one could begin at the very offset at which
the last argument of a call in front of it does. -/
def CallLaidOut : List Node → Prop
  | [] => True
  | callee :: arguments =>
    ∀ a ∈ arguments, callee.span.stop < a.span.start ∧ a.span.start < a.span.stop

instance : (parts : List Node) → Decidable (CallLaidOut parts)
  | [] => inferInstanceAs (Decidable True)
  | callee :: arguments => inferInstanceAs (Decidable (∀ a ∈ arguments,
      callee.span.stop < a.span.start ∧ a.span.start < a.span.stop))

/-- What a parser promises about the ranges of a node and its children. -/
structure Node.LaidOut (n : Node) : Prop where
  ordered : n.span.start ≤ n.span.stop
  inside : ∀ c ∈ n.children, n.span.start ≤ c.span.start ∧ c.span.stop ≤ n.span.stop
  apart : n.children.Pairwise Node.Apart
  called : n.kind = .call → CallLaidOut n.children

instance (n : Node) : Decidable n.LaidOut :=
  decidable_of_iff
    (n.span.start ≤ n.span.stop
      ∧ (∀ c ∈ n.children, n.span.start ≤ c.span.start ∧ c.span.stop ≤ n.span.stop)
      ∧ n.children.Pairwise Node.Apart
      ∧ (n.kind = .call → CallLaidOut n.children))
    ⟨fun h => ⟨h.1, h.2.1, h.2.2.1, h.2.2.2⟩,
      fun h => ⟨h.ordered, h.inside, h.apart, h.called⟩⟩

/-- All nodes of a tree are laid out. -/
def Node.AllLaidOut (n : Node) : Prop := ∀ m ∈ n.subtrees, m.LaidOut

theorem Node.AllLaidOut.here {n : Node} (h : n.AllLaidOut) : n.LaidOut :=
  h n n.mem_subtrees_self

theorem Node.AllLaidOut.child {n c : Node} (h : n.AllLaidOut) (hc : c ∈ n.children) :
    c.AllLaidOut := fun m hm => h m (Node.mem_subtrees_of_child hc hm)

end AmdKit.Script

namespace AmdKit.Amd

open Script (Node)
open Text (Span)

/-! ## §3. The calls of a tree. -/

/-- The innermost statement around the children of a node. -/
def statementWithin (statement : Option Span) (node : Node) : Option Span :=
  if node.kind = .statement then some node.span else statement

mutual

/-- The call sites of a tree inside of the statement given. -/
def callsWithin (statement : Option Span) : Node → List Call
  | .mk kind span children =>
    (callAt? statement (.mk kind span children)).toList
      ++ callsWithinAll (statementWithin statement (.mk kind span children)) children

/-- The call sites of several trees inside of the statement given. -/
def callsWithinAll (statement : Option Span) : List Node → List Call
  | [] => []
  | n :: ns => callsWithin statement n ++ callsWithinAll statement ns

end

theorem callsWithinAll_eq_flatMap (statement : Option Span) (ns : List Node) :
    callsWithinAll statement ns = ns.flatMap (callsWithin statement) := by
  induction ns with
  | nil => rfl
  | cons n ns ih =>
      unfold callsWithinAll
      rw [ih, List.flatMap_cons]

theorem callsWithin_eq (statement : Option Span) (n : Node) :
    callsWithin statement n
      = (callAt? statement n).toList
        ++ n.children.flatMap (callsWithin (statementWithin statement n)) := by
  cases n
  unfold callsWithin
  rw [callsWithinAll_eq_flatMap]
  rfl

theorem mem_callsWithin_iff {statement : Option Span} {n : Node} {c : Call} :
    c ∈ callsWithin statement n
      ↔ callAt? statement n = some c
        ∨ ∃ m ∈ n.children, c ∈ callsWithin (statementWithin statement n) m := by
  rw [callsWithin_eq, List.mem_append, Option.mem_toList, List.mem_flatMap]

/-- Only a call can be a call site. -/
theorem callAt?_eq_none {kind : Script.Kind} (h : kind ≠ .call) (statement : Option Span)
    (span : Span) (children : List Node) :
    callAt? statement (.mk kind span children) = none := by
  unfold callAt?
  split
  next heq => exact absurd (Node.mk.inj heq).1 h
  next => rfl

theorem Walk.visitAll_eq {ns : List Node}
    (h : ∀ n ∈ ns, ∀ w : Walk, w.visit n
      = { w with calls := w.calls ++ callsWithin w.statements.head? n }) :
    ∀ w : Walk, w.visitAll ns
      = { w with calls := w.calls ++ ns.flatMap (callsWithin w.statements.head?) } := by
  induction ns with
  | nil =>
      intro w
      show w = { w with calls := w.calls ++ [] }
      rw [List.append_nil]
  | cons n ns ih =>
      intro w
      show (w.visit n).visitAll ns = _
      rw [h n List.mem_cons_self w, ih fun m hm => h m (List.mem_cons_of_mem _ hm)]
      simp [List.flatMap_cons, List.append_assoc]

/-- **Every statement is left again.**  A walk over a node adds the calls of the
node to those it has met, and comes out inside of the statements that it went
in with. -/
theorem Walk.visit_eq (n : Node) :
    ∀ w : Walk, w.visit n = { w with calls := w.calls ++ callsWithin w.statements.head? n } := by
  induction n using Node.induction with
  | mk kind span children ih =>
      intro w
      have hall := Walk.visitAll_eq ih
      rw [callsWithin_eq]
      unfold Walk.visit
      split
      next =>
        -- The children are inside of one more statement, which is left behind them.
        rw [hall, callAt?_eq_none (by decide)]
        rfl
      next =>
        rw [hall]
        simp [Walk.note, statementWithin, Node.kind, Node.children, List.append_assoc]
      next hstatement hcall =>
        have hwithin : statementWithin w.statements.head? (.mk kind span children)
            = w.statements.head? := if_neg hstatement
        rw [hall, callAt?_eq_none hcall, hwithin]
        rfl

/-- A call site is a call node; its array goes where its last argument begins. -/
theorem callAt?_eq_some {statement : Option Span} {n : Node} {c : Call}
    (h : callAt? statement n = some c) :
    ∃ callee arguments, n.kind = .call ∧ n.children = callee :: arguments
      ∧ c.arrayPoint? = arguments.getLast?.map (fun a => a.span.start)
      ∧ c.statement = statement.getD n.span := by
  unfold callAt? at h
  split at h
  next span callee arguments =>
    obtain ⟨kind, -, rfl⟩ := Option.map_eq_some_iff.mp h
    refine ⟨callee, arguments, rfl, rfl, ?_, rfl⟩
    unfold Call.arrayPoint? Call.lastArgument?
    rw [List.getLast?_map, Option.map_map]
    rfl
  next => cases h

/-- The last argument of a laid out call, the callee before it, and the other
parts apart from it. -/
theorem exists_lastArgument {statement : Option Span} {n : Node} {c : Call} {p : Nat}
    (hn : n.LaidOut) (h : callAt? statement n = some c) (hp : c.arrayPoint? = some p) :
    ∃ before last, n.children = before ++ [last]
      ∧ (last.span.start = p ∧ p < last.span.stop)
      ∧ (∃ callee ∈ before, callee.span.stop < p)
      ∧ ∀ b ∈ before, b.Apart last := by
  obtain ⟨callee, arguments, hkind, hchildren, hpoint, -⟩ := callAt?_eq_some h
  rw [hpoint] at hp
  obtain ⟨last, hlast, rfl⟩ := Option.map_eq_some_iff.mp hp
  obtain ⟨init, rfl⟩ := List.getLast?_eq_some_iff.mp hlast
  have hcalled := hn.called hkind
  have hapart := hn.apart
  rw [hchildren] at hcalled
  rw [hchildren, ← List.cons_append] at hapart
  obtain ⟨hgap, hlen⟩ := hcalled last (List.mem_append_right _ List.mem_cons_self)
  refine ⟨callee :: init, last, hchildren, ⟨rfl, hlen⟩,
    ⟨callee, List.mem_cons_self, hgap⟩, fun b hb => ?_⟩
  exact (List.pairwise_append.mp hapart).2.2 b hb last List.mem_cons_self

/-! ## §4. Points of a tree. -/

/-- **Points stay inside.**  The point of a call lies behind the start of every
node around the call, because a callee and a parenthesis come before it, and in
front of its end, because an argument follows. -/
theorem arrayPoint?_inside {n : Node} (hn : n.AllLaidOut) :
    ∀ (statement : Option Span), ∀ c ∈ callsWithin statement n, ∀ p,
      c.arrayPoint? = some p → n.span.start < p ∧ p < n.span.stop := by
  induction n using Node.induction with
  | mk kind span children ih =>
      intro statement c hc p hp
      rcases mem_callsWithin_iff.mp hc with hcall | ⟨m, hm, hcm⟩
      · -- start ≤ callee < point = start of the last argument < stop
        obtain ⟨before, last, hchildren, ⟨-, hlen⟩, ⟨callee, hcallee, hgap⟩, -⟩ :=
          exists_lastArgument hn.here hcall hp
        have hmem : callee ∈ (Node.mk kind span children).children := by
          rw [hchildren]
          exact List.mem_append_left _ hcallee
        have hmem' : last ∈ (Node.mk kind span children).children := by
          rw [hchildren]
          exact List.mem_append_right _ List.mem_cons_self
        have h1 := (hn.here.inside callee hmem).1
        have h2 := (hn.child hmem).here.ordered
        have h3 := (hn.here.inside last hmem').2
        omega
      · have hin := ih m hm (hn.child hm) _ c hcm p hp
        have hspan := hn.here.inside m hm
        omega

/-- Two calls do not put their arrays at one offset. -/
def Call.Apart (c d : Call) : Prop :=
  ∀ p, c.arrayPoint? = some p → d.arrayPoint? ≠ some p

/-- The calls of nodes that are apart have different points, by their ranges
alone: the points of a node lie strictly inside of it. -/
theorem apart_of_nodes_apart {s t : Option Span} {a b : Node} (ha : a.AllLaidOut)
    (hb : b.AllLaidOut) (hab : a.Apart b) :
    ∀ c ∈ callsWithin s a, ∀ d ∈ callsWithin t b, c.Apart d := by
  intro c hc d hd p hp hq
  have h1 := arrayPoint?_inside ha s c hc p hp
  have h2 := arrayPoint?_inside hb t d hd p hq
  unfold Node.Apart at hab
  omega

/-- A call and the calls inside of it: those in its last argument begin behind
its point, and the point, which is in that argument, is in none of its other
parts. -/
theorem apart_of_callAt? {s t : Option Span} {n m : Node} {c : Call} (hn : n.AllLaidOut)
    (hc : callAt? s n = some c) (hm : m ∈ n.children) :
    ∀ d ∈ callsWithin t m, c.Apart d := by
  intro d hd p hp hq
  obtain ⟨before, last, hchildren, ⟨hstart, hlen⟩, -, hbefore⟩ :=
    exists_lastArgument hn.here hc hp
  have hin := arrayPoint?_inside (hn.child hm) t d hd p hq
  rw [hchildren] at hm
  rcases List.mem_append.mp hm with hm | hm
  · have hapart := hbefore m hm
    unfold Node.Apart at hapart
    omega
  · rw [List.mem_singleton.mp hm] at hin
    omega

/-- **Different calls have different points,** however they are nested. -/
theorem callsWithin_pairwise {n : Node} (hn : n.AllLaidOut) :
    ∀ (statement : Option Span), (callsWithin statement n).Pairwise Call.Apart := by
  induction n using Node.induction with
  | mk kind span children ih =>
      intro statement
      -- The call at the node itself, if it is one; then the calls of its children,
      -- within one child and across two; then the one against the others.
      rw [callsWithin_eq, List.pairwise_append, List.pairwise_flatMap]
      refine ⟨?_, ⟨fun m hm => ih m hm (hn.child hm) _, ?_⟩, ?_⟩
      · cases callAt? statement (.mk kind span children) with
        | none => exact List.Pairwise.nil
        | some c => exact List.pairwise_singleton _ c
      · refine hn.here.apart.imp_of_mem ?_
        intro a b ha hb hab
        exact apart_of_nodes_apart (hn.child ha) (hn.child hb) hab
      · intro c hc d hd
        obtain ⟨m, hm, hdm⟩ := List.mem_flatMap.mp hd
        exact apart_of_callAt? hn (Option.mem_toList.mp hc) hm d hdm

/-- Statements reach as far as the nodes inside of them. -/
theorem statementWithin_inside {statement : Option Span} {n m : Node} (hn : n.LaidOut)
    (hm : m ∈ n.children)
    (h : ∀ s, statement = some s → s.start ≤ n.span.start ∧ n.span.stop ≤ s.stop) :
    ∀ s, statementWithin statement n = some s →
      s.start ≤ m.span.start ∧ m.span.stop ≤ s.stop := by
  intro s hs
  have hin := hn.inside m hm
  unfold statementWithin at hs
  split at hs
  · cases hs
    exact hin
  · have hout := h s hs
    omega

/-- **Points lie inside their statements.** -/
theorem arrayPoint?_inside_statement {n : Node} (hn : n.AllLaidOut) :
    ∀ (statement : Option Span),
      (∀ s, statement = some s → s.start ≤ n.span.start ∧ n.span.stop ≤ s.stop) →
      ∀ c ∈ callsWithin statement n, ∀ p, c.arrayPoint? = some p →
        c.statement.start ≤ p ∧ p ≤ c.statement.stop := by
  induction n using Node.induction with
  | mk kind span children ih =>
      -- The statement around a node changes on the way down, so it is not fixed.
      intro statement hs c hc p hp
      rcases mem_callsWithin_iff.mp hc with hcall | ⟨m, hm, hcm⟩
      · have hin := arrayPoint?_inside hn statement c hc p hp
        obtain ⟨-, -, -, -, -, hstatement⟩ := callAt?_eq_some hcall
        rw [hstatement]
        cases statement with
        | none => exact ⟨Nat.le_of_lt hin.1, Nat.le_of_lt hin.2⟩
        | some s =>
            have hout := hs s rfl
            show s.start ≤ p ∧ p ≤ s.stop
            omega
      · exact ih m hm (hn.child hm) _ (statementWithin_inside hn.here hm hs) c hcm p hp

/-- The point of a call is where a node of the tree begins. -/
theorem exists_start_eq_arrayPoint? {n : Node} (hn : n.AllLaidOut) :
    ∀ (statement : Option Span), ∀ c ∈ callsWithin statement n, ∀ p,
      c.arrayPoint? = some p → ∃ m ∈ n.subtrees, m.span.start = p := by
  induction n using Node.induction with
  | mk kind span children ih =>
      intro statement c hc p hp
      rcases mem_callsWithin_iff.mp hc with hcall | ⟨m, hm, hcm⟩
      · obtain ⟨before, last, hchildren, ⟨hlast, -⟩, -⟩ := exists_lastArgument hn.here hcall hp
        have hmem : last ∈ (Node.mk kind span children).children := by
          rw [hchildren]
          exact List.mem_append_right _ List.mem_cons_self
        exact ⟨last, Node.mem_subtrees_of_child hmem last.mem_subtrees_self, hlast⟩
      · obtain ⟨k, hk, hkp⟩ := ih m hm (hn.child hm) _ c hcm p hp
        exact ⟨k, Node.mem_subtrees_of_child hm hk, hkp⟩

/-! ## §5. Sources. -/

/-- What a parser promises about the ranges of a whole source. -/
structure Source.WellPlaced (text : String) (s : Source) : Prop where
  onBoundary : ∀ n ∈ s.program.nodes,
    (String.Pos.Raw.mk (n.span.start + s.base)).IsValid text
      ∧ (String.Pos.Raw.mk (n.span.stop + s.base)).IsValid text
  laidOut : ∀ n ∈ s.program.nodes, n.LaidOut
  apart : s.program.items.Pairwise Node.Apart

instance (text : String) (s : Source) : Decidable (s.WellPlaced text) :=
  decidable_of_iff
    ((∀ n ∈ s.program.nodes, (String.Pos.Raw.mk (n.span.start + s.base)).IsValid text
        ∧ (String.Pos.Raw.mk (n.span.stop + s.base)).IsValid text)
      ∧ (∀ n ∈ s.program.nodes, n.LaidOut)
      ∧ s.program.items.Pairwise Node.Apart)
    ⟨fun h => ⟨h.1, h.2.1, h.2.2⟩, fun h => ⟨h.onBoundary, h.laidOut, h.apart⟩⟩

theorem callsOf_eq_flatMap (program : Script.Program) :
    callsOf program = program.items.flatMap (callsWithin none) := by
  unfold callsOf
  rw [Walk.visitAll_eq fun n _ => Walk.visit_eq n]
  rfl

theorem Call.arrayPoint?_shift (c : Call) (k : Nat) :
    (c.shift k).arrayPoint? = c.arrayPoint?.map fun p => p + k := by
  unfold Call.arrayPoint? Call.lastArgument? Call.shift
  rw [List.getLast?_map, Option.map_map, Option.map_map]
  rfl

theorem Source.mem_calls_iff {s : Source} {c : Call} :
    c ∈ s.calls ↔ ∃ n ∈ s.program.items, ∃ d ∈ callsWithin none n, d.shift s.base = c := by
  unfold Source.calls
  rw [callsOf_eq_flatMap, List.mem_map]
  constructor
  · rintro ⟨d, hd, rfl⟩
    obtain ⟨n, hn, hdn⟩ := List.mem_flatMap.mp hd
    exact ⟨n, hn, d, hdn, rfl⟩
  · rintro ⟨n, hn, d, hdn, rfl⟩
    exact ⟨d, List.mem_flatMap.mpr ⟨n, hn, hdn⟩, rfl⟩

section WellPlaced

variable {text : String} {s : Source}

theorem Source.WellPlaced.item (h : s.WellPlaced text) {n : Node}
    (hn : n ∈ s.program.items) : n.AllLaidOut :=
  fun m hm => h.laidOut m (Script.Program.mem_nodes hn hm)

/-- The point of each call lies in its statement and on a boundary. -/
theorem Source.WellPlaced.place (h : s.WellPlaced text) {c : Call} (hc : c ∈ s.calls) {p : Nat}
    (hp : c.arrayPoint? = some p) :
    (c.statement.start ≤ p ∧ p ≤ c.statement.stop)
      ∧ (String.Pos.Raw.mk p).IsValid text := by
  obtain ⟨n, hn, d, hd, rfl⟩ := Source.mem_calls_iff.mp hc
  rw [Call.arrayPoint?_shift] at hp
  obtain ⟨q, hq, rfl⟩ := Option.map_eq_some_iff.mp hp
  have hall := h.item hn
  constructor
  · have hin := arrayPoint?_inside_statement hall none (fun s hs => by cases hs) d hd q hq
    show d.statement.start + s.base ≤ q + s.base ∧ q + s.base ≤ d.statement.stop + s.base
    omega
  · obtain ⟨m, hm, rfl⟩ := exists_start_eq_arrayPoint? hall none d hd q hq
    exact (h.onBoundary m (Script.Program.mem_nodes hn hm)).1

/-- The calls of a source have different points. -/
theorem Source.WellPlaced.calls_pairwise (h : s.WellPlaced text) :
    s.calls.Pairwise Call.Apart := by
  unfold Source.calls
  rw [callsOf_eq_flatMap, List.pairwise_map]
  have hpair : (s.program.items.flatMap (callsWithin none)).Pairwise Call.Apart := by
    rw [List.pairwise_flatMap]
    refine ⟨fun n hn => callsWithin_pairwise (h.item hn) none, h.apart.imp_of_mem ?_⟩
    intro a b ha hb hab
    exact apart_of_nodes_apart (h.item ha) (h.item hb) hab
  refine hpair.imp ?_
  intro c d hcd p hp hq
  rw [Call.arrayPoint?_shift] at hp hq
  obtain ⟨k, hk, rfl⟩ := Option.map_eq_some_iff.mp hp
  obtain ⟨k', hk', heq⟩ := Option.map_eq_some_iff.mp hq
  have hkk : k' = k := by omega
  exact hcd k hk (hkk ▸ hk')

/-- No two calls produce edits at one offset. -/
theorem Source.WellPlaced.patches_pairwise (h : s.WellPlaced text) (settings : Settings) :
    (patches settings (openCalls s.calls)).Pairwise fun es es' =>
      ∀ e ∈ es, ∀ e' ∈ es', e.point ≠ e'.point := by
  rw [patches_openCalls, List.pairwise_map]
  refine (h.calls_pairwise.filter Call.takesArray).imp ?_
  intro c d hcd e he e' he' heq
  have hc := (place_of_mem_arrayEdits he).1
  have hd := (place_of_mem_arrayEdits he').1
  exact hcd e.point hc (heq ▸ hd)

/-- The batch of a well placed source fits. -/
theorem Source.WellPlaced.fits_batch (h : s.WellPlaced text) (settings : Settings) :
    Fits text (batch settings s.calls) := by
  rw [fits_batch_iff]
  constructor
  · intro c hc p hp
    exact h.place (mem_patchedCalls.mp hc).1 hp
  · refine (h.calls_pairwise.filter Call.takesArray).imp_of_mem ?_
    intro c d hc _ hcd heq
    obtain ⟨p, hp⟩ := Call.exists_arrayPoint? (mem_patchedCalls.mp hc).2
    exact hcd p hp (heq ▸ hp)

end WellPlaced

/-- **Injections never break their own rules.**  When the ranges of a source are
placed as its parser promises, the edits of all of its calls together pass
every check: each lies inside the statement around its call and on a boundary,
no two calls work at one offset, and an array that is filled is inserted at its
offset first.  So the batch goes through, and the injection with it. -/
theorem inject_of_wellPlaced {text : String} {source : Source} (h : source.WellPlaced text)
    (settings : Settings) :
    (∀ e ∈ (patches settings (openCalls source.calls)).flatten,
        (e.scope.start ≤ e.point ∧ e.point ≤ e.scope.stop)
          ∧ (String.Pos.Raw.mk e.point).IsValid text)
      ∧ ((patches settings (openCalls source.calls)).Pairwise fun es es' =>
          ∀ e ∈ es, ∀ e' ∈ es', e.point ≠ e'.point)
      ∧ (∀ e ∈ (patches settings (openCalls source.calls)).flatten,
          e.kind = .fillDependencies →
            ∃ a ∈ (patches settings (openCalls source.calls)).flatten,
              a.kind = .addEmptyArray ∧ a.point = e.point)
      ∧ (∃ outcome, patchCalls text settings source.calls = .ok outcome)
      ∧ (Source.read text.toList = .ok source →
          ∃ outcome, inject text settings = .ok outcome) := by
  -- All checks follow from one fact, that the batch fits.
  have hfits := h.fits_batch settings
  have hpatch : ∃ outcome, patchCalls text settings source.calls = .ok outcome := by
    rw [patchCalls_eq, execute_of_fits hfits]
    exact ⟨_, rfl⟩
  rw [flatten_patches]
  refine ⟨fun e he => ⟨hfits.inside e he, hfits.onBoundary e he⟩,
    h.patches_pairwise settings, fun e he _ => ?_, hpatch, fun hread => ?_⟩
  · obtain ⟨c, hc, hec⟩ := mem_batch.mp he
    exact ⟨_, mem_batch.mpr ⟨c, hc,
      addEmptyArray_mem_arrayEdits (place_of_mem_arrayEdits hec).1⟩, rfl, rfl⟩
  · obtain ⟨outcome, hok⟩ := hpatch
    exact ⟨outcome, (inject_eq_ok_iff_patchCalls text settings outcome).mpr
      ⟨source, hread, hok⟩⟩

/-- A call in an earlier argument of another one, and a character of two bytes. -/
theorem inject_of_wellPlaced_nested :
    ∃ source, Source.read "require(define(x => 1), 'é', () => 2)".toList = .ok source
      ∧ source.WellPlaced "require(define(x => 1), 'é', () => 2)"
      ∧ ∃ outcome, inject "require(define(x => 1), 'é', () => 2)"
          { autoDependencies := true } = .ok outcome := by
  have hcheck : (match Source.read "require(define(x => 1), 'é', () => 2)".toList with
      | .ok source => decide (source.WellPlaced "require(define(x => 1), 'é', () => 2)")
      | .error _ => false) = true := by decide +kernel
  cases hread : Source.read "require(define(x => 1), 'é', () => 2)".toList with
  | error _ =>
      rw [hread] at hcheck
      cases hcheck
  | ok source =>
      rw [hread] at hcheck
      have hplaced := of_decide_eq_true hcheck
      exact ⟨source, rfl, hplaced,
        (inject_of_wellPlaced hplaced { autoDependencies := true }).2.2.2.2 hread⟩

end AmdKit.Amd
