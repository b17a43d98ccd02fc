/-
  AmdKit.Proofs.Formation
  ────────────────────────────────
  **WHERE THE PARTS OF A TREE STAND.**

  A pattern stands at few places of a syntax tree, and which place it is says what
  happens to the names in it:

      inner     — inside of another pattern
      bound     — as a parameter, in a declarator, or at a `catch`: they are introduced
      written   — left of an assignment, or in the head of a loop: they are written to

  And the parts of a node are walked in the order of the text but for two kinds:

      a `do` loop has its condition walked before its body
      a class has its members walked before what it extends

  `Formed` says of a node that no pattern stands among its other parts, that the
  name of a function or a class stands in a function or a class, that a name that
  is used has no parts, and that its parts stand in the order of the text, or
  turned around in those two ways.
-/
import AmdKit.Proofs.Layout
import AmdKit.Script.Target

namespace AmdKit.Script

/-! ## §1. The parts of a node. -/

/-- The kind is that of a pattern, or of a part of one. -/
def Kind.isPattern : Kind → Bool
  | .binding _ | .listPattern | .objectPattern | .partPattern | .defaultPattern
  | .restPattern => true
  | _ => false

/-- The kind is that of the name of a function or a class. -/
def Kind.isDeclared : Kind → Bool
  | .declared _ => true
  | _ => false

/-- The kind is that of a name that is used. -/
def Kind.isReference : Kind → Bool
  | .reference _ => true
  | _ => false

/-- The parts of a node, by what a pattern among them means. -/
structure Parts where
  /-- Patterns inside of this one. -/
  inner : List Node := []
  /-- Patterns that introduce names. -/
  bound : List Node := []
  /-- Patterns and targets that are written to. -/
  written : List Node := []
  /-- What is no pattern. -/
  plain : List Node := []

/-- What the parts of a node mean, by its kind. -/
def Kind.split (children : List Node) : Kind → Parts
  | .listPattern | .objectPattern | .partPattern | .restPattern => { inner := children }
  | .defaultPattern => { inner := children.take 1, plain := children.drop 1 }
  | .function | .arrow | .method | .handler =>
    { bound := children.dropLast, plain := children.getLast?.toList }
  | .declarator => { bound := children.take 1, plain := children.drop 1 }
  | .assignment _ | .forIn | .forOf => { written := children.take 1, plain := children.drop 1 }
  | _ => { plain := children }

/-- The parts of a node. -/
def Node.parts (n : Node) : Parts := n.kind.split n.children

/-- The names that a pattern binds, without their places. -/
def Node.patternNames (n : Node) : List String := n.boundNames.map Prod.fst

theorem Node.boundNamesAll_eq_flatMap (ns : List Node) :
    boundNamesAll ns = ns.flatMap boundNames := by
  induction ns with
  | nil => rfl
  | cons n ns ih =>
      unfold boundNamesAll
      rw [ih, List.flatMap_cons]

/-- Only a pattern binds names. -/
theorem Node.isPattern_of_mem_patternNames {n : Node} {name : String}
    (h : name ∈ n.patternNames) : n.kind.isPattern = true := by
  obtain ⟨kind, span, children⟩ := n
  unfold patternNames boundNames at h
  split at h
  case h_7 => exact absurd h List.not_mem_nil
  all_goals
    next heq =>
      rw [(Node.mk.inj heq).1]
      rfl

/-- The names of a pattern inside of another one are names of that one. -/
theorem Node.patternNames_of_mem_inner {n c : Node} {name : String} (hc : c ∈ n.parts.inner)
    (h : name ∈ c.patternNames) : name ∈ n.patternNames := by
  have hall : ∀ children : List Node, c ∈ children →
      name ∈ (boundNamesAll children).map Prod.fst := by
    intro children hc
    rw [boundNamesAll_eq_flatMap, List.map_flatMap]
    exact List.mem_flatMap.mpr ⟨c, hc, h⟩
  obtain ⟨kind, span, children⟩ := n
  unfold parts Kind.split at hc
  split at hc
  case h_5 heq =>
    -- Of a pattern with a default value the first part alone is a pattern.
    obtain rfl : kind = .defaultPattern := heq
    cases children with
    | nil => exact absurd hc List.not_mem_nil
    | cons left rest =>
        rw [children, List.take_succ_cons, List.take_zero, List.mem_singleton] at hc
        rw [hc] at h
        exact h
  case h_1 heq | h_2 heq | h_3 heq | h_4 heq =>
    obtain rfl := heq
    exact hall children hc
  all_goals exact absurd hc List.not_mem_nil

/-- Every part of a node stands in one of four places. -/
theorem Node.mem_parts_of_mem_children {n c : Node} (hc : c ∈ n.children) :
    c ∈ n.parts.inner ∨ c ∈ n.parts.bound ∨ c ∈ n.parts.written ∨ c ∈ n.parts.plain := by
  have hfirst : c ∈ n.children.take 1 ∨ c ∈ n.children.drop 1 := by
    rwa [← List.mem_append, List.take_append_drop]
  have hlast : c ∈ n.children.dropLast ∨ c ∈ n.children.getLast?.toList := by
    rcases List.eq_nil_or_concat n.children with hnil | ⟨front, last, hconcat⟩
    · rw [hnil] at hc
      exact absurd hc List.not_mem_nil
    · rw [hconcat, List.concat_eq_append] at hc ⊢
      rw [List.dropLast_concat, List.getLast?_concat]
      exact List.mem_append.mp hc
  unfold parts Kind.split
  split <;> simp only [List.not_mem_nil, false_or, or_false, hc, hfirst, hlast]

theorem Node.mem_children_of_mem_bound {n c : Node} (h : c ∈ n.parts.bound) :
    c ∈ n.children := by
  unfold parts Kind.split at h
  split at h <;>
    first
      | exact absurd h List.not_mem_nil
      | exact List.dropLast_subset _ h
      | exact List.mem_of_mem_take h

theorem Node.mem_children_of_mem_written {n c : Node} (h : c ∈ n.parts.written) :
    c ∈ n.children := by
  unfold parts Kind.split at h
  split at h <;>
    first
      | exact absurd h List.not_mem_nil
      | exact List.mem_of_mem_take h

/-! ## §2. The order of the text. -/

/-- The kind is that of a member of a class. -/
def Kind.isMember : Kind → Bool
  | .method | .field | .staticBlock => true
  | _ => false

/-- The parts that are walked first. -/
def Node.walkedFirst (n : Node) : List Node :=
  match n.kind with
  | .doWhile => n.children.take 1
  | .class_ => n.children.takeWhile fun c => c.kind.isMember || c.kind.isDeclared
  | _ => n.children

/-- The parts that are walked last although they stand in front: the body of a `do`
loop, and what a class extends. -/
def Node.walkedLast (n : Node) : List Node :=
  match n.kind with
  | .doWhile => n.children.drop 1
  | .class_ => n.children.dropWhile fun c => c.kind.isMember || c.kind.isDeclared
  | _ => []

/-- The parts walked first and those walked last are all parts. -/
theorem Node.walkedFirst_append_walkedLast (n : Node) :
    n.walkedFirst ++ n.walkedLast = n.children := by
  unfold walkedFirst walkedLast
  split
  · exact List.take_append_drop 1 n.children
  · exact List.takeWhile_append_dropWhile
  · exact List.append_nil n.children

/-- A tree is walked from its root on, and then through its parts. -/
theorem Node.subtrees_eq (n : Node) : n.subtrees = n :: n.children.flatMap Node.subtrees := by
  obtain ⟨kind, span, children⟩ := n
  rw [← subtreesAll_eq_flatMap]
  rfl

/-- What is picked out of a tree: from the node itself, and then from its parts. -/
theorem Node.filterMap_subtrees {β : Type} (f : Node → Option β) (n : Node) :
    n.subtrees.filterMap f
      = (f n).toList ++ n.children.flatMap fun c => c.subtrees.filterMap f := by
  rw [Node.subtrees_eq, List.filterMap_cons, List.filterMap_flatMap]
  cases f n <;> rfl

/-- A subtree is the tree itself or a subtree of a part. -/
theorem Node.mem_subtrees_iff {n m : Node} :
    m ∈ n.subtrees ↔ m = n ∨ ∃ c ∈ n.children, m ∈ c.subtrees := by
  rw [subtrees_eq, List.mem_cons, List.mem_flatMap]

/-- A subtree of a subtree is one. -/
theorem Node.mem_subtrees_trans {n m k : Node} (hm : m ∈ n.subtrees) (hk : k ∈ m.subtrees) :
    k ∈ n.subtrees := by
  induction n using Node.induction with
  | mk kind span children ih =>
      rcases mem_subtrees_iff.mp hm with rfl | ⟨c, hc, hm⟩
      · exact hk
      · exact mem_subtrees_of_child hc (ih c hc hm)

/-- Where the names that are used inside of a tree begin. -/
def Node.uses (n : Node) : List Nat :=
  (n.subtrees.filter fun m => m.kind.isReference).map fun m => m.span.start

/-- A use is the place of a reference in the tree. -/
theorem Node.mem_uses_iff {n : Node} {i : Nat} :
    i ∈ n.uses ↔ ∃ m ∈ n.subtrees, m.kind.isReference = true ∧ m.span.start = i := by
  unfold uses
  rw [List.mem_map]
  simp only [List.mem_filter, and_assoc]

/-- A tree uses what its parts use. -/
theorem Node.mem_uses_of_child {n c : Node} {i : Nat} (hc : c ∈ n.children) (h : i ∈ c.uses) :
    i ∈ n.uses := by
  obtain ⟨m, hm, hi⟩ := mem_uses_iff.mp h
  exact mem_uses_iff.mpr ⟨m, mem_subtrees_of_child hc hm, hi⟩

/-- The names that are used in the one tree stand in front of those in the other. -/
def Node.Before (a b : Node) : Prop := ∀ i ∈ a.uses, ∀ j ∈ b.uses, i < j

instance (a b : Node) : Decidable (a.Before b) :=
  inferInstanceAs (Decidable (∀ i ∈ a.uses, ∀ j ∈ b.uses, i < j))

/-- The parts of a node stand in the order in which they are walked, but for those
that are walked last. -/
structure Node.InOrder (n : Node) : Prop where
  first : n.walkedFirst.Pairwise Node.Before
  last : n.walkedLast.Pairwise Node.Before
  turned : ∀ a ∈ n.walkedFirst, ∀ b ∈ n.walkedLast, b.Before a

instance (n : Node) : Decidable n.InOrder :=
  decidable_of_iff
    (n.walkedFirst.Pairwise Node.Before ∧ n.walkedLast.Pairwise Node.Before
      ∧ ∀ a ∈ n.walkedFirst, ∀ b ∈ n.walkedLast, b.Before a)
    ⟨fun h => ⟨h.1, h.2.1, h.2.2⟩, fun h => ⟨h.first, h.last, h.turned⟩⟩

/-! ## §3. Formed trees. -/

/-- Patterns, and the names of functions and classes, stand at their places only, a
name that is used has no parts, and all parts are in order. -/
structure Node.Formed (n : Node) : Prop where
  plain : ∀ c ∈ n.parts.plain, c.kind.isPattern = false
  named : (∃ c ∈ n.children, c.kind.isDeclared = true) → n.kind = .function ∨ n.kind = .class_
  leaf : n.kind.isReference = true → n.children = []
  inOrder : n.InOrder

instance (n : Node) : Decidable n.Formed :=
  decidable_of_iff
    ((∀ c ∈ n.parts.plain, c.kind.isPattern = false)
      ∧ ((∃ c ∈ n.children, c.kind.isDeclared = true) → n.kind = .function ∨ n.kind = .class_)
      ∧ (n.kind.isReference = true → n.children.isEmpty = true)
      ∧ n.InOrder)
    ⟨fun h => ⟨h.1, h.2.1, fun href => List.isEmpty_iff.mp (h.2.2.1 href), h.2.2.2⟩,
      fun h => ⟨h.plain, h.named, fun href => List.isEmpty_iff.mpr (h.leaf href), h.inOrder⟩⟩

/-- The nodes of a program are formed, and its items stand in the order of the text. -/
structure Program.Formed (p : Program) : Prop where
  nodes : ∀ n ∈ p.nodes, n.Formed
  inOrder : p.items.Pairwise Node.Before

instance (p : Program) : Decidable p.Formed :=
  decidable_of_iff ((∀ n ∈ p.nodes, n.Formed) ∧ p.items.Pairwise Node.Before)
    ⟨fun h => ⟨h.1, h.2⟩, fun h => ⟨h.nodes, h.inOrder⟩⟩

/-- A tree is formed throughout, and is itself neither a pattern nor the name of
something: it is an expression, a statement, or the like. -/
structure Node.Plain (n : Node) : Prop where
  formed : ∀ m ∈ n.subtrees, m.Formed
  notPattern : n.kind.isPattern = false
  notDeclared : n.kind.isDeclared = false

end AmdKit.Script
