/-
  AmdKit.Proofs.RewrittenCalls
  ────────────────────────────────
  **PROGRAMS WITH OTHER ARGUMENTS.**

  Two programs can be the same but for the arguments of their calls, and for where
  everything stands:

      Rewritten R n m    —  a call in `n` has arguments that `R` relates to those of
                            the call in `m`, after they were rewritten themselves

  An argument that was rewritten stays a string, an array, a spread or a factory, if it
  was one.  The relation is used for parentheses around arguments, and for new arrays
  among them.
-/
import AmdKit.Proofs.Formation
import Mathlib.Data.List.Forall2

namespace AmdKit.Script

/-! ## §1. Kinds without ranges. -/

/-- The kind without the ranges in it. -/
def Kind.bare : Kind → Kind
  | .array comma => .array (comma.map fun _ => default)
  | .object comma => .object (comma.map fun _ => default)
  | .shorthandDefault name _ => .shorthandDefault name default
  | kind => kind

/-- Calls, parentheses and spreads stay what they are, and nothing else becomes one. -/
theorem Kind.bare_eq_iff {kind other : Kind} (h : other ∈ [Kind.call, .paren, .spread]) :
    kind.bare = other ↔ kind = other := by
  have hother : other = .call ∨ other = .paren ∨ other = .spread := by simpa using h
  rcases hother with rfl | rfl | rfl <;> cases kind <;> simp [Kind.bare]

/-! ## §2. Rewritten trees. -/

/-- The trees are the same but for places, and for the arguments of calls: of these, and
of the callee in front of them, the relation holds. -/
inductive Node.Rewritten (R : Node → List Node → List Node → Prop) : Node → Node → Prop where
  /-- A node that is no call. -/
  | node {kind kind' : Kind} {parts parts' : List Node} (span span' : Text.Span)
    (hcall : kind ≠ .call) (hkind : kind'.bare = kind.bare)
    (h : List.Forall₂ (Rewritten R) parts parts') :
    Rewritten R (.mk kind span parts) (.mk kind' span' parts')
  /-- A call, whose arguments are rewritten and then related to others. -/
  | call {callee callee' : Node} {arguments inner outer : List Node} (span span' : Text.Span)
    (hcallee : Rewritten R callee callee') (h : List.Forall₂ (Rewritten R) arguments inner)
    (houter : R callee' inner outer) :
    Rewritten R (.mk .call span (callee :: arguments)) (.mk .call span' (callee' :: outer))

/-- What agrees on related items agrees on the lists. -/
theorem map_eq_of_forall₂ {α β γ : Type} {R : α → β → Prop} {f : α → γ} {g : β → γ}
    {as : List α} {bs : List β} (h : List.Forall₂ R as bs)
    (hfg : ∀ a ∈ as, ∀ b, R a b → g b = f a) : bs.map g = as.map f := by
  induction h with
  | nil => rfl
  | cons hab _ ih =>
      rw [List.map_cons, List.map_cons, hfg _ List.mem_cons_self _ hab,
          ih fun a ha => hfg a (List.mem_cons_of_mem _ ha)]

variable {R : Node → List Node → List Node → Prop} {n m : Node}

/-- A rewritten tree is of the same kind. -/
theorem Node.Rewritten.kind_bare (h : Node.Rewritten R n m) : m.kind.bare = n.kind.bare := by
  cases h with
  | node _ _ _ hkind _ => exact hkind
  | call => rfl

/-- So what is told from a kind without its ranges is told of both trees. -/
theorem Node.Rewritten.eq_of_kind {β : Type} {f : Kind → β}
    (hf : ∀ kind : Kind, f kind.bare = f kind)
    (h : Node.Rewritten R n m) : f m.kind = f n.kind := by
  rw [← hf, h.kind_bare, hf]

/-- Parentheses are rewritten to parentheses, and so are parts that have none. -/
theorem Node.Rewritten.stripParens (h : Node.Rewritten R n m) :
    Node.Rewritten R n.stripParens m.stripParens := by
  fun_induction Node.stripParens n generalizing m with
  | case1 span inner ih =>
      cases h with
      | @node _ kind' _ _ _ _ _ hkind h =>
          obtain rfl : kind' = .paren := (Kind.bare_eq_iff (by decide)).mp hkind
          cases h with
          | @cons _ inner' _ _ hinner hrest =>
              cases hrest
              have hstripped := ih hinner
              exact hstripped
  | case2 n hparen =>
      fun_cases Node.stripParens m with
      | case1 span' inner' =>
          -- Only parentheses around one tree are rewritten to such.
          cases h with
          | @node kind _ _ _ span _ _ hkind h =>
              obtain rfl : kind = .paren := (Kind.bare_eq_iff (by decide)).mp hkind.symm
              cases h with
              | @cons inner _ _ _ _ hrest =>
                  cases hrest
                  exact absurd rfl (hparen span inner)
      | case2 m => exact h

end AmdKit.Script

namespace AmdKit.Amd

open Script (Node Kind map_eq_of_forall₂)

variable {R : Node → List Node → List Node → Prop} {n m : Node}

/-! ## §3. What is seen of an argument. -/

/-- A rewritten callee names the same function. -/
theorem ofCallee?_of_rewritten (h : Node.Rewritten R n m) :
    CallKind.ofCallee? m = CallKind.ofCallee? n :=
  h.eq_of_kind (f := fun kind => CallKind.ofCallee? (.leaf kind default))
    fun kind => by cases kind <;> rfl

/-- What decides how a call with the argument is treated. -/
structure Seen where
  /-- It is a string, or the spread of one. -/
  string : Bool
  /-- It is a list. -/
  array : Bool
  /-- It is a spread. -/
  spread : Bool
  /-- It is a function, parentheses aside. -/
  factory : Bool

/-- What is seen of an argument. -/
def seen (n : Node) : Seen :=
  ⟨isString n, isArray n, isSpread n, (Factory.ofArgument? n).isSome⟩

/-- The node is a string itself. -/
def isLiteral (n : Node) : Bool :=
  match n.kind with
  | .string _ => true
  | _ => false

/-- The nodes are one string. -/
def areLiteral : List Node → Bool
  | [inner] => isLiteral inner
  | _ => false

/-- The test for a string that the program uses is this one. -/
theorem isString_eq (n : Node) :
    isString n = (isLiteral n || isSpread n && areLiteral n.children) := by
  obtain ⟨kind, span, children⟩ := n
  cases kind with
  | spread =>
      cases children with
      | nil => rfl
      | cons inner rest =>
          obtain ⟨kind, span, parts⟩ := inner
          cases kind <;> cases rest <;> rfl
  | _ => rfl

/-- Whether a node is a literal, an array or a spread is a matter of its kind. -/
theorem isLiteral_of_rewritten (h : Node.Rewritten R n m) : isLiteral m = isLiteral n :=
  h.eq_of_kind (f := fun kind => isLiteral (.leaf kind default)) fun kind => by cases kind <;> rfl

theorem isArray_of_rewritten (h : Node.Rewritten R n m) : isArray m = isArray n :=
  h.eq_of_kind (f := fun kind => isArray (.leaf kind default)) fun kind => by cases kind <;> rfl

theorem isSpread_of_rewritten (h : Node.Rewritten R n m) : isSpread m = isSpread n :=
  h.eq_of_kind (f := fun kind => isSpread (.leaf kind default)) fun kind => by cases kind <;> rfl

/-- A spread is a string only if all of its parts are literals, so rewriting them makes no
difference. -/
theorem isString_of_rewritten (h : Node.Rewritten R n m) : isString m = isString n := by
  rw [isString_eq, isString_eq, isLiteral_of_rewritten h, isSpread_of_rewritten h]
  cases h with
  | call => rfl
  | node span span' hcall hkind h =>
      -- A single part is rewritten to a single part.
      congr 2
      cases h with
      | nil => rfl
      | cons hinner hrest =>
          cases hrest with
          | nil => exact isLiteral_of_rewritten hinner
          | cons => rfl

/-- The kind is that of a function. -/
def isFactoryKind : Kind → Bool
  | .function | .arrow => true
  | _ => false

/-- A factory is found by the kind inside of parentheses. -/
theorem isSome_ofArgument? (n : Node) :
    (Factory.ofArgument? n).isSome = isFactoryKind n.stripParens.kind := by
  unfold Factory.ofArgument?
  dsimp only
  cases n.stripParens.kind <;> rfl

theorem isFactory_of_rewritten (h : Node.Rewritten R n m) :
    (Factory.ofArgument? m).isSome = (Factory.ofArgument? n).isSome := by
  rw [isSome_ofArgument?, isSome_ofArgument?]
  exact h.stripParens.eq_of_kind (f := isFactoryKind) fun kind => by cases kind <;> rfl

/-- **A rewritten argument is seen as before.** -/
theorem seen_of_rewritten (h : Node.Rewritten R n m) : seen m = seen n := by
  unfold seen
  rw [isString_of_rewritten h, isArray_of_rewritten h, isSpread_of_rewritten h,
      isFactory_of_rewritten h]

end AmdKit.Amd
