/-
  AmdKit.Proofs.Parentheses
  ────────────────────────────────
  **PARENTHESES AROUND ARGUMENTS.**

  Parentheses around an argument of a call mean nothing.  A factory is found
  inside of them, and so is everything that is in the factory.  An array is not:

      hasArray  =  there is an array, parentheses aside
                     ∧ neither it nor a string in front of it is in parentheses

  So a call may lose its array by parentheses, and is given another one.  It is
  treated as before if and only if it does not.
-/
import AmdKit.Proofs.Declarations
import AmdKit.Proofs.SecondRun

namespace AmdKit.Script

/-! ## §1. Bare trees. -/

/-- The argument without the parentheses around it.  A spread has none. -/
def Node.withoutParens (n : Node) : Node :=
  if n.stripParens.kind = .spread then n else n.stripParens

mutual

/-- The tree without ranges and without parentheses around the arguments of calls. -/
def Node.bare : Node → Node
  | .mk .call _ (callee :: arguments) =>
    .mk .call default (callee.bare :: Node.bareArguments arguments)
  | .mk kind _ children => .mk kind.bare default (Node.bareAll children)

/-- The bare trees. -/
def Node.bareAll : List Node → List Node
  | [] => []
  | n :: ns => n.bare :: Node.bareAll ns

/-- The bare trees of arguments. -/
def Node.bareArguments : List Node → List Node
  | [] => []
  | n :: ns => n.bare.withoutParens :: Node.bareArguments ns

end

/-- The bare trees of a program.  Programs that have the same differ only in places
and in parentheses around arguments. -/
def Program.bare (p : Program) : List Node := p.items.map Node.bare

theorem Node.bareAll_eq_map (ns : List Node) : Node.bareAll ns = ns.map Node.bare := by
  induction ns with
  | nil => rfl
  | cons n ns ih =>
      unfold Node.bareAll
      rw [ih, List.map_cons]

theorem Node.bareArguments_eq_map (ns : List Node) :
    Node.bareArguments ns = ns.map fun n => n.bare.withoutParens := by
  induction ns with
  | nil => rfl
  | cons n ns ih =>
      unfold Node.bareArguments
      rw [ih, List.map_cons]

/-- The arguments of a call lose their parentheses. -/
theorem Node.bare_call (span : Text.Span) (callee : Node) (arguments : List Node) :
    (Node.mk .call span (callee :: arguments)).bare
      = .mk .call default (callee.bare :: arguments.map fun n => n.bare.withoutParens) := by
  rw [← Node.bareArguments_eq_map]
  rfl

/-- Any other node keeps its parts, made bare. -/
theorem Node.bare_eq {kind : Kind} (h : kind ≠ .call) (span : Text.Span) (children : List Node) :
    (Node.mk kind span children).bare = .mk kind.bare default (children.map Node.bare) := by
  unfold Node.bare
  split
  next heq => exact absurd (Node.mk.inj heq).1 h
  next heq =>
    obtain ⟨rfl, -, rfl⟩ := Node.mk.inj heq
    rw [Node.bareAll_eq_map]

theorem Node.kind_bare (n : Node) : n.bare.kind = n.kind.bare := by
  obtain ⟨kind, span, children⟩ := n
  by_cases hkind : kind = .call
  · subst hkind
    cases children <;> rfl
  · rw [Node.bare_eq hkind]
    rfl

/-- Parentheses can be left out before or after. -/
theorem Node.stripParens_bare (n : Node) : n.bare.stripParens = n.stripParens.bare := by
  fun_induction Node.stripParens n with
  | case1 span inner ih => exact ih
  | case2 n hparen =>
      obtain ⟨kind, span, children⟩ := n
      by_cases hkind : kind = .paren
      · -- Parentheses around no node or around many are none.
        subst hkind
        cases children with
        | nil => rfl
        | cons inner rest =>
            cases rest with
            | nil => exact absurd rfl (hparen span inner)
            | cons _ _ => rfl
      · refine Node.stripParens_eq_self ?_
        rw [Node.kind_bare]
        exact mt (Kind.bare_eq_iff (by decide)).mp hkind

/-- Going through parentheses leads to the same node with or without the outermost. -/
theorem Node.stripParens_withoutParens (n : Node) :
    n.withoutParens.stripParens = n.stripParens := by
  unfold Node.withoutParens
  split
  · rfl
  · exact n.stripParens_stripParens

/-- The second tree is the first one in any number of parentheses.  A spread can not stand
in any. -/
inductive Node.Wrapped (n : Node) : Node → Prop where
  /-- There are no parentheses. -/
  | same : Wrapped n n
  /-- There is another pair. -/
  | paren {m : Node} (span : Text.Span) (hm : m.stripParens.kind ≠ .spread) (h : Wrapped n m) :
    Wrapped n (.mk .paren span [m])

/-- A tree and the tree in parentheses are the same argument, made bare. -/
theorem Node.Wrapped.withoutParens_bare {n m : Node} (h : n.Wrapped m) :
    m.bare.withoutParens = n.bare.withoutParens := by
  induction h with
  | same => rfl
  | @paren m span hm _ ih =>
      have hspread : m.bare.stripParens.kind ≠ .spread := by
        rw [Node.stripParens_bare, Node.kind_bare]
        exact mt (Kind.bare_eq_iff (by decide)).mp hm
      rw [← ih]
      unfold Node.withoutParens
      rw [if_neg hspread]
      exact if_neg hspread

/-- The second program is the first one with arguments of its calls in parentheses, in any
number of them and anywhere. -/
def Program.Wrapped (p q : Program) : Prop :=
  List.Forall₂ (Node.Rewritten fun _ => List.Forall₂ Node.Wrapped) p.items q.items

/-- Wrapping arguments leaves the bare trees of a call's parts as they are. -/
theorem Node.bare_of_rewritten (n : Node) :
    ∀ {m : Node}, Node.Rewritten (fun _ => List.Forall₂ Node.Wrapped) n m → m.bare = n.bare := by
  induction n using Node.induction with
  | mk kind span children ih =>
      intro m h
      cases h with
      | @node _ kind' _ _ _ _ hcall hkind h =>
          have hcall' : kind' ≠ .call := fun hkind' => hcall
            ((Kind.bare_eq_iff (by decide)).mp (hkind.symm.trans (congrArg Kind.bare hkind')))
          rw [bare_eq hcall', bare_eq hcall, hkind, map_eq_of_forall₂ h fun n hn _ => ih n hn]
      | @call _ _ arguments inner outer _ _ hcallee h houter =>
          have hinner : inner.map (fun n => n.bare.withoutParens)
              = arguments.map fun n => n.bare.withoutParens :=
            map_eq_of_forall₂ h fun n hn _ hnm =>
              congrArg withoutParens (ih n (List.mem_cons_of_mem _ hn) hnm)
          have houter' : outer.map (fun n => n.bare.withoutParens)
              = inner.map fun n => n.bare.withoutParens :=
            map_eq_of_forall₂ houter fun _ _ _ hnm => hnm.withoutParens_bare
          rw [bare_call, bare_call, ih _ List.mem_cons_self hcallee, houter', hinner]

/-- **Every way to put arguments in parentheses leaves the bare trees of a program.** -/
theorem Program.bare_of_wrapped {p q : Program} (h : p.Wrapped q) : q.bare = p.bare :=
  map_eq_of_forall₂ h fun n _ _ => n.bare_of_rewritten

section

variable {β : Type} {f : Node → List β}

/-- What does not depend on parentheses is found in the children of a bare tree as in the
bare children. -/
theorem Node.flatMap_children_bare (hf : ∀ n : Node, f n.stripParens = f n) (n : Node) :
    n.bare.children.flatMap f = n.children.flatMap fun c => f c.bare := by
  have hargument : ∀ n : Node, f n.withoutParens = f n := by
    intro n
    rw [← hf n.withoutParens, Node.stripParens_withoutParens, hf]
  obtain ⟨kind, span, children⟩ := n
  by_cases hkind : kind = .call
  · subst hkind
    cases children with
    | nil => rfl
    | cons callee arguments =>
        rw [Node.bare_call]
        show (callee.bare :: arguments.map _).flatMap f = (callee :: arguments).flatMap _
        rw [List.flatMap_cons, List.flatMap_cons, List.flatMap_map]
        simp only [hargument]
  · rw [Node.bare_eq hkind]
    show (children.map Node.bare).flatMap f = _
    rw [List.flatMap_map]
    rfl

/-- A walk that finds the same at a node and at its bare tree, and nothing at parentheses,
finds the same in a tree and in its bare tree. -/
theorem Node.walk_bare {here : Node → List β}
    (hwalk : ∀ n : Node, f n = here n ++ n.children.flatMap f)
    (hhere : ∀ n : Node, here n.bare = here n)
    (hparen : ∀ n : Node, n.kind = .paren → here n = []) (n : Node) : f n.bare = f n := by
  have hstrip : ∀ n : Node, f n.stripParens = f n := by
    intro n
    fun_induction Node.stripParens n with
    | case1 span inner ih =>
        rw [ih, hwalk (.mk .paren span [inner]), hparen _ rfl]
        exact (List.append_nil _).symm
    | case2 n => rfl
  induction n using Node.induction with
  | mk kind span children ih =>
      rw [hwalk, hwalk (.mk kind span children), hhere, Node.flatMap_children_bare hstrip]
      exact congrArg _ (List.flatMap_congr ih)

end

end AmdKit.Script

namespace AmdKit.Amd

open Script (Node Kind)
open Text (Span)

/-! ## §2. Recognition. -/

/-- What kind of argument it is does not depend on ranges. -/
theorem isArray_bare (n : Node) : isArray n.bare = isArray n := by
  unfold isArray
  rw [Node.kind_bare]
  cases n.kind <;> rfl

theorem isString_bare (n : Node) : isString n.bare = isString n := by
  obtain ⟨kind, span, children⟩ := n
  cases kind with
  | spread =>
      cases children with
      | nil => rfl
      | cons inner rest =>
          -- What is spread is looked at, too.
          obtain ⟨kind, span, children⟩ := inner
          cases kind with
          | call => cases children <;> cases rest <;> rfl
          | _ => cases rest <;> rfl
  | call => cases children <;> rfl
  | _ => rfl

theorem isSpread_withoutParens_bare (n : Node) : isSpread n.bare.withoutParens = isSpread n := by
  have hbare : isSpread n.bare = isSpread n := by
    unfold isSpread
    rw [Node.kind_bare]
    cases n.kind <;> rfl
  unfold Node.withoutParens
  split
  next => exact hbare
  next hspread =>
    have hnone : isSpread n.bare.stripParens = false := decide_eq_false hspread
    cases h : isSpread n with
    | false => exact hnone
    | true =>
        have hkind : n.kind = .spread := of_decide_eq_true h
        rw [Node.stripParens_bare, Node.stripParens_eq_self (by rw [hkind]; decide), hbare, h]
          at hnone
        cases hnone

/-- The arguments up to the first one that is no string, parentheses aside. -/
def frontArguments : List Node → List Node
  | [] => []
  | n :: ns => if isString n.stripParens then n :: frontArguments ns else [n]

/-- One of the arguments that decide whether a call has an array is in parentheses. -/
def hidesArray (arguments : List Node) : Bool :=
  (frontArguments arguments).any fun n => n.kind = .paren

/-- An array is hidden behind strings, by an argument in parentheses. -/
theorem hidesArray_cons (n : Node) (ns : List Node) :
    hidesArray (n :: ns)
      = (decide (n.kind = .paren) || isString n.stripParens && hidesArray ns) := by
  unfold hidesArray
  rw [frontArguments]
  cases isString n.stripParens
  · rw [if_neg Bool.false_ne_true, List.any_cons, List.any_nil, Bool.false_and]
  · rw [if_pos rfl, List.any_cons, Bool.true_and]

/-- **Which arrays are recognised.**  A call has an array if it has one parentheses aside,
and it is not hidden. -/
theorem declaresArray_eq (arguments : List Node) :
    declaresArray arguments
      = (declaresArray (arguments.map Node.stripParens) && !hidesArray arguments) := by
  induction arguments with
  | nil => rfl
  | cons n arguments ih =>
      rw [hidesArray_cons]
      by_cases hparen : n.kind = .paren
      · -- Parentheses are neither a string nor an array.
        rw [decide_eq_true hparen, Bool.true_or, Bool.not_true, Bool.and_false]
        obtain ⟨kind, span, children⟩ := n
        obtain rfl : kind = .paren := hparen
        rfl
      · rw [List.map_cons, Node.stripParens_eq_self hparen, declaresArray_cons,
            declaresArray_cons, decide_eq_false hparen, Bool.false_or]
        cases isString n with
        | true => exact ih
        | false => exact (Bool.and_true _).symm

/-- Arguments that are told apart alike declare arrays alike. -/
theorem declaresArray_map_congr {f g : Node → Node} (hstring : ∀ n, isString (f n) = isString (g n))
    (harray : ∀ n, isArray (f n) = isArray (g n)) (ns : List Node) :
    declaresArray (ns.map f) = declaresArray (ns.map g) := by
  induction ns with
  | nil => rfl
  | cons n ns ih =>
      rw [List.map_cons, List.map_cons, declaresArray_cons, declaresArray_cons, hstring, harray, ih]

/-- Whether there is an array, parentheses aside, is seen from the bare arguments. -/
theorem declaresArray_map_bare (arguments : List Node) :
    declaresArray ((arguments.map fun n => n.bare.withoutParens).map Node.stripParens)
      = declaresArray (arguments.map Node.stripParens) := by
  have hbare : ∀ n : Node, n.bare.withoutParens.stripParens = n.stripParens.bare := by
    intro n
    rw [Node.stripParens_withoutParens, Node.stripParens_bare]
  rw [List.map_map]
  refine declaresArray_map_congr (fun n => ?_) (fun n => ?_) arguments
  · show isString n.bare.withoutParens.stripParens = _
    rw [hbare, isString_bare]
  · show isArray n.bare.withoutParens.stripParens = _
    rw [hbare, isArray_bare]

/-! ## §3. Factories. -/

/-- Names are gathered from a tree as from the bare tree. -/
theorem gather_bare {f : Kind → List String} (hkind : ∀ kind : Kind, f kind.bare = f kind)
    (hparen : f .paren = []) (n : Node) : gather f n.bare = gather f n := by
  refine Node.walk_bare (gather_eq f) (fun n => ?_) (fun n hn => ?_) n
  · rw [Node.kind_bare, hkind]
  · rw [hn, hparen]

/-- What a factory is, places aside. -/
def Factory.outline (f : Factory) : FactoryKind × List String × List String :=
  (f.kind, declaredNames f.node, referredNames f.node)

/-- A factory keeps its outline in parentheses and out of them. -/
theorem outline_ofArgument?_bare (argument : Node) :
    (Factory.ofArgument? argument.bare.withoutParens).map Factory.outline
      = (Factory.ofArgument? argument).map Factory.outline := by
  have hdeclared : ∀ n : Node, declaredNames n.bare = declaredNames n :=
    gather_bare (fun kind => by cases kind <;> rfl) rfl
  have hreferred : ∀ n : Node, referredNames n.bare = referredNames n :=
    gather_bare (fun kind => by cases kind <;> rfl) rfl
  unfold Factory.ofArgument?
  dsimp only
  rw [Node.stripParens_withoutParens, Node.stripParens_bare, Node.kind_bare]
  cases argument.stripParens.kind <;>
    first
    | rfl
    | simp [Kind.bare, Factory.outline, hdeclared, hreferred]

/-! ## §4. Call sites. -/

section

variable {β : Type} {g : List Node → CallKind → β}

/-- What `g` makes of the call site that a node is: of its arguments, and of what is called. -/
def siteAt? (g : List Node → CallKind → β) : Node → Option β
  | .mk .call _ (callee :: arguments) => (CallKind.ofCallee? callee).map (g arguments)
  | _ => none

theorem siteAt?_eq_none {n : Node} (h : n.kind ≠ .call) : siteAt? g n = none := by
  unfold siteAt?
  split
  next => exact absurd rfl h
  next => rfl

theorem ofCallee?_bare (callee : Node) :
    CallKind.ofCallee? callee.bare = CallKind.ofCallee? callee := by
  unfold CallKind.ofCallee?
  rw [Node.kind_bare]
  cases callee.kind <;> rfl

/-- A call site stays one in a bare program, with the same to be found at it. -/
theorem siteAt?_bare
    (hg : ∀ arguments : List Node, g (arguments.map fun n => n.bare.withoutParens) = g arguments)
    (n : Node) : siteAt? g n.bare = siteAt? g n := by
  by_cases hkind : n.kind = .call
  · obtain ⟨kind, span, children⟩ := n
    obtain rfl : kind = .call := hkind
    cases children with
    | nil => rfl
    | cons callee arguments =>
        rw [Node.bare_call]
        show (CallKind.ofCallee? callee.bare).map (g _)
          = (CallKind.ofCallee? callee).map (g arguments)
        rw [ofCallee?_bare, hg]
  · have hbare : n.bare.kind ≠ .call := by
      rw [Node.kind_bare]
      exact mt (Kind.bare_eq_iff (by decide)).mp hkind
    rw [siteAt?_eq_none hkind, siteAt?_eq_none hbare]

/-- **The call sites of a program are those of its bare trees.** -/
theorem sites_bare
    (hg : ∀ arguments : List Node, g (arguments.map fun n => n.bare.withoutParens) = g arguments)
    (program : Script.Program) :
    program.nodes.filterMap (siteAt? g)
      = program.bare.flatMap fun n => n.subtrees.filterMap (siteAt? g) := by
  unfold Script.Program.nodes Script.Program.bare
  rw [Node.subtreesAll_eq_flatMap, List.filterMap_flatMap, List.flatMap_map]
  refine List.flatMap_congr fun n _ =>
    (Node.walk_bare (Node.filterMap_subtrees (siteAt? g)) (fun n => ?_) (fun n hn => ?_) n).symm
  · rw [siteAt?_bare hg]
  · rw [siteAt?_eq_none (by rw [hn]; decide)]
    rfl

end

/-! ## §5. Outlines and arrays of calls. -/

/-- What a call is, places and arrays aside. -/
structure Outline where
  /-- Which function is called. -/
  kind : CallKind
  /-- One of the arguments is a spread. -/
  hasSpread : Bool
  /-- The number of arguments. -/
  arguments : Nat
  /-- What is handed over last, and the names in it. -/
  factory : Option (FactoryKind × List String × List String)

/-- The outline of a call. -/
def Call.outline (c : Call) : Outline :=
  ⟨c.kind, c.hasSpread, c.argumentSpans.length, c.factory.map Factory.outline⟩

/-- The outline of a call with the given arguments. -/
def Outline.ofArguments (arguments : List Node) (kind : CallKind) : Outline :=
  ⟨kind, arguments.any isSpread, arguments.length,
    (arguments.getLast?.bind Factory.ofArgument?).map Factory.outline⟩

theorem Outline.ofArguments_bare (arguments : List Node) :
    Outline.ofArguments (arguments.map fun n => n.bare.withoutParens)
      = Outline.ofArguments arguments := by
  have hspread : (arguments.map fun n => n.bare.withoutParens).any isSpread
      = arguments.any isSpread := by
    rw [List.any_map]
    exact congrArg (List.any arguments) (funext isSpread_withoutParens_bare)
  have hfactory : ((arguments.map fun n => n.bare.withoutParens).getLast?.bind
        Factory.ofArgument?).map Factory.outline
      = (arguments.getLast?.bind Factory.ofArgument?).map Factory.outline := by
    rw [List.getLast?_map]
    cases arguments.getLast? with
    | none => rfl
    | some argument => exact outline_ofArgument?_bare argument
  funext kind
  unfold Outline.ofArguments
  rw [hspread, hfactory, List.length_map]

theorem outline_callAt? (statement : Option Span) (n : Node) :
    (callAt? statement n).map Call.outline = siteAt? Outline.ofArguments n := by
  obtain ⟨kind, span, children⟩ := n
  by_cases hkind : kind = .call
  · subst hkind
    cases children with
    | nil => rfl
    | cons callee arguments =>
        unfold callAt? siteAt?
        rw [Option.map_map]
        congr 1
        funext kind
        simp [Call.outline, Outline.ofArguments]
  · have hnode : (Node.mk kind span children).kind ≠ .call := hkind
    rw [callAt?_eq_none hkind, siteAt?_eq_none hnode]
    rfl

/-- The calls of a tree have the outlines of its call sites, in walking order. -/
theorem outline_callsWithin (n : Node) : ∀ statement : Option Span,
    (callsWithin statement n).map Call.outline
      = n.subtrees.filterMap (siteAt? Outline.ofArguments) := by
  induction n using Node.induction with
  | mk kind span children ih =>
      intro statement
      rw [callsWithin_eq, Node.filterMap_subtrees, ← outline_callAt? statement, List.map_append,
          List.map_flatMap, Option.toList_map]
      exact congrArg _ (List.flatMap_congr fun c hc => ih c hc _)

/-- The outlines of calls are found by a walk over the program. -/
theorem outline_calls (source : Source) :
    source.calls.map Call.outline
      = source.program.nodes.filterMap (siteAt? Outline.ofArguments) := by
  have hshift : ∀ c : Call, (c.shift source.base).outline = c.outline := by
    intro c
    unfold Call.outline Call.shift
    rw [List.length_map, Option.map_map]
    rfl
  unfold Source.calls Script.Program.nodes
  rw [callsOf_eq_flatMap, Node.subtreesAll_eq_flatMap, List.map_map, List.map_flatMap,
      List.filterMap_flatMap]
  refine List.flatMap_congr fun n _ => ?_
  rw [← outline_callsWithin n none]
  exact List.map_congr_left fun c _ => hshift c

/-- Whether a call with these arguments has an array, parentheses aside. -/
def givesArray (arguments : List Node) : Bool := declaresArray (arguments.map Node.stripParens)

/-- So are the arguments that give an array if parentheses are looked through. -/
theorem givesArray_argumentsOf (program : Script.Program) :
    (argumentsOf program).map givesArray
      = program.nodes.filterMap (siteAt? fun arguments _ => givesArray arguments) := by
  have hsite : ∀ n : Node, (argumentsAt? n).map givesArray
      = siteAt? (fun arguments _ => givesArray arguments) n := by
    intro n
    by_cases hkind : n.kind = .call
    · obtain ⟨kind, span, children⟩ := n
      obtain rfl : kind = .call := hkind
      cases children with
      | nil => rfl
      | cons callee arguments => exact Option.map_map _ _ _
    · have hnone : argumentsAt? n = none := siteAt?_eq_none hkind
      rw [hnone, siteAt?_eq_none hkind]
      rfl
  unfold argumentsOf
  rw [List.map_filterMap]
  exact congrArg (fun f => List.filterMap f program.nodes) (funext hsite)

/-- Whether a call has an array is told from its arguments. -/
theorem exists_arguments {source : Source} {i : Nat} {c : Call} (hc : source.calls[i]? = some c) :
    ∃ arguments, (argumentsOf source.program)[i]? = some arguments
      ∧ c.hasArray = (givesArray arguments && !hidesArray arguments) := by
  have hshape : (source.calls.map Call.shape)[i]?
      = ((argumentsOf source.program).map Shape.ofArguments)[i]? := by
    rw [map_shape_calls]
  rw [List.getElem?_map, List.getElem?_map, hc] at hshape
  obtain ⟨arguments, harguments, heq⟩ := Option.map_eq_some_iff.mp hshape.symm
  refine ⟨arguments, harguments, ?_⟩
  rw [← show _ = c.hasArray from congrArg Shape.hasArray heq]
  exact declaresArray_eq arguments

/-! ## §6. Treatment of calls. -/

/-- What an edit writes, wherever that is. -/
def Edit.content : Edit → EditKind × List String
  | .addEmptyArray .. => (.addEmptyArray, [])
  | .fillDependencies _ _ modules => (.fillDependencies, modules)

/-- How a call is treated: the kinds of its edits and the modules in them, or the
reason why there is no place for an array. -/
def Call.treatment (settings : Settings) (c : Call) :
    Except Unsupported (List (EditKind × List String)) :=
  (c.edits settings).map fun edits => edits.map Edit.content

/-- A call that has an array is left alone. -/
theorem Call.treatment_of_hasArray (settings : Settings) {c : Call} (h : c.hasArray = true) :
    c.treatment settings = .ok [] := by
  unfold Call.treatment Call.edits
  rw [if_pos h]
  rfl

/-- A call without an array is treated as its outline tells. -/
theorem Call.treatment_of_not_hasArray (settings : Settings) {c : Call}
    (h : c.hasArray = false) :
    c.treatment settings
      = if c.takesArray then
          .ok ((EditKind.addEmptyArray, []) ::
            if settings.autoDependencies then [(.fillDependencies, c.modules settings)] else [])
        else .error c.refusal := by
  unfold Call.treatment
  rw [Call.edits_eq settings h]
  by_cases htakes : c.takesArray = true
  · rw [if_pos htakes, if_pos htakes]
    obtain ⟨p, hp⟩ := Call.exists_arrayPoint? htakes
    unfold Call.arrayEdits
    rw [hp]
    cases settings.autoDependencies <;> rfl
  · rw [if_neg htakes, if_neg htakes]
    rfl

/-- Only such a call is. -/
theorem Call.treatment_eq_nil_iff (settings : Settings) (c : Call) :
    c.treatment settings = .ok [] ↔ c.hasArray = true := by
  cases h : c.hasArray with
  | true => simp [Call.treatment_of_hasArray settings h]
  | false =>
      rw [Call.treatment_of_not_hasArray settings h]
      split <;> simp

section

variable {c d : Call}

/-- The modules of a call are found from its outline. -/
theorem Call.modules_of_outline (h : d.outline = c.outline) (settings : Settings) :
    d.modules settings = c.modules settings := by
  have hfactory : d.factory.map Factory.outline = c.factory.map Factory.outline :=
    congrArg Outline.factory h
  unfold Call.modules
  -- A factory is there on both sides or on neither.
  cases hd : d.factory with
  | none =>
      cases hc : c.factory with
      | none => rfl
      | some f =>
          rw [hd, hc] at hfactory
          cases hfactory
  | some g =>
      cases hc : c.factory with
      | none =>
          rw [hd, hc] at hfactory
          cases hfactory
      | some f =>
          rw [hd, hc] at hfactory
          obtain ⟨-, hdeclared, hreferred⟩ : g.kind = f.kind
              ∧ declaredNames g.node = declaredNames f.node
              ∧ referredNames g.node = referredNames f.node := by
            simpa [Factory.outline] using hfactory
          dsimp only
          unfold usedModules
          rw [hdeclared, hreferred]

/-- **Calls with one outline are treated alike if and only if both have an array or none.** -/
theorem Call.treatment_eq_iff (h : d.outline = c.outline) (settings : Settings) :
    d.treatment settings = c.treatment settings ↔ d.hasArray = c.hasArray := by
  constructor
  · -- A call with an array is the only one that is left alone.
    intro htreatment
    rw [Bool.eq_iff_iff, ← Call.treatment_eq_nil_iff settings, ← Call.treatment_eq_nil_iff settings,
        htreatment]
  · intro harray
    cases hc : c.hasArray with
    | true =>
        rw [Call.treatment_of_hasArray settings hc,
            Call.treatment_of_hasArray settings (harray.trans hc)]
    -- Without an array on either side, the treatment is a matter of the outline.
    | false =>
        have hspread : d.hasSpread = c.hasSpread := congrArg Outline.hasSpread h
        have hlength : d.argumentSpans.length = c.argumentSpans.length :=
          congrArg Outline.arguments h
        have hfactory : d.factory.isSome = c.factory.isSome := by
          have hmap := congrArg (fun o : Outline => o.factory.isSome) h
          simpa [Call.outline] using hmap
        have hempty : d.argumentSpans.isEmpty = c.argumentSpans.isEmpty := by
          rw [Bool.eq_iff_iff, List.isEmpty_iff_length_eq_zero, List.isEmpty_iff_length_eq_zero,
              hlength]
        have htakes : d.takesArray = c.takesArray := by
          unfold Call.takesArray
          rw [harray, hspread, hempty, hlength, hfactory]
        have hrefusal : d.refusal = c.refusal := by
          unfold Call.refusal
          rw [hspread, hempty]
        rw [Call.treatment_of_not_hasArray settings hc,
            Call.treatment_of_not_hasArray settings (harray.trans hc), htakes, hrefusal,
            Call.modules_of_outline h]

end

/-- The calls are the same but for places and arrays. -/
structure Call.Alike (c d : Call) : Prop where
  /-- The same function is called. -/
  kind : d.kind = c.kind
  /-- A spread is there in both, or in none. -/
  hasSpread : d.hasSpread = c.hasSpread
  /-- There are as many arguments. -/
  arguments : d.argumentSpans.length = c.argumentSpans.length
  /-- A factory of the same kind is handed over, or none. -/
  factory : d.factory.map Factory.kind = c.factory.map Factory.kind
  /-- The same modules are discovered. -/
  modules : ∀ settings, d.modules settings = c.modules settings

/-- Calls with the same outline are treated alike, apart from arrays in parentheses. -/
theorem Call.alike_of_outline {c d : Call} (h : d.outline = c.outline) : c.Alike d := by
  refine ⟨congrArg Outline.kind h, congrArg Outline.hasSpread h, congrArg Outline.arguments h, ?_,
    Call.modules_of_outline h⟩
  have hfactory := congrArg (fun o : Outline => o.factory.map Prod.fst) h
  simpa [Call.outline, Factory.outline, Function.comp_def] using hfactory

/-- **What parentheses around arguments do.**  Take two programs that differ only in places
and in parentheses around the arguments of calls.  They have the same calls but for places
and arrays.  A call has an array if it has one parentheses aside, and neither the array nor
a string in front of it is in parentheses.  The two are treated alike just if both have an
array, or none. -/
theorem calls_of_bare_eq {source again : Source}
    (h : again.program.bare = source.program.bare) :
    again.calls.length = source.calls.length
    ∧ ∀ (i : Nat) (c d : Call), source.calls[i]? = some c → again.calls[i]? = some d →
      c.Alike d
      ∧ (∀ settings, d.treatment settings = c.treatment settings ↔ d.hasArray = c.hasArray)
      ∧ ∃ arguments wrapped, (argumentsOf source.program)[i]? = some arguments
        ∧ (argumentsOf again.program)[i]? = some wrapped
        ∧ givesArray wrapped = givesArray arguments
        ∧ c.hasArray = (givesArray arguments && !hidesArray arguments)
        ∧ d.hasArray = (givesArray arguments && !hidesArray wrapped) := by
  -- Both programs have the same call sites in the same order, and the same to be seen at each of
  -- them.
  have houtlines : again.calls.map Call.outline = source.calls.map Call.outline := by
    rw [outline_calls, outline_calls, sites_bare Outline.ofArguments_bare,
        sites_bare Outline.ofArguments_bare, h]
  refine ⟨by simpa using congrArg List.length houtlines, fun i c d hc hd => ?_⟩
  have houtline : d.outline = c.outline := by
    have hat : (again.calls.map Call.outline)[i]? = (source.calls.map Call.outline)[i]? := by
      rw [houtlines]
    rw [List.getElem?_map, List.getElem?_map, hc, hd] at hat
    exact Option.some.inj hat
  obtain ⟨arguments, harguments, harray⟩ := exists_arguments hc
  obtain ⟨wrapped, hwrapped, harray'⟩ := exists_arguments hd
  -- What differs is where an array hides: arguments give one alike, but only bare ones declare it.
  have hgives : givesArray wrapped = givesArray arguments := by
    have hat : ((argumentsOf again.program).map givesArray)[i]?
        = ((argumentsOf source.program).map givesArray)[i]? := by
      have hbare : ∀ arguments : List Node,
          (fun _ : CallKind => givesArray (arguments.map fun n => n.bare.withoutParens))
            = fun _ => givesArray arguments :=
        fun arguments => funext fun _ => declaresArray_map_bare arguments
      rw [givesArray_argumentsOf, givesArray_argumentsOf, sites_bare hbare, sites_bare hbare, h]
    rw [List.getElem?_map, List.getElem?_map, harguments, hwrapped] at hat
    exact Option.some.inj hat
  refine ⟨Call.alike_of_outline houtline, Call.treatment_eq_iff houtline, arguments, wrapped,
    harguments, hwrapped, hgives, harray, ?_⟩
  rw [harray', hgives]

/-- A factory, and an argument of a call inside of it. -/
theorem calls_of_bare_eq_factory :
    ∃ source again, Source.read "define(a, function(){$(b)})".toList = .ok source
      ∧ Source.read "define(((a)), (function(){$((b))}))".toList = .ok again
      ∧ again.program.bare = source.program.bare
      ∧ ∀ (c d : Call), source.calls[0]? = some c → again.calls[0]? = some d →
        c.Alike d ∧ ∀ settings, d.treatment settings = c.treatment settings := by
  have hcheck : (match Source.read "define(a, function(){$(b)})".toList,
        Source.read "define(((a)), (function(){$((b))}))".toList with
      | .ok source, .ok again => decide (again.program.bare = source.program.bare
          ∧ again.calls.map Call.hasArray = source.calls.map Call.hasArray)
      | _, _ => false) = true := by decide +kernel
  split at hcheck
  next source again hsource hagain =>
    obtain ⟨hbare, harrays⟩ := of_decide_eq_true hcheck
    refine ⟨source, again, hsource, hagain, hbare, fun c d hc hd => ?_⟩
    obtain ⟨halike, htreatment, -⟩ := (calls_of_bare_eq hbare).2 0 c d hc hd
    have harray : (again.calls.map Call.hasArray)[0]? = (source.calls.map Call.hasArray)[0]? := by
      rw [harrays]
    rw [List.getElem?_map, List.getElem?_map, hc, hd] at harray
    exact ⟨halike, fun settings => (htreatment settings).mpr (Option.some.inj harray)⟩
  next => cases hcheck

/-- **An array in parentheses** is not recognised, and the call is given another one. -/
theorem calls_parenthesised_array :
    ∃ source again, Source.read "define(['a'], function(){})".toList = .ok source
      ∧ Source.read "define((['a']), function(){})".toList = .ok again
      ∧ again.program.bare = source.program.bare
      ∧ source.calls.map Call.hasArray = [true] ∧ again.calls.map Call.hasArray = [false]
      ∧ source.calls.map (fun c => (c.treatment {}).toOption) = [some []]
      ∧ again.calls.map (fun c => (c.treatment {}).toOption)
        = [some [(.addEmptyArray, [])]] := by
  have hcheck : (match Source.read "define(['a'], function(){})".toList,
        Source.read "define((['a']), function(){})".toList with
      | .ok source, .ok again => decide (again.program.bare = source.program.bare
          ∧ source.calls.map Call.hasArray = [true] ∧ again.calls.map Call.hasArray = [false]
          ∧ source.calls.map (fun c => (c.treatment {}).toOption) = [some []]
          ∧ again.calls.map (fun c => (c.treatment {}).toOption)
            = [some [(.addEmptyArray, [])]])
      | _, _ => false) = true := by decide +kernel
  split at hcheck
  next source again hsource hagain =>
    exact ⟨source, again, hsource, hagain, of_decide_eq_true hcheck⟩
  next => cases hcheck

end AmdKit.Amd
