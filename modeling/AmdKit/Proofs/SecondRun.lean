/-
  AmdKit.Proofs.SecondRun
  ────────────────────────────────
  **INJECTING TWICE.**

  An injection puts a new array in front of the last argument, and a call is
  said to have an array by its first argument that is no string.  The two rules
  agree on the calls whose other arguments are strings, and on no others:

      declaresArray (before ++ [array, last])  =  all of before are strings

  So a second run leaves these calls alone and gives each of the others another
  array.  `Rereads` says what is asked of the reader of the new text: that it
  finds the same calls, each with its arguments and its new array.  It does so

      if it finds the old trees, with the new arrays written into their calls
      always, where the first run has nothing to write
-/
import AmdKit.Proofs.RewrittenCalls

namespace AmdKit.Amd

open Script (Node)
open Text (Span)

/-! ## §1. Recognition. -/

/-- Strings in front are passed over, and the first argument that is none decides. -/
theorem declaresArray_cons (n : Node) (ns : List Node) :
    declaresArray (n :: ns) = if isString n then declaresArray ns else isArray n := by
  unfold declaresArray
  rw [List.find?_cons]
  cases isString n <;> rfl

theorem isString_eq_false_of_isArray {n : Node} (h : isArray n = true) : isString n = false := by
  obtain ⟨kind, span, children⟩ := n
  cases kind <;> first | rfl | cases h

/-- **Which new arrays are recognised.**  A call without an array has one after the
injection if and only if there are only strings in front of it. -/
theorem declaresArray_insert {before : List Node} {last array : Node}
    (hnone : declaresArray (before ++ [last]) = false) (harray : isArray array = true) :
    declaresArray (before ++ [array, last]) = before.all isString := by
  have hstring : isString array = false := isString_eq_false_of_isArray harray
  induction before with
  | nil =>
      unfold declaresArray
      rw [List.nil_append, List.find?_cons, hstring]
      exact harray
  | cons n before ih =>
      unfold declaresArray at hnone ih ⊢
      cases hn : isString n with
      | true =>
          -- A string in front is passed over by both rules.
          rw [List.cons_append, List.find?_cons, hn] at hnone ⊢
          rw [List.all_cons, hn, Bool.true_and]
          exact ih hnone
      | false =>
          -- This argument is the one that is looked at, before and after.
          rw [List.cons_append, List.find?_cons, hn] at hnone ⊢
          rw [List.all_cons, hn, Bool.false_and]
          exact hnone

/-! ## §2. Shapes. -/

/-- What decides whether a call takes an array. -/
structure Shape where
  /-- The call has an array. -/
  hasArray : Bool
  /-- One of the arguments is a spread. -/
  hasSpread : Bool
  /-- The number of arguments. -/
  arguments : Nat
  /-- The last argument is a function. -/
  hasFactory : Bool
  deriving Repr, DecidableEq

/-- A call of this shape takes an array. -/
def Shape.takesArray (s : Shape) : Bool :=
  !s.hasArray && !s.hasSpread && decide (0 < s.arguments)
    && (decide (2 ≤ s.arguments) || s.hasFactory)

/-- The shape of a call. -/
def Call.shape (c : Call) : Shape :=
  ⟨c.hasArray, c.hasSpread, c.argumentSpans.length, c.factory.isSome⟩

/-- The shape of a call with the given arguments. -/
def Shape.ofArguments (arguments : List Node) : Shape :=
  ⟨declaresArray arguments, arguments.any isSpread, arguments.length,
    (arguments.getLast?.bind Factory.ofArgument?).isSome⟩

/-- The arguments of the call site that a node is. -/
def argumentsAt? : Node → Option (List Node)
  | .mk .call _ (callee :: arguments) => (CallKind.ofCallee? callee).map fun _ => arguments
  | _ => none

/-- The arguments of the call sites of a program, call by call. -/
def argumentsOf (program : Script.Program) : List (List Node) :=
  program.nodes.filterMap argumentsAt?

theorem argumentsAt?_eq_none {n : Node} (h : n.kind ≠ .call) : argumentsAt? n = none := by
  unfold argumentsAt?
  split
  next => exact absurd rfl h
  next => rfl

/-- What decides how a call with these arguments is treated is seen of each of them. -/
def Shape.ofSeen (arguments : List Seen) : Shape :=
  ⟨(arguments.find? fun s => !s.string).any Seen.array, arguments.any Seen.spread,
    arguments.length, arguments.getLast?.any Seen.factory⟩

/-- The shape of a call shows in what is seen of its arguments. -/
theorem Shape.ofArguments_eq (arguments : List Node) :
    Shape.ofArguments arguments = Shape.ofSeen (arguments.map seen) := by
  have hfactory : (arguments.getLast?.bind Factory.ofArgument?).isSome
      = (arguments.map seen).getLast?.any Seen.factory := by
    rw [List.getLast?_map]
    cases arguments.getLast? <;> rfl
  unfold Shape.ofArguments Shape.ofSeen declaresArray
  rw [hfactory, List.find?_map, Option.any_map, List.any_map, List.length_map]
  rfl

/-- Whether a call takes an array is a matter of its shape. -/
theorem Call.takesArray_eq (c : Call) : c.takesArray = c.shape.takesArray := by
  unfold Call.takesArray Shape.takesArray Call.shape
  cases c.argumentSpans <;> simp

/-- The shape of a call is that of the arguments at its node. -/
theorem map_shape_callAt? (statement : Option Span) (n : Node) :
    (callAt? statement n).map Call.shape = (argumentsAt? n).map Shape.ofArguments := by
  obtain ⟨kind, span, children⟩ := n
  by_cases hkind : kind = .call
  · subst hkind
    cases children with
    | nil => rfl
    | cons callee arguments =>
        unfold callAt? argumentsAt?
        rw [Option.map_map, Option.map_map]
        congr 1
        funext kind
        simp [Call.shape, Shape.ofArguments]
  · -- Any other node is no call site, whatever its children are.
    have hnode : (Node.mk kind span children).kind ≠ .call := hkind
    rw [callAt?_eq_none hkind, argumentsAt?_eq_none hnode]
    rfl

/-- The calls of a tree have the shapes of their arguments, in walking order. -/
theorem map_shape_callsWithin (n : Node) :
    ∀ statement, (callsWithin statement n).map Call.shape
      = (n.subtrees.filterMap argumentsAt?).map Shape.ofArguments := by
  induction n using Node.induction with
  | mk kind span children ih =>
      intro statement
      have hhere := map_shape_callAt? statement (.mk kind span children)
      rw [callsWithin_eq, Node.filterMap_subtrees, List.map_append, List.map_append,
          ← Option.toList_map, ← Option.toList_map, hhere, List.map_flatMap, List.map_flatMap]
      exact congrArg _ (List.flatMap_congr fun c hc => ih c hc _)

/-- The calls of a source have the shapes of its arguments. -/
theorem map_shape_calls (source : Source) :
    source.calls.map Call.shape = (argumentsOf source.program).map Shape.ofArguments := by
  have hshift : ∀ c : Call, (c.shift source.base).shape = c.shape := by
    intro c
    unfold Call.shape Call.shift
    simp
  unfold Source.calls argumentsOf Script.Program.nodes
  rw [callsOf_eq_flatMap, Node.subtreesAll_eq_flatMap, List.map_map, List.filterMap_flatMap,
      List.map_flatMap, List.map_flatMap, List.flatMap_def, List.flatMap_def]
  refine congrArg List.flatten (List.map_congr_left fun n _ => ?_)
  rw [← map_shape_callsWithin n none]
  exact List.map_congr_left fun c _ => hshift c

/-! ## §3. The second run. -/

/-- An array, as an injection writes it. -/
def newArrayNode : Node := .leaf (.array none) default

/-- The arguments of a call behind an injection. -/
def injectedArguments (arguments : List Node) : List Node :=
  if (Shape.ofArguments arguments).takesArray then
    arguments.dropLast ++ newArrayNode :: arguments.getLast?.toList
  else arguments

/-- The second source has the calls of the first one, each with its arguments and
its new array. -/
def Rereads (source again : Source) : Prop :=
  again.calls.map Call.shape
    = (argumentsOf source.program).map fun arguments =>
        Shape.ofArguments (injectedArguments arguments)

instance (source again : Source) : Decidable (Rereads source again) :=
  inferInstanceAs (Decidable (_ = _))

/-- The call takes an array, and has an argument in front of it that is no string. -/
def takesAnother (arguments : List Node) : Bool :=
  (Shape.ofArguments arguments).takesArray && !arguments.dropLast.all isString

/-- A call that took its array behind an argument that is no string takes another
one, and no other call does. -/
theorem takesArray_injectedArguments (arguments : List Node) :
    (Shape.ofArguments (injectedArguments arguments)).takesArray = takesAnother arguments := by
  unfold injectedArguments takesAnother
  cases htakes : (Shape.ofArguments arguments).takesArray with
  | false => rw [if_neg Bool.false_ne_true, htakes, Bool.false_and]
  | true =>
      rw [if_pos rfl, Bool.true_and]
      rcases List.eq_nil_or_concat arguments with rfl | ⟨before, last, rfl⟩
      · cases htakes
      · rw [List.concat_eq_append] at htakes ⊢
        unfold Shape.takesArray Shape.ofArguments at htakes ⊢
        simp only [Bool.and_eq_true, Bool.not_eq_true', List.any_append, Bool.or_eq_false_iff]
          at htakes
        -- The new array is no spread and makes the call longer, so only the question
        -- whether it is recognised is left.
        obtain ⟨⟨⟨hnone, hbefore, hlast⟩, -⟩, -⟩ := htakes
        have harray : declaresArray (before ++ [newArrayNode, last]) = before.all isString :=
          declaresArray_insert hnone rfl
        have hspread : (before ++ [newArrayNode, last]).any isSpread = false := by
          rw [List.any_append, List.any_cons, hbefore, hlast]
          rfl
        have hlength : 2 ≤ (before ++ [newArrayNode, last]).length := by
          rw [List.length_append]
          exact Nat.le_add_left 2 before.length
        rw [List.dropLast_concat, List.getLast?_concat, Option.toList_some, harray, hspread,
            decide_eq_true hlength, decide_eq_true (Nat.lt_of_lt_of_le Nat.zero_lt_two hlength),
            Bool.not_false, Bool.true_or,
            Bool.and_true, Bool.and_true, Bool.and_true]

/-- The number of patched calls is found in the shapes. -/
theorem length_patchedCalls (calls : List Call) :
    (patchedCalls calls).length = (calls.map Call.shape).countP Shape.takesArray := by
  unfold patchedCalls
  rw [List.countP_map, List.countP_eq_length_filter]
  congr 2
  funext c
  exact c.takesArray_eq

/-- A run patches the calls whose arguments take an array. -/
theorem length_patchedCalls_calls (source : Source) :
    (patchedCalls source.calls).length
      = (argumentsOf source.program).countP fun a => (Shape.ofArguments a).takesArray := by
  rw [length_patchedCalls, map_shape_calls, List.countP_map]
  rfl

/-- A second run patches the calls whose arguments take another array. -/
theorem length_patchedCalls_again {source again : Source} (h : Rereads source again) :
    (patchedCalls again.calls).length = (argumentsOf source.program).countP takesAnother := by
  rw [length_patchedCalls, h, List.countP_map]
  congr 1
  funext arguments
  exact takesArray_injectedArguments arguments

/-! ## §4. What the reader has to find. -/

/-- In front of the last argument of a call that takes an array there is a new one, in
which nothing is called.  The arguments of any other call are left. -/
def GainsArray (callee : Node) (inner outer : List Node) : Prop :=
  if (CallKind.ofCallee? callee).isSome ∧ (Shape.ofArguments inner).takesArray then
    ∃ array, isArray array ∧ (∀ m ∈ array.subtrees, m.kind ≠ .call)
      ∧ outer = inner.dropLast ++ array :: inner.getLast?.toList
  else outer = inner

/-- Every array is seen like the one that an injection writes. -/
theorem seen_of_isArray {n : Node} (h : isArray n = true) : seen n = seen newArrayNode := by
  obtain ⟨kind, span, children⟩ := n
  cases kind <;> first | rfl | cases h

theorem dropLast_append_getLast?_toList {α : Type} (xs : List α) :
    xs.dropLast ++ xs.getLast?.toList = xs := by
  rcases List.eq_nil_or_concat xs with rfl | ⟨before, last, rfl⟩
  · rfl
  · rw [List.concat_eq_append, List.dropLast_concat, List.getLast?_concat, Option.toList_some]

/-- Where a call gains its array, its shape is that of the injected arguments. -/
theorem GainsArray.shape {callee : Node} {arguments inner outer : List Node}
    (h : GainsArray callee inner outer) (hcallee : (CallKind.ofCallee? callee).isSome = true)
    (hinner : inner.map seen = arguments.map seen) :
    Shape.ofArguments outer = Shape.ofArguments (injectedArguments arguments) := by
  have hshape : Shape.ofArguments inner = Shape.ofArguments arguments := by
    rw [Shape.ofArguments_eq, hinner, Shape.ofArguments_eq]
  unfold GainsArray at h
  unfold injectedArguments
  rw [← hshape]
  by_cases htakes : (Shape.ofArguments inner).takesArray = true
  · rw [if_pos ⟨hcallee, htakes⟩] at h
    obtain ⟨array, harray, -, rfl⟩ := h
    rw [if_pos htakes, Shape.ofArguments_eq, Shape.ofArguments_eq]
    -- In front of the array and behind it the arguments are seen as before.
    simp only [List.map_append, List.map_cons, List.map_dropLast, ← Option.toList_map,
      ← List.getLast?_map, seen_of_isArray harray, hinner]
  · rw [if_neg fun hboth => htakes hboth.2] at h
    rw [if_neg htakes, h, hshape]

/-- So it is at the call itself, if it is a call site. -/
theorem GainsArray.shapes {callee callee' : Node} {arguments inner outer : List Node}
    (h : GainsArray callee' inner outer)
    (hcallee : CallKind.ofCallee? callee' = CallKind.ofCallee? callee)
    (hinner : inner.map seen = arguments.map seen) (span span' : Span) :
    (argumentsAt? (.mk .call span' (callee' :: outer))).toList.map Shape.ofArguments
      = (argumentsAt? (.mk .call span (callee :: arguments))).toList.map fun arguments =>
          Shape.ofArguments (injectedArguments arguments) := by
  show ((CallKind.ofCallee? callee').map fun _ => outer).toList.map _
    = ((CallKind.ofCallee? callee).map fun _ => arguments).toList.map _
  rw [hcallee]
  cases hsite : CallKind.ofCallee? callee with
  | none => rfl
  | some kind =>
      have hshape := h.shape (by rw [hcallee, hsite]; rfl) hinner
      exact congrArg (fun shape => [shape]) hshape

/-- Nothing is called in a new array, so no calls are added. -/
theorem GainsArray.flatMap {β : Type} {callee : Node} {inner outer : List Node}
    (h : GainsArray callee inner outer) {f : Node → Option β}
    (hf : ∀ n : Node, n.kind ≠ .call → f n = none) :
    (outer.flatMap fun n => n.subtrees.filterMap f)
      = inner.flatMap fun n => n.subtrees.filterMap f := by
  unfold GainsArray at h
  split at h
  · obtain ⟨array, -, hcalls, rfl⟩ := h
    have hnone : array.subtrees.filterMap f = [] :=
      List.filterMap_eq_nil_iff.mpr fun m hm => hf m (hcalls m hm)
    conv => rhs; rw [← dropLast_append_getLast?_toList inner]
    rw [List.flatMap_append, List.flatMap_append, List.flatMap_cons, hnone, List.nil_append]
  · rw [h]

/-- A tree with new arrays has the calls of the old one, each with its new array. -/
theorem shapes_of_gainsArray (n : Node) : ∀ {m : Node}, Node.Rewritten GainsArray n m →
    (m.subtrees.filterMap argumentsAt?).map Shape.ofArguments
      = (n.subtrees.filterMap argumentsAt?).map fun arguments =>
          Shape.ofArguments (injectedArguments arguments) := by
  induction n using Node.induction with
  | mk kind span children ih =>
      intro m h
      -- The parts of the node, which the induction is about.
      have hparts : ∀ {parts : List Node},
          List.Forall₂ (Node.Rewritten GainsArray) children parts →
          (parts.flatMap fun n => n.subtrees.filterMap argumentsAt?).map Shape.ofArguments
            = (children.flatMap fun n => n.subtrees.filterMap argumentsAt?).map fun arguments =>
                Shape.ofArguments (injectedArguments arguments) := by
        intro parts h
        rw [List.map_flatMap, List.map_flatMap, List.flatMap_def, List.flatMap_def]
        exact congrArg List.flatten (Script.map_eq_of_forall₂ h fun n hn _ hnm => ih n hn hnm)
      rw [Node.filterMap_subtrees, Node.filterMap_subtrees, List.map_append, List.map_append]
      cases h with
      | @node _ kind' _ parts' _ span' hcall hkind h =>
          have hcall' : (Node.mk kind' span' parts').kind ≠ .call := by
            intro hkind'
            rw [show kind' = .call from hkind'] at hkind
            exact hcall ((Script.Kind.bare_eq_iff (by decide)).mp hkind.symm)
          have hnode : (Node.mk kind span children).kind ≠ .call := hcall
          rw [argumentsAt?_eq_none hcall', argumentsAt?_eq_none hnode]
          exact congrArg _ (hparts h)
      | @call _ _ arguments inner _ _ span' hcallee h houter =>
          have hseen : inner.map seen = arguments.map seen :=
            Script.map_eq_of_forall₂ h fun _ _ _ => seen_of_rewritten
          have hhere := houter.shapes (ofCallee?_of_rewritten hcallee) hseen span span'
          have hafter := hparts (.cons hcallee h)
          rw [List.flatMap_cons, ← houter.flatMap fun _ => argumentsAt?_eq_none] at hafter
          exact congr (congrArg HAppend.hAppend hhere) hafter

/-- **What is asked of the reader.**  If it finds the old trees, with new arrays written
into their calls, then it finds the calls with their new arrays. -/
theorem rereads_of_gainsArray {source again : Source}
    (h : List.Forall₂ (Node.Rewritten GainsArray) source.program.items again.program.items) :
    Rereads source again := by
  unfold Rereads argumentsOf Script.Program.nodes
  rw [map_shape_calls]
  unfold argumentsOf Script.Program.nodes
  rw [Node.subtreesAll_eq_flatMap, Node.subtreesAll_eq_flatMap, List.filterMap_flatMap,
      List.filterMap_flatMap, List.map_flatMap, List.map_flatMap, List.flatMap_def,
      List.flatMap_def]
  exact congrArg List.flatten
    (Script.map_eq_of_forall₂ h fun n _ m hnm => shapes_of_gainsArray n hnm)

/-! ## §5. Twice. -/

/-- A run that patches no call changes nothing. -/
theorem inject_of_nothing_patched {text : String} {source : Source}
    (hread : Source.read text.toList = .ok source) (hnone : patchedCalls source.calls = [])
    (settings : Settings) :
    inject text settings
      = .ok ⟨text, 0, (source.calls.filter Call.isRefused).map Call.skipped⟩ := by
  -- Nothing is written at any point.
  have hsilent : ∀ n, arraysAt settings source.calls n = [] := by
    intro n
    unfold arraysAt
    rw [hnone]
    rfl
  have htext : String.ofList (Text.weave (arraysAt settings source.calls) (fun _ => []) 0
      text.toList) = text := by
    rw [funext hsilent, Text.weave_silent, String.ofList_toList]
  rw [inject_ok_iff_of_read hread, patchCalls_eq_ok_iff, fits_batch_iff, hnone, htext]
  refine ⟨⟨fun c hc => absurd hc List.not_mem_nil, List.Pairwise.nil⟩, rfl, rfl, rfl⟩

/-- **The reader does what is asked of it where no call takes an array**, since what it
reads then is the old text. -/
theorem rereads_of_nothing_patched {text : String} {settings : Settings} {first : Outcome}
    {source again : Source} (hread : Source.read text.toList = .ok source)
    (hnone : patchedCalls source.calls = []) (hfirst : inject text settings = .ok first)
    (hagain : Source.read first.source.toList = .ok again) : Rereads source again := by
  -- The first run has left the text as it was, so the reader finds the same source.
  rw [inject_of_nothing_patched hread hnone] at hfirst
  obtain rfl := Except.ok.inj hfirst
  obtain rfl : source = again := Except.ok.inj (hread.symm.trans hagain)
  have hcount := length_patchedCalls_calls source
  rw [hnone, List.length_nil, eq_comm, List.countP_eq_zero] at hcount
  -- Without calls that take an array, the injected arguments are the arguments.
  unfold Rereads
  rw [map_shape_calls]
  refine List.map_congr_left fun arguments harguments => ?_
  unfold injectedArguments
  rw [if_neg (hcount arguments harguments)]

/-- **When injecting twice is injecting once.**  A run that goes through patches the
calls whose arguments take an array.  Take a second run on its result, in which the
calls are read with their new arrays.  It patches each call that took its array
behind an argument that is no string.  So it leaves the text as it is, and patches
nothing, if and only if there are only strings in front of every new array. -/
theorem inject_inject_iff {text : String} {settings : Settings} {first : Outcome}
    (hfirst : inject text settings = .ok first) :
    ∃ source, Source.read text.toList = .ok source
      ∧ first.patchedCalls
        = ((argumentsOf source.program).countP fun a => (Shape.ofArguments a).takesArray)
      ∧ ∀ again, Source.read first.source.toList = .ok again → Rereads source again →
        (∀ second, inject first.source settings = .ok second →
          second.patchedCalls = (argumentsOf source.program).countP takesAnother)
        ∧ ((∃ skipped, inject first.source settings = .ok ⟨first.source, 0, skipped⟩)
          ↔ ∀ arguments ∈ argumentsOf source.program,
              (Shape.ofArguments arguments).takesArray → arguments.dropLast.all isString) := by
  obtain ⟨source, hread, hpatch⟩ := (inject_eq_ok_iff_patchCalls text settings first).mp hfirst
  have hpatched := ((patchCalls_eq_ok_iff text settings source.calls first).mp hpatch).2.2.1
  rw [length_patchedCalls_calls] at hpatched
  refine ⟨source, hread, hpatched, fun again hagain hreads => ?_⟩
  -- What the second run patches is counted by the arguments of the first source.
  have hlength := length_patchedCalls_again hreads
  have hcount : ∀ second, inject first.source settings = .ok second →
      second.patchedCalls = (argumentsOf source.program).countP takesAnother := by
    intro second hsecond
    rw [inject_ok_iff_of_read hagain, patchCalls_eq_ok_iff] at hsecond
    rw [hsecond.2.2.1, hlength]
  have hstrings : (argumentsOf source.program).countP takesAnother = 0
      ↔ ∀ arguments ∈ argumentsOf source.program,
          (Shape.ofArguments arguments).takesArray → arguments.dropLast.all isString := by
    rw [List.countP_eq_zero]
    refine forall₂_congr fun arguments _ => ?_
    unfold takesAnother
    cases (Shape.ofArguments arguments).takesArray <;> simp
  refine ⟨hcount, ?_⟩
  rw [← hstrings]
  constructor
  · rintro ⟨skipped, hsecond⟩
    exact (hcount _ hsecond).symm
  · intro hzero
    rw [hzero, List.length_eq_zero_iff] at hlength
    exact ⟨_, inject_of_nothing_patched hagain hlength settings⟩

/-- A name in front of the array: the second run leaves the text as it is. -/
theorem inject_inject_named :
    inject "define('m', () => 1)" {} = .ok ⟨"define('m', [],() => 1)", 1, []⟩
    ∧ ∃ skipped, inject "define('m', [],() => 1)" {}
      = .ok ⟨"define('m', [],() => 1)", 0, skipped⟩ := by
  have hfirst : inject "define('m', () => 1)" {} = .ok ⟨"define('m', [],() => 1)", 1, []⟩ :=
    eq_ok_of_toOption (by decide +kernel)
  have hcheck : (match Source.read "define('m', () => 1)".toList,
        Source.read "define('m', [],() => 1)".toList with
      | .ok source, .ok again => decide (Rereads source again
          ∧ ∀ arguments ∈ argumentsOf source.program,
            (Shape.ofArguments arguments).takesArray → arguments.dropLast.all isString)
      | _, _ => false) = true := by decide +kernel
  obtain ⟨source, hread, -, hsecond⟩ := inject_inject_iff hfirst
  rw [hread] at hcheck
  cases hagain : Source.read "define('m', [],() => 1)".toList with
  | error _ =>
      rw [hagain] at hcheck
      cases hcheck
  | ok again =>
      rw [hagain] at hcheck
      obtain ⟨hreads, hstrings⟩ := of_decide_eq_true hcheck
      exact ⟨hfirst, (hsecond again hagain hreads).2.mpr hstrings⟩

/-- **An identifier in front of the array**: the second run inserts another one. -/
theorem inject_inject_identifier :
    inject "define(a, function(){})" {} = .ok ⟨"define(a, [],function(){})", 1, []⟩
    ∧ inject "define(a, [],function(){})" {} = .ok ⟨"define(a, [],[],function(){})", 1, []⟩ :=
  ⟨eq_ok_of_toOption (by decide +kernel), eq_ok_of_toOption (by decide +kernel)⟩

end AmdKit.Amd
