/-
  AmdKit.Proofs.ReadExpressions
  ────────────────────────────────
  **READING EXPRESSIONS.**

  Every expression is read from the left to the right: what is read first is the
  first part of what is read in the end.  What has been read already when that turns
  out, the callee of a call or the left operand of an operator, is placed where it
  stands, and what follows behind it.
-/
import AmdKit.Proofs.ReadFunctions

namespace AmdKit.Script

open Text (Span)

variable {lo mid : Progress} {rules : Rules} {n : Node} {l : Lexeme}

/-! ## §1. Arguments and arrow functions. -/

/-- A spread begins at its dots, and any other argument with its expression. -/
theorem spreadable_opens (h : rules.Placed) : YieldsAt l lo (spreadable rules) l.Opens := by
  have := YieldsTree.moves (h.value (show Rule.assignment.isPattern = false from rfl))
  unfold spreadable
  refine .positionOf fun start hstart => .ifEat (fun hdots => ?_) fun _ => h.opens
  have hfinish : l.token ≠ .finish := by rw [hdots]; nofun
  refine .skip fun inner => .pure ⟨hfinish, by rw [hdots]; rfl, fun _ => hstart hfinish⟩

/-- **An argument stands in the text where its range begins:** what is read from there on
is the argument. -/
theorem argument_placed (h : rules.Placed) : Yields lo (withIn true (spreadable rules))
    fun n hi => n.Placed Kind.isValue lo hi ∧ (hi.noted = false → n.StandsIn hi.text) := by
  refine .withIn fun s hs => ?_
  obtain ⟨depth, rfl⟩ := h.depth
  have hread := (spreadable_placed h s hs).and (spreadable_opens h s hs rfl)
    (fun n mid hi hle hn => hn.mono (le_refl lo) hle) fun n mid hi hle hn => hn.mono hle
  cases hrun : spreadable (grammarTo depth) s with
  | error fault t =>
      rw [hrun] at hread
      exact hread
  | ok n t =>
      rw [hrun] at hread
      obtain ⟨hi, hle, ht, hplaced, hopens⟩ := hread
      refine ⟨hi, hle, ht, hplaced, fun hclean => ?_⟩
      -- The text is cut where the input of the state begins, at the token that is read first.
      obtain ⟨front, htext, hoffset⟩ := hs.start
      have hstart : s.start.offset = n.span.start :=
        (congrArg Span.start hs.span).symm.trans (hopens.start hclean).symm
      rw [← Progress.text_eq hle]
      exact ⟨front, s.start.chars, htext, hoffset.symm.trans hstart, depth, s, t, rfl, hstart,
        hs.lexed hopens.notFinish hopens.notBad, hrun⟩

/-- The arguments of a call are placed, and stand in the text. -/
structure ArgumentsPlaced (lo : Progress) (ns : List Node) (hi : Progress) : Prop where
  placed : AllPlaced Kind.isValue lo hi ns
  standing : hi.noted = false → ∀ n ∈ ns, n.StandsIn hi.text

/-- There may be no arguments. -/
theorem ArgumentsPlaced.nil : ArgumentsPlaced lo [] lo :=
  ⟨.nil (le_refl lo), fun _ _ hn => absurd hn List.not_mem_nil⟩

/-- An argument behind others, of which is also known that it stands in the text. -/
theorem ArgumentsPlaced.concat {hi : Progress} {ns : List Node} (h : ArgumentsPlaced lo ns mid)
    (hn : n.Placed Kind.isValue mid hi) (hstanding : hi.noted = false → n.StandsIn hi.text) :
    ArgumentsPlaced lo (ns ++ [n]) hi := by
  refine ⟨h.placed.concat hn, fun hclean m hm => ?_⟩
  rcases List.mem_append.mp hm with hm | hm
  · rw [← Progress.text_eq hn.le]
    exact h.standing (Progress.clean_of_le hn.le hclean) m hm
  · rw [List.mem_singleton.mp hm]
    exact hstanding hclean

/-- The arguments of a call are placed, and each of them stands in the text. -/
theorem arguments_placed (h : rules.Placed) {isImport : Bool} :
    Yields lo (arguments rules isImport) (ArgumentsPlaced lo) := by
  unfold arguments
  refine .skip fun _ => .bind (Q := fun r hi => ArgumentsPlaced lo r.1 hi) (.iterate .nil
    fun (items, first) mid hitems => ?_) fun (items, _) hi hitems => .skip fun _ => .pure hitems
  refine .skip fun ends => .skip fun closes => .ite (fun _ => .pure hitems) fun _ => ?_
  have hitem : Yields mid (do
      let item ← withIn true (spreadable rules)
      return ((items ++ [item], false), false)) fun r hi => ArgumentsPlaced lo r.1.1 hi :=
    .bind (argument_placed h) fun item hi hitem => .pure (hitems.concat hitem.1 hitem.2)
  refine .ite (fun _ => .skip fun _ => .skip fun closes => ?_) fun _ => hitem
  exact .ite (fun _ => .check fun _ => .pure hitems) fun _ => hitem

/-- An arrow function has its parameters, which have been read already, in front of its
body. -/
theorem arrowFrom_placed (h : rules.Placed) {start : Nat} {isAsync : Bool} {parameters : List Node}
    (hparameters : AllPlaced Kind.isPart lo mid parameters) :
    Yields mid (arrowFrom rules start isAsync parameters) fun n hi =>
      n.Placed Kind.isValue lo hi := by
  unfold arrowFrom
  refine .bind (arrowBody_placed h) fun body hi hbody => .close fun span => ?_
  exact .ofLast rfl rfl rfl hparameters hbody.unbound

instance : Keeps atOperator := by
  unfold atOperator
  refine .bind fun t => ?_
  split <;> infer_instance

instance : Keeps operator? := by
  unfold operator?
  refine .bind fun t => ?_
  split
  case h_3 => exact .bind fun c => by split <;> infer_instance
  all_goals infer_instance

instance (op : Operator) (left right : Node) : Moves (checkNullish op left right) := by
  unfold checkNullish
  infer_instance

/-- What follows a left operand is taken into trees that begin with it, by induction on
the fuel. -/
theorem binaryFrom_placed (h : rules.Placed) {fuel least : Nat} {left : Node}
    (hleft : left.Placed Kind.isValue lo mid) :
    Yields mid (binaryFrom rules fuel left least) fun n hi => n.Placed Kind.isValue lo hi := by
  -- The induction is on the fuel; a longer operand is the left one of the next step.
  induction fuel generalizing lo mid left least with
  | zero => exact .skip fun _ => .throw
  | succ fuel ih =>
      refine .skip fun found => ?_
      split
      · exact .pure hleft
      · refine .ite (fun _ => .pure hleft) fun _ => ?_
        refine .check fun _ => .skip fun _ => .bind (h.value rfl) fun operand top hoperand => ?_
        refine .bind (ih hoperand) fun right hi hright => .skip fun _ => ih ?_
        exact .ofUnbound rfl rfl (.cons hleft.unbound (.singleton hright.unbound))

/-- The tokens that are left are fuel enough. -/
theorem binaryRest_placed (h : rules.Placed) {left : Node}
    (hleft : left.Placed Kind.isValue lo mid) :
    Yields mid (binaryRest rules left) fun n hi => n.Placed Kind.isValue lo hi :=
  .skip fun _ => binaryFrom_placed h hleft

/-- Items between parentheses are placed like arguments, since they may turn out to be
some. -/
theorem parenthesized_placed (h : rules.Placed) :
    Yields lo (parenthesized rules) fun r hi => ArgumentsPlaced lo r.1 hi := by
  unfold parenthesized
  refine .skip fun _ => .bind (Q := fun r hi => ArgumentsPlaced lo r.1 hi) (.iterate .nil
    fun (items, comma) mid hitems => ?_) fun (items, comma) hi hitems => .skip fun _ => .pure hitems
  refine .skip fun ends => .skip fun closes => .ite (fun _ => .pure hitems) fun _ => ?_
  refine .bind (argument_placed h) fun item hi hitem => .skip fun closes => ?_
  have hall := hitems.concat hitem.1 hitem.2
  exact .ite (fun _ => .pure hall) fun _ => .skip fun _ => .skip fun last => .skip fun ends =>
    .pure hall

/-- Expressions between parentheses become the parameters of an arrow function where an
arrow follows them. -/
theorem arrowAfter_placed (h : rules.Placed) {start : Nat} {isAsync canBeArrow : Bool}
    {items : List Node} {comma : Option Span} (hitems : AllPlaced Kind.isValue lo mid items) :
    Yields mid (arrowAfter rules start isAsync canBeArrow items comma)
      fun n hi => n.Placed Kind.isValue lo hi := by
  unfold arrowAfter
  refine .skip fun before => .check fun _ => .check fun _ => .skip fun _ => ?_
  refine .bind (Node.asParameters_placed hitems.unbound.part).low fun ns top ⟨hle, hns⟩ => ?_
  refine .bind (arrowFrom_placed h (hns.mono (le_refl lo) hle)) fun arrow hi harrow => ?_
  refine .skip fun operator => .ite (fun _ => .skip fun _ => ?_) fun _ => .pure harrow
  exact .bind (binaryRest_placed h harrow) fun whole hi hwhole => .skip fun ends =>
    .check fun _ => .pure hwhole

instance (items : List Node) : Moves (checkParenthesized items) := by
  have hpart : ∀ part : Node, Moves (match part.kind with
      | .shorthandDefault _ _ => report .assignProperty part.span.start
      | _ => (return () : Parse Unit)) := by
    intro part
    split <;> infer_instance
  unfold checkParenthesized
  infer_instance

/-- A call of `async`, or an asynchronous arrow function, after the word. -/
theorem parenOrArrow_async_placed (h : rules.Placed) {canBeArrow : Bool} {span : Span}
    (hle : lo ≤ mid) (hlow : lo.offset ≤ span.start) (hstart : span.start < mid.offset) :
    Yields mid (parenOrArrow rules canBeArrow (some span)) fun n hi =>
      n.Placed Kind.isValue lo hi := by
  unfold parenOrArrow
  refine .skip fun start => .bind (parenthesized_placed h) fun ⟨items, comma⟩ hi hitems => ?_
  have hname : (Node.leaf (.reference "async") span).Placed Kind.isValue lo mid :=
    .reference hle hlow hstart
  refine .skip fun arrow => .ite (fun _ => ?_) fun _ => .close fun whole => ?_
  · exact arrowAfter_placed h (hitems.placed.mono hle (le_refl hi))
  · exact .call (AllPlaced.cons hname hitems.placed).unbound hitems.standing

/-- An expression between parentheses, or an arrow function. -/
theorem parenOrArrow_placed (h : rules.Placed) {canBeArrow : Bool} :
    YieldsTree Kind.isValue (parenOrArrow rules canBeArrow none) := by
  intro lo
  unfold parenOrArrow
  refine .skip fun start => .bind (parenthesized_placed h) fun ⟨items, comma⟩ hi hitems => ?_
  have hplaced := hitems.placed
  refine .skip fun arrow => .ite (fun _ => arrowAfter_placed h hplaced) fun _ =>
    .skip fun whole => ?_
  dsimp only
  split
  case' h_1 => refine .skip fun _ => ?_
  all_goals
    refine .skip fun _ => ?_
    split
    · exact .fail
    · exact .pure (.ofUnbound rfl rfl hplaced.unbound)
    · exact .pure (.ofUnbound rfl rfl (.singleton (.ofUnbound rfl rfl hplaced.unbound)))

/-! ## §2. Primary expressions. -/

/-- A name, or an arrow function whose only parameter is the name. -/
theorem identifierOrArrow_placed (h : rules.Placed) {start : Nat} {canBeArrow : Bool} :
    YieldsTree Kind.isValue (identifierOrArrow rules start canBeArrow) := by
  intro lo
  unfold identifierOrArrow
  refine .skip fun t => .bind identifierReference_placed fun ⟨text, span⟩ mid hname => ?_
  have hhere := hname.reference
  -- The name may turn out to be a parameter, and then nothing uses it.
  have harrow : ∀ {isAsync name nameSpan}, Yields mid
      (arrowFrom rules start isAsync [.leaf (.binding name) nameSpan])
      fun n hi => n.Placed Kind.isValue lo hi :=
    arrowFrom_placed h (.singleton (.leaf rfl rfl hhere.le))
  refine .skip fun c => .skip fun before => .skip fun name => .ite (fun _ => ?_) fun _ => ?_
  · refine .skip fun isOf => .skip fun next => .ite (fun _ => ?_) fun _ => ?_
    · exact .ite (fun _ => .skip fun word => .skip fun _ => .pure hhere) fun _ => .pure hhere
    · exact .skip fun name => .skip fun _ => harrow
  · refine .skip fun before => .skip fun arrow => ?_
    exact .ite (fun _ => harrow) fun _ => .pure hhere

/-- A word or a mark that is an expression of its own. -/
theorem simple_placed {kind : Kind} (hkind : kind.isUpright = true) (hvalue : kind.isValue = true) :
    YieldsTree Kind.isValue (simple kind) := by
  intro lo
  exact .skip fun _ => .skip fun span => .pure (.leaf hkind hvalue (le_refl lo))

/-- A primary expression.  What it is shows the token at which it begins. -/
theorem primary_placed (h : rules.Placed) : YieldsTree Kind.isValue (primary rules) := by
  intro lo
  refine .of_at fun l => ?_
  unfold primary
  refine .keep fun start => .keep fun s => .token ?_
  -- One case for each token that an expression can begin with; what is no keyword and no mark
  -- comes last.
  split
  case h_1 => exact (simple_placed rfl rfl).at
  case h_2 | h_3 | h_4 | h_5 | h_6 => exact (simple_placed rfl rfl).at
  case h_7 => exact (simple_placed rfl rfl).at
  case h_8 => exact (plainFunction_placed h).at
  case h_9 => exact (classFrom_placed h).at
  case h_10 => exact (listLiteral_placed h).at
  case h_11 => exact (objectLiteral_placed h).at
  case h_12 htoken => exact templateLiteral_placed h htoken
  case h_13 => exact (parenOrArrow_placed h).at
  case h_14 htoken => exact regexLiteral_placed (by rw [htoken]; rfl)
  case h_15 htoken => exact regexLiteral_placed (by rw [htoken]; rfl)
  case h_16 =>
      have hname : Yields lo (do
          bump
          let _ ← wordName
          return Node.leaf .privateName (← spanFrom start)) fun n hi =>
            n.Placed Kind.isValue lo hi :=
        .skip fun _ => .skip fun _ => .close fun span => .leaf rfl rfl (le_refl lo)
      exact hname.at
  case h_17 =>
      refine .keep fun isAsync => .ite (fun _ => (asyncFunction_placed h).at) fun _ => ?_
      -- The word `async` may be a plain name, and falls through to where names are read.
      have hother : Yields lo (do
          if l.token = .word .let_ || (← atIdentifier) then
            identifierOrArrow rules start (decide (s.arrowStart = some start))
          else failHere .expressionExpected) fun n hi => n.Placed Kind.isValue lo hi :=
        .skip fun isName => .ite (fun _ => identifierOrArrow_placed h) fun _ => .failHere
      refine .ite (fun hasync => ?_) fun _ => hother.at
      have hword : l.token = .word .async_ := of_decide_eq_true (Bool.and_eq_true _ _ ▸ hasync).2
      refine .keep fun next => .ite (fun _ => ?_) fun _ => hother.at
      refine .wordRange (by rw [hword]; rfl) fun mid hle hlow hstart => ?_
      exact parenOrArrow_async_placed h hle hlow hstart

/-! ## §3. Members and calls. -/

/-- A call of what has been read already, optional or not. -/
theorem called_placed {optional : Bool} {callee : Node} {span : Span} {items : List Node}
    {hi : Progress} (hcallee : callee.Placed Kind.isValue lo mid)
    (hitems : ArgumentsPlaced mid items hi) :
    (Node.mk (if optional then .optionalCall else .call) span (callee :: items)).Placed
      Kind.isValue lo hi := by
  have hall := (AllPlaced.cons hcallee hitems.placed).unbound
  split
  · exact .ofUnbound rfl rfl hall
  · exact .call hall hitems.standing

/-- A member or a call of what has been read already. -/
theorem subscript_placed (h : rules.Placed) {base : Base} {callable : Bool}
    (hbase : base.node.Placed Kind.isValue lo mid) :
    Yields mid (subscript rules base callable) (FoundPlaced Kind.isValue lo) := by
  -- The optional members stand where the others do.
  have hmember : ∀ {optional : Bool} {span : Span} {ns : List Node} {hi : Progress},
      AllPlaced Kind.isValue mid hi ns →
      (Node.mk (if optional then .optionalMember else .member) span (base.node :: ns)).Placed
        Kind.isValue lo hi := by
    intro optional span ns hi hns
    have hall := (AllPlaced.cons hbase hns).unbound
    split <;> exact .ofUnbound rfl rfl hall
  unfold subscript
  refine .skip fun questioned => .skip fun bracket => .ite (fun _ => ?_) fun _ => ?_
  · refine .bind (expression_placed h).withIn fun key hi hkey => .skip fun _ =>
      .skip fun span => .pure ?_
    exact hmember (.singleton hkey)
  refine .skip fun paren => .ite (fun _ => ?_) fun _ => ?_
  · refine .bind (arguments_placed h) fun items hi hitems => .skip fun span => .pure ?_
    exact called_placed hbase hitems
  -- What follows a dot is all that is left, unless a template follows an expression.
  refine .ifMark (fun l hl => ?tagged) ?_
  case' tagged => refine .ite (fun _ => (Yields.stop .failHere).at) fun _ => ?_
  case' tagged => cases base
  case' tagged.parent => refine Yields.at ?_
  case tagged.value n =>
      refine .bind (templateParts_placed h hl) fun parts hi hparts => .skip fun span => .pure ?_
      exact .ofUnbound rfl rfl (AllPlaced.cons hbase hparts).unbound
  all_goals
    refine .skip fun dot => .ite (fun _ => .skip fun hash => ?_) fun _ => ?_
    · refine .ite (fun _ => .skip fun _ => ?_) fun _ => .skip fun _ => ?_
      all_goals exact .skip fun span => .pure (hmember (.nil (le_refl mid)))
    · split
      · exact .pure trivial
      · exact .failHere

/-- Members and calls that follow a base are taken into trees that begin with it. -/
theorem subscripts_placed (h : rules.Placed) {base : Base} {callable : Bool}
    (hbase : base.node.Placed Kind.isValue lo mid) :
    Yields mid (subscripts rules base callable) fun n hi => n.Placed Kind.isValue lo hi := by
  unfold subscripts
  -- The invariant of the loop: what has been read so far is placed.
  refine .bind (Q := fun base hi => base.node.Placed Kind.isValue lo hi) ?_ fun last hi hlast =>
    .pure hlast
  refine .iterate hbase fun base mid hbase => ?_
  refine .bind (subscript_placed h hbase).low fun found hi ⟨hle, hfound⟩ => ?_
  cases found with
  | none => exact .pure (hbase.mono (le_refl lo) hle)
  | some n => exact .pure hfound

/-- A word that stands in front of members and calls. -/
theorem subscripts_leaf_placed (h : rules.Placed) {base : Span → Base} {start : Nat}
    {callable : Bool} {kind : Kind} (hbase : ∀ span, (base span).node = .leaf kind span)
    (hkind : kind.isUpright = true) (hvalue : kind.isValue = true) :
    YieldsTree Kind.isValue (do subscripts rules (base (← spanFrom start)) callable) := by
  intro lo
  refine .skip fun span => subscripts_placed h ?_
  rw [hbase]
  exact .leaf hkind hvalue (le_refl lo)

/-- Behind the word `import`, a member or a call is placed. -/
theorem importExpression_placed (h : rules.Placed) {start : Nat} {callable : Bool} :
    YieldsTree Kind.isValue (importExpression rules start callable) := by
  intro lo
  unfold importExpression
  refine .skip fun dot => .ite (fun _ => ?_) fun _ => subscripts_leaf_placed h (fun _ =>
    rfl) rfl rfl
  refine .skip fun _ => .skip fun name => .check fun _ => ?_
  exact subscripts_leaf_placed h (fun _ => rfl) rfl rfl

/-- A construction has its callee in front of its arguments, and is no call itself. -/
theorem newExpression_placed (h : rules.Placed) {start : Nat} :
    YieldsTree Kind.isValue (newExpression rules start) := by
  intro lo
  unfold newExpression
  refine .skip fun dot => .ite (fun _ => .skip fun target => .check fun _ => ?_) fun _ => ?_
  · exact .skip fun c => .check fun _ => subscripts_leaf_placed h (fun _ => rfl) rfl rfl
  refine .bind (h.value rfl) fun callee mid hcallee => .check fun _ => ?_
  refine .skip fun paren => .ite (fun _ => ?_) fun _ => ?_
  · refine .bind (arguments_placed h) fun items hi hitems => .skip fun span =>
      subscripts_placed h ?_
    exact .ofUnbound rfl rfl (AllPlaced.cons hcallee hitems.placed).unbound
  · exact .close fun span => .ofUnbound rfl rfl (.singleton hcallee.unbound)

/-- What may stand behind `new` is placed. -/
theorem memberExpression_placed (h : rules.Placed) :
    YieldsTree Kind.isValue (memberExpression rules) := by
  intro lo
  unfold memberExpression
  refine .skip fun start => .skip fun isNew => .ite (fun _ => newExpression_placed h) fun _ => ?_
  refine .skip fun isSuper => .ite (fun _ => ?_) fun _ => ?_
  · exact subscripts_leaf_placed h (fun _ => rfl) rfl rfl
  refine .skip fun isImport => .ite (fun _ => importExpression_placed h) fun _ => ?_
  refine .bind (primary_placed h) fun base hi hbase => ?_
  exact .ite (fun _ => .pure hbase) fun _ => subscripts_placed h hbase

/-- A primary expression with its members and calls is placed. -/
theorem leftHandExpression_placed (h : rules.Placed) :
    YieldsTree Kind.isValue (leftHandExpression rules) := by
  intro lo
  unfold leftHandExpression
  refine .skip fun start => .skip fun isSuper => .ite (fun _ => ?_) fun _ => ?_
  · exact subscripts_leaf_placed h (fun _ => rfl) rfl rfl
  refine .skip fun isImport => .ite (fun _ => importExpression_placed h) fun _ => ?_
  refine .bind (memberExpression_placed h) fun callee mid hcallee => ?_
  refine .ite (fun _ => .pure hcallee) fun _ => .skip fun paren => .ite (fun _ => ?_) fun _ =>
    .pure hcallee
  exact .bind (arguments_placed h) fun items hi hitems => .skip fun span =>
    subscripts_placed h (called_placed hcallee hitems)

/-! ## §4. Operators. -/

/-- An `await`, or the name. -/
theorem awaitExpression_placed (h : rules.Placed) (hl : l.token = .word .await_) :
    YieldsAt l lo (awaitExpression rules) fun n hi => n.Placed Kind.isValue lo hi := by
  unfold awaitExpression
  refine .position (by rw [hl]; nofun) (.word (by rw [hl]; rfl) fun mid hle hlow hstart => ?_)
  refine .skip fun word => .skip fun star => .check fun _ => .skip fun c => .skip fun t => ?_
  dsimp only
  split
  -- Outside of asynchronous functions the word is a name if nothing follows it.
  all_goals
    refine .skip fun alone => .ite (fun _ => ?_) fun _ => ?_
    · refine .check fun _ => .spanFrom fun stop => .pure ?_
      exact .reference hle hlow hstart
    · refine .check fun _ => .check fun _ => .check fun _ => ?_
      refine .bind (h.value rfl) fun operand hi hoperand => .close fun span => ?_
      exact .ofUnbound rfl rfl (.singleton (hoperand.unbound.mono hle (le_refl hi)))

instance : Keeps atUnaryOperator := by
  unfold atUnaryOperator
  refine .bind fun t => ?_
  split <;> infer_instance

instance : Keeps atUpdateOperator := by
  unfold atUpdateOperator
  refine .bind fun t => ?_
  split <;> infer_instance

/-- An operand that can not be read leaves a node that holds nothing. -/
theorem operandOrInvalid_placed (h : rules.Placed) :
    YieldsTree Kind.isValue (operandOrInvalid rules) := by
  intro lo
  unfold operandOrInvalid
  refine .skip fun start => .tryCatch (h.value rfl) fun fault => .skip fun _ => ?_
  exact .pure (.leaf rfl rfl (le_refl lo))

/-- An operator has its operand behind it, and an update may have it in front. -/
theorem unaryExpression_placed (h : rules.Placed) :
    YieldsTree Kind.isValue (unaryExpression rules) := by
  intro lo
  have hnode : ∀ {kind : Kind} {span : Span} {operand : Node} {hi : Progress},
      kind.isUpright = true →
      kind.isValue = true → operand.Placed Kind.isValue lo hi →
      (Node.mk kind span [operand]).Placed Kind.isValue lo hi := fun hkind hvalue hoperand =>
    .ofUnbound hkind hvalue (.singleton hoperand.unbound)
  unfold unaryExpression
  refine .skip fun start => .skip fun updates => .ite (fun _ => .skip fun _ => ?_) fun _ => ?_
  · exact .bind (h.value rfl) fun operand hi hoperand => .skip fun _ =>
      .pure (hnode rfl rfl hoperand)
  refine .skip fun isUnary => .ite (fun _ => .skip fun isDelete => .skip fun _ => ?_) fun _ => ?_
  · refine .bind (operandOrInvalid_placed h) fun operand hi hoperand => ?_
    split
    · exact .check fun _ => .pure (hnode rfl rfl hoperand)
    · exact .pure (hnode rfl rfl hoperand)
  refine .ifWord (fun l hl => awaitExpression_placed h hl) ?_
  refine .bind (leftHandExpression_placed h) fun operand hi hoperand => .skip fun before => ?_
  refine .ite (fun _ => .pure hoperand) fun _ => .skip fun updates => .ite (fun _ =>
    ?_) fun _ => .pure hoperand
  exact .skip fun _ => .skip fun _ => .close fun span => hnode rfl rfl hoperand

/-- So are operands with the operators between them. -/
theorem binaryExpression_placed (h : rules.Placed) :
    YieldsTree Kind.isValue (binaryExpression rules) := by
  intro lo
  unfold binaryExpression
  refine .bind (.tryCatch (h.value rfl) fun fault => .skip fun t => .skip fun found =>
    ?_) fun left hi hleft => ?_
  · split
    · exact .throw
    · exact .skip fun _ => .skip fun start => .skip fun stop =>
        .pure (.leaf rfl rfl (le_refl lo))
  · exact .ite (fun _ => .pure hleft) fun _ => binaryRest_placed h hleft

/-- A condition has its two values behind it. -/
theorem conditionalExpression_placed (h : rules.Placed) :
    YieldsTree Kind.isValue (conditionalExpression rules) := by
  intro lo
  unfold conditionalExpression
  refine .skip fun start => .bind (binaryExpression_placed h) fun test mid htest => ?_
  refine .ite (fun _ => .pure htest) fun _ => .skip fun question => .ite (fun _ => ?_) fun _ =>
    .pure htest
  refine .bind (h.value rfl).withIn fun yes top hyes => .skip fun _ => ?_
  refine .bind (h.value rfl) fun no hi hno => .pure ?_
  exact .ofUnbound rfl rfl (.cons htest.unbound (.cons hyes.unbound (.singleton hno.unbound)))

/-! ## §5. Assignments. -/

/-- A `yield` has its value behind it, if it has one. -/
theorem yieldExpression_placed (h : rules.Placed) :
    YieldsTree Kind.isValue (yieldExpression rules) := by
  intro lo
  unfold yieldExpression
  refine .skip fun start => .skip fun _ => .skip fun c => ?_
  refine .ite (fun _ => .skip fun word => .stop .fail) fun _ => ?_
  refine .skip fun delegates => .skip fun ends => .skip fun t => .ite (fun _ => ?_) fun _ => ?_
  · exact .close fun span => .leaf rfl rfl (le_refl lo)
  · refine .skip fun star => .bind (h.value rfl) fun value hi hvalue => .close fun span => ?_
    exact .ofUnbound rfl rfl (.singleton hvalue.unbound)

/-- The left side of an assignment has been read as an expression, and is recast as a
target. -/
theorem assignmentRest_placed (h : rules.Placed) {start : Nat} {left : Node}
    (hleft : left.Placed Kind.isValue lo mid) :
    Yields mid (assignmentRest rules start left) fun n hi => n.Placed Kind.isValue lo hi := by
  have hnode : ∀ {simple : Bool} {target : Node} {top : Progress},
      target.Recasts lo mid left → mid ≤ top → Yields top (do
        bump
        let value ← rules .assignment
        return Node.mk (.assignment simple) (← spanFrom start) [target, value])
        fun n hi => n.Placed Kind.isValue lo hi := by
    intro simple target top htarget hle
    refine .skip fun _ => .bind (h.value rfl) fun value hi hvalue => .close fun span => ?_
    have hplaced := htarget.placed.mono (le_refl lo) hle
    exact .ofFirst rfl rfl rfl hplaced (.singleton hvalue.unbound)
  unfold assignmentRest
  refine .skip fun t => ?_
  split
  · exact .bind (Node.asAssigned_recasts hleft).low fun target top ⟨hle, htarget⟩ =>
      hnode htarget hle
  · exact .bind (Node.asUpdated_recasts hleft).low fun target top ⟨hle, htarget⟩ =>
      hnode htarget hle
  · exact .pure hleft

/-- Every expression without a comma at its outside is placed. -/
theorem assignmentExpression_placed (h : rules.Placed) :
    YieldsTree Kind.isValue (assignmentExpression rules) := by
  intro lo
  unfold assignmentExpression
  refine .skip fun c => .skip fun isYield => .ite (fun _ => yieldExpression_placed h) fun _ => ?_
  refine .skip fun first => .skip fun start => .modify (fun _ =>
    ⟨rfl, rfl, rfl, rfl, rfl, id⟩) fun _ => ?_
  refine .bind (conditionalExpression_placed h) fun left hi hleft => ?_
  split
  case h_6 => exact assignmentRest_placed h hleft
  all_goals exact .pure hleft

end AmdKit.Script
