/-
  AmdKit.Proofs.ReadStatements
  ────────────────────────────────
  **READING STATEMENTS AND SCRIPTS.**

  A statement is a node around its form.  The body of a `do` loop is read in front of
  its condition, and everything else in the order of its tree.  So a script that is
  read is formed:

      every rule reads placed trees, if the rules inside of it do
      so it does at every depth
      and the items of a script are placed one after the other
-/
import AmdKit.Proofs.FirstTokens

namespace AmdKit.Script

open Text (Span)

variable {lo mid : Progress} {rules : Rules} {n : Node} {l : Lexeme}

/-! ## §1. Variables. -/

instance : Keeps atLet := by unfold atLet; infer_instance

/-- A variable and, behind it, the value that it starts with. -/
theorem declarator_placed (h : rules.Placed) {inFor : Bool} {kind : VariableKind} :
    YieldsTree Kind.isValue (declarator rules inFor kind) := by
  intro lo
  unfold declarator
  refine .skip fun start => .check fun _ => .bind h.pattern fun name mid hname => ?_
  have hbare : ∀ span, (Node.mk .declarator span [name]).Placed Kind.isValue lo mid := fun span =>
    .ofFirst rfl rfl rfl hname (.nil (le_refl mid))
  refine .skip fun isIn => .skip fun isOf => .ite (fun _ => .close hbare) fun _ => ?_
  refine .skip fun found => .ite (fun _ => ?_) fun _ => ?_
  · refine .bind (h.value rfl) fun value top hvalue => .bind (Node.verify_placed hvalue) ?_
    exact fun value hi hvalue => .close fun span =>
      .ofFirst rfl rfl rfl hname (.singleton hvalue.unbound)
  · exact .ite (fun _ => .skip fun _ => .close hbare) fun _ => .check fun _ => .close hbare

/-- The variables of a declaration are placed one after the other. -/
theorem declarators_placed (h : rules.Placed) {inFor : Bool} {kind : VariableKind} {word : Span} :
    YieldsTrees Kind.isValue (declarators rules inFor kind word) := by
  intro lo
  unfold declarators
  refine .iterate (.nil (le_refl lo)) fun items mid hitems => ?_
  refine .skip fun ends => .skip fun semicolon => .ite (fun _ => ?_) fun _ => ?_
  · exact .skip fun last => .skip fun _ => .pure hitems
  refine .bind (Q := fun n hi => n.Placed Kind.isValue mid hi) ?_ fun next hi hnext => ?_
  · exact .ite (fun _ => (declarator_placed h).withIn) fun _ => declarator_placed h
  · exact .skip fun comma => .pure (hitems.concat hnext)

/-- Looking for the end of a statement reads on and leaves no tree behind. -/
theorem skipToSemicolon_moves (h : rules.Placed) : Moves (skipToSemicolon rules) := by
  have hexpression := YieldsTree.moves (expression_placed h)
  unfold skipToSemicolon
  refine .bind fun _ => .bind fun _ => @Moves.bind _ _ _ _ (.many (.bind fun ends =>
    ?_)) fun _ => inferInstance
  split
  · infer_instance
  · refine .bind fun _ => .bind fun t => ?_
    split <;> infer_instance

/-- A declaration of variables is placed, up to the end of the statement. -/
theorem declaration_placed (h : rules.Placed) {inFor : Bool} :
    YieldsTree Kind.isValue (declaration rules inFor) := by
  intro lo
  have := skipToSemicolon_moves h
  unfold declaration
  refine .skip fun start => .skip fun t => .skip fun _ => .skip fun word => ?_
  refine .bind (declarators_placed h) fun items hi hitems => ?_
  have hdeclaration : ∀ kind span,
      (Node.mk (.declaration kind) span items).Placed Kind.isValue lo hi :=
    fun kind span => .ofUnbound rfl rfl hitems.unbound
  refine .ite (fun _ => .skip fun ends => .check fun _ => ?_) fun _ => ?_
  all_goals exact .close fun span => hdeclaration _ span

/-! ## §2. Conditions and loops. -/

/-- A condition is an expression between parentheses. -/
theorem condition_placed (h : rules.Placed) : YieldsTree Kind.isValue (condition rules) := by
  intro lo
  exact .skip fun _ => .bind (expression_placed h).withIn fun test hi htest => .skip fun _ =>
    .pure htest

theorem loopBody_placed (h : rules.Placed) : YieldsTree Kind.isValue (loopBody rules) :=
  .within (h.value rfl)

/-- A condition, what is done if it holds, and what is done if it does not. -/
theorem conditional_placed (h : rules.Placed) : YieldsTree Kind.isValue (conditional rules) := by
  intro lo
  unfold conditional
  refine .skip fun start => .skip fun _ => .bind (condition_placed h) fun test mid htest => ?_
  refine .bind (h.value rfl) fun yes top hyes => .skip fun found => ?_
  refine .ifFound (h.value rfl) fun no hi hno => .close fun span => ?_
  exact .ofUnbound rfl rfl (AllPlaced.cons htest (.cons hyes hno)).unbound

/-- A `while` loop has its condition in front of its body. -/
theorem whileLoop_placed (h : rules.Placed) : YieldsTree Kind.isValue (whileLoop rules) := by
  intro lo
  unfold whileLoop
  refine .skip fun start => .skip fun _ => .bind (condition_placed h) fun test mid htest => ?_
  refine .bind (loopBody_placed h) fun body hi hbody => .close fun span => ?_
  exact .ofUnbound rfl rfl (.cons htest.unbound (.singleton hbody.unbound))

/-- A `do` loop has its body in front of its condition, against the order of its parts. -/
theorem doLoop_placed (h : rules.Placed) : YieldsTree Kind.isValue (doLoop rules) := by
  intro lo
  unfold doLoop
  refine .skip fun start => .skip fun _ => .bind (loopBody_placed h) fun body mid hbody => ?_
  refine .skip fun _ => .bind (condition_placed h) fun test hi htest => .skip fun _ =>
    .close fun span => ?_
  exact .doWhile hbody.unbound htest.unbound

/-! ## §3. The head of a `for`. -/

/-- The head of a loop: its first part may be a pattern if it walks through values. -/
def HeadPlaced (lo : Progress) (head : Kind × List Node) (hi : Progress) : Prop :=
  (head.1 = .forLoop ∧ AllPlaced Kind.isUnbound lo hi head.2)
    ∨ ((head.1 = .forIn ∨ head.1 = .forOf) ∧ ∃ target value mid, head.2 = [target, value]
      ∧ target.Placed Kind.isPart lo mid ∧ value.Placed Kind.isUnbound mid hi)

instance : Moves exactSemicolon := by unfold exactSemicolon; infer_instance

/-- A head with two semicolons: what comes in front of the first of them has been read. -/
theorem stepHead_placed (h : rules.Placed) {first : List Node}
    (hfirst : AllPlaced Kind.isValue lo mid first) :
    Yields mid (stepHead rules first) (HeadPlaced lo) := by
  have hend : ∀ {top test}, AllPlaced Kind.isValue mid top test → Yields top (do
      let step ← if ← atMark .rightParen then pure [] else pure [← withIn true (expression rules)]
      return (.forLoop, first ++ test ++ step)) (HeadPlaced lo) := by
    intro top test htest
    refine .skip fun closes => .unlessFound (expression_placed h).withIn fun step hi hstep => ?_
    exact .pure (Or.inl ⟨rfl, ((hfirst.append htest).append hstep).unbound⟩)
  unfold stepHead
  refine .skip fun semicolon => .ite (fun _ => .ofPure (hend (.nil (le_refl mid)))) fun _ => ?_
  exact .bind (expression_placed h).withIn fun test top htest => .skip fun _ =>
    .ofPure (hend (.singleton htest))

/-- A head over keys or values: the target in front of `in` or `of` has been read. -/
theorem walkHead_placed (h : rules.Placed) {target : Node}
    (htarget : target.Placed Kind.isPart lo mid) :
    Yields mid (walkHead rules target) (HeadPlaced lo) := by
  unfold walkHead
  refine .skip fun isOf => .skip fun _ => .ite (fun _ => ?_) fun _ => ?_
  · refine .bind (h.value rfl).withIn fun value hi hvalue => .pure ?_
    exact Or.inr ⟨Or.inr rfl, target, value, mid, rfl, htarget, hvalue.unbound⟩
  · refine .bind (expression_placed h).withIn fun value hi hvalue => .pure ?_
    exact Or.inr ⟨Or.inl rfl, target, value, mid, rfl, htarget, hvalue.unbound⟩

instance : Keeps atWalk := by unfold atWalk; infer_instance

instance (declarators : List Node) : Moves (checkLoopVariables declarators) := by
  unfold checkLoopVariables
  split <;> infer_instance

/-- The head of a `for` loop is one or the other, which only shows behind its first part.
-/
theorem forHead_placed (h : rules.Placed) : Yields lo (forHead rules) (HeadPlaced lo) := by
  unfold forHead
  refine .skip fun isConst => .skip fun isVar => .skip fun isLet => .ite (fun _ => ?_) fun _ => ?_
  · refine .bind (declaration_placed h) fun declared hi hdeclared => .skip fun walks => ?_
    refine .ite (fun _ => .skip fun _ => ?_) fun _ => .skip fun _ => ?_
    · exact walkHead_placed h hdeclared.unbound.part
    · exact stepHead_placed h (.singleton hdeclared)
  refine .skip fun semicolon => .ite (fun _ =>
    stepHead_placed h (.nil (le_refl lo))) fun _ => ?_
  refine .bind (expression_placed h).withIn fun first mid hfirst => .skip fun walks => ?_
  refine .ite (fun _ => ?_) fun _ => .skip fun _ => ?_
  · have hpart := hfirst.unbound.part
    refine .bind (Node.asLoopTarget_recasts hpart).low fun target hi ⟨hle, htarget⟩ => ?_
    exact walkHead_placed h (htarget.placed.mono (le_refl lo) hle)
  · exact .bind (Node.verify_placed hfirst) fun first hi hfirst =>
      stepHead_placed h (.singleton hfirst)

/-- A `for` loop has the parts of its head in front of its body. -/
theorem forLoop_placed (h : rules.Placed) : YieldsTree Kind.isValue (forLoop rules) := by
  intro lo
  unfold forLoop
  refine .skip fun start => .skip fun _ => .skip fun awaited => .skip fun isAwait =>
    .skip fun _ => ?_
  refine .bind (forHead_placed h).within fun ⟨kind, parts⟩ mid hhead => .skip fun _ => ?_
  refine .bind (loopBody_placed h) fun body hi hbody => .check fun _ => .close fun span => ?_
  -- Only the head of a loop over values has a part that may be a pattern.
  rcases hhead with ⟨hkind, hparts⟩ | ⟨hkind, target, value, top, hparts, htarget, hvalue⟩
  · obtain rfl : kind = .forLoop := hkind
    exact .ofUnbound rfl rfl (hparts.concat hbody.unbound)
  · obtain rfl : parts = [target, value] := hparts
    have hrest := AllPlaced.cons hvalue (.singleton hbody.unbound)
    rcases hkind with hkind | hkind
    · obtain rfl : kind = .forIn := hkind
      exact .ofFirst rfl rfl rfl htarget hrest
    · obtain rfl : kind = .forOf := hkind
      exact .ofFirst rfl rfl rfl htarget hrest

/-! ## §4. Jumps and clauses. -/

instance : Moves label := by unfold label; infer_instance

/-- A jump to a label names the label, which is no name that is used. -/
theorem jump_placed {isBreak : Bool} : YieldsTree Kind.isValue (jump isBreak) := by
  intro lo
  unfold jump
  refine .skip fun start => .skip fun _ => .skip fun ends => ?_
  refine .ite (fun _ => .ofPure ?_) fun _ => .skip fun text => .skip fun _ => .ofPure ?_
  all_goals
    refine .skip fun c => .skip fun s => .ite (fun _ => ?_) fun _ => ?_
    all_goals
      refine .ite (fun _ => .skip fun _ => ?_) fun _ => .check fun _ => ?_
      all_goals exact .close fun span => .leaf rfl rfl (le_refl lo)

theorem returnStatement_placed (h : rules.Placed) :
    YieldsTree Kind.isValue (returnStatement rules) := by
  intro lo
  unfold returnStatement
  refine .skip fun start => .skip fun _ => .skip fun ends => ?_
  refine .unlessFound (expression_placed h).withIn fun value hi hvalue => .skip fun _ =>
    .skip fun c => ?_
  exact .check fun _ => .close fun span => .ofUnbound rfl rfl hvalue.unbound

theorem throwStatement_placed (h : rules.Placed) :
    YieldsTree Kind.isValue (throwStatement rules) := by
  intro lo
  unfold throwStatement
  refine .skip fun start => .skip fun _ => .skip fun before => .check fun _ => ?_
  refine .bind (expression_placed h).withIn fun value hi hvalue => .skip fun _ =>
    .close fun span => ?_
  exact .ofUnbound rfl rfl (.singleton hvalue.unbound)

/-- A clause has its value, if it is no default one, in front of its statements. -/
theorem switchClause_placed (h : rules.Placed) {found : Bool} :
    Yields lo (switchClause rules found) fun r hi => r.1.Placed Kind.isValue lo hi := by
  unfold switchClause
  refine .skip fun start => .skip fun isDefault => .check fun _ => .skip fun _ => ?_
  refine .unlessFound (expression_placed h).withIn fun test mid htest => .skip fun _ => ?_
  refine .bind (YieldsTrees.many Kind.isValue fun lo => .skip fun t => ?_) fun body hi hbody => ?_
  · dsimp only
    split
    all_goals
      refine .skip fun stop => .ite (fun _ => .pure trivial) fun _ => ?_
      exact .bind (h.value rfl) fun n hi hn => .pure hn
  · exact .skip fun span => .pure (.ofUnbound rfl rfl (htest.append hbody).unbound)

/-- A value, and the clauses that it is compared with one after the other. -/
theorem switchStatement_placed (h : rules.Placed) :
    YieldsTree Kind.isValue (switchStatement rules) := by
  intro lo
  unfold switchStatement
  refine .skip fun start => .skip fun _ => .bind (condition_placed h) fun value mid hvalue =>
    .skip fun _ => ?_
  refine .bind (.within (.collected Kind.isValue fun clauses found top hclauses => ?_))
    fun ⟨clauses, _⟩ hi hclauses => ?_
  · refine .skip fun isCase => .skip fun isDefault => .ite (fun _ => ?_) fun _ => .pure hclauses
    exact .bind (switchClause_placed h) fun ⟨next, found⟩ hi hnext => .pure (hclauses.concat hnext)
  · exact .skip fun _ => .close fun span =>
      .ofUnbound rfl rfl (AllPlaced.cons hvalue hclauses).unbound

/-- A handler may bind what was thrown to a pattern; there may be no handler. -/
theorem handler?_placed (h : rules.Placed) :
    Yields lo (handler? rules) (FoundPlaced Kind.isValue lo) := by
  have hend : ∀ {start mid parameter}, AllPlaced Kind.isPart lo mid parameter → Yields mid (do
      let body ← block rules .body false
      return some (Node.mk .handler (← spanFrom start) (parameter ++ [body])))
      (FoundPlaced Kind.isValue lo) := fun hparameter =>
    .bind (block_placed h rfl rfl) fun body hi hbody => .skip fun span => .pure <|
      .ofLast rfl rfl rfl hparameter hbody.unbound
  unfold handler?
  refine .skip fun start => .skip fun found => .ite (fun _ => .pure trivial) fun _ => ?_
  refine .skip fun paren => .ite (fun _ => ?_) fun _ => .ofPure (hend (.nil (le_refl lo)))
  exact .bind h.pattern fun inner mid hinner => .skip fun _ => .ofPure (hend (.singleton hinner))

/-- There may be a block that runs in any case. -/
theorem finalizer?_placed (h : rules.Placed) :
    Yields lo (finalizer? rules) (FoundPlaced Kind.isValue lo) := by
  unfold finalizer?
  refine .skip fun found => .ite (fun _ => ?_) fun _ => .pure trivial
  exact .bind (block_placed h rfl rfl) fun body hi hbody => .pure hbody

/-- A block, then its handler, then what runs in any case. -/
theorem tryStatement_placed (h : rules.Placed) : YieldsTree Kind.isValue (tryStatement rules) := by
  intro lo
  unfold tryStatement
  refine .skip fun start => .skip fun _ => .bind (block_placed h rfl rfl) fun body mid hbody => ?_
  refine .skip fun last => .bind (handler?_placed h).low fun handler top ⟨htop, hhandler⟩ => ?_
  refine .bind (finalizer?_placed h).low fun finalizer hi ⟨hhi, hfinalizer⟩ => .check fun _ => ?_
  refine .close fun span => .ofUnbound rfl rfl (AllPlaced.unbound ?_)
  exact AllPlaced.append (.cons hbody (hhandler.toList htop)) (hfinalizer.toList hhi)

/-- A handler that no `try` stands before is read past, and nothing of it is kept. -/
theorem lostHandler_placed (h : rules.Placed) : YieldsTree Kind.isValue (lostHandler rules) := by
  intro lo
  have hhandler : Moves (handler? rules) := .of_yields fun _ => handler?_placed h
  have hfinalizer : Moves (finalizer? rules) := .of_yields fun _ => finalizer?_placed h
  unfold lostHandler
  exact .skip fun s => .skip fun _ => .skip fun _ => .skip fun _ =>
    .pure (.leaf rfl rfl (le_refl lo))

theorem withStatement_placed (h : rules.Placed) :
    YieldsTree Kind.isValue (withStatement rules) := by
  intro lo
  unfold withStatement
  refine .skip fun start => .skip fun _ => .skip fun here => .skip fun _ => .skip fun _ => ?_
  refine .bind (condition_placed h) fun object mid hobject => .bind (.within (h.value rfl)) ?_
  intro body hi hbody
  exact .close fun span => .ofUnbound rfl rfl (.cons hobject.unbound (.singleton hbody.unbound))

/-! ## §5. Labels and expressions. -/

/-- An expression that stands for itself is a statement at the same place. -/
theorem Node.Placed.asStatement {form : Node} {hi : Progress}
    (hform : form.Placed Kind.isValue lo hi) : form.asStatement.Placed Kind.isValue lo hi := .ofUnbound rfl rfl (.singleton hform.unbound)

/-- A labelled statement has the statement behind its label for its only part. -/
theorem labelled_placed (h : rules.Placed) {text : String} {span : Span} :
    YieldsTree Kind.isValue (labelled rules text span) := by
  intro lo
  have hend : ∀ {outer hi body}, body.Placed Kind.isValue lo hi → Yields hi (do
      if text ∈ outer then report (.duplicateLabel text) span.start
      modify fun s => { s with labels := outer }
      return Node.mk (.labelled text) (← spanFrom span.start) [body]) fun n hi =>
        n.Placed Kind.isValue lo hi :=
    fun hbody => .check fun _ => .modify (fun _ => ⟨rfl, rfl, rfl, rfl, rfl, id⟩) fun _ =>
      .close fun span =>
      .ofUnbound rfl rfl (.singleton hbody.unbound)
  refine .within (.skip fun s => .modify (fun _ => ⟨rfl, rfl, rfl, rfl, rfl, id⟩) fun _ => ?_)
  refine .skip fun isFunction => .ite (fun _ => ?_) fun _ =>
    .bind (h.value rfl) fun body hi hbody => hend hbody
  refine .skip fun start => .skip fun next => .bind (plainFunction_placed h) fun body hi hbody => ?_
  exact .skip fun c => .check fun _ => .check fun _ => .ofPure (hend hbody.asStatement)

/-- An expression that has been read becomes a statement where it ends. -/
theorem endEvaluation_placed (h : rules.Placed) {start : Nat} {value : Node}
    (hvalue : value.Placed Kind.isValue lo mid) :
    Yields mid (endEvaluation rules start value) fun n hi => n.Placed Kind.isValue lo hi := by
  unfold endEvaluation
  refine .skip fun ends => .ite (fun _ => .close fun span => ?_) fun _ => .skip fun operator => ?_
  · exact .ofUnbound rfl rfl (.singleton hvalue.unbound)
  refine .ite (fun _ => .skip fun _ => .bind (binaryRest_placed h hvalue) ?_) fun _ => .failHere
  exact fun whole hi hwhole => .close fun span => .ofUnbound rfl rfl (.singleton hwhole.unbound)

/-- A statement that begins with an expression, be it a label or not. -/
theorem evaluation_placed (h : rules.Placed) : YieldsTree Kind.isValue (evaluation rules) := by
  intro lo
  unfold evaluation
  refine .skip fun start => .bind (expression_placed h).withIn fun value mid hvalue => ?_
  split
  · refine .skip fun colon => .ite (fun _ => ?_) fun _ => endEvaluation_placed h hvalue
    exact (labelled_placed h).weaken fun n hi hn => hn.mono hvalue.le (le_refl hi)
  · exact .bind (Node.verify_placed hvalue) fun value hi hvalue => endEvaluation_placed h hvalue

/-! ## §6. Statements. -/

/-- The statement that a keyword or a mark begins. -/
theorem statementForm_placed (h : rules.Placed) {declarations topLevel : Bool} :
    YieldsTree Kind.isValue (statementForm rules declarations topLevel) := by
  intro lo
  unfold statementForm
  refine .skip fun start => .skip fun t => ?_
  dsimp only
  -- One case for each token that a statement can begin with.
  split
  case h_1 | h_2 => exact jump_placed
  case h_3 => exact .skip fun _ => .skip fun _ => .close fun span => .leaf rfl rfl (le_refl lo)
  case h_4 => exact doLoop_placed h
  case h_5 => exact forLoop_placed h
  case h_6 => exact .skip fun _ => plainFunction_placed h
  case h_7 => exact .skip fun _ => classFrom_placed h
  case h_8 => exact conditional_placed h
  case h_9 => exact returnStatement_placed h
  case h_10 => exact switchStatement_placed h
  case h_11 => exact throwStatement_placed h
  case h_12 | h_13 => exact lostHandler_placed h
  case h_14 => exact tryStatement_placed h
  case h_15 => exact withStatement_placed h
  case h_16 => exact whileLoop_placed h
  case h_17 => exact declaration_placed h
  case h_18 => exact block_placed h rfl rfl
  case h_19 => exact .skip fun _ => .close fun span => .leaf rfl rfl (le_refl lo)
  case h_20 => exact .ite (fun _ => declaration_placed h) fun _ => evaluation_placed h
  case h_21 =>
      refine .check fun _ => .skip fun isLet => .ite (fun _ => declaration_placed h) fun _ => ?_
      exact .skip fun isAsync => .ite (fun _ => asyncFunction_placed h) fun _ => evaluation_placed h

/-- A statement may begin with an `import` that is called or has a member taken from it.
-/
theorem importEvaluation_placed (h : rules.Placed) :
    YieldsTree Kind.isValue (importEvaluation rules) := by
  intro lo
  unfold importEvaluation
  refine .skip fun start => .bind (expression_placed h) fun value hi hvalue => .skip fun _ => ?_
  exact .close fun span => .ofUnbound rfl rfl (.singleton hvalue.unbound)

instance : Keeps atImportExpression := by
  unfold atImportExpression
  refine .bind fun isImport => ?_
  split
  · refine .bind fun next => ?_
    split <;> infer_instance
  · infer_instance

/-- Every statement is placed, a declaration only where one may stand. -/
theorem statement_placed (h : rules.Placed) {declarations : Bool} :
    YieldsTree Kind.isValue (statement rules declarations) := by
  intro lo
  unfold statement
  refine .skip fun isImport => .ite (fun _ => ?_) fun _ => ?_
  · exact .bind (importEvaluation_placed h) fun form hi hform => .pure hform.asStatement
  · refine .skip fun isImport => .skip fun isExport => .check fun _ => ?_
    exact .bind (statementForm_placed h) fun form hi hform => .pure hform.asStatement

/-! ## §7. Imports and exports. -/

instance : Keeps enterModule :=
  .modify fun _ => ⟨rfl, rfl, rfl, rfl, rfl, List.append_ne_nil_of_right_ne_nil _⟩

instance : Moves exportName := by
  unfold exportName
  refine .bind fun t => ?_
  split <;> infer_instance

instance {part : Parse PUnit} [Moves part] : Moves (braced part) := by unfold braced; infer_instance

instance : Moves fromClause := by
  unfold fromClause
  refine .bind fun _ => .bind fun t => ?_
  split <;> infer_instance

instance : Moves importedBinding := by unfold importedBinding; infer_instance

instance : Moves importSpecifier := by
  unfold importSpecifier
  refine .bind fun ⟨name, span⟩ => .bind fun found => ?_
  split
  · infer_instance
  · split <;> infer_instance

/-- An `import` of a module has no parts. -/
theorem importItem_placed : YieldsTree Kind.isValue importItem := by
  intro lo
  have hend : ∀ {start}, Yields lo (do return Node.leaf .importItem (← spanFrom start))
      fun n hi => n.Placed Kind.isValue lo hi := .close fun span => .leaf rfl rfl (le_refl lo)
  unfold importItem
  refine .skip fun start => .skip fun _ => .skip fun _ => .skip fun t => ?_
  split
  · exact .skip fun _ => .skip fun _ => hend
  · have hnames : Yields lo (do
        if ← eatMark (.operator .times) then
          expectWord .as_
          importedBinding
        else if ← eatMark .leftBrace then braced importSpecifier
        fromClause
        return Node.leaf .importItem (← spanFrom start)) fun n hi =>
          n.Placed Kind.isValue lo hi := by
      refine .skip fun star => .ite (fun _ => .skip fun _ => .skip fun _ => .skip fun _ =>
        hend) fun _ => ?_
      exact .skip fun brace => .check fun _ => .skip fun _ => hend
    refine .skip fun isName => .ite (fun _ => ?_) fun _ => hnames
    exact .skip fun _ => .skip fun isFrom => .check fun _ => hnames

/-- A default export has a function, a class or an expression for its value. -/
theorem defaultExport_placed (h : rules.Placed) :
    YieldsTree Kind.isValue (defaultExport rules) := by
  intro lo
  unfold defaultExport
  refine .skip fun isClass => .ite (fun _ => .skip fun start => classFrom_placed h) fun _ => ?_
  refine .skip fun isAsync => .ite (fun _ => asyncFunction_placed h) fun _ => ?_
  refine .skip fun isFunction => .ite (fun _ => plainFunction_placed h) fun _ => ?_
  exact .bind (h.value rfl).withIn fun value hi hvalue => .skip fun _ => .pure hvalue

instance : Moves exportSpecifier := by unfold exportSpecifier; infer_instance

instance : Moves exportClause := by
  unfold exportClause
  refine .bind fun _ => .bind fun names => .bind fun _ => .bind fun isFrom => ?_
  split
  · infer_instance
  · have hnames := Moves.forM names (g := fun (name, span) => do
        match name with
        | .word text =>
          if (Word.ofText? text).any Word.isReserved then fail (.exportExpectsFrom text) span.start
        | .string _ => fail .exportBindingIsString span.start) fun ⟨name, span⟩ => by
      dsimp only
      split <;> infer_instance
    exact .bind fun _ => .bind fun _ => inferInstance

/-- An `export` holds the declaration that follows it, or names what stands elsewhere. -/
theorem exportItem_placed (h : rules.Placed) : YieldsTree Kind.isValue (exportItem rules) := by
  intro lo
  -- What is exported is read as it would be without the word in front.
  have hitem : ∀ {start p}, YieldsTree Kind.isValue p → Yields lo (do
      let inner ← p
      return Node.mk .exportItem (← spanFrom start) [inner]) fun n hi =>
        n.Placed Kind.isValue lo hi :=
    fun hp => .bind hp fun inner hi hinner => .close fun span =>
      .ofUnbound rfl rfl (.singleton hinner.unbound)
  unfold exportItem
  refine .skip fun _ => .skip fun start => .skip fun _ => .skip fun first => .skip fun star => ?_
  refine .ite (fun _ => .skip fun isAs => ?_) fun _ => ?_
  · have hend : Yields lo (do
        fromClause
        return Node.leaf .exportItem (← spanFrom start)) fun n hi => n.Placed Kind.isValue lo hi :=
      .skip fun _ => .close fun span => .leaf rfl rfl (le_refl lo)
    exact .ite (fun _ => .skip fun name => hend) fun _ => hend
  refine .skip fun isDefault => .ite (fun _ => hitem (defaultExport_placed h)) fun _ => ?_
  refine .ite (fun _ => .skip fun start => hitem (classFrom_placed h)) fun _ => ?_
  refine .skip fun isAsync => .ite (fun _ => hitem (asyncFunction_placed h)) fun _ => ?_
  refine .ite (fun _ => hitem (plainFunction_placed h)) fun _ => .skip fun isLet => ?_
  refine .ite (fun _ => hitem (declaration_placed h)) fun _ => ?_
  exact .skip fun _ => .close fun span => .leaf rfl rfl (le_refl lo)

/-- At the top level a statement, an `import` or an `export` may stand. -/
theorem topLevelItem_placed (h : rules.Placed) : YieldsTree Kind.isValue (topLevelItem rules) := by
  intro lo
  unfold topLevelItem
  refine .skip fun isImport => .ite (fun _ => ?_) fun _ => ?_
  · exact .bind (importEvaluation_placed h) fun form hi hform => .pure hform.asStatement
  refine .skip fun isImport => .ite (fun _ => importItem_placed) fun _ => ?_
  refine .skip fun isExport => .ite (fun _ => exportItem_placed h) fun _ => ?_
  exact .bind (statementForm_placed h) fun form hi hform => .pure hform.asStatement

/-! ## §8. Scripts. -/

/-- Every rule reads placed trees, if the rules inside of it do. -/
theorem grammar_placed (h : rules.Placed) : (grammar rules).Placed where
  depth := by
    obtain ⟨depth, rfl⟩ := h.depth
    exact ⟨depth + 1, rfl⟩
  pattern := pattern_placed h
  value := by
    intro rule hrule
    cases rule with
    | assignment => exact assignmentExpression_placed h
    | unary => exact unaryExpression_placed h
    | leftHand => exact leftHandExpression_placed h
    | member => exact memberExpression_placed h
    | pattern => cases hrule
    | statement => exact statement_placed h
    | item => exact statement_placed h
  opens := assignmentExpression_opens h
  operand := unaryExpression_begins

/-- So it does at every depth. -/
theorem grammarTo_placed (depth : Nat) : (grammarTo depth).Placed := by
  induction depth with
  -- At the last level every rule fails, so it returns nothing to be placed.
  | zero =>
      exact
        { depth := ⟨0, rfl⟩
          value := fun _ => .skip fun _ => .throw
          pattern := .skip fun _ => .throw
          opens := (Yields.skip fun _ => .throw).at
          operand := fun _ => .keep fun _ _ _ _ _ _ _ h => by cases h }
  | succ depth ih => exact grammar_placed ih

/-- The items of a script are placed one after the other, up to its end. -/
theorem topLevelItems_placed (h : rules.Placed) :
    YieldsTrees Kind.isValue (topLevelItems rules) := by
  intro lo
  unfold topLevelItems
  exact .bind (statements_placed (topLevelItem_placed h)) fun items hi hitems =>
    .skip fun s => .skip fun _ => .pure hitems

/-- A line that names an interpreter is read past. -/
theorem ahead_skipInterpreter (i : Input) : i.Ahead (skipInterpreter i) := by
  unfold skipInterpreter
  split
  · exact i.ahead_skipLine
  · exact .refl i

/-- Before a script is read its first token has been lexed, and no fault has been noted. -/
theorem State.past_initial (text : List Char) : (State.initial text).Past ⟨text, 0, false⟩ := by
  have hfirst := follows_lex true (skipInterpreter ⟨text, 0, Text.byteLength text⟩)
  -- The token before the first one is taken to end where the text begins.
  exact
    { low := Nat.le_refl 0
      noted := nofun
      span := hfirst.span
      start := Input.In.ahead ⟨[], rfl, rfl⟩ ((ahead_skipInterpreter _).trans hfirst.start)
      rest := hfirst.after
      passed := Nat.zero_le _
      ready := fun _ => Nat.zero_le _
      word := hfirst.word
      stuck := nofun
      lexed := fun _ _ => ⟨true, _, rfl⟩ }

/-- The text of a script, without a byte order mark in front of it. -/
def scriptOf (text : List Char) : List Char :=
  match text with
  | '\ufeff' :: rest => rest
  | _ => text

/-- The items of a script that is read are placed one after the other, and no fault has
been noted on the way. -/
theorem parse_placed {text : List Char} {p : Program} (h : parse text = .ok p) :
    ∃ hi, hi.text = scriptOf text ∧ hi.noted = false
      ∧ AllPlaced Kind.isValue ⟨scriptOf text, 0, false⟩ hi p.items := by
  unfold parse at h
  extract_lets script depth at h
  have hscript : script = scriptOf text := rfl
  rw [hscript] at h
  -- A run that succeeds ends behind its items.
  have hplaced := topLevelItems_placed (grammarTo_placed depth)
    (State.initial (scriptOf text)) (State.past_initial (scriptOf text))
  cases hrun : topLevelItems (grammarTo depth) (State.initial (scriptOf text)) with
  | error fault s =>
      rw [hrun] at h
      cases h
  | ok items s =>
      rw [hrun] at h hplaced
      obtain ⟨hi, hle, hs, hitems⟩ := hplaced
      dsimp only at h
      split at h
      · cases h
      next hfaults =>
        obtain rfl := Except.ok.inj h
        refine ⟨hi, (Progress.text_eq hle).symm, ?_, hitems⟩
        -- The faults that are noted are all of them, or stand behind those of a module.
        have hnone : s.faults = [] := by
          rw [List.getLast?_eq_none_iff] at hfaults
          split at hfaults
          · exact (List.append_eq_nil_iff.mp hfaults).2
          · exact hfaults
        exact Bool.eq_false_iff.mpr fun hnoted => hs.noted hnoted hnone

/-- A node of a script is a node of one of its items. -/
theorem Program.mem_nodes_iff {p : Program} {n : Node} :
    n ∈ p.nodes ↔ ∃ item ∈ p.items, n ∈ item.subtrees := by
  unfold nodes
  rw [Node.subtreesAll_eq_flatMap]
  exact List.mem_flatMap

/-- **A script that is read is formed.** -/
theorem Program.formed_of_parse {text : List Char} {p : Program} (h : parse text = .ok p) :
    p.Formed := by
  obtain ⟨hi, -, -, hitems⟩ := parse_placed h
  refine ⟨fun n hn => ?_, hitems.inOrder⟩
  obtain ⟨item, hitem, hn⟩ := mem_nodes_iff.mp hn
  exact (hitems.each item hitem).formed n hn

/-- A loop that is walked against the text, a pattern that is written to, and a class
that extends a call. -/
example :
    (parse "do \x7b [a] = b \x7d while (c); class d extends e(f) \x7b \x7d".toList).toOption.any
      (fun p => decide p.Formed) = true := by
  decide +kernel

end AmdKit.Script
