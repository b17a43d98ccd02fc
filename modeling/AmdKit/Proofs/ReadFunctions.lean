/-
  AmdKit.Proofs.ReadFunctions
  ────────────────────────────────
  **READING FUNCTIONS, CLASSES AND LITERALS.**

  A function is its parameters and its body, one after the other, and perhaps its
  name.  The members of a class come behind what it extends, though they stand in
  front of it in the tree.  The expressions in lists, objects and templates stand
  in the order of the text.
-/
import AmdKit.Proofs.ReadPatterns

namespace AmdKit.Script

open Text (Span)

variable {lo : Progress} {rules : Rules}

/-! ## §1. Blocks and bodies. -/

/-- Statements up to the end of a block are placed if each of them is. -/
theorem statements_placed {item : Parse Node} {stop : Parse Bool} {directives : Bool}
    (hitem : YieldsTree Kind.isValue item) [Moves stop] :
    YieldsTrees Kind.isValue (statements item stop directives) := by
  intro lo
  unfold statements
  refine .skip fun ends => .ite (fun _ => .pure (.nil (le_refl lo))) fun _ => ?_
  refine .bind hitem fun first mid hfirst => ?_
  have hmore : Yields mid (do
      let more ← many do
        if ← stop then return none else return some (← item)
      return first :: more) fun ns hi => AllPlaced Kind.isValue lo hi ns := by
    refine .bind (YieldsTrees.many Kind.isValue fun mid => ?_) fun ns hi hns =>
      .pure (.cons hfirst hns)
    refine .skip fun ends => .ite (fun _ => .pure trivial) fun _ => ?_
    exact .bind hitem fun n hi hn => .pure hn
  refine .ite (fun _ => ?_) fun _ => hmore
  exact .modify (fun _ => ⟨rfl, rfl, rfl, rfl, rfl, id⟩) fun _ => hmore

instance : Moves closeBlock := by unfold closeBlock; infer_instance

/-- A block is its items. -/
theorem block_eq (h : rules.Placed) {kind : Kind} {directives : Bool} :
    Yields lo (block rules kind directives) fun n hi =>
      ∃ span items, n = .mk kind span items ∧ AllPlaced Kind.isValue lo hi items := by
  unfold block
  refine .skip fun start => .skip fun _ =>
    .bind (statements_placed (h.value rfl)) fun items hi hitems => ?_
  exact .close fun span => ⟨span, items, rfl, hitems⟩

/-- A block is placed, whatever kind of node it becomes. -/
theorem block_placed (h : rules.Placed) {kind : Kind} {directives : Bool}
    (hkind : kind.isUpright = true) (hvalue : kind.isValue = true) :
    YieldsTree Kind.isValue (block rules kind directives) := by
  refine (block_eq h).weaken fun n hi hn => ?_
  obtain ⟨span, items, rfl, hitems⟩ := hn
  exact .ofUnbound hkind hvalue hitems.unbound

/-- What is read inside a function is read under another context, which changes no token.
-/
theorem Yields.insideFunction {α : Type} {p : Parse α} {Q : α → Progress → Prop}
    {isAsync isGenerator isArrow : Bool} (hp : Yields lo p Q) :
    Yields lo (insideFunction isAsync isGenerator isArrow p) Q :=
  hp.wrap _ (fun s t =>
    { t with
      context := s.context, labels := s.labels, arrowStart := s.arrowStart
      moduleItem := s.moduleItem })
    (fun _ => ⟨rfl, rfl, rfl, rfl, rfl, id⟩) fun _ _ => ⟨rfl, rfl, rfl, rfl, rfl, id⟩

/-- The body of a function is placed; behind it there is at most a report about its
parameters. -/
theorem functionBody_placed (h : rules.Placed) {isAsync isGenerator : Bool} {items : List Node} :
    YieldsTree Kind.isValue (functionBody rules isAsync isGenerator items) := by
  intro lo
  refine .insideFunction (.bind (block_placed h rfl rfl).withIn fun body hi hbody => ?_)
  refine .ite (fun _ => ?_) fun _ => .pure hbody
  split
  · exact .skip fun _ => .pure hbody
  · exact .pure hbody

/-- The body of an arrow function is a block or an expression, and either one is placed.
-/
theorem arrowBody_placed (h : rules.Placed) {isAsync : Bool} :
    YieldsTree Kind.isValue (arrowBody rules isAsync) := by
  refine .insideFunction (.skip fun braced => ?_)
  exact .ite (fun _ => block_placed h rfl rfl) fun _ => h.value rfl

/-! ## §2. Parameters. -/

/-- A parameter is a pattern, with the value that stands in for a missing argument behind
it. -/
theorem parameter_placed (h : rules.Placed) : YieldsTree Kind.isPart (parameter rules) := by
  intro lo
  unfold parameter
  refine .skip fun start => .bind h.pattern fun left mid hleft => .skip fun found => ?_
  refine .ite (fun _ => ?_) fun _ => .pure hleft
  refine .bind (h.value rfl) fun right hi hright => .close fun span => ?_
  exact .ofFirst rfl rfl rfl hleft (.singleton hright.unbound)

/-- So is the parameter that takes the rest of the arguments. -/
theorem restParameter_placed (h : rules.Placed) {start : Nat} :
    YieldsTree Kind.isPart (restParameter rules start) := by
  intro lo
  unfold restParameter
  refine .bind h.pattern fun inner mid hinner => .skip fun found => ?_
  refine .ite (fun _ => ?_) fun _ => .close fun span => .ofPatterns rfl rfl rfl (.singleton hinner)
  refine .bind (h.value rfl) fun right hi hright => .skip fun _ => .skip fun whole => ?_
  have hwhole : (Node.mk .defaultPattern whole [inner, right]).Placed Kind.isPart lo hi :=
    .ofFirst rfl rfl rfl hinner (.singleton hright.unbound)
  exact .close fun span => .ofPatterns rfl rfl rfl (.singleton hwhole)

/-- Parameters are placed one after the other, up to the closing parenthesis. -/
theorem parameters_placed (h : rules.Placed) : YieldsTrees Kind.isPart (parameters rules) := by
  intro lo
  unfold parameters
  refine .collect Kind.isPart (fun items rest mid hitems => ?_) fun items rest hi hitems =>
    .pure hitems
  refine .skip fun closes => .ite (fun _ => .pure hitems) fun _ => ?_
  cases rest
  case' some offset => refine .skip fun _ => ?_
  all_goals
    refine .skip fun start => .skip fun dots => .ite (fun _ => ?_) fun _ => ?_
    · refine .skip fun dots => .bind (restParameter_placed h) fun item hi hitem => .skip fun _ => ?_
      exact .pure (hitems.concat hitem)
    · exact .bind (parameter_placed h) fun item hi hitem => .skip fun _ =>
        .pure (hitems.concat hitem)

/-- Behind its name a function has parameters and then a body. -/
theorem functionParts_placed (h : rules.Placed) {isAsync isGenerator : Bool}
    {check : List Node → Parse Unit} [∀ items, Moves (check items)] :
    Yields lo (functionParts rules isAsync isGenerator check) fun ns hi =>
      FunctionPlaced lo hi ns := by
  -- The context that the parameters are read in ends in front of the body.
  refine .within (.skip fun _ => .bind (Q := fun ns mid => AllPlaced Kind.isPart lo mid ns) ?_ ?_)
  · exact .within (.bind (parameters_placed h) fun items mid hitems => .skip fun _ => .pure hitems)
  · intro items mid hitems
    refine .skip fun _ => .bind (functionBody_placed h) fun body hi hbody => .pure ?_
    exact ⟨items, body, mid, rfl, hitems, hbody.unbound⟩

instance (items : List Node) :
    Moves (anyParameters items) := by unfold anyParameters; infer_instance

instance (name : Nat) (items : List Node) : Moves (getterParameters name items) := by
  unfold getterParameters; infer_instance

instance (name : Nat) (items : List Node) : Moves (setterParameters name items) := by
  refine ⟨fun lo => ?_⟩
  unfold setterParameters
  refine .check fun _ => ?_
  split
  · exact .ite (fun _ => Moves.yields lo) fun _ => .pure trivial
  · exact .pure trivial

/-! ## §3. Functions. -/

/-- A function is placed from its keyword on, named or not. -/
theorem functionFrom_placed (h : rules.Placed) {naming : Naming} {start : Nat} {isAsync : Bool} :
    YieldsTree Kind.isValue (functionFrom rules naming start isAsync) := by
  intro lo
  unfold functionFrom
  have hend : ∀ {isGenerator} name, Yields lo (do
      let parts ← functionParts rules isAsync isGenerator anyParameters
      return Node.mk .function (← spanFrom start) (declaredPart name ++ parts))
      fun n hi => n.Placed Kind.isValue lo hi := fun name =>
    .bind (functionParts_placed h) fun parts hi hparts => .close fun span => hparts.function name
  refine .skip fun _ => .skip fun isGenerator => ?_
  dsimp only
  split <;> exact .skip hend

theorem plainFunction_placed (h : rules.Placed) {naming : Naming} :
    YieldsTree Kind.isValue (plainFunction rules naming) := .skip fun _ => functionFrom_placed h

theorem asyncFunction_placed (h : rules.Placed) {naming : Naming} :
    YieldsTree Kind.isValue (asyncFunction rules naming) :=
  .skip fun _ => .skip fun _ => functionFrom_placed h

instance : Keeps atAsyncFunction := by unfold atAsyncFunction; infer_instance

/-! ## §4. Classes. -/

instance : Moves privateName := by
  refine ⟨fun lo => ?_⟩
  unfold privateName
  refine .skip fun start => .skip fun _ => .skip fun hash => .skip fun here => .check fun _ => ?_
  exact .skip fun name => .close fun span => trivial

/-- The name of a member may be computed, and then has a tree, which is placed. -/
theorem memberName_placed (h : rules.Placed) :
    Yields lo (memberName rules) fun name hi => AllPlaced Kind.isValue lo hi name.name.key := by
  unfold memberName
  refine .skip fun hidden => .ite (fun _ => ?_) fun _ => ?_
  · exact .skip fun _ => .check fun _ => .pure (.nil (le_refl lo))
  · exact .bind (propertyName_placed h) fun name hi hname => .pure hname

instance (lineBreaks : Bool) : Keeps (atFieldEnd lineBreaks) := by
  unfold atFieldEnd
  refine .bind fun t => ?_
  split <;> infer_instance

/-- A method begins with its key, which has been read already. -/
theorem method_placed (h : rules.Placed) {ok : Kind → Bool} (hok : ok .method = true)
    {mid : Progress} {start : Nat} {key : List Node} {isAsync isGenerator : Bool}
    {check : List Node → Parse Unit} [∀ items, Moves (check items)]
    (hkey : AllPlaced Kind.isValue lo mid key) :
    Yields mid (method rules start key isAsync isGenerator check) fun n hi =>
      n.Placed ok lo hi := by
  unfold method
  refine .bind (functionParts_placed h) fun parts hi hparts => .close fun span => ?_
  exact (hparts.append hkey.unbound.part).node rfl hok fun _ => rfl

/-- A field begins with its key, and its value follows if it has one. -/
theorem field_placed (h : rules.Placed) {mid : Progress} {start : Nat} {key : List Node}
    (hkey : AllPlaced Kind.isValue lo mid key) :
    Yields mid (field rules start key) fun n hi => n.Placed Kind.isMember lo hi := by
  refine .within (.skip fun found => .ifFound (h.value rfl) fun value hi hvalue => ?_)
  refine .skip fun ends => .check fun _ => .close fun span => ?_
  exact .ofUnbound rfl rfl (hkey.append hvalue).unbound

/-- The statements of a static block are placed like those of any block. -/
theorem staticBlock_placed (h : rules.Placed) {start : Nat} :
    YieldsTree Kind.isMember (staticBlock rules start) := by
  refine .within (.bind (block_eq h) fun body hi hbody => .close fun span => ?_)
  obtain ⟨inner, items, rfl, hitems⟩ := hbody
  exact .ofUnbound rfl rfl hitems.unbound

/-- A getter or a setter is a method behind a word. -/
theorem accessor_placed (h : rules.Placed) {start : Nat} {isGetter isStatic : Bool} :
    YieldsTree Kind.isMember (accessor rules start isGetter isStatic) := by
  intro lo
  unfold accessor
  refine .bind (memberName_placed h) fun name mid hname => .check fun _ => ?_
  split <;> exact method_placed h rfl hname

/-- The first of the results is a member of a class. -/
def MemberPlaced (lo : Progress) (r : Node × Bool) (hi : Progress) : Prop :=
  r.1.Placed Kind.isMember lo hi

/-- What follows the name of a member decides whether it is a method or a field. -/
theorem namedMember_placed (h : rules.Placed) {mid : Progress} {start : Nat} {isStatic : Bool}
    {name : MemberName} (hname : AllPlaced Kind.isValue lo mid name.name.key) :
    Yields mid (namedMember rules start isStatic name) (MemberPlaced lo) := by
  unfold namedMember
  refine .skip fun here => .ite (fun _ => ?_) fun _ => ?_
  · exact .bind (method_placed h rfl hname) fun n hi hn => .pure hn
  · refine .skip fun before => .skip fun star => .skip fun ends => .ite (fun _ => ?_) fun _ => ?_
    · exact .bind ((accessor_placed h).weaken fun n hi hn =>
        hn.mono hname.le (le_refl hi)) fun n hi hn => .pure hn
    refine .skip fun ends => .ite (fun _ => .check fun _ => ?_) fun _ => ?_
    · exact .bind (field_placed h hname) fun n hi hn => .pure hn
    refine .skip fun before => .ite (fun _ => ?_) fun _ => .unexpected
    refine .skip fun isGenerator => .bind (memberName_placed h) fun name hi hother =>
      .check fun _ => ?_
    exact .bind (method_placed h rfl (hother.mono hname.le (le_refl hi))) fun n hi hn =>
      .pure hn

/-- So it is behind the word that makes a member static. -/
theorem memberAfterStatic_placed (h : rules.Placed) {start : Nat} {isStatic : Bool} :
    Yields lo (memberAfterStatic rules start isStatic) (MemberPlaced lo) := by
  unfold memberAfterStatic
  refine .skip fun brace => .ite (fun _ => ?_) fun _ => .skip fun star => .ite (fun _ =>
    ?_) fun _ => ?_
  · exact .bind (staticBlock_placed h) fun n hi hn => .pure hn
  · refine .bind (memberName_placed h) fun name mid hname => .check fun _ => ?_
    exact .bind (method_placed h rfl hname) fun n hi hn => .pure hn
  · exact .bind (memberName_placed h) fun name mid hname => namedMember_placed h hname

/-- A member of a class is placed, with the flag whether it is the constructor beside it.
-/
theorem classMember_placed (h : rules.Placed) :
    Yields lo (classMember rules) (MemberPlaced lo) := by
  have hnone : AllPlaced Kind.isValue lo lo [] := .nil (le_refl lo)
  unfold classMember
  refine .skip fun start => .skip fun isStatic => .ite (fun _ => ?_) fun _ =>
    memberAfterStatic_placed h
  refine .skip fun paren => .ite (fun _ => ?_) fun _ => ?_
  · exact .bind (method_placed h rfl hnone) fun n hi hn => .pure hn
  refine .skip fun ends => .ite (fun _ => ?_) fun _ => memberAfterStatic_placed h
  exact .bind (field_placed h hnone) fun n hi hn => .pure hn

/-- The members of a class are placed one after the other, up to the closing brace. -/
theorem classMembers_placed (h : rules.Placed) :
    YieldsTrees Kind.isMember (classMembers rules) := by
  intro lo
  unfold classMembers
  refine .collect Kind.isMember (fun members found mid hmembers => ?_)
    fun members found hi hmembers => .pure hmembers
  refine .skip fun ends => .skip fun closes => .ite (fun _ => .pure hmembers) fun _ => ?_
  refine .skip fun semicolon => .ite (fun _ => .pure hmembers) fun _ => ?_
  refine .bind (classMember_placed h) fun ⟨next, isConstructor⟩ hi hnext => .check fun _ => .pure ?_
  exact hmembers.concat hnext

/-- A class is placed: what it extends is read in front of its members, and walked behind
them. -/
theorem classFrom_placed (h : rules.Placed) {start : Nat} {nameRequired : Bool} :
    YieldsTree Kind.isValue (classFrom rules start nameRequired) := by
  intro lo
  refine .within (.skip fun _ => .ite (fun _ => .skip fun _ => .skip fun name => ?_) fun _ =>
    .skip fun name => ?_)
  all_goals
    refine .skip fun found => .ifFound (h.value rfl) fun parent mid hparent => .skip fun _ => ?_
    refine .bind (classMembers_placed h) fun members hi hmembers => .skip fun ends => ?_
    refine .ite (fun _ => .skip fun t => .skip fun _ => ?_) fun _ => .skip fun _ => ?_
    all_goals exact .close fun span => .class_ name hparent hmembers

/-! ## §5. Lists and objects. -/

/-- An element, or an argument, may be spread. -/
theorem spreadable_placed (h : rules.Placed) : YieldsTree Kind.isValue (spreadable rules) := by
  intro lo
  unfold spreadable
  refine .skip fun start => .skip fun dots => .ite (fun _ => ?_) fun _ => h.value rfl
  exact .bind (h.value rfl).withIn fun inner hi hinner =>
    .pure (.ofUnbound rfl rfl (.singleton hinner.unbound))

/-- An array has its elements one after the other, and a hole is one of them. -/
theorem listLiteral_placed (h : rules.Placed) : YieldsTree Kind.isValue (listLiteral rules) := by
  intro lo
  unfold listLiteral
  refine .skip fun start => .skip fun _ => ?_
  refine .collect Kind.isValue (fun items comma mid hitems => ?_) fun items comma hi hitems => ?_
  · refine .skip fun ends => .skip fun closes => .ite (fun _ => .pure hitems) fun _ => ?_
    refine .skip fun here => .skip fun hole => .ite (fun _ => ?_) fun _ => ?_
    · exact .pure (hitems.concat (.leaf rfl rfl (le_refl mid)))
    refine .bind (spreadable_placed h).withIn fun item hi hitem => .skip fun closes => ?_
    have hall := AllPlaced.concat hitems hitem
    exact .ite (fun _ => .pure hall) fun _ => .skip fun _ => .skip fun last => .skip fun ends =>
      .pure hall
  · exact .skip fun _ => .close fun span => .ofUnbound rfl rfl hitems.unbound

/-- A name that stands for its own value is a use of it at the same place. -/
theorem shorthand_placed (h : rules.Placed) {start : Nat} {text : String} {nameSpan : Span} :
    YieldsTree Kind.isUnbound (shorthand rules start text nameSpan) := by
  intro lo
  unfold shorthand
  refine .skip fun c => .check fun _ => .skip fun found => .ite (fun _ => ?_) fun _ => ?_
  · refine .bind (h.value rfl).withIn fun value hi hvalue => .close fun span => ?_
    exact .ofUnbound rfl rfl (.singleton hvalue.unbound)
  · exact .pure (.leaf rfl rfl (le_refl lo))

/-- A method of an object may follow a word such as `get` or `async`. -/
theorem markedMethod_placed (h : rules.Placed) {start : Nat} {text : String} :
    YieldsTree Kind.isUnbound (markedMethod rules start text) := by
  intro lo
  unfold markedMethod
  refine .ite (fun _ => .skip fun isGenerator => ?_) fun _ => .ofPure ?_
  all_goals
    refine .bind (propertyName_placed h) fun ⟨name, span⟩ mid hname => ?_
    dsimp only
    split <;> exact method_placed h rfl hname

/-- A property of an object, in any of its forms. -/
theorem objectProperty_placed (h : rules.Placed) :
    YieldsTree Kind.isUnbound (objectProperty rules) := by
  intro lo
  unfold objectProperty
  refine .skip fun start => .skip fun dots => .ite (fun _ => ?_) fun _ => ?_
  · refine .bind (h.value rfl).withIn fun inner hi hinner => .close fun span => ?_
    exact .ofUnbound rfl rfl (.singleton hinner.unbound)
  refine .skip fun star => .ite (fun _ => ?_) fun _ => ?_
  · exact .bind (propertyName_placed h) fun name mid hname => method_placed h rfl hname
  refine .bind (propertyName_placed h) fun ⟨name, nameSpan⟩ mid hname => ?_
  refine .skip fun colon => .ite (fun _ => ?_) fun _ => ?_
  · refine .bind (h.value rfl).withIn fun value hi hvalue => .close fun span => ?_
    exact .ofUnbound rfl rfl (hname.concat hvalue).unbound
  refine .skip fun paren => .ite (fun _ => method_placed h rfl hname) fun _ => ?_
  -- What follows the name is placed behind it, and so in front of the end as well.
  have hlow : ∀ {p}, YieldsTree Kind.isUnbound p → Yields mid p fun n hi =>
    n.Placed Kind.isUnbound lo hi :=
    fun hp => hp.weaken fun n hi hn => hn.mono hname.le (le_refl hi)
  split
  · refine .skip fun t => ?_
    split
    case h_4 => exact .ite (fun _ => hlow (markedMethod_placed h)) fun _ => .unexpected
    all_goals exact hlow (shorthand_placed h)
  · exact .unexpected

/-- An object has its properties one after the other. -/
theorem objectLiteral_placed (h : rules.Placed) :
    YieldsTree Kind.isValue (objectLiteral rules) := by
  intro lo
  unfold objectLiteral
  refine .skip fun start => .bind (bracedParts_placed (objectProperty_placed h)) ?_
  exact fun ⟨parts, comma⟩ hi hparts => .close fun span => .ofUnbound rfl rfl hparts

/-! ## §6. Templates and regular expressions. -/

variable {l : Lexeme}

/-- A parser in front of a proper token is not stuck. -/
theorem not_stuck_of_token {s : State} (hs : s.Past lo) (hgood : s.current.token.isBad = false) :
    s.stuck = false := by
  cases hstuck : s.stuck with
  | false => rfl
  | true => rw [hs.stuck hstuck] at hgood; cases hgood

/-- Behind a piece of a template a fault in it is thrown, unless the template is tagged. -/
theorem templateEnd_placed {tagged more : Bool} {fault : Option Fault} :
    Yields lo (do
      if !tagged then
        if let some f := fault then throw f
      return more : Parse Bool) fun _ _ => True := by
  refine .ite (fun _ => ?_) fun _ => .pure trivial
  split
  · exact .stop .throw
  · exact .pure trivial

/-- The text of a template is read from a token, up to the next one. -/
theorem templateText_moves {tagged : Bool} (hl : l.token.isBad = false) :
    YieldsAt l lo (templateText tagged) fun _ _ => True := by
  unfold templateText
  refine .get fun s hs hcurrent => .keep fun _ => ?_
  have hstuck := not_stuck_of_token hs (hcurrent ▸ hl)
  have hlow : lo.offset ≤ s.rest.offset := Nat.le_trans hs.low hs.passed
  have hstop : s.current.span.stop = s.rest.offset := congrArg Span.stop hs.span
  have hpiece := ahead_templatePiece s.rest.fuel none s.rest
  -- The state after a piece is set by hand: nothing is left, or the token is the
  -- closing quote, or it is lexed behind the opening of a placeholder.
  generalize hread : templatePiece s.rest.fuel none s.rest = piece at hpiece ⊢
  obtain ⟨stop, fault, i⟩ := piece
  have hle := hpiece.offset_le
  have hi : i.In lo.text := (hs.start.ahead hs.rest).ahead hpiece
  cases stop with
  | finish =>
      refine .set (lo.to s.rest.offset) (fun t hst => ?_) (Progress.le_to hlow)
        fun _ => .stop .throw
      exact
        { low := Nat.le_of_eq hstop.symm
          noted := fun hlo => hst.noted (hs.noted hlo)
          span := rfl
          start := hi
          rest := .refl i
          passed := hstop ▸ hle
          ready := fun _ => hstop ▸ hle
          word := nofun
          stuck := fun h => absurd (hstuck.symm.trans (hst.stuck.symm.trans h)) Bool.false_ne_true
          lexed := fun h => absurd rfl h }
  | backquote =>
      obtain ⟨cs, hchars⟩ := (chars_templatePiece hread).1 rfl
      refine .set (lo.to i.offset) (fun t hst => ?_) (Progress.le_to (Nat.le_trans hlow hle))
        fun _ => templateEnd_placed
      have hpast := State.past_goOn (s := t) ⟨s.rest.offset, i.offset⟩ false hi rfl
        (fun hlo => hst.noted (hs.noted hlo)) (hst.stuck.trans hstuck)
      rw [lex_backquote hchars] at hpast
      exact hpast
  | placeholder =>
      obtain ⟨cs, hchars⟩ := (chars_templatePiece hread).2 rfl
      have hskip := offset_skip_placeholder hchars
      have hbehind : lo.offset ≤ (i.skip 2).offset :=
        Nat.le_trans (Nat.le_trans hlow hle) (i.ahead_skip 2).offset_le
      refine .set (lo.to (i.skip 2).offset) (fun t hst => ?_) (Progress.le_to hbehind)
        fun _ => templateEnd_placed
      exact State.past_goOn ⟨i.offset, i.offset + 2⟩ false (hi.ahead (i.ahead_skip 2))
        hskip (fun hlo => hst.noted (hs.noted hlo)) (hst.stuck.trans hstuck)

/-- The expressions of a template. -/
theorem templateParts_placed (h : rules.Placed) {tagged : Bool} (hl : l.token = .mark .backquote) :
    YieldsAt l lo (templateParts rules tagged) fun ns hi => AllPlaced Kind.isValue lo hi ns := by
  unfold templateParts
  refine .skip (templateText_moves (by rw [hl]; rfl)) fun more => ?_
  refine .collect Kind.isValue (fun parts more mid hparts => ?_) fun parts more hi hparts => ?_
  · refine .ite (fun _ => .pure hparts) fun _ =>
      .bind (expression_placed h).withIn fun part hi hpart => ?_
    have hall : AllPlaced Kind.isValue lo hi (parts ++ [part]) := hparts.concat hpart
    refine .ifMark (fun l hl => ?_) (.skip fun _ => .pure (hparts.mono (le_refl lo) hpart.le))
    exact .skip (templateText_moves (by rw [hl]; rfl)) fun more => .pure hall
  · exact .skip fun _ => .pure hparts

/-- A template has the expressions between its texts as its parts. -/
theorem templateLiteral_placed (h : rules.Placed) (hl : l.token = .mark .backquote) :
    YieldsAt l lo (templateLiteral rules) fun n hi => n.Placed Kind.isValue lo hi := by
  unfold templateLiteral
  refine .keep fun start => .bind (templateParts_placed h hl) fun parts hi hparts =>
    .close fun span => ?_
  exact .ofUnbound rfl rfl hparts.unbound

/-- A regular expression at a token that looks like an operator. -/
theorem regexLiteral_placed (hl : l.token.isBad = false) :
    YieldsAt l lo regexLiteral fun n hi => n.Placed Kind.isValue lo hi := by
  unfold regexLiteral
  refine .get fun s hs hcurrent => .keep fun _ => ?_
  have hgood : s.current.token.isBad = false := hcurrent ▸ hl
  cases hread : readRegex s.start with
  | mk result after =>
      cases result with
      | error fault =>
          -- The parser is stuck at what is no regular expression.
          have hstop : s.current.span.stop = s.rest.offset := congrArg Span.stop hs.span
          refine .set (lo.to s.rest.offset) (fun t hst => ?_) hs.le_rest fun _ => .throw
          exact
            { low := Nat.le_of_eq hstop.symm
              noted := fun hlo => hst.noted (hs.noted hlo)
              span := by rw [hst.start, hst.rest]; exact hs.span
              start := by rw [hst.start]; exact hs.start
              rest := by rw [hst.start, hst.rest]; exact hs.rest
              passed := by rw [hst.rest]; exact Nat.le_of_eq hstop
              ready := nofun
              word := nofun
              stuck := fun _ => rfl
              lexed := fun _ => nofun }
      | ok faults =>
          have hafter := ahead_readRegex hread
          have hle : lo ≤ lo.to after.offset := Progress.le_to
            (Nat.le_trans hs.low (Nat.le_trans (hs.ready hgood) hafter.offset_le))
          refine .set (lo.to after.offset) (fun t hst => ?_) hle fun _ => ?_
          · exact State.past_goOn ⟨s.start.offset, after.offset⟩ false
              (hs.start.ahead hafter) rfl (fun hlo => hst.noted (hs.noted hlo))
              (hst.stuck.trans (not_stuck_of_token hs hgood))
          · exact .skip fun _ => .skip fun span => .pure (.leaf rfl rfl hle)

end AmdKit.Script
