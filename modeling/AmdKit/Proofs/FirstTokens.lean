/-
  AmdKit.Proofs.FirstTokens
  ────────────────────────────────
  **WHERE EXPRESSIONS BEGIN.**

  An expression begins where its first token does.  What a parser returns is enough to
  say that of most of them, whatever their states do on the way:

      Returns p P      —  whatever `p` returns satisfies `P`
      ReturnsAt l p P  —  so it does where the current token is `l`

  The one exception is an operator without a left operand: a fault is noted there, and
  something that stands at the operator takes the place of the operand.  So of the
  expressions around it the statement is made only as long as no fault has been noted.
-/
import AmdKit.Proofs.ReadExpressions

namespace AmdKit.Script

open Text (Span)

/-! ## §1. What a parser returns. -/

/-- Whatever the parser returns satisfies the condition. -/
def Returns {α : Type} (p : Parse α) (P : α → Prop) : Prop := ∀ s a t, p s = .ok a t → P a

section Returns

variable {α β : Type} {p : Parse α} {f : α → Parse β} {P : β → Prop} {Q : α → Prop}
  {l : Lexeme}

/-- Two parsers one after the other return something if both of them do. -/
theorem exists_of_bind_eq_ok {s u : State} {b : β} (h : (p >>= f) s = .ok b u) :
    ∃ a t, p s = .ok a t ∧ f a t = .ok b u := by
  replace h : EStateM.bind p f s = .ok b u := h
  unfold EStateM.bind at h
  cases hp : p s with
  | error e t =>
      rw [hp] at h
      cases h
  | ok a t =>
      rw [hp] at h
      exact ⟨a, t, rfl, h⟩

/-- What a parser in front returns may be used. -/
theorem Returns.bindOf (hp : Returns p Q) (hf : ∀ a, Q a → Returns (f a) P) :
    Returns (p >>= f) P := by
  intro s b u h
  obtain ⟨a, t, hrun, hrest⟩ := exists_of_bind_eq_ok h
  exact hf a (hp s a t hrun) t b u hrest

theorem Returns.bind (hf : ∀ a, Returns (f a) P) : Returns (p >>= f) P :=
  .bindOf (fun _ _ _ _ => trivial) fun a _ => hf a

theorem Returns.pure {b : β} (h : P b) : Returns (pure b) P := by
  intro s c t hrun
  replace hrun : EStateM.Result.ok b s = .ok c t := hrun
  cases hrun
  exact h

/-- A parser that fails returns nothing. -/
theorem Returns.fail {issue : Issue} {offset : Nat} : Returns (fail issue offset) P :=
  .bind fun _ _ _ _ h => by cases h

theorem Returns.failHere {issue : Issue} : Returns (failHere issue) P := .bind fun _ => .fail

theorem Returns.ite {c : Prop} {_ : Decidable c} {q r : Parse β} (hq : Returns q P)
    (hr : Returns r P) : Returns (if c then q else r) P := by
  split
  · exact hq
  · exact hr

/-- A check in front of the rest. -/
theorem Returns.check {c : Prop} {_ : Decidable c} {q : Parse PUnit} {g : PUnit → Parse β}
    (hg : ∀ r, Returns (g r) P) : Returns (if c then q >>= g else g ⟨⟩) P :=
  .ite (.bind hg) (hg _)

/-- The range from a given offset on. -/
theorem Returns.here {start : Nat} : Returns (spanFrom start) fun span => span.start = start := by
  intro s span t hrun
  replace hrun : EStateM.Result.ok ⟨start, s.previous.stop⟩ s = .ok span t := hrun
  cases hrun
  rfl

/-- A tree whose range begins at a given offset. -/
theorem Returns.close {start : Nat} {g : Span → β} (h : ∀ span, span.start = start → P (g span)) :
    Returns (do return g (← spanFrom start)) P :=
  .bindOf .here fun span hspan => .pure (h span hspan)

/-- A context does not matter to what is returned. -/
theorem Returns.within {change : Context → Context} {q : Parse β} (h : Returns q P) :
    Returns (within change q) P := by
  intro s b t hrun
  unfold Script.within at hrun
  split at hrun
  next heq =>
    cases hrun
    exact h _ _ _ heq
  next => cases hrun

/-- Repeating a step keeps what the step keeps. -/
theorem Returns.iterate {step : β → Parse (β × Bool)} {b : β} (h : P b)
    (hstep : ∀ b, P b → Returns (step b) fun r => P r.1) : Returns (iterate step b) P := by
  have hfuel : ∀ fuel b, P b → Returns (iterateFrom step fuel b) P := by
    intro fuel
    induction fuel with
    | zero => exact fun b _ => .bind fun _ _ _ _ h => by cases h
    | succ fuel ih =>
        intro b hb
        exact .bindOf (hstep b hb) fun r hr => .ite (.pure hr) (ih r.1 hr)
  exact .bind fun fuel => hfuel fuel b h

theorem ReturnsAt.of {q : Parse β} (h : Returns q P) : ReturnsAt l q P :=
  fun _ s b t _ _ hrun => h s b t hrun

theorem ReturnsAt.bindOf (hp : ReturnsAt l p Q) (hf : ∀ a, Q a → Returns (f a) P) :
    ReturnsAt l (p >>= f) P := by
  intro lo s b u hs hl h
  obtain ⟨a, t, hrun, hrest⟩ := exists_of_bind_eq_ok h
  exact hf a (hp lo s a t hs hl hrun) t b u hrest

/-- A step that leaves the tokens alone leads to the same token. -/
theorem ReturnsAt.keep [Keeps p] (hf : ∀ a, ReturnsAt l (f a) P) : ReturnsAt l (p >>= f) P := by
  intro lo s b u hs hl h
  obtain ⟨a, t, hst, hrun⟩ := exists_run_of_keeps (p := p) f s
  rw [hrun] at h
  exact hf a lo t b u (hs.same hst) (hst.current.trans hl) h

theorem ReturnsAt.token {f : Token → Parse β} (hf : ReturnsAt l (f l.token) P) :
    ReturnsAt l (token >>= f) P := by
  intro lo s b u hs hl h
  refine hf lo s b u hs hl ?_
  rw [← hl]
  exact h

/-- The position of a parser is where its token begins, unless that is the end. -/
theorem ReturnsAt.here (hl : l.token ≠ .finish) :
    ReturnsAt l Script.position fun start => start = l.span.start := by
  intro lo s start t hs hcurrent h
  rw [position_of_current hl hcurrent] at h
  cases h
  rfl

theorem ReturnsAt.position {f : Nat → Parse β} (hl : l.token ≠ .finish)
    (hf : ReturnsAt l (f l.span.start) P) : ReturnsAt l (position >>= f) P := by
  intro lo s b u hs hcurrent h
  obtain ⟨start, t, hrun, hrest⟩ := exists_of_bind_eq_ok h
  have hposition : Script.position s = .ok l.span.start s := position_of_current hl hcurrent
  rw [hposition] at hrun
  cases hrun
  exact hf lo s b u hs hcurrent hrest

theorem ReturnsAt.ite {c : Prop} {_ : Decidable c} {q r : Parse β} (hq : c → ReturnsAt l q P)
    (hr : ¬ c → ReturnsAt l r P) : ReturnsAt l (if c then q else r) P := by
  split
  next hc => exact hq hc
  next hc => exact hr hc

/-- What follows if the word is passed, and what follows if it does not stand here. -/
theorem ReturnsAt.ifEatWord {w : Word} {q r : Parse β} (hq : Returns q P)
    (hr : ReturnsAt l r P) : ReturnsAt l (do if ← eatWord w then q else r) P := by
  intro lo s b u hs hl h
  by_cases hw : s.current.token = .word w
  · obtain ⟨eaten, t, hrun, hrest⟩ := exists_of_bind_eq_ok h
    have heaten : eaten = true := by
      replace hrun : (if s.current.token = .word w then (do bump; return true : Parse Bool)
        else return false) s = .ok eaten t := hrun
      rw [if_pos hw] at hrun
      exact Returns.bind (P := (· = true)) (fun _ => .pure rfl) s eaten t hrun
    rw [if_pos heaten] at hrest
    exact hq t b u hrest
  · refine hr lo s b u hs hl ?_
    obtain ⟨eaten, t, hrun, hrest⟩ := exists_of_bind_eq_ok h
    replace hrun : (if s.current.token = .word w then (do bump; return true : Parse Bool)
      else return false) s = .ok eaten t := hrun
    rw [if_neg hw] at hrun
    cases hrun
    exact hrest

/-- What follows a token that is passed can look at its range. -/
theorem ReturnsAt.passed {f : Span → Parse β} (hfinish : l.token ≠ .finish)
    (hbad : l.token.isBad = false) (hf : Returns (f l.span) P) :
    ReturnsAt l (do bump; f (← previous)) P := by
  intro lo s b u hs hl h
  obtain ⟨_, t, hrun, hrest⟩ := exists_of_bind_eq_ok h
  have hpass : (s.current.token = .finish || s.stuck) = false := by
    rw [hl, not_stuck_of_token hs (hl ▸ hbad), Bool.or_false]
    exact decide_eq_false hfinish
  obtain ⟨t', hbump, -, hprevious⟩ := past_bump hs hpass
  rw [hbump] at hrun
  cases hrun
  refine hf t b u ?_
  rw [← hl, ← hprevious]
  exact hrest

end Returns

variable {rules : Rules} {l : Lexeme} {start : Nat}

/-! ## §2. Functions, classes and literals. -/

/-- A function begins where its range has been started. -/
theorem functionFrom_begins {naming : Naming} {isAsync : Bool} :
    Returns (functionFrom rules naming start isAsync) (BeginsAt start) := by
  unfold functionFrom
  refine .bind fun _ => .bind fun isGenerator => ?_
  dsimp only
  split <;> exact .bind fun name => .bind fun parts => .close fun _ h => h

/-- A function begins at its word. -/
theorem plainFunction_begins {naming : Naming} (hl : l.token ≠ .finish) :
    ReturnsAt l (plainFunction rules naming) (BeginsAt l.span.start) :=
  .position hl (.of functionFrom_begins)

/-- An asynchronous function begins at the word in front. -/
theorem asyncFunction_begins {naming : Naming} (hl : l.token ≠ .finish) :
    ReturnsAt l (asyncFunction rules naming) (BeginsAt l.span.start) :=
  .position hl (.of (.bind fun _ => functionFrom_begins))

theorem classFrom_begins {nameRequired : Bool} :
    Returns (classFrom rules start nameRequired) (BeginsAt start) := by
  refine .within (.bind fun _ => .ite (.bind fun _ => .bind fun name => ?_) (.bind fun name => ?_))
  all_goals
    refine .bind fun found => .ite (.bind fun n => .bind fun parent => ?_) (.bind fun parent => ?_)
    all_goals
      refine .bind fun _ => .bind fun members => .bind fun ends => .ite ?_ ?_
      · exact .bind fun t => .bind fun _ => .close fun _ h => h
      · exact .bind fun _ => .close fun _ h => h

/-- A list begins at its bracket. -/
theorem listLiteral_begins (hl : l.token ≠ .finish) :
    ReturnsAt l (listLiteral rules) (BeginsAt l.span.start) :=
  .position hl (.of (.bind fun _ => .bind fun _ => .bind fun _ => .close fun _ h => h))

/-- An object begins at its brace. -/
theorem objectLiteral_begins (hl : l.token ≠ .finish) :
    ReturnsAt l (objectLiteral rules) (BeginsAt l.span.start) :=
  .position hl (.of (.bind fun _ => .close fun _ h => h))

/-- A template begins at its quote. -/
theorem templateLiteral_begins (hl : l.token ≠ .finish) :
    ReturnsAt l (templateLiteral rules) (BeginsAt l.span.start) :=
  .position hl (.of (.bind fun _ => .close fun _ h => h))

/-- A regular expression begins at its slash. -/
theorem regexLiteral_begins : ReturnsAt l regexLiteral (BeginsAt l.span.start) := by
  intro lo s n u hs hl hrun
  have hstart : s.start.offset = l.span.start := hl ▸ (congrArg Span.start hs.span).symm
  unfold regexLiteral at hrun
  obtain ⟨s', t, hget, hrun⟩ := exists_of_bind_eq_ok hrun
  cases hget
  obtain ⟨_, t, -, hread⟩ := exists_of_bind_eq_ok hrun
  generalize readRegex s.start = read at hread
  obtain ⟨result, after⟩ := read
  cases result with
  | error fault =>
      obtain ⟨_, t, -, hthrow⟩ := exists_of_bind_eq_ok hread
      cases hthrow
  | ok faults =>
      -- The range of the literal is set by hand, and the faults of its flags are noted after.
      obtain ⟨_, v, hset, hflags⟩ := exists_of_bind_eq_ok hread
      obtain ⟨_, w, hnote, hleaf⟩ := exists_of_bind_eq_ok hflags
      have hprevious := (sameTokens_of_keeps hnote).previous
      cases hset
      cases hleaf
      show u.previous.start = l.span.start
      rw [hprevious, ← hstart]

/-! ## §3. Arrow functions and parentheses. -/

/-- So does an arrow function: the range of one is started in front of its parameters. -/
theorem arrowFrom_begins {isAsync : Bool} {parameters : List Node} :
    Returns (arrowFrom rules start isAsync parameters) (BeginsAt start) :=
  .bind fun _ => .close fun _ h => h

/-- An operator and its operands begin where the left one does. -/
theorem binaryFrom_begins {fuel least : Nat} {left : Node} (hleft : BeginsAt start left) :
    Returns (binaryFrom rules fuel left least) (BeginsAt start) := by
  induction fuel generalizing left least with
  | zero => exact .bind fun _ _ _ _ h => by cases h
  | succ fuel ih =>
      refine .bind fun found => ?_
      split
      · exact .pure hleft
      · refine .ite (.pure hleft) (.check fun _ => .bind fun _ => .bind fun operand => ?_)
        exact .bind fun right => .bind fun _ => ih hleft

theorem binaryRest_begins {left : Node} (hleft : BeginsAt start left) :
    Returns (binaryRest rules left) (BeginsAt start) := .bind fun _ => binaryFrom_begins hleft

/-- Operators behind an arrow function with a block begin with it. -/
theorem arrowAfter_begins {isAsync canBeArrow : Bool} {items : List Node} {comma : Option Span} :
    Returns (arrowAfter rules start isAsync canBeArrow items comma) (BeginsAt start) := by
  unfold arrowAfter
  refine .bind fun before => .check fun _ => .check fun _ => ?_
  refine .bind fun _ => .bind fun parameters => ?_
  refine .bindOf arrowFrom_begins fun arrow harrow => .bind fun operator => ?_
  refine .ite (.bind fun _ => ?_) (.pure harrow)
  exact .bindOf (binaryRest_begins harrow) fun whole hwhole => .bind fun ends => .check fun _ =>
    .pure hwhole

/-- What stands between parentheses begins at the first one. -/
theorem parenOrArrow_begins {canBeArrow : Bool} (hl : l.token ≠ .finish) :
    ReturnsAt l (parenOrArrow rules canBeArrow none) (BeginsAt l.span.start) := by
  refine .position hl (.of (.bind fun ⟨items, comma⟩ => ?_))
  refine .bind fun arrow => .ite arrowAfter_begins (.bindOf .here fun whole hwhole => ?_)
  dsimp only
  split
  case' h_1 => refine .bind fun _ => ?_
  all_goals
    refine .bind fun _ => ?_
    split
    · exact .fail
    · exact .pure hwhole
    · exact .pure hwhole

/-- A call of `async` begins at its word, and so does an arrow function after it. -/
theorem parenOrArrow_async_begins {canBeArrow : Bool} {span : Span} :
    Returns (parenOrArrow rules canBeArrow (some span)) (BeginsAt span.start) := by
  refine .bindOf (Q := fun start => start = span.start) (.pure rfl) fun start hstart => ?_
  subst hstart
  refine .bind fun ⟨items, comma⟩ => .bind fun arrow => .ite arrowAfter_begins ?_
  exact .close fun _ h => h

/-! ## §4. Primary expressions. -/

/-- An identifier is reported where its token begins. -/
theorem identifier_begins {yieldAllowed awaitAllowed : Bool} (hl : l.token ≠ .finish) :
    ReturnsAt l (identifier yieldAllowed awaitAllowed) fun name => name.2.start = l.span.start := by
  unfold identifier
  refine .position hl (.of (.bind fun t => ?_))
  split
  · exact .failHere
  next text _ =>
    refine .bind fun _ => .bind fun before => .bind fun c => ?_
    have hend : ∀ _ : PUnit, Returns (do return (text, ← spanFrom l.span.start))
        fun name => name.2.start = l.span.start := fun _ => .close fun _ h => h
    dsimp only
    split
    · exact .check hend
    · refine .bind fun _ => .ite ?_ (.ite (.check hend) (.check hend))
      exact .check fun _ => .check fun _ => .check hend

/-- A name and an arrow function whose only parameter it is begin where the name does. -/
theorem identifierOrArrow_begins {canBeArrow : Bool} (hl : l.token ≠ .finish) :
    ReturnsAt l (identifierOrArrow rules l.span.start canBeArrow) (BeginsAt l.span.start) := by
  unfold identifierOrArrow
  refine .keep fun t => .bindOf (.keep fun c => identifier_begins hl) fun ⟨text, span⟩ hspan => ?_
  have harrow : ∀ {isAsync : Bool} {parameters : List Node}, Returns
      (arrowFrom rules l.span.start isAsync parameters) (BeginsAt l.span.start) := arrowFrom_begins
  refine .bind fun c => .bind fun before => .bind fun name => .ite ?_ ?_
  · refine .bind fun isOf => .bind fun next => .ite ?_ ?_
    · exact .ite (.bind fun word => .bind fun _ => .pure hspan) (.pure hspan)
    · exact .bind fun name => .bind fun _ => harrow
  · refine .bind fun before => .bind fun arrow => ?_
    exact .ite harrow (.pure hspan)

/-- A token that is an expression of its own begins where the token does. -/
theorem simple_begins {kind : Kind} (hfinish : l.token ≠ .finish) (hbad : l.token.isBad = false) :
    ReturnsAt l (simple kind) (BeginsAt l.span.start) :=
  .passed hfinish hbad (.pure rfl)

/-- A primary expression begins at its first token. -/
theorem primary_begins (hl : l.token ≠ .finish) :
    ReturnsAt l (primary rules) (BeginsAt l.span.start) := by
  unfold primary
  refine .position hl (.keep fun s => .token ?_)
  -- The same cases as for where a primary expression is placed.
  split
  case h_1 htoken | h_2 htoken | h_3 htoken | h_4 htoken | h_5 _ htoken | h_6 _ htoken
    | h_7 _ htoken => exact simple_begins hl (by rw [htoken]; rfl)
  case h_8 => exact plainFunction_begins hl
  case h_9 => exact .of classFrom_begins
  case h_10 => exact listLiteral_begins hl
  case h_11 => exact objectLiteral_begins hl
  case h_12 => exact templateLiteral_begins hl
  case h_13 => exact parenOrArrow_begins hl
  case h_14 | h_15 => exact regexLiteral_begins
  case h_16 => exact .of (.bind fun _ => .bind fun _ => .close fun _ h => h)
  case h_17 =>
      refine .keep fun isAsync => .ite (fun _ => asyncFunction_begins hl) fun _ => ?_
      have hother : ReturnsAt l (do
          if l.token = .word .let_ || (← atIdentifier) then
            identifierOrArrow rules l.span.start (decide (s.arrowStart = some l.span.start))
          else failHere .expressionExpected) (BeginsAt l.span.start) :=
        .keep fun isName => .ite (fun _ => identifierOrArrow_begins hl) fun _ => .of .failHere
      refine .ite (fun hasync => ?_) fun _ => hother
      have hword : l.token = .word .async_ := of_decide_eq_true (Bool.and_eq_true _ _ ▸ hasync).2
      refine .keep fun next => .ite (fun _ => ?_) fun _ => hother
      exact .passed hl (by rw [hword]; rfl) parenOrArrow_async_begins

/-! ## §5. Members and calls. -/

/-- A node that begins where its base does. -/
theorem beginsAt_found {base : Base} {kind : Kind} {span : Span} {ns : List Node}
    (hbase : BeginsAt start base.node) (hspan : span.start = base.node.span.start) :
    ∀ n ∈ some (Node.mk kind span ns), BeginsAt start n := by
  intro n hn
  obtain rfl := Option.some.inj hn
  exact hspan.trans hbase

/-- A member behind a point begins where its base does; without a point nothing is found. -/
theorem member_begins {base : Base} {questioned : Bool} (hbase : BeginsAt start base.node) :
    Returns (do
      if questioned || (← eatMark .dot) then
        if ← atMark .hash then let _ ← privateName
        else let _ ← wordName
        return some (.mk (if questioned || base.node.isOptional then .optionalMember else .member)
          (← spanFrom base.node.span.start) [base.node])
      match base with
      | .value _ => return none
      | .parent _ => failHere .invalidSuper) fun found => ∀ n ∈ found, BeginsAt start n := by
  refine .bind fun dot => .ite (.bind fun hash => ?_) ?_
  · refine .ite (.bind fun _ => ?_) (.bind fun _ => ?_)
    all_goals exact .close fun _ => beginsAt_found hbase
  · split
    · exact .pure nofun
    · exact .failHere

/-- Members and calls begin where what they belong to does. -/
theorem subscript_begins {base : Base} {callable : Bool} (hbase : BeginsAt start base.node) :
    Returns (subscript rules base callable) fun found => ∀ n ∈ found, BeginsAt start n := by
  unfold subscript
  refine .bind fun questioned => .bind fun bracket => .ite ?_ (.bind fun paren => .ite ?_ ?_)
  · exact .bind fun key => .bind fun _ => .close fun _ => beginsAt_found hbase
  · exact .bind fun items => .close fun _ => beginsAt_found hbase
  refine .bind fun tick => .ite (.check fun _ => ?_) (member_begins hbase)
  split
  · exact .bind fun parts => .close fun _ => beginsAt_found hbase
  · exact member_begins hbase

/-- However many of them follow, by induction on their number. -/
theorem subscripts_begins {base : Base} {callable : Bool} (hbase : BeginsAt start base.node) :
    Returns (subscripts rules base callable) (BeginsAt start) := by
  unfold subscripts
  refine .bindOf (Q := fun base => BeginsAt start base.node) (.iterate hbase fun base hbase => ?_)
    fun last hlast => .pure hlast
  refine .bindOf (subscript_begins hbase) fun found hfound => ?_
  cases found with
  | none => exact .pure hbase
  | some n => exact .pure (hfound n rfl)

/-- What follows a word that is no expression of its own begins at the word. -/
theorem subscripts_leaf_begins {base : Span → Base} {callable : Bool} {kind : Kind}
    (hbase : ∀ span, (base span).node = .leaf kind span) :
    Returns (do subscripts rules (base (← spanFrom start)) callable) (BeginsAt start) := by
  refine .bindOf .here fun span hspan => subscripts_begins ?_
  rw [hbase]
  exact hspan

theorem importExpression_begins {callable : Bool} :
    Returns (importExpression rules start callable) (BeginsAt start) := by
  unfold importExpression
  refine .bind fun dot => .ite ?_ (subscripts_leaf_begins fun _ => rfl)
  refine .bind fun _ => .bind fun name => .check fun _ => ?_
  exact subscripts_leaf_begins fun _ => rfl

/-- A construction begins where its word does, and so do members and calls behind it. -/
theorem newExpression_begins : Returns (newExpression rules start) (BeginsAt start) := by
  unfold newExpression
  refine .bind fun dot => .ite (.bind fun target => .check fun _ => ?_) ?_
  · exact .bind fun c => .check fun _ => subscripts_leaf_begins fun _ => rfl
  refine .bind fun callee => .check fun _ => .bind fun paren => .ite ?_ (.close fun _ h => h)
  exact .bind fun items => .bindOf .here fun span hspan => subscripts_begins hspan

/-- What may stand after a `new` begins at its first token. -/
theorem memberExpression_begins (hl : l.token ≠ .finish) :
    ReturnsAt l (memberExpression rules) (BeginsAt l.span.start) := by
  unfold memberExpression
  refine .position hl (.ifEatWord newExpression_begins (.ifEatWord ?_ (.ifEatWord
    importExpression_begins ?_)))
  · exact subscripts_leaf_begins fun _ => rfl
  · exact .bindOf (primary_begins hl) fun base hbase => .ite (.pure hbase) (subscripts_begins hbase)

/-- A call, a member, or something simpler begins at its first token. -/
theorem leftHandExpression_begins (hl : l.token ≠ .finish) :
    ReturnsAt l (leftHandExpression rules) (BeginsAt l.span.start) := by
  unfold leftHandExpression
  refine .position hl (.ifEatWord (subscripts_leaf_begins fun _ => rfl) (.ifEatWord
    importExpression_begins ?_))
  refine .bindOf (memberExpression_begins hl) fun callee hcallee => .ite (.pure hcallee) ?_
  refine .bind fun paren => .ite (.bind fun items => ?_) (.pure hcallee)
  exact .bindOf .here fun span hspan => subscripts_begins hspan

/-! ## §6. Operators. -/

/-- An `await` begins where its word does, be it a name or an operator. -/
theorem awaitExpression_begins (hl : l.token ≠ .finish) :
    ReturnsAt l (awaitExpression rules) (BeginsAt l.span.start) := by
  refine .position hl (.of (.bind fun _ => .bind fun word => .bind fun star => .check fun _ => ?_))
  refine .bind fun c => .bind fun t => ?_
  dsimp only
  split
  all_goals
    refine .bind fun alone => .ite (.check fun _ => .close fun _ h => h) ?_
    refine .check fun _ => .check fun _ => .check fun _ => ?_
    exact .bind fun operand => .close fun _ h => h

/-- An operand begins at its first token, an operator in front of it included. -/
theorem unaryExpression_begins (hl : l.token ≠ .finish) :
    ReturnsAt l (unaryExpression rules) (BeginsAt l.span.start) := by
  unfold unaryExpression
  refine .position hl (.keep fun updates => .ite (fun _ => .of ?_) fun _ => ?_)
  · exact .bind fun _ => .bind fun operand => .bind fun _ => .pure rfl
  refine .keep fun isUnary => .ite (fun _ => .of ?_) fun _ => ?_
  · refine .bind fun isDelete => .bind fun _ => .bind fun operand => ?_
    split
    · exact .check fun _ => .pure rfl
    · exact .pure rfl
  refine .keep fun isAwait => .ite (fun _ => awaitExpression_begins hl) fun _ => ?_
  refine .bindOf (leftHandExpression_begins hl) fun operand hoperand => .bind fun before => ?_
  refine .ite (.pure hoperand) (.bind fun updates => .ite ?_ (.pure hoperand))
  exact .bind fun _ => .bind fun _ => .close fun _ h => h.trans hoperand

/-! ## §7. Expressions in which a fault may have been noted. -/

variable {lo mid : Progress}

/-- What a parser returns, beside what is known of its runs. -/
theorem YieldsAt.returning {α : Type} {p : Parse α} {Q : α → Progress → Prop} {P : α → Prop}
    (h : YieldsAt l lo p Q) (h' : ReturnsAt l p P) : YieldsAt l lo p fun a hi => Q a hi ∧ P a := by
  intro s hs hl
  have hrun := h s hs hl
  cases hp : p s with
  | error e t =>
      rw [hp] at hrun
      exact hrun
  | ok a t =>
      rw [hp] at hrun
      obtain ⟨hi, hle, ht, hQ⟩ := hrun
      exact ⟨hi, hle, ht, hQ, h' lo s a t hs hl hp⟩

/-- What a parser returns and where it ends may be found apart. -/
theorem Yields.returning {α : Type} {p : Parse α} {Q : α → Progress → Prop} {P : α → Prop}
    (h : Yields lo p Q) (h' : Returns p P) : Yields lo p fun a hi => Q a hi ∧ P a :=
  .of_at fun _ => h.at.returning (.of h')

/-- A fault is noted. -/
theorem note_notes {fault : Fault} : Yields lo (note fault) fun _ hi => hi.noted = true := by
  intro s hs
  have hsame : s.SameTokens { s with faults := fault :: s.faults } :=
    ⟨rfl, rfl, rfl, rfl, rfl, fun _ => List.cons_ne_nil _ _⟩
  exact ⟨lo.fault, lo.le_fault, { hs.same hsame with noted := fun _ => List.cons_ne_nil _ _ }, rfl⟩

/-- A fault that is reported is noted. -/
theorem reportHere_notes {issue : Issue} :
    Yields lo (reportHere issue) fun _ hi => hi.noted = true :=
  .skip fun _ => .skip fun _ => note_notes

/-- The tree begins at the offset unless a fault has been noted. -/
def StartsAt (start : Nat) (n : Node) (hi : Progress) : Prop :=
  hi.noted = false → BeginsAt start n

/-- Where no fault has been noted later on, none has been noted here. -/
theorem StartsAt.mono {start : Nat} {n : Node} {hi : Progress} (h : StartsAt start n mid)
    (hle : mid ≤ hi) : StartsAt start n hi := fun hclean => h (Progress.clean_of_le hle hclean)

/-- Operands and operators begin where the first operand does.  Something else stands in
for a first operand that is missing, and then a fault has been noted. -/
theorem binaryExpression_starts (h : rules.Placed) (hl : l.token ≠ .finish) :
    YieldsAt l lo (binaryExpression rules) (StartsAt l.span.start) := by
  unfold binaryExpression
  -- A first operand may be missing; then a fault is noted, and nothing more is claimed.
  refine .bind (Q := fun n hi => n.Placed Kind.isValue lo hi ∧ StartsAt l.span.start n hi)
    (.tryCatch ?operand fun fault => ?missing) fun left mid ⟨hleft, hstarts⟩ =>
      .ite (fun _ => .pure hstarts) fun _ => ?rest
  case operand =>
    have hoperand : YieldsAt l lo (rules .unary) fun n hi => n.Placed Kind.isValue lo hi :=
      Yields.at (h.value rfl)
    refine (hoperand.returning (h.operand hl)).weaken fun n hi hn => ?_
    exact ⟨hn.1, fun _ => hn.2⟩
  case missing =>
    refine .skip fun t => .skip fun found => ?_
    split
    · exact .throw
    · refine .bind reportHere_notes.low fun _ hi ⟨hle, hnoted⟩ => .skip fun _ => .skip fun _ => ?_
      exact .pure ⟨.leaf rfl rfl hle, fun hclean => absurd (hnoted.symm.trans hclean) nofun⟩
  case rest =>
    have hbegins : Returns (binaryRest rules left) (BeginsAt left.span.start) :=
      binaryRest_begins rfl
    have hrest := (binaryRest_placed h hleft).returning hbegins
    refine hrest.low.weaken fun n hi ⟨hle, _, hbegins⟩ hclean => ?_
    exact hbegins.trans (hstarts (Progress.clean_of_le hle hclean))

/-- A condition and its values begin where the condition does. -/
theorem conditionalExpression_starts (h : rules.Placed) (hl : l.token ≠ .finish) :
    YieldsAt l lo (conditionalExpression rules) (StartsAt l.span.start) := by
  have := YieldsTree.moves (h.value (show Rule.assignment.isPattern = false from rfl))
  unfold conditionalExpression
  refine .position hl (.bind (binaryExpression_starts h hl) fun test mid htest => ?_)
  refine .ite (fun _ => .pure htest) fun _ => .skip fun question => .ite (fun _ => ?_) fun _ =>
    .pure htest
  exact .skip fun yes => .skip fun _ => .skip fun no => .pure fun _ => rfl

/-- An assignment begins where its left side does. -/
theorem assignmentRest_starts (h : rules.Placed) {left : Node}
    (hleft : left.Placed Kind.isValue lo mid) (hstarts : StartsAt start left mid) :
    Yields mid (assignmentRest rules start left) (StartsAt start) := by
  have := YieldsTree.moves (h.value (show Rule.assignment.isPattern = false from rfl))
  have hnode : ∀ {simple : Bool} {target : Node} {top : Progress}, Yields top (do
      bump
      let value ← rules .assignment
      return Node.mk (.assignment simple) (← spanFrom start) [target, value]) (StartsAt start) :=
    .skip fun _ => .skip fun value => .spanFrom fun stop => .pure fun _ => rfl
  unfold assignmentRest
  refine .skip fun t => ?_
  split
  · exact .bind (Node.asAssigned_recasts hleft) fun target top _ => hnode
  · exact .bind (Node.asUpdated_recasts hleft) fun target top _ => hnode
  · exact .pure hstarts

/-- A `yield` begins where its word does. -/
theorem yieldExpression_begins (hl : l.token ≠ .finish) :
    ReturnsAt l (yieldExpression rules) (BeginsAt l.span.start) := by
  refine .position hl (.of (.bind fun _ => .bind fun c => .check fun _ => ?_))
  refine .bind fun delegates => .bind fun ends => .bind fun t => .ite (.close fun _ h => h) ?_
  exact .bind fun star => .bind fun value => .close fun _ h => h

/-- **An expression begins at its first token.** -/
theorem assignmentExpression_opens (h : rules.Placed) :
    YieldsAt l lo (assignmentExpression rules) l.Opens := by
  unfold assignmentExpression
  refine .keep fun c => .atWord (.ite (fun hyield => ?_) fun _ => ?_)
  · have hword : l.token = .word .yield_ := of_decide_eq_true (Bool.and_eq_true _ _ ▸ hyield).2
    have hfinish : l.token ≠ .finish := by rw [hword]; nofun
    refine ((yieldExpression_placed h).at.returning (yieldExpression_begins hfinish)).weaken ?_
    exact fun n hi hn => ⟨hfinish, by rw [hword]; rfl, fun _ => hn.2⟩
  refine .required fun hfinish hbad => .position hfinish ?_
  have hkeeps := Keeps.modify (g := fun s : State =>
    { s with arrowStart := if l.token.startsArrow then some l.span.start else none })
    fun _ => ⟨rfl, rfl, rfl, rfl, rfl, id⟩
  refine .keep fun _ => .bind (Q := fun n hi => n.Placed Kind.isValue lo hi
    ∧ StartsAt l.span.start n hi) ?_ fun left mid ⟨hleft, hstarts⟩ => ?_
  · exact fun s hs hl => (conditionalExpression_placed h s hs).and
      (conditionalExpression_starts h hfinish s hs hl) (fun n mid hi hle hn =>
        hn.mono (le_refl lo) hle) fun n mid hi hle hn => hn.mono hle
  have hopens : ∀ n hi, StartsAt l.span.start n hi → l.Opens n hi := fun n hi hn =>
    ⟨hfinish, hbad, hn⟩
  split
  case h_6 => exact (assignmentRest_starts h hleft hstarts).weaken hopens
  all_goals exact .pure (hopens left mid hstarts)

end AmdKit.Script
