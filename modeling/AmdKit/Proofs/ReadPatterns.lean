/-
  AmdKit.Proofs.ReadPatterns
  ────────────────────────────────
  **READING NAMES AND PATTERNS.**

  A name is read from where it begins.  A pattern is a formed tree whose names are
  bound; the expressions that are used in it stand in keys and default values.  An
  expression that turns out to be a pattern is turned into one without reading on:
  the pattern has the names that are used of the expression, or some of them.
-/
import AmdKit.Proofs.ParserSteps

namespace AmdKit.Script

open Text (Span)

variable {lo : Progress} {rules : Rules}

/-! ## §1. Names. -/

instance : Moves wordName := by
  unfold wordName
  refine .bind fun start => .bind fun t => ?_
  split <;> infer_instance

instance (w : Word) : Moves (checkIdentifier w) := by unfold checkIdentifier; infer_instance

instance : Moves refuseLet := by unfold refuseLet; infer_instance

instance : Keeps atIdentifier := by unfold atIdentifier; infer_instance

/-- The name begins from `lo` on and in front of `hi`. -/
structure NamePlaced (lo : Progress) (name : String × Span) (hi : Progress) : Prop where
  le : lo ≤ hi
  start : lo.offset ≤ name.2.start
  stop : name.2.start < hi.offset

/-- The name is used. -/
theorem NamePlaced.reference {hi : Progress} {name : String × Span} (h : NamePlaced lo name hi) :
    (Node.leaf (.reference name.1) name.2).Placed Kind.isValue lo hi :=
  .reference h.le h.start h.stop

/-- A name stands behind what has been read, and takes up at least a byte. -/
theorem identifier_placed (yieldAllowed awaitAllowed : Bool) :
    Yields lo (identifier yieldAllowed awaitAllowed) (NamePlaced lo) := by
  unfold identifier
  refine .of_at fun l => ?_
  cases hword : l.token.identifier? with
  | none =>
      refine .keep fun start => .required fun _ _ => ?_
      rw [hword]
      exact Yields.failHere.at
  | some text =>
      have hnotEnd : l.token ≠ .finish := by
        intro hfinish
        rw [hfinish] at hword
        cases hword
      refine .position hnotEnd (.required fun _ _ => ?_)
      rw [hword]
      refine .word (by rw [hword]; rfl) fun mid hle hlow hstart => ?_
      dsimp only
      refine .skip fun before => .skip fun c => ?_
      -- The checks on a name report faults, and leave its range alone.
      have hend : ∀ _ : PUnit, Yields mid (do return (text, ← spanFrom l.span.start))
          (NamePlaced lo) := fun _ => .spanFrom fun stop => .pure ⟨hle, hlow, hstart⟩
      split
      · exact .check hend
      · refine .skip fun _ => .ite (fun _ => ?_) fun _ => .ite (fun _ => .check hend) fun _ =>
          .check hend
        exact .check fun _ => .check fun _ => .check hend

theorem identifierReference_placed : Yields lo identifierReference (NamePlaced lo) :=
  .skip fun _ => identifier_placed _ _

theorem bindingIdentifier_placed : Yields lo bindingIdentifier (NamePlaced lo) := by
  unfold bindingIdentifier
  refine .bind (identifier_placed true true) fun ⟨text, span⟩ mid hname => ?_
  have hend : ∀ _ : PUnit, Yields mid (do
      let c ← context
      if (c.inAsync || c.inStaticBlock) && text = "await" then fail .identifierExpected span.start
      if c.inGenerator && text = "yield" then fail .identifierExpected span.start
      return (text, span)) (NamePlaced lo) :=
    fun _ => .skip fun c => .check fun _ => .check fun _ => .pure hname
  exact .ite (fun _ => .skip fun _ => .skip hend) fun _ => hend ⟨⟩

instance : Moves identifierReference := .of_yields fun _ => identifierReference_placed

instance : Moves bindingIdentifier := .of_yields fun _ => bindingIdentifier_placed

instance : Moves bindingIdentifier? := by unfold bindingIdentifier?; infer_instance

/-! ## §2. Property names. -/

/-- The name of a property has a tree if it is computed, and that one is placed. -/
theorem propertyName_placed (h : rules.Placed) :
    Yields lo (propertyName rules) fun name hi => AllPlaced Kind.isValue lo hi name.1.key := by
  have hword : ∀ (name : PropertyName) (start : Nat), name.key = [] →
      Yields lo (do bump; return (name, ← spanFrom start))
        fun name hi => AllPlaced Kind.isValue lo hi name.1.key := by
    intro name start hname
    refine .skip fun _ => .close fun span => ?_
    rw [hname]
    exact .nil (le_refl lo)
  unfold propertyName
  refine .skip fun start => .skip fun t => ?_
  split
  case h_6 =>
    refine .skip fun _ => .bind (h.value rfl).withIn fun key mid hkey => ?_
    exact .skip fun _ => .close fun span => .singleton hkey
  case h_7 => exact .unexpected
  all_goals exact hword _ start rfl

/-! ## §3. Patterns. -/

/-- An element of a pattern, with the value that stands in for a missing one. -/
theorem element_placed (h : rules.Placed) : YieldsTree Kind.isPart (element rules) := by
  intro lo
  unfold element
  refine .skip fun start => .bind h.pattern fun left mid hleft => .skip fun found => ?_
  refine .ite (fun _ => ?_) fun _ => .pure hleft
  refine .bind (h.value rfl).withIn fun right hi hright => .close fun span => ?_
  exact .ofFirst rfl rfl rfl hleft (.singleton hright.unbound)

instance (close : Mark) (isRest : Bool) : Moves (commaUnless close isRest) := by
  unfold commaUnless; infer_instance

/-- A pattern for a list has its elements one after the other. -/
theorem listPattern_placed (h : rules.Placed) : YieldsTree Kind.isPart (listPattern rules) := by
  intro lo
  unfold listPattern
  refine .skip fun start => .skip fun _ => ?_
  refine .collect Kind.isPart (fun items rest mid hitems => ?_) fun items rest hi hitems => ?_
  · refine .skip fun atEnd => .skip fun closes => .ite (fun _ => .pure hitems) fun _ => ?_
    refine .skip fun comma => .ite (fun _ => .pure hitems) fun _ => ?_
    cases rest
    case' some offset => refine .skip fun _ => ?_
    all_goals
      refine .skip fun start => .skip fun dots => .ite (fun _ => ?_) fun _ => ?_
      · refine .bind h.pattern fun inner hi hinner => .skip fun span => .skip fun _ => .pure ?_
        exact hitems.concat (.ofPatterns rfl rfl rfl (.singleton hinner))
      · exact .bind (element_placed h) fun item hi hitem => .skip fun _ =>
          .pure (hitems.concat hitem)
  · exact .skip fun _ => .close fun span => .ofPatterns rfl rfl rfl hitems

/-- A part of a pattern for an object, in any of its forms. -/
theorem objectPatternPart_placed (h : rules.Placed) :
    YieldsTree Kind.isPart (objectPatternPart rules) := by
  intro lo
  unfold objectPatternPart
  refine .skip fun start => .skip fun dots => .ite (fun _ => ?_) fun _ => ?_
  · refine .bind h.pattern fun inner hi hinner => .close fun span => ?_
    exact .ofPatterns rfl rfl rfl (.singleton hinner)
  · refine .bind (propertyName_placed h) fun ⟨name, nameSpan⟩ mid hname => ?_
    refine .skip fun colon => .ite (fun _ => ?_) fun _ => ?_
    · refine .bind (element_placed h) fun value hi hvalue => .close fun span => ?_
      exact .ofPatterns rfl rfl rfl (hname.unbound.part.concat hvalue)
    · have hbound : ∀ text, (Node.leaf (.binding text) nameSpan).Placed Kind.isPart lo mid :=
        fun text => .leaf rfl rfl hname.le
      split
      · refine .skip fun found => .ite (fun _ => ?_) fun _ => ?_
        · refine .bind (h.value rfl).withIn fun value hi hvalue => .close fun span => ?_
          exact .ofPatterns rfl rfl rfl (.cons (hbound _) (.singleton hvalue.unbound.part))
        · refine .skip fun c => .check fun _ => .close fun span => ?_
          exact .ofPatterns rfl rfl rfl (.singleton (hbound _))
      · exact .unexpected

instance (comma : Option Span) (parts : List Node) : Moves (checkRestParts comma parts) := by
  fun_induction checkRestParts comma parts <;> infer_instance

/-- Parts between braces, one after the other. -/
theorem bracedParts_placed {ok : Kind → Bool} {part : Parse Node} (hpart : YieldsTree ok part) :
    Yields lo (bracedParts part) fun parts hi => AllPlaced ok lo hi parts.1 := by
  unfold bracedParts
  refine .skip fun _ => .collected ok fun parts comma mid hparts => ?_
  refine .skip fun closes => .ite (fun _ => .pure hparts) fun _ => ?_
  refine .bind hpart fun next hi hnext => ?_
  have hall := AllPlaced.concat hparts hnext
  refine .skip fun closes => .ite (fun _ => .pure hall) fun _ => ?_
  exact .skip fun _ => .skip fun comma => .skip fun last => .pure hall

/-- A pattern for an object has its parts one after the other. -/
theorem objectPattern_placed (h : rules.Placed) : YieldsTree Kind.isPart (objectPattern rules) := by
  intro lo
  unfold objectPattern
  refine .skip fun start => .bind (bracedParts_placed (objectPatternPart_placed h)) ?_
  intro ⟨parts, comma⟩ hi hparts
  exact .skip fun span => .skip fun _ => .pure (.ofPatterns rfl rfl rfl hparts)

/-- Every pattern is placed, and a name is one. -/
theorem pattern_placed (h : rules.Placed) : YieldsTree Kind.isPart (pattern rules) := by
  intro lo
  unfold pattern
  refine .skip fun t => ?_
  split
  case h_1 | h_2 =>
    exact .bind bindingIdentifier_placed.low fun name hi hle => .pure (.leaf rfl rfl hle.1)
  case h_3 => exact listPattern_placed h
  case h_4 => exact objectPattern_placed h
  case h_5 => exact .unexpected

/-! ## §4. Expressions as patterns. -/

variable {hi mid : Progress} {n m : Node} {ns ms : List Node}

/-- The tree has been made of the other one: it is placed where that one is, is not the
name of a function or a class, and uses no name that the other one does not. -/
structure Node.Recasts (lo hi : Progress) (n m : Node) : Prop where
  placed : n.Placed Kind.isPart lo hi
  uses : ∀ i ∈ n.uses, i ∈ m.uses

/-- The trees have been made of the others, in their order. -/
structure RecastsAll (lo hi : Progress) (ns ms : List Node) : Prop where
  placed : AllPlaced Kind.isPart lo hi ns
  uses : ∀ n ∈ ns, ∀ i ∈ n.uses, ∃ m ∈ ms, i ∈ m.uses

theorem Node.Recasts.refl (h : n.Placed Kind.isPart lo hi) : n.Recasts lo hi n := ⟨h, fun _ => id⟩

/-- A leaf that is no reference uses no name. -/
theorem Node.not_mem_uses_leaf {kind : Kind} {span : Span} (hkind : kind.isUpright = true)
    {i : Nat} : i ∉ (Node.leaf kind span).uses := by
  intro hi
  rcases mem_uses_mk.mp hi with ⟨href, -⟩ | ⟨c, hc, -⟩
  · rw [Kind.isReference_of_isUpright hkind] at href
    cases href
  · exact absurd hc List.not_mem_nil

/-- A leaf that is no reference can be made of anything. -/
theorem Node.Recasts.leaf {kind : Kind} {span : Span} (hkind : kind.isUpright = true)
    (hpart : kind.isPart = true) (hle : lo ≤ hi) : (Node.leaf kind span).Recasts lo hi m :=
  ⟨.leaf hkind hpart hle, fun _ hi => absurd hi (not_mem_uses_leaf hkind)⟩

theorem RecastsAll.nil (hle : lo ≤ hi) : RecastsAll lo hi [] ms :=
  ⟨.nil hle, fun _ hn => absurd hn List.not_mem_nil⟩

/-- Some of the trees may have been left out. -/
theorem RecastsAll.skip (h : RecastsAll lo hi ns ms) : RecastsAll lo hi ns (m :: ms) := by
  refine ⟨h.placed, fun n hn i hi => ?_⟩
  obtain ⟨c, hc, hi⟩ := h.uses n hn i hi
  exact ⟨c, List.mem_cons_of_mem m hc, hi⟩

/-- One tree after the other: the names keep their order, since each has been one of the
tree that it comes from. -/
theorem RecastsAll.cons {ok : Kind → Bool} (h : n.Recasts lo hi m) (h' : RecastsAll lo hi ns ms)
    (hms : AllPlaced ok lo hi (m :: ms)) : RecastsAll lo hi (n :: ns) (m :: ms) := by
  refine ⟨⟨h.placed.le, List.forall_mem_cons.mpr ⟨h.placed, h'.placed.each⟩, ?_⟩,
    List.forall_mem_cons.mpr ⟨fun i hi => ⟨m, List.mem_cons_self, h.uses i hi⟩, h'.skip.uses⟩⟩
  refine List.pairwise_cons.mpr ⟨fun k hk i hi j hj => ?_, h'.placed.inOrder⟩
  obtain ⟨c, hc, hj⟩ := h'.uses k hk j hj
  exact (List.pairwise_cons.mp hms.inOrder).1 c hc i (h.uses i hi) j hj

/-- A name in front of what has been made of the trees. -/
theorem RecastsAll.bind {name : String} {span : Span} (h : RecastsAll lo hi ns ms) :
    RecastsAll lo hi (Node.leaf (.binding name) span :: ns) ms := by
  have hleaf : (Node.leaf (.binding name) span).Placed Kind.isPart lo lo :=
    .leaf rfl rfl (le_refl lo)
  exact ⟨.cons hleaf h.placed, List.forall_mem_cons.mpr
    ⟨fun _ hi => absurd hi (Node.not_mem_uses_leaf rfl), h.uses⟩⟩

theorem RecastsAll.refl (h : AllPlaced Kind.isPart lo hi ns) : RecastsAll lo hi ns ns :=
  ⟨h, fun n hn _ hi => ⟨n, hn, hi⟩⟩

theorem RecastsAll.singleton (h : n.Recasts lo hi m) : RecastsAll lo hi [n] (m :: ms) := by
  refine ⟨.singleton h.placed, fun k hk i hi => ?_⟩
  rw [List.mem_singleton.mp hk] at hi
  exact ⟨m, List.mem_cons_self, h.uses i hi⟩

/-- The parts of a tree are placed where the tree is. -/
theorem Node.Placed.children {ok : Kind → Bool} (h : n.Placed ok lo hi)
    (hkind : n.kind.isUpright = true) (hfunction : n.kind ≠ .function) :
    AllPlaced Kind.isPart lo hi n.children := by
  have hself := h.formed n (mem_subtrees_self n)
  refine ⟨h.le, fun c hc => ⟨h.le, ?_, fun k hk => h.formed k (mem_subtrees_of_child hc hk),
    fun i hi => h.uses i (mem_uses_of_child hc hi),
    fun hclean k hk => h.calls hclean k (mem_subtrees_of_child hc hk)⟩, ?_⟩
  · unfold Kind.isPart
    cases hdeclared : c.kind.isDeclared with
    | false => rfl
    | true =>
        rcases hself.named ⟨c, hc, hdeclared⟩ with hn | hn
        · exact absurd hn hfunction
        · rw [hn] at hkind
          cases hkind
  · have hfirst : n.walkedFirst = n.children := by
      unfold walkedFirst
      split
      next heq => rw [heq] at hkind; cases hkind
      next heq => rw [heq] at hkind; cases hkind
      next => rfl
    exact hfirst ▸ hself.inOrder.first

/-- A pattern made of the parts of an expression is made of that one. -/
theorem RecastsAll.ofParts {kind : Kind} {span : Span} (h : RecastsAll lo hi ns m.children)
    (hkind : kind.isUpright = true) (hpart : kind.isPart = true)
    (hplain : ∀ c ∈ (kind.split ns).plain, c.kind.isPattern = false) :
    (Node.mk kind span ns).Recasts lo hi m := by
  refine ⟨.ofParts hkind hpart h.placed hplain, fun i hi => ?_⟩
  rcases Node.mem_uses_mk.mp hi with ⟨href, -⟩ | ⟨c, hc, hi⟩
  · rw [Kind.isReference_of_isUpright hkind] at href
    cases href
  · obtain ⟨k, hk, hi⟩ := h.uses c hc i hi
    exact Node.mem_uses_of_child hk hi

/-- A pattern all of whose parts may be patterns. -/
theorem RecastsAll.node {kind : Kind} {span : Span} (h : RecastsAll lo hi ns m.children)
    (hkind : kind.isUpright = true) (hpart : kind.isPart = true)
    (hsplit : ∀ ns, (kind.split ns).plain = []) : (Node.mk kind span ns).Recasts lo hi m := by
  refine h.ofParts hkind hpart ?_
  rw [hsplit]
  exact fun c hc => absurd hc List.not_mem_nil

/-- The parts that take what is left are made of the spreads. -/
theorem Node.Recasts.rest {span span' : Span} (h : n.Recasts lo hi m) :
    (Node.mk .restPattern span [n]).Recasts lo hi (Node.mk .spread span' [m]) :=
  (RecastsAll.singleton h).node rfl rfl fun _ => rfl

/-- A reference becomes a binding at the same place, anything else stays. -/
theorem Node.asBinding_recasts (h : n.Placed Kind.isPart lo hi) : n.asBinding.Recasts lo hi n := by
  unfold asBinding
  split
  · exact .leaf rfl rfl h.le
  · exact .leaf rfl rfl h.le
  · exact .refl h

instance (n : Node) (issue : Issue) : Moves (n.checkTarget issue) := by
  unfold Node.checkTarget; infer_instance

theorem Node.asElementTarget_recasts {ok : Kind → Bool} (h : n.Placed ok lo hi) :
    Yields mid n.asElementTarget fun m _ => m.Recasts lo hi n := by
  unfold asElementTarget
  split
  case h_11 => exact .fail
  all_goals
    next hkind =>
      exact .skip fun c => .check fun _ => .pure (asBinding_recasts (h.weaken fun _ =>
        by rw [hkind]; rfl))

/-- The pattern that a tree stands for is made of it. -/
def Node.HasPattern (n : Node) : Prop :=
  ∀ ⦃ok use lo hi mid⦄, n.Placed ok lo hi → Yields mid (n.asPattern use) fun m _ =>
    m.Recasts lo hi n

/-- A part of a spread, and so on, has a pattern if all trees inside of it do. -/
theorem Node.hasPattern_child (h : ∀ k ∈ m.subtrees, k.HasPattern) (hn : n ∈ m.children) :
    n.HasPattern := h n (mem_subtrees_of_child hn (mem_subtrees_self n))

/-- The elements of a list are recast one by one, by induction on them. -/
theorem Node.asItems_recasts {use : Use} {comma : Option Span} {items : List Node}
    (hitems : ∀ c ∈ items, ∀ k ∈ c.subtrees, k.HasPattern) (h : AllPlaced Kind.isPart lo hi items) :
    Yields mid (asItems use comma items) fun ns _ => RecastsAll lo hi ns items := by
  induction items generalizing mid with
  | nil =>
      unfold asItems
      exact .pure (.nil h.le)
  | cons item rest ih =>
      have hmore : ∀ {mid}, Yields mid (asItems use comma rest) fun ns _ =>
        RecastsAll lo hi ns rest :=
        ih (fun c hc => hitems c (List.mem_cons_of_mem item hc)) h.tail
      unfold asItems
      split
      case h_1 heq => cases heq
      case h_2 heq =>
          cases heq
          exact hmore.weaken fun _ _ => .skip
      case h_3 span inner rest heq =>
          -- A spread takes what is left of a list, so it is refused in front of an item.
          cases heq
          have hpattern : inner.HasPattern :=
            hasPattern_child (hitems _ List.mem_cons_self) List.mem_cons_self
          have hrest : ∀ {mid}, Yields mid (do
              return [mk .restPattern inner.span [← asPattern use inner]])
              fun ns _ => RecastsAll lo hi ns (mk .spread span [inner] :: rest) :=
            .bind (hpattern (h.head.children rfl nofun).head) fun n mid hn =>
              .pure (.singleton hn.rest)
          refine .ite (fun _ => .check fun _ => ?_) fun _ => .skip fun _ =>
            hmore.weaken fun _ _ => .skip
          split
          · exact .skip fun _ => hrest
          · exact hrest
      case h_4 heq =>
          cases heq
          have hpattern := hitems _ List.mem_cons_self _ (mem_subtrees_self _)
          refine .bind (hpattern h.head) fun n mid hn => ?_
          exact .bind hmore fun ns hi hns => .pure (.cons hn hns h)

/-- So are the values of the properties of an object. -/
theorem Node.asValues_recasts {use : Use} {values : List Node}
    (hvalues : ∀ c ∈ values, c.HasPattern) (h : AllPlaced Kind.isPart lo hi values) :
    Yields mid (asValues use values) fun ns _ => RecastsAll lo hi ns values := by
  induction values generalizing mid with
  | nil =>
      unfold asValues
      exact .pure (.nil h.le)
  | cons value rest ih =>
      cases rest with
      | nil =>
          unfold asValues
          refine .bind (hvalues value List.mem_cons_self h.head) fun n mid hn =>
            .pure (.singleton hn)
      | cons next rest =>
          unfold asValues
          refine .bind (ih (fun c hc => hvalues c (List.mem_cons_of_mem value hc)) h.tail) ?_
          exact fun ns hi hns => .pure (.cons (.refl h.head) hns h)

/-- And the properties themselves. -/
theorem Node.asParts_recasts {use : Use} {comma : Option Span} {parts : List Node}
    (hparts : ∀ c ∈ parts, ∀ k ∈ c.subtrees, k.HasPattern) (h : AllPlaced Kind.isPart lo hi parts) :
    Yields mid (asParts use comma parts) fun ns _ => RecastsAll lo hi ns parts := by
  induction parts generalizing mid with
  | nil =>
      unfold asParts
      exact .pure (.nil h.le)
  | cons part rest ih =>
      have hmore : ∀ {mid n}, n.Recasts lo hi part →
          Yields mid (do return n :: (← asParts use comma rest))
            fun ns _ => RecastsAll lo hi ns (part :: rest) := fun hn =>
        .bind (ih (fun c hc => hparts c (List.mem_cons_of_mem part hc)) h.tail)
          fun ns hi hns => .pure (.cons hn hns h)
      unfold asParts
      split
      case h_1 heq => cases heq
      case h_2 span inner rest heq =>
          -- What takes the rest of an object is a name if it is introduced, and may be
          -- any target if it is written to.
          cases heq
          have hpattern : inner.HasPattern :=
            hasPattern_child (hparts _ List.mem_cons_self) List.mem_cons_self
          have hinner := (h.head.children rfl nofun).head
          have hend : ∀ {mid n}, n.Recasts lo hi inner → Yields mid (do
              if n.kind = .defaultPattern then report .restDefault span.start
              return mk .restPattern span [n] :: (← asParts use comma rest))
              fun ns _ => RecastsAll lo hi ns (mk .spread span [inner] :: rest) :=
            fun hn => .check fun _ => hmore hn.rest
          refine .ite (fun _ => .skip fun _ => ?_) fun _ => ?last
          case' last => split
          case' h_1 => refine .skip fun _ => ?_
          all_goals
            dsimp only
            split
            · exact .bind (.pure (.leaf rfl rfl h.le)) fun n mid hn => hend hn
            · exact .skip fun _ => .bind (.pure (.leaf rfl rfl h.le)) fun n mid hn => hend hn
            · exact .bind (hpattern hinner) fun n mid hn => hend hn
      case h_3 name span children rest heq =>
          cases heq
          exact hmore ((RecastsAll.nil h.le).bind.node rfl rfl fun _ => rfl)
      case h_4 name place span values rest heq =>
          cases heq
          exact hmore ((RecastsAll.refl (h.head.children rfl nofun)).bind.node rfl rfl fun _ => rfl)
      case h_5 span values rest heq =>
          cases heq
          have hvalues : ∀ c ∈ values, c.HasPattern := fun c hc =>
            hasPattern_child (hparts _ List.mem_cons_self) hc
          refine .bind (asValues_recasts hvalues (h.head.children rfl nofun)) fun ns mid hns => ?_
          exact hmore (hns.node rfl rfl fun _ => rfl)
      case h_6 heq =>
          cases heq
          exact .fail

/-- Every expression that stands for a pattern has one that is made of it. -/
theorem Node.hasPattern (n : Node) : ∀ k ∈ n.subtrees, k.HasPattern := by
  induction n using Node.induction with
  | mk kind span children ih =>
      intro k hk
      rcases mem_subtrees_iff.mp hk with rfl | ⟨c, hc, hk⟩
      case inr => exact ih c hc k hk
      -- The induction is on the tree: the parts of an object and the items of a list
      -- have patterns, and every other tree is kept, made a name, or refused.
      intro ok use lo hi mid h
      unfold asPattern
      split
      case h_1 heq =>
          cases heq
          refine .bind (asParts_recasts ih (h.children rfl nofun)) fun ns mid hns => .pure ?_
          exact hns.node rfl rfl fun _ => rfl
      case h_2 heq =>
          cases heq
          refine .bind (asItems_recasts ih (h.children rfl nofun)) fun ns mid hns => .pure ?_
          exact hns.node rfl rfl fun _ => rfl
      case h_3 left right heq =>
          cases heq
          have hparts := h.children rfl nofun
          have hself := h.formed _ (mem_subtrees_self _)
          refine .pure (RecastsAll.ofParts ?_ rfl rfl hself.plain)
          exact .cons (asBinding_recasts hparts.head) (.refl hparts.tail) hparts
      case h_4 heq =>
          cases heq
          exact .pure (.refl (h.weaken fun _ => rfl))
      case h_5 heq =>
          cases heq
          split
          · exact asElementTarget_recasts h
          · split
            · exact .pure (.leaf rfl rfl h.le)
            · unfold refusePattern
              exact .skip fun c => .check fun _ => .fail

/-- An expression is recast as a pattern without a name that it did not use. -/
theorem Node.asPattern_recasts {ok : Kind → Bool} (use : Use) (h : n.Placed ok lo hi) :
    Yields mid (n.asPattern use) fun m _ => m.Recasts lo hi n :=
  n.hasPattern n (mem_subtrees_self n) h

/-! ## §5. Left sides and parameters. -/

theorem Node.asSimpleTarget_recasts {ok : Kind → Bool} (h : n.Placed ok lo hi) :
    Yields mid n.asSimpleTarget fun m _ => m.Recasts lo hi n := by
  unfold asSimpleTarget
  split
  case h_1 => exact .pure (.leaf rfl rfl h.le)
  case h_7 => exact .fail
  all_goals
    next hkind => exact .pure (.refl (h.weaken fun _ => by rw [hkind]; rfl))

/-- The left side of a plain assignment. -/
theorem Node.asAssigned_recasts {ok : Kind → Bool} (h : n.Placed ok lo hi) :
    Yields mid n.asAssigned fun m _ => m.Recasts lo hi n :=
  .ite (fun _ => asPattern_recasts _ h) fun _ => .check fun _ => asSimpleTarget_recasts h

/-- The left side of an assignment with an operator. -/
theorem Node.asUpdated_recasts {ok : Kind → Bool} (h : n.Placed ok lo hi) :
    Yields mid n.asUpdated fun m _ => m.Recasts lo hi n := .skip fun _ => asSimpleTarget_recasts h

/-- What a loop over values writes to. -/
theorem Node.asLoopTarget_recasts (h : n.Placed Kind.isPart lo hi) :
    Yields mid n.asLoopTarget fun m _ => m.Recasts lo hi n :=
  .ite (fun _ => asPattern_recasts _ h) fun _ => .check fun _ => .pure (asBinding_recasts h)

/-- Items between parentheses are recast as parameters. -/
theorem Node.asParameterList_recasts {comma : Option Span} {items : List Node}
    (h : AllPlaced Kind.isPart lo hi items) :
    Yields mid (asParameterList comma items) fun ns _ => RecastsAll lo hi ns items := by
  -- Item by item; only the last one may take what is left.
  induction items generalizing mid with
  | nil =>
      unfold asParameterList
      exact .pure (.nil h.le)
  | cons item rest ih =>
      unfold asParameterList
      split
      case h_1 heq => cases heq
      case h_2 span inner heq =>
          cases heq
          have hinner := (h.head.children rfl nofun).head
          have hrest : ∀ {mid}, Yields mid (do
              return [mk .restPattern inner.span [← asPattern .bound inner]])
              fun ns _ => RecastsAll lo hi ns [mk .spread span [inner]] :=
            .bind (asPattern_recasts _ hinner) fun n mid hn => .pure (.singleton hn.rest)
          refine .check fun _ => ?_
          split
          · exact .skip fun _ => hrest
          · exact hrest
      case h_3 heq =>
          cases heq
          exact .skip fun _ => (ih h.tail).weaken fun _ _ => .skip
      case h_4 heq =>
          cases heq
          refine .bind (asPattern_recasts _ h.head) fun n mid hn => ?_
          exact .bind (ih h.tail) fun ns hi hns => .pure (.cons hn hns h)

/-- The parameters of an arrow function stand where they have been read. -/
theorem Node.asParameters_placed {comma : Option Span} {items : List Node}
    (h : AllPlaced Kind.isPart lo hi items) :
    Yields mid (asParameters items comma) fun ns _ => AllPlaced Kind.isPart lo hi ns :=
  .bind (asParameterList_recasts h) fun _ _ hns => .skip fun _ => .pure hns.placed

/-- Checking an expression leaves it where it has been read. -/
theorem Node.verify_placed {ok : Kind → Bool} (h : n.Placed ok lo hi) :
    Yields hi n.verify fun m top => m.Placed ok lo top := .skip fun _ => .pure h

end AmdKit.Script
