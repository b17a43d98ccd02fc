/-
  AmdKit.Proofs.PlacedTrees
  ────────────────────────────────
  **TREES BETWEEN TWO PLACES OF A TEXT.**

  A parser comes on in a text: it reads past bytes of it, and it may note a fault.
  `Placed ok lo hi` says of a tree that all of it is formed, that the names used in it
  begin at `lo` or behind it and in front of `hi`, that it is of a kind that `ok`
  admits, and, unless a fault has been noted, that the arguments of the calls in it
  stand in the text where they say they do.  A parser reads such trees one after the
  other, so what one of them ends with the next one begins with:

      a placed from lo to mid,  b placed from mid to hi   →   [a, b] placed from lo to hi
-/
import Mathlib.Order.Defs.PartialOrder
import AmdKit.Proofs.Formation

namespace AmdKit.Script

open Text (Span byteLength)

/-! ## §1. Kinds. -/

/-- Any kind, the name of a function or a class included. -/
def Kind.isAny (_ : Kind) : Bool := true

/-- The kind is not that of the name of a function or a class. -/
def Kind.isPart (k : Kind) : Bool := !k.isDeclared

/-- And neither that of a pattern. -/
def Kind.isUnbound (k : Kind) : Bool := !k.isDeclared && !k.isPattern

/-- And neither that of a member of a class. -/
def Kind.isValue (k : Kind) : Bool := !k.isDeclared && !k.isPattern && !k.isMember

/-- The node has some of its parts walked against the order of the text. -/
def Kind.isTurned : Kind → Bool
  | .doWhile | .class_ => true
  | _ => false

/-- The node has its parts in the order of the text, may have parts, and is no call. -/
def Kind.isUpright : Kind → Bool
  | .doWhile | .class_ | .reference _ | .call => false
  | _ => true

theorem Kind.isPart_of_isUnbound {k : Kind} (h : k.isUnbound = true) : k.isPart = true :=
  (Bool.and_eq_true _ _ ▸ h).1

theorem Kind.isUnbound_of_isValue {k : Kind} (h : k.isValue = true) : k.isUnbound = true :=
  (Bool.and_eq_true _ _ ▸ h).1

/-! ## §2. Arguments in a text. -/

/-- The current token has been lexed: it begins at `start` and ends at `rest`. -/
def State.AtToken (s : State) : Prop :=
  ∃ lineBreak i, lex lineBreak i = ⟨s.current, s.start, s.rest⟩

/-- The tree is an argument at the beginning of the text: a token begins there, and what
the grammar reads as an argument from that token on is the tree. -/
def Node.Heads (n : Node) (text : List Char) : Prop :=
  ∃ depth s t, s.start.chars = text ∧ s.start.offset = n.span.start ∧ s.AtToken
    ∧ spreadable (grammarTo depth) s = .ok n t

/-- The tree is an argument that stands in the text at the offset. -/
def Node.StandsAt (n : Node) (text : List Char) (offset : Nat) : Prop :=
  ∃ front behind, text = front ++ behind ∧ byteLength front = offset ∧ n.Heads behind

/-- The tree is an argument that stands in the text where its range begins. -/
def Node.StandsIn (n : Node) (text : List Char) : Prop := n.StandsAt text n.span.start

/-- The arguments of a call stand in the text. -/
def Node.CallsIn (n : Node) (text : List Char) : Prop :=
  n.kind = .call → ∀ a ∈ n.children.tail, a.StandsIn text

/-! ## §3. Placed trees. -/

/-- How far a parser has come. -/
structure Progress where
  /-- The text that it reads. -/
  text : List Char
  /-- The bytes of it that have been read past. -/
  offset : Nat
  /-- A fault has been noted. -/
  noted : Bool

/-- It comes on in the same text, and a fault stays noted. -/
instance : Preorder Progress where
  le a b := a.text = b.text ∧ a.offset ≤ b.offset ∧ (a.noted = true → b.noted = true)
  le_refl a := ⟨rfl, Nat.le_refl _, id⟩
  le_trans a b c h h' := ⟨h.1.trans h'.1, Nat.le_trans h.2.1 h'.2.1, h'.2.2 ∘ h.2.2⟩

/-- The text stays the same. -/
theorem Progress.text_eq {a b : Progress} (h : a ≤ b) : a.text = b.text := h.1

theorem Progress.offset_le {a b : Progress} (h : a ≤ b) : a.offset ≤ b.offset := h.2.1

/-- Where no fault has been noted, none had been noted before. -/
theorem Progress.clean_of_le {a b : Progress} (h : a ≤ b) (hb : b.noted = false) :
    a.noted = false := by
  cases ha : a.noted with
  | false => rfl
  | true => exact (h.2.2 ha).symm.trans hb

/-- The bytes up to an offset have been read past. -/
def Progress.to (a : Progress) (offset : Nat) : Progress := { a with offset }

theorem Progress.le_to {a : Progress} {offset : Nat} (h : a.offset ≤ offset) : a ≤ a.to offset :=
  ⟨rfl, h, id⟩

/-- A fault has been noted. -/
def Progress.fault (a : Progress) : Progress := { a with noted := true }

theorem Progress.le_fault (a : Progress) : a ≤ a.fault :=
  ⟨rfl, Nat.le_refl _, fun _ => rfl⟩

/-- The farther one of two places in a text. -/
def Progress.join (a b : Progress) : Progress :=
  ⟨a.text, max a.offset b.offset, a.noted || b.noted⟩

theorem Progress.le_join (a b : Progress) : a ≤ a.join b :=
  ⟨rfl, Nat.le_max_left _ _, fun h => Bool.or_eq_true_iff.mpr (Or.inl h)⟩

/-- Both places are in front of the farther one, if they are in one text. -/
theorem Progress.le_join_of_text_eq {a b : Progress} (h : a.text = b.text) : b ≤ a.join b :=
  ⟨h.symm, Nat.le_max_right _ _, fun hb => Bool.or_eq_true_iff.mpr (Or.inr hb)⟩

/-- The tree is formed, its names begin between the places, its kind is admitted, and its
calls have their arguments in the text. -/
structure Node.Placed (ok : Kind → Bool) (lo hi : Progress) (n : Node) : Prop where
  le : lo ≤ hi
  kind : ok n.kind = true
  formed : ∀ m ∈ n.subtrees, m.Formed
  uses : ∀ i ∈ n.uses, lo.offset ≤ i ∧ i < hi.offset
  calls : hi.noted = false → ∀ m ∈ n.subtrees, m.CallsIn hi.text

/-- The trees are placed between the places, one after the other. -/
structure AllPlaced (ok : Kind → Bool) (lo hi : Progress) (ns : List Node) : Prop where
  le : lo ≤ hi
  each : ∀ n ∈ ns, n.Placed ok lo hi
  inOrder : ns.Pairwise Node.Before

variable {ok ok' : Kind → Bool} {lo mid hi lo' hi' : Progress} {n : Node} {ns ms : List Node}

/-- A tree is placed between any places around it. -/
theorem Node.Placed.mono (h : n.Placed ok lo hi) (hlo : lo' ≤ lo) (hhi : hi ≤ hi') :
    n.Placed ok lo' hi' := by
  refine ⟨le_trans hlo (le_trans h.le hhi), h.kind, h.formed, fun i hi => ?_, fun hclean => ?_⟩
  · have hbetween := h.uses i hi
    exact ⟨Nat.le_trans (Progress.offset_le hlo) hbetween.1,
      Nat.lt_of_lt_of_le hbetween.2 (Progress.offset_le hhi)⟩
  · rw [← Progress.text_eq hhi]
    exact h.calls (Progress.clean_of_le hhi hclean)

/-- A tree stays placed where more kinds are admitted. -/
theorem Node.Placed.weaken (h : n.Placed ok lo hi) (hok : ok n.kind = true → ok' n.kind = true) :
    n.Placed ok' lo hi := ⟨h.le, hok h.kind, h.formed, h.uses, h.calls⟩

theorem Node.Placed.unbound (h : n.Placed Kind.isValue lo hi) : n.Placed Kind.isUnbound lo hi :=
  h.weaken Kind.isUnbound_of_isValue

theorem Node.Placed.part (h : n.Placed Kind.isUnbound lo hi) : n.Placed Kind.isPart lo hi :=
  h.weaken Kind.isPart_of_isUnbound

theorem Node.Placed.any (h : n.Placed ok lo hi) : n.Placed Kind.isAny lo hi :=
  h.weaken fun _ => rfl

/-- The names in a tree are used in front of those in the trees behind it. -/
theorem Node.Placed.before {m : Node} (h : n.Placed ok lo mid) (h' : m.Placed ok' mid hi) :
    n.Before m := by
  intro i hi j hj
  have hfirst := h.uses i hi
  have hsecond := h'.uses j hj
  omega

/-- Trees are placed between any places around them. -/
theorem AllPlaced.mono (h : AllPlaced ok lo hi ns) (hlo : lo' ≤ lo) (hhi : hi ≤ hi') :
    AllPlaced ok lo' hi' ns :=
  ⟨le_trans hlo (le_trans h.le hhi), fun n hn => (h.each n hn).mono hlo hhi, h.inOrder⟩

theorem AllPlaced.weaken (h : AllPlaced ok lo hi ns)
    (hok : ∀ {k : Kind}, ok k = true → ok' k = true) : AllPlaced ok' lo hi ns :=
  ⟨h.le, fun n hn => (h.each n hn).weaken hok, h.inOrder⟩

theorem AllPlaced.any (h : AllPlaced ok lo hi ns) : AllPlaced Kind.isAny lo hi ns :=
  h.weaken fun _ => rfl

theorem AllPlaced.unbound (h : AllPlaced Kind.isValue lo hi ns) :
    AllPlaced Kind.isUnbound lo hi ns := h.weaken Kind.isUnbound_of_isValue

theorem AllPlaced.part (h : AllPlaced Kind.isUnbound lo hi ns) : AllPlaced Kind.isPart lo hi ns :=
  h.weaken Kind.isPart_of_isUnbound

theorem AllPlaced.nil (h : lo ≤ hi) : AllPlaced ok lo hi [] :=
  ⟨h, fun _ hn => absurd hn List.not_mem_nil, List.Pairwise.nil⟩

theorem AllPlaced.singleton (h : n.Placed ok lo hi) : AllPlaced ok lo hi [n] :=
  ⟨h.le, fun _ hm => List.mem_singleton.mp hm ▸ h, List.pairwise_singleton _ n⟩

/-- **One after the other.** -/
theorem AllPlaced.append (h : AllPlaced ok lo mid ns) (h' : AllPlaced ok mid hi ms) :
    AllPlaced ok lo hi (ns ++ ms) := by
  refine ⟨le_trans h.le h'.le, fun n hn => ?_, ?_⟩
  · rcases List.mem_append.mp hn with hn | hn
    · exact (h.each n hn).mono (le_refl _) h'.le
    · exact (h'.each n hn).mono h.le (le_refl _)
  · rw [List.pairwise_append]
    exact ⟨h.inOrder, h'.inOrder, fun a ha b hb => (h.each a ha).before (h'.each b hb)⟩

/-- A tree in front of others. -/
theorem AllPlaced.cons (h : n.Placed ok lo mid) (h' : AllPlaced ok mid hi ns) :
    AllPlaced ok lo hi (n :: ns) := (AllPlaced.singleton h).append h'

/-- A tree behind others. -/
theorem AllPlaced.concat (h : AllPlaced ok lo mid ns) (h' : n.Placed ok mid hi) :
    AllPlaced ok lo hi (ns ++ [n]) := h.append (AllPlaced.singleton h')

theorem AllPlaced.head (h : AllPlaced ok lo hi (n :: ns)) : n.Placed ok lo hi :=
  h.each n List.mem_cons_self

theorem AllPlaced.tail (h : AllPlaced ok lo hi (n :: ns)) : AllPlaced ok lo hi ns :=
  ⟨h.le, fun m hm => h.each m (List.mem_cons_of_mem n hm), (List.pairwise_cons.mp h.inOrder).2⟩

/-! ## §4. Nodes from their parts. -/

/-- The names that a node uses are those in its parts, and its own if it is a reference.
-/
theorem Node.mem_uses_mk {kind : Kind} {span : Span} {i : Nat} :
    i ∈ (Node.mk kind span ns).uses
      ↔ (kind.isReference = true ∧ span.start = i) ∨ ∃ c ∈ ns, i ∈ c.uses := by
  constructor
  · intro h
    obtain ⟨m, hm, hi⟩ := mem_uses_iff.mp h
    rcases mem_subtrees_iff.mp hm with rfl | ⟨c, hc, hm⟩
    · exact Or.inl hi
    · exact Or.inr ⟨c, hc, mem_uses_iff.mpr ⟨m, hm, hi⟩⟩
  · rintro (hi | ⟨c, hc, hi⟩)
    · exact mem_uses_iff.mpr ⟨_, mem_subtrees_self _, hi⟩
    · exact mem_uses_of_child hc hi

/-- What holds of a node and throughout its parts holds throughout the node. -/
theorem Node.forall_subtrees_mk {kind : Kind} {span : Span} {P : Node → Prop}
    (hself : P (Node.mk kind span ns)) (hparts : ∀ c ∈ ns, ∀ m ∈ c.subtrees, P m) :
    ∀ m ∈ (Node.mk kind span ns).subtrees, P m := by
  intro m hm
  rcases mem_subtrees_iff.mp hm with rfl | ⟨c, hc, hm⟩
  · exact hself
  · exact hparts c hc m hm

/-- Only the parts of an upright node have names that are used. -/
theorem Node.uses_mk {kind : Kind} {span : Span} (hkind : kind.isReference = false)
    (hparts : ∀ c ∈ ns, ∀ i ∈ c.uses, lo.offset ≤ i ∧ i < hi.offset) :
    ∀ i ∈ (Node.mk kind span ns).uses, lo.offset ≤ i ∧ i < hi.offset := by
  intro i hmem
  rcases mem_uses_mk.mp hmem with ⟨href, -⟩ | ⟨c, hc, hmem⟩
  · rw [hkind] at href
    cases href
  · exact hparts c hc i hmem

/-- A node that is walked in the order of the text has its parts in order. -/
theorem Node.inOrder_mk {kind : Kind} {span : Span} (hkind : kind.isTurned = false)
    (h : ns.Pairwise Node.Before) : (Node.mk kind span ns).InOrder := by
  have hfirst : (Node.mk kind span ns).walkedFirst = ns := by
    unfold walkedFirst
    split
    next heq => rw [show kind = .doWhile from heq] at hkind; cases hkind
    next heq => rw [show kind = .class_ from heq] at hkind; cases hkind
    next => rfl
  have hlast : (Node.mk kind span ns).walkedLast = [] := by
    unfold walkedLast
    split
    next heq => rw [show kind = .doWhile from heq] at hkind; cases hkind
    next heq => rw [show kind = .class_ from heq] at hkind; cases hkind
    next => rfl
  constructor
  · rw [hfirst]
    exact h
  · rw [hlast]
    exact List.Pairwise.nil
  · rw [hlast]
    exact fun _ _ _ hb => absurd hb List.not_mem_nil

theorem Kind.isTurned_of_isUpright {k : Kind} (h : k.isUpright = true) : k.isTurned = false := by
  cases k <;> first | rfl | cases h

theorem Kind.isReference_of_isUpright {k : Kind} (h : k.isUpright = true) :
    k.isReference = false := by
  cases k <;> first | rfl | cases h

theorem Kind.isPattern_of_isUnbound {k : Kind} (h : k.isUnbound = true) : k.isPattern = false := by
  unfold isUnbound at h
  rw [Bool.and_eq_true, Bool.not_eq_true', Bool.not_eq_true'] at h
  exact h.2

theorem Kind.isDeclared_of_isPart {k : Kind} (h : k.isPart = true) : k.isDeclared = false :=
  Bool.not_eq_true' _ ▸ h

/-- The parts that may not be patterns are among the parts. -/
theorem Kind.mem_of_mem_plain {kind : Kind} (h : n ∈ (kind.split ns).plain) : n ∈ ns := by
  unfold split at h
  split at h <;>
    first
      | exact absurd h List.not_mem_nil
      | exact List.mem_of_mem_drop h
      | exact List.mem_of_getLast? (Option.mem_toList.mp h)
      | exact h

/-- A node that is no call has no arguments. -/
theorem Node.callsIn_mk {kind : Kind} {span : Span} {text : List Char}
    (hkind : kind.isUpright = true) : (Node.mk kind span ns).CallsIn text := by
  intro hcall
  rw [show kind = .call from hcall] at hkind
  cases hkind

section Parts

variable {kind : Kind} {span : Span}

/-- A node whose parts are in order, with the patterns and the names of functions and
classes among them at their places, and the arguments among them in the text. -/
theorem Node.Placed.ofInOrder (hkind : kind.isReference = false) (hok : ok kind = true)
    (hcalls : hi.noted = false → (Node.mk kind span ns).CallsIn hi.text) (hle : lo ≤ hi)
    (h : ∀ c ∈ ns, c.Placed Kind.isAny lo hi)
    (hplain : ∀ c ∈ (kind.split ns).plain, c.kind.isPattern = false)
    (hnamed : (∃ c ∈ ns, c.kind.isDeclared = true) → kind = .function ∨ kind = .class_)
    (horder : (Node.mk kind span ns).InOrder) : (Node.mk kind span ns).Placed ok lo hi := by
  have hself : (Node.mk kind span ns).Formed := by
    refine ⟨hplain, hnamed, fun hreference => ?_, horder⟩
    rw [show kind.isReference = true from hreference] at hkind
    cases hkind
  exact ⟨hle, hok, forall_subtrees_mk hself fun c hc => (h c hc).formed,
    uses_mk hkind fun c hc => (h c hc).uses,
    fun hclean => forall_subtrees_mk (hcalls hclean) fun c hc => (h c hc).calls hclean⟩

/-- A node whose parts are placed one after the other. -/
theorem Node.Placed.ofAny (hkind : kind.isUpright = true) (hok : ok kind = true)
    (h : AllPlaced Kind.isAny lo hi ns)
    (hplain : ∀ c ∈ (kind.split ns).plain, c.kind.isPattern = false)
    (hnamed : (∃ c ∈ ns, c.kind.isDeclared = true) → kind = .function ∨ kind = .class_) :
    (Node.mk kind span ns).Placed ok lo hi :=
  .ofInOrder (Kind.isReference_of_isUpright hkind) hok (fun _ => callsIn_mk hkind) h.le h.each
    hplain hnamed (inOrder_mk (Kind.isTurned_of_isUpright hkind) h.inOrder)

/-- A node over parts that may be patterns where it admits them. -/
theorem Node.Placed.ofParts (hkind : kind.isUpright = true) (hok : ok kind = true)
    (h : AllPlaced Kind.isPart lo hi ns)
    (hplain : ∀ c ∈ (kind.split ns).plain, c.kind.isPattern = false) :
    (Node.mk kind span ns).Placed ok lo hi := by
  refine .ofAny hkind hok h.any hplain ?_
  rintro ⟨c, hc, hdeclared⟩
  rw [Kind.isDeclared_of_isPart (h.each c hc).kind] at hdeclared
  cases hdeclared

/-- A pattern that is made up of patterns. -/
theorem Node.Placed.ofPatterns (hkind : kind.isUpright = true) (hok : ok kind = true)
    (hsplit : (kind.split ns).plain = []) (h : AllPlaced Kind.isPart lo hi ns) :
    (Node.mk kind span ns).Placed ok lo hi := by
  refine .ofParts hkind hok h ?_
  rw [hsplit]
  exact fun c hc => absurd hc List.not_mem_nil

/-- A node without patterns among its parts. -/
theorem Node.Placed.ofUnbound (hkind : kind.isUpright = true) (hok : ok kind = true)
    (h : AllPlaced Kind.isUnbound lo hi ns) : (Node.mk kind span ns).Placed ok lo hi :=
  .ofParts hkind hok h.part fun c hc =>
    Kind.isPattern_of_isUnbound (h.each c (Kind.mem_of_mem_plain hc)).kind

/-- A node whose first part may be a pattern. -/
theorem Node.Placed.ofFirst (hkind : kind.isUpright = true) (hok : ok kind = true)
    (hsplit : (kind.split (n :: ns)).plain = ns) (h : n.Placed Kind.isPart lo mid)
    (h' : AllPlaced Kind.isUnbound mid hi ns) : (Node.mk kind span (n :: ns)).Placed ok lo hi :=
  .ofParts hkind hok (.cons h h'.part) fun c hc =>
    Kind.isPattern_of_isUnbound (h'.each c (hsplit ▸ hc)).kind

/-- A node whose last part alone has to be no pattern. -/
theorem Kind.isPattern_of_mem_last
    (hsplit : (kind.split (ns ++ [n])).plain = (ns ++ [n]).getLast?.toList)
    (h : n.Placed Kind.isUnbound lo hi) :
    ∀ c ∈ (kind.split (ns ++ [n])).plain, c.kind.isPattern = false := by
  intro c hc
  rw [hsplit, List.getLast?_concat, Option.mem_toList, Option.some.injEq] at hc
  exact Kind.isPattern_of_isUnbound (hc ▸ h.kind)

/-- A node only the last part of which may be no pattern. -/
theorem Node.Placed.ofLast (hkind : kind.isUpright = true) (hok : ok kind = true)
    (hsplit : (kind.split (ns ++ [n])).plain = (ns ++ [n]).getLast?.toList)
    (h : AllPlaced Kind.isPart lo mid ns) (h' : n.Placed Kind.isUnbound mid hi) :
    (Node.mk kind span (ns ++ [n])).Placed ok lo hi :=
  .ofParts hkind hok (.concat h h'.part) (Kind.isPattern_of_mem_last hsplit h')

/-- A node without parts. -/
theorem Node.Placed.leaf (hkind : kind.isUpright = true) (hok : ok kind = true) (h : lo ≤ hi) :
    (Node.leaf kind span).Placed ok lo hi := .ofUnbound hkind hok (.nil h)

/-- A call, whose arguments stand in the text. -/
theorem Node.Placed.call {callee : Node} {arguments : List Node}
    (h : AllPlaced Kind.isUnbound lo hi (callee :: arguments))
    (harguments : hi.noted = false → ∀ a ∈ arguments, a.StandsIn hi.text) :
    (Node.mk .call span (callee :: arguments)).Placed Kind.isValue lo hi := by
  refine .ofInOrder rfl rfl (fun hclean _ => harguments hclean) h.le h.any.each ?_ ?_
    (inOrder_mk rfl h.inOrder)
  · exact fun c hc => Kind.isPattern_of_isUnbound (h.each c hc).kind
  · rintro ⟨c, hc, hdeclared⟩
    rw [Kind.isDeclared_of_isPart (h.part.each c hc).kind] at hdeclared
    cases hdeclared

end Parts

/-! ## §5. Names, functions, loops and classes. -/

variable {name : String} {span : Span}

/-- A name that is used. -/
theorem Node.Placed.reference (hle : lo ≤ hi) (h : lo.offset ≤ span.start)
    (h' : span.start < hi.offset) :
    (Node.leaf (.reference name) span).Placed Kind.isValue lo hi := by
  refine ⟨hle, rfl, ?_, ?_, fun _ => ?_⟩
  · refine forall_subtrees_mk ⟨fun c hc => absurd hc List.not_mem_nil, ?_, fun _ => rfl, ?_⟩
      (fun c hc => absurd hc List.not_mem_nil)
    · rintro ⟨c, hc, -⟩
      exact absurd hc List.not_mem_nil
    · exact ⟨List.Pairwise.nil, List.Pairwise.nil, fun c hc => absurd hc List.not_mem_nil⟩
  · intro i hmem
    rcases mem_uses_mk.mp hmem with ⟨-, rfl⟩ | ⟨c, hc, -⟩
    · exact ⟨h, h'⟩
    · exact absurd hc List.not_mem_nil
  · exact forall_subtrees_mk nofun fun c hc => absurd hc List.not_mem_nil

/-- The name of a function or a class, if it has one, is a part of it. -/
def declaredPart (name : Option (String × Span)) : List Node :=
  name.toList.map fun (text, span) => Node.leaf (.declared text) span

/-- The name of a function or a class is no name that is used. -/
theorem AllPlaced.declaredPart (name : Option (String × Span)) (h : lo ≤ hi) :
    AllPlaced Kind.isAny lo hi (declaredPart name) := by
  cases name with
  | none => exact .nil h
  | some name => exact .singleton (.leaf rfl rfl h)

/-- Parameters and a body, one after the other. -/
def FunctionPlaced (lo hi : Progress) (ns : List Node) : Prop :=
  ∃ items body mid, ns = items ++ [body] ∧ AllPlaced Kind.isPart lo mid items
    ∧ body.Placed Kind.isUnbound mid hi

/-- Parts in front of parameters are read like parameters. -/
theorem FunctionPlaced.append (h : AllPlaced Kind.isPart lo mid ns)
    (h' : FunctionPlaced mid hi ms) : FunctionPlaced lo hi (ns ++ ms) := by
  obtain ⟨items, body, mid', rfl, hitems, hbody⟩ := h'
  exact ⟨ns ++ items, body, mid', (List.append_assoc _ _ _).symm, h.append hitems, hbody⟩

/-- A function that has no name of its own. -/
theorem FunctionPlaced.node {kind : Kind} (hkind : kind.isUpright = true) (hok : ok kind = true)
    (hsplit : ∀ ns, (kind.split ns).plain = ns.getLast?.toList) (h : FunctionPlaced lo hi ns) :
    (Node.mk kind span ns).Placed ok lo hi := by
  obtain ⟨items, body, mid, rfl, hitems, hbody⟩ := h
  exact .ofLast hkind hok (hsplit _) hitems hbody

/-- A function that may have a name. -/
theorem FunctionPlaced.function (name : Option (String × Span)) (h : FunctionPlaced lo hi ns) :
    (Node.mk .function span (declaredPart name ++ ns)).Placed Kind.isValue lo hi := by
  obtain ⟨items, body, mid, rfl, hitems, hbody⟩ := h
  rw [← List.append_assoc]
  refine .ofAny rfl rfl ?_ (Kind.isPattern_of_mem_last rfl hbody) fun _ => Or.inl rfl
  exact ((AllPlaced.declaredPart name (le_refl lo)).append hitems.any).concat hbody.any

/-- A `do` loop, whose body stands in front of its condition. -/
theorem Node.Placed.doWhile {test body : Node} (h : body.Placed Kind.isUnbound lo mid)
    (h' : test.Placed Kind.isUnbound mid hi) :
    (Node.mk .doWhile span [test, body]).Placed Kind.isValue lo hi := by
  have hparts : ∀ c ∈ [test, body], c.Placed Kind.isUnbound lo hi :=
    List.forall_mem_cons.mpr ⟨h'.mono h.le (le_refl _),
      List.forall_mem_singleton.mpr (h.mono (le_refl _) h'.le)⟩
  refine .ofInOrder rfl rfl (fun _ => nofun) (le_trans h.le h'.le) (fun c hc => (hparts c hc).any)
    (fun c hc => Kind.isPattern_of_isUnbound (hparts c hc).kind) ?_ ?_
  · rintro ⟨c, hc, hdeclared⟩
    rw [Kind.isDeclared_of_isPart (hparts c hc).part.kind] at hdeclared
    cases hdeclared
  · refine ⟨List.pairwise_singleton _ test, List.pairwise_singleton _ body, ?_⟩
    intro a ha b hb
    rw [List.mem_singleton.mp ha, List.mem_singleton.mp hb]
    exact h.before h'

theorem Kind.isWalkedLast_of_isValue {k : Kind} (h : k.isValue = true) :
    (k.isMember || k.isDeclared) = false := by
  unfold isValue at h
  cases hmember : k.isMember <;> cases hdeclared : k.isDeclared <;> simp_all

/-- Neither a member of a class nor the name of one is a pattern. -/
theorem Kind.isPattern_of_isWalkedFirst {k : Kind} (h : (k.isMember || k.isDeclared) = true) :
    k.isPattern = false := by
  cases k <;> first | rfl | cases h

theorem kind_of_mem_declaredPart {name : Option (String × Span)} (h : n ∈ declaredPart name) :
    n.kind.isDeclared = true := by
  obtain ⟨x, -, rfl⟩ := List.mem_map.mp h
  rfl

/-- A class, whose members stand behind what it extends. -/
theorem Node.Placed.class_ {members parent : List Node} (name : Option (String × Span))
    (h : AllPlaced Kind.isValue lo mid parent) (h' : AllPlaced Kind.isMember mid hi members) :
    (Node.mk .class_ span (declaredPart name ++ members ++ parent)).Placed Kind.isValue lo hi := by
  have hfront : AllPlaced Kind.isAny mid hi (declaredPart name ++ members) :=
    (AllPlaced.declaredPart name (le_refl mid)).append h'.any
  -- What stands in front of the parent is told apart from it by its kind.
  have hmember : ∀ c ∈ declaredPart name ++ members,
      (c.kind.isMember || c.kind.isDeclared) = true := by
    intro c hc
    rcases List.mem_append.mp hc with hc | hc
    · rw [kind_of_mem_declaredPart hc, Bool.or_true]
    · rw [(h'.each c hc).kind, Bool.true_or]
  have hfirst : (Node.mk .class_ span (declaredPart name ++ members ++ parent)).walkedFirst
      = declaredPart name ++ members := by
    show List.takeWhile _ (declaredPart name ++ members ++ parent) = _
    rw [List.takeWhile_append_of_pos hmember]
    cases parent with
    | nil => exact List.append_nil _
    | cons c parent =>
        rw [List.takeWhile_cons_of_neg (by rw [Kind.isWalkedLast_of_isValue h.head.kind]; decide),
            List.append_nil]
  have hlast : (Node.mk .class_ span (declaredPart name ++ members ++ parent)).walkedLast
      = parent := by
    show List.dropWhile _ (declaredPart name ++ members ++ parent) = _
    rw [List.dropWhile_append_of_pos hmember]
    cases parent with
    | nil => rfl
    | cons c parent =>
        rw [List.dropWhile_cons_of_neg (by rw [Kind.isWalkedLast_of_isValue h.head.kind]; decide)]
  refine .ofInOrder rfl rfl (fun _ => nofun) (le_trans h.le h'.le) ?_ ?_ (fun _ => Or.inr rfl) ?_
  · intro c hc
    rcases List.mem_append.mp hc with hc | hc
    · exact (hfront.each c hc).mono h.le (le_refl _)
    · exact (h.each c hc).any.mono (le_refl _) h'.le
  · intro c hc
    rcases List.mem_append.mp hc with hc | hc
    · exact Kind.isPattern_of_isWalkedFirst (hmember c hc)
    · exact Kind.isPattern_of_isUnbound (h.each c hc).unbound.kind
  · constructor
    · rw [hfirst]
      exact hfront.inOrder
    · rw [hlast]
      exact h.inOrder
    · rw [hfirst, hlast]
      exact fun a ha b hb => (h.each b hb).before (hfront.each a ha)

end AmdKit.Script
