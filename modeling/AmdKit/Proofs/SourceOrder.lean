/-
  AmdKit.Proofs.SourceOrder
  ────────────────────────────────
  **THE ORDER OF CALL SITES.**

  A walk meets the call sites of a script one after the other.  It follows the text
  but for two kinds of nodes: the condition of a `do` loop is walked before its
  body, and the members of a class before what the class extends.  So

      the callees begin at increasing offsets
        ↔  no `do` loop has call sites in its condition and in its body, and
           no class has call sites in a member and in what it extends
-/
import AmdKit.Proofs.CallSites
import AmdKit.Proofs.ReadStatements

namespace AmdKit.Amd

open Script (Node)
open Text (Span)

/-! ## §1. Call sites out of order. -/

/-- A call site stands in the tree. -/
def HasCallSite (n : Node) : Prop := ∃ m ∈ n.subtrees, IsCallSite m

/-- The node is a `do` loop or a class, and the walk meets call sites in the one part
of it before call sites that stand in front of them. -/
def IsCrossed (n : Node) : Prop :=
  (∃ a ∈ n.walkedFirst, HasCallSite a) ∧ ∃ b ∈ n.walkedLast, HasCallSite b

/-- Only a `do` loop or a class can be crossed. -/
theorem kind_of_isCrossed {n : Node} (h : IsCrossed n) : n.kind = .doWhile ∨ n.kind = .class_ := by
  obtain ⟨-, b, hb, -⟩ := h
  unfold Node.walkedLast at hb
  split at hb
  next hkind => exact Or.inl hkind
  next hkind => exact Or.inr hkind
  next => exact absurd hb List.not_mem_nil

/-! ## §2. Call sites of a tree. -/

/-- The callee of a call site is the first part of a call, and a name that is used. -/
theorem callee_of_callAt? {statement : Option Span} {n : Node} {c : Call}
    (h : callAt? statement n = some c) :
    n.kind = .call ∧ ∃ callee arguments, n.children = callee :: arguments
      ∧ callee.kind.isReference = true ∧ c.callee = callee.span := by
  unfold callAt? at h
  split at h
  next span callee arguments =>
    obtain ⟨kind, hkind, rfl⟩ := Option.map_eq_some_iff.mp h
    refine ⟨rfl, callee, arguments, rfl, ?_, rfl⟩
    rw [CallKind.ofCallee?_eq_some_iff.mp hkind]
    rfl
  next => cases h

theorem start_mem_uses {n : Node} (h : n.kind.isReference = true) : n.span.start ∈ n.uses :=
  Node.mem_uses_iff.mpr ⟨n, n.mem_subtrees_self, h, rfl⟩

/-- A call of a tree is that of a node in it. -/
theorem exists_callAt?_of_mem_callsWithin {n : Node} :
    ∀ statement : Option Span, ∀ c ∈ callsWithin statement n,
      ∃ m ∈ n.subtrees, ∃ around, callAt? around m = some c := by
  induction n using Node.induction with
  | mk kind span children ih =>
      intro statement c hc
      rcases mem_callsWithin_iff.mp hc with hcall | ⟨m, hm, hcm⟩
      · exact ⟨_, Node.mem_subtrees_self _, statement, hcall⟩
      · obtain ⟨k, hk, around, hcall⟩ := ih m hm _ c hcm
        exact ⟨k, Node.mem_subtrees_of_child hm hk, around, hcall⟩

/-- The callee of a call site is one of the names that are used in the tree. -/
theorem callee_mem_uses {n : Node} (statement : Option Span) :
    ∀ c ∈ callsWithin statement n, c.callee.start ∈ n.uses := by
  intro c hc
  obtain ⟨m, hm, around, hcall⟩ := exists_callAt?_of_mem_callsWithin statement c hc
  obtain ⟨-, callee, arguments, hchildren, hreference, hcallee⟩ := callee_of_callAt? hcall
  have hpart : callee ∈ m.children := by
    rw [hchildren]
    exact List.mem_cons_self
  rw [hcallee]
  exact Node.mem_uses_iff.mpr ⟨callee, Node.mem_subtrees_trans hm
    (Node.mem_subtrees_of_child hpart callee.mem_subtrees_self), hreference, rfl⟩

/-- A tree has calls if and only if a call site stands in it. -/
theorem exists_mem_callsWithin_iff {n : Node} :
    ∀ statement : Option Span, (∃ c, c ∈ callsWithin statement n) ↔ HasCallSite n := by
  induction n using Node.induction with
  | mk kind span children ih =>
      intro statement
      constructor
      · rintro ⟨c, hc⟩
        obtain ⟨m, hm, around, hcall⟩ := exists_callAt?_of_mem_callsWithin statement c hc
        exact ⟨m, hm, isSome_callAt?_iff.mp (Option.isSome_of_eq_some hcall)⟩
      · rintro ⟨k, hk, hsite⟩
        rcases Node.mem_subtrees_iff.mp hk with rfl | ⟨m, hm, hk⟩
        · obtain ⟨c, hc⟩ := Option.isSome_iff_exists.mp (isSome_callAt?_iff.mpr hsite)
          exact ⟨c, mem_callsWithin_iff.mpr (Or.inl hc)⟩
        · obtain ⟨c, hc⟩ := (ih m hm _).mpr ⟨k, hk, hsite⟩
          exact ⟨c, mem_callsWithin_iff.mpr (Or.inr ⟨m, hm, hc⟩)⟩

/-! ## §3. Call sites in order. -/

/-- The callee of the one call begins in front of that of the other. -/
def Call.Precedes (c d : Call) : Prop := c.callee.start < d.callee.start

/-- The calls of parts that stand in order. -/
theorem precedes_of_before {a b : Node} (hab : a.Before b) {s t : Option Span} :
    ∀ c ∈ callsWithin s a, ∀ d ∈ callsWithin t b, c.Precedes d :=
  fun c hc d hd => hab _ (callee_mem_uses s c hc) _ (callee_mem_uses t d hd)

/-- A call site in front of the call sites in its arguments. -/
theorem precedes_of_callAt? {s t : Option Span} {n m : Node} {c : Call}
    (hn : ∀ k ∈ n.subtrees, k.Formed) (hc : callAt? s n = some c) (hm : m ∈ n.children) :
    ∀ d ∈ callsWithin t m, c.Precedes d := by
  obtain ⟨hkind, callee, arguments, hchildren, hreference, hcallee⟩ := callee_of_callAt? hc
  have horder := (hn n n.mem_subtrees_self).inOrder.first
  have hfirst : n.walkedFirst = callee :: arguments := by
    unfold Node.walkedFirst
    rw [hkind, hchildren]
  rw [hfirst, List.pairwise_cons] at horder
  have hcalleeIn : callee ∈ n.children := by
    rw [hchildren]
    exact List.mem_cons_self
  rw [hchildren] at hm
  intro d hd
  rcases List.mem_cons.mp hm with rfl | hm
  · -- The callee is a name, so there is nothing in it.
    have hleaf := (hn m (Node.mem_subtrees_of_child hcalleeIn m.mem_subtrees_self)).leaf hreference
    rcases mem_callsWithin_iff.mp hd with hcall | ⟨k, hk, -⟩
    · have hcallKind := (callee_of_callAt? hcall).1
      rw [hcallKind] at hreference
      cases hreference
    · rw [hleaf] at hk
      exact absurd hk List.not_mem_nil
  · -- An argument stands behind the callee, and so does what is called in it.
    unfold Call.Precedes
    rw [hcallee]
    exact horder.1 m hm _ (start_mem_uses hreference) _ (callee_mem_uses t d hd)

/-- The calls of the parts of a node are in order if and only if those of each part
are and the node is not crossed. -/
theorem flatMap_callsWithin_pairwise_iff {n : Node} (hn : n.Formed) (statement : Option Span) :
    (n.children.flatMap (callsWithin statement)).Pairwise Call.Precedes
      ↔ (∀ m ∈ n.children, (callsWithin statement m).Pairwise Call.Precedes)
        ∧ ¬ IsCrossed n := by
  have hpart : ∀ {a b : Node}, a.Before b →
      ∀ c ∈ callsWithin statement a, ∀ d ∈ callsWithin statement b, c.Precedes d :=
    fun hab => precedes_of_before hab
  rw [List.pairwise_flatMap]
  refine and_congr_right fun _ => ?_
  rw [← n.walkedFirst_append_walkedLast, List.pairwise_append]
  constructor
  · rintro ⟨-, -, hboth⟩ ⟨⟨a, ha, hcalls⟩, b, hb, hcalls'⟩
    -- A call behind another one would precede it.
    obtain ⟨c, hc⟩ := (exists_mem_callsWithin_iff statement).mpr hcalls
    obtain ⟨d, hd⟩ := (exists_mem_callsWithin_iff statement).mpr hcalls'
    have hcd := hboth a ha b hb c hc d hd
    have hdc := hpart (hn.inOrder.turned a ha b hb) d hd c hc
    exact Nat.lt_asymm hcd hdc
  · intro hcrossed
    refine ⟨hn.inOrder.first.imp hpart, hn.inOrder.last.imp hpart, ?_⟩
    intro a ha b hb c hc d hd
    exact absurd ⟨⟨a, ha, (exists_mem_callsWithin_iff statement).mp ⟨c, hc⟩⟩,
      b, hb, (exists_mem_callsWithin_iff statement).mp ⟨d, hd⟩⟩ hcrossed

/-- **The calls of a tree are in order if and only if no node in it is crossed.** -/
theorem callsWithin_pairwise_precedes_iff {n : Node} (hn : ∀ m ∈ n.subtrees, m.Formed) :
    ∀ statement : Option Span, (callsWithin statement n).Pairwise Call.Precedes
      ↔ ∀ m ∈ n.subtrees, ¬ IsCrossed m := by
  induction n using Node.induction with
  | mk kind span children ih =>
      intro statement
      have hself := Node.mem_subtrees_self (Node.mk kind span children)
      have hchild : ∀ m ∈ children, ∀ k ∈ m.subtrees,
          k ∈ (Node.mk kind span children).subtrees :=
        fun m hm k hk => Node.mem_subtrees_of_child hm hk
      have hdeep : (∀ m ∈ (Node.mk kind span children).subtrees, ¬ IsCrossed m)
          ↔ (∀ m ∈ children, ∀ k ∈ m.subtrees, ¬ IsCrossed k)
            ∧ ¬ IsCrossed (.mk kind span children) := by
        constructor
        · intro h
          exact ⟨fun m hm k hk => h k (hchild m hm k hk), h _ hself⟩
        · rintro ⟨hparts, hhere⟩ m hm
          rcases Node.mem_subtrees_iff.mp hm with rfl | ⟨c, hc, hm⟩
          · exact hhere
          · exact hparts c hc m hm
      -- What is found here stands in front of what is found in the parts; between the parts the
      -- order of the walk decides.
      rw [callsWithin_eq, List.pairwise_append, flatMap_callsWithin_pairwise_iff (hn _ hself),
        hdeep]
      have hparts : (∀ m ∈ (Node.mk kind span children).children,
            (callsWithin (statementWithin statement (.mk kind span children)) m).Pairwise
              Call.Precedes)
          ↔ ∀ m ∈ children, ∀ k ∈ m.subtrees, ¬ IsCrossed k :=
        forall₂_congr fun m hm => ih m hm (fun k hk => hn k (hchild m hm k hk)) _
      rw [hparts]
      constructor
      · intro h
        exact h.2.1
      · intro h
        refine ⟨?_, h, ?_⟩
        · cases callAt? statement (.mk kind span children) with
          | none => exact List.Pairwise.nil
          | some c => exact List.pairwise_singleton _ c
        · intro c hc d hd
          obtain ⟨m, hm, hdm⟩ := List.mem_flatMap.mp hd
          exact precedes_of_callAt? hn (Option.mem_toList.mp hc) hm d hdm

/-! ## §4. Call sites of a source. -/

/-- A source that is read is formed. -/
theorem Source.formed_of_read {text : List Char} {s : Source} (h : Source.read text = .ok s) :
    s.program.Formed := by
  unfold Source.read at h
  dsimp only at h
  split at h
  next hparse =>
    obtain rfl := Except.ok.inj h
    exact Script.Program.formed_of_parse hparse
  next => cases h

/-- The calls of a source are in order if and only if no node of it is crossed. -/
theorem Source.calls_pairwise_precedes_iff {s : Source} (hs : s.program.Formed) :
    s.calls.Pairwise Call.Precedes ↔ ∀ n ∈ s.program.nodes, ¬ IsCrossed n := by
  have hitem : ∀ n ∈ s.program.items, ∀ m ∈ n.subtrees, m ∈ s.program.nodes :=
    fun n hn m hm => Script.Program.mem_nodes hn hm
  have hshift : s.calls.Pairwise Call.Precedes
      ↔ (s.program.items.flatMap (callsWithin none)).Pairwise Call.Precedes := by
    unfold Source.calls
    rw [callsOf_eq_flatMap, List.pairwise_map]
    refine List.Pairwise.iff fun c d => ?_
    show c.callee.start + s.base < d.callee.start + s.base ↔ c.callee.start < d.callee.start
    omega
  rw [hshift, List.pairwise_flatMap]
  constructor
  · rintro ⟨hitems, -⟩ m hm
    unfold Script.Program.nodes at hm
    rw [Node.subtreesAll_eq_flatMap] at hm
    obtain ⟨n, hn, hm⟩ := List.mem_flatMap.mp hm
    exact (callsWithin_pairwise_precedes_iff
      (fun k hk => hs.nodes k (hitem n hn k hk)) none).mp (hitems n hn) m hm
  · intro h
    refine ⟨fun n hn => ?_, hs.inOrder.imp fun hab => precedes_of_before hab⟩
    exact (callsWithin_pairwise_precedes_iff
      (fun k hk => hs.nodes k (hitem n hn k hk)) none).mpr fun m hm => h m (hitem n hn m hm)

/-- **When calls are reported in the order of the source.**  The callees of the call
sites that a source is read to have begin at increasing offsets if and only if no
node of it is crossed, and only a `do` loop or a class can be.  Then the calls that
an injection skips are listed in the order of the source, too. -/
theorem calls_precede_iff {text : String} {source : Source}
    (hread : Source.read text.toList = .ok source) :
    (source.calls.Pairwise Call.Precedes ↔ ∀ n ∈ source.program.nodes, ¬ IsCrossed n)
    ∧ (∀ n ∈ source.program.nodes, IsCrossed n → n.kind = .doWhile ∨ n.kind = .class_)
    ∧ ((∀ n ∈ source.program.nodes, ¬ IsCrossed n) →
        ∀ settings outcome, inject text settings = .ok outcome →
          outcome.skipped.Pairwise fun c d => c.callee.start < d.callee.start) := by
  have hiff := Source.calls_pairwise_precedes_iff (Source.formed_of_read hread)
  refine ⟨hiff, fun n _ hcrossed => kind_of_isCrossed hcrossed, ?_⟩
  intro hcrossed settings outcome hok
  rw [inject_ok_iff_of_read hread, patchCalls_eq_ok_iff] at hok
  rw [hok.2.2.2, List.pairwise_map]
  exact (hiff.mpr hcrossed).filter Call.isRefused

/-- Two calls, the one inside of the other, and a third one behind them. -/
theorem calls_precede_nested :
    ∃ source, Source.read "define(() => require(a)); require(b)".toList = .ok source
      ∧ source.calls.length = 3 ∧ source.calls.Pairwise Call.Precedes := by
  have hcheck : ((Source.read "define(() => require(a)); require(b)".toList).toOption.any
      fun source => decide (source.calls.length = 3
        ∧ ∀ n ∈ source.program.nodes, n.walkedLast = [])) = true := by decide +kernel
  obtain ⟨source, hsource, hdecide⟩ := (Option.any_eq_true _ _).mp hcheck
  have hread := eq_ok_of_toOption hsource
  obtain ⟨hlength, hlast⟩ := of_decide_eq_true hdecide
  refine ⟨source, hread, hlength, (calls_precede_iff hread).1.mpr ?_⟩
  rintro n hn ⟨-, b, hb, -⟩
  rw [hlast n hn] at hb
  exact absurd hb List.not_mem_nil

/-- A call in the body of a loop is reported behind one in its condition. -/
theorem calls_doLoop :
    (Source.read "do \x7b define(1) \x7d while (require(2))".toList).toOption.map
        (fun source => source.calls.map fun c => (c.kind, c.callee))
      = some [(.require, ⟨24, 31⟩), (.define, ⟨5, 11⟩)] := by
  decide +kernel

end AmdKit.Amd
