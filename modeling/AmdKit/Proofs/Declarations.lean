/-
  AmdKit.Proofs.Declarations
  ────────────────────────────────
  **WHAT COUNTS AS A DECLARATION.**

  A factory introduces a name as a parameter, in a declarator, as the name of a
  function or a class, or at a `catch`.  It writes to a name by an assignment, plain
  or with an operator, and in the head of a loop without a declaration.  A written
  name is a use of it, but one that is written through a pattern is not told apart
  from one that is introduced:

      declared   =  introduced, or written through a pattern
      referred   ⊇  written as a plain target

  So a name that a list or an object is taken apart into, or that a loop runs over,
  counts as declared in all of the factory, and its module is not discovered.
-/
import AmdKit.Proofs.Discovery
import AmdKit.Proofs.SourceOrder

namespace AmdKit.Amd

open Script (Node Kind)
open Keyed
open Text (Span)

/-! ## §1. Introducing and writing. -/

/-- The node introduces the name: in a parameter, a declarator or a `catch`, or as the
name of a function or a class. -/
def Introduces (n : Node) (name : String) : Prop :=
  (∃ pattern ∈ n.parts.bound, name ∈ pattern.patternNames)
    ∨ ((n.kind = .function ∨ n.kind = .class_) ∧ ∃ c ∈ n.children, c.kind = .declared name)

/-- The node writes to the name through a pattern: left of an assignment, or as what a
loop without a declaration runs over. -/
def WritesThroughPattern (n : Node) (name : String) : Prop :=
  ∃ pattern ∈ n.parts.written, name ∈ pattern.patternNames

/-- The node writes to the name as a plain target, perhaps between parentheses. -/
def WritesDirectly (n : Node) (name : String) : Prop :=
  ∃ target ∈ n.parts.written,
    target.kind = .target name ∨ target.stripParens.kind = .reference name

instance (n : Node) (name : String) : Decidable (Introduces n name) :=
  inferInstanceAs (Decidable ((∃ pattern ∈ n.parts.bound, name ∈ pattern.patternNames)
    ∨ ((n.kind = .function ∨ n.kind = .class_) ∧ ∃ c ∈ n.children, c.kind = .declared name)))

instance (n : Node) (name : String) : Decidable (WritesThroughPattern n name) :=
  inferInstanceAs (Decidable (∃ pattern ∈ n.parts.written, name ∈ pattern.patternNames))

instance (n : Node) (name : String) : Decidable (WritesDirectly n name) :=
  inferInstanceAs (Decidable (∃ target ∈ n.parts.written,
    target.kind = .target name ∨ target.stripParens.kind = .reference name))

/-! ## §2. Declared names. -/

theorem mem_gather_iff {f : Kind → List String} {n : Node} {name : String} :
    name ∈ gather f n ↔ ∃ m ∈ n.subtrees, name ∈ f m.kind := by
  induction n using Node.induction with
  | mk kind span children ih =>
      rw [gather_eq, List.mem_append, List.mem_flatMap]
      constructor
      · rintro (hname | ⟨c, hc, hname⟩)
        · exact ⟨_, Node.mem_subtrees_self _, hname⟩
        · obtain ⟨m, hm, hname⟩ := (ih c hc).mp hname
          exact ⟨m, Node.mem_subtrees_of_child hc hm, hname⟩
      · rintro ⟨m, hm, hname⟩
        rcases Node.mem_subtrees_iff.mp hm with rfl | ⟨c, hc, hm⟩
        · exact Or.inl hname
        · exact Or.inr ⟨c, hc, (ih c hc).mpr ⟨m, hm, hname⟩⟩

theorem mem_declaredNames_of_child {n c : Node} {name : String} (hc : c ∈ n.children)
    (h : name ∈ declaredNames c) : name ∈ declaredNames n := by
  obtain ⟨m, hm, hname⟩ := mem_gather_iff.mp h
  exact mem_gather_iff.mpr ⟨m, Node.mem_subtrees_of_child hc hm, hname⟩

/-- The names of a pattern are declared, whatever the pattern is for. -/
theorem mem_declaredNames_of_patternNames (n : Node) {name : String}
    (h : name ∈ n.patternNames) : name ∈ declaredNames n := by
  induction n using Node.induction with
  | mk kind span children ih =>
      -- A pattern made of patterns has the names of its parts.
      have hall : ∀ ns : List Node, (∀ c ∈ ns, c ∈ children) →
          name ∈ (Node.boundNamesAll ns).map Prod.fst →
            name ∈ declaredNames (.mk kind span children) := by
        intro ns hns hname
        rw [Node.boundNamesAll_eq_flatMap, List.map_flatMap] at hname
        obtain ⟨c, hc, hname⟩ := List.mem_flatMap.mp hname
        exact mem_declaredNames_of_child (hns c hc) (ih c (hns c hc) hname)
      unfold Node.patternNames Node.boundNames at h
      split at h
      case h_1 heq =>
        obtain ⟨rfl, rfl, rfl⟩ := Node.mk.inj heq
        exact mem_gather_iff.mpr ⟨_, Node.mem_subtrees_self _, h⟩
      case h_2 left rest heq =>
        obtain ⟨rfl, rfl, rfl⟩ := Node.mk.inj heq
        exact mem_declaredNames_of_child (List.mem_cons_self) (ih left List.mem_cons_self h)
      case h_7 => exact absurd h List.not_mem_nil
      all_goals
        next heq =>
          rw [← (Node.mk.inj heq).2.2] at h
          exact hall children (fun _ hc => hc) h

/-- Of a formed tree a declared name is a name of the tree as a pattern, or its name,
or is introduced or written through a pattern inside of it. -/
theorem cases_of_mem_declaredNames {n : Node} (hn : ∀ m ∈ n.subtrees, m.Formed)
    {name : String} (h : name ∈ declaredNames n) :
    name ∈ n.patternNames ∨ n.kind = .declared name
      ∨ ∃ m ∈ n.subtrees, Introduces m name ∨ WritesThroughPattern m name := by
  -- A name climbs from part to parent until a node is reached that tells what the name does.
  induction n using Node.induction with
  | mk kind span children ih =>
      have hformed := hn _ (Node.mem_subtrees_self _)
      unfold declaredNames at h
      rw [gather_eq, List.mem_append, List.mem_flatMap] at h
      rcases h with hhere | ⟨c, hc, hchild⟩
      · -- The node itself is the name.
        cases kind with
        | binding text => exact Or.inl hhere
        | declared text =>
            rw [List.mem_singleton.mp hhere]
            exact Or.inr (Or.inl rfl)
        | _ => exact absurd hhere List.not_mem_nil
      · have hsub : ∀ m ∈ c.subtrees, m ∈ (Node.mk kind span children).subtrees :=
          fun m hm => Node.mem_subtrees_of_child hc hm
        rcases ih c hc (fun m hm => hn m (hsub m hm)) hchild with hpattern | hnamed | hdeep
        · -- A pattern among the parts: what it stands there for tells what happens.
          rcases Node.mem_parts_of_mem_children hc with hin | hin | hin | hin
          · exact Or.inl (Node.patternNames_of_mem_inner hin hpattern)
          · exact Or.inr (Or.inr ⟨_, Node.mem_subtrees_self _,
              Or.inl (Or.inl ⟨c, hin, hpattern⟩)⟩)
          · exact Or.inr (Or.inr ⟨_, Node.mem_subtrees_self _, Or.inr ⟨c, hin, hpattern⟩⟩)
          · have hplain := hformed.plain c hin
            rw [Node.isPattern_of_mem_patternNames hpattern] at hplain
            cases hplain
        · have hkind := hformed.named ⟨c, hc, by rw [hnamed]; rfl⟩
          exact Or.inr (Or.inr ⟨_, Node.mem_subtrees_self _,
            Or.inl (Or.inr ⟨hkind, c, hc, hnamed⟩)⟩)
        · obtain ⟨m, hm, hdeep⟩ := hdeep
          exact Or.inr (Or.inr ⟨m, hsub m hm, hdeep⟩)

/-- **What is declared.**  The names that a factory declares are those that it
introduces and those that it writes to through a pattern. -/
theorem mem_declaredNames_iff_introduces {factory : Node} (h : factory.Plain) (name : String) :
    name ∈ declaredNames factory
      ↔ ∃ m ∈ factory.subtrees, Introduces m name ∨ WritesThroughPattern m name := by
  constructor
  · -- A factory is neither a pattern nor the name of one, so a node inside of it tells what the
    -- name does.
    intro hname
    rcases cases_of_mem_declaredNames h.formed hname with hpattern | hnamed | hdeep
    · have hkind := Node.isPattern_of_mem_patternNames hpattern
      rw [h.notPattern] at hkind
      cases hkind
    · have hkind := h.notDeclared
      rw [hnamed] at hkind
      cases hkind
    · exact hdeep
  · rintro ⟨m, hm, hname⟩
    have hchild : ∃ c ∈ m.children, name ∈ declaredNames c := by
      rcases hname with (⟨c, hc, hname⟩ | ⟨-, c, hc, hkind⟩) | ⟨c, hc, hname⟩
      · exact ⟨c, Node.mem_children_of_mem_bound hc, mem_declaredNames_of_patternNames c hname⟩
      · refine ⟨c, hc, mem_gather_iff.mpr ⟨c, Node.mem_subtrees_self c, ?_⟩⟩
        rw [hkind]
        exact List.mem_singleton_self name
      · exact ⟨c, Node.mem_children_of_mem_written hc, mem_declaredNames_of_patternNames c hname⟩
    obtain ⟨c, hc, hname⟩ := hchild
    obtain ⟨d, hd, hname⟩ := mem_gather_iff.mp hname
    exact mem_gather_iff.mpr ⟨d, Node.mem_subtrees_trans hm (Node.mem_subtrees_iff.mpr
      (Or.inr ⟨c, hc, hd⟩)), hname⟩

/-! ## §3. Factories. -/

theorem stripParens_mem_subtrees (n : Node) : n.stripParens ∈ n.subtrees := by
  fun_induction Node.stripParens n with
  | case1 span inner ih => exact Node.mem_subtrees_of_child (List.mem_singleton_self inner) ih
  | case2 n => exact n.mem_subtrees_self

/-- A factory is a function or an arrow function, and stands in its argument. -/
theorem Factory.node_of_ofArgument? {argument : Node} {f : Factory}
    (h : Factory.ofArgument? argument = some f) :
    f.node ∈ argument.subtrees ∧ (f.node.kind = .function ∨ f.node.kind = .arrow) := by
  have hnode : f.node = argument.stripParens
      ∧ (argument.stripParens.kind = .function ∨ argument.stripParens.kind = .arrow) := by
    unfold Factory.ofArgument? at h
    dsimp only at h
    split at h
    next hkind => exact ⟨(congrArg Factory.node (Option.some.inj h)).symm, Or.inl hkind⟩
    next hkind => exact ⟨(congrArg Factory.node (Option.some.inj h)).symm, Or.inr hkind⟩
    next => cases h
  rw [hnode.1]
  exact ⟨stripParens_mem_subtrees argument, hnode.2⟩

/-- The factory of a call stands in the call. -/
theorem node_of_callAt? {statement : Option Span} {n : Node} {c : Call} {f : Factory}
    (h : callAt? statement n = some c) (hf : c.factory = some f) :
    f.node ∈ n.subtrees ∧ (f.node.kind = .function ∨ f.node.kind = .arrow) := by
  unfold callAt? at h
  split at h
  next span callee arguments =>
    obtain ⟨kind, -, rfl⟩ := Option.map_eq_some_iff.mp h
    obtain ⟨argument, hargument, hfactory⟩ := Option.bind_eq_some_iff.mp hf
    obtain ⟨hnode, hkind⟩ := Factory.node_of_ofArgument? hfactory
    have hpart : argument ∈ (Node.mk .call span (callee :: arguments)).children :=
      List.mem_cons_of_mem callee (List.mem_of_getLast? hargument)
    exact ⟨Node.mem_subtrees_of_child hpart hnode, hkind⟩
  next => cases h

/-- The factories of a source that is read are plain. -/
theorem Source.plain_factory {s : Source} (hs : s.program.Formed) {c : Call} (hc : c ∈ s.calls)
    {f : Factory} (hf : c.factory = some f) : f.node.Plain := by
  obtain ⟨d, hd, rfl⟩ := List.mem_map.mp hc
  obtain ⟨g, hg, rfl⟩ := Option.map_eq_some_iff.mp hf
  rw [callsOf_eq_flatMap] at hd
  obtain ⟨item, hitem, hd⟩ := List.mem_flatMap.mp hd
  obtain ⟨m, hm, around, hcall⟩ := exists_callAt?_of_mem_callsWithin none d hd
  obtain ⟨hnode, hkind⟩ := node_of_callAt? hcall hg
  refine ⟨fun k hk => hs.nodes k (Script.Program.mem_nodes hitem
    (Node.mem_subtrees_trans hm (Node.mem_subtrees_trans hnode hk))), ?_, ?_⟩
  · show g.node.kind.isPattern = false
    rcases hkind with hkind | hkind <;> rw [hkind] <;> rfl
  · show g.node.kind.isDeclared = false
    rcases hkind with hkind | hkind <;> rw [hkind] <;> rfl

/-! ## §4. Names that are written to. -/

/-- A name between parentheses is referred to. -/
theorem mem_referredNames_of_stripParens {n : Node} {name : String}
    (h : n.stripParens.kind = .reference name) : name ∈ referredNames n := by
  fun_induction Node.stripParens n with
  | case1 span inner ih =>
      obtain ⟨m, hm, hname⟩ := mem_gather_iff.mp (ih h)
      exact mem_gather_iff.mpr
        ⟨m, Node.mem_subtrees_of_child (List.mem_singleton_self inner) hm, hname⟩
  | case2 n =>
      refine mem_gather_iff.mpr ⟨n, n.mem_subtrees_self, ?_⟩
      rw [h]
      exact List.mem_singleton_self name

/-- A name that is written to as a plain target is referred to. -/
theorem mem_referredNames_of_writesDirectly {factory m : Node} {name : String}
    (hm : m ∈ factory.subtrees) (h : WritesDirectly m name) : name ∈ referredNames factory := by
  obtain ⟨target, htarget, hkind⟩ := h
  have hreferred : name ∈ referredNames target := by
    rcases hkind with hkind | hkind
    · refine mem_gather_iff.mpr ⟨target, target.mem_subtrees_self, ?_⟩
      rw [hkind]
      exact List.mem_singleton_self name
    · exact mem_referredNames_of_stripParens hkind
  obtain ⟨k, hk, hname⟩ := mem_gather_iff.mp hreferred
  have hkm : k ∈ m.subtrees :=
    Node.mem_subtrees_of_child (Node.mem_children_of_mem_written htarget) hk
  exact mem_gather_iff.mpr ⟨k, Node.mem_subtrees_trans hm hkm, hname⟩

theorem mem_usedModules_of_free {module? : String → Option String} {factory : Node}
    {name module : String} (hreferred : name ∈ referredNames factory)
    (hfree : name ∉ declaredNames factory) (hmodule : module? name = some module) :
    module ∈ usedModules module? factory := by
  unfold usedModules
  rw [mem_keepFirst_id_iff, List.mem_filterMap]
  exact ⟨name, List.mem_filter.mpr ⟨hreferred, decide_eq_true hfree⟩, hmodule⟩

/-- **What writing to a name does.**  The names that a factory declares are those that
it introduces, and those that it writes to through a pattern or runs a loop over.
So they are those that it introduces if and only if it introduces all of the latter.
A name that is written to as a plain target is referred to, and unless it is also
declared, the module that it stands for is discovered. -/
theorem declaredNames_of_factory (settings : Settings) {text : List Char} {source : Source}
    (hread : Source.read text = .ok source) :
    ∀ call ∈ source.calls, ∀ factory, call.factory = some factory →
      (∀ name, name ∈ declaredNames factory.node
        ↔ ∃ m ∈ factory.node.subtrees, Introduces m name ∨ WritesThroughPattern m name)
      ∧ ((∀ name, name ∈ declaredNames factory.node
          ↔ ∃ m ∈ factory.node.subtrees, Introduces m name)
        ↔ ∀ name, (∃ m ∈ factory.node.subtrees, WritesThroughPattern m name) →
            ∃ m ∈ factory.node.subtrees, Introduces m name)
      ∧ (∀ name, (∃ m ∈ factory.node.subtrees, WritesDirectly m name) →
          name ∈ referredNames factory.node
          ∧ ((∀ m ∈ factory.node.subtrees, ¬ Introduces m name ∧ ¬ WritesThroughPattern m name) →
            ∀ module, settings.module? name = some module →
              module ∈ usedModules settings.module? factory.node)) := by
  intro call hcall factory hfactory
  have hdeclared := mem_declaredNames_iff_introduces
    (Source.plain_factory (Source.formed_of_read hread) hcall hfactory)
  -- What pattern targets add is exactly what stands between the names of the program and the
  -- documented ones.
  refine ⟨hdeclared, ?_, ?_⟩
  · constructor
    · rintro hintroduced name ⟨m, hm, hwrites⟩
      exact (hintroduced name).mp ((hdeclared name).mpr ⟨m, hm, Or.inr hwrites⟩)
    · intro hall name
      rw [hdeclared name]
      constructor
      · rintro ⟨m, hm, hintroduces | hwrites⟩
        · exact ⟨m, hm, hintroduces⟩
        · exact hall name ⟨m, hm, hwrites⟩
      · rintro ⟨m, hm, hintroduces⟩
        exact ⟨m, hm, Or.inl hintroduces⟩
  · rintro name ⟨m, hm, hwrites⟩
    have hreferred := mem_referredNames_of_writesDirectly hm hwrites
    refine ⟨hreferred, fun hneither module hmodule => ?_⟩
    refine mem_usedModules_of_free hreferred ?_ hmodule
    rw [hdeclared name]
    rintro ⟨k, hk, hintroduces | hwrites⟩
    · exact (hneither k hk).1 hintroduces
    · exact (hneither k hk).2 hwrites

/-- A name that is written to as a plain target, and a parameter beside it. -/
theorem declaredNames_of_factory_target :
    ∃ source, Source.read "define(function(a) \x7b $ = a; \x7d)".toList = .ok source
      ∧ ∃ call ∈ source.calls, ∃ factory, call.factory = some factory
        ∧ "$" ∈ referredNames factory.node
        ∧ "jquery" ∈ usedModules (Settings.module? { aliases := [("$", "jquery")] })
            factory.node := by
  have hcheck : ((Source.read "define(function(a) \x7b $ = a; \x7d)".toList).toOption.any
      fun source => source.calls.head?.any fun call => call.factory.any fun f =>
        decide ((∃ m ∈ f.node.subtrees, WritesDirectly m "$")
          ∧ ∀ m ∈ f.node.subtrees, ¬ Introduces m "$" ∧ ¬ WritesThroughPattern m "$"))
      = true := by decide +kernel
  obtain ⟨source, hsource, hcalls⟩ := (Option.any_eq_true _ _).mp hcheck
  obtain ⟨call, hcall, hfactories⟩ := (Option.any_eq_true _ _).mp hcalls
  obtain ⟨factory, hfactory, hdecide⟩ := (Option.any_eq_true _ _).mp hfactories
  obtain ⟨hwrites, hneither⟩ := of_decide_eq_true hdecide
  have hread := eq_ok_of_toOption hsource
  have hmem := List.mem_of_head? hcall
  have hname := (declaredNames_of_factory { aliases := [("$", "jquery")] } hread call hmem
    factory hfactory).2.2 "$" hwrites
  exact ⟨source, hread, call, hmem, factory, hfactory, hname.1, hname.2 hneither "jquery" rfl⟩

/-- **A list that is written to.**  The factory introduces nothing, but the name that it
takes the list apart into counts as declared, so its module is not discovered. -/
theorem usedModules_list_target :
    (Source.read "define(function() \x7b [$] = x; \x7d)".toList).toOption.map
        (fun source => (source.calls.filterMap Call.factory).map fun f =>
          (decide (∃ m ∈ f.node.subtrees, Introduces m "$"),
            decide (∃ m ∈ f.node.subtrees, WritesThroughPattern m "$"),
            declaredNames f.node,
            usedModules (Settings.module? { aliases := [("$", "jquery")] }) f.node))
      = some [(false, true, ["$"], [])] := by
  decide +kernel

end AmdKit.Amd
