/-
  AmdKit.Proofs.Discovery
  ────────────────────────────────
  **WHICH MODULES A FACTORY USES.**

  A name at a path of a factory is free if the factory declares it at none of its
  paths, whether before or behind.  The modules that are discovered are those that
  free names stand for, and

      each of them is listed once
      one whose first use comes earlier in the walk is listed earlier

  In terms of paths the walk needs no stack or counter: a path is walked before
  another one if and only if it is less in the lexicographic order.  And of the
  aliases only the module that each name stands for counts, not the order in which
  they were added.
-/
import AmdKit.Amd.Injection
import AmdKit.Proofs.CallSites
import AmdKit.Proofs.MergedEntries

namespace AmdKit.Script

/-! ## §1. The order of the walk. -/

/-- The paths of parts one after the other are in order, if those of each part are. -/
theorem Node.pathsFrom_pairwise_lt {ns : List Node} (h : ∀ n ∈ ns, n.paths.Pairwise (· < ·)) :
    ∀ k, (Node.pathsFrom k ns).Pairwise (· < ·) := by
  intro k
  rw [Node.pathsFrom_eq_flatMap, List.pairwise_flatMap]
  constructor
  · -- Inside of one node the paths differ behind the number that they share.
    intro x hx
    refine List.pairwise_map.mpr ((h x.1 (List.fst_mem_of_mem_zipIdx hx)).imp ?_)
    intro path path' hlt
    exact List.cons_lt_cons_iff.mpr (Or.inr ⟨rfl, hlt⟩)
  · have hnumbers : ((ns.zipIdx k).map Prod.snd).Pairwise (· < ·) := by
      rw [List.zipIdx_map_snd]
      exact List.pairwise_lt_range'
    refine (List.pairwise_map.mp hnumbers).imp ?_
    intro x y hlt path hx path' hy
    obtain ⟨rest, -, rfl⟩ := List.mem_map.mp hx
    obtain ⟨rest', -, rfl⟩ := List.mem_map.mp hy
    exact List.cons_lt_cons_iff.mpr (Or.inl hlt)

/-- **The walk is lexicographic.** -/
theorem Node.paths_pairwise_lt (n : Node) : n.paths.Pairwise (· < ·) := by
  induction n using Node.induction with
  | mk kind span children ih =>
      rw [Node.paths_eq, List.pairwise_cons]
      refine ⟨?_, Node.pathsFrom_pairwise_lt ih 0⟩
      intro path hpath
      obtain ⟨i, n, rest, rfl, -⟩ := Node.mem_pathsFrom_zero_iff.mp hpath
      exact List.nil_lt_cons i rest

end AmdKit.Script

namespace AmdKit.Keyed

/-! ## §2. The first of each value. -/

variable {α β : Type} [DecidableEq β]

/-- What has been seen is not kept again. -/
theorem notMem_of_mem_keepFirstFrom {seen : List β} {xs : List β} {x : β}
    (hx : x ∈ keepFirstFrom id seen xs) : x ∉ seen := by
  induction xs generalizing seen with
  | nil => exact absurd hx List.not_mem_nil
  | cons y ys ih =>
      unfold keepFirstFrom at hx
      by_cases hy : id y ∈ seen
      · rw [if_pos hy] at hx
        exact ih hx
      · rw [if_neg hy] at hx
        rcases List.mem_cons.mp hx with rfl | hx
        · exact hy
        · exact fun hmem => ih hx (List.mem_cons_of_mem _ hmem)

/-- Values that are kept stand in the order of what first gives them. -/
theorem keepFirstFrom_filterMap_pairwise {r : α → α → Prop} {f : α → Option β} {as : List α}
    (has : as.Pairwise r) (seen : List β) :
    (keepFirstFrom id seen (as.filterMap f)).Pairwise fun x y =>
      ∃ a ∈ as, f a = some x ∧ ∀ b ∈ as, f b = some y → r a b := by
  induction as generalizing seen with
  | nil => exact List.Pairwise.nil
  | cons a as ih =>
      obtain ⟨ha, has⟩ := List.pairwise_cons.mp has
      -- What `a` gives is not given by the tail: it is missing, seen, or new.
      have hbehind : ∀ (seen : List β), (∀ z, f a = some z → z ∈ seen) →
          (keepFirstFrom id seen (as.filterMap f)).Pairwise fun x y =>
            ∃ b ∈ a :: as, f b = some x ∧ ∀ c ∈ a :: as, f c = some y → r b c := by
        intro seen hseen
        refine (ih has seen).imp_of_mem ?_
        rintro x y - hy ⟨b, hb, hx, hfirst⟩
        refine ⟨b, List.mem_cons_of_mem a hb, hx, fun c hc hcy => ?_⟩
        rcases List.mem_cons.mp hc with rfl | hc
        · exact absurd (hseen y hcy) (notMem_of_mem_keepFirstFrom hy)
        · exact hfirst c hc hcy
      cases hfa : f a with
      | none =>
          rw [List.filterMap_cons_none hfa]
          exact hbehind seen (by simp [hfa])
      | some z =>
          rw [List.filterMap_cons_some hfa]
          unfold keepFirstFrom
          by_cases hz : id z ∈ seen
          · rw [if_pos hz]
            exact hbehind seen (by simpa [hfa] using hz)
          · rw [if_neg hz, List.pairwise_cons]
            refine ⟨fun y hy => ⟨a, List.mem_cons_self, hfa, fun b hb hby => ?_⟩,
              hbehind (id z :: seen) (by simp [hfa])⟩
            rcases List.mem_cons.mp hb with rfl | hb
            · have hyz : y = z := Option.some.inj (hby.symm.trans hfa)
              exact absurd (hyz ▸ List.mem_cons_self) (notMem_of_mem_keepFirstFrom hy)
            · exact ha b hb

/-- Nothing gets lost where the first of each value is kept. -/
theorem mem_keepFirst_id_iff {xs : List β} {x : β} : x ∈ keepFirst id xs ↔ x ∈ xs := by
  have hkeys : x ∈ (keepFirst id xs).map id ↔ x ∈ xs.map id := mem_keys_keepFirst
  rwa [List.map_id, List.map_id] at hkeys

/-- And nothing is there twice. -/
theorem nodup_keepFirst_id (xs : List β) : (keepFirst id xs).Nodup := by
  have hkeys : ((keepFirst id xs).map id).Nodup := nodup_keys_keepFirst xs
  rwa [List.map_id] at hkeys

end AmdKit.Keyed

namespace AmdKit.Amd

open Script (Node Kind)
open Keyed

/-! ## §3. Names by their paths. -/

/-- The node at the path refers to the name. -/
def RefersAt (factory : Node) (path : List Nat) (name : String) : Prop :=
  ∃ n, factory.at? path = some n ∧ name ∈ referredBy n.kind

/-- The factory declares the name, wherever that may be. -/
def Declares (factory : Node) (name : String) : Prop :=
  ∃ path n, factory.at? path = some n ∧ name ∈ declaredBy n.kind

/-- A node declares at most one name. -/
theorem declaredBy_eq_toList (kind : Kind) : declaredBy kind = (declaredBy kind).head?.toList := by
  cases kind <;> rfl

/-- And refers to at most one. -/
theorem referredBy_eq_toList (kind : Kind) : referredBy kind = (referredBy kind).head?.toList := by
  cases kind <;> rfl

theorem mem_iff_head?_eq {f : Kind → List String} (hf : ∀ kind, f kind = (f kind).head?.toList)
    {kind : Kind} {name : String} : name ∈ f kind ↔ (f kind).head? = some name := by
  rw [hf kind, Option.mem_toList, Option.head?_toList]

theorem gatherAll_eq_flatMap (f : Kind → List String) (ns : List Node) :
    gatherAll f ns = ns.flatMap (gather f) := by
  induction ns with
  | nil => rfl
  | cons n ns ih =>
      unfold gatherAll
      rw [ih, List.flatMap_cons]

/-- What a tree gathers is what its root gives, and then what its parts gather. -/
theorem gather_eq (f : Kind → List String) (n : Node) :
    gather f n = f n.kind ++ n.children.flatMap (gather f) := by
  cases n
  unfold gather
  rw [gatherAll_eq_flatMap]
  rfl

/-- The names of a tree are those at its paths, in walking order. -/
theorem gather_eq_filterMap {f : Kind → List String}
    (hf : ∀ kind, f kind = (f kind).head?.toList) (n : Node) :
    gather f n = n.paths.filterMap fun path => (n.at? path).bind fun m => (f m.kind).head? := by
  induction n using Node.induction with
  | mk kind span children ih =>
      have hchildren : (Node.pathsFrom 0 children).filterMap
            (fun path => ((Node.mk kind span children).at? path).bind fun m => (f m.kind).head?)
          = children.flatMap (gather f) := by
        refine Node.filterMap_pathsFrom fun i c hc => ?_
        rw [ih c (List.mem_of_getElem? hc)]
        refine List.filterMap_congr fun path _ => ?_
        rw [Node.at?_cons (n := Node.mk kind span children) hc]
      rw [gather_eq, Node.paths_eq, List.filterMap_eq_flatMap_toList, List.flatMap_cons,
          ← List.filterMap_eq_flatMap_toList]
      refine congrArg₂ _ (hf kind) ?_
      exact hchildren.symm

/-- A name is declared if a node at some path declares it. -/
theorem mem_declaredNames_iff (factory : Node) (name : String) :
    name ∈ declaredNames factory ↔ Declares factory name := by
  unfold declaredNames Declares
  rw [gather_eq_filterMap declaredBy_eq_toList, List.mem_filterMap]
  constructor
  · rintro ⟨path, -, hname⟩
    obtain ⟨n, hn, hname⟩ := Option.bind_eq_some_iff.mp hname
    exact ⟨path, n, hn, (mem_iff_head?_eq declaredBy_eq_toList).mpr hname⟩
  · rintro ⟨path, n, hn, hname⟩
    refine ⟨path, (factory.mem_paths_iff path).mpr (by rw [hn]; rfl), ?_⟩
    rw [hn]
    exact (mem_iff_head?_eq declaredBy_eq_toList).mp hname

/-! ## §4. Modules by their paths. -/

/-- The node at the path uses the module: it refers to a name that the factory does
not declare, and the name stands for the module. -/
def UsesAt (settings : Settings) (factory : Node) (path : List Nat) (module : String) : Prop :=
  ∃ name, RefersAt factory path name ∧ ¬ Declares factory name
    ∧ settings.module? name = some module

/-- The module that the node at a path uses, if it uses one. -/
def usedAt? (module? : String → Option String) (factory : Node) (path : List Nat) :
    Option String :=
  ((factory.at? path).bind fun n => (referredBy n.kind).head?).bind fun name =>
    if name ∈ declaredNames factory then none else module? name

/-- A module is used at a path if a name there refers to it that the factory does not
declare. -/
theorem usedAt?_eq_some_iff {settings : Settings} {factory : Node} {path : List Nat}
    {module : String} :
    usedAt? settings.module? factory path = some module ↔ UsesAt settings factory path module := by
  unfold usedAt? UsesAt RefersAt
  constructor
  · intro h
    obtain ⟨name, hname, hmodule⟩ := Option.bind_eq_some_iff.mp h
    obtain ⟨n, hn, hkind⟩ := Option.bind_eq_some_iff.mp hname
    split at hmodule
    next => cases hmodule
    next hfree =>
      exact ⟨name, ⟨n, hn, (mem_iff_head?_eq referredBy_eq_toList).mpr hkind⟩,
        fun hdeclared => hfree ((mem_declaredNames_iff factory name).mpr hdeclared), hmodule⟩
  · rintro ⟨name, ⟨n, hn, hname⟩, hfree, hmodule⟩
    rw [← mem_declaredNames_iff] at hfree
    rw [hn, Option.bind_some, (mem_iff_head?_eq referredBy_eq_toList).mp hname,
        Option.bind_some, if_neg hfree, hmodule]

/-- The used modules are those of all paths, the first of each. -/
theorem usedModules_eq_keepFirst (module? : String → Option String) (factory : Node) :
    usedModules module? factory
      = keepFirst id (factory.paths.filterMap (usedAt? module? factory)) := by
  -- To filter the names and then look them up is to look up the free ones.
  have hfree : ∀ names : List String,
      (names.filter fun name => name ∉ declaredNames factory).filterMap module?
        = names.filterMap fun name =>
            if name ∈ declaredNames factory then none else module? name := by
    intro names
    rw [List.filterMap_filter]
    refine List.filterMap_congr fun name _ => ?_
    by_cases hname : name ∈ declaredNames factory <;> simp [hname]
  show keepFirst id (((referredNames factory).filter
      fun name => name ∉ declaredNames factory).filterMap module?) = _
  rw [hfree]
  unfold referredNames
  rw [gather_eq_filterMap referredBy_eq_toList, List.filterMap_filterMap]
  rfl

/-! ## §5. Aliases. -/

/-- Let names stand for modules, one after the other. -/
def Settings.withAliases (settings : Settings) (added : List (String × String)) : Settings :=
  added.foldl (fun s entry => s.withAlias entry.1 entry.2) settings

/-- A name stands for the module that it was last given, or for what it stood for
before. -/
theorem module?_withAliases (settings : Settings) (added : List (String × String))
    (name : String) :
    (settings.withAliases added).module? name
      = (((added.filter fun entry => entry.1 = name).getLast?).map Prod.snd).or
          (settings.module? name) := by
  induction added using List.reverseRecOn with
  | nil => rfl
  | append_singleton added entry ih =>
      have hput : (settings.withAliases (added ++ [entry])).module? name
          = if entry.1 = name then some entry.2
            else (settings.withAliases added).module? name := by
        unfold Settings.withAliases
        rw [List.foldl_append]
        show (find? Prod.fst name (upsert Prod.fst (fun _ new => new) entry _)).map Prod.snd = _
        rw [find?_upsert replace_associative]
        by_cases hname : entry.1 = name
        · rw [if_pos hname, if_pos hname]
          cases find? Prod.fst name
            (added.foldl (fun s entry => s.withAlias entry.1 entry.2) settings).aliases <;> rfl
        · rw [if_neg hname, if_neg hname]
          rfl
      rw [hput, List.filter_append]
      by_cases hname : entry.1 = name
      · rw [if_pos hname, List.filter_cons_of_pos (by simpa using hname), List.filter_nil,
            List.getLast?_concat]
        rfl
      · rw [if_neg hname, List.filter_cons_of_neg (by simpa using hname), List.filter_nil,
            List.append_nil, ih]

/-- Aliases of different names can be added in any order. -/
theorem module?_withAliases_perm (settings : Settings) {added added' : List (String × String)}
    (hperm : added.Perm added') (hnames : (added.map Prod.fst).Nodup) :
    (settings.withAliases added).module? = (settings.withAliases added').module? := by
  funext name
  -- At most one of the aliases is for the name, so both orders end with it.
  have hlength : (added.filter fun entry => entry.1 = name).length ≤ 1 := by
    have hcount := List.nodup_iff_count_le_one.mp hnames name
    rw [List.count_eq_countP, List.countP_map, List.countP_eq_length_filter] at hcount
    exact hcount
  have hfilter : (added.filter fun entry => entry.1 = name)
      = added'.filter fun entry => entry.1 = name := by
    have hperm := hperm.filter fun entry => decide (entry.1 = name)
    cases hentries : added.filter fun entry => entry.1 = name with
    | nil =>
        rw [hentries] at hperm
        exact hperm.nil_eq
    | cons entry rest =>
        rw [hentries] at hlength hperm
        have hrest : rest = [] := List.eq_nil_of_length_eq_zero (Nat.le_zero.mp
          (Nat.le_of_succ_le_succ hlength))
        rw [hrest] at hperm ⊢
        exact (List.singleton_perm.mp hperm)
  rw [module?_withAliases, module?_withAliases, hfilter]

/-! ## §6. What is discovered. -/

/-- **The modules of a factory.**  A module is discovered if and only if some free
name of the factory stands for it, and each one is listed once.  They are listed
in the order of their first uses: some use of the one listed first is walked
before every use of the other.  Of the aliases only the module that each name
stands for matters, so those of different names can be added in any order. -/
theorem usedModules_discovered (settings : Settings) (factory : Node) :
    (∀ module, module ∈ usedModules settings.module? factory
      ↔ ∃ path, UsesAt settings factory path module)
    ∧ (usedModules settings.module? factory).Nodup
    ∧ ((usedModules settings.module? factory).Pairwise fun module module' =>
        ∃ path, UsesAt settings factory path module
          ∧ ∀ path', UsesAt settings factory path' module' → path < path')
    ∧ (∀ other : Settings, (∀ name, other.module? name = settings.module? name) →
        usedModules other.module? factory = usedModules settings.module? factory)
    ∧ (∀ added added' : List (String × String),
        added.Perm added' → (added.map Prod.fst).Nodup →
          usedModules (settings.withAliases added).module? factory
            = usedModules (settings.withAliases added').module? factory) := by
  have hpath : ∀ {path module}, UsesAt settings factory path module → path ∈ factory.paths := by
    rintro path module ⟨name, ⟨n, hn, -⟩, -⟩
    rw [factory.mem_paths_iff, hn]
    rfl
  -- A list that keeps the first of each value, over the paths in the order of the walk: the five
  -- facts are read off it.
  refine ⟨fun module => ?complete, ?once, ?ordered, fun other hother => ?mapping,
    fun added added' hperm hnames => ?added⟩
  case complete =>
    rw [usedModules_eq_keepFirst, mem_keepFirst_id_iff, List.mem_filterMap]
    constructor
    · rintro ⟨path, -, hused⟩
      exact ⟨path, usedAt?_eq_some_iff.mp hused⟩
    · rintro ⟨path, huses⟩
      exact ⟨path, hpath huses, usedAt?_eq_some_iff.mpr huses⟩
  case once =>
    rw [usedModules_eq_keepFirst]
    exact nodup_keepFirst_id _
  case ordered =>
    rw [usedModules_eq_keepFirst]
    refine (keepFirstFrom_filterMap_pairwise factory.paths_pairwise_lt []).imp ?_
    rintro module module' ⟨path, -, hused, hfirst⟩
    exact ⟨path, usedAt?_eq_some_iff.mp hused, fun path' huses =>
      hfirst path' (hpath huses) (usedAt?_eq_some_iff.mpr huses)⟩
  case mapping => rw [funext hother]
  case added => rw [module?_withAliases_perm settings hperm hnames]

end AmdKit.Amd
