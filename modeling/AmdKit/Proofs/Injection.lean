/-
  AmdKit.Proofs.Injection
  ────────────────────────────────
  **WHAT AN INJECTION WRITES AND WHAT IT SKIPS.**

  The call sites of a source fall into three groups: those that have an array,
  those that get one, and those that are refused.  `takesArray` and `refusal`
  tell the groups apart by the shape of the call alone.

      batch settings calls  =  the edits of the calls that take an array

  Each of these calls adds one array to the woven source, in front of its last
  argument, with the modules in it when arrays are filled.  Calls that take
  an array have different last arguments if and only if their edits do not
  collide.
-/
import AmdKit.Amd.Injection
import AmdKit.Proofs.Batch
import AmdKit.Proofs.JsonSteps

namespace AmdKit.Amd

open Text (Span weave)

/-! ## §1. Three groups of calls. -/

/-- The call gets an array: it has none and no spread, and it has an argument to
put it before, which is a function if it is the only one. -/
def Call.takesArray (c : Call) : Bool :=
  !c.hasArray && !c.hasSpread && !c.argumentSpans.isEmpty
    && (decide (2 ≤ c.argumentSpans.length) || c.factory.isSome)

/-- The call has no array and gets none. -/
def Call.isRefused (c : Call) : Bool := !c.hasArray && !c.takesArray

/-- Why a call without an array gets none. -/
def Call.refusal (c : Call) : Unsupported :=
  if c.hasSpread then .spreadArgument
  else if c.argumentSpans.isEmpty then .noArguments
  else .soleArgumentNotFactory

/-- A refused call, as it is reported. -/
def Call.skipped (c : Call) : SkippedCall := ⟨c.kind, c.callee, c.refusal⟩

/-- The offset at which the array of a call goes: that of its last argument. -/
def Call.arrayPoint? (c : Call) : Option Nat := c.lastArgument?.map Span.start

/-- The modules in the new array of a call: none unless arrays are filled. -/
def Call.newModules (settings : Settings) (c : Call) : List String :=
  if settings.autoDependencies then c.modules settings else []

/-- The edits that put an array in front of the last argument. -/
def Call.arrayEdits (settings : Settings) (c : Call) : List Edit :=
  match c.arrayPoint? with
  | none => []
  | some p =>
    if settings.autoDependencies then
      [.addEmptyArray c.statement p, .fillDependencies c.statement p (c.modules settings)]
    else [.addEmptyArray c.statement p]

theorem Call.arrayPoint?_eq_none_iff (c : Call) :
    c.arrayPoint? = none ↔ c.argumentSpans = [] := by
  unfold Call.arrayPoint? Call.lastArgument?
  rw [Option.map_eq_none_iff, List.getLast?_eq_none_iff]

/-- A call takes an array if it has none, spreads nothing, and has arguments that say
where the array goes. -/
theorem Call.takesArray_iff (c : Call) :
    c.takesArray = true ↔ c.hasArray = false ∧ c.hasSpread = false ∧ c.argumentSpans ≠ []
      ∧ ¬ (c.argumentSpans.length = 1 ∧ c.factory.isNone = true) := by
  have hlen : c.argumentSpans ≠ [] → (2 ≤ c.argumentSpans.length ↔ c.argumentSpans.length ≠ 1) := by
    intro h
    have := List.length_pos_iff.mpr h
    omega
  unfold Call.takesArray
  by_cases h : c.argumentSpans = []
  · simp [h]
  · cases hf : c.factory <;> simp [h, hlen h, and_assoc]

/-- A call that takes an array has a last argument. -/
theorem Call.exists_arrayPoint? {c : Call} (h : c.takesArray = true) :
    ∃ p, c.arrayPoint? = some p := by
  rw [Call.takesArray_iff] at h
  rw [← Option.isSome_iff_exists, Option.isSome_iff_ne_none]
  intro hnone
  exact h.2.2.1 (c.arrayPoint?_eq_none_iff.mp hnone)

/-- Each call without an array belongs to one of the other two groups. -/
theorem Call.edits_eq (settings : Settings) {c : Call} (h : c.hasArray = false) :
    c.edits settings
      = if c.takesArray then .ok (c.arrayEdits settings) else .error c.refusal := by
  have hnot : (c.hasSpread = true ∨ c.argumentSpans = []
      ∨ (c.argumentSpans.length = 1 ∧ c.factory.isNone = true)) → ¬ c.takesArray = true := by
    intro hor ht
    obtain ⟨-, hspread, hne, hsole⟩ := c.takesArray_iff.mp ht
    rcases hor with h | h | h
    · rw [hspread] at h
      cases h
    · exact hne h
    · exact hsole h
  -- Each guard that stops the call denies one part of `takesArray`.
  unfold Call.edits
  rw [if_neg (by simp [h])]
  by_cases hspread : c.hasSpread = true
  · rw [if_pos hspread, if_neg (hnot (Or.inl hspread))]
    unfold Call.refusal
    rw [if_pos hspread]
  · rw [if_neg hspread]
    cases hlast : c.lastArgument? with
    | none =>
        have hnil : c.argumentSpans = [] := List.getLast?_eq_none_iff.mp hlast
        rw [if_neg (hnot (Or.inr (Or.inl hnil)))]
        unfold Call.refusal
        rw [if_neg hspread, hnil]
        rfl
    | some last =>
        have hne : c.argumentSpans ≠ [] := by
          intro hnil
          rw [Call.lastArgument?, hnil] at hlast
          cases hlast
        by_cases hsole : c.argumentSpans.length = 1 ∧ c.factory.isNone = true
        · rw [if_neg (hnot (Or.inr (Or.inr hsole)))]
          unfold Call.refusal
          rw [if_neg hspread, if_neg (by simpa using hne)]
          exact if_pos hsole
        · rw [if_pos (c.takesArray_iff.mpr ⟨h, by simpa using hspread, hne, hsole⟩)]
          unfold Call.arrayEdits Call.arrayPoint?
          rw [hlast]
          exact if_neg hsole

/-! ## §2. The batch of an injection. -/

/-- The calls that an injection gives an array. -/
def patchedCalls (calls : List Call) : List Call := calls.filter Call.takesArray

/-- The edits of all calls together. -/
def batch (settings : Settings) (calls : List Call) : List Edit :=
  (patchedCalls calls).flatMap fun c => c.arrayEdits settings

/-- The patches of a source are those of the calls that take an array. -/
theorem patches_openCalls (settings : Settings) (calls : List Call) :
    patches settings (openCalls calls)
      = (patchedCalls calls).map fun c => c.arrayEdits settings := by
  induction calls with
  | nil => rfl
  | cons c cs ih =>
      unfold patches openCalls patchedCalls at ih ⊢
      cases harray : c.hasArray with
      | true =>
          have hnot : ¬ c.takesArray = true := by simp [Call.takesArray, harray]
          rw [List.filter_cons_of_neg (by simp [harray]), List.filter_cons_of_neg hnot, ih]
      | false =>
          rw [List.filter_cons_of_pos (by simp [harray]), List.filterMap_cons,
              Call.edits_eq settings harray]
          by_cases ht : c.takesArray = true
          · rw [if_pos ht, List.filter_cons_of_pos ht, List.map_cons, ← ih]
            rfl
          · rw [if_neg ht, List.filter_cons_of_neg ht, ← ih]
            rfl

/-- All edits together make up the batch. -/
theorem flatten_patches (settings : Settings) (calls : List Call) :
    (patches settings (openCalls calls)).flatten = batch settings calls := by
  rw [patches_openCalls]
  rfl

/-- The calls without an array that take none are reported as skipped. -/
theorem skippedCalls_openCalls (settings : Settings) (calls : List Call) :
    skippedCalls settings (openCalls calls) = (calls.filter Call.isRefused).map Call.skipped := by
  induction calls with
  | nil => rfl
  | cons c cs ih =>
      unfold skippedCalls openCalls at ih ⊢
      cases harray : c.hasArray with
      | true =>
          have hnot : ¬ c.isRefused = true := by simp [Call.isRefused, harray]
          rw [List.filter_cons_of_neg (by simp [harray]), List.filter_cons_of_neg hnot, ih]
      | false =>
          rw [List.filter_cons_of_pos (by simp [harray]), List.filterMap_cons,
              Call.edits_eq settings harray]
          by_cases ht : c.takesArray = true
          · rw [if_pos ht, List.filter_cons_of_neg (by simp [Call.isRefused, ht]), ← ih]
          · rw [if_neg ht, List.filter_cons_of_pos (by simp [Call.isRefused, harray, ht]),
                List.map_cons, ← ih]
            rfl

/-- An injection applies its batch, and counts and reports by the groups. -/
theorem patchCalls_eq (text : String) (settings : Settings) (calls : List Call) :
    patchCalls text settings calls
      = (execute text (batch settings calls)).map fun source =>
          ⟨source, (patchedCalls calls).length, (calls.filter Call.isRefused).map Call.skipped⟩ := by
  unfold patchCalls
  show (execute text (patches settings (openCalls calls)).flatten >>= fun source =>
      pure (⟨source, (patches settings (openCalls calls)).length,
        skippedCalls settings (openCalls calls)⟩ : Outcome)) = _
  rw [flatten_patches, patches_openCalls, skippedCalls_openCalls, List.length_map]
  cases execute text (batch settings calls) <;> rfl

/-! ## §3. When the batch fits. -/

theorem mem_patchedCalls {calls : List Call} {c : Call} :
    c ∈ patchedCalls calls ↔ c ∈ calls ∧ c.takesArray = true := List.mem_filter

theorem mem_batch {settings : Settings} {calls : List Call} {e : Edit} :
    e ∈ batch settings calls ↔ ∃ c ∈ patchedCalls calls, e ∈ c.arrayEdits settings :=
  List.mem_flatMap

theorem addEmptyArray_mem_arrayEdits {settings : Settings} {c : Call} {p : Nat}
    (h : c.arrayPoint? = some p) : .addEmptyArray c.statement p ∈ c.arrayEdits settings := by
  unfold Call.arrayEdits
  rw [h]
  cases settings.autoDependencies <;> simp

/-- The edits of a call work in its statement, in front of its last argument. -/
theorem place_of_mem_arrayEdits {settings : Settings} {c : Call} {e : Edit}
    (h : e ∈ c.arrayEdits settings) : c.arrayPoint? = some e.point ∧ e.scope = c.statement := by
  unfold Call.arrayEdits at h
  cases hp : c.arrayPoint? with
  | none => simp [hp] at h
  | some p =>
      cases hauto : settings.autoDependencies <;> simp [hp, hauto] at h
      · subst h
        exact ⟨rfl, rfl⟩
      · rcases h with rfl | rfl <;> exact ⟨rfl, rfl⟩

/-- The two edits of a call have the same point but are of two kinds. -/
theorem arrayEdits_pairwise (settings : Settings) (c : Call) :
    (c.arrayEdits settings).Pairwise fun a b => ¬ (a.point = b.point ∧ a.kind = b.kind) := by
  unfold Call.arrayEdits
  cases c.arrayPoint? with
  | none => exact List.Pairwise.nil
  | some p => cases settings.autoDependencies <;> simp [Edit.kind]

/-- The batch inserts an array where a patched call has its last argument. -/
theorem insertsAt_batch_iff (settings : Settings) (calls : List Call) (n : Nat) :
    InsertsAt (batch settings calls) n ↔ ∃ c ∈ patchedCalls calls, c.arrayPoint? = some n := by
  constructor
  · rintro ⟨e, he, -, rfl⟩
    obtain ⟨c, hc, hec⟩ := mem_batch.mp he
    exact ⟨c, hc, (place_of_mem_arrayEdits hec).1⟩
  · rintro ⟨c, hc, hp⟩
    exact ⟨_, mem_batch.mpr ⟨c, hc, addEmptyArray_mem_arrayEdits hp⟩, rfl, rfl⟩

/-- **Which batches fit.**  The edits of one call always work together, so what
remains is a matter of the calls: their last arguments begin inside their
statements, on boundaries of the text, and all at different offsets. -/
theorem fits_batch_iff (text : String) (settings : Settings) (calls : List Call) :
    Fits text (batch settings calls)
      ↔ (∀ c ∈ patchedCalls calls, ∀ p, c.arrayPoint? = some p →
          (c.statement.start ≤ p ∧ p ≤ c.statement.stop)
            ∧ (String.Pos.Raw.mk p).IsValid text)
        ∧ (patchedCalls calls).Pairwise fun c d => c.arrayPoint? ≠ d.arrayPoint? := by
  -- Only the new arrays say something about a call: its modules stand where its array does.
  constructor
  · intro h
    refine ⟨fun c hc p hp => ?_, ?_⟩
    · have hmem : Edit.addEmptyArray c.statement p ∈ batch settings calls :=
        mem_batch.mpr ⟨c, hc, addEmptyArray_mem_arrayEdits hp⟩
      exact ⟨h.inside _ hmem, h.onBoundary _ hmem⟩
    · refine (List.pairwise_flatMap.mp h.distinct).2.imp_of_mem ?_
      intro c d hc hd hdiff heq
      obtain ⟨p, hp⟩ := Call.exists_arrayPoint? (mem_patchedCalls.mp hc).2
      rw [hp] at heq
      exact hdiff _ (addEmptyArray_mem_arrayEdits hp) _
        (addEmptyArray_mem_arrayEdits heq.symm) ⟨rfl, rfl⟩
  · rintro ⟨hplace, hdiff⟩
    refine ⟨fun e he => ?_, ?_, fun e he => ?_, fun e he _ => Or.inl ?_⟩
    · obtain ⟨c, hc, hec⟩ := mem_batch.mp he
      obtain ⟨hp, hs⟩ := place_of_mem_arrayEdits hec
      rw [hs]
      exact (hplace c hc _ hp).1
    · -- Two edits with the same point are edits of the same call, and those are of two kinds.
      refine List.pairwise_flatMap.mpr ⟨fun c _ => arrayEdits_pairwise settings c, hdiff.imp ?_⟩
      intro c d hne a ha b hb hk
      apply hne
      rw [(place_of_mem_arrayEdits ha).1, (place_of_mem_arrayEdits hb).1, hk.1]
    · obtain ⟨c, hc, hec⟩ := mem_batch.mp he
      exact (hplace c hc _ (place_of_mem_arrayEdits hec).1).2
    · obtain ⟨c, hc, hec⟩ := mem_batch.mp he
      exact (insertsAt_batch_iff settings calls e.point).mpr
        ⟨c, hc, (place_of_mem_arrayEdits hec).1⟩

/-! ## §4. What the batch writes. -/

/-- The arrays that the calls put in front of the character at an offset. -/
def arraysAt (settings : Settings) (calls : List Call) (n : Nat) : List Char :=
  (patchedCalls calls).flatMap fun c =>
    if c.arrayPoint? = some n then arrayText (c.newModules settings) else []

/-- The modules of a call are filled in at its own array. -/
theorem modulesAt_arrayEdits (settings : Settings) (c : Call) (n : Nat) :
    modulesAt (c.arrayEdits settings) n
      = if c.arrayPoint? = some n then c.newModules settings else [] := by
  unfold Call.arrayEdits Call.newModules
  cases hp : c.arrayPoint? with
  | none => rfl
  | some p =>
      by_cases hn : p = n <;> cases settings.autoDependencies <;>
        simp [modulesAt, Edit.kind, Edit.point, Edit.modules, hn]

/-- At a point, the modules of all calls there are filled in. -/
theorem modulesAt_batch (settings : Settings) (calls : List Call) (n : Nat) :
    modulesAt (batch settings calls) n
      = (patchedCalls calls).flatMap fun c =>
          if c.arrayPoint? = some n then c.newModules settings else [] := by
  have hflat : modulesAt (batch settings calls) n
      = (patchedCalls calls).flatMap fun c => modulesAt (c.arrayEdits settings) n := by
    unfold modulesAt batch
    rw [List.filter_flatMap, List.flatMap_assoc]
  rw [hflat]
  simp only [modulesAt_arrayEdits]

/-- Only one of the calls has its last argument at a given offset. -/
theorem flatMap_eq_of_arrayPoint? {α : Type} {cs : List Call} {c : Call} {n : Nat}
    (hdiff : cs.Pairwise fun c d => c.arrayPoint? ≠ d.arrayPoint?) (hc : c ∈ cs)
    (hp : c.arrayPoint? = some n) (f : Call → List α) :
    (cs.flatMap fun d => if d.arrayPoint? = some n then f d else []) = f c := by
  -- Split the calls at `c`: on either side no call has its last argument at `n`.
  obtain ⟨l, r, rfl⟩ := List.append_of_mem hc
  obtain ⟨-, hr, hl⟩ := List.pairwise_append.mp hdiff
  have hleft : (l.flatMap fun d => if d.arrayPoint? = some n then f d else []) = [] := by
    rw [List.flatMap_eq_nil_iff]
    intro d hd
    exact if_neg (fun h => hl d hd c List.mem_cons_self (h.trans hp.symm))
  have hright : (r.flatMap fun d => if d.arrayPoint? = some n then f d else []) = [] := by
    rw [List.flatMap_eq_nil_iff]
    intro d hd
    exact if_neg (fun h => (List.pairwise_cons.mp hr).1 d hd (hp.trans h.symm))
  rw [List.flatMap_append, List.flatMap_cons, hleft, hright, if_pos hp, List.nil_append,
      List.append_nil]

/-- The batch of an injection writes arrays only, and one for each call. -/
theorem written_batch {settings : Settings} {calls : List Call}
    (hdiff : (patchedCalls calls).Pairwise fun c d => c.arrayPoint? ≠ d.arrayPoint?) (n : Nat) :
    newArray (batch settings calls) n = arraysAt settings calls n
      ∧ newItems (batch settings calls) n = [] := by
  unfold newArray newItems arraysAt
  -- Both sides look at the one call with its last argument at `n`, if there is one.
  by_cases h : InsertsAt (batch settings calls) n
  · obtain ⟨c, hc, hp⟩ := (insertsAt_batch_iff settings calls n).mp h
    rw [if_pos h, if_pos h, modulesAt_batch, flatMap_eq_of_arrayPoint? hdiff hc hp,
        flatMap_eq_of_arrayPoint? hdiff hc hp]
    exact ⟨rfl, rfl⟩
  · have hnone : ∀ c ∈ patchedCalls calls, ¬ c.arrayPoint? = some n :=
      fun c hc hp => h ((insertsAt_batch_iff settings calls n).mpr ⟨c, hc, hp⟩)
    have hmod : modulesAt (batch settings calls) n = [] := by
      rw [modulesAt_batch, List.flatMap_eq_nil_iff]
      exact fun c hc => if_neg (hnone c hc)
    rw [if_neg h, if_neg h, hmod]
    refine ⟨(List.flatMap_eq_nil_iff.mpr ?_).symm, rfl⟩
    exact fun c hc => if_neg (hnone c hc)

/-! ## §5. Injections. -/

/-- The patches of calls succeed exactly if their batch fits, and then weave the arrays
into the text. -/
theorem patchCalls_eq_ok_iff (text : String) (settings : Settings) (calls : List Call)
    (outcome : Outcome) :
    patchCalls text settings calls = .ok outcome
      ↔ Fits text (batch settings calls)
        ∧ outcome.source
            = String.ofList (weave (arraysAt settings calls) (fun _ => []) 0 text.toList)
        ∧ outcome.patchedCalls = (patchedCalls calls).length
        ∧ outcome.skipped = (calls.filter Call.isRefused).map Call.skipped := by
  -- Where the batch fits, at each point at most one call writes.
  have hwoven : Fits text (batch settings calls) →
      woven text (batch settings calls)
        = String.ofList (weave (arraysAt settings calls) (fun _ => []) 0 text.toList) := by
    intro hf
    have hdiff := ((fits_batch_iff text settings calls).mp hf).2
    unfold woven wovenChars
    rw [Text.weave_congr text.toList 0 (fun n _ => written_batch hdiff n)]
  rw [patchCalls_eq]
  constructor
  · intro h
    cases hexec : execute text (batch settings calls) with
    | error fault =>
        rw [hexec] at h
        cases h
    | ok out =>
        obtain ⟨hf, rfl⟩ := fits_of_execute hexec
        rw [hexec] at h
        cases h
        exact ⟨hf, hwoven hf, rfl, rfl⟩
  · rintro ⟨hf, hsource, hcount, hskipped⟩
    obtain ⟨source, count, skipped⟩ := outcome
    simp only at hsource hcount hskipped
    rw [execute_of_fits hf, hsource, hcount, hskipped, ← hwoven hf]
    rfl

/-- Once the source is read, an injection fails only if its batch does. -/
theorem inject_of_read {text : String} {source : Source}
    (h : Source.read text.toList = .ok source) (settings : Settings) :
    inject text settings = (patchCalls text settings source.calls).mapError .unpatchable := by
  unfold inject
  rw [h]
  dsimp only
  cases patchCalls text settings source.calls with
  | error fault => rfl
  | ok outcome => rfl

/-- An injection succeeds exactly if the source can be read and its calls be patched. -/
theorem inject_eq_ok_iff_patchCalls (text : String) (settings : Settings) (outcome : Outcome) :
    inject text settings = .ok outcome
      ↔ ∃ source, Source.read text.toList = .ok source
        ∧ patchCalls text settings source.calls = .ok outcome := by
  cases hread : Source.read text.toList with
  | error fault =>
      unfold inject
      rw [hread]
      simp
  | ok source =>
      rw [inject_of_read hread]
      have hok : (patchCalls text settings source.calls).mapError InjectionFault.unpatchable
            = .ok outcome
          ↔ patchCalls text settings source.calls = .ok outcome := by
        cases patchCalls text settings source.calls with
        | error fault => exact ⟨fun h => (by cases h), fun h => (by cases h)⟩
        | ok patched => exact ⟨fun h => (by cases h; rfl), fun h => (by cases h; rfl)⟩
      rw [hok]
      constructor
      · intro hpatch
        exact ⟨source, rfl, hpatch⟩
      · rintro ⟨source', hsource, hpatch⟩
        cases hsource
        exact hpatch

/-- Of a source that can be read, the patches decide. -/
theorem inject_ok_iff_of_read {text : String} {source : Source}
    (hread : Source.read text.toList = .ok source) (settings : Settings) (outcome : Outcome) :
    inject text settings = .ok outcome
      ↔ patchCalls text settings source.calls = .ok outcome := by
  rw [inject_eq_ok_iff_patchCalls, hread]
  constructor
  · rintro ⟨s, hs, ho⟩
    cases hs
    exact ho
  · intro ho
    exact ⟨source, rfl, ho⟩

end AmdKit.Amd
