/-
  AmdKit.Proofs.OptionRuns
  ────────────────────────────────
  **RUNS ON THE OPTION STORES.**

  A caller takes one step after the other, and goes on when a step is refused.
  `OptionStep.run_eq` says once what a step does to any stores:

      the global store is locked and the step writes to it  →  refused, nothing changed
      anything else                                         →  `step.effect`

  From it follows what a lock means for a whole run, through any number of
  requests:

      locked after the run  ↔  locked at its start, or by one of its steps
      locked                →  locked and with the same global options ever after
-/
import AmdKit.Options

namespace AmdKit

open Json (Members)

/-! ## §1. One step. -/

namespace OptionStores

/-- The stores with new values in one of them. -/
def changed (s : OptionStores) (scope : OptionScope) (f : Members → Members) : OptionStores :=
  match scope with
  | .page => { s with page := f s.page }
  | .global => { s with global := f s.global }

/-- Every write goes through this guard. -/
theorem change_eq (scope : OptionScope) (f : Members → Members) (s : OptionStores) :
    change scope f s
      = if s.locked = true ∧ scope = .global then .error .locked s
        else .ok () (s.changed scope f) := by
  obtain ⟨global, page, locked⟩ := s
  cases scope with
  | page =>
      rw [if_neg (fun h => by cases h.2)]
      rfl
  | global => cases locked <;> rfl

/-- A change of a store does not touch the lock. -/
theorem locked_changed (s : OptionStores) (scope : OptionScope) (f : Members → Members) :
    (s.changed scope f).locked = s.locked := by
  cases scope <;> rfl

/-- Nor the global store, unless that is the one. -/
theorem global_changed (s : OptionStores) {scope : OptionScope} (h : scope ≠ .global)
    (f : Members → Members) : (s.changed scope f).global = s.global := by
  cases scope with
  | page => rfl
  | global => exact absurd rfl h

end OptionStores

namespace OptionStep

open OptionStores (withMembers change_eq locked_changed global_changed)

/-- The step writes to the global store. -/
def writesGlobal : OptionStep → Bool
  | .add _ _ scope | .addObject _ _ scope _ | .clear scope => scope = .global
  | .clearAll => true
  | .endRequest | .lock => false

/-- The stores after a step that is not refused. -/
def effect (step : OptionStep) (s : OptionStores) : OptionStores :=
  match step with
  | .add key value scope => s.changed scope fun store => store.set key value
  | .addObject key members scope clearExisting =>
    s.changed scope fun store => withMembers store key members clearExisting
  | .clear scope => s.changed scope fun _ => []
  | .clearAll => { s with global := [], page := [] }
  | .endRequest => { s with page := [] }
  | .lock => { s with page := [], locked := true }

/-- The page store that a step ends. -/
def ended (step : OptionStep) (s : OptionStores) : Option Members :=
  match step with
  | .endRequest | .lock => some s.page
  | _ => none

theorem run_of_change {scope : OptionScope} {f : Members → Members} {s : OptionStores} :
    (do OptionStores.change scope f; return none : StoreAction (Option Members)) s
      = if s.locked = true ∧ scope = .global then .error .locked s
        else .ok none (s.changed scope f) := by
  show EStateM.bind (OptionStores.change scope f) (fun _ => EStateM.pure none) s = _
  unfold EStateM.bind
  rw [change_eq]
  by_cases h : s.locked = true ∧ scope = .global
  · rw [if_pos h, if_pos h]
  · rw [if_neg h, if_neg h]
    rfl

/-- **What a step does.**  A step that writes to a locked store is refused, and
leaves both stores as they are; no other step is refused. -/
theorem run_eq (step : OptionStep) (s : OptionStores) :
    step.run s
      = if s.locked = true ∧ step.writesGlobal = true then .error .locked s
        else .ok (step.ended s) (step.effect s) := by
  cases step with
  | add key value scope =>
      simp only [writesGlobal, decide_eq_true_eq]
      exact run_of_change
  | addObject key members scope clearExisting =>
      simp only [writesGlobal, decide_eq_true_eq]
      exact run_of_change
  | clear scope =>
      simp only [writesGlobal, decide_eq_true_eq]
      exact run_of_change
  | clearAll =>
      -- The global store is emptied first: if that is refused, the page store has
      -- not been looked at.
      obtain ⟨global, page, locked⟩ := s
      cases locked <;> rfl
  | endRequest => rw [if_neg (by simp [writesGlobal])]; rfl
  | lock => rw [if_neg (by simp [writesGlobal])]; rfl

/-- A step is refused exactly if it writes the locked store, and then changes nothing. -/
theorem run_eq_error_iff (step : OptionStep) (s t : OptionStores) (fault : OptionFault) :
    step.run s = .error fault t
      ↔ (s.locked = true ∧ step.writesGlobal = true) ∧ fault = .locked ∧ t = s := by
  rw [run_eq]
  by_cases h : s.locked = true ∧ step.writesGlobal = true
  · rw [if_pos h]
    constructor
    · intro heq
      cases heq
      exact ⟨h, rfl, rfl⟩
    · intro heq
      rw [heq.2.1, heq.2.2]
  · rw [if_neg h]
    constructor
    · intro heq
      cases heq
    · intro heq
      exact absurd heq.1 h

/-- A step that is not refused has its effect. -/
theorem after_eq (step : OptionStep) (s : OptionStores) :
    step.after s = if s.locked = true ∧ step.writesGlobal = true then s else step.effect s := by
  unfold after
  rw [run_eq]
  by_cases h : s.locked = true ∧ step.writesGlobal = true
  · rw [if_pos h, if_pos h]
  · rw [if_neg h, if_neg h]

/-- Only a lock locks, and nothing unlocks. -/
theorem locked_after (step : OptionStep) (s : OptionStores) :
    (step.after s).locked = true ↔ s.locked = true ∨ step = .lock := by
  rw [after_eq]
  by_cases h : s.locked = true ∧ step.writesGlobal = true
  · rw [if_pos h]
    exact ⟨Or.inl, fun _ => h.1⟩
  · rw [if_neg h]
    cases step <;> simp [effect, locked_changed]

/-- A locked global store keeps its options. -/
theorem global_after {s : OptionStores} (hlocked : s.locked = true) (step : OptionStep) :
    (step.after s).global = s.global := by
  rw [after_eq]
  by_cases hwrites : step.writesGlobal = true
  · rw [if_pos ⟨hlocked, hwrites⟩]
  · rw [if_neg (fun h => hwrites h.2)]
    -- What is left are changes of the page store and the ends of requests.
    cases step with
    | add key value scope => exact global_changed s (by simpa [writesGlobal] using hwrites) _
    | addObject key members scope clearExisting =>
        exact global_changed s (by simpa [writesGlobal] using hwrites) _
    | clear scope => exact global_changed s (by simpa [writesGlobal] using hwrites) _
    | clearAll => exact absurd rfl hwrites
    | endRequest => rfl
    | lock => rfl

end OptionStep

/-! ## §2. Runs. -/

namespace OptionStores

theorem afterAll_append (s : OptionStores) (before after : List OptionStep) :
    s.afterAll (before ++ after) = (s.afterAll before).afterAll after := by
  unfold afterAll
  rw [List.foldl_append]

/-- The store is locked once a step has locked it, and stays so. -/
theorem locked_afterAll (s : OptionStores) (steps : List OptionStep) :
    (s.afterAll steps).locked = true ↔ s.locked = true ∨ OptionStep.lock ∈ steps := by
  induction steps generalizing s with
  | nil => simp [afterAll]
  | cons step steps ih =>
      show ((step.after s).afterAll steps).locked = true ↔ _
      rw [ih, step.locked_after, List.mem_cons, or_assoc, eq_comm (a := step)]

/-- No run changes a locked store, by induction on its steps. -/
theorem global_afterAll {s : OptionStores} (hlocked : s.locked = true)
    (steps : List OptionStep) : (s.afterAll steps).global = s.global := by
  induction steps generalizing s with
  | nil => rfl
  | cons step steps ih =>
      have hstep : (step.after s).locked = true := (step.locked_after s).mpr (Or.inl hlocked)
      show ((step.after s).afterAll steps).global = _
      rw [ih hstep, OptionStep.global_after hlocked]

/-- **Locks over whole runs.**  At every point of every run, a step is refused if
and only if the global store is locked and the step writes to it, and then
both stores stay exactly as they were.  The store is locked from its first lock on,
if it was not from the start; it stays locked, and its options never change
again, neither their values nor their order. -/
theorem lock_afterAll (start : OptionStores) (before : List OptionStep) :
    (∀ (step : OptionStep) fault t, step.run (start.afterAll before) = .error fault t
        ↔ ((start.afterAll before).locked = true ∧ step.writesGlobal = true)
          ∧ fault = .locked ∧ t = start.afterAll before)
      ∧ ((start.afterAll before).locked = true ↔ start.locked = true ∨ OptionStep.lock ∈ before)
      ∧ ((start.afterAll before).locked = true → ∀ after,
          (start.afterAll (before ++ after)).locked = true
            ∧ (start.afterAll (before ++ after)).global = (start.afterAll before).global) := by
  refine ⟨?_, locked_afterAll start before, ?_⟩
  · intro step fault t
    exact step.run_eq_error_iff (start.afterAll before) t fault
  · intro hlocked after
    rw [afterAll_append]
    exact ⟨(locked_afterAll _ after).mpr (Or.inl hlocked), global_afterAll hlocked after⟩

/-- A request that finds the store locked is refused to empty both stores, and
keeps its own option; the global one outlives it. -/
theorem lock_afterAll_clearAll :
    OptionStep.clearAll.run
        (afterAll {} [.add "a" .null .global, .lock, .add "b" (.bool true) .page])
      = .error .locked { global := [("a", .null)], page := [("b", .bool true)], locked := true }
    ∧ (afterAll {} [.add "a" .null .global, .lock, .add "b" (.bool true) .page]).locked = true
    ∧ (afterAll {} ([.add "a" .null .global, .lock, .add "b" (.bool true) .page]
        ++ [.clearAll, .endRequest, .add "a" (.bool true) .global])).global = [("a", .null)] := by
  obtain ⟨hrefused, -, hkept⟩ :=
    lock_afterAll {} [.add "a" .null .global, .lock, .add "b" (.bool true) .page]
  refine ⟨(hrefused .clearAll .locked _).mpr ⟨⟨rfl, rfl⟩, rfl, rfl⟩, rfl, ?_⟩
  exact (hkept rfl [.clearAll, .endRequest, .add "a" (.bool true) .global]).2

end OptionStores

end AmdKit
