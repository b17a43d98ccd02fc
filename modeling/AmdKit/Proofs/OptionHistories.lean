/-
  AmdKit.Proofs.OptionHistories
  ────────────────────────────────
  **AN OPTION IS ITS OWN HISTORY.**

  Of all the steps of a run only some matter to an option: those that were not refused and
  either name its key and its store, or empty that store.  The page store is also emptied
  by every step that ends a request.  What stands under the option at the end follows from
  these steps alone, each applied to what stood there before:

      (s.afterAll steps).get? key scope
        =  (s.history key scope steps).foldl valueAfter (s.get? key scope)

  A set option is replaced, and so is an object option, unless an object is stored and is
  not to be cleared: then the members that are given are written into it.

  What one step does to one option is said once, in `OptionStep.get?_after`.  From it also
  follows that steps on different options can change places anywhere in a run.
-/
import AmdKit.Proofs.KeyedLookups
import AmdKit.Proofs.OptionRuns

namespace AmdKit

open Json (Members)

/-! ## §1. Members. -/

namespace Json.Members

theorem setAll_eq_upsertAll (members new : Members) :
    members.setAll new = Keyed.upsertAll Prod.fst (fun _ new => new) new members := rfl

/-- **Members that are set replace those with their names, and leave the others.** -/
theorem get?_setAll (members new : Members) (wanted : String) :
    (members.setAll new).get? wanted = (get? new.reverse wanted).or (members.get? wanted) := by
  have hlast : (new.filter fun m => m.1 = wanted).getLast?
      = Keyed.find? Prod.fst wanted new.reverse := List.getLast?_filter
  unfold get?
  rw [setAll_eq_upsertAll, Keyed.find?_replaceAll, hlast, Option.map_or]

end Json.Members

/-! ## §2. What one step does to one option. -/

namespace OptionStep

/-- The step names the option, or empties the store that it is in. -/
def concerns (key : String) (scope : OptionScope) : OptionStep → Bool
  | .add name _ store | .addObject name _ store _ => name = key ∧ store = scope
  | .clear store => store = scope
  | .clearAll => true
  | .endRequest | .lock => scope = .page

/-- The members of an object option after some were given: they are written into an object
that is stored, unless it is to be cleared, and replace anything else. -/
def membersAfter (members : Members) (clearExisting : Bool) : Option Json → Members
  | some (.object existing) => if clearExisting then members else Members.setAll existing members
  | _ => members

/-- What stands under an option after a step that concerns it, and was not refused. -/
def valueAfter (step : OptionStep) (old : Option Json) : Option Json :=
  match step with
  | .add _ value _ => some value
  | .addObject _ members _ clearExisting => some (.object (membersAfter members clearExisting old))
  | .clear _ | .clearAll | .endRequest | .lock => none

/-- The step is refused. -/
def isRefused (step : OptionStep) (s : OptionStores) : Bool :=
  match step.run s with
  | .ok _ _ => false
  | .error _ _ => true

/-- Only a step that writes the locked store is refused. -/
theorem isRefused_eq (step : OptionStep) (s : OptionStores) :
    step.isRefused s = (s.locked && step.writesGlobal) := by
  unfold isRefused
  rw [run_eq]
  by_cases h : s.locked = true ∧ step.writesGlobal = true
  · rw [if_pos h, h.1, h.2]
    rfl
  · rw [if_neg h]
    exact (Bool.eq_false_iff.mpr fun hand => h (Bool.and_eq_true_iff.mp hand)).symm

end OptionStep

namespace OptionStores

/-- A change shows in its own store only. -/
theorem get?_changed (s : OptionStores) (store : OptionScope) (f : Members → Members)
    (key : String) (scope : OptionScope) :
    (s.changed store f).get? key scope
      = if store = scope then (f (s.values scope)).get? key else s.get? key scope := by
  cases store with
  | page => cases scope <;> rfl
  | global => cases scope <;> rfl

/-- A store in which one option was set, perhaps to a value that depends on the old one. -/
theorem get?_changed_set (s : OptionStores) (store : OptionScope) (name : String)
    (value : Option Json → Json) (key : String) (scope : OptionScope) :
    (s.changed store fun values => values.set name (value (values.get? name))).get? key scope
      = if name = key ∧ store = scope then some (value (s.get? key scope))
        else s.get? key scope := by
  rw [get?_changed, Members.get?_set]
  by_cases hstore : store = scope
  · rw [if_pos hstore]
    by_cases hname : name = key
    · rw [if_pos hname, if_pos ⟨hname, hstore⟩, hname]
      rfl
    · rw [if_neg hname, if_neg fun hboth => hname hboth.1]
      rfl
  · rw [if_neg hstore, if_neg fun hboth => hstore hboth.2]

/-- An object option is set once, whatever is stored and whatever the flag says. -/
theorem withMembers_eq (store : Members) (name : String) (members : Members)
    (clearExisting : Bool) :
    withMembers store name members clearExisting
      = store.set name
          (.object (OptionStep.membersAfter members clearExisting (store.get? name))) := by
  unfold withMembers OptionStep.membersAfter
  generalize store.get? name = old
  cases old with
  | none => rfl
  | some value =>
      cases value with
      | object existing => cases clearExisting <;> rfl
      | _ => rfl

end OptionStores

namespace OptionStep

open OptionStores (get?_changed get?_changed_set withMembers_eq)

/-- The effect of a step on an option is found from the option alone. -/
theorem get?_effect (step : OptionStep) (s : OptionStores) (key : String)
    (scope : OptionScope) :
    (step.effect s).get? key scope
      = if step.concerns key scope then step.valueAfter (s.get? key scope)
        else s.get? key scope := by
  -- The two steps that set a member are changes of one member; the others do not look at names.
  cases step with
  | add name value store =>
      show (s.changed store fun values => values.set name value).get? key scope = _
      rw [get?_changed_set s store name fun _ => value]
      simp only [concerns, valueAfter, decide_eq_true_eq]
  | addObject name members store clearExisting =>
      show (s.changed store fun values =>
        OptionStores.withMembers values name members clearExisting).get? key scope = _
      simp only [withMembers_eq]
      rw [get?_changed_set s store name fun old => .object (membersAfter members clearExisting old)]
      simp only [concerns, valueAfter, decide_eq_true_eq]
  | clear store =>
      show (s.changed store fun _ => []).get? key scope = _
      rw [get?_changed]
      by_cases hstore : store = scope
      · rw [if_pos hstore, if_pos (by simpa [concerns] using hstore)]
        rfl
      · rw [if_neg hstore, if_neg (by simpa [concerns] using hstore)]
  | clearAll => cases scope <;> rfl
  | endRequest => cases scope <;> rfl
  | lock => cases scope <;> rfl

/-- **What a step does to an option.**  A step that concerns it and is not refused decides
what stands under it; any other step leaves it alone. -/
theorem get?_after (step : OptionStep) (s : OptionStores) (key : String)
    (scope : OptionScope) :
    (step.after s).get? key scope
      = if step.isRefused s = false ∧ step.concerns key scope = true then
          step.valueAfter (s.get? key scope)
        else s.get? key scope := by
  rw [after_eq, isRefused_eq]
  by_cases h : s.locked = true ∧ step.writesGlobal = true
  · have hrefused : ¬ ((s.locked && step.writesGlobal) = false
        ∧ step.concerns key scope = true) := by
      rw [h.1, h.2]
      exact fun hcarried => Bool.noConfusion hcarried.1
    rw [if_pos h, if_neg hrefused]
  · have hcarried : (s.locked && step.writesGlobal) = false :=
      Bool.eq_false_iff.mpr fun hand => h (Bool.and_eq_true_iff.mp hand)
    rw [if_neg h, get?_effect, hcarried]
    simp only [true_and]

/-- A step that does not concern an option leaves it as it is. -/
theorem get?_after_of_not_concerns {step : OptionStep} {key : String} {scope : OptionScope}
    (h : step.concerns key scope = false) (s : OptionStores) :
    (step.after s).get? key scope = s.get? key scope := by
  rw [get?_after, h]
  exact if_neg fun hboth => Bool.noConfusion hboth.2

end OptionStep

/-! ## §3. Histories. -/

namespace OptionStores

open OptionStep (get?_after get?_after_of_not_concerns locked_after isRefused_eq)

/-- The steps of a run that are not refused, in order. -/
def carriedOut (s : OptionStores) : List OptionStep → List OptionStep
  | [] => []
  | step :: steps =>
    if step.isRefused s then carriedOut (step.after s) steps
    else step :: carriedOut (step.after s) steps

/-- The steps of a run that decide what stands under an option. -/
def history (s : OptionStores) (key : String) (scope : OptionScope) (steps : List OptionStep) :
    List OptionStep :=
  (s.carriedOut steps).filter (OptionStep.concerns key scope)

variable {key : String} {scope : OptionScope}

/-- A step belongs to a history if it is carried out and concerns the option. -/
theorem history_cons (s : OptionStores) (step : OptionStep) (steps : List OptionStep) :
    s.history key scope (step :: steps)
      = if step.isRefused s = false ∧ step.concerns key scope = true then
          step :: (step.after s).history key scope steps
        else (step.after s).history key scope steps := by
  unfold history
  rw [carriedOut]
  cases step.isRefused s with
  | true => simp
  | false =>
      rw [if_neg Bool.false_ne_true]
      by_cases hconcerns : step.concerns key scope = true
      · rw [List.filter_cons_of_pos hconcerns, if_pos ⟨rfl, hconcerns⟩]
      · rw [List.filter_cons_of_neg hconcerns, if_neg fun hboth => hconcerns hboth.2]

/-- **An option holds what its history makes of it.** -/
theorem get?_afterAll_eq_foldl (s : OptionStores) (steps : List OptionStep) :
    (s.afterAll steps).get? key scope
      = (s.history key scope steps).foldl (fun old step => step.valueAfter old)
          (s.get? key scope) := by
  induction steps generalizing s with
  | nil => rfl
  | cons step steps ih =>
      show ((step.after s).afterAll steps).get? key scope = _
      rw [ih, get?_after, history_cons]
      by_cases h : step.isRefused s = false ∧ step.concerns key scope = true
      · rw [if_pos h, if_pos h, List.foldl_cons]
      · rw [if_neg h, if_neg h]

/-- The stores of a replay: they agree on one option with those of the run, and refuse no
step that the run carries out. -/
structure Replays (key : String) (scope : OptionScope) (s t : OptionStores) : Prop where
  /-- The replay is locked only if the run is. -/
  locked : t.locked = true → s.locked = true
  /-- The option holds the same. -/
  get?_eq : t.get? key scope = s.get? key scope

/-- The run takes a step that the replay leaves out. -/
theorem Replays.skip {s t : OptionStores} (h : Replays key scope s t) {step : OptionStep}
    (hstep : ¬ (step.isRefused s = false ∧ step.concerns key scope = true)) :
    Replays key scope (step.after s) t where
  locked ht := (locked_after step s).mpr (Or.inl (h.locked ht))
  get?_eq := by rw [h.get?_eq, get?_after, if_neg hstep]

/-- Both take a step that the run carries out. -/
theorem Replays.next {s t : OptionStores} (h : Replays key scope s t) {step : OptionStep}
    (hstep : step.isRefused s = false) : Replays key scope (step.after s) (step.after t) := by
  have hreplay : step.isRefused t = false := by
    rw [isRefused_eq] at hstep ⊢
    cases ht : t.locked with
    | false => rfl
    | true =>
        rw [h.locked ht] at hstep
        exact hstep
  constructor
  · intro ht
    rw [locked_after] at ht ⊢
    exact ht.imp_left h.locked
  · rw [get?_after, get?_after, hstep, hreplay, h.get?_eq]

/-- A history replays a run, by induction on its steps. -/
theorem Replays.afterAll {s t : OptionStores} (h : Replays key scope s t)
    (steps : List OptionStep) :
    Replays key scope (s.afterAll steps) (t.afterAll (s.history key scope steps)) := by
  induction steps generalizing s t with
  | nil => exact h
  | cons step steps ih =>
      show Replays key scope ((step.after s).afterAll steps) _
      rw [history_cons]
      by_cases hstep : step.isRefused s = false ∧ step.concerns key scope = true
      · rw [if_pos hstep]
        exact ih (h.next hstep.1)
      · rw [if_neg hstep]
        exact ih (h.skip hstep)

theorem get?_afterAll_of_not_concerns {steps : List OptionStep}
    (hsteps : ∀ step ∈ steps, step.concerns key scope = false) (s : OptionStores) :
    (s.afterAll steps).get? key scope = s.get? key scope := by
  induction steps generalizing s with
  | nil => rfl
  | cons step steps ih =>
      rw [List.forall_mem_cons] at hsteps
      show ((step.after s).afterAll steps).get? key scope = _
      rw [ih hsteps.2, get?_after_of_not_concerns hsteps.1]

end OptionStores

/-! ## §4. Steps that change places. -/

/-- The step works on the option: it concerns it, or locks.  A lock works on both stores,
on the one whose request it ends and on the one that it closes to later writes. -/
def OptionStep.WorksOn (key : String) (scope : OptionScope) (step : OptionStep) : Prop :=
  step.concerns key scope = true ∨ step = .lock

/-- There is no option that both steps work on. -/
def OptionStep.Apart (a b : OptionStep) : Prop :=
  ∀ key scope, ¬ (a.WorksOn key scope ∧ b.WorksOn key scope)

namespace OptionStores

open OptionStep (get?_after get?_after_of_not_concerns locked_after isRefused_eq)

/-- Nobody can tell the stores apart, by an option or by a refusal, now or later. -/
structure SameOptions (s t : OptionStores) : Prop where
  /-- Both are locked, or none is. -/
  locked : t.locked = s.locked
  /-- All options hold the same. -/
  get?_eq : ∀ key scope, t.get? key scope = s.get? key scope

theorem SameOptions.after {s t : OptionStores} (h : s.SameOptions t) (step : OptionStep) :
    (step.after s).SameOptions (step.after t) where
  locked := by
    rw [Bool.eq_iff_iff, locked_after, locked_after, h.locked]
  get?_eq key scope := by
    rw [get?_after, get?_after, isRefused_eq, isRefused_eq, h.locked, h.get?_eq]

/-- Stores that agree go on to agree. -/
theorem SameOptions.afterAll {s t : OptionStores} (h : s.SameOptions t)
    (steps : List OptionStep) : (s.afterAll steps).SameOptions (t.afterAll steps) := by
  induction steps generalizing s t with
  | nil => exact h
  | cons step steps ih => exact ih (h.after step)

/-- What `a` does to an option that `b` does not work on, it does before `b` as behind it. -/
theorem get?_after_after {a b : OptionStep} {key : String} {scope : OptionScope}
    (hb : ¬ b.WorksOn key scope) (s : OptionStores) :
    (a.after (b.after s)).get? key scope = (b.after (a.after s)).get? key scope := by
  have hconcerns : b.concerns key scope = false := by
    rw [← Bool.not_eq_true]
    exact fun h => hb (Or.inl h)
  -- `b` is no lock, so `a` is refused behind it just if it is refused before it.
  have hlocked : (b.after s).locked = s.locked := by
    rw [Bool.eq_iff_iff, locked_after]
    exact or_iff_left fun h => hb (Or.inr h)
  rw [get?_after_of_not_concerns hconcerns (a.after s), get?_after a (b.after s),
      get?_after a s, isRefused_eq, isRefused_eq, hlocked,
      get?_after_of_not_concerns hconcerns s]

/-- Steps that work on different options can change places. -/
theorem sameOptions_after_after {a b : OptionStep} (h : a.Apart b) (s : OptionStores) :
    (b.after (a.after s)).SameOptions (a.after (b.after s)) where
  locked := by
    rw [Bool.eq_iff_iff, locked_after, locked_after, locked_after, locked_after]
    exact or_right_comm
  get?_eq key scope := by
    by_cases hb : b.WorksOn key scope
    · exact (get?_after_after (fun ha => h key scope ⟨ha, hb⟩) s).symm
    · exact get?_after_after hb s

/-- So they can in the middle of any run. -/
theorem sameOptions_afterAll_swap {a b : OptionStep} (h : a.Apart b) (s : OptionStores)
    (before after : List OptionStep) :
    (s.afterAll (before ++ a :: b :: after)).SameOptions
      (s.afterAll (before ++ b :: a :: after)) := by
  rw [afterAll_append, afterAll_append]
  exact (sameOptions_after_after h (s.afterAll before)).afterAll after

/-- **An option is its own history.**  After any run it holds what the steps of its history
make of it, one after the other, and what a replay of its history alone gives.  Members that
are written into an object replace those with their names and leave the others.  Steps that
do not concern the option never change it, and steps that work on different options can
change places anywhere in the run. -/
theorem get?_afterAll (s : OptionStores) (key : String) (scope : OptionScope)
    (steps : List OptionStep) :
    (s.afterAll steps).get? key scope
        = (s.history key scope steps).foldl (fun old step => step.valueAfter old)
            (s.get? key scope)
      ∧ (s.afterAll steps).get? key scope
        = (s.afterAll (s.history key scope steps)).get? key scope
      ∧ (∀ (existing members : Members) (name : String),
        (OptionStep.membersAfter members false (some (.object existing))).get? name
          = (Members.get? members.reverse name).or (existing.get? name))
      ∧ ((∀ step ∈ steps, step.concerns key scope = false) →
        (s.afterAll steps).get? key scope = s.get? key scope)
      ∧ ∀ (a b : OptionStep) (after : List OptionStep), a.Apart b →
        (s.afterAll (steps ++ a :: b :: after)).get? key scope
          = (s.afterAll (steps ++ b :: a :: after)).get? key scope := by
  refine ⟨get?_afterAll_eq_foldl s steps, ?replay, Members.get?_setAll, ?others, ?swap⟩
  case replay =>
    have hstart : Replays key scope s s := ⟨id, rfl⟩
    exact (hstart.afterAll steps).get?_eq.symm
  case others =>
    intro hsteps
    exact get?_afterAll_of_not_concerns hsteps s
  case swap =>
    intro a b after hapart
    exact ((sameOptions_afterAll_swap hapart s steps after).get?_eq key scope).symm

/-- The global option outlives a request whose page has an option with the same key, and takes
members; behind the lock it can not be cleared.  The page option can be set before it. -/
theorem get?_afterAll_requests :
    let first : OptionStep := .addObject "ids" [("a", .null), ("b", .null)] .global false
    let second : OptionStep := .addObject "ids" [("b", .bool true), ("c", .null)] .global false
    let onPage : OptionStep := .add "ids" .null .page
    let closing : List OptionStep := [.lock, .clearAll, .clear .page]
    (afterAll {} (first :: second :: onPage :: closing)).get? "ids" .global
        = some (.object [("a", .null), ("b", .bool true), ("c", .null)])
      ∧ (afterAll {} ([first] ++ second :: onPage :: closing)).get? "ids" .global
        = (afterAll {} ([first] ++ onPage :: second :: closing)).get? "ids" .global
      ∧ (afterAll (afterAll {} [first]) [onPage, .endRequest, .clear .page]).get? "ids" .global
        = some (.object [("a", .null), ("b", .null)]) := by
  intro first second onPage closing
  obtain ⟨hvalue, -, -, -, -⟩ :=
    get?_afterAll {} "ids" .global (first :: second :: onPage :: closing)
  obtain ⟨-, -, -, -, hswap⟩ := get?_afterAll {} "ids" .global [first]
  obtain ⟨-, -, -, hothers, -⟩ :=
    get?_afterAll (afterAll {} [first]) "ids" .global [onPage, .endRequest, .clear .page]
  have hapart : second.Apart onPage := by
    intro key scope
    cases scope <;> simp [second, onPage, OptionStep.WorksOn, OptionStep.concerns]
  exact ⟨hvalue.trans rfl, hswap second onPage closing hapart,
    (hothers (by decide)).trans rfl⟩

end OptionStores

end AmdKit
