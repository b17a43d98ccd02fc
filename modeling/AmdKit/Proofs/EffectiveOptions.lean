/-
  AmdKit.Proofs.EffectiveOptions
  ────────────────────────────────
  **THE OPTIONS THAT A PAGE SEES.**

  The options of the page lie over those of the global store, one layer over the other:

      value   — that of the page, if it has the key, and else the global one
      keys    — all global keys in their order, then those that only the page has in theirs

  A key that both stores have keeps the place of the global one and takes the value of the
  page as a whole, also where both are objects.

  No store ever has a key twice: both start empty, and every step keeps it so.
-/
import AmdKit.Proofs.OptionHistories

namespace AmdKit

open Json (Members)

/-! ## §1. Keys of members. -/

namespace Json.Members

/-- Setting a member leaves each name there once. -/
theorem nodup_set {members : Members} (h : (members.map Prod.fst).Nodup) (name : String)
    (value : Json) : ((members.set name value).map Prod.fst).Nodup :=
  Keyed.nodup_keys_upsert Keyed.replace_associative h

theorem nodup_setAll {members : Members} (h : (members.map Prod.fst).Nodup) (new : Members) :
    ((members.setAll new).map Prod.fst).Nodup := by
  rw [setAll_eq_upsertAll]
  exact Keyed.nodup_keys_upsertAll Keyed.replace_associative h

/-- **New names go behind those that are there**, and the others stay where they are. -/
theorem names_setAll (members : Members) {new : Members} (hnew : (new.map Prod.fst).Nodup) :
    (members.setAll new).map Prod.fst
      = members.map Prod.fst
        ++ (new.map Prod.fst).filter fun name => name ∉ members.map Prod.fst := by
  rw [setAll_eq_upsertAll, Keyed.keys_upsertAll_into Keyed.replace_associative,
      Keyed.eraseDups_of_nodup (hnew.filter _)]

end Json.Members

/-! ## §2. Every key once. -/

namespace OptionStores

open OptionStep (after_eq)

/-- Neither store has a key twice. -/
structure KeysOnce (s : OptionStores) : Prop where
  /-- The global store has none. -/
  global : (s.global.map Prod.fst).Nodup
  /-- The page store has none. -/
  page : (s.page.map Prod.fst).Nodup

/-- A change that leaves each key once in a scope leaves each key once in both. -/
theorem KeysOnce.changed {s : OptionStores} (h : s.KeysOnce) (scope : OptionScope)
    (f : Members → Members)
    (hf : ∀ values : Members, (values.map Prod.fst).Nodup → ((f values).map Prod.fst).Nodup) :
    (s.changed scope f).KeysOnce := by
  cases scope with
  | page => exact ⟨h.global, hf s.page h.page⟩
  | global => exact ⟨hf s.global h.global, h.page⟩

/-- No step leaves a key twice. -/
theorem KeysOnce.after {s : OptionStores} (h : s.KeysOnce) (step : OptionStep) :
    (step.after s).KeysOnce := by
  rw [after_eq]
  by_cases hrefused : s.locked = true ∧ step.writesGlobal = true
  · rw [if_pos hrefused]
    exact h
  · rw [if_neg hrefused]
    -- The steps that only empty a store leave nothing that could be there twice.
    cases step with
    | add key value scope =>
        apply h.changed scope fun values => values.set key value
        intro values hvalues
        exact Members.nodup_set hvalues key value
    | addObject key members scope clearExisting =>
        apply h.changed scope fun values => withMembers values key members clearExisting
        intro values hvalues
        rw [withMembers_eq]
        exact Members.nodup_set hvalues key _
    | clear scope =>
        apply h.changed scope fun _ => []
        intro _ _
        exact List.nodup_nil
    | clearAll => exact ⟨List.nodup_nil, List.nodup_nil⟩
    | endRequest => exact ⟨h.global, List.nodup_nil⟩
    | lock => exact ⟨h.global, List.nodup_nil⟩

/-- Neither does any run, by induction on its steps. -/
theorem KeysOnce.afterAll {s : OptionStores} (h : s.KeysOnce) (steps : List OptionStep) :
    (s.afterAll steps).KeysOnce := by
  induction steps generalizing s with
  | nil => exact h
  | cons step steps ih => exact ih (h.after step)

/-! ## §3. Layers. -/

/-- What is in effect for a key is the value for the page, and the global one if there is
none. -/
theorem get?_effective {s : OptionStores} (h : s.KeysOnce) (key : String) :
    s.effective.get? key = (s.get? key .page).or (s.get? key .global) := by
  have hpage : Members.get? s.page.reverse key = s.get? key .page := by
    show (Keyed.find? Prod.fst key s.page.reverse).map Prod.snd = _
    rw [Keyed.find?_reverse h.page]
    rfl
  show (Members.setAll s.global s.page).get? key = _
  rw [Members.get?_setAll, hpage]
  rfl

/-- **The options that a page sees.**  After any run, each key is there once.  Its value is
the one of the page, if the page has the key, and else the global one, so that an object on
the page hides a global object with all of its members.  The keys of the global store come
first, as they stand there, and behind them those that only the page has, as they stand
there. -/
theorem effective_afterAll (steps : List OptionStep) :
    let s := afterAll {} steps
    (s.effective.map Prod.fst).Nodup
      ∧ (∀ key, s.effective.get? key = (s.get? key .page).or (s.get? key .global))
      ∧ s.effective.map Prod.fst
        = s.global.map Prod.fst
          ++ (s.page.map Prod.fst).filter fun key => key ∉ s.global.map Prod.fst := by
  intro s
  have hempty : ({} : OptionStores).KeysOnce := ⟨List.nodup_nil, List.nodup_nil⟩
  have hs : s.KeysOnce := hempty.afterAll steps
  refine ⟨Members.nodup_setAll hs.global s.page, ?_, Members.names_setAll s.global hs.page⟩
  intro key
  exact get?_effective hs key

/-- `b` stays where it is when its value is replaced, and `a` is the object of the page. -/
example : (afterAll {} [.add "c" .null .page, .addObject "a" [("x", .null)] .page false,
      .addObject "a" [("y", .null)] .global false, .add "b" .null .global,
      .add "d" .null .global, .add "b" (.bool true) .global]).effective
    = [("a", .object [("x", .null)]), ("b", .bool true), ("d", .null), ("c", .null)] :=
  rfl

end OptionStores

end AmdKit
