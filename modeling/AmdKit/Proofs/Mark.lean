/-
  AmdKit.Proofs.Mark
  ────────────────────────────────
  **A BYTE ORDER MARK IN FRONT.**

  A byte order mark in front of a source is three bytes that no script begins
  with.  It moves every range by three bytes, and nothing else:

      inject (mark s)  =  the mark, and then inject s

  One more mark is a different matter.  The reader of scripts passes over a mark
  by itself and does not say so; a source with two of them is read as if it had
  one, and its ranges stay three bytes behind.
-/
import AmdKit.Proofs.Layout

/-! ## §1. Places, ranges and passes further on. -/

namespace AmdKit.Text

/-- A place further on is on no line before. -/
theorem line_le_advance (cs : List Char) :
    ∀ (here : Place) (n : Nat), here.line ≤ (here.advance cs n).line := by
  induction cs with
  | nil =>
      intro here n
      cases n <;> exact Nat.le_refl _
  | cons c cs ih =>
      intro here n
      cases n with
      | zero => exact Nat.le_refl _
      | succ n =>
          unfold Place.advance
          split
          · have hline : here.line + 1 ≤ (Place.advance ⟨here.line + 1, 1⟩ cs n).line :=
              ih ⟨here.line + 1, 1⟩ n
            omega
          · split
            · exact ih ⟨here.line, here.column + 1⟩ (n + 1 - c.utf8Size)
            · exact Nat.le_refl _

/-- A start that is one column further on shows on its own line only, and only at
offsets that have a column. -/
theorem advance_next_column (cs : List Char) :
    ∀ (line column n : Nat),
      Place.advance ⟨line, column + 1⟩ cs n
        = let here := Place.advance ⟨line, column⟩ cs n
          ⟨here.line, if here.line = line ∧ (cutAt cs n).isSome then here.column + 1
            else here.column⟩ := by
  -- The mark counts as one column on the first line: the walk is followed until that line is left.
  induction cs with
  | nil =>
      intro line column n
      cases n with
      | zero => simp [Place.advance, cutAt]
      | succ n => simp [Place.advance, cutAt]
  | cons c cs ih =>
      intro line column n
      cases n with
      | zero => simp [Place.advance, cutAt]
      | succ n =>
          unfold Place.advance
          by_cases hc : c = '\n'
          · -- From the next line on, nothing is left of the column.
            have hne : ¬ (Place.advance ⟨line + 1, 1⟩ cs n).line = line := by
              have hline : line + 1 ≤ (Place.advance ⟨line + 1, 1⟩ cs n).line :=
                line_le_advance cs ⟨line + 1, 1⟩ n
              omega
            rw [if_pos hc, if_pos hc]
            simp only [hne, false_and, if_false]
          · rw [if_neg hc, if_neg hc]
            by_cases hfits : c.utf8Size ≤ n + 1
            · have hcut : (cutAt (c :: cs) (n + 1)).isSome
                  = (cutAt cs (n + 1 - c.utf8Size)).isSome := by
                rw [cutAt, if_pos hfits, Option.isSome_map]
              rw [if_pos hfits, if_pos hfits, ih, hcut]
            · have hcut : (cutAt (c :: cs) (n + 1)).isSome = false := by
                rw [cutAt, if_neg hfits]
                rfl
              rw [if_neg hfits, if_neg hfits, hcut]
              simp

theorem Span.shift_shift (s : Span) (a b : Nat) : (s.shift a).shift b = s.shift (a + b) := by
  unfold Span.shift
  rw [Nat.add_assoc, Nat.add_assoc]

/-- A pass that begins further on looks further on. -/
theorem weave_shift (before after : Nat → List Char) (k : Nat) (s : List Char) :
    ∀ n, weave before after (n + k) s
      = weave (fun m => before (m + k)) (fun m => after (m + k)) n s := by
  induction s with
  | nil => intro n; rfl
  | cons c s ih =>
      intro n
      have hnext : n + k + c.utf8Size = n + c.utf8Size + k := by omega
      unfold weave
      rw [hnext, ih]

end AmdKit.Text

namespace AmdKit.Amd

open Text (Span Place placeAt cutAt byteLength weave weave_shift)

/-! ## §2. The mark. -/

/-- Behind the mark a text is cut where it is cut without it. -/
theorem isSome_cutAt_mark_cons (text : List Char) (offset : Nat) :
    (cutAt (mark :: text) (offset + mark.utf8Size)).isSome = (cutAt text offset).isSome := by
  show (cutAt (mark :: text) (offset + 2 + 1)).isSome = _
  rw [cutAt, if_pos (by show 3 ≤ _; omega), Option.isSome_map]
  rfl

/-- The place that a place of the text becomes behind a mark. -/
def placeBehindMark (text : List Char) (offset : Nat) (p : Place) : Place :=
  ⟨p.line, if p.line = 1 ∧ (cutAt text offset).isSome then p.column + 1 else p.column⟩

/-- Behind the mark a place is on the same line, and on the first line a column further
on. -/
theorem placeAt_mark_cons (text : List Char) (offset : Nat) :
    placeAt (mark :: text) (offset + mark.utf8Size)
      = placeBehindMark text offset (placeAt text offset) := by
  have hstep : placeAt (mark :: text) (offset + mark.utf8Size)
      = Place.advance ⟨1, 2⟩ text offset := by
    show Place.advance ⟨1, 1⟩ (mark :: text) (offset + 2 + 1) = _
    rw [Place.advance, if_neg (by decide), if_pos (by show 3 ≤ _; omega)]
    rfl
  rw [hstep]
  exact Text.advance_next_column text 1 1 offset

/-! ## §3. Calls further on. -/

theorem Factory.shift_shift (f : Factory) (a b : Nat) :
    (f.shift a).shift b = f.shift (a + b) := by
  unfold Factory.shift
  rw [Text.Span.shift_shift]

theorem Call.shift_shift (c : Call) (a b : Nat) : (c.shift a).shift b = c.shift (a + b) := by
  unfold Call.shift
  simp only [Text.Span.shift_shift, List.map_map, Option.map_map, Function.comp_def, Factory.shift_shift]

/-- A shifted call keeps its shape, so it falls into the same group. -/
theorem Call.takesArray_shift (c : Call) (k : Nat) : (c.shift k).takesArray = c.takesArray := by
  unfold Call.takesArray Call.shift
  simp

theorem Call.isRefused_shift (c : Call) (k : Nat) : (c.shift k).isRefused = c.isRefused := by
  unfold Call.isRefused
  rw [Call.takesArray_shift]
  rfl

theorem Call.newModules_shift (settings : Settings) (c : Call) (k : Nat) :
    (c.shift k).newModules settings = c.newModules settings := by
  have hmodules : (c.shift k).modules settings = c.modules settings := by
    unfold Call.modules Call.shift
    cases c.factory <;> rfl
  unfold Call.newModules
  rw [hmodules]

/-- Which calls are patched does not depend on where they stand. -/
theorem patchedCalls_shift (calls : List Call) (k : Nat) :
    patchedCalls (calls.map fun c => c.shift k) = (patchedCalls calls).map fun c => c.shift k := by
  unfold patchedCalls
  rw [List.filter_map]
  congr 2
  funext c
  exact c.takesArray_shift k

/-- The skipped call `n` bytes further on. -/
def SkippedCall.shift (s : SkippedCall) (n : Nat) : SkippedCall :=
  { s with callee := s.callee.shift n }

theorem Call.skipped_shift (c : Call) (k : Nat) : (c.shift k).skipped = c.skipped.shift k := by
  have hrefusal : (c.shift k).refusal = c.refusal := by
    unfold Call.refusal Call.shift
    simp
  unfold Call.skipped
  rw [hrefusal]
  rfl

/-- What is written behind the mark is what is written without it. -/
theorem arraysAt_shift (settings : Settings) (calls : List Call) (k n : Nat) :
    arraysAt settings (calls.map fun c => c.shift k) (n + k) = arraysAt settings calls n := by
  unfold arraysAt
  rw [patchedCalls_shift, List.flatMap_map]
  congr 1
  funext c
  rw [Call.arrayPoint?_shift, Call.newModules_shift]
  have hpoint : (c.arrayPoint?.map fun p => p + k) = some (n + k) ↔ c.arrayPoint? = some n := by
    rw [Option.map_eq_some_iff]
    constructor
    · rintro ⟨p, hp, hpk⟩
      have : p = n := by omega
      exact this ▸ hp
    · intro hp
      exact ⟨n, hp, rfl⟩
  simp only [hpoint]

/-- Nothing is written in front of the mark. -/
theorem arraysAt_shift_of_lt (settings : Settings) (calls : List Call) {k n : Nat} (h : n < k) :
    arraysAt settings (calls.map fun c => c.shift k) n = [] := by
  unfold arraysAt
  rw [patchedCalls_shift, List.flatMap_eq_nil_iff]
  intro c hc
  obtain ⟨d, -, rfl⟩ := List.mem_map.mp hc
  refine if_neg fun hp => ?_
  rw [Call.arrayPoint?_shift, Option.map_eq_some_iff] at hp
  obtain ⟨p, -, hpk⟩ := hp
  omega

/-! ## §4. Batches behind a mark. -/

/-- The text with a byte order mark in front. -/
def markFirst (text : String) : String := String.ofList (mark :: text.toList)

/-- What an injection leads to, with a byte order mark in front. -/
def Outcome.behindMark (o : Outcome) : Outcome :=
  ⟨markFirst o.source, o.patchedCalls, o.skipped.map fun s => s.shift mark.utf8Size⟩

theorem isValid_markFirst_iff (text : String) (p : Nat) :
    (String.Pos.Raw.mk (p + mark.utf8Size)).IsValid (markFirst text)
      ↔ (String.Pos.Raw.mk p).IsValid text := by
  unfold markFirst
  rw [Text.isValid_iff_isSome_cutAt, Text.isValid_iff_isSome_cutAt, String.toList_ofList,
      isSome_cutAt_mark_cons]

/-- A batch fits behind the mark exactly if it fits without it. -/
theorem fits_batch_markFirst_iff (text : String) (settings : Settings) (calls : List Call) :
    Fits (markFirst text) (batch settings (calls.map fun c => c.shift mark.utf8Size))
      ↔ Fits text (batch settings calls) := by
  rw [fits_batch_iff, fits_batch_iff, patchedCalls_shift, List.pairwise_map, List.forall_mem_map]
  -- Statements and points move together, and so do the boundaries of the text.
  have hplace : ∀ c : Call,
      (∀ p, (c.shift mark.utf8Size).arrayPoint? = some p →
        ((c.shift mark.utf8Size).statement.start ≤ p ∧ p ≤ (c.shift mark.utf8Size).statement.stop)
          ∧ (String.Pos.Raw.mk p).IsValid (markFirst text))
      ↔ ∀ p, c.arrayPoint? = some p →
        (c.statement.start ≤ p ∧ p ≤ c.statement.stop) ∧ (String.Pos.Raw.mk p).IsValid text := by
    intro c
    have hstart : (c.shift mark.utf8Size).statement.start = c.statement.start + mark.utf8Size := rfl
    have hstop : (c.shift mark.utf8Size).statement.stop = c.statement.stop + mark.utf8Size := rfl
    constructor
    · intro h p hp
      have hmoved := h (p + mark.utf8Size) (by rw [Call.arrayPoint?_shift, hp]; rfl)
      rw [isValid_markFirst_iff] at hmoved
      exact ⟨by omega, hmoved.2⟩
    · intro h p hp
      rw [Call.arrayPoint?_shift] at hp
      obtain ⟨q, hq, rfl⟩ := Option.map_eq_some_iff.mp hp
      rw [isValid_markFirst_iff]
      have hq := h q hq
      exact ⟨by omega, hq.2⟩
  have hdiff : ∀ c d : Call, (c.shift mark.utf8Size).arrayPoint? ≠ (d.shift mark.utf8Size).arrayPoint?
      ↔ c.arrayPoint? ≠ d.arrayPoint? := by
    intro c d
    rw [Call.arrayPoint?_shift, Call.arrayPoint?_shift]
    exact not_congr (Option.map_inj_right fun a b h => Nat.add_right_cancel h)
  simp only [hplace, hdiff]

/-- The mark stays first in what is woven. -/
theorem weave_arraysAt_mark_cons (settings : Settings) (calls : List Call) (text : List Char) :
    weave (arraysAt settings (calls.map fun c => c.shift mark.utf8Size)) (fun _ => []) 0
        (mark :: text)
      = mark :: weave (arraysAt settings calls) (fun _ => []) 0 text := by
  -- No shifted call has its point before or inside of the mark.
  have hrest := weave_shift (arraysAt settings (calls.map fun c => c.shift mark.utf8Size))
    (fun _ => []) mark.utf8Size text 0
  have hnone : arraysAt settings (calls.map fun c => c.shift mark.utf8Size) 0 = [] :=
    arraysAt_shift_of_lt settings calls (by decide)
  simp only [arraysAt_shift] at hrest
  show arraysAt settings _ 0 ++ mark :: ([] ++ weave _ _ (0 + mark.utf8Size) text) = _
  rw [hnone, hrest]
  rfl

/-- Patches succeed behind the mark exactly if they succeed without it, with the mark in
front of what they write. -/
theorem patchCalls_markFirst_iff (text : String) (settings : Settings) (calls : List Call)
    (outcome : Outcome) :
    patchCalls (markFirst text) settings (calls.map fun c => c.shift mark.utf8Size) = .ok outcome
      ↔ ∃ o, patchCalls text settings calls = .ok o ∧ outcome = o.behindMark := by
  have htext : (markFirst text).toList = mark :: text.toList := String.toList_ofList
  have hrefused : ((calls.map fun c => c.shift mark.utf8Size).filter Call.isRefused).map Call.skipped
      = ((calls.filter Call.isRefused).map Call.skipped).map fun s => s.shift mark.utf8Size := by
    have hfilter : (Call.isRefused ∘ fun c => c.shift mark.utf8Size) = Call.isRefused := by
      funext c
      exact c.isRefused_shift mark.utf8Size
    rw [List.filter_map, hfilter, List.map_map, List.map_map]
    exact List.map_congr_left fun c _ => c.skipped_shift mark.utf8Size
  -- Each part of the outcome moves behind the mark: the batch, the text, the count and the skipped
  -- calls.
  rw [patchCalls_eq_ok_iff, fits_batch_markFirst_iff, htext, weave_arraysAt_mark_cons,
      patchedCalls_shift, List.length_map, hrefused]
  have hmarked : ∀ cs : List Char, markFirst (String.ofList cs) = String.ofList (mark :: cs) := by
    intro cs
    unfold markFirst
    rw [String.toList_ofList]
  constructor
  · rintro ⟨hfits, hsource, hcount, hskipped⟩
    have hpatch := (patchCalls_eq_ok_iff text settings calls
      ⟨String.ofList (weave (arraysAt settings calls) (fun _ => []) 0 text.toList),
        (patchedCalls calls).length, (calls.filter Call.isRefused).map Call.skipped⟩).mpr
      ⟨hfits, rfl, rfl, rfl⟩
    refine ⟨_, hpatch, ?_⟩
    unfold Outcome.behindMark
    rw [hmarked, ← hsource, ← hcount, ← hskipped]
  · rintro ⟨o, ho, rfl⟩
    obtain ⟨hfits, hsource, hcount, hskipped⟩ := (patchCalls_eq_ok_iff text settings calls o).mp ho
    unfold Outcome.behindMark
    rw [hsource, hcount, hskipped, hmarked]
    exact ⟨hfits, rfl, rfl, rfl⟩

/-! ## §5. Sources behind a mark. -/

/-- The text does not begin with a byte order mark. -/
def Unmarked (text : List Char) : Prop := ∀ rest, text ≠ mark :: rest

/-- Of a text without a mark nothing is split off. -/
theorem splitMark_of_unmarked {text : List Char} (h : Unmarked text) : splitMark text = (0, text) := by
  cases text with
  | nil => rfl
  | cons c cs =>
      have hc : ¬ c = mark := fun hc => h cs (hc ▸ rfl)
      exact if_neg hc

theorem read_of_unmarked {text : List Char} (h : Unmarked text) :
    Source.read text
      = match Script.parse text with
        | .ok program => .ok ⟨program, 0⟩
        | .error fault =>
          .error ⟨placeAt text (min fault.offset (byteLength text)), fault.issue⟩ := by
  unfold Source.read
  rw [splitMark_of_unmarked h]
  rfl

/-- A mark is split off before the text is read, and counted again in where a fault is. -/
theorem read_mark_cons (text : List Char) :
    Source.read (mark :: text)
      = match Script.parse text with
        | .ok program => .ok ⟨program, mark.utf8Size⟩
        | .error fault =>
          .error ⟨placeBehindMark text (min fault.offset (byteLength text))
            (placeAt text (min fault.offset (byteLength text))), fault.issue⟩ := by
  have hread : Source.read (mark :: text)
      = match Script.parse text with
        | .ok program => .ok ⟨program, mark.utf8Size⟩
        | .error fault =>
          .error ⟨placeAt (mark :: text) (min (fault.offset + mark.utf8Size)
            (byteLength (mark :: text))), fault.issue⟩ := rfl
  rw [hread]
  cases Script.parse text with
  | ok program => rfl
  | error fault =>
      -- The offset is cut off at the end of the text, with the mark as without it.
      have hoffset : min (fault.offset + mark.utf8Size) (byteLength (mark :: text))
          = min fault.offset (byteLength text) + mark.utf8Size := by
        show min (fault.offset + mark.utf8Size) (mark.utf8Size + byteLength text) = _
        omega
      simp only [hoffset, placeAt_mark_cons]

/-- The reader of scripts passes over a mark, so a second one is not counted. -/
theorem read_mark_mark_cons {text : List Char} (h : Unmarked text) {source : Source} :
    Source.read (mark :: mark :: text) = .ok source ↔ Source.read (mark :: text) = .ok source := by
  have hparse : Script.parse (mark :: text) = Script.parse text := by
    unfold Script.parse
    split
    case h_1 rest heq =>
      -- One mark is passed over, and the text has none that could be passed over next.
      obtain rfl : text = rest := (List.cons.inj heq).2
      split
      case h_1 => exact absurd rfl (h _)
      case h_2 => rfl
    case h_2 hne => exact absurd rfl (hne text)
  rw [read_mark_cons, read_mark_cons, hparse]
  cases Script.parse text with
  | ok program => exact Iff.rfl
  | error fault => exact ⟨fun h => (by cases h), fun h => (by cases h)⟩

/-- Behind a mark, every call stands three bytes further on. -/
theorem calls_mark_cons {text : List Char} (h : Unmarked text) {source : Source}
    (hread : Source.read text = .ok source) :
    ∃ marked, Source.read (mark :: text) = .ok marked
      ∧ marked.calls = source.calls.map fun c => c.shift mark.utf8Size := by
  rw [read_of_unmarked h] at hread
  rw [read_mark_cons]
  cases hparse : Script.parse text with
  | error fault =>
      rw [hparse] at hread
      cases hread
  | ok program =>
      rw [hparse] at hread
      cases hread
      refine ⟨_, rfl, ?_⟩
      unfold Source.calls
      rw [List.map_map]
      refine List.map_congr_left fun c _ => ?_
      show c.shift mark.utf8Size = (c.shift 0).shift mark.utf8Size
      rw [Call.shift_shift, Nat.zero_add]

/-! ## §6. Injections behind a mark. -/

/-- A script that can not be read is wrong at the same place: one column further on
in the first line, if the place has a column of its own, and nowhere else. -/
theorem inject_of_parse_error {text : String} (h : Unmarked text.toList) {fault : Script.Fault}
    (hparse : Script.parse text.toList = .error fault) (settings : Settings) :
    let offset := min fault.offset (byteLength text.toList)
    let place := placeAt text.toList offset
    inject text settings = .error (.unreadable ⟨place, fault.issue⟩)
      ∧ inject (markFirst text) settings
        = .error (.unreadable ⟨placeBehindMark text.toList offset place, fault.issue⟩) := by
  have htext : (markFirst text).toList = mark :: text.toList := String.toList_ofList
  unfold inject
  rw [htext, read_of_unmarked h, read_mark_cons, hparse]
  exact ⟨rfl, rfl⟩

/-- An injection behind a mark succeeds exactly if it succeeds without it. -/
theorem inject_markFirst_iff {text : String} (h : Unmarked text.toList) (settings : Settings)
    (outcome : Outcome) :
    inject (markFirst text) settings = .ok outcome
      ↔ ∃ o, inject text settings = .ok o ∧ outcome = o.behindMark := by
  have htext : (markFirst text).toList = mark :: text.toList := String.toList_ofList
  cases hparse : Script.parse text.toList with
  | error fault =>
      obtain ⟨hplain, hmarked⟩ := inject_of_parse_error h hparse settings
      rw [hplain, hmarked]
      constructor
      · intro hok
        cases hok
      · rintro ⟨o, hok, -⟩
        cases hok
  | ok program =>
      have hread : Source.read text.toList = .ok ⟨program, 0⟩ := by
        rw [read_of_unmarked h, hparse]
      obtain ⟨marked, hmarked, hcalls⟩ := calls_mark_cons h hread
      have hplain := inject_ok_iff_of_read hread settings
      rw [← htext] at hmarked
      rw [inject_ok_iff_of_read hmarked, hcalls, patchCalls_markFirst_iff]
      simp only [hplain]

/-- **A byte order mark only shifts.**  Take a text that does not begin with a mark
itself.  With a mark in front, it goes through if and only if it goes through
without; the new source is the old one behind the mark, as many calls get an array,
and every range of a call and of a skipped call is three bytes further on.  A fault
stays what it is, on its line.  One more mark is not counted at all. -/
theorem inject_markFirst {text : String} (h : Unmarked text.toList) (settings : Settings) :
    (∀ outcome, inject (markFirst text) settings = .ok outcome
        ↔ ∃ o, inject text settings = .ok o ∧ outcome = o.behindMark)
    ∧ (∀ source, Source.read text.toList = .ok source →
        ∃ marked, Source.read (mark :: text.toList) = .ok marked
          ∧ marked.calls = source.calls.map fun c => c.shift mark.utf8Size)
    ∧ (∀ fault, Script.parse text.toList = .error fault →
        let offset := min fault.offset (byteLength text.toList)
        let place := placeAt text.toList offset
        inject text settings = .error (.unreadable ⟨place, fault.issue⟩)
          ∧ inject (markFirst text) settings
            = .error (.unreadable ⟨placeBehindMark text.toList offset place, fault.issue⟩))
    ∧ ∀ source, Source.read (mark :: mark :: text.toList) = .ok source
        ↔ Source.read (mark :: text.toList) = .ok source :=
  ⟨inject_markFirst_iff h settings, fun _ hread => calls_mark_cons h hread,
    fun _ hparse => inject_of_parse_error h hparse settings, fun _ => read_mark_mark_cons h⟩

/-- A call that is patched and one that is skipped. -/
theorem inject_markFirst_define :
    Unmarked "define(() => 1); require()".toList
    ∧ inject "\ufeffdefine(() => 1); require()" {}
      = .ok ⟨"\ufeffdefine([],() => 1); require()", 1, [⟨.require, ⟨20, 27⟩, .noArguments⟩]⟩ := by
  have hunmarked : Unmarked "define(() => 1); require()".toList := by
    intro rest hrest
    have hhead : some 'd' = some mark := congrArg List.head? hrest
    exact absurd hhead (by decide)
  have hplain : inject "define(() => 1); require()" {}
      = .ok ⟨"define([],() => 1); require()", 1, [⟨.require, ⟨17, 24⟩, .noArguments⟩]⟩ :=
    eq_ok_of_toOption (by decide +kernel)
  have hmarked := ((inject_markFirst hunmarked {}).1 _).mpr ⟨_, hplain, rfl⟩
  exact ⟨hunmarked, hmarked⟩

/-- **Behind two marks, the array is written three bytes too early.** -/
theorem inject_two_marks :
    inject "\ufeffdefine(function(){});" {} = .ok ⟨"\ufeffdefine([],function(){});", 1, []⟩
    ∧ inject "\ufeff\ufeffdefine(function(){});" {}
      = .ok ⟨"\ufeff\ufeffdefi[],ne(function(){});", 1, []⟩ :=
  ⟨eq_ok_of_toOption (by decide +kernel), eq_ok_of_toOption (by decide +kernel)⟩

end AmdKit.Amd
