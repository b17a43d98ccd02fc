/-
  AmdKit.Proofs.ParserSteps
  ────────────────────────────────
  **WHAT A PARSER DOES TO ITS STATE.**

  A parser never goes back: the offset up to which tokens have been read past only
  grows, in runs that succeed and in runs that do not, and a fault that has been noted
  stays noted.  `Yields lo p Q` says that of a parser `p` that starts where it has come
  as far as `lo`, and that what it returns satisfies `Q`, together with a place between
  `lo` and where it ends.

      Yields lo p Q,  and  Yields mid (f a) R  whenever Q a mid
        →  Yields lo (p >>= f) R

  `Moves p` says the former only; it passes through every combinator.
-/
import AmdKit.Proofs.TokenRanges
import AmdKit.Proofs.PlacedTrees
import AmdKit.Script.Program

namespace AmdKit.Script

open Text (Span)

/-! ## §1. States. -/

/-- The token is none. -/
def Token.isBad : Token → Bool
  | .bad _ => true
  | _ => false

/-- A word or a name is a token. -/
theorem Token.isBad_of_identifier {t : Token} (h : t.identifier?.isSome = true) :
    t.isBad = false := by
  cases t <;> first | rfl | cases h

/-- The parser has come as far as `lo`.  The current token stands in the text between the
inputs around it, behind the token before, and takes up at least a byte if it is a
word or a name.  What is no token may stand where the token before does: nothing
may be read after it. -/
structure State.Past (lo : Progress) (s : State) : Prop where
  low : lo.offset ≤ s.previous.stop
  noted : lo.noted = true → s.faults ≠ []
  span : s.current.span = ⟨s.start.offset, s.rest.offset⟩
  start : s.start.In lo.text
  rest : s.start.Ahead s.rest
  passed : s.previous.stop ≤ s.rest.offset
  ready : s.current.token.isBad = false → s.previous.stop ≤ s.start.offset
  word : s.current.token.identifier?.isSome = true → s.start.offset < s.rest.offset
  stuck : s.stuck = true → s.current.token.isBad = true
  lexed : s.current.token ≠ .finish → s.current.token.isBad = false → s.AtToken

/-- A parser that has come as far as a place has come as far as those in front of it. -/
theorem State.Past.mono {lo hi : Progress} {s : State} (h : s.Past hi) (hle : lo ≤ hi) :
    s.Past lo :=
  { h with
    low := Nat.le_trans (Progress.offset_le hle) h.low
    noted := fun hnoted => h.noted (hle.2.2 hnoted)
    start := Progress.text_eq hle ▸ h.start }

/-- A state that has come as far as two places has come as far as the farther one. -/
theorem State.Past.join {hi hi' : Progress} {s : State} (h : s.Past hi) (h' : s.Past hi') :
    s.Past (hi.join hi') :=
  { h with
    low := Nat.max_le.mpr ⟨h.low, h'.low⟩
    noted := fun hnoted => (Bool.or_eq_true _ _ ▸ hnoted).elim h.noted h'.noted }

/-- The states agree on their tokens, and a fault that has been noted stays noted. -/
structure State.SameTokens (s t : State) : Prop where
  current : t.current = s.current
  start : t.start = s.start
  rest : t.rest = s.rest
  previous : t.previous = s.previous
  stuck : t.stuck = s.stuck
  noted : s.faults ≠ [] → t.faults ≠ []

theorem State.SameTokens.refl (s : State) : s.SameTokens s := ⟨rfl, rfl, rfl, rfl, rfl, id⟩

theorem State.SameTokens.trans {s t u : State} (h : s.SameTokens t) (h' : t.SameTokens u) :
    s.SameTokens u :=
  ⟨h'.current.trans h.current, h'.start.trans h.start, h'.rest.trans h.rest,
    h'.previous.trans h.previous, h'.stuck.trans h.stuck, h'.noted ∘ h.noted⟩

/-- How far a parser has come is told by its tokens and its faults. -/
theorem State.Past.same {lo : Progress} {s t : State} (h : s.Past lo) (hst : s.SameTokens t) :
    t.Past lo := by
  obtain ⟨hcurrent, hstart, hrest, hprevious, hstuck, hnoted⟩ := hst
  constructor
  · rw [hprevious]; exact h.low
  · exact fun hlo => hnoted (h.noted hlo)
  · rw [hcurrent, hstart, hrest]; exact h.span
  · rw [hstart]; exact h.start
  · rw [hstart, hrest]; exact h.rest
  · rw [hprevious, hrest]; exact h.passed
  · rw [hcurrent, hprevious, hstart]; exact h.ready
  · rw [hcurrent, hstart, hrest]; exact h.word
  · rw [hstuck, hcurrent]; exact h.stuck
  · unfold AtToken; rw [hcurrent, hstart, hrest]; exact h.lexed

/-- The state at the next token, behind a range that has been read past. -/
def State.goOn (s : State) (previous : Span) (next : Lexed) : State :=
  { s with previous, current := next.lexeme, start := next.start, rest := next.after }

/-- The next token is lexed from where the range ends. -/
theorem State.past_goOn {lo : Progress} {s : State} (previous : Span) {i : Input}
    (lineBreak : Bool) (hi : i.In lo.text) (hstop : i.offset = previous.stop)
    (hnoted : lo.noted = true → s.faults ≠ []) (hstuck : s.stuck = false) :
    (s.goOn previous (lex lineBreak i)).Past (lo.to i.offset) := by
  have hnext := follows_lex lineBreak i
  have hstart : previous.stop ≤ (lex lineBreak i).start.offset := hstop ▸ hnext.start.offset_le
  exact
    { low := Nat.le_of_eq hstop
      noted := hnoted
      span := hnext.span
      start := hi.ahead hnext.start
      rest := hnext.after
      passed := Nat.le_trans hstart hnext.after.offset_le
      ready := fun _ => hstart
      word := hnext.word
      stuck := fun h => absurd (hstuck.symm.trans h) Bool.false_ne_true
      lexed := fun _ _ => ⟨lineBreak, i, rfl⟩ }

/-! ## §2. Runs. -/

/-- What a run leads to from a state that has come as far as `lo`. -/
def Reaches {α : Type} (lo : Progress) (Q : α → Progress → Prop) :
    EStateM.Result Fault State α → Prop
  | .ok a t => ∃ hi, lo ≤ hi ∧ t.Past hi ∧ Q a hi
  | .error _ t => t.Past lo

/-- A run from farther on is a run from here. -/
theorem Reaches.mono {α : Type} {lo hi : Progress} {Q : α → Progress → Prop}
    {r : EStateM.Result Fault State α} (h : Reaches hi Q r) (hle : lo ≤ hi) : Reaches lo Q r := by
  cases r with
  | error e t => exact State.Past.mono h hle
  | ok a t =>
      obtain ⟨top, htop, ht, hQ⟩ := h
      exact ⟨top, le_trans hle htop, ht, hQ⟩

/-- What is returned satisfies any weaker condition. -/
theorem Reaches.weaken {α : Type} {lo : Progress} {Q Q' : α → Progress → Prop}
    {r : EStateM.Result Fault State α} (h : Reaches lo Q r)
    (hQ : ∀ a hi, lo ≤ hi → Q a hi → Q' a hi) : Reaches lo Q' r := by
  cases r with
  | error e t => exact h
  | ok a t =>
      obtain ⟨hi, hhi, ht, ha⟩ := h
      exact ⟨hi, hhi, ht, hQ a hi hhi ha⟩

/-- Every run of the parser reads on, and what it returns satisfies the condition. -/
def Yields {α : Type} (lo : Progress) (p : Parse α) (Q : α → Progress → Prop) : Prop :=
  ∀ s : State, s.Past lo → Reaches lo Q (p s)

/-- Every run of the parser reads on.  This is found from how a parser is put together,
so it is a class. -/
class Moves {α : Type} (p : Parse α) : Prop where
  yields : ∀ lo, Yields lo p fun _ _ => True

variable {α β : Type} {lo : Progress} {p : Parse α} {f : α → Parse β}
  {Q : α → Progress → Prop} {R : β → Progress → Prop}

/-- What a run goes on to, from where the parser in front has ended. -/
theorem Reaches.next {s : State} (hp : Reaches lo Q (p s))
    (hf : ∀ a mid t, lo ≤ mid → t.Past mid → Q a mid → Reaches lo R (f a t)) :
    Reaches lo R ((p >>= f) s) := by
  show Reaches lo R (EStateM.bind p f s)
  unfold EStateM.bind
  cases hps : p s with
  | error e t =>
      rw [hps] at hp
      exact hp
  | ok a t =>
      rw [hps] at hp
      obtain ⟨mid, hmid, ht, hQ⟩ := hp
      exact hf a mid t hmid ht hQ

/-- A run goes on from where the parser in front has ended, whatever the state there. -/
theorem Reaches.bind {s : State} (hp : Reaches lo Q (p s))
    (hf : ∀ a mid, Q a mid → Yields mid (f a) R) : Reaches lo R ((p >>= f) s) :=
  hp.next fun a mid t hmid ht hQ => (hf a mid hQ t ht).mono hmid

/-- What a parser returns that is only known to read on does not count. -/
theorem Reaches.skip {s : State} (hp : Reaches lo Q (p s)) (hf : ∀ a, Yields lo (f a) R) :
    Reaches lo R ((p >>= f) s) :=
  hp.next fun a _ t hmid ht _ => hf a t (ht.mono hmid)

/-- What two accounts of one run say holds at the farther one of their places. -/
theorem Reaches.and {Q' : α → Progress → Prop} {r : EStateM.Result Fault State α}
    (h : Reaches lo Q r) (h' : Reaches lo Q' r)
    (hQ : ∀ a {mid hi}, mid ≤ hi → Q a mid → Q a hi)
    (hQ' : ∀ a {mid hi}, mid ≤ hi → Q' a mid → Q' a hi) :
    Reaches lo (fun a hi => Q a hi ∧ Q' a hi) r := by
  cases r with
  | error e t => exact h
  | ok a t =>
      obtain ⟨hi, hlo, ht, ha⟩ := h
      obtain ⟨hi', hlo', ht', ha'⟩ := h'
      have htext : hi.text = hi'.text := (Progress.text_eq hlo).symm.trans (Progress.text_eq hlo')
      have hle := Progress.le_join hi hi'
      have hle' := Progress.le_join_of_text_eq htext
      exact ⟨hi.join hi', le_trans hlo hle, ht.join ht', hQ a hle ha, hQ' a hle' ha'⟩

/-- A parser goes on with another one from where it has ended. -/
theorem Yields.bind (hp : Yields lo p Q) (hf : ∀ a mid, Q a mid → Yields mid (f a) R) :
    Yields lo (p >>= f) R := fun s hs => (hp s hs).bind hf

/-- What a parser in front returns may not matter. -/
theorem Yields.skip [hp : Moves p] (hf : ∀ a, Yields lo (f a) R) : Yields lo (p >>= f) R :=
  fun s hs => (hp.yields lo s hs).skip hf

theorem Yields.pure {a : α} (h : Q a lo) : Yields lo (pure a) Q :=
  fun _ hs => ⟨lo, le_refl lo, hs, h⟩

theorem Yields.ofPure {a : α} (h : Yields lo (f a) R) : Yields lo (Pure.pure a >>= f) R := h

theorem Yields.throw {fault : Fault} : Yields lo (throw fault) Q := fun _ hs => hs

/-- Nothing is read behind what stops. -/
theorem Yields.stop (hp : Yields lo p fun _ _ => False) : Yields lo (p >>= f) R :=
  hp.bind fun _ _ h => h.elim

theorem Yields.weaken {Q' : α → Progress → Prop} (hp : Yields lo p Q)
    (h : ∀ a hi, Q a hi → Q' a hi) : Yields lo p Q' := fun s hs => (hp s hs).weaken fun a hi _ => h a hi

/-- What is returned satisfies its condition at a place no farther back than the start. -/
theorem Yields.low (hp : Yields lo p Q) : Yields lo p fun a hi => lo ≤ hi ∧ Q a hi :=
  fun s hs => (hp s hs).weaken fun _ _ hle hQ => ⟨hle, hQ⟩

theorem Yields.ite {c : Prop} {_ : Decidable c} {q : Parse α} (hp : c → Yields lo p Q)
    (hq : ¬ c → Yields lo q Q) : Yields lo (if c then p else q) Q := by
  split
  next hc => exact hp hc
  next hc => exact hq hc

/-- A check in front of the rest. -/
theorem Yields.check {c : Prop} {_ : Decidable c} {q : Parse PUnit} [Moves q] {g : PUnit → Parse β}
    (hg : ∀ r, Yields lo (g r) R) : Yields lo (if c then q >>= g else g ⟨⟩) R :=
  .ite (fun _ => .skip hg) fun _ => hg _

/-- A parser that returns anything at all reads on. -/
theorem Moves.of_yields {Q : Progress → α → Progress → Prop} (h : ∀ lo, Yields lo p (Q lo)) :
    Moves p :=
  ⟨fun lo => (h lo).weaken fun _ _ _ => trivial⟩

theorem Moves.bind [Moves p] (hf : ∀ a, Moves (f a)) : Moves (p >>= f) :=
  ⟨fun lo => .skip fun a => (hf a).yields lo⟩

instance [Moves p] [hf : ∀ a, Moves (f a)] : Moves (p >>= f) := .bind hf

instance [Moves p] {g : α → β} : Moves (g <$> p) := by
  rw [map_eq_pure_bind]
  exact .bind fun a => ⟨fun _ => .pure trivial⟩

instance (fault : Fault) : Moves (throw fault : Parse α) := ⟨fun _ => .throw⟩

instance {c : Prop} [Decidable c] {q : Parse α} [hp : Moves p] [hq : Moves q] :
    Moves (if c then p else q) := by
  split
  · exact hp
  · exact hq

/-- A parser for each member of a list, by induction on the list. -/
theorem Moves.forM {γ : Type} (xs : List γ) {g : γ → Parse PUnit} (hg : ∀ x, Moves (g x)) :
    Moves (xs.forM g) := by
  induction xs with
  | nil => exact ⟨fun _ => .pure trivial⟩
  | cons x xs ih => exact @Moves.bind _ _ _ _ (hg x) fun _ => ih

instance {γ : Type} (xs : List γ) {g : γ → Parse PUnit} [hg : ∀ x, Moves (g x)] :
    Moves (xs.forM g) := .forM xs hg

/-! ## §3. Steps that leave the tokens alone. -/

/-- The parser succeeds and leaves the tokens as they are. -/
class Keeps {α : Type} (p : Parse α) : Prop where
  keeps : ∀ s, ∃ a t, p s = .ok a t ∧ s.SameTokens t

instance [hp : Keeps p] : Moves p := by
  refine ⟨fun lo s hs => ?_⟩
  obtain ⟨a, t, hrun, hst⟩ := hp.keeps s
  rw [hrun]
  exact ⟨lo, le_refl lo, hs.same hst, trivial⟩

/-- A run of such a step leaves the tokens as they are. -/
theorem sameTokens_of_keeps [hp : Keeps p] {s t : State} {a : α} (h : p s = .ok a t) :
    s.SameTokens t := by
  obtain ⟨b, u, hrun, hst⟩ := hp.keeps s
  rw [h] at hrun
  cases hrun
  exact hst

/-- A step that leaves the tokens alone, in front of another one. -/
theorem exists_run_of_keeps [hp : Keeps p] (f : α → Parse β) (s : State) :
    ∃ a t, s.SameTokens t ∧ (p >>= f) s = f a t := by
  obtain ⟨a, t, hrun, hst⟩ := hp.keeps s
  refine ⟨a, t, hst, ?_⟩
  show EStateM.bind p f s = _
  unfold EStateM.bind
  rw [hrun]

theorem Keeps.bind [Keeps p] (hf : ∀ a, Keeps (f a)) : Keeps (p >>= f) := by
  refine ⟨fun s => ?_⟩
  obtain ⟨a, t, hst, hrun⟩ := exists_run_of_keeps (p := p) f s
  obtain ⟨b, u, hrest, htu⟩ := (hf a).keeps t
  exact ⟨b, u, hrun.trans hrest, hst.trans htu⟩

instance [Keeps p] [hf : ∀ a, Keeps (f a)] : Keeps (p >>= f) := .bind hf

instance (a : α) : Keeps (pure a : Parse α) := ⟨fun s => ⟨a, s, rfl, .refl s⟩⟩

instance {c : Prop} [Decidable c] {q : Parse α} [hp : Keeps p] [hq : Keeps q] :
    Keeps (if c then p else q) := by
  split
  · exact hp
  · exact hq

instance : Keeps (get : Parse State) := ⟨fun s => ⟨s, s, rfl, .refl s⟩⟩

theorem Keeps.modify {g : State → State} (h : ∀ s, State.SameTokens s (g s)) :
    Keeps (modify g : Parse PUnit) := ⟨fun s => ⟨⟨⟩, g s, rfl, h s⟩⟩

/-- A change of the state that leaves the tokens alone. -/
theorem Yields.modify {g : State → State} {f : PUnit → Parse β} (h : ∀ s, State.SameTokens s (g s))
    (hf : ∀ r, Yields lo (f r) R) : Yields lo (modify g >>= f) R :=
  have := Keeps.modify h
  .skip hf

instance : Keeps (modify fun s : State => { s with moduleItem := true } : Parse PUnit) :=
  .modify fun _ => ⟨rfl, rfl, rfl, rfl, rfl, id⟩

instance {γ : Type} (xs : List γ) {g : γ → Parse PUnit} [hg : ∀ x, Keeps (g x)] :
    Keeps (xs.forM g) := by
  induction xs with
  | nil => exact inferInstanceAs (Keeps (pure _))
  | cons x xs ih => exact @Keeps.bind _ _ _ _ (hg x) fun _ => ih

instance (fault : Fault) : Keeps (note fault) :=
  .modify fun _ => ⟨rfl, rfl, rfl, rfl, rfl, fun _ => List.cons_ne_nil _ _⟩

instance (fault : Fault) : Keeps (noteStrict fault) := by
  refine .modify fun s => ?_
  split
  · exact ⟨rfl, rfl, rfl, rfl, rfl, fun _ => List.cons_ne_nil _ _⟩
  · exact ⟨rfl, rfl, rfl, rfl, rfl, id⟩

instance (fault : Fault) : Keeps (noteInModule fault) := by
  refine .modify fun s => ?_
  split
  · exact ⟨rfl, rfl, rfl, rfl, rfl, fun _ => List.cons_ne_nil _ _⟩
  · exact ⟨rfl, rfl, rfl, rfl, rfl, id⟩

instance (issue : Severity × Fault) : Keeps (noteIssue issue) := by
  obtain ⟨severity, fault⟩ := issue
  cases severity <;> unfold noteIssue <;> infer_instance

instance : Keeps token := by unfold token; infer_instance

instance : Keeps context := by unfold context; infer_instance

instance : Keeps peek := by unfold peek; infer_instance

instance : Keeps previous := by unfold previous; infer_instance

instance (start : Nat) : Keeps (spanFrom start) := by unfold spanFrom; infer_instance

instance : Keeps position := by unfold position; infer_instance

instance : Keeps currentStart := by unfold currentStart; infer_instance

instance (m : Mark) : Keeps (atMark m) := by unfold atMark; infer_instance

instance (w : Word) : Keeps (atWord w) := by unfold atWord; infer_instance

instance : Keeps atEnd := by unfold atEnd; infer_instance

instance : Keeps afterLineBreak := by unfold afterLineBreak; infer_instance

instance : Keeps tokensLeft := by unfold tokensLeft; infer_instance

instance : Keeps atSemicolon := by
  unfold atSemicolon
  refine .bind fun t => ?_
  split <;> infer_instance

/-! ## §4. Steps from a known token. -/

/-- Every run of the parser from the token reads on, and what it returns satisfies the
condition. -/
def YieldsAt {α : Type} (l : Lexeme) (lo : Progress) (p : Parse α) (Q : α → Progress → Prop) :
    Prop :=
  ∀ s : State, s.Past lo → s.current = l → Reaches lo Q (p s)

variable {l : Lexeme}

theorem Yields.of_at (h : ∀ l, YieldsAt l lo p Q) :
    Yields lo p Q := fun s hs => h s.current s hs rfl

theorem Yields.at (h : Yields lo p Q) : YieldsAt l lo p Q := fun s hs _ => h s hs

theorem YieldsAt.ite {c : Prop} {_ : Decidable c} {q : Parse α} (hp : c → YieldsAt l lo p Q)
    (hq : ¬ c → YieldsAt l lo q Q) : YieldsAt l lo (if c then p else q) Q := by
  split
  next hc => exact hp hc
  next hc => exact hq hc

theorem YieldsAt.bind (hp : YieldsAt l lo p Q) (hf : ∀ a mid, Q a mid → Yields mid (f a) R) :
    YieldsAt l lo (p >>= f) R := fun s hs hl => (hp s hs hl).bind hf

theorem YieldsAt.skip (hp : YieldsAt l lo p Q) (hf : ∀ a, Yields lo (f a) R) :
    YieldsAt l lo (p >>= f) R := fun s hs hl => (hp s hs hl).skip hf

/-- A step that leaves the tokens alone leads to the same token. -/
theorem YieldsAt.keep [Keeps p] (hf : ∀ a, YieldsAt l lo (f a) R) :
    YieldsAt l lo (p >>= f) R := by
  intro s hs hl
  obtain ⟨a, t, hst, hrun⟩ := exists_run_of_keeps (p := p) f s
  rw [hrun]
  exact hf a t (hs.same hst) (hst.current.trans hl)

/-- Looking at the token tells which one it is. -/
theorem YieldsAt.token {f : Token → Parse β} (hf : YieldsAt l lo (f l.token) R) :
    YieldsAt l lo (token >>= f) R := by
  intro s hs hl
  have hrun := hf s hs hl
  rw [← hl] at hrun
  exact hrun

/-- The parser is at the beginning of the token, unless that is the end. -/
theorem position_of_current {s : State} (hl : l.token ≠ .finish) (hs : s.current = l) :
    position s = .ok l.span.start s := by
  show (ite _ _ _ : Parse Nat) s = _
  rw [if_neg (by rw [hs]; exact hl), hs]
  rfl

theorem YieldsAt.atWord {w : Word} {f : Bool → Parse β}
    (hf : YieldsAt l lo (f (decide (l.token = .word w))) R) :
    YieldsAt l lo (atWord w >>= f) R := by
  intro s hs hl
  have hrun := hf s hs hl
  rw [← hl] at hrun
  exact hrun

theorem YieldsAt.weaken {Q' : α → Progress → Prop} (hp : YieldsAt l lo p Q)
    (h : ∀ a hi, Q a hi → Q' a hi) : YieldsAt l lo p Q' :=
  fun s hs hl => (hp s hs hl).weaken fun a hi _ => h a hi

/-- So its position is where the token begins. -/
theorem YieldsAt.position {f : Nat → Parse β} (hl : l.token ≠ .finish)
    (hf : YieldsAt l lo (f l.span.start) R) : YieldsAt l lo (position >>= f) R := by
  intro s hs hcurrent
  have hrun := hf s hs hcurrent
  show Reaches lo R (EStateM.bind Script.position f s)
  unfold EStateM.bind
  rw [position_of_current hl hcurrent]
  exact hrun

/-- At the end of the text nothing more is said of the position. -/
theorem YieldsAt.positionOf {f : Nat → Parse β}
    (hf : ∀ start, (l.token ≠ .finish → start = l.span.start) → YieldsAt l lo (f start) R) :
    YieldsAt l lo (Script.position >>= f) R := by
  by_cases hl : l.token = .finish
  · exact .keep fun start => hf start fun h => absurd hl h
  · exact .position hl (hf _ fun _ => rfl)

/-- What follows if the token stands here, and what follows if it does not. -/
theorem Yields.ifToken {t : Token} {q r : Parse β}
    (h : ∀ l, l.token = t → YieldsAt l lo q R) (h' : Yields lo r R) :
    Yields lo (do if decide ((← token) = t) then q else r) R := by
  intro s hs
  show Reaches lo R ((if decide (s.current.token = t) then q else r) s)
  by_cases ht : s.current.token = t
  · rw [if_pos (decide_eq_true ht)]
    exact h s.current ht s hs rfl
  · rw [if_neg (by rw [decide_eq_false ht]; decide)]
    exact h' s hs

theorem Yields.ifMark {m : Mark} {q r : Parse β}
    (h : ∀ l, l.token = .mark m → YieldsAt l lo q R) (h' : Yields lo r R) :
    Yields lo (do if ← atMark m then q else r) R := .ifToken h h'

theorem Yields.ifWord {w : Word} {q r : Parse β}
    (h : ∀ l, l.token = .word w → YieldsAt l lo q R) (h' : Yields lo r R) :
    Yields lo (do if ← atWord w then q else r) R := .ifToken h h'

/-- Every run of the parser from the tokens of the state reads on, and what it returns
satisfies the condition. -/
def YieldsIn {α : Type} (s : State) (lo : Progress) (p : Parse α) (Q : α → Progress → Prop) :
    Prop :=
  ∀ t : State, t.Past lo → s.SameTokens t → Reaches lo Q (p t)

/-- A state that is looked at stays known as long as its tokens are left alone. -/
theorem YieldsAt.get {f : State → Parse β}
    (hf : ∀ s : State, s.Past lo → s.current = l → YieldsIn s lo (f s) R) :
    YieldsAt l lo (get >>= f) R := fun s hs hl => hf s hs hl s hs (.refl s)

theorem YieldsIn.keep {s : State} [Keeps p] (hf : ∀ a, YieldsIn s lo (f a) R) :
    YieldsIn s lo (p >>= f) R := by
  intro t ht hst
  obtain ⟨a, u, htu, hrun⟩ := exists_run_of_keeps (p := p) f t
  rw [hrun]
  exact hf a u (ht.same htu) (hst.trans htu)

/-- Setting the tokens. -/
theorem YieldsIn.set {s : State} (hi : Progress) {g : State → State} {f : PUnit → Parse β}
    (hg : ∀ t, s.SameTokens t → (g t).Past hi) (hle : lo ≤ hi) (hf : ∀ r, Yields hi (f r) R) :
    YieldsIn s lo (modify g >>= f) R := fun t _ hst => (hf ⟨⟩ (g t) (hg t hst)).mono hle

/-- Going past a token leads to the one that follows. -/
theorem past_bump {s : State} (hs : s.Past lo)
    (h : (s.current.token = .finish || s.stuck) = false) :
    ∃ t, bump s = .ok ⟨⟩ t ∧ t.Past (lo.to s.rest.offset) ∧ t.previous = s.current.span := by
  -- The issues of the token are noted first, which leaves all tokens as they are.
  obtain ⟨-, t, hst, hrun⟩ := exists_run_of_keeps (p := s.current.issues.forM noteIssue)
    (fun _ => modify fun t : State => t.goOn s.current.span (lex false s.rest)) s
  have hstop : s.current.span.stop = s.rest.offset := congrArg Span.stop hs.span
  rw [Bool.or_eq_false_iff] at h
  have hbump : bump s = .ok ⟨⟩ (t.goOn s.current.span (lex false s.rest)) := by
    unfold bump
    show (ite _ _ _ : Parse Unit) s = _
    rw [if_neg (by rw [h.1, h.2]; decide)]
    exact hrun
  refine ⟨_, hbump, ?_, rfl⟩
  exact State.past_goOn s.current.span false (hs.start.ahead hs.rest) hstop.symm
    (fun hlo => hst.noted (hs.noted hlo)) (hst.stuck.trans h.2)

/-- Going past the token is going on. -/
theorem State.Past.le_rest {s : State} (hs : s.Past lo) : lo ≤ lo.to s.rest.offset :=
  Progress.le_to (Nat.le_trans hs.low hs.passed)

/-- A parser in front of a word or a name is not stuck, nor at the end. -/
theorem not_stuck_of_word {s : State} (hs : s.Past lo)
    (hword : s.current.token.identifier?.isSome = true) :
    (s.current.token = .finish || s.stuck) = false := by
  rw [Bool.or_eq_false_iff, decide_eq_false_iff_not]
  constructor
  · intro hfinish
    rw [hfinish] at hword
    cases hword
  · cases hstuck : s.stuck with
    | false => rfl
    | true =>
        have hbad := hs.stuck hstuck
        rw [Token.isBad_of_identifier hword] at hbad
        cases hbad

/-- Going past a word or a name, whose range is known then. -/
theorem YieldsAt.wordRange {f : Span → Parse β} (hword : l.token.identifier?.isSome = true)
    (hf : ∀ mid, lo ≤ mid → lo.offset ≤ l.span.start → l.span.start < mid.offset →
      Yields mid (f l.span) R) :
    YieldsAt l lo (do bump; f (← previous)) R := by
  intro s hs hl
  rw [← hl] at hword hf
  obtain ⟨t, hrun, ht, hprevious⟩ := past_bump hs (not_stuck_of_word hs hword)
  have hready := hs.ready (Token.isBad_of_identifier hword)
  have hstart : s.current.span.start = s.start.offset := congrArg Span.start hs.span
  have hrest := hf (lo.to s.rest.offset) hs.le_rest (hstart ▸ Nat.le_trans hs.low hready)
    (hstart ▸ hs.word hword) t ht
  show Reaches lo R (EStateM.bind bump _ s)
  unfold EStateM.bind
  rw [hrun]
  show Reaches lo R (f t.previous t)
  rw [hprevious]
  exact hrest.mono hs.le_rest

/-- Going past a word or a name goes past where it begins. -/
theorem YieldsAt.word {f : PUnit → Parse β} (hword : l.token.identifier?.isSome = true)
    (hf : ∀ mid, lo ≤ mid → lo.offset ≤ l.span.start → l.span.start < mid.offset →
      Yields mid (f ⟨⟩) R) :
    YieldsAt l lo (bump >>= f) R :=
  YieldsAt.wordRange (f := fun _ => f ⟨⟩) hword hf

/-! ## §5. Tokens. -/

instance : Moves bump := by
  refine ⟨fun lo s hs => ?_⟩
  cases h : s.current.token = .finish || s.stuck with
  | false =>
      obtain ⟨t, hrun, ht, -⟩ := past_bump hs h
      rw [hrun]
      exact ⟨_, hs.le_rest, ht, trivial⟩
  | true =>
      have hrun : bump s = .ok ⟨⟩ s := by
        unfold bump
        show (ite _ _ _ : Parse Unit) s = _
        rw [if_pos h]
        rfl
      rw [hrun]
      exact ⟨lo, le_refl lo, hs, trivial⟩

instance : Moves dropBad := by
  unfold dropBad
  refine .bind fun t => ?_
  split <;> infer_instance

instance (issue : Issue) (offset : Nat) : Moves (report issue offset) := by
  unfold report; infer_instance

instance : Moves required := by
  unfold required
  refine .bind fun t => ?_
  split <;> infer_instance

/-- The current token, if it is one. -/
theorem YieldsAt.required {f : Token → Parse β}
    (hf : l.token ≠ .finish → l.token.isBad = false → YieldsAt l lo (f l.token) R) :
    YieldsAt l lo (required >>= f) R := by
  have hstop : ∀ {fault : Fault}, Yields lo (MonadExcept.throw fault >>= f) R := .stop .throw
  unfold Script.required
  rw [bind_assoc]
  refine .token ?_
  -- At the end and in front of what is no token the parser stops; any token is handed on.
  cases htoken : l.token
  case finish =>
    rw [bind_assoc]
    exact .keep fun s => hstop.at
  case bad fault =>
    rw [bind_assoc]
    exact (Yields.skip fun _ => hstop).at
  all_goals
    rw [htoken] at hf
    exact hf nofun rfl

/-- The range from a given offset on. -/
theorem Yields.spanFrom {start : Nat} {f : Span → Parse β}
    (hf : ∀ stop, Yields lo (f ⟨start, stop⟩) R) : Yields lo (spanFrom start >>= f) R :=
  fun s hs => hf s.previous.stop s hs

/-- A tree whose range has been read. -/
theorem Yields.close {start : Nat} {g : Span → β} (h : ∀ span, R (g span) lo) :
    Yields lo (do return g (← Script.spanFrom start)) R := .skip fun span => .pure (h span)

/-- What stops yields anything. -/
theorem Yields.fail {issue : Issue} {offset : Nat} : Yields lo (fail issue offset : Parse α) Q :=
  .skip fun _ => .throw

theorem Yields.failHere {issue : Issue} : Yields lo (failHere issue : Parse α) Q :=
  .skip fun _ => .fail

theorem Yields.unexpected {wanted : String} : Yields lo (unexpected wanted : Parse α) Q :=
  .skip fun _ => .failHere

instance (issue : Issue) (offset : Nat) : Moves (fail issue offset : Parse α) := ⟨fun _ => .fail⟩

instance (issue : Issue) : Moves (failHere issue : Parse α) := ⟨fun _ => .failHere⟩

instance (wanted : String) : Moves (unexpected wanted : Parse α) := ⟨fun _ => .unexpected⟩

instance (issue : Issue) : Moves (reportHere issue) := by unfold reportHere; infer_instance

instance (t : Token) : Moves (eatToken t) := by unfold eatToken; infer_instance

instance (m : Mark) : Moves (eatMark m) := by unfold eatMark; infer_instance

instance (w : Word) : Moves (eatWord w) := by unfold eatWord; infer_instance

instance (m : Mark) : Moves (expectMark m) := by unfold expectMark; infer_instance

instance (w : Word) : Moves (expectWord w) := by unfold expectWord; infer_instance

instance : Moves eatSemicolon := by unfold eatSemicolon; infer_instance

instance : Moves expectSemicolon := by unfold expectSemicolon; infer_instance

/-! ## §6. Combinators. -/

/-- A run between changes that leave the tokens alone. -/
theorem Yields.wrap (enter : State → State) (leave : State → State → State)
    (henter : ∀ s, State.SameTokens s (enter s)) (hleave : ∀ s t, State.SameTokens t (leave s t))
    (hp : Yields lo p Q) :
    Yields lo (fun s =>
      match p (enter s) with
      | .ok a t => .ok a (leave s t)
      | .error e t => .error e (leave s t)) Q := by
  intro s hs
  have hrun := hp (enter s) (hs.same (henter s))
  cases hps : p (enter s) with
  | error e t =>
      rw [hps] at hrun
      simp only [hps]
      exact State.Past.same hrun (hleave s t)
  | ok a t =>
      rw [hps] at hrun
      obtain ⟨hi, hhi, ht, hQ⟩ := hrun
      simp only [hps]
      exact ⟨hi, hhi, ht.same (hleave s t), hQ⟩

/-- A context changes no token, neither where it is entered nor where it is left. -/
theorem Yields.within {change : Context → Context} (hp : Yields lo p Q) :
    Yields lo (within change p) Q :=
  hp.wrap (fun s => { s with context := change s.context }) (fun s t =>
    { t with context := s.context })
    (fun _ => ⟨rfl, rfl, rfl, rfl, rfl, id⟩) fun _ _ => ⟨rfl, rfl, rfl, rfl, rfl, id⟩

theorem Yields.withIn {allowed : Bool} (hp : Yields lo p Q) : Yields lo (withIn allowed p) Q :=
  .within hp

instance {change : Context → Context} [hp : Moves p] : Moves (within change p) :=
  ⟨fun lo => (hp.yields lo).within⟩

instance {allowed : Bool} [hp : Moves p] : Moves (withIn allowed p) :=
  ⟨fun lo => (hp.yields lo).withIn⟩

/-- A fault that is caught leaves the state where it was found. -/
theorem YieldsAt.tryCatch {handle : Fault → Parse α} (hp : YieldsAt l lo p Q)
    (hhandle : ∀ fault, Yields lo (handle fault) Q) :
    YieldsAt l lo (MonadExcept.tryCatch p handle) Q := by
  intro s hs hl
  have hrun := hp s hs hl
  show Reaches lo Q (EStateM.tryCatch p handle s)
  unfold EStateM.tryCatch
  cases hps : p s with
  | error e t =>
      rw [hps] at hrun
      exact hhandle e t hrun
  | ok a t =>
      rw [hps] at hrun
      exact hrun

/-- A fault is handled where the parser has come to, which is no farther back. -/
theorem Yields.tryCatch {handle : Fault → Parse α} (hp : Yields lo p Q)
    (hhandle : ∀ fault, Yields lo (handle fault) Q) :
    Yields lo (MonadExcept.tryCatch p handle) Q := .of_at fun _ => hp.at.tryCatch hhandle

instance {handle : Fault → Parse α} [hp : Moves p] [hhandle : ∀ fault, Moves (handle fault)] :
    Moves (tryCatch p handle) :=
  ⟨fun lo => .tryCatch (hp.yields lo) fun fault => (hhandle fault).yields lo⟩

/-- A mark that stands here is gone past. -/
theorem eatMark_of_token {m : Mark} {s : State} (h : s.current.token = .mark m) :
    eatMark m s = (do bump; return true : Parse Bool) s := by
  show (ite _ _ _ : Parse Bool) s = _
  rw [if_pos h]

/-- If it does not stand here nothing happens. -/
theorem eatMark_of_not_token {m : Mark} {s : State} (h : s.current.token ≠ .mark m) :
    eatMark m s = .ok false s := by
  show (ite _ _ _ : Parse Bool) s = _
  rw [if_neg h]
  rfl

/-- What follows if the mark is passed, and what follows if it does not stand here. -/
theorem YieldsAt.ifEat {m : Mark} {q r : Parse β} (h : l.token = .mark m → Yields lo q R)
    (h' : l.token ≠ .mark m → YieldsAt l lo r R) :
    YieldsAt l lo (do if ← eatMark m then q else r) R := by
  intro s hs hl
  by_cases hm : l.token = .mark m
  · -- The mark is eaten, and what is returned says so.
    have heaten : Reaches lo (fun eaten _ => eaten = true) (eatMark m s) := by
      rw [eatMark_of_token (hl ▸ hm)]
      exact Yields.skip (p := bump) (R := fun eaten _ => eaten = true) (fun _ => .pure rfl) s hs
    refine heaten.next fun eaten mid t hmid ht heq => ?_
    rw [if_pos heq]
    exact h hm t (ht.mono hmid)
  · show Reaches lo R (EStateM.bind _ _ s)
    unfold EStateM.bind
    rw [eatMark_of_not_token (hl ▸ hm)]
    exact h' hm s hs hl

/-- Repeating a step keeps what the step keeps. -/
theorem Yields.iterate {step : α → Parse (α × Bool)} {a : α} (h : Q a lo)
    (hstep : ∀ a lo, Q a lo → Yields lo (step a) fun r hi => Q r.1 hi) :
    Yields lo (iterate step a) Q := by
  -- By induction on the fuel; what the step keeps is carried from one round to the next.
  have hfuel : ∀ fuel lo a, Q a lo → Yields lo (iterateFrom step fuel a) Q := by
    intro fuel
    induction fuel with
    | zero => exact fun lo a _ => .skip fun _ => .throw
    | succ fuel ih =>
        intro lo a ha
        refine .bind (hstep a lo ha) fun r mid hr => ?_
        obtain ⟨b, done⟩ := r
        cases done with
        | true => exact .pure hr
        | false => exact ih mid b hr
  exact .skip fun fuel => hfuel fuel lo a h

/-- The parser reads a tree that is placed where it has been read. -/
def YieldsTree (ok : Kind → Bool) (p : Parse Node) : Prop :=
  ∀ {lo}, Yields lo p fun n hi => n.Placed ok lo hi

/-- A parser that reads a tree reads on. -/
theorem YieldsTree.moves {ok : Kind → Bool} {p : Parse Node} (hp : YieldsTree ok p) : Moves p :=
  ⟨fun _ => hp.weaken fun _ _ _ => trivial⟩

/-- The parser reads trees that are placed where they have been read. -/
def YieldsTrees (ok : Kind → Bool) (p : Parse (List Node)) : Prop :=
  ∀ {lo}, Yields lo p fun ns hi => AllPlaced ok lo hi ns

/-- A tree that is read if something is found. -/
theorem Yields.ifFound {ok : Kind → Bool} {c : Prop} {_ : Decidable c} {q : Parse Node}
    {f : List Node → Parse β} (hq : YieldsTree ok q)
    (hf : ∀ ns hi, AllPlaced ok lo hi ns → Yields hi (f ns) R) :
    Yields lo (if c then do f (← Pure.pure [← q]) else do f (← Pure.pure [])) R :=
  .ite (fun _ => .bind hq fun n hi hn => hf [n] hi (.singleton hn))
    fun _ => hf [] lo (.nil (le_refl lo))

/-- A tree that is read unless something is found. -/
theorem Yields.unlessFound {ok : Kind → Bool} {c : Prop} {_ : Decidable c} {q : Parse Node}
    {f : List Node → Parse β} (hq : YieldsTree ok q)
    (hf : ∀ ns hi, AllPlaced ok lo hi ns → Yields hi (f ns) R) :
    Yields lo (if c then do f (← Pure.pure []) else do f (← Pure.pure [← q])) R :=
  .ite (fun _ => hf [] lo (.nil (le_refl lo)))
    fun _ => .bind hq fun n hi hn => hf [n] hi (.singleton hn)

/-- What is found, if something is, is placed. -/
def FoundPlaced (ok : Kind → Bool) (lo : Progress) : Option Node → Progress → Prop
  | none, _ => True
  | some n, hi => n.Placed ok lo hi

/-- A tree that may have been found is a list of at most one. -/
theorem FoundPlaced.toList {ok : Kind → Bool} {found : Option Node} {hi : Progress}
    (h : FoundPlaced ok lo found hi) (hle : lo ≤ hi) : AllPlaced ok lo hi found.toList := by
  cases found with
  | none => exact .nil hle
  | some n => exact .singleton h

/-- Trees that are read one after the other. -/
theorem YieldsTrees.many (ok : Kind → Bool) {p : Parse (Option Node)}
    (hp : ∀ lo, Yields lo p (FoundPlaced ok lo)) : YieldsTrees ok (many p) := by
  -- Each round begins where the one before has ended, so the trees are in order.
  have hfuel : ∀ fuel lo, Yields lo (manyFrom p fuel) fun ns hi => AllPlaced ok lo hi ns := by
    intro fuel
    induction fuel with
    | zero => exact fun lo => .skip fun _ => .throw
    | succ fuel ih =>
        intro lo
        refine .bind (hp lo).low fun found mid hfound => ?_
        cases found with
        | none => exact .pure (.nil hfound.1)
        | some n =>
            refine .bind (ih mid) fun ns hi hns => ?_
            exact .pure (.cons hfound.2 hns)
  exact fun {lo} => Yields.skip (p := tokensLeft) fun fuel => hfuel fuel lo

/-- Repeating a parser reads on if the parser does. -/
theorem Moves.many {p : Parse (Option α)} (hp : Moves p) : Moves (many p) := by
  have hfuel : ∀ fuel, Moves (manyFrom p fuel) := by
    intro fuel
    induction fuel with
    | zero => unfold manyFrom; infer_instance
    | succ fuel ih =>
        refine .bind fun found => ?_
        split <;> infer_instance
  exact .bind hfuel

instance {p : Parse (Option α)} [hp : Moves p] : Moves (many p) := .many hp

/-- Trees that a loop collects, together with something else that it keeps. -/
theorem Yields.collected (ok : Kind → Bool) {γ : Type} {x : γ}
    {step : List Node × γ → Parse ((List Node × γ) × Bool)}
    (hstep : ∀ ns x mid, AllPlaced ok lo mid ns →
      Yields mid (step (ns, x)) fun r hi => AllPlaced ok lo hi r.1.1) :
    Yields lo (Script.iterate step ([], x)) fun r hi => AllPlaced ok lo hi r.1 :=
  .iterate (.nil (le_refl lo)) fun (ns, x) mid hns => hstep ns x mid hns

/-- What follows a loop that collects trees. -/
theorem Yields.collect (ok : Kind → Bool) {γ : Type} {x : γ}
    {step : List Node × γ → Parse ((List Node × γ) × Bool)} {f : List Node × γ → Parse β}
    (hstep : ∀ ns x mid, AllPlaced ok lo mid ns →
      Yields mid (step (ns, x)) fun r hi => AllPlaced ok lo hi r.1.1)
    (hf : ∀ ns x hi, AllPlaced ok lo hi ns → Yields hi (f (ns, x)) R) :
    Yields lo (Script.iterate step ([], x) >>= f) R :=
  .bind (.collected ok hstep) fun (ns, x) hi hns => hf ns x hi hns

/-! ## §7. Grammars. -/

/-- The rule reads something that may be a pattern. -/
def Rule.isPattern : Rule → Bool
  | .pattern => true
  | _ => false

/-- The range of the tree begins at the offset. -/
def BeginsAt (start : Nat) (n : Node) : Prop := n.span.start = start

/-- The tree has been read from the token on: it begins where the token does, unless a
fault has been noted, after which something else may stand in for it. -/
structure Lexeme.Opens (l : Lexeme) (n : Node) (hi : Progress) : Prop where
  notFinish : l.token ≠ .finish
  notBad : l.token.isBad = false
  start : hi.noted = false → BeginsAt l.span.start n

/-- What has been noted farther on includes what has been noted here. -/
theorem Lexeme.Opens.mono {l : Lexeme} {n : Node} {mid hi : Progress} (h : l.Opens n mid)
    (hle : mid ≤ hi) : l.Opens n hi :=
  { h with start := fun hclean => h.start (Progress.clean_of_le hle hclean) }

/-- Whatever the parser returns where its current token is the given one satisfies the
condition. -/
def ReturnsAt {α : Type} (l : Lexeme) (p : Parse α) (P : α → Prop) : Prop :=
  ∀ lo s a t, State.Past lo s → s.current = l → p s = .ok a t → P a

/-- The rules are those of the grammar to some depth.  They read trees that are placed
where they have been read, and an expression begins where its first token does. -/
structure Rules.Placed (rules : Rules) : Prop where
  depth : ∃ depth, rules = grammarTo depth
  value : ∀ {rule : Rule}, rule.isPattern = false → YieldsTree Kind.isValue (rules rule)
  pattern : YieldsTree Kind.isPart (rules .pattern)
  opens : ∀ {l lo}, YieldsAt l lo (rules .assignment) l.Opens
  operand : ∀ {l}, l.token ≠ .finish →
    ReturnsAt l (rules .unary) (BeginsAt l.span.start)

variable {rules : Rules}

/-- An expression with commas at its outside is a sequence of those without. -/
theorem expression_placed (h : rules.Placed) : YieldsTree Kind.isValue (expression rules) := by
  intro lo
  unfold expression
  refine .bind (h.value rfl) fun first mid hfirst => .skip fun more => .ite (fun _ =>
    ?_) fun _ => ?_
  · refine .bind (YieldsTrees.many Kind.isValue fun lo => ?_) fun ns hi hns => ?_
    · refine .skip fun comma => .ite (fun _ => ?_) fun _ => .pure trivial
      exact .bind (h.value rfl) fun n hi hn => .pure hn
    · exact .skip fun span => .pure (.ofUnbound rfl rfl (.cons hfirst.unbound hns.unbound))
  · exact .pure hfirst

end AmdKit.Script
