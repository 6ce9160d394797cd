import LuaFront.Proofs.Syntax.Grammar
import LuaFront.Proofs.Syntax.Labels
import LuaFront.Proofs.Token.Order

/-!
# LuaFront.Proofs.Syntax.Reading

What readers of tokens do, said by total correctness: `Yields m r Q` says that the reader `m`,
started at `r`, gives a result, and that `Q` holds of the result and of the reading after it.

* `Reading.fetched`: the buffer and the lexer hand out the lexemes ahead, one after the other.
  Consuming a token (`Reading.taken`) takes the first of them away, and looking at it
  (`Reading.looked`) leaves it ahead.
* `Reading.Sound`: the tokens that are left are in the order of the text and end in the end of file.
* `Reading.Advances r r'`: from `r` to `r'` tokens were consumed, and diagnostics only added.
* `Reading.Reads G r r'`: besides, if nothing was reported then the consumed tokens are as the
  relation `G` says.

`Yields.loop` is the rule for loops: an invariant, and fewer tokens left after every turn.
-/

namespace LuaFront
namespace Syntax

open Text (Span)
open Grammar (Terminal Word)

/-! ## Readings -/

namespace Reading

@[simp] theorem ahead_mk (current : Token) (buffer : Option Lexeme) (unread : List Lexeme)
    (previousEnd : Nat) (journal : Journal) :
    (Reading.mk current buffer unread previousEnd journal).ahead = buffer.toList ++ unread := rfl

@[simp] theorem buffer_append_unread (r : Reading) : r.buffer.toList ++ r.unread = r.ahead := rfl

/-- The tokens that are left, the current one first. -/
def tokens (r : Reading) : List Token := r.current :: r.ahead.map Lexeme.token

def diagnostics (r : Reading) : List Diagnostic := r.journal.diagnostics

/-- Nothing was reported so far. -/
def Silent (r : Reading) : Prop := r.diagnostics = []

structure Sound (r : Reading) : Prop where
  ordered : Token.Ordered r.previousEnd r.tokens
  spelled : ∀ t ∈ r.tokens, Scanner.Spelled t

structure Advances (r r' : Reading) : Prop where
  tokens : r'.tokens <:+ r.tokens
  ahead : r'.ahead <:+ r.ahead
  diagnostics : r.diagnostics <+: r'.diagnostics

namespace Advances

theorem refl (r : Reading) : Advances r r :=
  ⟨List.suffix_refl _, List.suffix_refl _, List.prefix_refl _⟩

theorem trans {r₁ r₂ r₃ : Reading} (h₁ : Advances r₁ r₂) (h₂ : Advances r₂ r₃) :
    Advances r₁ r₃ :=
  ⟨h₂.tokens.trans h₁.tokens, h₂.ahead.trans h₁.ahead, h₁.diagnostics.trans h₂.diagnostics⟩

theorem length_le {r r' : Reading} (h : Advances r r') : r'.tokens.length ≤ r.tokens.length :=
  h.tokens.length_le

theorem silent {r r' : Reading} (h : Advances r r') (hs : r'.Silent) : r.Silent := by
  have := h.diagnostics
  rw [show r'.diagnostics = [] from hs] at this
  exact List.prefix_nil.1 this

end Advances

/-- What is known after a construct was read: where reading goes on, and, unless something was
reported, that the consumed tokens are as `G` says. -/
structure Reads (G : List Token → List Token → Prop) (r r' : Reading) : Prop where
  sound : r'.Sound
  advances : Advances r r'
  derives : r'.Silent → G r.tokens r'.tokens

namespace Reads

variable {G H : List Token → List Token → Prop} {r r₁ r₂ : Reading}

theorem length_le (h : Reads G r r₁) : r₁.tokens.length ≤ r.tokens.length := h.advances.length_le

/-- One construct behind another. -/
theorem comp (h₁ : Reads G r r₁) (h₂ : Reads H r₁ r₂) : Reads (Relation.Comp G H) r r₂ :=
  ⟨h₂.sound, h₁.advances.trans h₂.advances,
    fun hs => ⟨_, h₁.derives (h₂.advances.silent hs), h₂.derives hs⟩⟩

theorem imp (h : Reads G r r₁) (himp : ∀ i o, G i o → H i o) : Reads H r r₁ :=
  ⟨h.sound, h.advances, fun hs => himp _ _ (h.derives hs)⟩

theorem refl (h : r.Sound) : Reads Eq r r := ⟨h, .refl r, fun _ => rfl⟩

end Reads
end Reading

/-! ## Total correctness -/

namespace Read

variable {α β σ : Type}

def Yields (m : Read α) (r : Reading) (Q : α → Reading → Prop) : Prop :=
  ∃ a r', m.run r = some (a, r') ∧ Q a r'

theorem Yields.imp {m : Read α} {r : Reading} {Q Q' : α → Reading → Prop} (h : Yields m r Q)
    (himp : ∀ a r', Q a r' → Q' a r') : Yields m r Q' := by
  obtain ⟨a, r', hrun, hq⟩ := h
  exact ⟨a, r', hrun, himp a r' hq⟩

/-- A reader has one result, so whatever is known of it may be joined. -/
theorem Yields.and {m : Read α} {r : Reading} {Q Q' : α → Reading → Prop} (h : Yields m r Q)
    (h' : Yields m r Q') : Yields m r fun a r' => Q a r' ∧ Q' a r' := by
  obtain ⟨a, r₁, hrun, hq⟩ := h
  obtain ⟨a', r₂, hrun', hq'⟩ := h'
  rw [hrun] at hrun'
  cases hrun'
  exact ⟨a, r₁, hrun, hq, hq'⟩

@[simp] theorem yields_pure (a : α) (r : Reading) (Q : α → Reading → Prop) :
    Yields (pure a) r Q ↔ Q a r := by
  constructor
  · rintro ⟨_, _, h, hq⟩
    cases h
    exact hq
  · intro hq
    exact ⟨a, r, rfl, hq⟩

@[simp] theorem yields_bind (m : Read α) (k : α → Read β) (r : Reading) (Q : β → Reading → Prop) :
    Yields (m >>= k) r Q ↔ Yields m r fun a r' => Yields (k a) r' Q := by
  constructor
  · rintro ⟨b, r₂, h, hq⟩
    rw [StateT.run_bind] at h
    obtain ⟨⟨a, r₁⟩, hm, hk⟩ := Option.bind_eq_some_iff.1 h
    exact ⟨a, r₁, hm, b, r₂, hk, hq⟩
  · rintro ⟨a, r₁, hm, b, r₂, hk, hq⟩
    refine ⟨b, r₂, ?_, hq⟩
    rw [StateT.run_bind]
    exact Option.bind_eq_some_iff.2 ⟨(a, r₁), hm, hk⟩

@[simp] theorem yields_map (f : α → β) (m : Read α) (r : Reading) (Q : β → Reading → Prop) :
    Yields (f <$> m) r Q ↔ Yields m r fun a r' => Q (f a) r' := by
  rw [map_eq_pure_bind, yields_bind]
  simp only [yields_pure]

@[simp] theorem yields_ite (c : Prop) [Decidable c] (m m' : Read α) (r : Reading)
    (Q : α → Reading → Prop) :
    Yields (if c then m else m') r Q ↔ if c then Yields m r Q else Yields m' r Q := by
  split <;> rfl

@[simp] theorem yields_get (r : Reading) (Q : Reading → Reading → Prop) :
    Yields get r Q ↔ Q r r := by
  constructor
  · rintro ⟨_, _, h, hq⟩
    cases h
    exact hq
  · intro hq
    exact ⟨r, r, rfl, hq⟩

@[simp] theorem yields_set (r r' : Reading) (Q : PUnit → Reading → Prop) :
    Yields (set r') r Q ↔ Q ⟨⟩ r' := by
  constructor
  · rintro ⟨_, _, h, hq⟩
    cases h
    exact hq
  · intro hq
    exact ⟨⟨⟩, r', rfl, hq⟩

@[simp] theorem yields_kind (r : Reading) (Q : Kind → Reading → Prop) :
    Yields kind r Q ↔ Q r.current.kind r := by
  simp [kind]

@[simp] theorem yields_start (r : Reading) (Q : Nat → Reading → Prop) :
    Yields start r Q ↔ Q r.current.span.start r := by
  simp [start]

@[simp] theorem yields_span (r : Reading) (Q : Span → Reading → Prop) :
    Yields span r Q ↔ Q r.current.span r := by
  simp [span]

@[simp] theorem yields_spanFrom (n : Nat) (r : Reading) (Q : Span → Reading → Prop) :
    Yields (spanFrom n) r Q ↔ Q ⟨n, max r.previousEnd n⟩ r := by
  simp [spanFrom]

/-- The rule for a loop of at most `turns` turns. -/
theorem Yields.loopWith {step : σ → Read (σ ⊕ α)} {Inv : σ → Reading → Prop}
    {Q : α → Reading → Prop}
    (hstep : ∀ a r, Inv a r → Yields (step a) r fun x r' =>
      match x with
      | .inl a' => Inv a' r' ∧ r'.tokens.length < r.tokens.length
      | .inr b => Q b r')
    (turns : Nat) (a : σ) (r : Reading) (hturns : r.tokens.length ≤ turns) (h : Inv a r) :
    Yields (Read.loopWith step turns a) r Q := by
  induction turns generalizing a r with
  | zero => simp [Reading.tokens] at hturns
  | succ turns ih =>
    rw [Read.loopWith, yields_bind]
    refine (hstep a r h).imp fun x r' hx => ?_
    cases x with
    | inl a' => exact ih a' r' (by omega) hx.1
    | inr b =>
      rw [yields_pure]
      exact hx

/-- The rule for a loop: an invariant, and fewer tokens left after every turn. -/
theorem Yields.loop {step : σ → Read (σ ⊕ α)} {a : σ} {r : Reading} {Q : α → Reading → Prop}
    (Inv : σ → Reading → Prop) (h : Inv a r)
    (hstep : ∀ a r, Inv a r → Yields (step a) r fun x r' =>
      match x with
      | .inl a' => Inv a' r' ∧ r'.tokens.length < r.tokens.length
      | .inr b => Q b r') :
    Yields (Read.loop step a) r Q := by
  rw [Read.loop, yields_bind, yields_get]
  exact Yields.loopWith hstep _ a r (by simp [Reading.tokens]) h

end Read

/-! ## Fetching lexemes -/

namespace Reading

variable {r : Reading} {l : Lexeme} {ahead : List Lexeme}

/-- What is noted once `l`, the next lexeme, was fetched, where `j` was noted before. What is wrong
with a lexeme in the buffer was noted when it came there. -/
def noted (r : Reading) (l : Lexeme) (j : Journal) : Journal :=
  if r.buffer.isSome then j else j.reportAll l.diagnostics

/-- The reading after the next lexeme was fetched. -/
def fetched (r : Reading) : Reading :=
  match r.ahead with
  | [] => r
  | l :: ahead => { r with buffer := none, unread := ahead, journal := r.noted l r.journal }

/-- The reading after the current token was consumed. -/
def taken (r : Reading) : Reading :=
  let journal := r.journal.record (.took r.current)
  let previousEnd := max r.previousEnd r.current.span.stop
  match r.ahead with
  | [] => { r with previousEnd, journal }
  | l :: ahead =>
    { current := l.token, buffer := none, unread := ahead, previousEnd
      journal := r.noted l journal }

/-- The reading after the next token was looked at. -/
def looked (r : Reading) : Reading :=
  match r.ahead with
  | [] => r
  | l :: ahead => { r with buffer := some l, unread := ahead, journal := r.noted l r.journal }

theorem ahead_fetched (r : Reading) : r.fetched.ahead = r.ahead.tail := by
  unfold fetched
  cases h : r.ahead with
  | nil => simpa using h
  | cons l ahead => rfl

theorem ahead_taken (r : Reading) : r.taken.ahead = r.ahead.tail := by
  unfold taken
  cases h : r.ahead with
  | nil => simpa using h
  | cons l ahead => rfl

theorem current_taken (r : Reading) :
    r.taken.current = (r.ahead.head?.map Lexeme.token).getD r.current := by
  unfold taken
  cases r.ahead <;> rfl

@[simp] theorem ahead_looked (r : Reading) : r.looked.ahead = r.ahead := by
  unfold looked
  cases h : r.ahead with
  | nil => simpa using h
  | cons l ahead => rfl

@[simp] theorem current_looked (r : Reading) : r.looked.current = r.current := by
  unfold looked
  split <;> rfl

@[simp] theorem previousEnd_looked (r : Reading) : r.looked.previousEnd = r.previousEnd := by
  unfold looked
  split <;> rfl

@[simp] theorem tokens_looked (r : Reading) : r.looked.tokens = r.tokens := by
  rw [tokens, tokens, current_looked, ahead_looked]

theorem looked_of_cons (h : r.ahead = l :: ahead) :
    r.looked = { r with buffer := some l, unread := ahead, journal := r.noted l r.journal } := by
  simp only [looked, h]

theorem diagnostics_noted (r : Reading) (l : Lexeme) (j : Journal) :
    ∃ ds ⊆ l.diagnostics, (r.noted l j).diagnostics = j.diagnostics ++ ds := by
  unfold noted
  split
  · exact ⟨[], List.nil_subset _, (List.append_nil _).symm⟩
  · exact ⟨l.diagnostics, List.Subset.refl _, Journal.diagnostics_reportAll ..⟩

/-- Nothing is reported on the way to the next token but what is wrong with it. -/
theorem diagnostics_taken (r : Reading) :
    ∃ ds, (∀ d ∈ ds, ∃ l ∈ r.ahead, d ∈ l.diagnostics) ∧
      r.taken.diagnostics = r.diagnostics ++ ds := by
  have hrecord : (r.journal.record (.took r.current)).diagnostics = r.diagnostics := by
    simp [diagnostics, Event.diagnostic?]
  unfold taken
  cases ha : r.ahead with
  | nil => exact ⟨[], by simp, by rw [List.append_nil, ← hrecord]; rfl⟩
  | cons l ahead =>
    obtain ⟨ds, hds, hnoted⟩ := r.diagnostics_noted l (r.journal.record (.took r.current))
    exact ⟨ds, fun d hd => ⟨l, List.mem_cons_self, hds hd⟩, by rw [← hrecord, ← hnoted]; rfl⟩

theorem diagnostics_looked (r : Reading) :
    ∃ ds, (∀ d ∈ ds, ∃ l ∈ r.ahead, d ∈ l.diagnostics) ∧
      r.looked.diagnostics = r.diagnostics ++ ds := by
  unfold looked
  cases ha : r.ahead with
  | nil => exact ⟨[], by simp, (List.append_nil _).symm⟩
  | cons l ahead =>
    obtain ⟨ds, hds, hnoted⟩ := r.diagnostics_noted l r.journal
    exact ⟨ds, fun d hd => ⟨l, List.mem_cons_self, hds hd⟩, hnoted⟩

theorem noted_of_quiet (hl : l.diagnostics = []) (r : Reading) (j : Journal) : r.noted l j = j := by
  simp [noted, hl, Journal.reportAll]

/-- Where nothing is wrong with the tokens ahead, nothing is noted of them. -/
theorem journal_looked (h : ∀ l ∈ r.ahead, l.diagnostics = []) : r.looked.journal = r.journal := by
  unfold looked
  cases ha : r.ahead with
  | nil => rfl
  | cons l ahead => exact noted_of_quiet (h l (by simp [ha])) ..

theorem journal_taken (h : ∀ l ∈ r.ahead, l.diagnostics = []) :
    r.taken.journal = r.journal.record (.took r.current) := by
  unfold taken
  cases ha : r.ahead with
  | nil => rfl
  | cons l ahead => exact noted_of_quiet (h l (by simp [ha])) ..

theorem Sound.looked (h : r.Sound) : r.looked.Sound := by
  refine ⟨?_, ?_⟩
  · rw [tokens_looked, previousEnd_looked]
    exact h.ordered
  · rw [tokens_looked]
    exact h.spelled

end Reading

namespace Read

/-- The buffer and the lexer together hand out the next lexeme. None is lost or handed out twice,
since all but that one are still ahead. -/
theorem run_fetch (r : Reading) : fetch.run r = some (r.ahead.head?, r.fetched) := by
  obtain ⟨current, buffer, unread, previousEnd, journal⟩ := r
  cases buffer with
  | some l => rfl
  | none => cases unread <;> rfl

theorem run_take (r : Reading) : take.run r = some (r.current, r.taken) := by
  unfold take
  simp only [StateT.run_bind, StateT.run_get, StateT.run_modify, run_fetch, Option.pure_def,
    Option.bind_eq_bind, Option.bind_some, Reading.fetched, Reading.taken, Reading.ahead_mk,
    Reading.buffer_append_unread]
  cases r.ahead <;> rfl

theorem run_peekKind (r : Reading) :
    peekKind.run r = some ((r.ahead.head?.map (·.token.kind)).getD r.current.kind, r.looked) := by
  unfold peekKind
  rw [StateT.run_bind, run_fetch]
  unfold Reading.fetched Reading.looked
  cases r.ahead <;> rfl

end Read

/-! ## Consuming tokens -/

namespace Reading

theorem advances_taken (r : Reading) : r.Advances r.taken := by
  obtain ⟨ds, -, hdiagnostics⟩ := r.diagnostics_taken
  refine ⟨?_, ?_, by rw [hdiagnostics]; exact List.prefix_append ..⟩
  · unfold taken
    cases h : r.ahead <;> simp [tokens, h]
  · rw [ahead_taken]
    exact List.tail_suffix _

theorem advances_looked (r : Reading) : r.Advances r.looked := by
  obtain ⟨ds, -, hdiagnostics⟩ := r.diagnostics_looked
  exact ⟨by simp, by simp, by rw [hdiagnostics]; exact List.prefix_append ..⟩

theorem Sound.start_ge {r : Reading} (h : r.Sound) : r.previousEnd ≤ r.current.span.start :=
  h.ordered.start_ge

theorem previousEnd_taken (r : Reading) :
    r.taken.previousEnd = max r.previousEnd r.current.span.stop := by
  unfold taken
  cases r.ahead <;> rfl

/-- Consuming a token other than the end of file leaves the tokens behind it. -/
theorem Sound.tokens_eq {r : Reading} (h : r.Sound) (hk : r.current.kind ≠ .endOfFile) :
    r.tokens = r.current :: r.taken.tokens := by
  have hrest := (h.ordered.tail hk).2
  unfold tokens taken
  cases ha : r.ahead with
  | nil =>
    rw [ha] at hrest
    cases hrest
  | cons l ahead => simp

/-- The end of file stays. -/
theorem Sound.tokens_taken {r : Reading} (h : r.Sound) (hk : r.current.kind = .endOfFile) :
    r.taken.tokens = r.tokens := by
  have hrest := (h.ordered.of_endOfFile hk).1
  rw [List.map_eq_nil_iff] at hrest
  simp [tokens, Reading.taken, hrest]

theorem Sound.taken {r : Reading} (h : r.Sound) : r.taken.Sound := by
  refine ⟨?_, fun t ht => h.spelled t ((advances_taken r).tokens.subset ht)⟩
  rw [previousEnd_taken]
  have hle := h.start_ge
  by_cases hk : r.current.kind = .endOfFile
  · have hord := h.ordered
    obtain ⟨hnil, hempty⟩ := hord.of_endOfFile hk
    rw [h.tokens_taken hk, tokens, hnil]
    exact .last hk (by omega) hempty
  · have hord := h.ordered
    rw [h.tokens_eq hk] at hord
    obtain ⟨hlt, hrest⟩ := hord.tail hk
    rw [Nat.max_eq_right (by omega)]
    exact hrest

theorem Sound.length_taken {r : Reading} (h : r.Sound) (hk : r.current.kind ≠ .endOfFile) :
    r.taken.tokens.length < r.tokens.length := by
  rw [h.tokens_eq hk]
  exact Nat.lt_succ_self _

/-- Where a token was consumed, the next one starts later. -/
theorem Sound.start_lt_taken {r : Reading} (h : r.Sound) (hk : r.current.kind ≠ .endOfFile) :
    r.current.span.start < r.taken.current.span.start := by
  have hlt := (h.ordered.tail hk).1
  have hnext := h.taken.start_ge
  rw [previousEnd_taken] at hnext
  omega

/-- Reading goes on at a later token if one was consumed. -/
theorem Sound.start_lt {r r' : Reading} (h : r.Sound) (ha : r.Advances r')
    (hlt : r'.tokens.length < r.tokens.length) :
    r.current.span.start < r'.current.span.start := by
  have hord := h.ordered
  rcases List.suffix_cons_iff.1 ha.tokens with heq | hs
  · rw [show r'.tokens = r.tokens from heq] at hlt
    omega
  · have hk : r.current.kind ≠ .endOfFile := by
      intro hk
      rw [(hord.of_endOfFile hk).1] at hs
      cases List.suffix_nil.1 hs
    obtain ⟨hpos, hrest⟩ := hord.tail hk
    have := hrest.start_ge_of_suffix hs
    omega

theorem Sound.start_le {r r' : Reading} (h : r.Sound) (ha : r.Advances r') :
    r.current.span.start ≤ r'.current.span.start := by
  rcases List.suffix_cons_iff.1 ha.tokens with heq | hs
  · exact Nat.le_of_eq (by rw [(List.cons.inj heq).1])
  · exact Nat.le_of_lt (h.start_lt ha (Nat.lt_succ_of_le hs.length_le))

end Reading

namespace Read

@[simp] theorem yields_take (r : Reading) (Q : Token → Reading → Prop) :
    Yields take r Q ↔ Q r.current r.taken := by
  constructor
  · rintro ⟨_, _, h, hq⟩
    rw [run_take] at h
    cases h
    exact hq
  · exact fun hq => ⟨_, _, run_take r, hq⟩

theorem yields_takeIf (k : Kind) (r : Reading) (Q : Bool → Reading → Prop) :
    Yields (takeIf k) r Q ↔ if r.current.kind = k then Q true r.taken else Q false r := by
  simp [takeIf]

end Read

namespace Reading

theorem reads_taken {r : Reading} (h : r.Sound) {k : Kind} (hk : r.current.kind = k)
    (hne : k ≠ .endOfFile) : r.Reads (Terminal k) r.taken where
  sound := h.taken
  advances := advances_taken r
  derives := fun _ => by
    rw [h.tokens_eq (hk ▸ hne)]
    exact .mk hk

/-- The same tokens are left. -/
structure Rests (r r' : Reading) : Prop where
  sound : r'.Sound
  current : r'.current = r.current
  ahead : r'.ahead = r.ahead
  diagnostics : r.diagnostics <+: r'.diagnostics

/-- The same tokens are left, but something was reported. -/
structure Stalls (r r' : Reading) : Prop extends Rests r r' where
  loud : ¬ r'.Silent

section

variable {G H : List Token → List Token → Prop} {r r' r'' : Reading}

theorem Rests.tokens_eq (h : Rests r r') : r'.tokens = r.tokens := by
  rw [tokens, tokens, h.current, h.ahead]

theorem Rests.reads (h : Rests r r') : r.Reads Eq r' where
  sound := h.sound
  advances := ⟨h.tokens_eq ▸ List.suffix_refl _, h.ahead ▸ List.suffix_refl _, h.diagnostics⟩
  derives := fun _ => h.tokens_eq.symm

theorem Rests.reads_comp (h : Rests r r') (h' : r'.Reads G r'') : r.Reads G r'' where
  sound := h'.sound
  advances := h.reads.advances.trans h'.advances
  derives := fun hs => h.tokens_eq ▸ h'.derives hs

theorem Stalls.reads (h : Stalls r r') (G : List Token → List Token → Prop) : r.Reads G r' where
  sound := h.sound
  advances := h.toRests.reads.advances
  derives := fun hs => absurd hs h.loud

/-- What is read after something was reported need not derive anything. -/
theorem Stalls.reads_comp (h : Stalls r r') (h' : r'.Reads G r'') : r.Reads H r'' where
  sound := h'.sound
  advances := h.toRests.reads.advances.trans h'.advances
  derives := fun hs => absurd (h'.advances.silent hs) h.loud

end
end Reading

namespace Read

/-! ## Reporting, and tokens that are expected -/

theorem yields_report {r : Reading} (h : r.Sound) (at_ : Span) (cause : Cause) :
    Yields (report at_ cause) r fun _ r' => r.Stalls r' := by
  unfold report
  simp only [yields_bind, yields_get, yields_ite, yields_set, yields_pure]
  split
  · refine ⟨⟨⟨h.ordered, h.spelled⟩, rfl, rfl, ?_⟩, ?_⟩
    · simp [Reading.diagnostics]
    · simp [Reading.Silent, Reading.diagnostics]
  next hlast =>
    refine ⟨⟨h, rfl, rfl, List.prefix_refl _⟩, fun hs => ?_⟩
    rw [Journal.lastDiagnostic?_eq_none hs] at hlast
    exact hlast (by simp)

theorem yields_supply {r : Reading} (h : r.Sound) (hloud : ¬ r.Silent) (k : Kind) :
    Yields (supply k) r fun t r' => t = Token.absent k r.current.span.start ∧ r.Stalls r' := by
  have hoffset : max r.current.span.start r.previousEnd = r.current.span.start :=
    Nat.max_eq_left h.start_ge
  have hdiag (j : Journal) (offset : Nat) :
      (j.record (.supplied k offset)).diagnostics = j.diagnostics := by
    simp [Event.diagnostic?]
  unfold supply
  simp only [yields_bind, yields_get, yields_set, yields_pure, hoffset]
  refine ⟨trivial, ⟨⟨h.ordered.raise, h.spelled⟩, rfl, rfl, ?_⟩, ?_⟩
  · simp only [Reading.diagnostics, hdiag]
    exact List.prefix_refl _
  · simp only [Reading.Silent, Reading.diagnostics, hdiag]
    exact hloud

/-- An expected token is consumed, or its absence is reported where it should stand. -/
theorem yields_expect {r : Reading} (h : r.Sound) (k : Kind) :
    Yields (expect k) r fun t r' =>
      (r.current.kind = k ∧ t = r.current ∧ r' = r.taken) ∨
        (r.current.kind ≠ k ∧ t = Token.absent k r.current.span.start ∧ r.Stalls r') := by
  unfold expect
  simp only [yields_bind, yields_kind, yields_ite, yields_take, yields_span]
  split
  next hk => exact .inl ⟨hk, trivial, trivial⟩
  next hk =>
    refine (yields_report h _ _).imp fun _ r₁ h₁ => ?_
    refine (yields_supply h₁.sound h₁.loud k).imp fun t r₂ h₂ => .inr ⟨hk, ?_, ?_⟩
    · rw [h₂.1, h₁.current]
    · exact ⟨⟨h₂.2.sound, h₂.2.current.trans h₁.current, h₂.2.ahead.trans h₁.ahead,
        h₁.diagnostics.trans h₂.2.diagnostics⟩, h₂.2.loud⟩

theorem expect_reads {r : Reading} (h : r.Sound) {k : Kind} (hk : k ≠ .endOfFile) :
    Yields (expect k) r fun _ r' => r.Reads (Terminal k) r' := by
  refine (yields_expect h k).imp fun t r' hr => ?_
  rcases hr with ⟨hkind, _, rfl⟩ | ⟨_, _, hstalls⟩
  · exact Reading.reads_taken h hkind hk
  · exact hstalls.reads _

/-- A token that is there is consumed. -/
theorem expect_takes {r : Reading} {k : Kind} (hk : r.current.kind = k)
    (Q : Token → Reading → Prop) : Yields (expect k) r Q ↔ Q r.current r.taken := by
  unfold expect
  simp only [yields_bind, yields_kind, yields_ite, yields_take, hk, if_true]

theorem name_reads {r : Reading} (h : r.Sound) :
    Yields name r fun n r' =>
      r.Reads (Word n) r' ∧ n.IsWord ∧ n.span.start = r.current.span.start := by
  unfold name
  simp only [yields_bind, yields_pure]
  refine (yields_expect h .name).imp fun t r' hr => ?_
  rcases hr with ⟨hkind, rfl, rfl⟩ | ⟨_, rfl, hstalls⟩
  · refine ⟨⟨h.taken, Reading.advances_taken r, fun _ => ?_⟩, ?_, rfl⟩
    · rw [h.tokens_eq (by simp [hkind])]
      exact .mk hkind
    · obtain ⟨word, hvalue, hword⟩ := h.spelled r.current (by simp [Reading.tokens]) hkind
      simpa [Name.IsWord, Token.name, hvalue] using hword
  · exact ⟨hstalls.reads _, by simp [Name.IsWord, Token.name, Token.absent], rfl⟩

/-- Looking at the second token leaves it where it is. -/
theorem yields_peekKind {r : Reading} (h : r.Sound) :
    Yields peekKind r fun k r' =>
      r.Rests r' ∧ ∀ t₁ t₂ o, r.tokens = t₁ :: t₂ :: o → k = t₂.kind := by
  have hrests : r.Rests r.looked :=
    ⟨h.looked, r.current_looked, r.ahead_looked, r.advances_looked.diagnostics⟩
  refine ⟨_, _, run_peekKind r, hrests, fun t₁ t₂ o ht => ?_⟩
  obtain ⟨-, hahead⟩ := List.cons.inj ht
  cases ha : r.ahead with
  | nil => simp [ha] at hahead
  | cons l ahead =>
    rw [ha, List.map_cons] at hahead
    rw [← (List.cons.inj hahead).1]
    rfl

/-! ## Lists -/

section Lists

variable {α : Type} {G : α → List Token → List Token → Prop} {P : α → Prop} {item : Read α}
  {separator : Kind} {n : Nat}

/-- Items behind separators. The items are read with fewer than all tokens left. -/
theorem following_reads (hne : separator ≠ .endOfFile)
    (hitem : ∀ r : Reading, r.Sound → r.tokens.length ≤ n →
      Yields item r fun a r' => r.Reads (G a) r' ∧ P a)
    {r : Reading} (h : r.Sound) (hlen : r.tokens.length ≤ n + 1) :
    Yields (following separator item) r fun as r' =>
      r.Reads (Grammar.Following separator G as) r' ∧ ∀ a ∈ as, P a := by
  refine Yields.loop (fun as r' => r.Reads (Grammar.Following separator G as) r' ∧ ∀ a ∈ as, P a)
    ⟨(Reading.Reads.refl h).imp fun i o hio => hio ▸ .nil, by simp⟩ ?_
  rintro as r₁ ⟨h₁, hp⟩
  simp only [yields_bind, yields_takeIf]
  split
  next hk =>
    have hlt := h₁.sound.length_taken (hk ▸ hne)
    have hle := h₁.length_le
    simp only [if_true, yields_bind, yields_pure]
    refine (hitem _ h₁.sound.taken (by omega)).imp ?_
    rintro a r₂ ⟨h₂, ha⟩
    refine ⟨⟨?_, ?_⟩, ?_⟩
    · refine (h₁.comp ((Reading.reads_taken h₁.sound hk hne).comp h₂)).imp ?_
      rintro i o ⟨m, hrep, hone⟩
      exact Grammar.Repeated.snoc hrep hone
    · simpa [or_imp, forall_and] using ⟨hp, ha⟩
    · have := h₂.length_le
      omega
  · simp only [Bool.false_eq_true, if_false, yields_pure]
    exact ⟨h₁, hp⟩

theorem separated_reads (hne : separator ≠ .endOfFile)
    (hitem : ∀ r : Reading, r.Sound → r.tokens.length ≤ n →
      Yields item r fun a r' => r.Reads (G a) r' ∧ P a)
    {r : Reading} (h : r.Sound) (hlen : r.tokens.length ≤ n) :
    Yields (separated separator item) r fun as r' =>
      r.Reads (Grammar.Separated separator G as) r' ∧ ∀ a ∈ as, P a := by
  unfold separated
  simp only [yields_bind, yields_pure]
  refine (hitem r h hlen).imp ?_
  rintro a r₁ ⟨h₁, ha⟩
  have hle := h₁.length_le
  refine (following_reads hne hitem h₁.sound (by omega)).imp ?_
  rintro as r₂ ⟨h₂, has⟩
  exact ⟨h₁.comp h₂, by simpa using ⟨ha, has⟩⟩

end Lists

end Read
end Syntax
end LuaFront
