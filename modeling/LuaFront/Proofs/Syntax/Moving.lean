import LuaFront.Proofs.Syntax.Reading
import LuaFront.Proofs.Syntax.Relocation

/-!
# LuaFront.Proofs.Syntax.Moving

Reading a text whose tokens stand in other places.

* `Reading.Regular`: a reading of a text with a gap behind each token, so that the end of a token is
  no start of another one. The last diagnostic and the last token that was supplied are such that no
  comparison of stretches of text comes out otherwise when tokens are moved together.
* `Read.Follows f m m' r Q`: if `m` gives a result at `r` then `m'` gives the moved result at the
  moved reading. What is read keeps a reading regular.
* `Read.FollowsFrom o`: the same, for the last part of something that was read from `o` on.

There is a rule for each primitive reader, one for what is read in sequence, and one for loops.
-/

namespace LuaFront
namespace Syntax

open Text (Span)
open Placed (relocate Settled)

/-! ## Regular readings -/

/-- A stretch no longer than a token in a text with all its tokens at even places. -/
def Snug (s : Span) : Prop := s.stop = s.start ∨ s.stop = s.start + 1

/-- Two tokens that come to the same stretch are one. -/
theorem Snug.eq {f : Nat → Nat} (hf : Stretches f) {s t : Span} (hs : Snug s) (ht : Snug t)
    (hs' : Aligned s.start) (ht' : Aligned t.start) (h : relocate f s = relocate f t) : s = t := by
  obtain ⟨start, stop⟩ := s
  obtain ⟨start', stop'⟩ := t
  simp only [Snug] at hs ht hs' ht'
  have hstart : start = start' := (hf.eq_iff hs' ht').1 (congrArg Span.start h)
  have hstop : f stop = f stop' := congrArg Span.stop h
  have hlt := hf.strict start hs'
  subst hstart
  rcases hs with rfl | rfl <;> rcases ht with rfl | rfl
  · rfl
  · omega
  · omega
  · rfl

namespace Reading

instance : Placed Reading where
  relocate f r := ⟨relocate f r.current, relocate f r.buffer, relocate f r.unread, f r.previousEnd,
    relocate f r.journal⟩
  Settled _ := True

theorem ahead_relocate (f : Nat → Nat) (r : Reading) :
    (relocate f r).ahead = relocate f r.ahead := by
  obtain ⟨current, buffer, unread, previousEnd, journal⟩ := r
  cases buffer <;> rfl

theorem length_ahead_relocate (f : Nat → Nat) (r : Reading) :
    (relocate f r).ahead.length = r.ahead.length := by
  rw [ahead_relocate]
  exact List.length_map ..

/-- A diagnostic about a stretch that starts at a place, if it is the last one, is about a token. -/
def Clear (place : Nat) (r : Reading) : Prop :=
  ∀ d, r.journal.lastDiagnostic? = some d → d.span.start = place → Snug d.span

structure Regular (r : Reading) : Prop where
  sound : r.Sound
  aligned : ∀ t ∈ r.tokens, Aligned t.span.start ∧
    (t.kind ≠ .endOfFile → t.span.stop = t.span.start + 1)
  quiet : ∀ l ∈ r.ahead, l.diagnostics = []
  /-- Behind a token that was consumed, or at one in front of which another one was supplied. -/
  ends : r.previousEnd = 0 ∨ r.previousEnd % 2 = 1 ∨ r.previousEnd = r.current.span.start
  /-- The last diagnostic is about a token, or about something that was consumed. -/
  last : ∀ d, r.journal.lastDiagnostic? = some d → Aligned d.span.start ∧
    (Snug d.span ∨ d.span.start < r.current.span.start)
  /-- Where a token was supplied, the last diagnostic about a token is about the current one. -/
  supplied : ∀ d, r.journal.lastDiagnostic? = some d → Snug d.span →
    r.previousEnd = r.current.span.start → d.span.start = r.current.span.start

/-- From `r` to `r'` something was read. What was reported of more than one token starts at the
first one that was read, or later. -/
structure Steps (r r' : Reading) : Prop where
  regular : r'.Regular
  start_le : r.current.span.start ≤ r'.current.span.start
  clear : ∀ place, place < r.current.span.start → r.Clear place → r'.Clear place

theorem Regular.refl {r : Reading} (h : r.Regular) : r.Steps r :=
  ⟨h, Nat.le_refl _, fun _ _ hclear => hclear⟩

theorem Steps.trans {r₁ r₂ r₃ : Reading} (h₁ : r₁.Steps r₂) (h₂ : r₂.Steps r₃) : r₁.Steps r₃ where
  regular := h₂.regular
  start_le := Nat.le_trans h₁.start_le h₂.start_le
  clear := fun place hlt hclear =>
    h₂.clear place (Nat.lt_of_lt_of_le hlt h₁.start_le) (h₁.clear place hlt hclear)

namespace Regular

variable {r : Reading}

theorem aligned_start (h : r.Regular) : Aligned r.current.span.start :=
  (h.aligned r.current (by simp [tokens])).1

/-- The end of file has no width, and any other token has width one. -/
theorem snug (h : r.Regular) : Snug r.current.span := by
  by_cases hk : r.current.kind = .endOfFile
  · exact .inl (h.sound.ordered.of_endOfFile hk).2.symm
  · exact .inr ((h.aligned r.current (by simp [tokens])).2 hk)

/-- No diagnostic before a token is about more than the token. -/
theorem clear_start (h : r.Regular) : r.Clear r.current.span.start := by
  intro d hd hstart
  rcases (h.last d hd).2 with hsnug | hlt
  · exact hsnug
  · omega

end Regular
end Reading

/-! ## Following -/

namespace Read

variable {α β σ : Type} [Placed α] [Placed β] [Placed σ] {f : Nat → Nat} {r : Reading}

/-- What `m` does at `r`, the reader `m'` does at the reading that is moved by `f`. It is a step from
the reading `o`, which came before `r`. -/
def FollowsFrom (o : Reading) (f : Nat → Nat) (m m' : Read α) (r : Reading)
    (Q : α → Reading → Prop) : Prop :=
  ∀ a r', m.run r = some (a, r') →
    m'.run (relocate f r) = some (relocate f a, relocate f r') ∧ Settled a ∧ o.Steps r' ∧ Q a r'

def Follows (f : Nat → Nat) (m m' : Read α) (r : Reading) (Q : α → Reading → Prop) : Prop :=
  FollowsFrom r f m m' r Q

/-- A reader that follows itself. -/
def Moves (f : Nat → Nat) (m : Read α) (r : Reading) : Prop := Follows f m m r fun _ _ => True

namespace FollowsFrom

variable {o : Reading} {m m' : Read α} {Q Q' : α → Reading → Prop}

theorem of_run {a : α} {r' : Reading} (hrun : m.run r = some (a, r'))
    (hmoved : m'.run (relocate f r) = some (relocate f a, relocate f r')) (ha : Settled a)
    (hsteps : o.Steps r') (hq : Q a r') : FollowsFrom o f m m' r Q := by
  intro b r'' hb
  rw [hrun] at hb
  cases hb
  exact ⟨hmoved, ha, hsteps, hq⟩

theorem imp (h : FollowsFrom o f m m' r Q)
    (himp : ∀ a r', Settled a → o.Steps r' → Q a r' → Q' a r') : FollowsFrom o f m m' r Q' := by
  intro a r' hrun
  obtain ⟨hmoved, ha, hsteps, hq⟩ := h a r' hrun
  exact ⟨hmoved, ha, hsteps, himp a r' ha hsteps hq⟩

theorem ite {c c' : Prop} [Decidable c] [Decidable c'] {n n' : Read α} (hc : c' ↔ c)
    (hm : c → FollowsFrom o f m m' r Q) (hn : ¬ c → FollowsFrom o f n n' r Q) :
    FollowsFrom o f (if c then m else n) (if c' then m' else n') r Q := by
  by_cases h : c
  · rw [if_pos h, if_pos (hc.2 h)]
    exact hm h
  · rw [if_neg h, if_neg (fun h' => h (hc.1 h'))]
    exact hn h

theorem bind {k k' : α → Read β} {P : β → Reading → Prop} (h : FollowsFrom o f m m' r Q)
    (hk : ∀ a r', Settled a → o.Steps r' → Q a r' →
      FollowsFrom o f (k a) (k' (relocate f a)) r' P) :
    FollowsFrom o f (m >>= k) (m' >>= k') r P := by
  intro b r'' hrun
  rw [StateT.run_bind] at hrun
  obtain ⟨⟨a, r'⟩, hm, hb⟩ := Option.bind_eq_some_iff.1 hrun
  obtain ⟨hmoved, ha, hsteps, hq⟩ := h a r' hm
  obtain ⟨hmoved', hb'⟩ := hk a r' ha hsteps hq b r'' hb
  refine ⟨?_, hb'⟩
  rw [StateT.run_bind, hmoved]
  exact hmoved'

end FollowsFrom

namespace Follows

variable {m m' : Read α} {Q Q' : α → Reading → Prop}

theorem since {o : Reading} (h : Follows f m m' r Q) (ho : o.Steps r) :
    FollowsFrom o f m m' r Q := by
  intro a r' hrun
  obtain ⟨hmoved, ha, hsteps, hq⟩ := h a r' hrun
  exact ⟨hmoved, ha, ho.trans hsteps, hq⟩

theorem of_run {a : α} {r' : Reading} (hrun : m.run r = some (a, r'))
    (hmoved : m'.run (relocate f r) = some (relocate f a, relocate f r')) (ha : Settled a)
    (hsteps : r.Steps r') (hq : Q a r') : Follows f m m' r Q :=
  FollowsFrom.of_run hrun hmoved ha hsteps hq

theorem imp (h : Follows f m m' r Q) (himp : ∀ a r', Settled a → r.Steps r' → Q a r' → Q' a r') :
    Follows f m m' r Q' :=
  FollowsFrom.imp h himp

theorem pure {a a' : α} (h : r.Regular) (ha' : a' = relocate f a) (ha : Settled a) (hq : Q a r) :
    Follows f (Pure.pure a) (Pure.pure a') r Q :=
  of_run rfl (by rw [ha']; rfl) ha h.refl hq

theorem bind {k k' : α → Read β} {P : β → Reading → Prop} (h : Follows f m m' r Q)
    (hk : ∀ a r', Settled a → r.Steps r' → Q a r' → Follows f (k a) (k' (relocate f a)) r' P) :
    Follows f (m >>= k) (m' >>= k') r P :=
  FollowsFrom.bind h fun a r' ha hsteps hq => (hk a r' ha hsteps hq).since hsteps

theorem ite {c : Prop} [Decidable c] {n n' : Read α} (hm : c → Follows f m m' r Q)
    (hn : ¬ c → Follows f n n' r Q) :
    Follows f (if c then m else n) (if c then m' else n') r Q :=
  FollowsFrom.ite Iff.rfl hm hn

theorem some (h : Follows f m m' r Q) : Follows f (some <$> m) (some <$> m') r fun _ _ => True := by
  rw [map_eq_pure_bind, map_eq_pure_bind]
  refine h.bind fun a r' ha hsteps _ => .pure hsteps.regular rfl ?_ trivial
  simpa [Settled] using ha

/-- The rule for a loop: an invariant. -/
theorem loop {step step' : σ → Read (σ ⊕ α)} {a a' : σ} (Inv : σ → Reading → Prop)
    (h : r.Regular) (ha' : a' = relocate f a) (ha : Settled a) (hinv : Inv a r)
    (hstep : ∀ a r₁, r.Steps r₁ → Settled a → Inv a r₁ →
      Follows f (step a) (step' (relocate f a)) r₁ fun x r' =>
        match x with
        | .inl a' => Inv a' r'
        | .inr b => Q b r') :
    Follows f (Read.loop step a) (Read.loop step' a') r Q := by
  have hturns (turns : Nat) : ∀ a r₁, r.Steps r₁ → Settled a → Inv a r₁ →
      Follows f (loopWith step turns a) (loopWith step' turns (relocate f a)) r₁ Q := by
    induction turns with
    | zero =>
      intro a r₁ _ _ _ b r' hrun
      cases hrun
    | succ turns ih =>
      intro a r₁ h₁ ha hinv
      rw [loopWith, loopWith]
      refine (hstep a r₁ h₁ ha hinv).bind fun x r₂ hx h₂ hq => ?_
      cases x with
      | inl a₂ => exact ih a₂ r₂ (h₁.trans h₂) hx hq
      | inr b => exact .pure h₂.regular rfl hx hq
  have hlength := Reading.length_ahead_relocate f r
  intro b r' hrun
  obtain ⟨hmoved, hb⟩ := hturns (r.ahead.length + 1) a r h.refl ha hinv b r' hrun
  refine ⟨?_, hb⟩
  rw [← hmoved, ha', ← hlength]
  rfl

end Follows

/-! ## Looking at tokens -/

section

variable {P : β → Reading → Prop}

theorem follows_kind {k k' : Kind → Read β}
    (h : Follows f (k r.current.kind) (k' r.current.kind) r P) :
    Follows f (kind >>= k) (kind >>= k') r P := h

theorem follows_start {k k' : Nat → Read β}
    (h : Follows f (k r.current.span.start) (k' (f r.current.span.start)) r P) :
    Follows f (start >>= k) (start >>= k') r P := h

theorem follows_span {k k' : Span → Read β}
    (h : Follows f (k r.current.span) (k' (relocate f r.current.span)) r P) :
    Follows f (span >>= k) (span >>= k') r P := h

theorem follows_get {k k' : Reading → Read β} (h : Follows f (k r) (k' (relocate f r)) r P) :
    Follows f (get >>= k) (get >>= k') r P := h

theorem follows_spanFrom (hf : Stretches f) {n : Nat} {k k' : Span → Read β}
    (h : Follows f (k ⟨n, max r.previousEnd n⟩) (k' (relocate f ⟨n, max r.previousEnd n⟩)) r P) :
    Follows f (spanFrom n >>= k) (spanFrom (f n) >>= k') r P := by
  intro b r' hrun
  rw [← (h b r' hrun).1]
  refine ⟨?_, (h b r' hrun).2⟩
  have hspan : relocate f (Span.mk n (max r.previousEnd n)) =
      ⟨f n, max (f r.previousEnd) (f n)⟩ := by
    rw [← hf.max]
    rfl
  rw [hspan]
  rfl

end

end Read

/-! ## Consuming tokens -/

namespace Reading

variable {f : Nat → Nat} {r : Reading}

theorem lastDiagnostic?_taken (h : r.Regular) :
    r.taken.journal.lastDiagnostic? = r.journal.lastDiagnostic? := by
  rw [journal_taken h.quiet]
  rfl

theorem relocate_taken (hf : Stretches f) (h : r.Regular) :
    (relocate f r).taken = relocate f r.taken := by
  obtain ⟨current, buffer, unread, previousEnd, journal⟩ := r
  have htaken : (relocate f (Reading.mk current buffer unread previousEnd journal)).taken =
      { relocate f (Reading.mk current buffer unread previousEnd journal).taken with
        previousEnd := max (f previousEnd) (f current.span.stop) } := by
    cases buffer with
    | some l => rfl
    | none =>
      rcases unread with _ | ⟨⟨token, diagnostics⟩, unread⟩
      · rfl
      obtain rfl : diagnostics = [] := h.quiet ⟨token, diagnostics⟩ (by simp)
      rfl
  have hend := congrArg f
    (previousEnd_taken (Reading.mk current buffer unread previousEnd journal)).symm
  rw [htaken, ← hf.max, hend]
  rfl

theorem relocate_looked (h : r.Regular) : (relocate f r).looked = relocate f r.looked := by
  obtain ⟨current, buffer, unread, previousEnd, journal⟩ := r
  cases buffer with
  | some l => rfl
  | none =>
    rcases unread with _ | ⟨⟨token, diagnostics⟩, unread⟩
    · rfl
    obtain rfl : diagnostics = [] := h.quiet ⟨token, diagnostics⟩ (by simp)
    rfl

/-- A token that was consumed ends at an odd place, where no token starts. -/
theorem Regular.taken (h : r.Regular) (hk : r.current.kind ≠ .endOfFile) : r.Steps r.taken := by
  have hlast := lastDiagnostic?_taken h
  have hlt := h.sound.start_lt_taken hk
  have hstop := (h.aligned r.current (by simp [tokens])).2 hk
  have hstart := h.aligned_start
  have hend := previousEnd_taken r
  have hge := h.sound.start_ge
  have hodd : r.taken.previousEnd % 2 = 1 := by
    have := hstart.2
    rw [hend, hstop]
    omega
  have haligned : ∀ t ∈ r.taken.tokens, Aligned t.span.start ∧
      (t.kind ≠ .endOfFile → t.span.stop = t.span.start + 1) :=
    fun t ht => h.aligned t ((advances_taken r).tokens.subset ht)
  refine ⟨⟨h.sound.taken, haligned, ?_, .inr (.inl hodd), ?_, ?_⟩, Nat.le_of_lt hlt, ?_⟩
  · exact fun l hl => h.quiet l ((advances_taken r).ahead.subset hl)
  · intro d hd
    rw [hlast] at hd
    refine ⟨(h.last d hd).1, ?_⟩
    rcases (h.last d hd).2 with hsnug | hbefore
    · exact .inl hsnug
    · exact .inr (Nat.lt_trans hbefore hlt)
  · intro d _ _ heq
    have := (haligned r.taken.current (by simp [tokens])).1.2
    omega
  · intro place _ hclear d hd
    rw [hlast] at hd
    exact hclear d hd

/-- Whether a token was looked at does not matter to a regular reading. -/
theorem Regular.looked (h : r.Regular) : r.Steps r.looked := by
  have hjournal := journal_looked h.quiet
  constructor
  · constructor
    · exact h.sound.looked
    · rw [tokens_looked]
      exact h.aligned
    · rw [ahead_looked]
      exact h.quiet
    · rw [previousEnd_looked, current_looked]
      exact h.ends
    · rw [hjournal, current_looked]
      exact h.last
    · rw [hjournal, previousEnd_looked, current_looked]
      exact h.supplied
  · exact Nat.le_of_eq (congrArg (·.span.start) r.current_looked.symm)
  · intro place _ hclear
    unfold Clear
    rw [hjournal]
    exact hclear

end Reading

namespace Read

variable {f : Nat → Nat} {r : Reading}

theorem take_follows (hf : Stretches f) (h : r.Regular) (hk : r.current.kind ≠ .endOfFile) :
    Follows f take take r fun t r' => t = r.current ∧ r' = r.taken := by
  refine .of_run (run_take r) ?_ h.aligned_start (h.taken hk) ⟨rfl, rfl⟩
  rw [run_take, Reading.relocate_taken hf h]
  rfl

theorem takeIf_follows (hf : Stretches f) (h : r.Regular) {k : Kind} (hk : k ≠ .endOfFile) :
    Follows f (takeIf k) (takeIf k) r fun b r' =>
      (b = true ∧ r.current.kind = k ∧ r' = r.taken) ∨ (b = false ∧ r.current.kind ≠ k ∧ r' = r) := by
  unfold takeIf
  refine follows_kind (.ite (fun hkind => ?_) fun hkind => ?_)
  · refine (take_follows hf h (hkind ▸ hk)).bind fun t r' _ hsteps ht => ?_
    exact .pure hsteps.regular rfl trivial (.inl ⟨rfl, hkind, ht.2⟩)
  · exact .pure h rfl trivial (.inr ⟨rfl, hkind, rfl⟩)

/-- Looking at the second token leaves it where it is. -/
theorem peekKind_follows (h : r.Regular) :
    Follows f peekKind peekKind r fun k r' => r'.current = r.current ∧ r'.ahead = r.ahead ∧
      (k = r.current.kind ∨ ∃ l ahead, r.ahead = l :: ahead ∧ k = l.token.kind) := by
  refine .of_run (run_peekKind r) ?_ trivial h.looked ⟨r.current_looked, r.ahead_looked, ?_⟩
  · rw [run_peekKind, Reading.relocate_looked h, Reading.ahead_relocate]
    cases r.ahead <;> rfl
  · cases ha : r.ahead with
    | nil => exact .inl rfl
    | cons l ahead => exact .inr ⟨l, ahead, rfl, rfl⟩

end Read

/-! ## Reporting, and tokens that are expected -/

namespace Reading

def reported (r : Reading) (d : Diagnostic) : Reading := { r with journal := r.journal.report d }

/-- What is reported of the current token is about a token. -/
theorem Regular.reported {r : Reading} (h : r.Regular) (cause : Cause) :
    r.Steps (r.reported ⟨r.current.span, cause⟩) := by
  refine ⟨⟨⟨h.sound.ordered, h.sound.spelled⟩, h.aligned, h.quiet, h.ends, ?_, ?_⟩,
    Nat.le_refl _, ?_⟩
  · intro d hd
    cases hd
    exact ⟨h.aligned_start, .inl h.snug⟩
  · intro d hd _ _
    cases hd
    rfl
  · intro place _ _ d hd _
    cases hd
    exact h.snug

end Reading

namespace Read

variable {f : Nat → Nat} {r : Reading}

theorem run_report (at_ : Span) (cause : Cause) (r : Reading) :
    (report at_ cause).run r =
      some ((), if r.journal.lastDiagnostic?.map Diagnostic.span ≠ some at_ then
        r.reported ⟨at_, cause⟩ else r) := by
  have hrun : (report at_ cause).run r =
      (if r.journal.lastDiagnostic?.map Diagnostic.span ≠ some at_ then
        set (r.reported ⟨at_, cause⟩) else pure () : Read Unit).run r := rfl
  rw [hrun]
  split <;> rfl

/-- A diagnostic is kept or dropped alike, if what it is about does not come together with what
the last one was about. -/
theorem report_follows {o : Reading} (h : o.Steps r) {at_ : Span} {cause : Cause}
    (hsame : ∀ d, r.journal.lastDiagnostic? = some d →
      relocate f d.span = relocate f at_ → d.span = at_)
    (hsteps : o.Steps (r.reported ⟨at_, cause⟩)) :
    FollowsFrom o f (report at_ cause) (report (relocate f at_) cause) r fun _ r' =>
      (r' = r ∨ r' = r.reported ⟨at_, cause⟩) ∧
        r'.journal.lastDiagnostic?.map Diagnostic.span = some at_ := by
  have hlast : (relocate f r).journal.lastDiagnostic?.map Diagnostic.span = some (relocate f at_) ↔
      r.journal.lastDiagnostic?.map Diagnostic.span = some at_ := by
    have hmoved : (relocate f r).journal.lastDiagnostic? =
        relocate f r.journal.lastDiagnostic? := Journal.lastDiagnostic?_relocate f r.journal
    rw [hmoved]
    cases hd : r.journal.lastDiagnostic? with
    | none =>
      constructor
      · intro hnone
        cases hnone
      · intro hnone
        cases hnone
    | some d =>
      constructor
      · intro hspan
        exact congrArg some (hsame d hd (Option.some.inj hspan))
      · intro hspan
        exact congrArg (fun s => some (relocate f s)) (Option.some.inj hspan)
  by_cases hc : r.journal.lastDiagnostic?.map Diagnostic.span = some at_
  · have hrun : (report at_ cause).run r = some ((), r) := by
      rw [run_report, if_neg (by simpa using hc)]
    have hmoved : (report (relocate f at_) cause).run (relocate f r) = some ((), relocate f r) := by
      rw [run_report, if_neg (by simpa using hlast.2 hc)]
    exact .of_run hrun hmoved trivial h ⟨.inl rfl, hc⟩
  · have hrun : (report at_ cause).run r = some ((), r.reported ⟨at_, cause⟩) := by
      rw [run_report, if_pos hc]
    have hmoved : (report (relocate f at_) cause).run (relocate f r) =
        some ((), relocate f (r.reported ⟨at_, cause⟩)) := by
      rw [run_report, if_pos (fun hc' => hc (hlast.1 hc'))]
      rfl
    exact .of_run hrun hmoved trivial hsteps ⟨.inr rfl, rfl⟩

/-- What is reported of the current token is dropped only if the last diagnostic is about it. -/
theorem reportCurrent_follows (hf : Stretches f) (h : r.Regular) (cause : Cause) :
    Follows f (report r.current.span cause) (report (relocate f r.current.span) cause) r fun _ r' =>
      r'.current = r.current ∧ r'.ahead = r.ahead ∧
        r'.journal.lastDiagnostic?.map Diagnostic.span = some r.current.span := by
  refine (report_follows h.refl ?_ (h.reported cause)).imp ?_
  · intro d hd hspan
    obtain ⟨haligned, hwhere⟩ := h.last d hd
    have hstart : d.span.start = r.current.span.start :=
      (hf.eq_iff haligned h.aligned_start).1 (congrArg Span.start hspan)
    exact Snug.eq hf (h.clear_start d hd hstart) h.snug haligned h.aligned_start hspan
  · rintro _ r' _ _ ⟨rfl | rfl, hlast⟩
    · exact ⟨rfl, rfl, hlast⟩
    · exact ⟨rfl, rfl, hlast⟩

end Read

namespace Reading

/-- The reading after a token was made up in front of the current one. -/
def filled (r : Reading) (k : Kind) : Reading :=
  { r with
    previousEnd := r.current.span.start
    journal := r.journal.record (.supplied k r.current.span.start) }

/-- A token is supplied where the current one was reported. -/
theorem Regular.filled {r : Reading} (h : r.Regular) (k : Kind)
    (hlast : r.journal.lastDiagnostic?.map Diagnostic.span = some r.current.span) :
    r.Steps (r.filled k) := by
  refine ⟨⟨⟨h.sound.ordered.raise, h.sound.spelled⟩, h.aligned, h.quiet, .inr (.inr rfl), h.last,
    ?_⟩, Nat.le_refl _, fun _ _ hclear => hclear⟩
  intro d hd _ _
  have hd' : r.journal.lastDiagnostic? = some d := hd
  rw [hd'] at hlast
  exact congrArg Span.start (Option.some.inj hlast)

end Reading

namespace Read

variable {f : Nat → Nat} {r : Reading}

theorem supply_follows (hf : Stretches f) (h : r.Regular) (k : Kind)
    (hlast : r.journal.lastDiagnostic?.map Diagnostic.span = some r.current.span) :
    Follows f (supply k) (supply k) r fun t r' =>
      t = Token.absent k r.current.span.start ∧ r' = r.filled k := by
  have hoffset : max r.current.span.start r.previousEnd = r.current.span.start :=
    Nat.max_eq_left h.sound.start_ge
  have hrun : (supply k).run r = some (Token.absent k r.current.span.start, r.filled k) := by
    have hsupply : (supply k).run r =
        some (Token.absent k (max r.current.span.start r.previousEnd),
          { r with
            previousEnd := max r.current.span.start r.previousEnd
            journal := r.journal.record (.supplied k (max r.current.span.start r.previousEnd)) }) :=
      rfl
    rw [hsupply, hoffset]
    rfl
  have hmoved : (supply k).run (relocate f r) =
      some (relocate f (Token.absent k r.current.span.start), relocate f (r.filled k)) := by
    have hoffset' : max (f r.current.span.start) (f r.previousEnd) = f r.current.span.start := by
      rw [← hf.max, hoffset]
    have hsupply : (supply k).run (relocate f r) =
        some (Token.absent k (max (f r.current.span.start) (f r.previousEnd)),
          { relocate f r with
            previousEnd := max (f r.current.span.start) (f r.previousEnd)
            journal := (relocate f r).journal.record
              (.supplied k (max (f r.current.span.start) (f r.previousEnd))) }) :=
      rfl
    rw [hsupply, hoffset']
    rfl
  exact .of_run hrun hmoved h.aligned_start (h.filled k hlast) ⟨rfl, rfl⟩

theorem expect_follows (hf : Stretches f) (h : r.Regular) {k : Kind} (hk : k ≠ .endOfFile) :
    Follows f (expect k) (expect k) r fun t r' =>
      (r.current.kind = k → t = r.current ∧ r' = r.taken) ∧ t.span.start = r.current.span.start := by
  unfold expect
  refine follows_kind (.ite (fun hkind => ?_) fun hkind => ?_)
  · refine (take_follows hf h (hkind ▸ hk)).imp fun t r' _ _ ht => ⟨fun _ => ht, ?_⟩
    rw [ht.1]
  · refine follows_span (follows_kind ?_)
    refine (reportCurrent_follows hf h _).bind ?_
    rintro _ r₁ _ h₁ ⟨hcurrent, _, hlast⟩
    rw [← hcurrent] at hlast
    refine (supply_follows hf h₁.regular k hlast).imp fun t r₂ _ _ ht =>
      ⟨fun hkind' => absurd hkind' hkind, ?_⟩
    rw [ht.1, ← hcurrent]
    rfl

theorem name_follows (hf : Stretches f) (h : r.Regular) :
    Follows f name name r fun _ r' => r.current.kind = .name → r' = r.taken := by
  unfold name
  refine (expect_follows hf h (by simp)).bind fun t r₁ ht h₁ hr₁ => ?_
  refine .pure h₁.regular rfl ?_ fun hkind => (hr₁.1 hkind).2
  exact Node.everywhere_iff.2 ⟨ht, by simp [Node.children]⟩

/-! ## Lists -/

section

variable {α : Type} [Placed α] {item : Read α} {separator : Kind}

theorem relocate_snoc (items : List α) (x : α) :
    relocate f items ++ [relocate f x] = relocate f (items ++ [x]) := by
  simp [relocate]

theorem settled_snoc {items : List α} {x : α} (hitems : Settled items) (hx : Settled x) :
    Settled (items ++ [x]) :=
  settled_append hitems (List.forall_mem_singleton.2 hx)

theorem following_moves (hf : Stretches f) (hk : separator ≠ .endOfFile)
    (hitem : ∀ r : Reading, r.Regular → Moves f item r) (h : r.Regular) :
    Moves f (following separator item) r := by
  refine .loop (fun _ _ => True) h rfl (by simp [Settled]) trivial fun items r₁ h₁ hitems _ => ?_
  refine (takeIf_follows hf h₁.regular hk).bind fun b r₂ _ h₂ hb => ?_
  rcases hb with ⟨rfl, -⟩ | ⟨rfl, -⟩
  · refine (hitem r₂ h₂.regular).bind fun x r₃ hx h₃ _ => ?_
    exact .pure h₃.regular (congrArg Sum.inl (relocate_snoc items x)) (settled_snoc hitems hx) trivial
  · exact .pure h₂.regular rfl hitems trivial

theorem separated_moves (hf : Stretches f) (hk : separator ≠ .endOfFile)
    (hitem : ∀ r : Reading, r.Regular → Moves f item r) (h : r.Regular) :
    Moves f (separated separator item) r := by
  unfold separated
  refine (hitem r h).bind fun first r₁ hfirst h₁ _ => ?_
  refine (following_moves hf hk hitem h₁.regular).bind fun items r₂ hitems h₂ _ => ?_
  exact .pure h₂.regular rfl (by simpa [Settled] using ⟨hfirst, hitems⟩) trivial

end

end Read
end Syntax
end LuaFront
