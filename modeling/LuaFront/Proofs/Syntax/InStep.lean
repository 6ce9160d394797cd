import LuaFront.Proofs.Syntax.Acceptance
import LuaFront.Proofs.Syntax.Nesting

/-!
# LuaFront.Proofs.Syntax.InStep

One reader at two texts that start with the same tokens. What it does up to the end of the common
tokens is the same in both.

* `Reading.Abreast o o' c r s`: the readings `r` and `s` have the tokens `c` in common, and behind
  them the one has `o` and the other `o'`.
* `Reading.Outcome`: how two readers come out that started abreast. They are still abreast and gave
  the same; or something was reported before the common tokens were consumed; or these were consumed
  on the way. In the last case it matters what happens if the second text is at its end: where the
  first reader consumed nothing more and reported nothing, the second does so too and gives the same.
* `Read.InStep m m'`: the readers `m` and `m'` come out so. It is a class, as `Read.Acting` is. What
  has to be proved by hand are the readers that look at a token without consuming it.

The two readers of a pair differ only in how deep they may nest.
-/

namespace LuaFront

/-- The end of file and nothing else. -/
def Token.AtEnd (o : List Token) : Prop := ∃ t : Token, o = [t] ∧ t.kind = .endOfFile

namespace Syntax

open Text (Span)

namespace Reading

variable {α : Type} {o o' c : List Token} {t : Token} {a b : α} {r s r₀ s₀ r₁ s₁ r' s' : Reading}

theorem not_silent_reported (r : Reading) (d : Diagnostic) : ¬ (r.reported d).Silent := by
  simp [Silent, diagnostics, reported]

/-! ## Readings abreast of each other -/

/-- Two readings with the tokens `c` in common, and `o` and `o'` behind them. -/
structure Abreast (o o' c : List Token) (r s : Reading) : Prop where
  left : r.At (c ++ o)
  right : s.At (c ++ o')
  ends : s.previousEnd = r.previousEnd
  more : o ≠ [] ∧ o' ≠ []

namespace Abreast

theorem current (h : Abreast o o' (t :: c) r s) : r.current = t ∧ s.current = t :=
  ⟨h.left.current, h.right.current⟩

theorem kind_ne (h : Abreast o o' (t :: c) r s) : t.kind ≠ .endOfFile := by
  intro hk
  have hordered := h.left.sound.ordered
  rw [h.left.tokens, List.cons_append] at hordered
  have hnil := (hordered.of_endOfFile hk).1
  exact h.more.1 (List.append_eq_nil_iff.1 hnil).2

theorem taken (h : Abreast o o' (t :: c) r s) : Abreast o o' c r.taken s.taken where
  left := h.left.taken h.kind_ne
  right := h.right.taken h.kind_ne
  ends := by
    rw [previousEnd_taken, previousEnd_taken, h.ends, h.current.1, h.current.2]
  more := h.more

/-- The second text is at its end. -/
theorem kind_right (h : Abreast o o' [] r s) (hend : Token.AtEnd o') :
    s.current.kind = .endOfFile := by
  obtain ⟨t, rfl, hk⟩ := hend
  rw [h.right.current]
  exact hk

end Abreast

/-- How two readers come out that started abreast of each other, at `r` and `s`. -/
inductive Outcome (o o' : List Token) (r s : Reading) (a b : α) (r' s' : Reading) : Prop where
  | same {c : List Token} : b = a → Abreast o o' c r' s' → Outcome o o' r s a b r' s'
  | reported {c : List Token} {r₁ s₁ : Reading} {d d' : Diagnostic} : c ≠ [] →
      Abreast o o' c r₁ s₁ → r.Acts r₁ → s.Acts s₁ → (r₁.reported d).Acts r' →
      (s₁.reported d').Acts s' → Outcome o o' r s a b r' s'
  | passed {r₁ s₁ : Reading} : Abreast o o' [] r₁ s₁ → r.Acts r₁ → s.Acts s₁ → r₁.Acts r' →
      s₁.Acts s' →
      (Token.AtEnd o' → r'.Silent → o <:+ r'.tokens → b = a ∧ ∃ c, Abreast o o' c r' s') →
      Outcome o o' r s a b r' s'

namespace Outcome

theorem after (h : Outcome o o' r s a b r' s') (hr : r₀.Acts r) (hs : s₀.Acts s) :
    Outcome o o' r₀ s₀ a b r' s' := by
  cases h with
  | same hba habreast => exact .same hba habreast
  | reported hc habreast hr₁ hs₁ hr' hs' =>
    exact .reported hc habreast (hr.trans hr₁) (hs.trans hs₁) hr' hs'
  | passed habreast hr₁ hs₁ hr' hs' hagree =>
    exact .passed habreast (hr.trans hr₁) (hs.trans hs₁) hr' hs' hagree

/-- What is consumed before the end of a text is what is consumed where more follows. -/
theorem agree (h : Outcome o o' r s a b r' s') (hend : Token.AtEnd o') (hsilent : r'.Silent)
    (hsuffix : o <:+ r'.tokens) : b = a ∧ ∃ c, Abreast o o' c r' s' := by
  cases h with
  | same hba habreast => exact ⟨hba, _, habreast⟩
  | reported _ _ _ _ hr' _ =>
    exact absurd (hr'.advances.silent hsilent) (not_silent_reported _ _)
  | passed _ _ _ _ _ hagree => exact hagree hend hsilent hsuffix

/-- No token is in common: the readers may go separate ways. -/
theorem apart (h : Abreast o o' [] r s) (hr : r.Acts r') (hs : s.Acts s')
    (hagree : Token.AtEnd o' → r'.Silent → o <:+ r'.tokens → b = a ∧ ∃ c, Abreast o o' c r' s') :
    Outcome o o' r s a b r' s' :=
  .passed h (.refl r) (.refl s) hr hs hagree

end Outcome

/-- Nothing was consumed if all tokens are left. -/
theorem Abreast.not_shorter (h : Abreast o o' [] r s) (hsuffix : o <:+ r'.tokens) :
    ¬ r'.tokens.length < r.tokens.length := by
  rw [h.left.tokens]
  exact Nat.not_lt.2 hsuffix.length_le

end Reading

/-! ## Readers in step -/

namespace Read

open Reading (Abreast Outcome)

variable {α β σ : Type}

theorem run_span_bind (k : Span → Read α) (r : Reading) :
    (span >>= k).run r = (k r.current.span).run r := rfl

/-- A reader that consumes something, unless it reports something. -/
class Eager (m : Read α) : Prop where
  shorter : ∀ {r : Reading} {a : α} {r' : Reading}, r.Sound → m.run r = some (a, r') → r'.Silent →
    r'.tokens.length < r.tokens.length

class InStep (m m' : Read α) : Prop where
  outcome : ∀ {o o' c : List Token} {r s : Reading} {a b : α} {r' s' : Reading},
    Abreast o o' c r s → m.run r = some (a, r') → m'.run s = some (b, s') →
    Outcome o o' r s a b r' s'

/-- Two readers that are in step where there is a common token. -/
class InStepAtToken (m m' : Read α) : Prop where
  outcome : ∀ {o o' c : List Token} {t : Token} {r s : Reading} {a b : α} {r' s' : Reading},
    Abreast o o' (t :: c) r s → m.run r = some (a, r') → m'.run s = some (b, s') →
    Outcome o o' r s a b r' s'

/-! ### Sequences -/

instance (priority := low) InStepAtToken.of_inStep (m m' : Read α) [InStep m m'] :
    InStepAtToken m m' where
  outcome h := InStep.outcome h

/-- Where no token is in common, a reader that consumes something need not be looked at. -/
instance (priority := low) InStep.of_eager (m m' : Read α) [InStepAtToken m m'] [Eager m]
    [Acting m] [Acting m'] : InStep m m' where
  outcome {o o' c r s a b r' s'} h hrun hrun' := by
    cases c with
    | nil =>
      refine .apart h (Acting.acts hrun) (Acting.acts hrun') fun _ hsilent hsuffix => ?_
      exact absurd (Eager.shorter h.left.sound hrun hsilent) (h.not_shorter hsuffix)
    | cons t c => exact InStepAtToken.outcome h hrun hrun'

section Bind

variable (m m' : Read α) (k k' : α → Read β) [Acting m] [Acting m'] [∀ a, Acting (k a)]
  [∀ a, Acting (k' a)] [∀ a, InStep (k a) (k' a)]

theorem outcome_bind {o o' : List Token} {r s : Reading} {x y : β} {r'' s'' : Reading}
    (hm : ∀ {a b r' s'}, m.run r = some (a, r') → m'.run s = some (b, s') →
      Outcome o o' r s a b r' s')
    (hrun : (m >>= k).run r = some (x, r'')) (hrun' : (m' >>= k').run s = some (y, s'')) :
    Outcome o o' r s x y r'' s'' := by
  obtain ⟨a, r', hmr, hk⟩ := run_bind_eq_some.1 hrun
  obtain ⟨b, s', hms, hk'⟩ := run_bind_eq_some.1 hrun'
  have hacts : r'.Acts r'' := Acting.acts hk
  have hacts' : s'.Acts s'' := Acting.acts hk'
  cases hm hmr hms with
  | same hba habreast =>
    subst hba
    exact (InStep.outcome habreast hk hk').after (Acting.acts hmr) (Acting.acts hms)
  | reported hc habreast hr₁ hs₁ hr' hs' =>
    exact .reported hc habreast hr₁ hs₁ (hr'.trans hacts) (hs'.trans hacts')
  | passed habreast hr₁ hs₁ hr' hs' hagree =>
    refine .passed habreast hr₁ hs₁ (hr'.trans hacts) (hs'.trans hacts') ?_
    intro hend hsilent hsuffix
    obtain ⟨rfl, _, habreast'⟩ := hagree hend (hacts.advances.silent hsilent)
      (hsuffix.trans hacts.advances.tokens)
    exact (InStep.outcome habreast' hk hk').agree hend hsilent hsuffix

instance InStep.bind [InStep m m'] : InStep (m >>= k) (m' >>= k') where
  outcome h := outcome_bind m m' k k' (InStep.outcome h)

instance InStepAtToken.bind [InStepAtToken m m'] : InStepAtToken (m >>= k) (m' >>= k') where
  outcome h := outcome_bind m m' k k' (InStepAtToken.outcome h)

end Bind

instance (a : α) : InStep (pure a) (pure a) where
  outcome h hrun hrun' := by
    cases hrun
    cases hrun'
    exact .same rfl h

instance (f : α → β) (m m' : Read α) [Acting m] [Acting m'] [InStep m m'] :
    InStep (f <$> m) (f <$> m') := by
  rw [map_eq_pure_bind, map_eq_pure_bind]
  infer_instance

instance (f : α → β) (m m' : Read α) [Acting m] [Acting m'] [InStepAtToken m m'] :
    InStepAtToken (f <$> m) (f <$> m') := by
  rw [map_eq_pure_bind, map_eq_pure_bind]
  infer_instance

instance (c : Prop) [Decidable c] (m m' n n' : Read α) [InStep m m'] [InStep n n'] :
    InStep (if c then m else n) (if c then m' else n') := by
  split <;> infer_instance

instance (c : Prop) [Decidable c] (m m' n n' : Read α) [InStepAtToken m m'] [InStepAtToken n n'] :
    InStepAtToken (if c then m else n) (if c then m' else n') := by
  split <;> infer_instance

/-! ### Looking at a token -/

/-- What is decided by a common token is decided alike. -/
instance (priority := high) InStepAtToken.kind (k k' : Kind → Read α)
    [∀ x, InStepAtToken (k x) (k' x)] : InStepAtToken (kind >>= k) (kind >>= k') where
  outcome h hrun hrun' := by
    rw [run_kind_bind, h.current.1] at hrun
    rw [run_kind_bind, h.current.2] at hrun'
    exact InStepAtToken.outcome h hrun hrun'

instance (priority := high) InStepAtToken.start (k k' : Nat → Read α)
    [∀ n, InStepAtToken (k n) (k' n)] : InStepAtToken (start >>= k) (start >>= k') where
  outcome h hrun hrun' := by
    rw [run_start_bind, h.current.1] at hrun
    rw [run_start_bind, h.current.2] at hrun'
    exact InStepAtToken.outcome h hrun hrun'

instance (priority := high) InStepAtToken.span (k k' : Span → Read α)
    [∀ n, InStepAtToken (k n) (k' n)] : InStepAtToken (span >>= k) (span >>= k') where
  outcome h hrun hrun' := by
    rw [run_span_bind, h.current.1] at hrun
    rw [run_span_bind, h.current.2] at hrun'
    exact InStepAtToken.outcome h hrun hrun'

/-- A reader that need not consume anything. Where it does not, it gives what it gives at the end
of file. -/
theorem InStep.of_idle {m m' : Read α} [Acting m] [Acting m'] [InStepAtToken m m']
    (hidle : ∀ r : Reading, r.Sound →
      (∀ a r', m.run r = some (a, r') → r'.Silent → r'.tokens.length < r.tokens.length) ∨
      ∃ a, m.run r = some (a, r) ∧
        ∀ s : Reading, s.current.kind = .endOfFile → m'.run s = some (a, s)) :
    InStep m m' where
  outcome {o o' c r s a b r' s'} h hrun hrun' := by
    cases c with
    | cons t c => exact InStepAtToken.outcome h hrun hrun'
    | nil =>
      refine .apart h (Acting.acts hrun) (Acting.acts hrun') fun hend hsilent hsuffix => ?_
      rcases hidle r h.left.sound with hshorter | ⟨x, hx, hx'⟩
      · exact absurd (hshorter a r' hrun hsilent) (h.not_shorter hsuffix)
      · rw [hx] at hrun
        rw [hx' s (h.kind_right hend)] at hrun'
        cases hrun
        cases hrun'
        exact ⟨rfl, _, h⟩

/-! ### Consuming and reporting -/

instance : InStepAtToken take take where
  outcome h hrun hrun' := by
    rw [run_take] at hrun hrun'
    cases hrun
    cases hrun'
    exact .same (h.current.2.trans h.current.1.symm) h.taken

instance (n : Nat) : InStep (spanFrom n) (spanFrom n) where
  outcome {o o' c r s a b r' s'} h hrun hrun' := by
    cases hrun
    cases hrun'
    exact .same (by rw [h.ends]) h

theorem run_report_of_silent {r : Reading} (h : r.Silent) (at_ : Span) (cause : Cause) :
    (report at_ cause).run r = some ((), r.reported ⟨at_, cause⟩) := by
  rw [run_report, Journal.lastDiagnostic?_eq_none h, if_pos (by simp)]

/-- Both readers report something. What they do then does not matter. -/
instance (priority := high) (at_ at_' : Span) (cause cause' : Cause) (k k' : Unit → Read α)
    [∀ x, Acting (k x)] [∀ x, Acting (k' x)] :
    InStep (report at_ cause >>= k) (report at_' cause' >>= k') where
  outcome {o o' c r s a b r' s'} h hrun hrun' := by
    have hacts := Acting.acts hrun
    have hacts' := Acting.acts hrun'
    obtain ⟨_, r₁, hreport, hk⟩ := run_bind_eq_some.1 hrun
    obtain ⟨_, s₁, hreport', hk'⟩ := run_bind_eq_some.1 hrun'
    rw [run_report_of_silent h.left.silent] at hreport
    rw [run_report_of_silent h.right.silent] at hreport'
    cases hreport
    cases hreport'
    cases c with
    | cons t c =>
      exact .reported (by simp) h (.refl r) (.refl s) (Acting.acts hk) (Acting.acts hk')
    | nil =>
      refine .apart h hacts hacts' fun _ hsilent _ => ?_
      exact absurd ((Acting.acts hk).advances.silent hsilent) (Reading.not_silent_reported _ _)

/-! ### Loops -/

/-- Two loops of steps that are in step, for any number of turns. -/
theorem InStep.loopWith (step step' : σ → Read (σ ⊕ α)) [∀ a, Acting (step a)]
    [∀ a, Acting (step' a)] [∀ a, InStep (step a) (step' a)] (turns turns' : Nat) (a : σ) :
    InStep (loopWith step turns a) (loopWith step' turns' a) := by
  induction turns generalizing turns' a with
  | zero => exact ⟨fun _ hrun => by cases hrun⟩
  | succ turns ih =>
    cases turns' with
    | zero => exact ⟨fun _ _ hrun' => by cases hrun'⟩
    | succ turns' =>
      rw [Read.loopWith, Read.loopWith]
      refine @InStep.bind _ _ _ _ _ _ _ _ (fun x => ?_) (fun x => ?_) (fun x => ?_) _
      · cases x <;> infer_instance
      · cases x <;> infer_instance
      · cases x with
        | inl a' => exact ih turns' a'
        | inr b => infer_instance

instance InStep.loop (step step' : σ → Read (σ ⊕ α)) [∀ a, Acting (step a)] [∀ a, Acting (step' a)]
    [∀ a, InStep (step a) (step' a)] (a : σ) :
    InStep (Read.loop step a) (Read.loop step' a) where
  outcome {_ _ _ r s} _ _ _ _ h hrun hrun' :=
    (InStep.loopWith step step' (r.ahead.length + 1) (s.ahead.length + 1) a).outcome h hrun hrun'

/-! ### Eager readers -/

section Eager

variable (m : Read α) (k : α → Read β)

instance Eager.bind [Eager m] [∀ a, Acting (k a)] : Eager (m >>= k) where
  shorter hsound hrun hsilent := by
    obtain ⟨a, r₁, hm, hk⟩ := run_bind_eq_some.1 hrun
    have hadvances := (Acting.acts hk).advances
    have := Eager.shorter hsound hm (hadvances.silent hsilent)
    exact Nat.lt_of_le_of_lt hadvances.length_le this

instance (priority := low) Eager.after [Acting m] [∀ a, Eager (k a)] : Eager (m >>= k) where
  shorter hsound hrun hsilent := by
    obtain ⟨a, r₁, hm, hk⟩ := run_bind_eq_some.1 hrun
    have hacts := Acting.acts hm
    have := Eager.shorter (hacts.sound hsound) hk hsilent
    exact Nat.lt_of_lt_of_le this hacts.advances.length_le

instance (c : Prop) [Decidable c] (m n : Read α) [Eager m] [Eager n] :
    Eager (if c then m else n) := by
  split <;> infer_instance

end Eager

theorem Eager.of_passes {m : Read α}
    (h : ∀ {r : Reading}, r.Since r → Ensures m r fun _ r' => r.Passes r') : Eager m where
  shorter hsound hrun := (h ⟨hsound, .refl _⟩ _ _ hrun).shorter

instance (x : Sign) : Eager (expect (.sign x)) :=
  .of_passes fun h => (expect_passes h (by simp)).imp fun _ _ ht => ht.1

instance (x : Keyword) : Eager (expect (.keyword x)) :=
  .of_passes fun h => (expect_passes h (by simp)).imp fun _ _ ht => ht.1

instance : Eager name := .of_passes fun h => (name_builds h).imp fun _ _ hn => hn.passes

instance : Eager functionName :=
  .of_passes fun h => (functionName_builds h).imp fun _ _ hn => hn.passes

instance : Eager declaration :=
  .of_passes fun h => (declaration_builds h).imp fun _ _ hd => hd.passes

section

variable (depth : Nat)

open Nested (lays_upTo)

instance (parent : Nat) : Eager ((Nested.upTo depth).operand parent) :=
  .of_passes fun h => ((lays_upTo depth).operand parent _ h).imp fun _ _ he => he.passes

instance : Eager (Nested.upTo depth).expression :=
  .of_passes fun h => (expression_builds (lays_upTo depth) h).imp fun _ _ he => he.passes

instance : Eager (Nested.upTo depth).expressions :=
  .of_passes fun h => (expressions_lays (lays_upTo depth) h).imp fun _ _ hes => hes.1

instance : Eager (functionBody (.upTo depth)) :=
  .of_passes fun h => (functionBody_builds (lays_upTo depth) h).imp fun _ _ hf => hf.passes

instance : Eager (field (.upTo depth)) :=
  .of_passes fun h => (field_builds (lays_upTo depth) h).imp fun _ _ hf => hf.passes

instance : Eager (arguments (.upTo depth)) :=
  .of_passes fun h => (arguments_lays (lays_upTo depth) h).imp fun _ _ hes => hes.1

instance : Eager (prefixHead (.upTo depth)) :=
  .of_passes fun h => (prefixHead_forms (lays_upTo depth) h).imp fun _ _ he => he.passes

instance : Eager (unary (.upTo depth)) :=
  .of_passes fun h => (unary_forms (lays_upTo depth) h).imp fun _ _ he => he.passes

instance : Eager (statement (.upTo depth)) :=
  .of_passes fun h => (statement_forms (lays_upTo depth) h).imp fun _ _ hs => hs.1

end

/-! ### Single tokens and lists -/

instance (k : Kind) : InStepAtToken (expect k) (expect k) := by unfold expect; infer_instance

instance (x : Sign) : InStep (expect (.sign x)) (expect (.sign x)) := .of_eager ..
instance (x : Keyword) : InStep (expect (.keyword x)) (expect (.keyword x)) := .of_eager ..

instance : InStepAtToken name name := by unfold name; infer_instance

/-- Consuming a token other than the end of file leaves fewer of them, whatever is read behind it. -/
theorem length_take_bind {k : Token → Read α} [∀ t, Acting (k t)] {r r' : Reading} {a : α}
    (hr : r.Sound) (hk : r.current.kind ≠ .endOfFile) (hrun : (take >>= k).run r = some (a, r')) :
    r'.tokens.length < r.tokens.length := by
  obtain ⟨t, r₁, htake, hrest⟩ := run_bind_eq_some.1 hrun
  rw [run_take] at htake
  cases htake
  exact Nat.lt_of_le_of_lt (Acting.acts hrest).advances.length_le (hr.length_taken hk)

/-- A token that may be there is there in both texts, or in none. -/
theorem InStep.takeIf {x : Kind} (hx : x ≠ .endOfFile) : InStep (takeIf x) (takeIf x) := by
  have : InStepAtToken (Read.takeIf x) (Read.takeIf x) := by unfold Read.takeIf; infer_instance
  refine .of_idle fun r hr => ?_
  unfold Read.takeIf
  simp only [run_kind_bind]
  by_cases hk : r.current.kind = x
  · refine .inl fun a r' hrun _ => ?_
    rw [if_pos hk] at hrun
    exact length_take_bind hr (hk ▸ hx) hrun
  · refine .inr ⟨false, by rw [if_neg hk]; rfl, fun s hs => ?_⟩
    rw [hs, if_neg (Ne.symm hx)]
    rfl

instance (x : Sign) : InStep (takeIf (.sign x)) (takeIf (.sign x)) := .takeIf (by simp)
instance (x : Keyword) : InStep (takeIf (.keyword x)) (takeIf (.keyword x)) := .takeIf (by simp)

instance (x : Sign) (item item' : Read α) [Acting item] [Acting item'] [InStep item item'] :
    InStep (following (.sign x) item) (following (.sign x) item') := by
  unfold following; infer_instance

instance (x : Sign) (item item' : Read α) [Acting item] [Acting item'] [InStep item item'] :
    InStep (separated (.sign x) item) (separated (.sign x) item') := by
  unfold separated; infer_instance

end Read

/-! ## Readers of the grammar -/

class Nested.InStep (inner inner' : Nested) : Prop where
  operand : ∀ parent, Read.InStep (inner.operand parent) (inner'.operand parent)
  block : Read.InStep inner.block inner'.block

-- A reader in sequence has one instance for each of its steps.
set_option synthInstance.maxSize 4096

namespace Read

open Reading (Abreast Outcome)

variable (d d' : Nat) [(Nested.upTo d).InStep (Nested.upTo d')]

instance (parent : Nat) :
    InStep ((Nested.upTo d).operand parent) ((Nested.upTo d').operand parent) :=
  Nested.InStep.operand parent

instance : InStep (Nested.upTo d).block (Nested.upTo d').block := Nested.InStep.block

instance : InStep (Nested.upTo d).expression (Nested.upTo d').expression :=
  Nested.InStep.operand 0

instance : InStep (Nested.upTo d).expressions (Nested.upTo d').expressions := by
  unfold Nested.expressions; infer_instance

instance : InStepAtToken parameters parameters := by unfold parameters; infer_instance

instance : InStep (functionBody (.upTo d)) (functionBody (.upTo d')) := by
  have : InStepAtToken (functionBody (.upTo d)) (functionBody (.upTo d')) := by
    unfold functionBody; infer_instance
  infer_instance

instance : InStepAtToken literal literal := by unfold literal; infer_instance

/-! ### Fields -/

/-- A field behind its first token, where it is known whether it has a name. -/
def fieldRest (inner : Nested) (start : Nat) (named : Bool) : Read Field := do
  if (← kind) = .sign .openBracket then
    let _ ← take
    let key ← inner.expression
    let _ ← expect (.sign .closeBracket)
    let _ ← expect (.sign .equals)
    let value ← inner.expression
    return .keyed key value (← spanFrom start)
  else if named then
    let name ← name
    let _ ← take
    let value ← inner.expression
    return .named name value (← spanFrom start)
  else
    let value ← inner.expression
    return .positional value (← spanFrom start)

theorem field_eq (inner : Nested) : field inner = (do
    let start ← start
    if (← kind) = .name then
      let next ← peekKind
      fieldRest inner start (decide (next = .sign .equals))
    else fieldRest inner start false) := rfl

instance (inner : Nested) [inner.Acting] (st : Nat) (named : Bool) :
    Acting (fieldRest inner st named) := by
  unfold fieldRest; infer_instance

instance (st : Nat) (named : Bool) :
    InStepAtToken (fieldRest (.upTo d) st named) (fieldRest (.upTo d') st named) := by
  unfold fieldRest; infer_instance

theorem run_expect {k : Kind} {r : Reading} (hk : r.current.kind = k) :
    (expect k).run r = some (r.current, r.taken) := by
  rw [expect, run_kind_bind, if_pos hk, run_take]

theorem run_name {r : Reading} (hk : r.current.kind = .name) :
    name.run r = some (⟨r.current.name, r.current.span⟩, r.taken) := by
  rw [name, StateT.run_bind, run_expect hk]
  rfl

/-- An expression that starts with a name starts by consuming it. -/
theorem operand_takes {depth parent : Nat} {r r' : Reading} {e : Expression}
    (hk : r.current.kind = .name)
    (hrun : ((Nested.upTo depth).operand parent).run r = some (e, r')) : r.taken.Acts r' := by
  cases depth with
  | zero => cases hrun
  | succ depth =>
    change (Read.operand (.upTo depth) parent).run r = some (e, r') at hrun
    rw [Read.operand, run_start_bind] at hrun
    obtain ⟨left, r₁, hunary, hloop⟩ := run_bind_eq_some.1 hrun
    rw [unary, run_start_bind, run_kind_bind, hk] at hunary
    change (primary (.upTo depth)).run r = _ at hunary
    rw [primary, run_start_bind, run_kind_bind, hk] at hunary
    obtain ⟨p, r₂, hprefixed, hpure⟩ := run_bind_eq_some.1 hunary
    cases hpure
    rw [prefixExpression, run_start_bind] at hprefixed
    obtain ⟨head, r₃, hhead, hsuffixes⟩ := run_bind_eq_some.1 hprefixed
    rw [prefixHead, run_start_bind, run_kind_bind, hk] at hhead
    obtain ⟨n, r₄, hname, hpure⟩ := run_bind_eq_some.1 hhead
    cases hpure
    rw [run_name hk] at hname
    cases hname
    exact (Acting.acts hsuffixes).trans (Acting.acts hloop)

/-- A field that starts with a name starts by consuming it, whether or not the name is its own. -/
theorem fieldRest_takes {depth st : Nat} {named : Bool} {r r' : Reading} {f : Field}
    (hk : r.current.kind = .name)
    (hrun : (fieldRest (.upTo depth) st named).run r = some (f, r')) : r.taken.Acts r' := by
  rw [fieldRest, run_kind_bind, if_neg (by simp [hk])] at hrun
  cases named with
  | true =>
    obtain ⟨n, r₁, hname, hrest⟩ := run_bind_eq_some.1 hrun
    rw [run_name hk] at hname
    cases hname
    exact Acting.acts hrest
  | false =>
    obtain ⟨e, r₁, he, hrest⟩ := run_bind_eq_some.1 hrun
    exact (operand_takes hk he).trans (Acting.acts hrest)

/-- A field with a name consumes what stands behind the name. -/
theorem fieldRest_named {depth st : Nat} {r r' : Reading} {f : Field}
    (hk : r.current.kind = .name) (hr : r.Sound) (hnext : r.taken.current.kind ≠ .endOfFile)
    (hrun : (fieldRest (.upTo depth) st true).run r = some (f, r')) :
    r'.tokens.length < r.taken.tokens.length := by
  rw [fieldRest, run_kind_bind, if_neg (by simp [hk])] at hrun
  obtain ⟨n, r₁, hname, hrest⟩ := run_bind_eq_some.1 hrun
  rw [run_name hk] at hname
  cases hname
  exact length_take_bind hr.taken hnext hrest

/-- Looking at the second token changes nothing that matters. -/
theorem peekKind_at {r r' : Reading} {t₁ t₂ : Token} {i : List Token} {k : Kind}
    (h : r.At (t₁ :: t₂ :: i)) (hrun : peekKind.run r = some (k, r')) :
    k = t₂.kind ∧ r'.At (t₁ :: t₂ :: i) ∧ r'.previousEnd = r.previousEnd := by
  obtain ⟨hat, hk⟩ := (peekKind_accepts h).ensures k r' hrun
  refine ⟨hk _ _ _ rfl, hat, ?_⟩
  rw [run_peekKind] at hrun
  cases hrun
  exact r.previousEnd_looked

instance : InStepAtToken (field (.upTo d)) (field (.upTo d')) where
  outcome {o o' c t r s a b r' s'} h hrun hrun' := by
    rw [field_eq, run_start_bind, run_kind_bind, h.current.1] at hrun
    rw [field_eq, run_start_bind, run_kind_bind, h.current.2] at hrun'
    by_cases hname : t.kind = .name
    · rw [if_pos hname] at hrun hrun'
      obtain ⟨k, r₁, hpeek, hrest⟩ := run_bind_eq_some.1 hrun
      obtain ⟨k', s₁, hpeek', hrest'⟩ := run_bind_eq_some.1 hrun'
      obtain ⟨u, i, hi⟩ : ∃ u i, c ++ o = u :: i :=
        List.exists_cons_of_ne_nil (by simp [h.more.1])
      obtain ⟨u', i', hi'⟩ : ∃ u i, c ++ o' = u :: i :=
        List.exists_cons_of_ne_nil (by simp [h.more.2])
      have hleft := h.left
      have hright := h.right
      rw [List.cons_append, hi] at hleft
      rw [List.cons_append, hi'] at hright
      obtain ⟨rfl, hat, hends⟩ := peekKind_at hleft hpeek
      obtain ⟨rfl, hat', hends'⟩ := peekKind_at hright hpeek'
      have habreast : Abreast o o' (t :: c) r₁ s₁ := by
        refine ⟨?_, ?_, by rw [hends, hends', h.ends], h.more⟩
        · rw [List.cons_append, hi]
          exact hat
        · rw [List.cons_append, hi']
          exact hat'
      refine Outcome.after ?_ (Acting.acts hpeek) (Acting.acts hpeek')
      by_cases hsame : u.kind = .sign .equals ↔ u'.kind = .sign .equals
      · rw [← decide_eq_decide.2 hsame] at hrest'
        exact InStepAtToken.outcome habreast hrest hrest'
      -- The texts differ in the token behind the name, which both consume first.
      · have hc : c = [] := by
          cases c with
          | nil => rfl
          | cons x c =>
            cases hi
            cases hi'
            exact absurd Iff.rfl hsame
        subst hc
        have hk : r₁.current.kind = .name := by rw [habreast.current.1, hname]
        have hk' : s₁.current.kind = .name := by rw [habreast.current.2, hname]
        refine .passed habreast.taken (.single (.took r₁)) (.single (.took s₁))
          (fieldRest_takes hk hrest) (fieldRest_takes hk' hrest') ?_
        rintro ⟨eof, rfl, heof⟩ _ hsuffix
        cases hi'
        have hequals : u.kind = .sign .equals := by simpa [heof] using hsame
        rw [decide_eq_true hequals] at hrest
        have hnext : r₁.taken.current = u := by
          have hat := habreast.taken.left
          rw [hi] at hat
          exact hat.current
        have hshorter := fieldRest_named hk habreast.left.sound (by simp [hnext, hequals]) hrest
        exact absurd hshorter (habreast.taken.not_shorter hsuffix)
    · rw [if_neg hname] at hrun hrun'
      exact InStepAtToken.outcome h hrun hrun'

/-- What may stand behind a field. -/
def fieldEnd (fields : List Field) : Read (List Field ⊕ List Field) := do
  if (← kind) = .sign .comma ∨ (← kind) = .sign .semicolon then
    let _ ← take
    return .inl fields
  else return .inr fields

/-- One more field of a table, or the end of them. -/
def fieldStep (inner : Nested) (fields : List Field) : Read (List Field ⊕ List Field) := do
  if (← kind) = .sign .closeBrace ∨ (← kind) = .endOfFile then return .inr fields
  let field ← field inner
  fieldEnd (fields ++ [field])

theorem table_eq (inner : Nested) : table inner = (do
    let start ← start
    let _ ← expect (.sign .openBrace)
    let fields ← loop (fieldStep inner) []
    let _ ← expect (.sign .closeBrace)
    return .table fields (← spanFrom start)) := rfl

instance (fields : List Field) : Acting (fieldEnd fields) := by unfold fieldEnd; infer_instance

instance (inner : Nested) [inner.Acting] (fields : List Field) : Acting (fieldStep inner fields) := by
  unfold fieldStep; infer_instance

instance (fields : List Field) : InStep (fieldEnd fields) (fieldEnd fields) := by
  have : InStepAtToken (fieldEnd fields) (fieldEnd fields) := by unfold fieldEnd; infer_instance
  refine .of_idle fun r hr => ?_
  unfold fieldEnd
  simp only [run_kind_bind]
  by_cases hk : r.current.kind = .sign .comma ∨ r.current.kind = .sign .semicolon
  · refine .inl fun a r' hrun _ => ?_
    rw [if_pos hk] at hrun
    exact length_take_bind hr (by rcases hk with hk | hk <;> simp [hk]) hrun
  · refine .inr ⟨.inr fields, by rw [if_neg hk]; rfl, fun s hs => ?_⟩
    rw [if_neg (by simp [hs])]
    rfl

instance (fields : List Field) : InStep (fieldStep (.upTo d) fields) (fieldStep (.upTo d') fields) := by
  have : InStepAtToken (fieldStep (.upTo d) fields) (fieldStep (.upTo d') fields) := by
    unfold fieldStep; infer_instance
  refine .of_idle fun r hr => ?_
  unfold fieldStep
  simp only [run_kind_bind]
  by_cases hk : r.current.kind = .sign .closeBrace ∨ r.current.kind = .endOfFile
  · refine .inr ⟨.inr fields, by rw [if_pos hk]; rfl, fun s hs => ?_⟩
    rw [if_pos (by simp [hs])]
    rfl
  · refine .inl fun a r' hrun hsilent => ?_
    rw [if_neg hk] at hrun
    exact Eager.shorter hr hrun hsilent

instance : InStepAtToken (table (.upTo d)) (table (.upTo d')) := by
  rw [table_eq, table_eq]; infer_instance

instance : InStepAtToken (arguments (.upTo d)) (arguments (.upTo d')) := by
  unfold arguments
  refine @InStepAtToken.kind _ _ _ fun k => ?_
  split <;> infer_instance

instance : InStepAtToken (prefixHead (.upTo d)) (prefixHead (.upTo d')) := by
  unfold prefixHead
  refine @InStepAtToken.start _ _ _ fun st => @InStepAtToken.kind _ _ _ fun k => ?_
  split <;> infer_instance

instance (st : Nat) (e : Expression × Shape) :
    InStep (suffix (.upTo d) st e) (suffix (.upTo d') st e) := by
  have : InStepAtToken (suffix (.upTo d) st e) (suffix (.upTo d') st e) := by
    unfold suffix
    refine @InStepAtToken.kind _ _ _ fun k => ?_
    split <;> infer_instance
  refine .of_idle fun r hr => ?_
  unfold suffix
  simp only [run_kind_bind]
  split
  iterate 3
    · rename_i hk
      exact .inl fun a r' hrun _ => length_take_bind hr (by simp [hk]) hrun
  iterate 3
    · exact .inl fun a r' hrun hsilent => Eager.shorter hr hrun hsilent
  · refine .inr ⟨.inr e, rfl, fun s hs => ?_⟩
    rw [hs]
    rfl

instance : InStep (prefixExpression (.upTo d)) (prefixExpression (.upTo d')) := by
  have : InStepAtToken (prefixExpression (.upTo d)) (prefixExpression (.upTo d')) := by
    unfold prefixExpression; infer_instance
  have : Eager (prefixExpression (.upTo d)) := by unfold prefixExpression; infer_instance
  infer_instance

instance : InStepAtToken (primary (.upTo d)) (primary (.upTo d')) := by
  unfold primary
  refine @InStepAtToken.start _ _ _ fun st => @InStepAtToken.kind _ _ _ fun k => ?_
  split <;> infer_instance

instance : InStepAtToken (unary (.upTo d)) (unary (.upTo d')) := by
  unfold unary
  refine @InStepAtToken.start _ _ _ fun st => @InStepAtToken.kind _ _ _ fun k => ?_
  split <;> infer_instance

instance (parent st : Nat) (left : Expression) :
    InStep (infixed (.upTo d) parent st left) (infixed (.upTo d') parent st left) := by
  have : InStepAtToken (infixed (.upTo d) parent st left) (infixed (.upTo d') parent st left) := by
    unfold infixed
    refine @InStepAtToken.kind _ _ _ fun k => ?_
    split <;> infer_instance
  refine .of_idle fun r hr => ?_
  have hstop (s : Reading) (hs : s.current.kind = .endOfFile) :
      (infixed (.upTo d') parent st left).run s = some (.inr left, s) := by
    unfold infixed
    rw [run_kind_bind, hs]
    rfl
  unfold infixed at hstop ⊢
  simp only [run_kind_bind] at hstop ⊢
  split
  next op hop =>
    have hk := BinaryOperator.kind_of_ofKind? hop
    split
    · exact .inl fun a r' hrun _ => length_take_bind hr (hk ▸ op.kind_ne_endOfFile) hrun
    · exact .inr ⟨.inr left, rfl, hstop⟩
  next => exact .inr ⟨.inr left, rfl, hstop⟩

instance (parent : Nat) :
    InStepAtToken (Read.operand (.upTo d) parent) (Read.operand (.upTo d') parent) := by
  unfold Read.operand; infer_instance

/-! ### Statements -/

instance : InStep (blockToEnd (.upTo d)) (blockToEnd (.upTo d')) := by
  unfold blockToEnd; infer_instance

instance : InStep (results (.upTo d)) (results (.upTo d')) := by
  have : InStepAtToken (results (.upTo d)) (results (.upTo d')) := by
    unfold results; infer_instance
  refine .of_idle fun r hr => ?_
  unfold results
  simp only [run_kind_bind]
  by_cases hk : endsBlock r.current.kind = true ∨ r.current.kind = .sign .semicolon
  · refine .inr ⟨[], by rw [if_pos hk]; rfl, fun s hs => ?_⟩
    rw [hs, if_pos (.inl rfl)]
    rfl
  · refine .inl fun a r' hrun hsilent => ?_
    rw [if_neg hk] at hrun
    exact Eager.shorter hr hrun hsilent

instance : InStepAtToken (result (.upTo d)) (result (.upTo d')) := by unfold result; infer_instance
instance : InStepAtToken (elseIf (.upTo d)) (elseIf (.upTo d')) := by unfold elseIf; infer_instance

instance : InStep (elseIfs (.upTo d)) (elseIfs (.upTo d')) := by
  unfold elseIfs
  refine @InStep.loop _ _ _ _ _ _ (fun elseIfs => ?_) _
  refine .of_idle fun r hr => ?_
  simp only [run_kind_bind]
  by_cases hk : r.current.kind = .keyword .«elseif»
  · refine .inl fun a r' hrun hsilent => ?_
    rw [if_pos hk] at hrun
    obtain ⟨e, r₁, he, hrest⟩ := run_bind_eq_some.1 hrun
    cases hrest
    have hbuilds := elseIf_builds (Nested.lays_upTo d) ⟨hr, .refl r⟩ (by simp [hk]) e r' he
    exact hbuilds.passes.shorter hsilent
  · refine .inr ⟨.inr elseIfs, by rw [if_neg hk]; rfl, fun s hs => ?_⟩
    rw [hs, if_neg (by simp)]
    rfl

instance : InStep (otherwise (.upTo d)) (otherwise (.upTo d')) := by
  unfold otherwise; infer_instance

instance : InStepAtToken (ifThen (.upTo d)) (ifThen (.upTo d')) := by unfold ifThen; infer_instance
instance : InStep (step (.upTo d)) (step (.upTo d')) := by unfold step; infer_instance
instance : InStepAtToken (forLoop (.upTo d)) (forLoop (.upTo d')) := by
  unfold forLoop; infer_instance

instance : InStep method method := by unfold method; infer_instance
instance : InStepAtToken functionName functionName := by unfold functionName; infer_instance
instance : InStepAtToken (function (.upTo d)) (function (.upTo d')) := by
  unfold function; infer_instance

instance : InStep attrib attrib := by unfold attrib; infer_instance
instance : InStepAtToken declaration declaration := by unfold declaration; infer_instance
instance : InStep (initializer (.upTo d)) (initializer (.upTo d')) := by
  unfold initializer; infer_instance

instance : InStepAtToken (localStatement (.upTo d)) (localStatement (.upTo d')) := by
  unfold localStatement; infer_instance

instance (target : Expression) : InStep (checkTarget target) (checkTarget target) := by
  unfold checkTarget; dsimp only; infer_instance

instance : InStepAtToken (callOrAssign (.upTo d)) (callOrAssign (.upTo d')) := by
  unfold callOrAssign; infer_instance

instance : InStepAtToken (statement (.upTo d)) (statement (.upTo d')) := by
  unfold statement
  refine @InStepAtToken.start _ _ _ fun st => @InStepAtToken.kind _ _ _ fun k => ?_
  split <;> infer_instance

/-- A statement that reports nothing consumes something, so no token is dropped behind it. -/
theorem run_statementOrSkip {depth : Nat} {r r₁ : Reading} {x : Option Statement} (hr : r.Sound)
    (hrun : (statement (.upTo depth)).run r = some (x, r₁)) (hsilent : r₁.Silent) :
    (statementOrSkip (.upTo depth)).run r = some (x, r₁) := by
  have hlt := hr.start_lt (Acting.acts hrun).advances (Eager.shorter hr hrun hsilent)
  rw [statementOrSkip, run_start_bind]
  refine run_bind_eq_some.2 ⟨x, r₁, hrun, ?_⟩
  rw [run_start_bind, run_kind_bind, if_neg (by omega)]
  rfl

instance : InStep (statementOrSkip (.upTo d)) (statementOrSkip (.upTo d')) where
  outcome {o o' c r s a b r' s'} h hrun hrun' := by
    obtain ⟨x, r₁, hx, hrest⟩ : ∃ x r₁, (statement (.upTo d)).run r = some (x, r₁) ∧ r₁.Acts r' := by
      rw [statementOrSkip, run_start_bind] at hrun
      obtain ⟨x, r₁, hx, hrest⟩ := run_bind_eq_some.1 hrun
      exact ⟨x, r₁, hx, Acting.acts hrest⟩
    obtain ⟨y, s₁, hy, hrest'⟩ : ∃ y s₁, (statement (.upTo d')).run s = some (y, s₁) ∧ s₁.Acts s' := by
      rw [statementOrSkip, run_start_bind] at hrun'
      obtain ⟨y, s₁, hy, hrest'⟩ := run_bind_eq_some.1 hrun'
      exact ⟨y, s₁, hy, Acting.acts hrest'⟩
    have hdone {c' : List Token} (hyx : y = x) (hab : Abreast o o' c' r₁ s₁) :
        b = a ∧ ∃ c, Abreast o o' c r' s' := by
      rw [run_statementOrSkip h.left.sound hx hab.left.silent] at hrun
      rw [run_statementOrSkip h.right.sound hy hab.right.silent] at hrun'
      cases hrun
      cases hrun'
      exact ⟨hyx, _, hab⟩
    cases InStep.outcome h hx hy with
    | same hyx habreast =>
      obtain ⟨hba, _, hab⟩ := hdone hyx habreast
      exact .same hba hab
    | reported hc habreast hr₁ hs₁ hr' hs' =>
      exact .reported hc habreast hr₁ hs₁ (hr'.trans hrest) (hs'.trans hrest')
    | passed habreast hr₁ hs₁ hr' hs' hagree =>
      refine .passed habreast hr₁ hs₁ (hr'.trans hrest) (hs'.trans hrest') ?_
      intro hend hsilent hsuffix
      obtain ⟨hyx, _, hab⟩ := hagree hend (hrest.advances.silent hsilent)
        (hsuffix.trans hrest.advances.tokens)
      exact hdone hyx hab

/-! ### Blocks -/

/-- One more statement of a block, or the end of them. -/
def blockStep (inner : Nested) (statements : List Statement) :
    Read (List Statement ⊕ (List Statement × Option Return)) := do
  if endsBlock (← kind) then return .inr (statements, none)
  else if (← kind) = .keyword .«return» then return .inr (statements, some (← result inner))
  else if ← takeIf (.sign .semicolon) then return .inl statements
  else return .inl (statements ++ (← statementOrSkip inner).toList)

instance (inner : Nested) [inner.Acting] (statements : List Statement) :
    Acting (blockStep inner statements) := by
  unfold blockStep; infer_instance

end Read

/-- The stretch of a block that was read from `r` to `r'`. -/
def Reading.blockSpan (r r' : Reading) : Span :=
  if r'.current.span.start = r.current.span.start then
    Span.empty (min r'.previousEnd r.current.span.start)
  else ⟨r.current.span.start, max r'.previousEnd r.current.span.start⟩

namespace Read

open Reading (Abreast Outcome blockSpan)

variable (d d' : Nat) [(Nested.upTo d).InStep (Nested.upTo d')]

/-- A block is the statements that are read, and stands where they were read. -/
theorem run_block {inner : Nested} {r r' : Reading} {b : Block}
    (hrun : (Read.block inner).run r = some (b, r')) :
    ∃ x, (loop (blockStep inner) []).run r = some (x, r') ∧
      b = ⟨x.1, x.2, r.blockSpan r'⟩ := by
  rw [Read.block, run_start_bind] at hrun
  obtain ⟨x, r₁, hloop, hrest⟩ := run_bind_eq_some.1 hrun
  obtain ⟨ss, last⟩ := x
  change (start >>= _).run r₁ = _ at hrest
  rw [run_start_bind] at hrest
  unfold blockSpan
  split at hrest
  next hsame =>
    cases hrest
    exact ⟨_, hloop, by rw [if_pos hsame]⟩
  next hlater =>
    cases hrest
    exact ⟨_, hloop, by rw [if_neg hlater]⟩

instance (depth : Nat) : Eager (result (.upTo depth)) := by unfold result; infer_instance

instance (depth : Nat) : Eager (statementOrSkip (.upTo depth)) := by
  unfold statementOrSkip; dsimp only; infer_instance

/-- Before a token that does not end the block, something is consumed. -/
theorem blockStep_shorter {depth : Nat} {statements : List Statement} {r : Reading} (hr : r.Sound)
    (hends : ¬ endsBlock r.current.kind = true) :
    Ensures (blockStep (.upTo depth) statements) r fun _ r' =>
      r'.Silent → r'.tokens.length < r.tokens.length := by
  have hne : r.current.kind ≠ .endOfFile := by
    intro he
    rw [he] at hends
    exact hends rfl
  unfold blockStep
  simp only [ensures_bind, ensures_kind, ensures_ite, ensures_pure, ensures_takeIf]
  rw [if_neg hends]
  split
  · exact fun x r' hrun hsilent => Eager.shorter hr hrun hsilent
  split
  · simp only [if_true]
    exact fun _ => hr.length_taken hne
  · simp only [Bool.false_eq_true, if_false]
    exact fun x r' hrun hsilent => Eager.shorter hr hrun hsilent

instance (statements : List Statement) :
    InStep (blockStep (.upTo d) statements) (blockStep (.upTo d') statements) := by
  have : InStepAtToken (blockStep (.upTo d) statements) (blockStep (.upTo d') statements) := by
    unfold blockStep; infer_instance
  refine .of_idle fun r hr => ?_
  by_cases hends : endsBlock r.current.kind = true
  · have hdone (depth : Nat) (s : Reading) (hs : endsBlock s.current.kind = true) :
        (blockStep (.upTo depth) statements).run s = some (.inr (statements, none), s) := by
      rw [blockStep, run_kind_bind, if_pos hs]
      rfl
    exact .inr ⟨_, hdone d r hends, fun s hs => hdone d' s (by rw [hs]; rfl)⟩
  · exact .inl (blockStep_shorter hr hends)

end Read

/-- Blocks that were read abreast stand at the same place. -/
theorem Reading.Abreast.blockSpan_eq {o o' c c' : List Token} {r s r' s' : Reading}
    (h : Abreast o o' c r s) (h' : Abreast o o' c' r' s') (hr : r.Acts r') (hs : s.Acts s') :
    s.blockSpan s' = r.blockSpan r' := by
  have hle := hr.advances.tokens.length_le
  rw [h.left.tokens, h'.left.tokens, List.length_append, List.length_append] at hle
  cases c with
  | nil =>
    -- Nothing was consumed, so the blocks are empty.
    obtain rfl : c' = [] := by
      rw [List.length_nil] at hle
      exact List.length_eq_zero_iff.1 (by omega)
    have hcurrent : r'.current = r.current :=
      (List.cons.inj (h'.left.tokens.trans h.left.tokens.symm)).1
    have hcurrent' : s'.current = s.current :=
      (List.cons.inj (h'.right.tokens.trans h.right.tokens.symm)).1
    have hstart := h'.left.sound.start_ge
    have hstart' := h'.right.sound.start_ge
    rw [hcurrent] at hstart
    rw [hcurrent'] at hstart'
    rw [blockSpan, blockSpan, hcurrent, hcurrent', if_pos rfl, if_pos rfl,
      Nat.min_eq_left hstart, Nat.min_eq_left hstart', h'.ends]
  | cons t c =>
    rw [blockSpan, blockSpan, h.current.1, h.current.2, h'.ends]
    cases c' with
    | cons t' c' => rw [h'.current.1, h'.current.2]
    | nil =>
      have hshorter (o : List Token) : ([] ++ o).length < (t :: c ++ o).length := by
        rw [List.nil_append, List.length_append, List.length_cons]
        omega
      have hlt := h.left.sound.start_lt hr.advances (by
        rw [h.left.tokens, h'.left.tokens]
        exact hshorter o)
      have hlt' := h.right.sound.start_lt hs.advances (by
        rw [h.right.tokens, h'.right.tokens]
        exact hshorter o')
      rw [h.current.1] at hlt
      rw [h.current.2] at hlt'
      rw [if_neg (by omega), if_neg (by omega)]

namespace Read

open Reading (Abreast Outcome)

instance (d d' : Nat) [(Nested.upTo d).InStep (Nested.upTo d')] :
    InStep (Read.block (.upTo d)) (Read.block (.upTo d')) where
  outcome {o o' c r s a b r' s'} h hrun hrun' := by
    have hacts := Acting.acts hrun
    have hacts' := Acting.acts hrun'
    obtain ⟨x, hx, rfl⟩ := run_block hrun
    obtain ⟨y, hy, rfl⟩ := run_block hrun'
    have hdone {c' : List Token} (hyx : y = x) (hab : Abreast o o' c' r' s') :
        Block.mk y.1 y.2 (s.blockSpan s') = ⟨x.1, x.2, r.blockSpan r'⟩ := by
      rw [hyx, h.blockSpan_eq hab hacts hacts']
    cases InStep.outcome h hx hy with
    | same hyx habreast => exact .same (hdone hyx habreast) habreast
    | reported hc habreast hr₁ hs₁ hr' hs' => exact .reported hc habreast hr₁ hs₁ hr' hs'
    | passed habreast hr₁ hs₁ hr' hs' hagree =>
      refine .passed habreast hr₁ hs₁ hr' hs' fun hend hsilent hsuffix => ?_
      obtain ⟨hyx, c', hab⟩ := hagree hend hsilent hsuffix
      exact ⟨hdone hyx hab, c', hab⟩

end Read

/-- Readers of nested constructs are in step, however deep they may nest. -/
instance Nested.inStep_upTo (d d' : Nat) : (Nested.upTo d).InStep (Nested.upTo d') := by
  induction d generalizing d' with
  | zero => exact ⟨fun _ => ⟨fun _ hrun => by cases hrun⟩, ⟨fun _ hrun => by cases hrun⟩⟩
  | succ d ih =>
    cases d' with
    | zero => exact ⟨fun _ => ⟨fun _ _ hrun' => by cases hrun'⟩, ⟨fun _ _ hrun' => by cases hrun'⟩⟩
    | succ d' =>
      have := ih d'
      have hoperand (parent : Nat) :
          Read.InStep ((Nested.upTo (d + 1)).operand parent) ((Nested.upTo (d' + 1)).operand parent) :=
        @Read.InStep.of_eager _ _ _
          (inferInstanceAs (Read.InStepAtToken (Read.operand _ parent) (Read.operand _ parent)))
          _ _ _
      exact ⟨hoperand, inferInstanceAs (Read.InStep (Read.block _) (Read.block _))⟩

end Syntax
end LuaFront
