import LuaFront.Proofs.Syntax.InStep

/-!
# LuaFront.Proofs.Syntax.Blame

What readers do up to the first diagnostic.

* `Reading.Takes r r'`: from `r` to `r'` tokens were consumed, and some looked at, and nothing else
  was done.
* `Reading.Blames r d`: the diagnostic `d` is about the current token and names its kind, or it is
  about a target that was read just before that token.
* `Reading.Prompted r r'`: tokens were consumed, and if anything else was done then a diagnostic
  came first, which blames the token that was current then. If that was the end of file then some
  diagnostic says so (`Reading.Told`).
* `Read.Prompt m`: this is how the reader `m` works. It is a class, as `Read.Acting` is; readers
  that consume a token without a look at it have it only where a token is left
  (`Read.PromptAtToken`).
-/

namespace LuaFront

/-- What went wrong is that a token of this kind was met. -/
inductive Cause.Names (k : Kind) : Cause → Prop where
  | unexpectedToken (expected : Kind) : Names k (.unexpectedToken expected k)
  | expectedExpression : Names k (.expectedExpression k)

namespace Syntax

open Text (Span)

namespace Reading

variable {r r₁ r₂ r' : Reading}

/-- No diagnostic was met so far, and none is to be met in a token that is left. -/
def Ready (r : Reading) : Prop := r.At r.tokens

theorem At.ready {i : List Token} (h : r.At i) : r.Ready := ⟨h.sound, h.silent, h.clean, rfl⟩

theorem Ready.sound (h : r.Ready) : r.Sound := At.sound h

theorem Ready.silent (h : r.Ready) : r.Silent := At.silent h

theorem Ready.taken (h : r.Ready) (hk : r.current.kind ≠ .endOfFile) : r.taken.Ready :=
  (At.taken h hk).ready

theorem Ready.events_taken (h : r.Ready) :
    r.taken.journal.events = r.journal.events ++ [.took r.current] := by
  rw [journal_taken (At.clean h)]
  exact Journal.events_record ..

/-- Looking at a token that there is nothing to say about leaves nothing to say. -/
theorem Ready.looked (h : r.Ready) : r.looked.Ready := by
  refine ⟨h.sound.looked, ?_, ?_, rfl⟩
  · unfold Silent diagnostics
    rw [journal_looked (At.clean h)]
    exact h.silent
  · rw [ahead_looked]
    exact At.clean h

/-- Tokens other than the end of file were consumed, and some were looked at. -/
inductive Takes (r : Reading) : Reading → Prop where
  | refl : Takes r r
  | took {r' : Reading} : Takes r r' → r'.current.kind ≠ .endOfFile → Takes r r'.taken
  | looked {r' : Reading} : Takes r r' → Takes r r'.looked

namespace Takes

theorem trans (h₁ : Takes r r₁) (h₂ : Takes r₁ r₂) : Takes r r₂ := by
  induction h₂ with
  | refl => exact h₁
  | took _ hk ih => exact .took ih hk
  | looked _ ih => exact .looked ih

theorem acts (h : Takes r r₁) : r.Acts r₁ := by
  induction h with
  | refl => exact .refl r
  | took _ _ ih => exact ih.trans (.single (.took _))
  | looked _ ih => exact ih.trans (.single (.looked _))

theorem ready (h : Takes r r₁) (hr : r.Ready) : r₁.Ready := by
  induction h with
  | refl => exact hr
  | took _ hk ih => exact ih.taken hk
  | looked _ ih => exact ih.looked

/-- The tokens that were consumed, which are all that the journal holds besides. -/
theorem consumed (h : Takes r r₁) (hr : r.Ready) :
    ∃ c : List Token, r.tokens = c ++ r₁.tokens ∧ (∀ t ∈ c, t.kind ≠ .endOfFile) ∧
      r₁.journal.events = r.journal.events ++ c.map .took ∧
      r₁.previousEnd = (c.getLast?.map fun t => t.span.stop).getD r.previousEnd := by
  induction h with
  | refl => exact ⟨[], rfl, by simp, by simp, rfl⟩
  | @took r' h hk ih =>
    obtain ⟨c, htokens, hkinds, hevents, hend⟩ := ih
    have hr' := h.ready hr
    refine ⟨c ++ [r'.current], ?_, ?_, ?_, ?_⟩
    · rw [htokens, hr'.sound.tokens_eq hk, List.append_assoc]
      rfl
    · rw [List.forall_mem_append, List.forall_mem_singleton]
      exact ⟨hkinds, hk⟩
    · rw [hr'.events_taken, hevents, List.map_append, List.append_assoc]
      rfl
    · rw [previousEnd_taken, List.getLast?_append]
      have := hr'.sound.start_ge
      have := hr'.sound.start_le_stop
      simp
      omega
  | @looked r' h ih =>
    rw [tokens_looked, previousEnd_looked, journal_looked (At.clean (h.ready hr))]
    exact ih

end Takes

/-- What a diagnostic may be about when it is the first one: the current token, or a target that was
read up to it. -/
inductive Blames (r : Reading) : Diagnostic → Prop where
  | current {cause : Cause} : cause.Names r.current.kind → Blames r ⟨r.current.span, cause⟩
  | target {r₀ : Reading} {depth : Nat} {e : Expression} {shape : Read.Shape} : r₀.Ready →
      r₀.Takes r → (Read.prefixExpression (.upTo depth)).run r₀ = some ((e, shape), r) →
      e.isVariable = false → Blames r ⟨e.span, .invalidAssignmentTarget⟩

/-- It was said that the end of file was met. -/
def Told (r : Reading) : Prop := ∃ d ∈ r.diagnostics, d.cause.Names .endOfFile

theorem told_reported {d : Diagnostic} (h : d.cause.Names .endOfFile) : (r.reported d).Told :=
  ⟨d, by simp [diagnostics, reported], h⟩

theorem Told.mono (h : r.Told) (hacts : r.Acts r') : r'.Told := by
  obtain ⟨d, hd, hnames⟩ := h
  exact ⟨d, hacts.advances.diagnostics.subset hd, hnames⟩

/-- Tokens were consumed; if anything else was done, then a diagnostic was met first. -/
inductive Prompted (r r' : Reading) : Prop where
  | took : r.Takes r' → Prompted r r'
  | blamed {s : Reading} {d : Diagnostic} : r.Takes s → s.Blames d → (s.reported d).Acts r' →
      (s.current.kind = .endOfFile → r'.Told) → Prompted r r'

namespace Prompted

theorem after (hr : r.Takes r₁) (h : Prompted r₁ r₂) : Prompted r r₂ := by
  cases h with
  | took h => exact .took (hr.trans h)
  | blamed htakes hblames hacts htold => exact .blamed (hr.trans htakes) hblames hacts htold

theorem takes (h : Prompted r r') (hs : r'.Silent) : r.Takes r' := by
  cases h with
  | took h => exact h
  | blamed _ _ hacts _ => exact absurd (hacts.advances.silent hs) (not_silent_reported _ _)

/-- One reader behind another, of which something is known only where nothing was reported. -/
theorem bind (hr : r.Ready) (h : Prompted r r₁) (hacts : r₁.Acts r₂)
    (hnext : r.Takes r₁ → r₁.Ready → Prompted r₁ r₂) : Prompted r r₂ := by
  cases h with
  | took htakes => exact .after htakes (hnext htakes (htakes.ready hr))
  | blamed htakes hblames hrest htold =>
    exact .blamed htakes hblames (hrest.trans hacts) fun hk => (htold hk).mono hacts

end Prompted
end Reading

/-! ## Prompt readers -/

namespace Read

open Reading (Ready Prompted)

variable {α β σ : Type}

class Prompt (m : Read α) : Prop where
  prompted : ∀ {r : Reading} {a : α} {r' : Reading}, r.Ready → m.run r = some (a, r') →
    r.Prompted r'

/-- A reader that is prompt where a token is left. -/
class PromptAtToken (m : Read α) : Prop where
  prompted : ∀ {r : Reading} {a : α} {r' : Reading}, r.Ready → r.current.kind ≠ .endOfFile →
    m.run r = some (a, r') → r.Prompted r'

instance (priority := low) PromptAtToken.of_prompt (m : Read α) [Prompt m] : PromptAtToken m where
  prompted h _ hrun := Prompt.prompted h hrun

section Bind

variable (m : Read α) (k : α → Read β) [∀ a, Acting (k a)] [∀ a, Prompt (k a)]

theorem prompted_bind {r : Reading} {b : β} {r'' : Reading} (hr : r.Ready)
    (hm : ∀ {a r'}, m.run r = some (a, r') → r.Prompted r')
    (hrun : (m >>= k).run r = some (b, r'')) : r.Prompted r'' := by
  obtain ⟨a, r', hmr, hk⟩ := run_bind_eq_some.1 hrun
  exact (hm hmr).bind hr (Acting.acts hk) fun _ hr' => Prompt.prompted hr' hk

instance Prompt.bind [Prompt m] : Prompt (m >>= k) where
  prompted hr hrun := prompted_bind m k hr (Prompt.prompted hr) hrun

instance PromptAtToken.bind [PromptAtToken m] : PromptAtToken (m >>= k) where
  prompted hr hk hrun := prompted_bind m k hr (PromptAtToken.prompted hr hk) hrun

end Bind

instance (a : α) : Prompt (pure a) where
  prompted _ hrun := by
    cases hrun
    exact .took .refl

instance : Prompt (failure : Read α) where
  prompted _ hrun := by cases hrun

instance (f : α → β) (m : Read α) [Prompt m] : Prompt (f <$> m) := by
  rw [map_eq_pure_bind]
  infer_instance

instance (c : Prop) [Decidable c] (m m' : Read α) [Prompt m] [Prompt m'] :
    Prompt (if c then m else m') := by
  split <;> infer_instance

instance (c : Prop) [Decidable c] (m m' : Read α) [PromptAtToken m] [PromptAtToken m'] :
    PromptAtToken (if c then m else m') := by
  split <;> infer_instance

instance : Prompt (get : Read Reading) where
  prompted _ hrun := by
    cases hrun
    exact .took .refl

instance : Prompt kind := by unfold kind; infer_instance
instance : Prompt start := by unfold start; infer_instance
instance : Prompt span := by unfold span; infer_instance
instance (n : Nat) : Prompt (spanFrom n) := by unfold spanFrom; infer_instance

instance (priority := high) PromptAtToken.start (k : Nat → Read α) [∀ x, PromptAtToken (k x)] :
    PromptAtToken (start >>= k) where
  prompted hr hk hrun := by
    rw [run_start_bind] at hrun
    exact PromptAtToken.prompted hr hk hrun

instance : PromptAtToken take where
  prompted hr hk hrun := by
    rw [run_take] at hrun
    cases hrun
    exact .took (.took .refl hk)

/-- What is reported of the current token is reported in time. -/
theorem prompted_report {k : Unit → Read α} [∀ x, Acting (k x)] {cause : Cause} {r r' : Reading}
    {a : α} (hr : r.Ready) (hnames : cause.Names r.current.kind)
    (hrun : (report r.current.span cause >>= k).run r = some (a, r')) : r.Prompted r' := by
  obtain ⟨_, r₁, hreport, hk⟩ := run_bind_eq_some.1 hrun
  rw [run_report_of_silent hr.silent] at hreport
  cases hreport
  refine .blamed .refl (.current hnames) (Acting.acts hk) fun hend => ?_
  exact (Reading.told_reported (hend ▸ hnames)).mono (Acting.acts hk)

theorem prompted_takeIf {x : Kind} (hx : x ≠ .endOfFile) : Prompt (takeIf x) where
  prompted {r a r'} hr hrun := by
    rw [takeIf, run_kind_bind] at hrun
    split at hrun
    next hk => exact PromptAtToken.prompted hr (hk ▸ hx) hrun
    next => exact Prompt.prompted hr hrun

instance (x : Sign) : Prompt (takeIf (.sign x)) := prompted_takeIf (by simp)
instance (x : Keyword) : Prompt (takeIf (.keyword x)) := prompted_takeIf (by simp)

theorem prompted_expect {x : Kind} (hx : x ≠ .endOfFile) : Prompt (expect x) where
  prompted {r a r'} hr hrun := by
    rw [expect, run_kind_bind] at hrun
    split at hrun
    next hk => exact PromptAtToken.prompted hr (hk ▸ hx) hrun
    next =>
      rw [run_span_bind, run_kind_bind] at hrun
      exact prompted_report hr (.unexpectedToken x) hrun

instance (x : Sign) : Prompt (expect (.sign x)) := prompted_expect (by simp)
instance (x : Keyword) : Prompt (expect (.keyword x)) := prompted_expect (by simp)

instance : Prompt name := by
  have : Prompt (expect .name) := prompted_expect (by simp)
  unfold name
  infer_instance

instance : Prompt peekKind where
  prompted {r _ _} hr hrun := by
    rw [run_peekKind] at hrun
    cases hrun
    exact .took (.looked .refl)

instance (step : σ → Read (σ ⊕ α)) [∀ a, Acting (step a)] [∀ a, Prompt (step a)] (turns : Nat)
    (a : σ) : Prompt (loopWith step turns a) := by
  induction turns generalizing a with
  | zero => unfold loopWith; infer_instance
  | succ turns ih =>
    rw [loopWith]
    refine @Prompt.bind _ _ _ _ (fun x => ?_) (fun x => ?_) _
    · cases x <;> infer_instance
    · cases x <;> infer_instance

instance (step : σ → Read (σ ⊕ α)) [∀ a, Acting (step a)] [∀ a, Prompt (step a)] (a : σ) :
    Prompt (loop step a) := by
  unfold loop; infer_instance

instance (x : Sign) (item : Read α) [Acting item] [Prompt item] :
    Prompt (following (.sign x) item) := by
  unfold following; infer_instance

instance (x : Sign) (item : Read α) [Acting item] [Prompt item] :
    Prompt (separated (.sign x) item) := by
  unfold separated; infer_instance

end Read

/-! ## Readers of the grammar -/

class Nested.Prompt (inner : Nested) : Prop where
  operand : ∀ parent, Read.Prompt (inner.operand parent)
  block : Read.Prompt inner.block

-- A reader in sequence has one instance for each of its steps.
set_option synthInstance.maxSize 4096

namespace Read

open Reading (Prompted)

variable (d : Nat) [(Nested.upTo d).Prompt]

instance (parent : Nat) : Prompt ((Nested.upTo d).operand parent) := Nested.Prompt.operand parent
instance : Prompt (Nested.upTo d).block := Nested.Prompt.block
instance : Prompt (Nested.upTo d).expression := Nested.Prompt.operand 0
instance : Prompt (Nested.upTo d).expressions := by unfold Nested.expressions; infer_instance

instance : Prompt parameters := by unfold parameters; infer_instance
instance : Prompt (functionBody (.upTo d)) := by unfold functionBody; infer_instance
instance : PromptAtToken literal := by unfold literal; infer_instance

/-- A field whose first token was looked at. -/
theorem prompted_fieldRest {st : Nat} {named : Bool} {r r' : Reading} {f : Field} (hr : r.Ready)
    (hnamed : named = true → r.current.kind = .name ∧ r.taken.current.kind ≠ .endOfFile)
    (hrun : (fieldRest (.upTo d) st named).run r = some (f, r')) : r.Prompted r' := by
  rw [fieldRest, run_kind_bind] at hrun
  split at hrun
  next hk => exact PromptAtToken.prompted hr (by simp [hk]) hrun
  cases named with
  | false =>
    rw [if_neg (by simp)] at hrun
    exact Prompt.prompted hr hrun
  | true =>
    obtain ⟨hk, hnext⟩ := hnamed rfl
    have hne : r.current.kind ≠ .endOfFile := by simp [hk]
    obtain ⟨n, r₁, hname, hrest⟩ := run_bind_eq_some.1 hrun
    rw [run_name hk] at hname
    cases hname
    exact .after (.took .refl hne) (PromptAtToken.prompted (hr.taken hne) hnext hrest)

instance : Prompt (field (.upTo d)) where
  prompted {r f r'} hr hrun := by
    rw [field_eq, run_start_bind, run_kind_bind] at hrun
    split at hrun
    next hk =>
      obtain ⟨k, r₁, hpeek, hrest⟩ := run_bind_eq_some.1 hrun
      have hne : r.current.kind ≠ .endOfFile := by simp [hk]
      have hat : r.At (r.current :: r.taken.current :: r.taken.ahead.map Lexeme.token) := by
        have htokens := hr.sound.tokens_eq hne
        exact ⟨hr.sound, hr.silent, Reading.At.clean hr, htokens⟩
      obtain ⟨rfl, hat₁, -⟩ := peekKind_at hat hpeek
      have htakes := (Prompt.prompted hr hpeek).takes hat₁.silent
      refine .after htakes (prompted_fieldRest d (htakes.ready hr) (fun hnamed => ?_) hrest)
      have hequals : r.taken.current.kind = .sign .equals := by simpa using hnamed
      have hnext : r₁.taken.current = r.taken.current := (hat₁.taken hne).current
      exact ⟨by rw [hat₁.current, hk], by simp [hnext, hequals]⟩
    next hk => exact prompted_fieldRest d hr (by simp) hrun

instance (fields : List Field) : Prompt (fieldEnd fields) where
  prompted {r x r'} hr hrun := by
    rw [fieldEnd, run_kind_bind, run_kind_bind] at hrun
    split at hrun
    next hk => exact PromptAtToken.prompted hr (by rcases hk with hk | hk <;> simp [hk]) hrun
    next => exact Prompt.prompted hr hrun

instance (fields : List Field) : Prompt (fieldStep (.upTo d) fields) := by
  unfold fieldStep; infer_instance

instance : Prompt (table (.upTo d)) := by rw [table_eq]; infer_instance

instance : Prompt (arguments (.upTo d)) where
  prompted {r x r'} hr hrun := by
    rw [arguments, run_kind_bind] at hrun
    split at hrun
    next hk => exact PromptAtToken.prompted hr (by simp [hk]) hrun
    next => exact Prompt.prompted hr hrun
    next => exact Prompt.prompted hr hrun

instance : Prompt (prefixHead (.upTo d)) where
  prompted {r x r'} hr hrun := by
    rw [prefixHead, run_start_bind, run_kind_bind] at hrun
    split at hrun
    next => exact Prompt.prompted hr hrun
    next hk => exact PromptAtToken.prompted hr (by simp [hk]) hrun
    next =>
      rw [run_span_bind] at hrun
      exact prompted_report hr .expectedExpression hrun

instance (st : Nat) (e : Expression × Shape) : Prompt (suffix (.upTo d) st e) where
  prompted {r x r'} hr hrun := by
    rw [suffix, run_kind_bind] at hrun
    split at hrun
    iterate 3
      · rename_i hk
        exact PromptAtToken.prompted hr (by simp [hk]) hrun
    all_goals exact Prompt.prompted hr hrun

instance : Prompt (prefixExpression (.upTo d)) := by unfold prefixExpression; infer_instance

instance : Prompt (primary (.upTo d)) where
  prompted {r x r'} hr hrun := by
    rw [primary, run_start_bind, run_kind_bind] at hrun
    split at hrun
    iterate 8
      · rename_i hk
        exact PromptAtToken.prompted hr (by simp [hk]) hrun
    all_goals exact Prompt.prompted hr hrun

instance : Prompt (unary (.upTo d)) where
  prompted {r x r'} hr hrun := by
    rw [unary, run_start_bind, run_kind_bind] at hrun
    split at hrun
    next op hop =>
      have hk : r.current.kind ≠ .endOfFile := by
        intro hk
        rw [hk] at hop
        cases hop
      exact PromptAtToken.prompted hr hk hrun
    next => exact Prompt.prompted hr hrun

instance (parent st : Nat) (left : Expression) : Prompt (infixed (.upTo d) parent st left) where
  prompted {r x r'} hr hrun := by
    rw [infixed, run_kind_bind] at hrun
    split at hrun
    next op hop =>
      have hk : r.current.kind ≠ .endOfFile := by
        intro hk
        rw [hk] at hop
        cases hop
      exact PromptAtToken.prompted hr hk hrun
    next => exact Prompt.prompted hr hrun

instance (parent : Nat) : Prompt (Read.operand (.upTo d) parent) := by
  unfold Read.operand; infer_instance

/-! ### Statements -/

instance : Prompt (blockToEnd (.upTo d)) := by unfold blockToEnd; infer_instance
instance : Prompt (results (.upTo d)) := by unfold results; infer_instance
instance : Prompt (result (.upTo d)) := by unfold result; infer_instance
instance : PromptAtToken (elseIf (.upTo d)) := by unfold elseIf; infer_instance

instance : Prompt (elseIfs (.upTo d)) := by
  unfold elseIfs
  have (elseIfs : List ElseIf) : Prompt (do
      if (← kind) = .keyword .«elseif» then return .inl (elseIfs ++ [← elseIf (.upTo d)])
      else return .inr elseIfs : Read (List ElseIf ⊕ List ElseIf)) := by
    constructor
    intro r x r' hr hrun
    rw [run_kind_bind] at hrun
    split at hrun
    next hk => exact PromptAtToken.prompted hr (by simp [hk]) hrun
    next => exact Prompt.prompted hr hrun
  infer_instance

instance : Prompt (otherwise (.upTo d)) := by unfold otherwise; infer_instance
instance : Prompt (ifThen (.upTo d)) := by unfold ifThen; infer_instance
instance : Prompt (step (.upTo d)) := by unfold step; infer_instance
instance : Prompt (forLoop (.upTo d)) := by unfold forLoop; infer_instance
instance : Prompt method := by unfold method; infer_instance
instance : Prompt functionName := by unfold functionName; infer_instance
instance : Prompt (function (.upTo d)) := by unfold function; infer_instance
instance : Prompt attrib := by unfold attrib; infer_instance
instance : Prompt declaration := by unfold declaration; infer_instance
instance : Prompt (initializer (.upTo d)) := by unfold initializer; infer_instance
instance : Prompt (localStatement (.upTo d)) := by unfold localStatement; infer_instance

end Read

/-! ### Targets -/

namespace Reading

variable {r r₁ r₂ : Reading}

/-- What a target does: the same as other readers, except that at the end of file it is not yet said
that this was met. -/
inductive Aimed (r r' : Reading) : Prop where
  | prompted : Prompted r r' → Aimed r r'
  | pending {s : Reading} {d : Diagnostic} : r.Takes s → s.Blames d → s.current.kind = .endOfFile →
      d.span ≠ s.current.span → r' = s.reported d → Aimed r r'

theorem Aimed.after (hr : r.Takes r₁) (h : Aimed r₁ r₂) : Aimed r r₂ := by
  cases h with
  | prompted h => exact .prompted (.after hr h)
  | pending htakes hblames hend hspan heq => exact .pending (hr.trans htakes) hblames hend hspan heq

end Reading

namespace Read

open Reading (Ready Prompted Aimed)

variable (d : Nat) [(Nested.upTo d).Prompt]

/-- Whatever is read, a token is expected next. Where a target ended the text, this is what tells
that the text has ended. -/
theorem prompted_of_aimed {α : Type} {x : Kind} (hx : x ≠ .endOfFile) {k : Token → Read α}
    [∀ t, Acting (k t)] [∀ t, Prompt (k t)] {r r₁ r' : Reading} {a : α} (hr : r.Ready)
    (h : r.Aimed r₁) (hrun : (expect x >>= k).run r₁ = some (a, r')) : r.Prompted r' := by
  cases h with
  | prompted h =>
    have : Prompt (expect x) := prompted_expect hx
    exact h.bind hr (Acting.acts hrun) fun _ hr₁ => Prompt.prompted hr₁ hrun
  | @pending s d htakes hblames hend hspan heq =>
    subst heq
    refine .blamed htakes hblames (Acting.acts hrun) fun _ => ?_
    have hcurrent : (s.reported d).current.kind ≠ x := by
      rw [show (s.reported d).current = s.current from rfl, hend]
      exact hx.symm
    obtain ⟨_, r₂, hexpect, hk⟩ := run_bind_eq_some.1 hrun
    rw [expect, run_kind_bind, if_neg hcurrent, run_span_bind, run_kind_bind] at hexpect
    obtain ⟨_, r₃, hreport, hsupply⟩ := run_bind_eq_some.1 hexpect
    have hlast : (s.reported d).journal.lastDiagnostic?.map Diagnostic.span ≠
        some (s.reported d).current.span :=
      fun heq => hspan (Option.some.inj heq)
    rw [run_report, if_pos hlast] at hreport
    cases hreport
    have hkind : (s.reported d).current.kind = .endOfFile := hend
    refine (Reading.told_reported ?_).mono ((Acting.acts hsupply).trans (Acting.acts hk))
    rw [hkind]
    exact .unexpectedToken x

omit [(Nested.upTo d).Prompt] in
/-- The stretch of a target starts before the token behind it. -/
theorem span_ne_of_target {r₀ r : Reading} {e : Expression} {shape : Shape} (hr₀ : r₀.Ready)
    (hsilent : r.Silent)
    (htarget : (prefixExpression (.upTo d)).run r₀ = some ((e, shape), r)) :
    e.span ≠ r.current.span := by
  have hbuilds := prefixExpression_builds (Nested.lays_upTo d) ⟨hr₀.sound, .refl r₀⟩ _ _ htarget
  have hlt := hr₀.sound.start_lt hbuilds.passes.acts.advances (hbuilds.passes.shorter hsilent)
  have hspan : e.span = ⟨r₀.current.span.start, r.previousEnd⟩ := hbuilds.span
  intro heq
  rw [← heq, hspan] at hlt
  exact Nat.lt_irrefl _ hlt

omit [(Nested.upTo d).Prompt] in
theorem aimed_checkTarget {r₀ r r' : Reading} {e e' : Expression} {shape : Shape}
    (hr₀ : r₀.Ready) (htakes : r₀.Takes r)
    (htarget : (prefixExpression (.upTo d)).run r₀ = some ((e, shape), r))
    (hrun : (checkTarget e).run r = some (e', r')) : r.Aimed r' := by
  have hr := htakes.ready hr₀
  unfold checkTarget at hrun
  cases he : e.isVariable with
  | true =>
    rw [he] at hrun
    cases hrun
    exact .prompted (.took .refl)
  | false =>
    rw [he] at hrun
    obtain ⟨_, r₂, hreport, hpure⟩ := run_bind_eq_some.1 hrun
    rw [run_report_of_silent hr.silent] at hreport
    cases hreport
    cases hpure
    have hblames : r.Blames ⟨e.span, .invalidAssignmentTarget⟩ := .target hr₀ htakes htarget he
    by_cases hk : r.current.kind = .endOfFile
    · exact .pending .refl hblames hk (span_ne_of_target d hr₀ hr.silent htarget) rfl
    · exact .prompted (.blamed .refl hblames (.refl _) fun hend => absurd hend hk)

theorem aimed_target {r r' : Reading} {e : Expression} (hr : r.Ready)
    (hrun : (do checkTarget (← prefixExpression (.upTo d)).1 : Read Expression).run r =
      some (e, r')) : r.Aimed r' := by
  obtain ⟨⟨e, shape⟩, r₁, htarget, hcheck⟩ := run_bind_eq_some.1 hrun
  cases Prompt.prompted hr htarget with
  | took htakes => exact .after htakes (aimed_checkTarget d hr htakes htarget hcheck)
  | blamed htakes hblames hacts htold =>
    have hrest : r₁.Acts r' := Acting.acts hcheck
    exact .prompted (.blamed htakes hblames (hacts.trans hrest) fun hk => (htold hk).mono hrest)

/-- More targets. At the end of file there are none. -/
theorem aimed_targets {r r₁ r' : Reading} {es : List Expression} (hr : r.Ready) (h : r.Aimed r₁)
    (hrun : (following (.sign .comma) do checkTarget (← prefixExpression (.upTo d)).1).run r₁ =
      some (es, r')) : r.Aimed r' := by
  refine Ensures.loop (Q := fun _ r' => r.Aimed r') (fun _ r' => r.Aimed r') h (fun es r₂ h₂ => ?_)
    es r' hrun
  simp only [ensures_bind, ensures_takeIf]
  split
  next hk =>
    simp only [if_true]
    rw [ensures_bind]
    intro e r₃ hitem
    rw [ensures_pure]
    have hacts : r₂.Acts r₃ := .trans (.single (.took r₂)) (Acting.acts hitem)
    cases h₂ with
    | prompted h =>
      cases h with
      | took htakes =>
        have hne : r₂.current.kind ≠ .endOfFile := by simp [hk]
        have htaken := htakes.trans (.took .refl hne)
        exact .after htaken (aimed_target d (htaken.ready hr) hitem)
      | blamed htakes hblames hrest htold =>
        exact .prompted (.blamed htakes hblames (hrest.trans hacts) fun hk => (htold hk).mono hacts)
    | pending _ _ hend _ heq =>
      subst heq
      exact absurd (hend.symm.trans hk) (by simp)
  next => simpa using h₂

instance : Prompt (callOrAssign (.upTo d)) where
  prompted {r₀ x r'} hr₀ hrun := by
    rw [callOrAssign, run_start_bind] at hrun
    obtain ⟨⟨e, shape⟩, r, htarget, hrest⟩ := run_bind_eq_some.1 hrun
    refine (Prompt.prompted hr₀ htarget).bind hr₀ (Acting.acts hrest) fun htakes hr => ?_
    simp only at hrest
    split at hrest
    next => exact Prompt.prompted hr hrest
    next =>
      obtain ⟨_, r₁, hcheck, hrest⟩ := run_bind_eq_some.1 hrest
      obtain ⟨_, r₂, htargets, hrest⟩ := run_bind_eq_some.1 hrest
      have haimed := aimed_targets d hr (aimed_checkTarget d hr₀ htakes htarget hcheck) htargets
      exact prompted_of_aimed (by simp) hr haimed hrest

instance : Prompt (statement (.upTo d)) where
  prompted {r x r'} hr hrun := by
    rw [statement, run_start_bind, run_kind_bind] at hrun
    split at hrun
    iterate 6
      · exact Prompt.prompted hr hrun
    iterate 6
      · rename_i hk
        exact PromptAtToken.prompted hr (by simp [hk]) hrun
    next =>
      rw [run_span_bind] at hrun
      exact prompted_report hr .expectedExpression hrun

instance : Prompt (statementOrSkip (.upTo d)) where
  prompted {r x r'} hr hrun := by
    have hrun' := hrun
    rw [statementOrSkip, run_start_bind] at hrun'
    obtain ⟨y, r₁, hstatement, hrest⟩ := run_bind_eq_some.1 hrun'
    have hacts : r₁.Acts r' := Acting.acts hrest
    cases Prompt.prompted hr hstatement with
    | took htakes =>
      rw [run_statementOrSkip hr.sound hstatement (htakes.ready hr).silent] at hrun
      cases hrun
      exact .took htakes
    | blamed htakes hblames hrest htold =>
      exact .blamed htakes hblames (hrest.trans hacts) fun hk => (htold hk).mono hacts

instance : Prompt (Read.block (.upTo d)) := by
  unfold Read.block; dsimp only; infer_instance

end Read

instance Nested.prompt_upTo (depth : Nat) : (Nested.upTo depth).Prompt := by
  induction depth with
  | zero =>
    exact ⟨fun _ => inferInstanceAs (Read.Prompt failure), inferInstanceAs (Read.Prompt failure)⟩
  | succ depth ih =>
    exact ⟨fun parent => inferInstanceAs (Read.Prompt (Read.operand _ parent)),
      inferInstanceAs (Read.Prompt (Read.block _))⟩

namespace Read

instance (depth : Nat) : Prompt (chunk (.upTo depth)) := by
  have (b : Block) : Prompt (do
      if (← kind) = .endOfFile then return .inr b
      report (← span) (.unexpectedToken .endOfFile (← kind))
      let _ ← take
      let rest ← (Nested.upTo depth).block
      return .inl { statements := b.statements ++ rest.statements
                    result := b.result <|> rest.result
                    span := ← spanFrom b.span.start } : Read (Block ⊕ Block)) := by
    constructor
    intro r x r' hr hrun
    rw [run_kind_bind] at hrun
    split at hrun
    next => exact Prompt.prompted hr hrun
    next =>
      rw [run_span_bind, run_kind_bind] at hrun
      exact prompted_report hr (.unexpectedToken .endOfFile) hrun
  unfold chunk
  infer_instance

end Read
end Syntax
end LuaFront
