import LuaFront.Proofs.Syntax.Moving
import LuaFront.Syntax.Tree

/-!
# LuaFront.Proofs.Syntax.Acts

What a reader can do to a reading at all, whatever the text.

* `Reading.Act r r'`: one such thing. A token is consumed, the next one is looked at, something is
  reported, a token is made up, or one is noted that is about to be dropped.
* `Reading.Acts`: any number of them. The tokens that are left stay in order, what was noted stays
  noted, and the last token never ends earlier than it did.
* `Read.Acting m`: the reader `m` does nothing else. It is a class, so that it is found for readers
  that are put together from others; every reader of the grammar has it.

`Read.Ensures m r Q` is partial correctness: `Q` holds of what `m` gives at `r`, if it gives
anything. No bound on the number of tokens is needed for it.
-/

namespace LuaFront

namespace Journal

theorem events_record (j : Journal) (e : Event) : (j.record e).events = j.events ++ [e] := by
  simp [events, record]

theorem events_reportAll (j : Journal) (ds : List Diagnostic) :
    (j.reportAll ds).events = j.events ++ ds.map .reported := by
  induction ds generalizing j with
  | nil => simp [reportAll]
  | cons d later ih =>
    have hcons : j.reportAll (d :: later) = (j.report d).reportAll later := rfl
    rw [hcons, ih, report, events_record, List.append_assoc]
    rfl

end Journal

namespace Syntax

open Text (Span)

/-! ## Acts -/

namespace Reading

/-- The reading after a token of width zero was made up. -/
def supplied (r : Reading) (k : Kind) : Reading :=
  { r with
    previousEnd := max r.current.span.start r.previousEnd
    journal := r.journal.record (.supplied k (max r.current.span.start r.previousEnd)) }

/-- The reading after a token was noted that is to be dropped. -/
def forced (r : Reading) (k : Kind) (place : Nat) : Reading :=
  { r with journal := r.journal.record (.forced k place) }

theorem events_noted (r : Reading) (l : Lexeme) (j : Journal) :
    j.events <+: (r.noted l j).events := by
  unfold noted
  split <;> simp [Journal.events_reportAll]

/-- One thing that a reader does to a reading. -/
inductive Act : Reading → Reading → Prop where
  | took (r : Reading) : Act r r.taken
  | looked (r : Reading) : Act r r.looked
  | reported (r : Reading) (d : Diagnostic) : Act r (r.reported d)
  | supplied (r : Reading) (k : Kind) : Act r (r.supplied k)
  | forced (r : Reading) (k : Kind) (place : Nat) : Act r (r.forced k place)

namespace Act

variable {r r' : Reading}

theorem advances (h : Act r r') : r.Advances r' := by
  cases h with
  | took => exact advances_taken r
  | looked => exact advances_looked r
  | reported d =>
    refine ⟨List.suffix_refl _, List.suffix_refl _, ?_⟩
    simp [diagnostics, Reading.reported]
  | supplied k =>
    refine ⟨List.suffix_refl _, List.suffix_refl _, ?_⟩
    simp [diagnostics, Reading.supplied]
  | forced k place =>
    refine ⟨List.suffix_refl _, List.suffix_refl _, ?_⟩
    simp [diagnostics, Reading.forced]

theorem sound (h : Act r r') (hr : r.Sound) : r'.Sound := by
  cases h with
  | took => exact hr.taken
  | looked => exact hr.looked
  | reported d => exact ⟨hr.ordered, hr.spelled⟩
  | forced k place => exact ⟨hr.ordered, hr.spelled⟩
  | supplied k =>
    refine ⟨?_, hr.spelled⟩
    have hoffset : max r.current.span.start r.previousEnd = r.current.span.start :=
      Nat.max_eq_left hr.start_ge
    rw [Reading.supplied, hoffset]
    exact hr.ordered.raise

theorem previousEnd_le (h : Act r r') : r.previousEnd ≤ r'.previousEnd := by
  cases h with
  | took =>
    rw [previousEnd_taken]
    exact Nat.le_max_left ..
  | supplied k => exact Nat.le_max_right ..
  | looked => simp
  | reported d => exact Nat.le_refl _
  | forced k place => exact Nat.le_refl _

theorem events (h : Act r r') : r.journal.events <+: r'.journal.events := by
  cases h with
  | took =>
    unfold taken
    cases r.ahead with
    | nil => simp [Journal.events_record]
    | cons l ahead =>
      refine List.IsPrefix.trans ?_ (events_noted ..)
      simp [Journal.events_record]
  | looked =>
    unfold Reading.looked
    split
    · exact List.prefix_refl _
    · exact events_noted ..
  | reported d => simp [Reading.reported, Journal.report, Journal.events_record]
  | supplied k => simp [Reading.supplied, Journal.events_record]
  | forced k place => simp [Reading.forced, Journal.events_record]

end Act

/-- Any number of acts. -/
def Acts : Reading → Reading → Prop := Relation.ReflTransGen Act

namespace Acts

variable {r r₁ r₂ : Reading}

theorem refl (r : Reading) : Acts r r := Relation.ReflTransGen.refl

theorem single (h : Act r r₁) : Acts r r₁ := Relation.ReflTransGen.single h

theorem trans (h₁ : Acts r r₁) (h₂ : Acts r₁ r₂) : Acts r r₂ := Relation.ReflTransGen.trans h₁ h₂

theorem advances (h : Acts r r₁) : r.Advances r₁ := by
  induction h with
  | refl => exact .refl r
  | tail _ hact ih => exact ih.trans hact.advances

theorem sound (h : Acts r r₁) (hr : r.Sound) : r₁.Sound := by
  induction h with
  | refl => exact hr
  | tail _ hact ih => exact hact.sound ih

theorem previousEnd_le (h : Acts r r₁) : r.previousEnd ≤ r₁.previousEnd := by
  induction h with
  | refl => exact Nat.le_refl _
  | tail _ hact ih => exact Nat.le_trans ih hact.previousEnd_le

theorem events (h : Acts r r₁) : r.journal.events <+: r₁.journal.events := by
  induction h with
  | refl => exact List.prefix_refl _
  | tail _ hact ih => exact ih.trans hact.events

theorem start_le (h : Acts r r₁) (hr : r.Sound) :
    r.current.span.start ≤ r₁.current.span.start :=
  hr.start_le h.advances

end Acts
end Reading

/-! ## Partial correctness -/

namespace Read

variable {α β σ : Type}

def Ensures (m : Read α) (r : Reading) (Q : α → Reading → Prop) : Prop :=
  ∀ a r', m.run r = some (a, r') → Q a r'

theorem run_bind_eq_some {m : Read α} {k : α → Read β} {r r'' : Reading} {b : β} :
    (m >>= k).run r = some (b, r'') ↔
      ∃ a r', m.run r = some (a, r') ∧ (k a).run r' = some (b, r'') := by
  rw [StateT.run_bind]
  constructor
  · intro h
    obtain ⟨⟨a, r'⟩, hm, hk⟩ := Option.bind_eq_some_iff.1 h
    exact ⟨a, r', hm, hk⟩
  · rintro ⟨a, r', hm, hk⟩
    exact Option.bind_eq_some_iff.2 ⟨(a, r'), hm, hk⟩

section

variable {m : Read α} {r : Reading} {Q Q' : α → Reading → Prop}

theorem Ensures.imp (h : Ensures m r Q) (himp : ∀ a r', Q a r' → Q' a r') : Ensures m r Q' :=
  fun a r' hrun => himp a r' (h a r' hrun)

/-- Nothing is asked of the reader. -/
theorem Ensures.of_forall (h : ∀ a r', Q a r') : Ensures m r Q :=
  fun a r' _ => h a r'

theorem Ensures.and (h : Ensures m r Q) (h' : Ensures m r Q') :
    Ensures m r fun a r' => Q a r' ∧ Q' a r' :=
  fun a r' hrun => ⟨h a r' hrun, h' a r' hrun⟩

/-- What is given is what the reader gave. -/
theorem ensures_run (m : Read α) (r : Reading) :
    Ensures m r fun a r' => m.run r = some (a, r') :=
  fun _ _ hrun => hrun

theorem Yields.ensures (h : Yields m r Q) : Ensures m r Q := by
  intro a r' hrun
  obtain ⟨b, r₁, hrun', hq⟩ := h
  rw [hrun] at hrun'
  cases hrun'
  exact hq

/-- What is ensured of a reader that gives a result holds of the result. -/
theorem Yields.of_ensures (h : Yields m r Q) (h' : Ensures m r Q') : Yields m r Q' := by
  obtain ⟨a, r', hrun, _⟩ := h
  exact ⟨a, r', hrun, h' a r' hrun⟩

end

@[simp] theorem ensures_pure (a : α) (r : Reading) (Q : α → Reading → Prop) :
    Ensures (pure a) r Q ↔ Q a r := by
  constructor
  · intro h
    exact h a r rfl
  · intro hq b r' hrun
    cases hrun
    exact hq

@[simp] theorem ensures_bind (m : Read α) (k : α → Read β) (r : Reading)
    (Q : β → Reading → Prop) :
    Ensures (m >>= k) r Q ↔ Ensures m r fun a r' => Ensures (k a) r' Q := by
  constructor
  · intro h a r' hm b r'' hk
    exact h b r'' (run_bind_eq_some.2 ⟨a, r', hm, hk⟩)
  · intro h b r'' hrun
    obtain ⟨a, r', hm, hk⟩ := run_bind_eq_some.1 hrun
    exact h a r' hm b r'' hk

@[simp] theorem ensures_map (f : α → β) (m : Read α) (r : Reading) (Q : β → Reading → Prop) :
    Ensures (f <$> m) r Q ↔ Ensures m r fun a r' => Q (f a) r' := by
  rw [map_eq_pure_bind, ensures_bind]
  simp only [ensures_pure]

@[simp] theorem ensures_ite (c : Prop) [Decidable c] (m m' : Read α) (r : Reading)
    (Q : α → Reading → Prop) :
    Ensures (if c then m else m') r Q ↔ if c then Ensures m r Q else Ensures m' r Q := by
  split <;> rfl

@[simp] theorem ensures_get (r : Reading) (Q : Reading → Reading → Prop) :
    Ensures get r Q ↔ Q r r := by
  constructor
  · intro h
    exact h r r rfl
  · intro hq b r' hrun
    cases hrun
    exact hq

@[simp] theorem ensures_kind (r : Reading) (Q : Kind → Reading → Prop) :
    Ensures kind r Q ↔ Q r.current.kind r := by
  simp [kind]

@[simp] theorem ensures_start (r : Reading) (Q : Nat → Reading → Prop) :
    Ensures start r Q ↔ Q r.current.span.start r := by
  simp [start]

@[simp] theorem ensures_span (r : Reading) (Q : Span → Reading → Prop) :
    Ensures span r Q ↔ Q r.current.span r := by
  simp [span]

@[simp] theorem ensures_spanFrom (n : Nat) (r : Reading) (Q : Span → Reading → Prop) :
    Ensures (spanFrom n) r Q ↔ Q ⟨n, max r.previousEnd n⟩ r := by
  simp [spanFrom]

@[simp] theorem ensures_take (r : Reading) (Q : Token → Reading → Prop) :
    Ensures take r Q ↔ Q r.current r.taken := by
  constructor
  · intro h
    exact h _ _ (run_take r)
  · intro hq t r' hrun
    rw [run_take] at hrun
    cases hrun
    exact hq

theorem ensures_takeIf (k : Kind) (r : Reading) (Q : Bool → Reading → Prop) :
    Ensures (takeIf k) r Q ↔ if r.current.kind = k then Q true r.taken else Q false r := by
  simp [takeIf]

/-- A token that is there is consumed. -/
theorem ensures_expect {k : Kind} {r : Reading} (hk : r.current.kind = k)
    (Q : Token → Reading → Prop) : Ensures (expect k) r Q ↔ Q r.current r.taken := by
  unfold expect
  simp only [ensures_bind, ensures_kind, ensures_ite, ensures_take, hk, if_true]

theorem ensures_supply (k : Kind) (r : Reading) (Q : Token → Reading → Prop) :
    Ensures (supply k) r Q ↔
      Q (Token.absent k (max r.current.span.start r.previousEnd)) (r.supplied k) := by
  constructor
  · intro h
    exact h _ _ rfl
  · intro hq t r' hrun
    cases hrun
    exact hq

/-- The rule for a loop: an invariant. -/
theorem Ensures.loop {step : σ → Read (σ ⊕ α)} {a : σ} {r : Reading} {Q : α → Reading → Prop}
    (Inv : σ → Reading → Prop) (h : Inv a r)
    (hstep : ∀ a r, Inv a r → Ensures (step a) r fun x r' =>
      match x with
      | .inl a' => Inv a' r'
      | .inr b => Q b r') :
    Ensures (Read.loop step a) r Q := by
  have hturns (turns : Nat) : ∀ a r, Inv a r → Ensures (loopWith step turns a) r Q := by
    induction turns with
    | zero =>
      intro a r _ b r' hrun
      cases hrun
    | succ turns ih =>
      intro a r hinv
      rw [loopWith, ensures_bind]
      refine (hstep a r hinv).imp fun x r' hx => ?_
      cases x with
      | inl a' => exact ih a' r' hx
      | inr b =>
        rw [ensures_pure]
        exact hx
  rw [Read.loop, ensures_bind, ensures_get]
  exact hturns _ a r h

/-! ## Readers that do nothing but acts -/

class Acting (m : Read α) : Prop where
  acts : ∀ {r : Reading} {a : α} {r' : Reading}, m.run r = some (a, r') → r.Acts r'

instance (a : α) : Acting (pure a) where
  acts h := by
    cases h
    exact .refl _

instance : Acting (failure : Read α) where
  acts h := by cases h

instance Acting.bind (m : Read α) (k : α → Read β) [Acting m] [∀ a, Acting (k a)] :
    Acting (m >>= k) where
  acts h := by
    obtain ⟨a, r₁, hm, hk⟩ := run_bind_eq_some.1 h
    exact (Acting.acts hm).trans (Acting.acts hk)

instance (f : α → β) (m : Read α) [Acting m] : Acting (f <$> m) := by
  rw [map_eq_pure_bind]
  infer_instance

instance (c : Prop) [Decidable c] (m m' : Read α) [Acting m] [Acting m'] :
    Acting (if c then m else m') := by
  split <;> infer_instance

instance : Acting (get : Read Reading) where
  acts h := by
    cases h
    exact .refl _

instance : Acting kind := by unfold kind; infer_instance
instance : Acting start := by unfold start; infer_instance
instance : Acting span := by unfold span; infer_instance
instance (n : Nat) : Acting (spanFrom n) := by unfold spanFrom; infer_instance

instance : Acting take where
  acts {r} _ _ h := by
    rw [run_take] at h
    cases h
    exact .single (.took r)

instance (k : Kind) : Acting (takeIf k) := by unfold takeIf; infer_instance

instance : Acting peekKind where
  acts {r} _ _ h := by
    rw [run_peekKind] at h
    cases h
    exact .single (.looked r)

instance (at_ : Span) (cause : Cause) : Acting (report at_ cause) where
  acts {r} _ _ h := by
    rw [run_report] at h
    cases h
    split
    · exact .single (.reported r _)
    · exact .refl _

instance (k : Kind) : Acting (supply k) where
  acts {r} _ _ h := by
    cases h
    exact .single (.supplied r k)

instance (k : Kind) (place : Nat) :
    Acting (modify fun s : Reading => { s with journal := s.journal.record (.forced k place) } :
      Read PUnit) where
  acts {r} _ _ h := by
    cases h
    exact .single (.forced r k place)

instance (k : Kind) : Acting (expect k) := by unfold expect; infer_instance
instance : Acting name := by unfold name; infer_instance

instance (step : σ → Read (σ ⊕ α)) [∀ a, Acting (step a)] (turns : Nat) (a : σ) :
    Acting (loopWith step turns a) := by
  induction turns generalizing a with
  | zero => unfold loopWith; infer_instance
  | succ turns ih =>
    rw [loopWith]
    refine @Acting.bind _ _ _ _ _ fun x => ?_
    cases x <;> infer_instance

instance (step : σ → Read (σ ⊕ α)) [∀ a, Acting (step a)] (a : σ) : Acting (loop step a) := by
  unfold loop; infer_instance

instance (separator : Kind) (item : Read α) [Acting item] : Acting (following separator item) := by
  unfold following; infer_instance

instance (separator : Kind) (item : Read α) [Acting item] : Acting (separated separator item) := by
  unfold separated; infer_instance

end Read

/-! ## Readers of the grammar -/

class Nested.Acting (inner : Nested) : Prop where
  operand : ∀ parent, Read.Acting (inner.operand parent)
  block : Read.Acting inner.block

-- A reader in sequence has one instance for each of its steps.
set_option synthInstance.maxSize 1024

namespace Read

variable (inner : Nested) [inner.Acting]

instance (parent : Nat) : Acting (inner.operand parent) := Nested.Acting.operand parent
instance : Acting inner.block := Nested.Acting.block
instance : Acting inner.expression := Nested.Acting.operand 0
instance : Acting inner.expressions := by unfold Nested.expressions; infer_instance

instance : Acting parameters := by unfold parameters; infer_instance
instance : Acting (functionBody inner) := by unfold functionBody; infer_instance
instance : Acting literal := by unfold literal; infer_instance
instance : Acting (field inner) := by
  unfold field
  refine @Acting.bind _ _ _ _ _ fun start => @Acting.bind _ _ _ _ _ fun k => ?_
  extract_lets rest
  have (named : Bool) : Acting (rest named) := by
    unfold rest
    infer_instance
  infer_instance

instance : Acting (table inner) := by unfold table; dsimp only; infer_instance

instance : Acting (arguments inner) := by
  unfold arguments
  refine @Acting.bind _ _ _ _ _ fun k => ?_
  split <;> infer_instance

instance : Acting (prefixHead inner) := by
  unfold prefixHead
  refine @Acting.bind _ _ _ _ _ fun start => @Acting.bind _ _ _ _ _ fun k => ?_
  split <;> infer_instance

instance (start : Nat) (e : Expression × Shape) : Acting (suffix inner start e) := by
  unfold suffix
  refine @Acting.bind _ _ _ _ _ fun k => ?_
  split <;> infer_instance

instance : Acting (prefixExpression inner) := by unfold prefixExpression; infer_instance

instance : Acting (primary inner) := by
  unfold primary
  refine @Acting.bind _ _ _ _ _ fun start => @Acting.bind _ _ _ _ _ fun k => ?_
  split <;> infer_instance

instance : Acting (unary inner) := by
  unfold unary
  refine @Acting.bind _ _ _ _ _ fun start => @Acting.bind _ _ _ _ _ fun k => ?_
  split <;> infer_instance

instance (parent start : Nat) (left : Expression) : Acting (infixed inner parent start left) := by
  unfold infixed
  refine @Acting.bind _ _ _ _ _ fun k => ?_
  split <;> infer_instance

instance (parent : Nat) : Acting (Read.operand inner parent) := by
  unfold Read.operand; infer_instance

instance : Acting (blockToEnd inner) := by unfold blockToEnd; infer_instance
instance : Acting (results inner) := by unfold results; infer_instance
instance : Acting (result inner) := by unfold result; infer_instance
instance : Acting (elseIf inner) := by unfold elseIf; infer_instance
instance : Acting (elseIfs inner) := by unfold elseIfs; infer_instance
instance : Acting (otherwise inner) := by unfold otherwise; infer_instance
instance : Acting (ifThen inner) := by unfold ifThen; infer_instance
instance : Acting (step inner) := by unfold step; infer_instance
instance : Acting (forLoop inner) := by unfold forLoop; infer_instance
instance : Acting method := by unfold method; infer_instance
instance : Acting functionName := by unfold functionName; infer_instance
instance : Acting (function inner) := by unfold function; infer_instance
instance : Acting attrib := by unfold attrib; infer_instance
instance : Acting declaration := by unfold declaration; infer_instance
instance : Acting (initializer inner) := by unfold initializer; infer_instance
instance : Acting (localStatement inner) := by unfold localStatement; infer_instance
instance (target : Expression) : Acting (checkTarget target) := by
  unfold checkTarget; dsimp only; infer_instance

instance : Acting (callOrAssign inner) := by unfold callOrAssign; infer_instance
instance : Acting skipToStatement := by unfold skipToStatement; infer_instance

instance : Acting (statement inner) := by
  unfold statement
  refine @Acting.bind _ _ _ _ _ fun start => @Acting.bind _ _ _ _ _ fun k => ?_
  split <;> infer_instance

instance : Acting (statementOrSkip inner) := by unfold statementOrSkip; dsimp only; infer_instance
instance : Acting (Read.block inner) := by unfold Read.block; dsimp only; infer_instance

end Read

instance Nested.acting_upTo (depth : Nat) : (Nested.upTo depth).Acting := by
  induction depth with
  | zero =>
    exact ⟨fun _ => inferInstanceAs (Read.Acting failure), inferInstanceAs (Read.Acting failure)⟩
  | succ depth ih =>
    exact ⟨fun parent => inferInstanceAs (Read.Acting (Read.operand _ parent)),
      inferInstanceAs (Read.Acting (Read.block _))⟩

end Syntax
end LuaFront
