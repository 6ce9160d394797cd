import LuaFront.Proofs.Syntax.InStep

/-!
# LuaFront.Proofs.Syntax.Progress

Whatever the text, reading goes on: no loop turns without consuming something.

* `Read.AdvancingAt x m`: where a token of kind `x` is current, the reader `m` consumes something.
  Every statement does, whichever token it is read at.
* `Read.statementOrSkip_eq`: so no token is ever dropped behind a statement.
* `Read.Unbounded step`: every turn of a loop over `step` consumes something, unless it is the last
  one, so that the number of turns needs no bound.
* `Read.Built m`: the reader `m` is put together from looking at single tokens, consuming them and
  noting something, where all loops are of this kind. Every reader of the grammar is.
-/

namespace LuaFront

/-- There is a token of this kind before the end of the text. -/
class Kind.Present (x : Kind) : Prop where
  ne : x ≠ .endOfFile

namespace Kind

instance (x : Sign) : (sign x).Present := ⟨by simp⟩
instance (x : Keyword) : (keyword x).Present := ⟨by simp⟩
instance : name.Present := ⟨by simp⟩
instance : string.Present := ⟨by simp⟩
instance : integer.Present := ⟨by simp⟩
instance : float.Present := ⟨by simp⟩

end Kind

namespace Syntax

open Text (Span)

instance (op : BinaryOperator) : op.kind.Present := ⟨op.kind_ne_endOfFile⟩
instance (op : UnaryOperator) : op.kind.Present := ⟨op.kind_ne_endOfFile⟩

theorem Read.present_of_endsBlock {x : Kind} (h : ¬ endsBlock x = true) : x.Present := by
  refine ⟨fun hend => h ?_⟩
  rw [hend]
  rfl

/-- No end of a block is skipped, so neither is the end of file. -/
theorem Read.present_of_startsStatement {x : Kind} (h : ¬ startsStatement x = true) : x.Present := by
  refine ⟨fun hend => h ?_⟩
  rw [hend]
  rfl

/-- Where nothing was consumed, the same token is current. -/
theorem Reading.Acts.current {r r' : Reading} (h : r.Acts r')
    (hlen : ¬ r'.tokens.length < r.tokens.length) : r'.current = r.current := by
  have hsuffix := h.advances.tokens
  have htokens := hsuffix.eq_of_length (Nat.le_antisymm hsuffix.length_le (by omega))
  exact (List.cons.inj htokens).1

-- A reader in sequence has one instance for each of its steps.
set_option synthInstance.maxSize 1024

namespace Read

variable {α β σ : Type}

/-! ## Readers that consume something -/

class AdvancingAt (x : Kind) (m : Read α) : Prop where
  shorter : ∀ {r : Reading} {a : α} {r' : Reading}, r.Sound → r.current.kind = x →
    m.run r = some (a, r') → r'.tokens.length < r.tokens.length

section

variable (x : Kind) (m : Read α) (k : α → Read β) [∀ a, Acting (k a)]

instance [AdvancingAt x m] : AdvancingAt x (m >>= k) where
  shorter hr hx hrun := by
    obtain ⟨a, r₁, hm, hk⟩ := run_bind_eq_some.1 hrun
    exact Nat.lt_of_le_of_lt (Acting.acts hk).advances.length_le (AdvancingAt.shorter hr hx hm)

/-- What comes first leaves the token to what is behind it, or consumes it itself. -/
instance AdvancingAt.behind [Acting m] [∀ a, AdvancingAt x (k a)] : AdvancingAt x (m >>= k) where
  shorter {r b r'} hr hx hrun := by
    obtain ⟨a, r₁, hm, hk⟩ := run_bind_eq_some.1 hrun
    have hacts : r.Acts r₁ := Acting.acts hm
    by_cases hlt : r₁.tokens.length < r.tokens.length
    · exact Nat.lt_of_le_of_lt (Acting.acts hk).advances.length_le hlt
    · have hx₁ : r₁.current.kind = x := by rw [hacts.current hlt, hx]
      have := AdvancingAt.shorter (hacts.sound hr) hx₁ hk
      have := hacts.advances.length_le
      omega

end

instance (x : Kind) (f : α → β) (m : Read α) [AdvancingAt x m] : AdvancingAt x (f <$> m) := by
  rw [map_eq_pure_bind]
  infer_instance

section

variable (x : Kind) [x.Present]

instance : AdvancingAt x take where
  shorter {r a r'} hr hx hrun := by
    rw [run_take] at hrun
    cases hrun
    exact hr.length_taken (hx ▸ Kind.Present.ne)

instance : AdvancingAt x (expect x) where
  shorter hr hx hrun := by
    rw [run_expect hx] at hrun
    cases hrun
    exact hr.length_taken (hx ▸ Kind.Present.ne)

end

instance : AdvancingAt .name name := by unfold name; infer_instance

section

variable (inner : Nested) [inner.Acting]

instance : AdvancingAt (.sign .openBrace) (table inner) := by rw [table_eq]; infer_instance

instance : AdvancingAt .string (arguments inner) where
  shorter hr hx hrun := by
    rw [arguments, run_kind_bind, hx] at hrun
    have : AdvancingAt .string literal := by unfold literal; infer_instance
    exact AdvancingAt.shorter hr hx hrun

instance : AdvancingAt (.sign .openBrace) (arguments inner) where
  shorter hr hx hrun := by
    rw [arguments, run_kind_bind, hx] at hrun
    exact AdvancingAt.shorter hr hx hrun

instance : AdvancingAt (.sign .openParenthesis) (arguments inner) where
  shorter hr hx hrun := by
    rw [arguments, run_kind_bind, hx] at hrun
    exact AdvancingAt.shorter hr hx hrun

instance : AdvancingAt .name (prefixHead inner) where
  shorter hr hx hrun := by
    rw [prefixHead, run_start_bind, run_kind_bind, hx] at hrun
    exact AdvancingAt.shorter hr hx hrun

instance : AdvancingAt (.sign .openParenthesis) (prefixHead inner) where
  shorter hr hx hrun := by
    rw [prefixHead, run_start_bind, run_kind_bind, hx] at hrun
    exact AdvancingAt.shorter hr hx hrun

instance (x : Kind) [AdvancingAt x (prefixHead inner)] : AdvancingAt x (callOrAssign inner) := by
  have : AdvancingAt x (prefixExpression inner) := by unfold prefixExpression; infer_instance
  unfold callOrAssign; infer_instance

instance : AdvancingAt (.keyword .«if») (ifThen inner) := by unfold ifThen; infer_instance
instance : AdvancingAt (.keyword .«for») (forLoop inner) := by unfold forLoop; infer_instance
instance : AdvancingAt (.keyword .function) (function inner) := by unfold function; infer_instance
instance : AdvancingAt (.keyword .«local») (localStatement inner) := by
  unfold localStatement; infer_instance

/-- Every statement consumes something, also what turns out to be none. -/
instance (x : Kind) [x.Present] : AdvancingAt x (statement inner) where
  shorter {r a r'} hr hx hrun := by
    have hpresent : r.current.kind.Present := hx ▸ inferInstance
    rw [statement, run_start_bind, run_kind_bind] at hrun
    split at hrun
    -- Some are read at one kind of token only, and the others at any.
    iterate 6
      next hk => exact AdvancingAt.shorter hr hk hrun
    all_goals exact AdvancingAt.shorter hr rfl hrun

/-- Nothing has to be dropped behind a statement for reading to go on. -/
theorem statementOrSkip_eq {r : Reading} (hr : r.Sound) (hk : r.current.kind ≠ .endOfFile) :
    (statementOrSkip inner).run r = (statement inner).run r := by
  have hpresent : r.current.kind.Present := ⟨hk⟩
  rw [statementOrSkip, run_start_bind]
  cases h : (statement inner).run r with
  | none => rw [StateT.run_bind, h]; rfl
  | some p =>
    obtain ⟨x, r₁⟩ := p
    have hlt := hr.start_lt (Acting.acts h).advances (AdvancingAt.shorter hr rfl h)
    refine run_bind_eq_some.2 ⟨x, r₁, h, ?_⟩
    rw [run_start_bind, run_kind_bind, if_neg (by omega)]
    rfl

end

/-! ## Loops that need no bound -/

/-- A loop over the step ends by itself. Every turn but the last consumes something, so the number
of turns may be bounded by any number greater than that of the tokens ahead. -/
structure Unbounded (step : σ → Read (σ ⊕ α)) : Prop where
  shorter : ∀ (a : σ) (r : Reading), r.Sound → Ensures (step a) r fun x r' =>
    x.isLeft = true → r'.tokens.length < r.tokens.length
  turns : ∀ (a : σ) (r : Reading) (n : Nat), r.Sound → r.ahead.length < n →
    (loopWith step n a).run r = (loop step a).run r

section

variable {step : σ → Read (σ ⊕ α)} [∀ a, Acting (step a)]
  (hstep : ∀ (a : σ) (r : Reading), r.Sound → Ensures (step a) r fun x r' =>
    x.isLeft = true → r'.tokens.length < r.tokens.length)

include hstep

/-- By induction on the lesser bound, of which every turn leaves one less. -/
theorem run_loopWith_eq {n n' : Nat} (a : σ) {r : Reading} (hr : r.Sound)
    (hn : r.tokens.length ≤ n) (hle : n ≤ n') :
    (loopWith step n' a).run r = (loopWith step n a).run r := by
  induction n generalizing n' a r with
  | zero => simp [Reading.tokens] at hn
  | succ n ih =>
    obtain ⟨n', rfl⟩ := Nat.exists_eq_add_one_of_ne_zero (by omega : n' ≠ 0)
    rw [loopWith, loopWith, StateT.run_bind, StateT.run_bind]
    cases hrun : (step a).run r with
    | none => rfl
    | some p =>
      obtain ⟨x, r₁⟩ := p
      cases x with
      | inr b => rfl
      | inl a' =>
        have hlt : r₁.tokens.length < r.tokens.length := hstep a r hr _ _ hrun rfl
        exact @ih n' a' r₁ ((Acting.acts hrun).sound hr) (by omega) (by omega)

theorem Unbounded.of_shorter : Unbounded step where
  shorter := hstep
  turns a r n hr hn := by
    have hlen : r.tokens.length = r.ahead.length + 1 := by simp [Reading.tokens]
    exact run_loopWith_eq hstep a hr (by omega) hn

end

/-! ### The loops of the grammar -/

/-- What stands between two items of a list is consumed. -/
theorem following_unbounded (x : Kind) [x.Present] (item : Read α) [Acting item] :
    Unbounded fun items : List α => do
      if ← takeIf x then return .inl (items ++ [← item]) else return .inr items := by
  refine .of_shorter fun items r hr => ?_
  simp only [ensures_bind, ensures_takeIf]
  split
  next hk =>
    simp only [if_true]
    intro a r' hrun _
    have := (Acting.acts hrun).advances.length_le
    have := hr.length_taken (hk ▸ Kind.Present.ne)
    omega
  · simp

theorem parameters_unbounded :
    Unbounded fun names : List Name => do
      if ← takeIf (.sign .dotDotDot) then return .inr (names, true)
      let names := names ++ [← name]
      if ← takeIf (.sign .comma) then return .inl names else return .inr (names, false) := by
  refine .of_shorter fun names r hr => ?_
  simp only [ensures_bind, ensures_takeIf]
  split
  · simp
  simp only [Bool.false_eq_true, if_false, ensures_bind, ensures_takeIf]
  intro n r₁ hname
  have hacts : r.Acts r₁ := Acting.acts hname
  split
  next hk =>
    simp only [if_true, ensures_pure]
    intro _
    have := hacts.advances.length_le
    have := (hacts.sound hr).length_taken (by simp [hk])
    omega
  · simp

section

variable (inner : Nested) [inner.Acting]

theorem fieldStep_unbounded : Unbounded (fieldStep inner) := by
  refine .of_shorter fun fields r hr => ?_
  unfold fieldStep fieldEnd
  simp only [ensures_bind, ensures_kind, ensures_ite, ensures_pure, ensures_take]
  split
  · simp
  intro f r₁ hfield
  have hacts : r.Acts r₁ := Acting.acts hfield
  split
  next hk =>
    intro _
    have := hacts.advances.length_le
    have := (hacts.sound hr).length_taken (by rcases hk with hk | hk <;> simp [hk])
    omega
  · simp

theorem suffix_unbounded (st : Nat) : Unbounded (suffix inner st) := by
  refine .of_shorter fun e r hr x r' hrun hleft => ?_
  rw [suffix, run_kind_bind] at hrun
  split at hrun
  iterate 6
    next hk => exact AdvancingAt.shorter hr hk hrun
  next =>
    cases hrun
    cases hleft

theorem infixed_unbounded (parent st : Nat) : Unbounded (infixed inner parent st) := by
  refine .of_shorter fun left r hr x r' hrun hleft => ?_
  rw [infixed, run_kind_bind] at hrun
  split at hrun
  next op hop =>
    split at hrun
    · exact AdvancingAt.shorter hr (BinaryOperator.kind_of_ofKind? hop) hrun
    · cases hrun
      cases hleft
  next =>
    cases hrun
    cases hleft

theorem elseIfs_unbounded :
    Unbounded fun elseIfs : List ElseIf => do
      if (← kind) = .keyword .«elseif» then return .inl (elseIfs ++ [← elseIf inner])
      else return .inr elseIfs := by
  refine .of_shorter fun elseIfs r hr x r' hrun hleft => ?_
  rw [run_kind_bind] at hrun
  split at hrun
  next hk =>
    have : AdvancingAt (.keyword .«elseif») (elseIf inner) := by unfold elseIf; infer_instance
    exact AdvancingAt.shorter hr hk hrun
  next =>
    cases hrun
    cases hleft

theorem skipToStatement_unbounded :
    Unbounded fun _ : Unit => do
      if startsStatement (← kind) then return .inr ()
      let _ ← take
      return .inl () := by
  refine .of_shorter fun _ r hr x r' hrun hleft => ?_
  rw [run_kind_bind] at hrun
  split at hrun
  next =>
    cases hrun
    cases hleft
  next hstarts =>
    have hpresent := present_of_startsStatement hstarts
    exact AdvancingAt.shorter hr rfl hrun

theorem blockStep_unbounded : Unbounded (blockStep inner) := by
  refine .of_shorter fun statements r hr => ?_
  unfold blockStep
  simp only [ensures_bind, ensures_kind, ensures_ite, ensures_pure, ensures_takeIf]
  split
  · simp
  next hends =>
    have hpresent := present_of_endsBlock hends
    split
    · exact fun _ _ _ hleft => by cases hleft
    split
    · simp only [if_true]
      exact fun _ => hr.length_taken hpresent.ne
    · simp only [Bool.false_eq_true, if_false]
      intro x r' hrun _
      rw [statementOrSkip_eq inner hr hpresent.ne] at hrun
      exact AdvancingAt.shorter hr rfl hrun

theorem chunk_unbounded :
    Unbounded fun block : Block => do
      if (← kind) = .endOfFile then return .inr block
      report (← span) (.unexpectedToken .endOfFile (← kind))
      let _ ← take
      let rest ← inner.block
      return .inl { statements := block.statements ++ rest.statements
                    result := block.result <|> rest.result
                    span := ← spanFrom block.span.start } := by
  refine .of_shorter fun block r hr x r' hrun hleft => ?_
  rw [run_kind_bind] at hrun
  split at hrun
  next =>
    cases hrun
    cases hleft
  next hk =>
    have hpresent : r.current.kind.Present := ⟨hk⟩
    exact AdvancingAt.shorter hr rfl hrun

end

/-! ## Readers whose loops need no bound -/

/-- Readers that are put together from looking at single tokens, consuming them and noting
something. How many tokens are ahead decides nothing, as only loops would know it, and those need no
bound. -/
class inductive Built : {α : Type} → Read α → Prop where
  | pure {α : Type} (a : α) : Built (Pure.pure a : Read α)
  | failure {α : Type} : Built (Alternative.failure : Read α)
  | kind : Built kind
  | start : Built start
  | span : Built span
  | peekKind : Built peekKind
  | previousEnd {α : Type} (f : Nat → α) : Built (do return f (← get).previousEnd)
  | take : Built take
  | report (at_ : Span) (cause : Cause) : Built (report at_ cause)
  | supply (k : Kind) : Built (supply k)
  | forced (k : Kind) (place : Nat) :
    Built (modify fun s : Reading => { s with journal := s.journal.record (.forced k place) } :
      Read PUnit)
  | bind {α β : Type} {m : Read α} {k : α → Read β} : Built m → (∀ a, Built (k a)) → Built (m >>= k)
  | loop {σ α : Type} {step : σ → Read (σ ⊕ α)} : Unbounded step → (∀ a, Built (step a)) →
    ∀ a, Built (loop step a)

instance (a : α) : Built (pure a) := .pure a
instance : Built (failure : Read α) := .failure
instance : Built kind := .kind
instance : Built start := .start
instance : Built span := .span
instance : Built peekKind := .peekKind
instance (n : Nat) : Built (spanFrom n) := .previousEnd fun stop : Nat => Span.mk n (max stop n)
instance : Built take := .take
instance (at_ : Span) (cause : Cause) : Built (report at_ cause) := .report at_ cause
instance (k : Kind) : Built (supply k) := .supply k

instance (k : Kind) (place : Nat) :
    Built (modify fun s : Reading => { s with journal := s.journal.record (.forced k place) } :
      Read PUnit) := .forced k place

instance (m : Read α) (k : α → Read β) [Built m] [∀ a, Built (k a)] : Built (m >>= k) :=
  .bind inferInstance inferInstance

instance (f : α → β) (m : Read α) [Built m] : Built (f <$> m) := by
  rw [map_eq_pure_bind]
  infer_instance

instance (c : Prop) [Decidable c] (m m' : Read α) [Built m] [Built m'] :
    Built (if c then m else m') := by
  split <;> infer_instance

instance (k : Kind) : Built (takeIf k) := by unfold takeIf; infer_instance
instance (k : Kind) : Built (expect k) := by unfold expect; infer_instance
instance : Built name := by unfold name; infer_instance

instance (x : Kind) [x.Present] (item : Read α) [Acting item] [Built item] :
    Built (following x item) :=
  .loop (following_unbounded x item) (fun _ => inferInstance) []

instance (x : Kind) [x.Present] (item : Read α) [Acting item] [Built item] :
    Built (separated x item) := by
  unfold separated; infer_instance

end Read

class Nested.Built (inner : Nested) : Prop where
  operand : ∀ parent, Read.Built (inner.operand parent)
  block : Read.Built inner.block

namespace Read

variable (inner : Nested) [inner.Acting] [inner.Built]

instance (parent : Nat) : Built (inner.operand parent) := Nested.Built.operand parent
instance : Built inner.block := Nested.Built.block
instance : Built inner.expression := Nested.Built.operand 0
instance : Built inner.expressions := by unfold Nested.expressions; infer_instance

instance : Built parameters := by
  have (names : List Name) : Built (loop _ names) :=
    .loop parameters_unbounded (fun _ => inferInstance) names
  unfold parameters; infer_instance

instance : Built (functionBody inner) := by unfold functionBody; infer_instance
instance : Built literal := by unfold literal; infer_instance

instance (st : Nat) (named : Bool) : Built (fieldRest inner st named) := by
  unfold fieldRest; infer_instance

instance : Built (field inner) := by rw [field_eq]; infer_instance

instance (fields : List Field) : Built (fieldEnd fields) := by unfold fieldEnd; infer_instance

instance (fields : List Field) : Built (fieldStep inner fields) := by
  unfold fieldStep; infer_instance

instance : Built (table inner) := by
  have (fields : List Field) : Built (loop (fieldStep inner) fields) :=
    .loop (fieldStep_unbounded inner) inferInstance fields
  rw [table_eq]; infer_instance

instance : Built (arguments inner) := by
  unfold arguments
  refine .bind .kind fun k => ?_
  split <;> infer_instance

instance : Built (prefixHead inner) := by
  unfold prefixHead
  refine .bind .start fun st => .bind .kind fun k => ?_
  split <;> infer_instance

instance (st : Nat) (e : Expression × Shape) : Built (suffix inner st e) := by
  unfold suffix
  refine .bind .kind fun k => ?_
  split <;> infer_instance

instance : Built (prefixExpression inner) := by
  have (st : Nat) (e : Expression × Shape) : Built (loop (suffix inner st) e) :=
    .loop (suffix_unbounded inner st) inferInstance e
  unfold prefixExpression; infer_instance

instance : Built (primary inner) := by
  unfold primary
  refine .bind .start fun st => .bind .kind fun k => ?_
  split <;> infer_instance

instance : Built (unary inner) := by
  unfold unary
  refine .bind .start fun st => .bind .kind fun k => ?_
  split <;> infer_instance

instance (parent st : Nat) (left : Expression) : Built (infixed inner parent st left) := by
  unfold infixed
  refine .bind .kind fun k => ?_
  split <;> infer_instance

instance (parent : Nat) : Built (Read.operand inner parent) := by
  have (st : Nat) (left : Expression) : Built (loop (infixed inner parent st) left) :=
    .loop (infixed_unbounded inner parent st) inferInstance left
  unfold Read.operand; infer_instance

instance : Built (blockToEnd inner) := by unfold blockToEnd; infer_instance
instance : Built (results inner) := by unfold results; infer_instance
instance : Built (result inner) := by unfold result; infer_instance
instance : Built (elseIf inner) := by unfold elseIf; infer_instance
instance : Built (elseIfs inner) := .loop (elseIfs_unbounded inner) (fun _ => inferInstance) []
instance : Built (otherwise inner) := by unfold otherwise; infer_instance
instance : Built (ifThen inner) := by unfold ifThen; infer_instance
instance : Built (step inner) := by unfold step; infer_instance
instance : Built (forLoop inner) := by unfold forLoop; infer_instance
instance : Built method := by unfold method; infer_instance
instance : Built functionName := by unfold functionName; infer_instance
instance : Built (function inner) := by unfold function; infer_instance
instance : Built attrib := by unfold attrib; infer_instance
instance : Built declaration := by unfold declaration; infer_instance
instance : Built (initializer inner) := by unfold initializer; infer_instance
instance : Built (localStatement inner) := by unfold localStatement; infer_instance

instance (target : Expression) : Built (checkTarget target) := by
  unfold checkTarget; dsimp only; infer_instance

instance : Built (callOrAssign inner) := by unfold callOrAssign; infer_instance

instance : Built skipToStatement :=
  .loop skipToStatement_unbounded (fun _ => inferInstance) ()

instance : Built (statement inner) := by
  unfold statement
  refine .bind .start fun st => .bind .kind fun k => ?_
  split <;> infer_instance

instance : Built (statementOrSkip inner) := by unfold statementOrSkip; dsimp only; infer_instance

instance (statements : List Statement) : Built (blockStep inner statements) := by
  unfold blockStep; infer_instance

instance : Built (Read.block inner) := by
  have hstatements (statements : List Statement) : Built (loop (blockStep inner) statements) :=
    .loop (blockStep_unbounded inner) inferInstance statements
  have hempty (st : Nat) (k : Span → Read Block) [∀ at_, Built (k at_)] :
      Built (do k (← pure (Span.empty (min (← get).previousEnd st)))) := by
    rw [← bind_assoc]
    exact .bind (.previousEnd fun stop => Span.empty (min stop st)) inferInstance
  unfold Read.block
  refine .bind .start fun st => .bind (hstatements []) fun x => ?_
  dsimp only
  infer_instance

instance : Built (chunk inner) := by
  have (block : Block) : Built (loop _ block) :=
    .loop (chunk_unbounded inner) (fun _ => inferInstance) block
  unfold chunk; infer_instance

end Read

instance Nested.built_upTo (depth : Nat) : (Nested.upTo depth).Built := by
  induction depth with
  | zero =>
    exact ⟨fun _ => inferInstanceAs (Read.Built failure), inferInstanceAs (Read.Built failure)⟩
  | succ depth ih =>
    exact ⟨fun parent => inferInstanceAs (Read.Built (Read.operand _ parent)),
      inferInstanceAs (Read.Built (Read.block _))⟩

end Syntax
end LuaFront
