import LuaFront.Proofs.Syntax.InStep

/-!
# LuaFront.Proofs.Syntax.Precedence

Precedence climbing builds the one canonical tree of an expression.

* `Nested.canonical_upTo`: every tree that is read is canonical, whatever the text. An operand fits
  the precedence it was read for, and no operator that continues it is left behind it.
* `Reading.expression_climbs`: a canonical expression is read back from its tokens, and nothing else
  is ever read.
-/

namespace LuaFront
namespace Syntax

open Grammar
open Groups (Canonical)

/-- Readers for nested constructs give canonical trees. -/
structure Nested.Canonical (inner : Nested) : Prop where
  operand : ∀ (parent : Nat) (r : Reading), Read.Ensures (inner.operand parent) r fun e r' =>
    Groups.Canonical e ∧ e.Fits parent ∧ Stops parent r'.tokens
  block : ∀ r : Reading, Read.Ensures inner.block r fun b _ => Groups.Canonical b

namespace Read

variable {inner : Nested} {r : Reading}

/-! ## Lists -/

theorem following_canonical {α : Type} [Groups α] {item : Read α} {separator : Kind}
    (hitem : ∀ r, Ensures item r fun a _ => Canonical a) :
    Ensures (following separator item) r fun as _ => Canonical as := by
  refine Ensures.loop (fun as _ => Canonical as) canonical_nil fun as r₁ has => ?_
  simp only [ensures_bind]
  refine .of_forall fun b r₂ => ?_
  cases b with
  | false => simpa using has
  | true =>
    simp only [if_true, ensures_bind, ensures_pure]
    refine (hitem r₂).imp fun a r₃ ha => ?_
    simpa using ⟨has, ha⟩

theorem separated_canonical {α : Type} [Groups α] {item : Read α} {separator : Kind}
    (hitem : ∀ r, Ensures item r fun a _ => Canonical a) :
    Ensures (separated separator item) r fun as _ => Canonical as := by
  unfold separated
  simp only [ensures_bind, ensures_pure]
  refine (hitem r).imp fun a r₁ ha => ?_
  exact (following_canonical hitem).imp fun as r₂ has => canonical_cons.2 ⟨ha, has⟩

theorem expression_canonical (hin : inner.Canonical) (r : Reading) :
    Ensures inner.expression r fun e _ => Canonical e :=
  (hin.operand 0 r).imp fun _ _ h => h.1

theorem expressions_canonical (hin : inner.Canonical) (r : Reading) :
    Ensures inner.expressions r fun es _ => Canonical es :=
  separated_canonical (expression_canonical hin)

/-! ## Operands -/

theorem functionBody_canonical (hin : inner.Canonical) (r : Reading) :
    Ensures (functionBody inner) r fun f _ => Canonical f := by
  unfold functionBody
  simp only [ensures_bind, ensures_start]
  refine .of_forall fun _ r₁ => .of_forall ?_
  rintro ⟨ns, vararg⟩ r₂
  simp only [ensures_spanFrom, ensures_pure]
  refine .of_forall fun _ r₃ => (hin.block r₃).imp fun b r₄ hb => .of_forall fun _ r₅ => ?_
  exact canonical_functionBody.2 hb

theorem fieldRest_canonical (hin : inner.Canonical) (r : Reading) (start : Nat) (named : Bool) :
    Ensures (fieldRest inner start named) r fun f _ => Canonical f := by
  have hexpression := expression_canonical hin
  unfold fieldRest
  simp only [ensures_bind, ensures_kind, ensures_ite, ensures_take, ensures_spanFrom, ensures_pure]
  split
  · refine (hexpression _).imp fun key r₁ hkey => ?_
    refine .of_forall fun _ r₂ => .of_forall fun _ r₃ => ?_
    exact (hexpression r₃).imp fun value r₄ hvalue => canonical_keyed.2 ⟨hkey, hvalue⟩
  split
  · refine .of_forall fun n r₁ => ?_
    exact (hexpression _).imp fun value r₂ hvalue => canonical_named.2 hvalue
  · exact (hexpression r).imp fun value r₁ hvalue => canonical_positional.2 hvalue

theorem field_canonical (hin : inner.Canonical) (r : Reading) :
    Ensures (field inner) r fun f _ => Canonical f := by
  rw [field_eq]
  simp only [ensures_bind, ensures_start, ensures_kind, ensures_ite]
  split
  · exact .of_forall fun next r₁ => fieldRest_canonical hin r₁ _ _
  · exact fieldRest_canonical hin r _ _

theorem table_canonical (hin : inner.Canonical) (r : Reading) :
    Ensures (table inner) r fun e _ => Canonical e ∧ e.operator? = none ∧ e.isUnary = false := by
  unfold table
  simp only [ensures_bind, ensures_start, ensures_spanFrom, ensures_pure]
  refine .of_forall fun _ r₁ => ?_
  refine Ensures.imp (Q := fun fs _ => Canonical fs)
    (Ensures.loop (fun fs _ => Canonical fs) canonical_nil fun fs r₂ hfs => ?_) ?_
  · simp only [ensures_bind, ensures_kind, ensures_ite, ensures_pure]
    split
    · exact hfs
    refine (field_canonical hin r₂).imp fun f r₃ hf => ?_
    have hall : Canonical (fs ++ [f]) := by simpa using ⟨hfs, hf⟩
    split
    · exact .of_forall fun _ _ => hall
    · exact hall
  · exact fun fs r₂ hfs => .of_forall fun _ r₃ => ⟨canonical_table.2 hfs, rfl, rfl⟩

theorem literal_canonical (r : Reading) :
    Ensures literal r fun e _ => Canonical e ∧ e.operator? = none ∧ e.isUnary = false := by
  unfold literal
  simp [Expression.operator?, Expression.isUnary]

theorem arguments_canonical (hin : inner.Canonical) (r : Reading) :
    Ensures (arguments inner) r fun es _ => Canonical es := by
  unfold arguments
  simp only [ensures_bind, ensures_kind]
  split
  · simp only [ensures_bind, ensures_pure]
    exact (literal_canonical r).imp fun e r₁ he => by simpa using he.1
  · simp only [ensures_bind, ensures_pure]
    exact (table_canonical hin r).imp fun e r₁ he => by simpa using he.1
  · simp only [ensures_bind, ensures_kind, ensures_ite, ensures_pure]
    refine .of_forall fun _ r₁ => ?_
    split
    · exact .of_forall fun _ _ => canonical_nil
    · exact (expressions_canonical hin r₁).imp fun es r₂ hes => .of_forall fun _ _ => hes

theorem prefixHead_canonical (hin : inner.Canonical) (r : Reading) :
    Ensures (prefixHead inner) r fun x _ =>
      Canonical x.1 ∧ x.1.operator? = none ∧ x.1.isUnary = false := by
  unfold prefixHead
  simp only [ensures_bind, ensures_start, ensures_kind]
  split
  · simp only [ensures_bind, ensures_pure]
    exact .of_forall fun x r₁ => ⟨canonical_nameExpression.2 trivial, rfl, rfl⟩
  · simp only [ensures_bind, ensures_take, ensures_spanFrom, ensures_pure]
    refine (expression_canonical hin _).imp fun e r₁ he => .of_forall fun _ r₂ => ?_
    exact ⟨canonical_parenthesized.2 he, rfl, rfl⟩
  · simp only [ensures_bind, ensures_span, ensures_pure]
    refine .of_forall fun _ r₁ => .of_forall fun t r₂ => ?_
    exact ⟨canonical_nameExpression.2 trivial, rfl, rfl⟩

theorem suffix_canonical (hin : inner.Canonical) (r : Reading) (start : Nat)
    {x : Expression × Shape}
    (hx : Canonical x.1 ∧ x.1.operator? = none ∧ x.1.isUnary = false) :
    Ensures (suffix inner start x) r fun y _ =>
      ∃ x', (y = .inl x' ∨ y = .inr x') ∧
        Canonical x'.1 ∧ x'.1.operator? = none ∧ x'.1.isUnary = false := by
  unfold suffix
  simp only [ensures_bind, ensures_kind]
  split
  · simp only [ensures_bind, ensures_take, ensures_spanFrom, ensures_pure]
    exact .of_forall fun n r₁ => ⟨_, .inl rfl, canonical_dotted.2 hx.1, rfl, rfl⟩
  · simp only [ensures_bind, ensures_take, ensures_spanFrom, ensures_pure]
    refine (expression_canonical hin _).imp fun e r₁ he => .of_forall fun _ r₂ => ?_
    exact ⟨_, .inl rfl, canonical_index.2 ⟨hx.1, he⟩, rfl, rfl⟩
  · simp only [ensures_bind, ensures_take, ensures_spanFrom, ensures_pure]
    refine .of_forall fun m r₁ => (arguments_canonical hin r₁).imp fun es r₂ hes => ?_
    exact ⟨_, .inl rfl, canonical_call.2 ⟨hx.1, hes⟩, rfl, rfl⟩
  iterate 3
    · simp only [ensures_bind, ensures_spanFrom, ensures_pure]
      refine (arguments_canonical hin r).imp fun es r₁ hes => ?_
      exact ⟨_, .inl rfl, canonical_call.2 ⟨hx.1, hes⟩, rfl, rfl⟩
  · rw [ensures_pure]
    exact ⟨x, .inr rfl, hx⟩

theorem prefixExpression_canonical (hin : inner.Canonical) (r : Reading) :
    Ensures (prefixExpression inner) r fun x _ =>
      Canonical x.1 ∧ x.1.operator? = none ∧ x.1.isUnary = false := by
  unfold prefixExpression
  simp only [ensures_bind, ensures_start]
  refine (prefixHead_canonical hin r).imp fun x r₁ hx => ?_
  refine Ensures.loop
    (fun x _ => Canonical x.1 ∧ x.1.operator? = none ∧ x.1.isUnary = false) hx fun x r₂ hx => ?_
  refine (suffix_canonical hin r₂ _ hx).imp ?_
  rintro y r₃ ⟨x', rfl | rfl, hx'⟩
  · exact hx'
  · exact hx'

theorem primary_canonical (hin : inner.Canonical) (r : Reading) :
    Ensures (primary inner) r fun e _ => Canonical e ∧ e.operator? = none ∧ e.isUnary = false := by
  unfold primary
  simp only [ensures_bind, ensures_start, ensures_kind]
  split
  iterate 6
    · exact literal_canonical r
  · simp only [ensures_bind, ensures_take, ensures_spanFrom, ensures_pure]
    exact ⟨canonical_vararg.2 trivial, rfl, rfl⟩
  · simp only [ensures_bind, ensures_take, ensures_spanFrom, ensures_pure]
    refine (functionBody_canonical hin _).imp fun f r₁ hf => ?_
    exact ⟨canonical_function.2 hf, rfl, rfl⟩
  · exact table_canonical hin r
  · simp only [ensures_bind, ensures_pure]
    exact (prefixExpression_canonical hin r).imp fun x r₁ hx => hx

/-- What is left of all binary operators, before an operator that does not bind too tightly. -/
theorem unary_gives_canonical (hin : inner.Canonical) (r : Reading) :
    Ensures (unary inner) r fun e r' => Canonical e ∧ e.operator? = none ∧
      (e.isUnary = true → Stops UnaryOperator.precedence r'.tokens) := by
  unfold unary
  simp only [ensures_bind, ensures_start, ensures_kind]
  split
  next op hop =>
    simp only [ensures_bind, ensures_take, ensures_spanFrom, ensures_pure]
    refine (hin.operand _ _).imp ?_
    rintro e r₁ ⟨he, hfits, hstops⟩
    refine ⟨canonical_unary.2 ⟨fun op' hop' => ?_, he⟩, rfl, fun _ => hstops⟩
    have hcontinues := continues_iff.1 (hfits op' hop')
    simp only [UnaryOperator.precedence] at hcontinues
    rw [BinaryOperator.eq_exponent_iff, UnaryOperator.precedence]
    omega
  · exact (primary_canonical hin r).imp fun e r₁ he => ⟨he.1, he.2.1, by simp [he.2.2]⟩

/-- The operator that is next does not continue what stands before it. -/
theorem not_continues_of_stops {parent : Nat} {op : BinaryOperator} (h : Stops parent r.tokens)
    (hop : BinaryOperator.ofKind? r.current.kind = some op) : ¬ continues parent op = true := by
  have := next_cons.1 h
  simpa [hop] using this

/-- The loop of precedence climbing. Whatever operator is next, the left operand may stand before it
without parentheses. -/
theorem operand_gives_canonical (hin : inner.Canonical) (parent : Nat) (r : Reading) :
    Ensures (operand inner parent) r fun e r' =>
      Canonical e ∧ e.Fits parent ∧ Stops parent r'.tokens := by
  unfold operand
  simp only [ensures_bind, ensures_start]
  refine (unary_gives_canonical hin r).imp ?_
  rintro e r₁ ⟨he, hnone, hunary⟩
  refine Ensures.loop (fun e r' => Canonical e ∧ e.Fits parent ∧
    (∀ op ∈ e.operator?, Stops op.precedence r'.tokens) ∧
    (e.isUnary = true → Stops UnaryOperator.precedence r'.tokens))
    ⟨he, by simp [Expression.Fits, hnone], by simp [hnone], hunary⟩ ?_
  rintro left r₂ ⟨hleft, hfits, hstops, hunary⟩
  have hstop (h : (BinaryOperator.ofKind? r₂.current.kind).all fun op => !continues parent op) :
      Stops parent r₂.tokens :=
    next_cons.2 h
  unfold infixed
  simp only [ensures_bind, ensures_kind]
  split
  next op hop =>
    simp only [ensures_ite, ensures_bind, ensures_take, ensures_spanFrom, ensures_pure]
    split
    next hcontinues =>
      refine (hin.operand _ _).imp ?_
      rintro right r₃ ⟨hright, hfits', hstops'⟩
      have hgrouped (s : Text.Span) : (Expression.binary left op right s).Grouped := by
        refine ⟨fun op' hop' => ?_, fun op' hop' => ?_, fun hu => ?_⟩
        · have hnot := not_continues_of_stops (hstops op' hop') hop
          rw [continues_iff] at hnot
          rw [← Bool.not_eq_true, BinaryOperator.isRightAssociative_iff]
          omega
        · have hright := continues_iff.1 (hfits' op' hop')
          rw [BinaryOperator.isRightAssociative_iff]
          omega
        · have hnot := not_continues_of_stops (hunary hu) hop
          rw [continues_iff] at hnot
          rw [ne_eq, BinaryOperator.eq_exponent_iff]
          omega
      refine ⟨canonical_binary.2 ⟨hgrouped _, hleft, hright⟩, ?_, ?_, by simp [Expression.isUnary]⟩
      · simpa [Expression.Fits, Expression.operator?] using hcontinues
      · simpa [Expression.operator?] using hstops'
    next hcontinues => exact ⟨hleft, hfits, hstop (by simpa [hop] using hcontinues)⟩
  next hop =>
    rw [ensures_pure]
    exact ⟨hleft, hfits, hstop (by simp [hop])⟩

/-! ## Statements -/

theorem blockToEnd_canonical (hin : inner.Canonical) (r : Reading) :
    Ensures (blockToEnd inner) r fun b _ => Canonical b := by
  unfold blockToEnd
  simp only [ensures_bind, ensures_pure]
  exact (hin.block r).imp fun b r₁ hb => .of_forall fun _ _ => hb

theorem result_canonical (hin : inner.Canonical) (r : Reading) :
    Ensures (result inner) r fun x _ => Canonical x := by
  have hresults (r : Reading) : Ensures (results inner) r fun es _ => Canonical es := by
    unfold results
    simp only [ensures_bind, ensures_kind, ensures_ite, ensures_pure]
    split
    · exact canonical_nil
    · exact expressions_canonical hin r
  unfold result
  simp only [ensures_bind, ensures_start, ensures_spanFrom, ensures_pure]
  refine .of_forall fun _ r₁ => (hresults r₁).imp fun es r₂ hes => .of_forall fun _ r₃ => ?_
  exact canonical_result.2 hes

theorem elseIfs_canonical (hin : inner.Canonical) (r : Reading) :
    Ensures (elseIfs inner) r fun es _ => Canonical es := by
  unfold elseIfs
  refine Ensures.loop (fun es _ => Canonical es) canonical_nil fun es r₁ hes => ?_
  simp only [ensures_bind, ensures_kind, ensures_ite, ensures_pure]
  split
  · simp only [elseIf, ensures_bind, ensures_start, ensures_take, ensures_spanFrom, ensures_pure]
    refine (expression_canonical hin _).imp fun c r₂ hc => .of_forall fun _ r₃ => ?_
    refine (hin.block r₃).imp fun b r₄ hb => ?_
    simpa using ⟨hes, canonical_elseIf.2 ⟨hc, hb⟩⟩
  · exact hes

/-- Something that a token may introduce. -/
theorem optional_canonical {α : Type} [Groups α] {m : Read α} {k : Kind}
    (hm : ∀ r, Ensures m r fun a _ => Canonical a) (r : Reading) :
    Ensures (do if ← takeIf k then some <$> m else return none) r fun x _ => Canonical x := by
  simp only [ensures_bind]
  refine .of_forall fun b r₁ => ?_
  cases b with
  | false => simp
  | true =>
    simp only [if_true, ensures_map]
    exact (hm r₁).imp fun a r₂ ha => canonical_some.2 ha

theorem ifThen_canonical (hin : inner.Canonical) (r : Reading) :
    Ensures (ifThen inner) r fun s _ => Canonical s := by
  unfold ifThen
  simp only [ensures_bind, ensures_start, ensures_spanFrom, ensures_pure]
  refine .of_forall fun _ r₁ => ?_
  refine (expression_canonical hin r₁).imp fun c r₂ hc => .of_forall fun _ r₃ => ?_
  refine (hin.block r₃).imp fun b r₄ hb => ?_
  refine (elseIfs_canonical hin r₄).imp fun es r₅ hes => ?_
  refine (optional_canonical hin.block r₅).imp fun o r₆ ho => .of_forall fun _ r₇ => ?_
  exact canonical_ifThen.2 ⟨hc, hb, hes, ho⟩

theorem forLoop_canonical (hin : inner.Canonical) (r : Reading) :
    Ensures (forLoop inner) r fun s _ => Canonical s := by
  unfold forLoop
  simp only [ensures_bind, ensures_start]
  refine .of_forall fun _ r₁ => .of_forall fun n r₂ => .of_forall fun b r₃ => ?_
  cases b with
  | true =>
    simp only [if_true, ensures_bind, ensures_spanFrom, ensures_pure]
    refine (expression_canonical hin r₃).imp fun a r₄ ha => .of_forall fun _ r₅ => ?_
    refine (expression_canonical hin r₅).imp fun l r₆ hl => ?_
    refine (optional_canonical (expression_canonical hin) r₆).imp fun st r₇ hst => ?_
    refine .of_forall fun _ r₈ => (blockToEnd_canonical hin r₈).imp fun b r₉ hb => ?_
    exact canonical_numericFor.2 ⟨ha, hl, hst, hb⟩
  | false =>
    simp only [Bool.false_eq_true, if_false, ensures_bind, ensures_spanFrom, ensures_pure]
    refine .of_forall fun ns r₄ => .of_forall fun _ r₅ => ?_
    refine (expressions_canonical hin r₅).imp fun es r₆ hes => .of_forall fun _ r₇ => ?_
    refine (blockToEnd_canonical hin r₇).imp fun b r₈ hb => ?_
    exact canonical_genericFor.2 ⟨hes, hb⟩

theorem function_canonical (hin : inner.Canonical) (r : Reading) :
    Ensures (function inner) r fun s _ => Canonical s := by
  unfold function
  simp only [ensures_bind, ensures_start, ensures_spanFrom, ensures_pure]
  refine .of_forall fun _ r₁ => .of_forall fun n r₂ => ?_
  exact (functionBody_canonical hin r₂).imp fun f r₃ hf => canonical_functionStatement.2 hf

theorem localStatement_canonical (hin : inner.Canonical) (r : Reading) :
    Ensures (localStatement inner) r fun s _ => Canonical s := by
  have hinitializer (r : Reading) : Ensures (initializer inner) r fun es _ => Canonical es := by
    unfold initializer
    simp only [ensures_bind]
    refine .of_forall fun b r₁ => ?_
    cases b with
    | false => simp
    | true => exact expressions_canonical hin r₁
  unfold localStatement
  simp only [ensures_bind, ensures_start]
  refine .of_forall fun _ r₁ => .of_forall fun b r₂ => ?_
  cases b with
  | true =>
    simp only [if_true, ensures_bind, ensures_spanFrom, ensures_pure]
    refine .of_forall fun n r₃ => ?_
    exact (functionBody_canonical hin r₃).imp fun f r₄ hf => canonical_localFunction.2 hf
  | false =>
    simp only [Bool.false_eq_true, if_false, ensures_bind, ensures_spanFrom, ensures_pure]
    refine .of_forall fun ds r₃ => ?_
    exact (hinitializer r₃).imp fun es r₄ hes => canonical_declare.2 hes

theorem callOrAssign_canonical (hin : inner.Canonical) (r : Reading) :
    Ensures (callOrAssign inner) r fun s _ => Canonical s := by
  have hcheck {e : Expression} (he : Canonical e) (r : Reading) :
      Ensures (checkTarget e) r fun x _ => Canonical x := by
    unfold checkTarget
    split
    · rw [ensures_bind]
      exact .of_forall fun _ _ => by simpa using he
    · simpa using he
  unfold callOrAssign
  simp only [ensures_bind, ensures_start]
  refine (prefixExpression_canonical hin r).imp ?_
  rintro ⟨x, shape⟩ r₁ hx
  simp only [ensures_bind, ensures_ite, ensures_spanFrom, ensures_pure]
  split
  · exact canonical_callStatement.2 hx.1
  refine (hcheck hx.1 r₁).imp fun e r₂ he => ?_
  refine (following_canonical fun r => ?_).imp fun es r₃ hes => .of_forall fun _ r₄ => ?_
  · simp only [ensures_bind]
    exact (prefixExpression_canonical hin r).imp fun x r₁ hx => hcheck hx.1 r₁
  · refine (expressions_canonical hin r₄).imp fun vs r₅ hvs => ?_
    exact canonical_assign.2 ⟨canonical_cons.2 ⟨he, hes⟩, hvs⟩

theorem statement_canonical (hin : inner.Canonical) (r : Reading) :
    Ensures (statement inner) r fun x _ => Canonical x := by
  have hsome {m : Read Statement} (hm : Ensures m r fun s _ => Canonical s) :
      Ensures (some <$> m) r fun x _ => Canonical x := by
    rw [ensures_map]
    exact hm.imp fun s r₁ hs => canonical_some.2 hs
  unfold statement
  simp only [ensures_bind, ensures_start, ensures_kind]
  split
  · exact hsome (ifThen_canonical hin r)
  · exact hsome (forLoop_canonical hin r)
  · exact hsome (function_canonical hin r)
  · exact hsome (localStatement_canonical hin r)
  · exact hsome (callOrAssign_canonical hin r)
  · exact hsome (callOrAssign_canonical hin r)
  · simp only [ensures_bind, ensures_take, ensures_spanFrom, ensures_pure]
    refine (expression_canonical hin _).imp fun c r₁ hc => .of_forall fun _ r₂ => ?_
    refine (blockToEnd_canonical hin r₂).imp fun b r₃ hb => ?_
    exact canonical_some.2 (canonical_whileDo.2 ⟨hc, hb⟩)
  · simp only [ensures_bind, ensures_take, ensures_spanFrom, ensures_pure]
    refine (hin.block _).imp fun b r₁ hb => .of_forall fun _ r₂ => ?_
    refine (expression_canonical hin r₂).imp fun c r₃ hc => ?_
    exact canonical_some.2 (canonical_repeatUntil.2 ⟨hb, hc⟩)
  · simp only [ensures_bind, ensures_take, ensures_spanFrom, ensures_pure]
    refine (blockToEnd_canonical hin _).imp fun b r₁ hb => ?_
    exact canonical_some.2 (canonical_doBlock.2 hb)
  · simp only [ensures_bind, ensures_take, ensures_spanFrom, ensures_pure]
    refine .of_forall fun n r₁ => .of_forall fun _ r₂ => ?_
    exact canonical_some.2 (canonical_label.2 trivial)
  · simp only [ensures_bind, ensures_take, ensures_spanFrom, ensures_pure]
    exact .of_forall fun n r₁ => canonical_some.2 (canonical_goto.2 trivial)
  · simp only [ensures_bind, ensures_take, ensures_spanFrom, ensures_pure]
    exact canonical_some.2 (canonical_breakLoop.2 trivial)
  · simp only [ensures_bind, ensures_span, ensures_take, ensures_pure]
    exact .of_forall fun _ r₁ => .of_forall fun _ r₂ => canonical_none

theorem statementOrSkip_canonical (hin : inner.Canonical) (r : Reading) :
    Ensures (statementOrSkip inner) r fun x _ => Canonical x := by
  unfold statementOrSkip
  simp only [ensures_bind, ensures_start]
  refine (statement_canonical hin r).imp fun x r₁ hx => ?_
  rw [ensures_kind]
  split
  · simp only [ensures_bind, ensures_kind]
    refine .of_forall fun _ r₂ => ?_
    simpa using hx
  · simpa using hx

theorem block_canonical (hin : inner.Canonical) (r : Reading) :
    Ensures (block inner) r fun b _ => Canonical b := by
  unfold block
  simp only [ensures_bind, ensures_start]
  refine Ensures.imp (Q := fun x _ => Canonical x.1 ∧ Canonical x.2)
    (Ensures.loop (fun ss _ => Canonical ss) canonical_nil fun ss r₁ hss => ?_) ?_
  · simp only [ensures_bind, ensures_kind, ensures_ite, ensures_pure]
    split
    · exact ⟨hss, canonical_none⟩
    split
    · exact (result_canonical hin r₁).imp fun x r₂ hx => ⟨hss, canonical_some.2 hx⟩
    refine .of_forall fun b r₂ => ?_
    split
    · exact hss
    refine (statementOrSkip_canonical hin r₂).imp fun x r₃ hx => ?_
    cases x with
    | none => simpa using hss
    | some s => simpa using ⟨hss, canonical_some.1 hx⟩
  · rintro ⟨ss, x⟩ r₁ ⟨hss, hx⟩
    have hblock (s : Text.Span) : Canonical (Block.mk ss x s) := canonical_block.2 ⟨hss, hx⟩
    split
    · simp only [ensures_bind, ensures_get, ensures_pure]
      exact hblock _
    · simp only [ensures_bind, ensures_spanFrom, ensures_pure]
      exact hblock _

end Read

theorem Nested.canonical_upTo (n : Nat) : (Nested.upTo n).Canonical := by
  induction n with
  | zero =>
    have hnone {α : Type} (r : Reading) (Q : α → Reading → Prop) :
        Read.Ensures (failure : Read α) r Q := by
      intro a r' hrun
      cases hrun
    exact ⟨fun parent r => hnone r _, fun r => hnone r _⟩
  | succ n ih => exact ⟨Read.operand_gives_canonical ih, Read.block_canonical ih⟩

/-! ## Expressions -/

namespace Reading

/-- A canonical expression is read back from its tokens, up to a token that cannot continue it.
Whatever else an expression is read from, the tree is canonical. -/
theorem expression_climbs :
    (∀ {r : Reading} {i o : List Token} {e : Expression}, r.At i → Derives (.expression e) i o →
      Canonical e → Next endsExpression o →
      Read.Yields r.nested.expression r fun x r' => r'.At o ∧ Alike x e) ∧
    ∀ (depth : Nat) (r : Reading),
      Read.Ensures (Nested.upTo depth).expression r fun x _ => Canonical x := by
  refine ⟨fun {r i o e} h hd hc ho => ?_, fun depth => ?_⟩
  · have hlen : i.length ≤ r.ahead.length + 1 := by simp [← h.tokens, tokens]
    refine (Read.expression_accepts (Nested.accepts_upTo _) h hlen hd ho).imp ?_
    rintro x r' ⟨h', hx⟩
    exact ⟨h', hx hc⟩
  · exact Read.expression_canonical (Nested.canonical_upTo depth)

/-- A power is negated as a whole. -/
theorem expression_climbs_negated_power :
    Read.Yields (ofSource (.ofString "-a^2")).nested.expression (ofSource (.ofString "-a^2"))
      fun x r' => r'.Silent ∧ r'.current.kind = .endOfFile ∧
        Alike x (.unary .negate (.binary (.name ⟨"a", .empty 0⟩) .exponent
          (.literal (.number (.integer 2)) (.empty 0)) (.empty 0)) (.empty 0)) := by
  let minus : Token := ⟨.sign .minus, ⟨0, 1⟩, .none, false⟩
  let name : Token := ⟨.name, ⟨1, 2⟩, .name "a", false⟩
  let caret : Token := ⟨.sign .caret, ⟨2, 3⟩, .none, false⟩
  let two : Token := ⟨.integer, ⟨3, 4⟩, .number (.integer 2), false⟩
  let eof : Token := ⟨.endOfFile, ⟨4, 4⟩, .none, false⟩
  have hat : (ofSource (.ofString "-a^2")).At [minus, name, caret, two, eof] := by
    refine ⟨sound_ofSource _, ?_, by decide +kernel, by decide +kernel⟩
    unfold Silent
    decide +kernel
  have hname := Derives.name (.mk (t := name) (o := [caret, two, eof]) rfl)
  have hpower := @Derives.binary .exponent _ _ (.empty 0) _ _ _ _
    (hname.prefixed (by simp [Closed, caret, opensArguments])) (.mk rfl)
    (.literal (t := two) (o := [eof]) rfl)
  have hderives := @Derives.unary .negate _ (.empty 0) _ _ _ (.mk (t := minus) rfl) hpower
  refine (expression_climbs.1 hat hderives ?_ (next_cons.2 rfl)).imp ?_
  · simp [Expression.Grouped, Expression.operator?, Expression.isUnary]
  · rintro x r' ⟨h, hx⟩
    exact ⟨h.silent, by rw [h.current], hx⟩

end Reading
end Syntax
end LuaFront
