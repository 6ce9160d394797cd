import LuaFront.Proofs.Syntax.Nesting

/-!
# LuaFront.Proofs.Syntax.Shapes

What later stages may rely on in a tree, whatever the text was.

* `Read.Shape.Tells`: the shape that comes with a prefix expression says what the expression is.
* `Node.Shaped ds`: the lists of a node that should not be empty are not empty, what is called is a
  call, and what is assigned to is a variable unless something is among the diagnostics `ds`.
* `Tree.parse_shaped`: all nodes of a tree are so.
-/

namespace LuaFront
namespace Syntax

open Text (Span)

namespace Expression

def isCall : Expression → Bool
  | .call .. => true
  | _ => false

def isParenthesized : Expression → Bool
  | .parenthesized .. => true
  | _ => false

end Expression

/-- The shape is that of the expression. -/
structure Read.Shape.Tells (shape : Read.Shape) (e : Expression) : Prop where
  call : shape = .call ↔ e.isCall = true
  assignable : shape = .variable ↔ e.isVariable = true
  parenthesized : shape = .parenthesized ↔ e.isParenthesized = true

namespace Read.Shape

theorem tells_call {e : Expression} (h : e.isCall = true) : Shape.call.Tells e := by
  cases e <;> simp [Expression.isCall] at h
  constructor <;> simp [Expression.isCall, Expression.isVariable, Expression.isParenthesized]

theorem tells_variable {e : Expression} (h : e.isVariable = true) : Shape.variable.Tells e := by
  cases e <;> simp [Expression.isVariable] at h
  all_goals
    constructor <;> simp [Expression.isCall, Expression.isVariable, Expression.isParenthesized]

theorem tells_parenthesized {e : Expression} (h : e.isParenthesized = true) :
    Shape.parenthesized.Tells e := by
  cases e <;> simp [Expression.isParenthesized] at h
  constructor <;> simp [Expression.isCall, Expression.isVariable, Expression.isParenthesized]

end Read.Shape

def Statement.Shaped (ds : List Diagnostic) : Statement → Prop
  | .assign targets values _ =>
    targets ≠ [] ∧ values ≠ [] ∧ ((∃ e ∈ targets, e.isVariable = false) → ds ≠ [])
  | .declare declarations _ _ => declarations ≠ []
  | .call e _ => e.isCall = true
  | .genericFor names values _ _ => names ≠ [] ∧ values ≠ []
  | _ => True

def Node.Shaped (ds : List Diagnostic) : Node → Prop
  | .statement s => s.Shaped ds
  | .functionName f => f.path ≠ []
  | _ => True

/-- More diagnostics take nothing away. -/
theorem Statement.Shaped.mono {ds ds' : List Diagnostic} {s : Statement} (h : s.Shaped ds)
    (hds : ds <+: ds') : s.Shaped ds' := by
  cases s with
  | assign targets values =>
    obtain ⟨htargets, hvalues, hloud⟩ := h
    refine ⟨htargets, hvalues, fun hex hnil => hloud hex ?_⟩
    rw [hnil] at hds
    exact List.prefix_nil.1 hds
  | declare => exact h
  | call => exact h
  | genericFor => exact h
  | _ => trivial

namespace Read

variable {α β : Type} {r : Reading}

/-- Nothing need be known of a step. -/
theorem Ensures.behind {m : Read α} {k : α → Read β} {Q : β → Reading → Prop}
    (h : ∀ a r', Ensures (k a) r' Q) : Ensures (m >>= k) r Q :=
  (ensures_bind m k r Q).2 (.of_forall h)

/-! ## Prefix expressions -/

theorem prefixHead_tells (inner : Nested) (r : Reading) :
    Ensures (prefixHead inner) r fun e _ => e.2.Tells e.1 := by
  unfold prefixHead
  refine .behind fun start _ => .behind fun k _ => ?_
  split
  · refine .behind fun n _ => (ensures_pure _ _ _).2 ?_
    exact Shape.tells_variable rfl
  · refine .behind fun _ _ => .behind fun e _ => .behind fun _ _ => .behind fun at_ _ => ?_
    exact (ensures_pure _ _ _).2 (Shape.tells_parenthesized rfl)
  · refine .behind fun _ _ => .behind fun _ _ => .behind fun t _ => (ensures_pure _ _ _).2 ?_
    exact Shape.tells_variable rfl

/-- A suffix makes an expression of another shape, whatever it stands behind. -/
theorem suffix_tells (inner : Nested) (start : Nat) {e : Expression × Shape} (he : e.2.Tells e.1)
    (r : Reading) :
    Ensures (suffix inner start e) r fun x _ =>
      match x with
      | .inl e' => e'.2.Tells e'.1
      | .inr e' => e'.2.Tells e'.1 := by
  have hcall : ∀ (method : Option Name) (r : Reading), Ensures (do
      let arguments ← arguments inner
      return .inl (.call e.1 method arguments (← spanFrom start), .call)) r
      fun (x : (Expression × Shape) ⊕ (Expression × Shape)) _ => match x with
        | .inl e' => e'.2.Tells e'.1
        | .inr e' => e'.2.Tells e'.1 := by
    intro method r
    refine .behind fun _ _ => .behind fun _ _ => (ensures_pure _ _ _).2 ?_
    exact Shape.tells_call rfl
  unfold suffix
  refine .behind fun k _ => ?_
  split
  · refine .behind fun _ _ => .behind fun _ _ => .behind fun _ _ => (ensures_pure _ _ _).2 ?_
    exact Shape.tells_variable rfl
  · refine .behind fun _ _ => .behind fun _ _ => .behind fun _ _ => .behind fun _ _ => ?_
    exact (ensures_pure _ _ _).2 (Shape.tells_variable rfl)
  · exact .behind fun _ _ => .behind fun method _ => hcall (some method) _
  · exact hcall none _
  · exact hcall none _
  · exact hcall none _
  · exact (ensures_pure _ _ _).2 he

theorem prefixExpression_tells (inner : Nested) (r : Reading) :
    Ensures (prefixExpression inner) r fun e _ => e.2.Tells e.1 := by
  unfold prefixExpression
  simp only [ensures_bind, ensures_start]
  refine (prefixHead_tells inner r).imp fun e r₁ he => ?_
  refine Ensures.loop (fun e _ => e.2.Tells e.1) he fun e r₂ he => ?_
  refine (suffix_tells inner _ he r₂).imp fun x _ hx => ?_
  cases x <;> exact hx

/-! ## Statements -/

theorem separated_ne_nil (separator : Kind) (item : Read α) (r : Reading) :
    Ensures (separated separator item) r fun items _ => items ≠ [] := by
  unfold separated
  refine .behind fun _ _ => .behind fun _ _ => (ensures_pure _ _ _).2 ?_
  exact List.cons_ne_nil _ _

theorem expressions_ne_nil (inner : Nested) (r : Reading) :
    Ensures inner.expressions r fun es _ => es ≠ [] :=
  separated_ne_nil _ _ r

theorem report_loud (at_ : Span) (cause : Cause) (r : Reading) :
    Ensures (report at_ cause) r fun _ r' => ¬ r'.Silent := by
  intro _ r' hrun
  rw [run_report] at hrun
  cases hrun
  split
  · simp [Reading.Silent, Reading.diagnostics, Reading.reported]
  next hlast =>
    intro hsilent
    rw [Journal.lastDiagnostic?_eq_none hsilent] at hlast
    exact hlast (by simp)

/-- A target that is no variable is kept, and reported. -/
theorem checkTarget_loud (e : Expression) (r : Reading) :
    Ensures (checkTarget e) r fun t r' => t = e ∧ (r'.Silent → e.isVariable = true) := by
  unfold checkTarget
  simp only [ensures_bind, ensures_ite, ensures_pure]
  split
  · exact (report_loud _ _ r).imp fun _ r' hloud => ⟨trivial, fun hs => absurd hs hloud⟩
  next hvariable => exact ⟨trivial, fun _ => by simpa using hvariable⟩

theorem ifThen_shaped (inner : Nested) (r : Reading) :
    Ensures (ifThen inner) r fun s r' => s.Shaped r'.diagnostics := by
  unfold ifThen
  refine .behind fun _ _ => .behind fun _ _ => .behind fun _ _ => .behind fun _ _ => ?_
  refine .behind fun _ _ => .behind fun _ _ => .behind fun _ _ => .behind fun _ _ => ?_
  exact .behind fun _ _ => (ensures_pure _ _ _).2 trivial

theorem function_shaped (inner : Nested) (r : Reading) :
    Ensures (function inner) r fun s r' => s.Shaped r'.diagnostics := by
  unfold function
  refine .behind fun _ _ => .behind fun _ _ => .behind fun _ _ => .behind fun _ _ => ?_
  exact .behind fun _ _ => (ensures_pure _ _ _).2 trivial

theorem forLoop_shaped (inner : Nested) (r : Reading) :
    Ensures (forLoop inner) r fun s r' => s.Shaped r'.diagnostics := by
  unfold forLoop
  refine .behind fun _ _ => .behind fun _ _ => .behind fun first _ => .behind fun equals r₁ => ?_
  cases equals with
  | true =>
    refine .behind fun _ _ => .behind fun _ _ => .behind fun _ _ => .behind fun _ _ => ?_
    refine .behind fun _ _ => .behind fun _ _ => .behind fun _ _ => (ensures_pure _ _ _).2 ?_
    trivial
  | false =>
    refine .behind fun more _ => .behind fun _ _ => (ensures_bind _ _ _ _).2 ?_
    refine (expressions_ne_nil inner _).imp fun values _ hvalues => ?_
    refine .behind fun _ _ => .behind fun _ _ => .behind fun _ _ => (ensures_pure _ _ _).2 ?_
    exact ⟨List.cons_ne_nil _ _, hvalues⟩

theorem localStatement_shaped (inner : Nested) (r : Reading) :
    Ensures (localStatement inner) r fun s r' => s.Shaped r'.diagnostics := by
  unfold localStatement
  refine .behind fun _ _ => .behind fun _ _ => .behind fun function r₁ => ?_
  cases function with
  | true =>
    refine .behind fun _ _ => .behind fun _ _ => .behind fun _ _ => (ensures_pure _ _ _).2 ?_
    trivial
  | false =>
    refine (ensures_bind _ _ _ _).2 ((separated_ne_nil _ _ _).imp fun ds _ hds => ?_)
    exact .behind fun _ _ => .behind fun _ _ => (ensures_pure _ _ _).2 hds

section

variable (inner : Nested) [inner.Acting]

/-- Whatever stands behind a target that was reported, it stays reported. -/
theorem targets_loud (r : Reading) :
    Ensures (following (.sign .comma) do checkTarget (← prefixExpression inner).1) r
      fun targets r' => r'.Silent → ∀ e ∈ targets, e.isVariable = true := by
  unfold following
  refine Ensures.loop (fun targets r' => r'.Silent → ∀ e ∈ targets, e.isVariable = true)
    (fun _ _ he => by cases he) fun targets r₁ h₁ => ?_
  simp only [ensures_bind, ensures_takeIf]
  split
  · simp only [if_true, ensures_bind, ensures_pure]
    refine (ensures_run (prefixExpression inner) _).imp fun e r₂ hrun => ?_
    have hacts := (Reading.Acts.single (.took r₁)).trans (Acting.acts hrun)
    refine ((checkTarget_loud e.1 r₂).and (ensures_run _ r₂)).imp ?_
    rintro _ r₃ ⟨⟨rfl, hvariable⟩, hcheck⟩ hs t ht
    rcases List.mem_append.1 ht with ht | ht
    · exact h₁ ((hacts.trans (Acting.acts hcheck)).advances.silent hs) t ht
    · rw [List.mem_singleton.1 ht]
      exact hvariable hs
  · simp only [Bool.false_eq_true, if_false, ensures_pure]
    exact h₁

theorem callOrAssign_shaped (r : Reading) :
    Ensures (callOrAssign inner) r fun s r' => s.Shaped r'.diagnostics := by
  unfold callOrAssign
  simp only [ensures_bind, ensures_start]
  refine (prefixExpression_tells inner r).imp ?_
  rintro ⟨e, shape⟩ r₁ htells
  simp only [ensures_ite, ensures_bind, ensures_spanFrom, ensures_pure]
  split
  next hcall => exact htells.call.1 hcall
  · refine (checkTarget_loud e r₁).imp ?_
    rintro _ r₂ ⟨rfl, hfirst⟩
    refine ((targets_loud inner r₂).and (ensures_run _ r₂)).imp ?_
    rintro more r₃ ⟨hmore, hrun₃⟩
    refine (ensures_run (expect (.sign .equals)) r₃).imp fun _ r₄ hrun₄ => ?_
    refine ((expressions_ne_nil inner r₄).and (ensures_run _ r₄)).imp ?_
    rintro values r₅ ⟨hvalues, hrun₅⟩
    have hacts₃ : r₃.Acts r₅ := (Acting.acts hrun₄).trans (Acting.acts hrun₅)
    refine ⟨List.cons_ne_nil _ _, hvalues, ?_⟩
    rintro ⟨t, ht, hnot⟩ hnil
    have hsilent₃ : r₃.Silent := hacts₃.advances.silent hnil
    have hsilent₂ : r₂.Silent := (Acting.acts hrun₃).advances.silent hsilent₃
    rcases List.mem_cons.1 ht with rfl | ht
    · rw [hfirst hsilent₂] at hnot
      cases hnot
    · rw [hmore hsilent₃ t ht] at hnot
      cases hnot

theorem statement_shaped (r : Reading) :
    Ensures (statement inner) r fun x r' => ∀ s ∈ x, s.Shaped r'.diagnostics := by
  have hsome {m : Read Statement} (hm : ∀ r, Ensures m r fun s r' => s.Shaped r'.diagnostics) (r) :
      Ensures (some <$> m) r fun x r' => ∀ s ∈ x, s.Shaped r'.diagnostics := by
    rw [ensures_map]
    exact (hm r).imp fun s r' hs => by simpa using hs
  -- Most statements have no list that has to be filled.
  have hplain {s : Statement} {r' : Reading} (hs : ∀ ds, s.Shaped ds) :
      Ensures (pure (some s)) r' fun x r' => ∀ s ∈ x, s.Shaped r'.diagnostics := by
    simpa using hs r'.diagnostics
  unfold statement
  refine .behind fun _ _ => .behind fun k _ => ?_
  split
  next => exact hsome (ifThen_shaped inner) _
  next => exact hsome (forLoop_shaped inner) _
  next => exact hsome (function_shaped inner) _
  next => exact hsome (localStatement_shaped inner) _
  next => exact hsome (callOrAssign_shaped inner) _
  next => exact hsome (callOrAssign_shaped inner) _
  next =>
    refine .behind fun _ _ => .behind fun _ _ => .behind fun _ _ => .behind fun _ _ => ?_
    exact .behind fun _ _ => hplain fun _ => trivial
  next =>
    refine .behind fun _ _ => .behind fun _ _ => .behind fun _ _ => .behind fun _ _ => ?_
    exact .behind fun _ _ => hplain fun _ => trivial
  next => exact .behind fun _ _ => .behind fun _ _ => .behind fun _ _ => hplain fun _ => trivial
  next =>
    refine .behind fun _ _ => .behind fun _ _ => .behind fun _ _ => .behind fun _ _ => ?_
    exact hplain fun _ => trivial
  next => exact .behind fun _ _ => .behind fun _ _ => .behind fun _ _ => hplain fun _ => trivial
  next => exact .behind fun _ _ => .behind fun _ _ => hplain fun _ => trivial
  next =>
    refine .behind fun _ _ => .behind fun _ _ => .behind fun _ _ => .behind fun _ _ => ?_
    exact (ensures_pure _ _ _).2 fun s hs => by cases hs

end

end Read

/-- All that is promised of the nodes of a tree holds, also where the text is no program. -/
theorem Tree.parse_shaped (source : Text.Source) :
    (Node.chunk (parse source).root).Everywhere (Node.Shaped (parse source).diagnostics) := by
  obtain ⟨last, hspreads, -, -, hdiagnostics, -⟩ := parse_lays source
  have hsourced : ∀ n : Node, n.Sourced (Reading.ofSource source) last →
      n.Shaped (parse source).diagnostics := by
    intro n hn
    have horigin := hn.origin
    cases n with
    | statement s =>
      obtain ⟨depth, r, r', -, hr', -, hrun⟩ := horigin
      rw [hdiagnostics]
      exact (Read.statement_shaped (.upTo depth) r (some s) r' hrun s rfl).mono
        hr'.advances.diagnostics
    | functionName f => exact horigin
    | _ => trivial
  refine Node.everywhere_iff.2 ⟨trivial, List.forall_mem_singleton.2 ?_⟩
  refine Node.everywhere_iff.2 ⟨trivial, fun n hn => ?_⟩
  exact (hspreads.nodes n hn).imp hsourced

end Syntax
end LuaFront
