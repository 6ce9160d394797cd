import LuaFront.Proofs.Syntax.Expression
import LuaFront.Proofs.Syntax.Moving

/-!
# LuaFront.Proofs.Syntax.Layout

Every reader does the same at a text whose tokens were moved, whether the text is well formed or
not: it gives the moved result, and reports the same at the places that these were moved to.

Readers look at places four times. A diagnostic is dropped if the last one is about the same stretch
(`Read.report_follows`), a token is supplied where the current one starts, and a statement or a block
that consumed nothing is known by where it started. The first is the hard one. What is reported is a
token, which no other token comes together with, or a target that cannot be assigned to, which may
stretch over many tokens (`Reading.Targeted`).

`Nested.moves_upTo` ties the readers together, by induction on how deeply constructs are nested.
-/

namespace LuaFront
namespace Syntax

open Text (Span)
open Placed (relocate Settled)

/-- Readers of nested constructs that do the same wherever the tokens stand. -/
structure Nested.Moves (inner : Nested) (f : Nat → Nat) : Prop where
  operand : ∀ (parent : Nat) (r : Reading), r.Regular → Read.Moves f (inner.operand parent) r
  block : ∀ r : Reading, r.Regular → Read.Moves f inner.block r

namespace Read

variable {f : Nat → Nat} {inner : Nested} {r : Reading}

theorem expression_moves (hin : inner.Moves f) (h : r.Regular) : Moves f inner.expression r :=
  hin.operand 0 r h

theorem expressions_moves (hf : Stretches f) (hin : inner.Moves f) (h : r.Regular) :
    Moves f inner.expressions r :=
  separated_moves hf (by simp) (hin.operand 0) h

/-! ## Functions -/

theorem parameters_moves (hf : Stretches f) (h : r.Regular) : Moves f parameters r := by
  unfold parameters
  refine follows_kind (.ite (fun _ => ?_) fun _ => ?_)
  · exact .pure h rfl ⟨by simp [Settled], trivial⟩ trivial
  refine .loop (fun _ _ => True) h rfl (by simp [Settled]) trivial fun names r₁ h₁ hnames _ => ?_
  refine (takeIf_follows hf h₁.regular (by simp)).bind fun dots r₂ _ h₂ _ => ?_
  refine .ite (fun _ => .pure h₂.regular rfl ⟨hnames, trivial⟩ trivial) fun _ => ?_
  refine (name_follows hf h₂.regular).bind fun n r₃ hn h₃ _ => ?_
  refine (takeIf_follows hf h₃.regular (by simp)).bind fun comma r₄ _ h₄ _ => ?_
  have hmore := settled_snoc hnames hn
  refine .ite (fun _ => ?_) fun _ => ?_
  · exact .pure h₄.regular (congrArg Sum.inl (relocate_snoc names n)) hmore trivial
  · exact .pure h₄.regular (congrArg (fun ns => Sum.inr (ns, false)) (relocate_snoc names n))
      ⟨hmore, trivial⟩ trivial

theorem functionBody_moves (hf : Stretches f) (hin : inner.Moves f) (h : r.Regular) :
    Moves f (functionBody inner) r := by
  unfold functionBody
  refine follows_start ?_
  refine (expect_follows hf h (by simp)).bind fun _ r₁ _ h₁ _ => ?_
  refine (parameters_moves hf h₁.regular).bind fun p r₂ hp h₂ _ => ?_
  refine (expect_follows hf h₂.regular (by simp)).bind fun _ r₃ _ h₃ _ => ?_
  refine (hin.block r₃ h₃.regular).bind fun b r₄ hb h₄ _ => ?_
  refine (expect_follows hf h₄.regular (by simp)).bind fun _ r₅ _ h₅ _ => ?_
  refine follows_spanFrom hf (.pure h₅.regular rfl ?_ trivial)
  exact Node.stands_functionBody.2 ⟨hp.1, hb⟩

/-! ## Literals and tables -/

theorem settled_literal (value : Literal) (s : Span) : Settled (Expression.literal value s) :=
  Node.stands_expression.2 (by simp [Expression.parts])

theorem literal_follows (hf : Stretches f) (h : r.Regular) (hk : r.current.kind ≠ .endOfFile) :
    Follows f literal literal r fun _ r' => r' = r.taken := by
  unfold literal
  refine (take_follows hf h hk).bind fun t r₁ _ h₁ ht => ?_
  exact .pure h₁.regular rfl (settled_literal _ _) ht.2

end Read

/-- An entry of a table is named if a name with an equals sign behind it is there. -/
theorem Reading.named {r r' : Reading} (hname : r.current.kind = .name)
    (hcurrent : r'.current = r.current) (hahead : r'.ahead = r.ahead)
    (hk : Kind.sign .equals = r.current.kind ∨
      ∃ l ahead, r.ahead = l :: ahead ∧ Kind.sign .equals = l.token.kind) :
    r'.current.kind = .name ∧ r'.taken.current.kind ≠ .endOfFile := by
  rcases hk with hk | ⟨l, ahead, hl, hk⟩
  · rw [hname] at hk
    cases hk
  · have htaken : r'.taken.current = l.token := by
      rw [Reading.taken, hahead, hl]
    refine ⟨by rw [hcurrent, hname], ?_⟩
    rw [htaken, ← hk]
    simp

namespace Read

variable {f : Nat → Nat} {inner : Nested} {r : Reading}

theorem field_moves (hf : Stretches f) (hin : inner.Moves f) (h : r.Regular) :
    Moves f (field inner) r := by
  unfold field
  refine follows_start (follows_kind ?_)
  extract_lets rest rest'
  have hrest (named : Bool) (r₁ : Reading) (h₁ : r.Steps r₁) (hnamed : named = true →
      r₁.current.kind = .name ∧ r₁.taken.current.kind ≠ .endOfFile) :
      Follows f (rest named) (rest' named) r₁ fun _ _ => True := by
    refine follows_kind (.ite (fun hk => ?_) fun _ => .ite (fun hname => ?_) fun _ => ?_)
    · refine (take_follows hf h₁.regular (by simp [hk])).bind fun _ r₂ _ h₂ _ => ?_
      refine (expression_moves hin h₂.regular).bind fun key r₃ hkey h₃ _ => ?_
      refine (expect_follows hf h₃.regular (by simp)).bind fun _ r₄ _ h₄ _ => ?_
      refine (expect_follows hf h₄.regular (by simp)).bind fun _ r₅ _ h₅ _ => ?_
      refine (expression_moves hin h₅.regular).bind fun value r₆ hvalue h₆ _ => ?_
      refine follows_spanFrom hf (.pure h₆.regular rfl ?_ trivial)
      exact Node.stands_field.2 (by simpa [Field.parts] using ⟨hkey, hvalue⟩)
    · obtain ⟨hk, hnext⟩ := hnamed hname
      refine (name_follows hf h₁.regular).bind fun n r₂ _ h₂ hr₂ => ?_
      have hne : r₂.current.kind ≠ .endOfFile := by
        rw [hr₂ hk]
        exact hnext
      refine (take_follows hf h₂.regular hne).bind fun _ r₃ _ h₃ _ => ?_
      refine (expression_moves hin h₃.regular).bind fun value r₄ hvalue h₄ _ => ?_
      refine follows_spanFrom hf (.pure h₄.regular rfl ?_ trivial)
      exact Node.stands_field.2 (List.forall_mem_singleton.2 hvalue)
    · refine (expression_moves hin h₁.regular).bind fun value r₂ hvalue h₂ _ => ?_
      refine follows_spanFrom hf (.pure h₂.regular rfl ?_ trivial)
      exact Node.stands_field.2 (List.forall_mem_singleton.2 hvalue)
  refine .ite (fun hname => ?_) fun _ => hrest false r h.refl (by simp)
  refine (peekKind_follows h).bind ?_
  rintro k r₁ _ h₁ ⟨hcurrent, hahead, hk⟩
  refine hrest _ r₁ h₁ fun hequals => ?_
  rw [of_decide_eq_true hequals] at hk
  exact Reading.named hname hcurrent hahead hk

theorem fields_moves (hf : Stretches f) (hin : inner.Moves f) (h : r.Regular) :
    Moves f (loop (fun fields => do
      if (← kind) = .sign .closeBrace ∨ (← kind) = .endOfFile then return .inr fields
      let fields := fields ++ [← field inner]
      if (← kind) = .sign .comma ∨ (← kind) = .sign .semicolon then
        let _ ← take
        return .inl fields
      else return .inr fields) []) r := by
  refine .loop (fun _ _ => True) h rfl (by simp [Settled]) trivial fun fields r₁ h₁ hfields _ => ?_
  refine follows_kind (follows_kind (.ite (fun _ => ?_) fun _ => ?_))
  · exact .pure h₁.regular rfl hfields trivial
  refine (field_moves hf hin h₁.regular).bind fun x r₂ hx h₂ _ => ?_
  have hmore := settled_snoc hfields hx
  refine follows_kind (follows_kind (.ite (fun hk => ?_) fun _ => ?_))
  · have hne : r₂.current.kind ≠ .endOfFile := by
      rcases hk with hk | hk <;> simp [hk]
    refine (take_follows hf h₂.regular hne).bind fun _ r₃ _ h₃ _ => ?_
    exact .pure h₃.regular (congrArg Sum.inl (relocate_snoc fields x)) hmore trivial
  · exact .pure h₂.regular (congrArg Sum.inr (relocate_snoc fields x)) hmore trivial

theorem table_follows (hf : Stretches f) (hin : inner.Moves f) (h : r.Regular) :
    Follows f (table inner) (table inner) r fun _ r' =>
      r.current.kind = .sign .openBrace → r.taken.Steps r' := by
  unfold table
  refine follows_start ?_
  refine (expect_follows hf h (by simp)).bind ?_
  rintro _ r₁ _ h₁ ⟨hr₁, _⟩
  refine (fields_moves hf hin h₁.regular).bind fun fields r₂ hfields h₂ _ => ?_
  refine (expect_follows hf h₂.regular (by simp)).bind fun _ r₃ _ h₃ _ => ?_
  refine follows_spanFrom hf (.pure h₃.regular ?_ ?_ fun hk => ?_)
  · exact congrArg (Expression.table · _) (Relocate.fields_eq f fields).symm
  · exact Node.stands_expression.2 (List.forall_mem_map.2 hfields)
  · rw [← (hr₁ hk).2]
    exact h₂.trans h₃

/-! ## Prefix expressions -/

/-- Arguments that are there start with a token of their own. -/
theorem arguments_follows (hf : Stretches f) (hin : inner.Moves f) (h : r.Regular) :
    Follows f (arguments inner) (arguments inner) r fun _ r' =>
      Grammar.opensArguments r.current.kind = true → r.taken.Steps r' := by
  unfold arguments
  refine follows_kind ?_
  split
  next hk =>
    refine (literal_follows hf h (by simp [hk])).bind fun e r₁ he h₁ hr₁ => ?_
    refine .pure h₁.regular rfl (by simpa [Settled] using he) fun _ => ?_
    exact hr₁ ▸ h₁.regular.refl
  next hk =>
    refine (table_follows hf hin h).bind fun e r₁ he h₁ hr₁ => ?_
    exact .pure h₁.regular rfl (by simpa [Settled] using he) fun _ => hr₁ hk
  next hstring hbrace =>
    refine (expect_follows hf h (by simp)).bind ?_
    rintro _ r₁ _ h₁ ⟨hr₁, _⟩
    have hsteps (hopens : Grammar.opensArguments r.current.kind = true) : r₁ = r.taken := by
      refine (hr₁ ?_).2
      unfold Grammar.opensArguments at hopens
      split at hopens <;> simp_all
    refine follows_kind ?_
    extract_lets rest
    have hrest (es : List Expression) (r₂ : Reading) (hes : Settled es) (h₂ : r₁.Steps r₂) :
        Follows f (rest es) (rest (relocate f es)) r₂ fun _ r' =>
          Grammar.opensArguments r.current.kind = true → r.taken.Steps r' := by
      refine (expect_follows hf h₂.regular (by simp)).bind fun _ r₃ _ h₃ _ => ?_
      refine .pure h₃.regular rfl hes fun hopens => ?_
      rw [← hsteps hopens]
      exact h₂.trans h₃
    refine .ite (fun _ => hrest [] r₁ (by simp [Settled]) h₁.regular.refl) fun _ => ?_
    exact (expressions_moves hf hin h₁.regular).bind fun es r₂ hes h₂ _ => hrest es r₂ hes h₂

end Read

namespace Reading

variable {r r' : Reading} {place : Nat} {e : Expression}

/-- An expression was just read, from the given place on. If it is no variable then some token was
consumed for it, and it may be reported without being taken for something else. -/
structure Targeted (r : Reading) (place : Nat) (e : Expression) : Prop where
  clear : r.Clear place
  start_le : place ≤ r.current.span.start
  span : e.isVariable = false →
    e.span = ⟨place, max r.previousEnd place⟩ ∧ place < r.current.span.start

/-- What is read behind a consumed token makes an expression from a place before that token. -/
theorem Steps.targeted (hsteps : r.taken.Steps r') (h : r.Regular)
    (hk : r.current.kind ≠ .endOfFile) (hclear : r.Clear place)
    (hle : place ≤ r.current.span.start)
    (hspan : e.isVariable = false → e.span = ⟨place, max r'.previousEnd place⟩) :
    r'.Targeted place e := by
  have hlt := h.sound.start_lt_taken hk
  have hle' := hsteps.start_le
  have htaken : r.taken.Clear place := by
    intro d hd
    rw [lastDiagnostic?_taken h] at hd
    exact hclear d hd
  refine ⟨hsteps.clear place (by omega) htaken, by omega, fun hvariable => ⟨hspan hvariable, ?_⟩⟩
  omega

end Reading

namespace Read

variable {f : Nat → Nat} {inner : Nested} {r : Reading}

theorem prefixHead_follows (hf : Stretches f) (hin : inner.Moves f) (h : r.Regular) :
    Follows f (prefixHead inner) (prefixHead inner) r fun e r' =>
      r'.Targeted r.current.span.start e.1 := by
  have hname (n : Name) : Settled (Expression.name n) :=
    Node.stands_expression.2 (by simp [Expression.parts])
  unfold prefixHead
  refine follows_start (follows_kind ?_)
  split
  next hk =>
    refine (name_follows hf h).bind fun n r₁ _ h₁ hr₁ => ?_
    refine .pure h₁.regular rfl ⟨hname n, trivial⟩ ?_
    have hsteps : r.taken.Steps r₁ := hr₁ hk ▸ h₁.regular.refl
    exact hsteps.targeted h (by simp [hk]) h.clear_start (Nat.le_refl _) (by simp [Expression.isVariable])
  next hk =>
    have hne : r.current.kind ≠ .endOfFile := by simp [hk]
    refine (take_follows hf h hne).bind ?_
    rintro _ r₁ _ h₁ ⟨_, hr₁⟩
    refine (expression_moves hin h₁.regular).bind fun e r₂ he h₂ _ => ?_
    refine (expect_follows hf h₂.regular (by simp)).bind fun _ r₃ _ h₃ _ => ?_
    refine follows_spanFrom hf (.pure h₃.regular rfl ⟨?_, trivial⟩ ?_)
    · exact Node.stands_expression.2 (List.forall_mem_singleton.2 he)
    · have hsteps : r.taken.Steps r₃ := hr₁ ▸ h₂.trans h₃
      exact hsteps.targeted h hne h.clear_start (Nat.le_refl _) fun _ => rfl
  next =>
    refine follows_span ((reportCurrent_follows hf h _).bind ?_)
    rintro _ r₁ _ h₁ ⟨hcurrent, _, hlast⟩
    rw [← hcurrent] at hlast
    refine (supply_follows hf h₁.regular .name hlast).bind ?_
    rintro t r₂ _ h₂ ⟨_, hr₂⟩
    refine .pure h₂.regular rfl ⟨hname _, trivial⟩ ?_
    have hstart : r₂.current.span.start = r.current.span.start := by
      rw [hr₂, ← hcurrent]
      rfl
    exact ⟨hstart ▸ h₂.regular.clear_start, Nat.le_of_eq hstart.symm,
      by simp [Expression.isVariable]⟩

theorem suffix_follows (hf : Stretches f) (hin : inner.Moves f) (h : r.Regular) {start : Nat}
    {e : Expression × Shape} (he : Settled e) (htarget : r.Targeted start e.1) :
    Follows f (suffix inner start e) (suffix inner (f start) (relocate f e)) r fun x r' =>
      r'.Targeted start (x.elim Prod.fst Prod.fst) := by
  have hmore {r' : Reading} {e' : Expression} (hk : r.current.kind ≠ .endOfFile)
      (hsteps : r.taken.Steps r') (hspan : e'.isVariable = false →
        e'.span = ⟨start, max r'.previousEnd start⟩) : r'.Targeted start e' :=
    hsteps.targeted h hk htarget.clear htarget.start_le hspan
  have hcall (m : Option Name) {es : List Expression} (s : Span) (hes : Settled es) :
      Settled (Expression.call e.1 m es s) :=
    Node.stands_expression.2 (List.forall_mem_cons.2 ⟨he.1, List.forall_mem_map.2 hes⟩)
  have hmoved (m : Option Name) (es : List Expression) (s : Span) :
      Expression.call (relocate f e.1) (relocate f m) (relocate f es) (relocate f s) =
        relocate f (Expression.call e.1 m es s) :=
    congrArg (Expression.call _ _ · _) (Relocate.expressions_eq f es).symm
  have happly (hopens : Grammar.opensArguments r.current.kind = true) :
      Follows f
        (do
          let arguments ← arguments inner
          return Sum.inl (Expression.call e.1 none arguments (← spanFrom start), Shape.call))
        (do
          let arguments ← arguments inner
          return Sum.inl (Expression.call (relocate f e).1 none arguments (← spanFrom (f start)),
            Shape.call)) r
        fun (x : (Expression × Shape) ⊕ (Expression × Shape)) r' =>
          r'.Targeted start (x.elim Prod.fst Prod.fst) := by
    have hne : r.current.kind ≠ .endOfFile := by
      intro hk
      rw [hk] at hopens
      cases hopens
    refine (arguments_follows hf hin h).bind fun es r₁ hes h₁ hr₁ => ?_
    refine follows_spanFrom hf (.pure h₁.regular ?_ ⟨hcall none _ hes, trivial⟩ ?_)
    · exact congrArg (fun x => Sum.inl (x, Shape.call)) (hmoved none es _)
    · exact hmore hne (hr₁ hopens) fun _ => rfl
  unfold suffix
  refine follows_kind ?_
  split
  next hk =>
    have hne : r.current.kind ≠ .endOfFile := by simp [hk]
    refine (take_follows hf h hne).bind ?_
    rintro _ r₁ _ h₁ ⟨_, hr₁⟩
    refine (name_follows hf h₁.regular).bind fun n r₂ _ h₂ _ => ?_
    refine follows_spanFrom hf (.pure h₂.regular rfl ⟨?_, trivial⟩ ?_)
    · exact Node.stands_expression.2 (List.forall_mem_singleton.2 he.1)
    · exact hmore hne (hr₁ ▸ h₂) (by simp [Expression.isVariable])
  next hk =>
    have hne : r.current.kind ≠ .endOfFile := by simp [hk]
    refine (take_follows hf h hne).bind ?_
    rintro _ r₁ _ h₁ ⟨_, hr₁⟩
    refine (expression_moves hin h₁.regular).bind fun index r₂ hindex h₂ _ => ?_
    refine (expect_follows hf h₂.regular (by simp)).bind fun _ r₃ _ h₃ _ => ?_
    refine follows_spanFrom hf (.pure h₃.regular rfl ⟨?_, trivial⟩ ?_)
    · exact Node.stands_expression.2 (by simpa [Expression.parts] using ⟨he.1, hindex⟩)
    · exact hmore hne (hr₁ ▸ h₂.trans h₃) (by simp [Expression.isVariable])
  next hk =>
    have hne : r.current.kind ≠ .endOfFile := by simp [hk]
    refine (take_follows hf h hne).bind ?_
    rintro _ r₁ _ h₁ ⟨_, hr₁⟩
    refine (name_follows hf h₁.regular).bind fun n r₂ _ h₂ _ => ?_
    refine (arguments_follows hf hin h₂.regular).bind fun es r₃ hes h₃ _ => ?_
    refine follows_spanFrom hf (.pure h₃.regular ?_ ⟨hcall (some n) _ hes, trivial⟩ ?_)
    · exact congrArg (fun x => Sum.inl (x, Shape.call)) (hmoved (some n) es _)
    · exact hmore hne (hr₁ ▸ h₂.trans h₃) fun _ => rfl
  next hk => exact happly (by rw [hk]; rfl)
  next hk => exact happly (by rw [hk]; rfl)
  next hk => exact happly (by rw [hk]; rfl)
  next => exact .pure h rfl he htarget

theorem prefixExpression_follows (hf : Stretches f) (hin : inner.Moves f) (h : r.Regular) :
    Follows f (prefixExpression inner) (prefixExpression inner) r fun e r' =>
      r'.Targeted r.current.span.start e.1 := by
  unfold prefixExpression
  refine follows_start ?_
  refine (prefixHead_follows hf hin h).bind fun head r₁ hhead h₁ htarget => ?_
  refine .loop (fun e r' => r'.Targeted r.current.span.start e.1) h₁.regular rfl hhead htarget ?_
  intro e r₂ h₂ he htarget
  refine (suffix_follows hf hin h₂.regular he htarget).imp fun x r₃ _ _ hx => ?_
  cases x with
  | inl e' => exact hx
  | inr e' => exact hx

/-! ## Operators -/

theorem primary_moves (hf : Stretches f) (hin : inner.Moves f) (h : r.Regular) :
    Moves f (primary inner) r := by
  have hliteral (hk : r.current.kind ≠ .endOfFile) : Moves f literal r :=
    (literal_follows hf h hk).imp fun _ _ _ _ _ => trivial
  unfold primary
  refine follows_start (follows_kind ?_)
  split
  next hk => exact hliteral (by simp [hk])
  next hk => exact hliteral (by simp [hk])
  next hk => exact hliteral (by simp [hk])
  next hk => exact hliteral (by simp [hk])
  next hk => exact hliteral (by simp [hk])
  next hk => exact hliteral (by simp [hk])
  next hk =>
    refine (take_follows hf h (by simp [hk])).bind fun _ r₁ _ h₁ _ => ?_
    refine follows_spanFrom hf (.pure h₁.regular rfl ?_ trivial)
    exact Node.stands_expression.2 (by simp [Expression.parts])
  next hk =>
    refine (take_follows hf h (by simp [hk])).bind fun _ r₁ _ h₁ _ => ?_
    refine (functionBody_moves hf hin h₁.regular).bind fun body r₂ hbody h₂ _ => ?_
    refine follows_spanFrom hf (.pure h₂.regular rfl ?_ trivial)
    exact Node.stands_expression.2 (List.forall_mem_singleton.2 hbody)
  next => exact (table_follows hf hin h).imp fun _ _ _ _ _ => trivial
  next =>
    refine (prefixExpression_follows hf hin h).bind fun e r₁ he h₁ _ => ?_
    exact .pure h₁.regular rfl he.1 trivial

theorem unary_moves (hf : Stretches f) (hin : inner.Moves f) (h : r.Regular) :
    Moves f (unary inner) r := by
  unfold unary
  refine follows_start (follows_kind ?_)
  split
  next op hop =>
    have hne : r.current.kind ≠ .endOfFile :=
      UnaryOperator.kind_of_ofKind? hop ▸ op.kind_ne_endOfFile
    refine (take_follows hf h hne).bind fun _ r₁ _ h₁ _ => ?_
    refine (hin.operand _ r₁ h₁.regular).bind fun e r₂ he h₂ _ => ?_
    refine follows_spanFrom hf (.pure h₂.regular rfl ?_ trivial)
    exact Node.stands_expression.2 (List.forall_mem_singleton.2 he)
  next => exact primary_moves hf hin h

theorem infixed_moves (hf : Stretches f) (hin : inner.Moves f) (h : r.Regular) {parent start : Nat}
    {left : Expression} (hleft : Settled left) :
    Follows f (infixed inner parent start left)
      (infixed inner parent (f start) (relocate f left)) r fun _ _ => True := by
  unfold infixed
  refine follows_kind ?_
  split
  next op hop =>
    refine .ite (fun _ => ?_) fun _ => .pure h rfl hleft trivial
    have hne : r.current.kind ≠ .endOfFile :=
      BinaryOperator.kind_of_ofKind? hop ▸ op.kind_ne_endOfFile
    refine (take_follows hf h hne).bind fun _ r₁ _ h₁ _ => ?_
    refine (hin.operand _ r₁ h₁.regular).bind fun right r₂ hright h₂ _ => ?_
    refine follows_spanFrom hf (.pure h₂.regular rfl ?_ trivial)
    exact Node.stands_expression.2 (by simpa [Expression.parts] using ⟨hleft, hright⟩)
  next => exact .pure h rfl hleft trivial

theorem operand_moves (hf : Stretches f) (hin : inner.Moves f) (h : r.Regular) (parent : Nat) :
    Moves f (operand inner parent) r := by
  unfold operand
  refine follows_start ?_
  refine (unary_moves hf hin h).bind fun left r₁ hleft h₁ _ => ?_
  refine .loop (fun _ _ => True) h₁.regular rfl hleft trivial fun e r₂ h₂ he _ => ?_
  refine (infixed_moves hf hin h₂.regular he).imp fun x _ _ _ _ => ?_
  cases x <;> trivial

/-! ## Statements -/

theorem blockToEnd_moves (hf : Stretches f) (hin : inner.Moves f) (h : r.Regular) :
    Moves f (blockToEnd inner) r := by
  unfold blockToEnd
  refine (hin.block r h).bind fun b r₁ hb h₁ _ => ?_
  refine (expect_follows hf h₁.regular (by simp)).bind fun _ r₂ _ h₂ _ => ?_
  exact .pure h₂.regular rfl hb trivial

theorem results_moves (hf : Stretches f) (hin : inner.Moves f) (h : r.Regular) :
    Moves f (results inner) r := by
  unfold results
  refine follows_kind (follows_kind (.ite (fun _ => ?_) fun _ => expressions_moves hf hin h))
  exact .pure h rfl (by simp [Settled]) trivial

theorem result_moves (hf : Stretches f) (hin : inner.Moves f) (h : r.Regular) :
    Moves f (result inner) r := by
  unfold result
  refine follows_start ?_
  refine (expect_follows hf h (by simp)).bind fun _ r₁ _ h₁ _ => ?_
  refine (results_moves hf hin h₁.regular).bind fun values r₂ hvalues h₂ _ => ?_
  refine (takeIf_follows hf h₂.regular (by simp)).bind fun _ r₃ _ h₃ _ => ?_
  exact follows_spanFrom hf (.pure h₃.regular rfl (Node.stands_result.2 hvalues) trivial)

theorem elseIf_moves (hf : Stretches f) (hin : inner.Moves f) (h : r.Regular)
    (hk : r.current.kind ≠ .endOfFile) : Moves f (elseIf inner) r := by
  unfold elseIf
  refine follows_start ?_
  refine (take_follows hf h hk).bind fun _ r₁ _ h₁ _ => ?_
  refine (expression_moves hin h₁.regular).bind fun c r₂ hc h₂ _ => ?_
  refine (expect_follows hf h₂.regular (by simp)).bind fun _ r₃ _ h₃ _ => ?_
  refine (hin.block r₃ h₃.regular).bind fun b r₄ hb h₄ _ => ?_
  exact follows_spanFrom hf (.pure h₄.regular rfl (Node.stands_elseIf.2 ⟨hc, hb⟩) trivial)

theorem elseIfs_moves (hf : Stretches f) (hin : inner.Moves f) (h : r.Regular) :
    Moves f (elseIfs inner) r := by
  unfold elseIfs
  refine .loop (fun _ _ => True) h rfl (by simp [Settled]) trivial fun es r₁ h₁ hes _ => ?_
  refine follows_kind (.ite (fun hk => ?_) fun _ => .pure h₁.regular rfl hes trivial)
  refine (elseIf_moves hf hin h₁.regular (by simp [hk])).bind fun e r₂ he h₂ _ => ?_
  exact .pure h₂.regular (congrArg Sum.inl (relocate_snoc es e)) (settled_snoc hes he) trivial

theorem otherwise_moves (hf : Stretches f) (hin : inner.Moves f) (h : r.Regular) :
    Moves f (otherwise inner) r := by
  unfold otherwise
  refine (takeIf_follows hf h (by simp)).bind fun found r₁ _ h₁ _ => ?_
  refine .ite (fun _ => (hin.block r₁ h₁.regular).some) fun _ => ?_
  exact .pure h₁.regular rfl (by simp [Settled]) trivial

theorem ifThen_moves (hf : Stretches f) (hin : inner.Moves f) (h : r.Regular) :
    Moves f (ifThen inner) r := by
  unfold ifThen
  refine follows_start ?_
  refine (expect_follows hf h (by simp)).bind fun _ r₁ _ h₁ _ => ?_
  refine (expression_moves hin h₁.regular).bind fun c r₂ hc h₂ _ => ?_
  refine (expect_follows hf h₂.regular (by simp)).bind fun _ r₃ _ h₃ _ => ?_
  refine (hin.block r₃ h₃.regular).bind fun b r₄ hb h₄ _ => ?_
  refine (elseIfs_moves hf hin h₄.regular).bind fun es r₅ hes h₅ _ => ?_
  refine (otherwise_moves hf hin h₅.regular).bind fun o r₆ ho h₆ _ => ?_
  refine (expect_follows hf h₆.regular (by simp)).bind fun _ r₇ _ h₇ _ => ?_
  refine follows_spanFrom hf (.pure h₇.regular ?_ (Node.stands_statement.2 ?_) trivial)
  · simp only [relocate, Relocate.statement, Relocate.elseIfs_eq, Relocate.otherwise_eq]
  · refine List.forall_mem_cons.2 ⟨hc, List.forall_mem_cons.2 ⟨hb, List.forall_mem_append.2 ⟨?_, ?_⟩⟩⟩
    · exact List.forall_mem_map.2 hes
    · exact Node.stands_toList fun b hb => Node.stands_otherwise.2 (ho b hb)

theorem step_moves (hf : Stretches f) (hin : inner.Moves f) (h : r.Regular) :
    Moves f (step inner) r := by
  unfold step
  refine (takeIf_follows hf h (by simp)).bind fun found r₁ _ h₁ _ => ?_
  refine .ite (fun _ => (expression_moves hin h₁.regular).some) fun _ => ?_
  exact .pure h₁.regular rfl (by simp [Settled]) trivial

theorem name_moves (hf : Stretches f) (h : r.Regular) : Moves f name r :=
  (name_follows hf h).imp fun _ _ _ _ _ => trivial

theorem forLoop_moves (hf : Stretches f) (hin : inner.Moves f) (h : r.Regular) :
    Moves f (forLoop inner) r := by
  unfold forLoop
  refine follows_start ?_
  refine (expect_follows hf h (by simp)).bind fun _ r₁ _ h₁ _ => ?_
  refine (name_moves hf h₁.regular).bind fun first r₂ hfirst h₂ _ => ?_
  refine (takeIf_follows hf h₂.regular (by simp)).bind fun numeric r₃ _ h₃ _ => ?_
  refine .ite (fun _ => ?_) fun _ => ?_
  · refine (expression_moves hin h₃.regular).bind fun initial r₄ hinitial h₄ _ => ?_
    refine (expect_follows hf h₄.regular (by simp)).bind fun _ r₅ _ h₅ _ => ?_
    refine (expression_moves hin h₅.regular).bind fun limit r₆ hlimit h₆ _ => ?_
    refine (step_moves hf hin h₆.regular).bind fun increment r₇ hincrement h₇ _ => ?_
    refine (expect_follows hf h₇.regular (by simp)).bind fun _ r₈ _ h₈ _ => ?_
    refine (blockToEnd_moves hf hin h₈.regular).bind fun b r₉ hb h₉ _ => ?_
    refine follows_spanFrom hf (.pure h₉.regular ?_ (Node.stands_statement.2 ?_) trivial)
    · simp only [relocate, Relocate.statement, Relocate.step_eq]
    · refine List.forall_mem_cons.2 ⟨hfirst, List.forall_mem_cons.2 ⟨hinitial,
        List.forall_mem_cons.2 ⟨hlimit, List.forall_mem_append.2 ⟨?_, ?_⟩⟩⟩⟩
      · exact Node.stands_toList hincrement
      · exact List.forall_mem_singleton.2 hb
  · refine (following_moves hf (by simp) (fun _ => name_moves hf) h₃.regular).bind
      fun more r₄ hmore h₄ _ => ?_
    refine (expect_follows hf h₄.regular (by simp)).bind fun _ r₅ _ h₅ _ => ?_
    refine (expressions_moves hf hin h₅.regular).bind fun values r₆ hvalues h₆ _ => ?_
    refine (expect_follows hf h₆.regular (by simp)).bind fun _ r₇ _ h₇ _ => ?_
    refine (blockToEnd_moves hf hin h₇.regular).bind fun b r₈ hb h₈ _ => ?_
    refine follows_spanFrom hf (.pure h₈.regular ?_ (Node.stands_statement.2 ?_) trivial)
    · simp only [relocate, Relocate.statement, Relocate.expressions_eq, List.map_cons]
    · refine List.forall_mem_append.2 ⟨List.forall_mem_append.2 ⟨?_, ?_⟩, ?_⟩
      · exact List.forall_mem_map.2 (List.forall_mem_cons.2 ⟨hfirst, hmore⟩)
      · exact List.forall_mem_map.2 hvalues
      · exact List.forall_mem_singleton.2 hb

theorem method_moves (hf : Stretches f) (h : r.Regular) : Moves f method r := by
  unfold method
  refine (takeIf_follows hf h (by simp)).bind fun found r₁ _ h₁ _ => ?_
  refine .ite (fun _ => (name_moves hf h₁.regular).some) fun _ => ?_
  exact .pure h₁.regular rfl (by simp [Settled]) trivial

theorem functionName_moves (hf : Stretches f) (h : r.Regular) : Moves f functionName r := by
  unfold functionName
  refine follows_start ?_
  refine (separated_moves hf (by simp) (fun _ => name_moves hf) h).bind fun path r₁ _ h₁ _ => ?_
  refine (method_moves hf h₁.regular).bind fun m r₂ _ h₂ _ => ?_
  exact follows_spanFrom hf (.pure h₂.regular rfl trivial trivial)

theorem function_moves (hf : Stretches f) (hin : inner.Moves f) (h : r.Regular) :
    Moves f (function inner) r := by
  unfold function
  refine follows_start ?_
  refine (expect_follows hf h (by simp)).bind fun _ r₁ _ h₁ _ => ?_
  refine (functionName_moves hf h₁.regular).bind fun n r₂ _ h₂ _ => ?_
  refine (functionBody_moves hf hin h₂.regular).bind fun body r₃ hbody h₃ _ => ?_
  refine follows_spanFrom hf (.pure h₃.regular rfl (Node.stands_statement.2 ?_) trivial)
  exact List.forall_mem_cons.2 ⟨Node.stands_functionName n, List.forall_mem_singleton.2 hbody⟩

theorem attrib_moves (hf : Stretches f) (h : r.Regular) : Moves f attrib r := by
  unfold attrib
  refine (takeIf_follows hf h (by simp)).bind fun found r₁ _ h₁ _ => ?_
  refine .ite (fun _ => ?_) fun _ => .pure h₁.regular rfl (by simp [Settled]) trivial
  refine (name_moves hf h₁.regular).bind fun n r₂ hn h₂ _ => ?_
  refine (expect_follows hf h₂.regular (by simp)).bind fun _ r₃ _ h₃ _ => ?_
  exact .pure h₃.regular rfl (by simpa [Settled] using hn) trivial

theorem declaration_moves (hf : Stretches f) (h : r.Regular) : Moves f declaration r := by
  unfold declaration
  refine follows_start ?_
  refine (name_moves hf h).bind fun n r₁ _ h₁ _ => ?_
  refine (attrib_moves hf h₁.regular).bind fun a r₂ _ h₂ _ => ?_
  exact follows_spanFrom hf (.pure h₂.regular rfl trivial trivial)

theorem initializer_moves (hf : Stretches f) (hin : inner.Moves f) (h : r.Regular) :
    Moves f (initializer inner) r := by
  unfold initializer
  refine (takeIf_follows hf h (by simp)).bind fun found r₁ _ h₁ _ => ?_
  refine .ite (fun _ => expressions_moves hf hin h₁.regular) fun _ => ?_
  exact .pure h₁.regular rfl (by simp [Settled]) trivial

theorem localStatement_moves (hf : Stretches f) (hin : inner.Moves f) (h : r.Regular) :
    Moves f (localStatement inner) r := by
  unfold localStatement
  refine follows_start ?_
  refine (expect_follows hf h (by simp)).bind fun _ r₁ _ h₁ _ => ?_
  refine (takeIf_follows hf h₁.regular (by simp)).bind fun found r₂ _ h₂ _ => ?_
  refine .ite (fun _ => ?_) fun _ => ?_
  · refine (name_moves hf h₂.regular).bind fun n r₃ hn h₃ _ => ?_
    refine (functionBody_moves hf hin h₃.regular).bind fun body r₄ hbody h₄ _ => ?_
    refine follows_spanFrom hf (.pure h₄.regular rfl (Node.stands_statement.2 ?_) trivial)
    exact List.forall_mem_cons.2 ⟨hn, List.forall_mem_singleton.2 hbody⟩
  · refine (separated_moves hf (by simp) (fun _ => declaration_moves hf) h₂.regular).bind
      fun ds r₃ _ h₃ _ => ?_
    refine (initializer_moves hf hin h₃.regular).bind fun values r₄ hvalues h₄ _ => ?_
    refine follows_spanFrom hf (.pure h₄.regular ?_ (Node.stands_statement.2 ?_) trivial)
    · simp only [relocate, Relocate.statement, Relocate.expressions_eq]
    · refine List.forall_mem_append.2 ⟨?_, List.forall_mem_map.2 hvalues⟩
      exact List.forall_mem_map.2 fun d _ => Node.stands_declaration d

end Read

/-! ## Targets -/

namespace Reading

variable {f : Nat → Nat} {o r : Reading} {place : Nat} {e : Expression}

/-- A target that is reported is told apart from what was reported last, wherever they are moved:
if both start at one place then what was reported last is a single token. -/
theorem Targeted.same (ht : r.Targeted place e) (hf : Stretches f) (h : r.Regular)
    (hplace : Aligned place) (hvariable : e.isVariable = false) {d : Diagnostic}
    (hd : r.journal.lastDiagnostic? = some d) (hspan : relocate f d.span = relocate f e.span) :
    d.span = e.span := by
  obtain ⟨he, hlt⟩ := ht.span hvariable
  rw [he] at hspan ⊢
  have hstart : d.span.start = place :=
    (hf.eq_iff (h.last d hd).1 hplace).1 (congrArg Span.start hspan)
  have hsnug := ht.clear d hd hstart
  have hstop : f d.span.stop = f (max r.previousEnd place) := congrArg Span.stop hspan
  have hnext := hf.strict place hplace
  have heven := hplace.2
  suffices hsame : d.span.stop = max r.previousEnd place by
    rw [← hsame, ← hstart]
  rcases h.ends with hend | hend | hend
  · have hmax : max r.previousEnd place = place := by omega
    rw [hmax] at hstop ⊢
    rcases hsnug with hs | hs
    · omega
    · rw [hs, hstart] at hstop
      omega
  · -- Both ends are odd, and places from one odd place to the next have a token between them.
    rcases hsnug with hs | hs
    · rw [hs, hstart] at hstop
      by_cases hle : r.previousEnd ≤ place
      · rw [hs, hstart]
        omega
      · have := hf.mono (place + 1) (max r.previousEnd place) (by omega)
        omega
    · rw [hs, hstart] at hstop ⊢
      by_cases hle : r.previousEnd ≤ place + 1
      · by_cases heq : r.previousEnd = place + 1
        · omega
        · rw [Nat.max_eq_right (by omega)] at hstop
          omega
      · have hfar := hf.mono (place + 3) (max r.previousEnd place) (by omega)
        have hgap := hf.strict (place + 2) ⟨by omega, by omega⟩
        have hback := hf.mono (place + 1) (place + 2) (by omega)
        have hsum : place + 2 + 1 = place + 3 := rfl
        rw [hsum] at hgap
        omega
  · have := h.supplied d hd hsnug hend
    omega

/-- A reading stays regular when a target is reported, since something was consumed for it. -/
theorem Targeted.reported (ht : r.Targeted o.current.span.start e) (ho : o.Steps r)
    (hplace : Aligned o.current.span.start) (hvariable : e.isVariable = false) (cause : Cause) :
    o.Steps (r.reported ⟨e.span, cause⟩) := by
  obtain ⟨he, hlt⟩ := ht.span hvariable
  have h := ho.regular
  refine ⟨⟨⟨h.sound.ordered, h.sound.spelled⟩, h.aligned, h.quiet, h.ends, ?_, ?_⟩, ho.start_le, ?_⟩
  · intro d hd
    cases hd
    rw [he]
    exact ⟨hplace, .inr hlt⟩
  · intro d hd hsnug hend
    cases hd
    have heven := hplace.2
    have heven' := h.aligned_start.2
    have hend : r.previousEnd = r.current.span.start := hend
    simp only [he, Snug] at hsnug
    omega
  · intro p hp _ d hd hstart
    cases hd
    rw [he] at hstart
    have hstart : o.current.span.start = p := hstart
    omega

end Reading

namespace Read

variable {f : Nat → Nat} {inner : Nested} {o r : Reading} {e : Expression}

theorem checkTarget_follows (hf : Stretches f) (ho : o.Steps r)
    (hplace : Aligned o.current.span.start) (he : Settled e)
    (ht : r.Targeted o.current.span.start e) :
    FollowsFrom o f (checkTarget e) (checkTarget (relocate f e)) r fun _ _ => True := by
  unfold checkTarget
  rw [Expression.isVariable_relocate, Expression.span_relocate]
  have hdone (r' : Reading) (h' : o.Steps r') :
      FollowsFrom o f (pure e) (pure (relocate f e)) r' fun _ _ => True :=
    .of_run rfl rfl he h' trivial
  refine .ite Iff.rfl (fun hvariable => ?_) fun _ => hdone r ho
  have hvariable : e.isVariable = false := by simpa using hvariable
  have hsame (d : Diagnostic) (hd : r.journal.lastDiagnostic? = some d) :
      relocate f d.span = relocate f e.span → d.span = e.span :=
    ht.same hf ho.regular hplace hvariable hd
  exact (report_follows ho hsame (ht.reported ho hplace hvariable _)).bind
    fun _ r₁ _ h₁ _ => hdone r₁ h₁

theorem target_moves (hf : Stretches f) (hin : inner.Moves f) (h : r.Regular) :
    Moves f (do checkTarget (← prefixExpression inner).1) r :=
  FollowsFrom.bind (prefixExpression_follows hf hin h) fun _ _ he h₁ ht =>
    checkTarget_follows hf h₁ h.aligned_start he.1 ht

theorem callOrAssign_moves (hf : Stretches f) (hin : inner.Moves f) (h : r.Regular) :
    Moves f (callOrAssign inner) r := by
  unfold callOrAssign
  refine follows_start ?_
  refine FollowsFrom.bind (prefixExpression_follows hf hin h) fun x r₁ hx h₁ ht => ?_
  obtain ⟨first, shape⟩ := x
  refine .ite Iff.rfl (fun _ => Follows.since ?_ h₁) fun _ => ?_
  · refine follows_spanFrom hf (.pure h₁.regular rfl (Node.stands_statement.2 ?_) trivial)
    exact List.forall_mem_singleton.2 hx.1
  refine (checkTarget_follows hf h₁ h.aligned_start hx.1 ht).bind fun first r₂ hfirst h₂ _ => ?_
  refine Follows.since ?_ h₂
  refine (following_moves hf (by simp) (fun _ => target_moves hf hin) h₂.regular).bind
    fun more r₃ hmore h₃ _ => ?_
  refine (expect_follows hf h₃.regular (by simp)).bind fun _ r₄ _ h₄ _ => ?_
  refine (expressions_moves hf hin h₄.regular).bind fun values r₅ hvalues h₅ _ => ?_
  refine follows_spanFrom hf (.pure h₅.regular ?_ (Node.stands_statement.2 ?_) trivial)
  · simp only [relocate, Relocate.statement, Relocate.expressions_eq, List.map_cons]
  · refine List.forall_mem_append.2 ⟨?_, List.forall_mem_map.2 hvalues⟩
    exact List.forall_mem_map.2 (List.forall_mem_cons.2 ⟨hfirst, hmore⟩)

/-! ## Any statement -/

theorem skipToStatement_moves (hf : Stretches f) (h : r.Regular) : Moves f skipToStatement r := by
  unfold skipToStatement
  refine .loop (fun _ _ => True) h rfl trivial trivial fun _ r₁ h₁ _ _ => ?_
  refine follows_kind (.ite (fun _ => .pure h₁.regular rfl trivial trivial) fun hk => ?_)
  have hne : r₁.current.kind ≠ .endOfFile := by
    intro hend
    rw [hend] at hk
    exact hk rfl
  refine (take_follows hf h₁.regular hne).bind fun _ r₂ _ h₂ _ => ?_
  exact .pure h₂.regular rfl trivial trivial

theorem statement_moves (hf : Stretches f) (hin : inner.Moves f) (h : r.Regular)
    (hne : r.current.kind ≠ .endOfFile) : Moves f (statement inner) r := by
  unfold statement
  refine follows_start (follows_kind ?_)
  split
  next => exact (ifThen_moves hf hin h).some
  next => exact (forLoop_moves hf hin h).some
  next => exact (function_moves hf hin h).some
  next => exact (localStatement_moves hf hin h).some
  next => exact (callOrAssign_moves hf hin h).some
  next => exact (callOrAssign_moves hf hin h).some
  next =>
    refine (take_follows hf h hne).bind fun _ r₁ _ h₁ _ => ?_
    refine (expression_moves hin h₁.regular).bind fun c r₂ hc h₂ _ => ?_
    refine (expect_follows hf h₂.regular (by simp)).bind fun _ r₃ _ h₃ _ => ?_
    refine (blockToEnd_moves hf hin h₃.regular).bind fun b r₄ hb h₄ _ => ?_
    refine follows_spanFrom hf (.pure h₄.regular rfl (settled_some ?_) trivial)
    exact Node.stands_statement.2 (by simpa [Statement.parts] using ⟨hc, hb⟩)
  next =>
    refine (take_follows hf h hne).bind fun _ r₁ _ h₁ _ => ?_
    refine (hin.block r₁ h₁.regular).bind fun b r₂ hb h₂ _ => ?_
    refine (expect_follows hf h₂.regular (by simp)).bind fun _ r₃ _ h₃ _ => ?_
    refine (expression_moves hin h₃.regular).bind fun c r₄ hc h₄ _ => ?_
    refine follows_spanFrom hf (.pure h₄.regular rfl (settled_some ?_) trivial)
    exact Node.stands_statement.2 (by simpa [Statement.parts] using ⟨hb, hc⟩)
  next =>
    refine (take_follows hf h hne).bind fun _ r₁ _ h₁ _ => ?_
    refine (blockToEnd_moves hf hin h₁.regular).bind fun b r₂ hb h₂ _ => ?_
    refine follows_spanFrom hf (.pure h₂.regular rfl (settled_some ?_) trivial)
    exact Node.stands_statement.2 (List.forall_mem_singleton.2 hb)
  next =>
    refine (take_follows hf h hne).bind fun _ r₁ _ h₁ _ => ?_
    refine (name_moves hf h₁.regular).bind fun n r₂ hn h₂ _ => ?_
    refine (expect_follows hf h₂.regular (by simp)).bind fun _ r₃ _ h₃ _ => ?_
    refine follows_spanFrom hf (.pure h₃.regular rfl (settled_some ?_) trivial)
    exact Node.stands_statement.2 (List.forall_mem_singleton.2 hn)
  next =>
    refine (take_follows hf h hne).bind fun _ r₁ _ h₁ _ => ?_
    refine (name_moves hf h₁.regular).bind fun n r₂ hn h₂ _ => ?_
    refine follows_spanFrom hf (.pure h₂.regular rfl (settled_some ?_) trivial)
    exact Node.stands_statement.2 (List.forall_mem_singleton.2 hn)
  next =>
    refine (take_follows hf h hne).bind fun _ r₁ _ h₁ _ => ?_
    refine follows_spanFrom hf (.pure h₁.regular rfl (settled_some ?_) trivial)
    exact Node.stands_statement.2 (by simp [Statement.parts])
  next =>
    refine follows_span ((reportCurrent_follows hf h _).bind ?_)
    rintro _ r₁ _ h₁ ⟨hcurrent, _⟩
    refine (take_follows hf h₁.regular (hcurrent ▸ hne)).bind fun _ r₂ _ h₂ _ => ?_
    refine (skipToStatement_moves hf h₂.regular).bind fun _ r₃ _ h₃ _ => ?_
    exact .pure h₃.regular rfl (by simp [Settled]) trivial

/-- A token that is dropped is noted with its place. -/
theorem forced_follows (h : r.Regular) (k : Kind) (place : Nat) :
    Follows f (modify fun s : Reading => { s with journal := s.journal.record (.forced k place) })
      (modify fun s : Reading => { s with journal := s.journal.record (.forced k (f place)) }) r
      fun (_ : Unit) r' => r'.current = r.current :=
  .of_run rfl rfl trivial
    ⟨⟨⟨h.sound.ordered, h.sound.spelled⟩, h.aligned, h.quiet, h.ends, h.last, h.supplied⟩,
      Nat.le_refl _, fun _ _ hclear => hclear⟩ rfl

/-- Whether a statement consumed nothing is seen from where tokens start. -/
theorem statementOrSkip_moves (hf : Stretches f) (hin : inner.Moves f) (h : r.Regular)
    (hne : r.current.kind ≠ .endOfFile) : Moves f (statementOrSkip inner) r := by
  unfold statementOrSkip
  refine follows_start ?_
  refine (statement_moves hf hin h hne).bind fun x r₁ hx h₁ _ => ?_
  have hdone (r' : Reading) (h' : r'.Regular) :
      Follows f (pure x) (pure (relocate f x)) r' fun _ _ => True :=
    .pure h' rfl hx trivial
  have hsame := hf.eq_iff h₁.regular.aligned_start h.aligned_start
  refine follows_start (follows_kind (FollowsFrom.ite (and_congr hsame Iff.rfl) (fun hc => ?_)
    fun _ => hdone r₁ h₁.regular))
  refine follows_kind ?_
  refine (forced_follows h₁.regular _ _).bind fun _ r₂ _ h₂ hcurrent => ?_
  refine (take_follows hf h₂.regular (hcurrent ▸ hc.2)).bind fun _ r₃ _ h₃ _ => ?_
  exact hdone r₃ h₃.regular

/-! ## Blocks and programs -/

theorem statements_moves (hf : Stretches f) (hin : inner.Moves f) (h : r.Regular) :
    Moves f (loop (fun statements => do
      if endsBlock (← kind) then return .inr (statements, none)
      else if (← kind) = .keyword .«return» then return .inr (statements, some (← result inner))
      else if ← takeIf (.sign .semicolon) then return .inl statements
      else return .inl (statements ++ (← statementOrSkip inner).toList)) []) r := by
  refine .loop (fun _ _ => True) h rfl (by simp [Settled]) trivial fun ss r₁ h₁ hss _ => ?_
  refine follows_kind (.ite (fun _ => ?_) fun hends => ?_)
  · exact .pure h₁.regular rfl ⟨hss, by simp [Settled]⟩ trivial
  have hne : r₁.current.kind ≠ .endOfFile := by
    intro hend
    rw [hend] at hends
    exact hends rfl
  refine follows_kind (.ite (fun _ => ?_) fun _ => ?_)
  · refine (result_moves hf hin h₁.regular).bind fun x r₂ hx h₂ _ => ?_
    exact .pure h₂.regular rfl ⟨hss, settled_some hx⟩ trivial
  refine (takeIf_follows hf h₁.regular (by simp)).bind fun semicolon r₂ _ h₂ hsemicolon => ?_
  rcases hsemicolon with ⟨rfl, -⟩ | ⟨rfl, -, rfl⟩
  · exact .pure h₂.regular rfl hss trivial
  · refine (statementOrSkip_moves hf hin h₂.regular hne).bind fun x r₃ hx h₃ _ => ?_
    refine .pure h₃.regular ?_ (settled_append hss fun s hs => hx s (Option.mem_toList.1 hs)) trivial
    simp [relocate, Option.toList_map]

theorem block_moves (hf : Stretches f) (hin : inner.Moves f) (h : r.Regular) :
    Moves f (block inner) r := by
  unfold block
  refine follows_start ?_
  refine (statements_moves hf hin h).bind fun x r₁ hx h₁ _ => ?_
  obtain ⟨ss, last⟩ := x
  have hdone (s : Span) : Follows f (pure (Block.mk ss last s))
      (pure (Block.mk (relocate f ss) (relocate f last) (relocate f s))) r₁ fun _ _ => True := by
    refine .pure h₁.regular ?_ (Node.stands_block.2 ?_) trivial
    · simp only [relocate, Relocate.block, Relocate.statements_eq, Relocate.result_eq]
    · refine List.forall_mem_append.2 ⟨List.forall_mem_map.2 hx.1, Node.stands_toList hx.2⟩
  have hsame := hf.eq_iff h₁.regular.aligned_start h.aligned_start
  refine follows_start (FollowsFrom.ite hsame (fun _ => ?_) fun _ => ?_)
  · refine follows_get ?_
    have hspan : relocate f (Span.empty (min r₁.previousEnd r.current.span.start)) =
        Span.empty (min (f r₁.previousEnd) (f r.current.span.start)) := by
      rw [← hf.min]
      rfl
    have hempty := hdone (Span.empty (min r₁.previousEnd r.current.span.start))
    rw [hspan] at hempty
    exact hempty
  · exact follows_spanFrom hf (hdone _)

/-- What is left behind a block is read as more of it. -/
theorem resume_moves (hf : Stretches f) (h : r.Regular) {b rest : Block} (hb : Settled b)
    (hrest : Settled rest) :
    Follows f
      (do return Sum.inl { statements := b.statements ++ rest.statements
                           result := b.result <|> rest.result
                           span := ← spanFrom b.span.start })
      (do return Sum.inl { statements := (relocate f b).statements ++ (relocate f rest).statements
                           result := (relocate f b).result <|> (relocate f rest).result
                           span := ← spanFrom (relocate f b).span.start }) r
      fun (_ : Block ⊕ Block) _ => True := by
  obtain ⟨ss, last, s⟩ := b
  obtain ⟨ss', last', s'⟩ := rest
  have hparts := List.forall_mem_append.1 (Node.stands_block.1 hb)
  have hparts' := List.forall_mem_append.1 (Node.stands_block.1 hrest)
  refine follows_spanFrom hf (.pure h ?_ (Node.stands_block.2 ?_) trivial)
  · simp only [relocate, Relocate.block, Relocate.statements_eq, Relocate.result_eq, Sum.map_inl,
      List.map_append]
    cases last <;> rfl
  · refine List.forall_mem_append.2 ⟨?_, ?_⟩
    · simp only [List.map_append]
      exact List.forall_mem_append.2 ⟨hparts.1, hparts'.1⟩
    · cases last with
      | none => exact hparts'.2
      | some x => exact hparts.2

theorem chunk_moves (hf : Stretches f) (hzero : f 0 = 0) (hin : inner.Moves f) (h : r.Regular) :
    Moves f (chunk inner) r := by
  unfold chunk
  refine (hin.block r h).bind fun b r₁ hb h₁ _ => ?_
  refine Follows.bind (.loop (Q := fun _ _ => True) (fun _ _ => True) h₁.regular rfl hb trivial
    fun b r₂ h₂ hb _ => ?_) fun b r₂ hb h₂ _ => ?_
  · refine follows_kind (.ite (fun _ => .pure h₂.regular rfl hb trivial) fun hk => ?_)
    refine follows_span (follows_kind ?_)
    refine (reportCurrent_follows hf h₂.regular _).bind ?_
    rintro _ r₃ _ h₃ ⟨hcurrent, _⟩
    refine (take_follows hf h₃.regular (hcurrent ▸ hk)).bind fun _ r₄ _ h₄ _ => ?_
    refine (hin.block r₄ h₄.regular).bind fun rest r₅ hrest h₅ _ => ?_
    refine (resume_moves hf h₅.regular hb hrest).imp fun x _ _ _ _ => ?_
    cases x <;> trivial
  · refine follows_span (.pure h₂.regular ?_ hb trivial)
    have hspan : relocate f (Span.mk 0 r₂.current.span.stop) = ⟨0, f r₂.current.span.stop⟩ :=
      congrArg (Span.mk · _) hzero
    exact congrArg (Chunk.mk _) hspan.symm

end Read

theorem Nested.moves_upTo {f : Nat → Nat} (hf : Stretches f) (depth : Nat) :
    (Nested.upTo depth).Moves f := by
  induction depth with
  | zero =>
    constructor
    · intro parent r _ e r' hrun
      cases hrun
    · intro r _ b r' hrun
      cases hrun
  | succ depth ih =>
    exact ⟨fun parent r h => Read.operand_moves hf ih h parent, fun r h => Read.block_moves hf ih h⟩

end Syntax
end LuaFront
