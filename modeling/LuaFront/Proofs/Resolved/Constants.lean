import LuaFront.Proofs.Resolved.NormalForm
import LuaFront.Proofs.Resolved.Reports

/-!
# LuaFront.Proofs.Resolved.Constants

Constants keep their values, unless something else was reported.

* `Block.Spares`: no statement of a function body assigns to a constant.
* `Careful`: work that resolves names never takes a report back, and what it gives is right if no
  assignment to a constant has been reported by then.
* `Flatten.spares_block`: flattening makes no assignments but to variables that are no constants.
-/

namespace LuaFront
namespace Resolved

open Flatten (out count)

/-! ## Assignments -/

/-- The variables that a statement assigns to. A numeric loop does so with its counter. -/
def Statement.assigned : Statement → List Local
  | .assign targets _ => targets.filterMap Expression.symbol?
  | .numericFor counter .. => [counter]
  | _ => []

def Statement.Spares (x : Statement) : Prop := ∀ l ∈ x.assigned, l.isConstant = false

/-- No statement of a function body assigns to a constant. -/
def Block.Spares (b : Block) : Prop := ∀ x ∈ Spine.block b, x.Spares

/-- No function body in a piece of a program assigns to a constant. -/
def AllSpare (bodies : List Block) : Prop := ∀ f ∈ bodies, f.Spares

@[simp]
theorem allSpare_nil : AllSpare [] := by simp [AllSpare]

@[simp]
theorem allSpare_cons {f : Block} {later : List Block} :
    AllSpare (f :: later) ↔ f.Spares ∧ AllSpare later := by
  simp [AllSpare]

@[simp]
theorem allSpare_append {a b : List Block} : AllSpare (a ++ b) ↔ AllSpare a ∧ AllSpare b :=
  List.forall_mem_append

@[simp]
theorem Block.spares_nil : Spares [] := by simp [Spares]

@[simp]
theorem Block.spares_append {a b : Block} : Spares (a ++ b) ↔ a.Spares ∧ b.Spares := by
  simp [Spares, or_imp, forall_and]

namespace Block

theorem spares_cons {x : Statement} {b : Block} : Spares (x :: b) ↔ Spares [x] ∧ b.Spares :=
  spares_append (a := [x])

/-- A statement that assigns nothing itself, with the statements in it. -/
theorem spares_cons_plain {x : Statement} (inner b : Block)
    (hspine : Spine.statement x = x :: inner) (hx : x.assigned = []) :
    Spares (x :: b) ↔ (∀ y ∈ inner, y.Spares) ∧ b.Spares := by
  have hx : x.Spares := by simp [Statement.Spares, hx]
  simp [Spares, hspine, hx, or_imp, forall_and]

theorem spares_cons_leaf {x : Statement} (b : Block) (hspine : Spine.statement x = [x])
    (hx : x.assigned = []) : Spares (x :: b) ↔ b.Spares := by
  simpa using spares_cons_plain [] b hspine hx

section

variable {e c initial limit step : Expression} {targets values : List Expression}
  {symbols : List Local} {counter : Local} {l exit : Label} {wanted : Bool} {a b : Block}
  {es : List Branch} {o : Option Block}

@[simp]
theorem spares_expression : Spares (.expression e :: b) ↔ b.Spares := spares_cons_leaf b rfl rfl

@[simp]
theorem spares_declare : Spares (.declare symbols values :: b) ↔ b.Spares :=
  spares_cons_leaf b rfl rfl

@[simp]
theorem spares_result : Spares (.result values :: b) ↔ b.Spares := spares_cons_leaf b rfl rfl

@[simp]
theorem spares_goto : Spares (.goto l :: b) ↔ b.Spares := spares_cons_leaf b rfl rfl

@[simp]
theorem spares_gotoIf : Spares (.gotoIf l c wanted :: b) ↔ b.Spares := spares_cons_leaf b rfl rfl

@[simp]
theorem spares_label : Spares (.label l :: b) ↔ b.Spares := spares_cons_leaf b rfl rfl

@[simp]
theorem spares_assign : Spares (.assign targets values :: b) ↔
    (∀ l ∈ targets.filterMap Expression.symbol?, l.isConstant = false) ∧ b.Spares := by
  simp [Spares, Statement.Spares, Statement.assigned]

@[simp]
theorem spares_ifThen : Spares (.ifThen c a es o :: b) ↔
    a.Spares ∧ (∀ x ∈ Spine.branches es, x.Spares) ∧ (∀ x ∈ Spine.otherwise o, x.Spares) ∧
      b.Spares := by
  rw [spares_cons_plain _ b rfl rfl]
  simp [Spares, or_imp, forall_and, and_assoc]

@[simp]
theorem spares_whileDo : Spares (.whileDo c a exit :: b) ↔ a.Spares ∧ b.Spares :=
  spares_cons_plain _ b rfl rfl

@[simp]
theorem spares_repeatUntil : Spares (.repeatUntil a c exit :: b) ↔ a.Spares ∧ b.Spares :=
  spares_cons_plain _ b rfl rfl

@[simp]
theorem spares_numericFor : Spares (.numericFor counter initial limit step a exit :: b) ↔
    counter.isConstant = false ∧ a.Spares ∧ b.Spares := by
  simp [Spares, or_imp, forall_and, Statement.Spares, Statement.assigned]

@[simp]
theorem spares_genericFor : Spares (.genericFor symbols values a exit :: b) ↔
    a.Spares ∧ b.Spares :=
  spares_cons_plain _ b rfl rfl

@[simp]
theorem spares_doBlock : Spares (.doBlock a :: b) ↔ a.Spares ∧ b.Spares :=
  spares_cons_plain _ b rfl rfl

end
end Block

/-! ## Reports -/

/-- No assignment to a constant is among these. -/
def Quiet (ds : List Diagnostic) : Prop := ∀ d ∈ ds, ∀ name, d.cause ≠ .assignToConstant name

def Careful {α : Type} (m : Resolve α) (Q : α → Prop) : Prop :=
  ∀ c : Context, c.journal.diagnostics <+: (m.run c).2.journal.diagnostics ∧
    (Quiet (m.run c).2.journal.diagnostics → Q (m.run c).1)

namespace Careful

variable {α β : Type} {m : Resolve α} {Q Q' : α → Prop} {R : β → Prop}

theorem imp (h : Careful m Q) (himp : ∀ a, Q a → Q' a) : Careful m Q' :=
  fun c => ⟨(h c).1, fun hquiet => himp _ ((h c).2 hquiet)⟩

theorem pure {a : α} (h : Q a) : Careful (pure a) Q := fun _ => ⟨List.prefix_refl _, fun _ => h⟩

theorem bind {k : α → Resolve β} (h : Careful m Q) (hk : ∀ a, Careful (k a) fun b => Q a → R b) :
    Careful (m >>= k) R := by
  intro c
  obtain ⟨hlonger, hq⟩ := h c
  obtain ⟨hlonger', hr⟩ := hk (m.run c).1 (m.run c).2
  refine ⟨hlonger.trans hlonger', fun hquiet => hr hquiet (hq fun d hd => ?_)⟩
  exact hquiet d (hlonger'.subset hd)

theorem get {k : Context → Resolve α} (h : ∀ c, Careful (k c) Q) : Careful (get >>= k) Q :=
  fun c => h c c

theorem modifyScopes {f : Scopes → Scopes} {k : Unit → Resolve α} (h : Careful (k ()) Q) :
    Careful (Resolve.modifyScopes f >>= k) Q :=
  fun c => h { c with scopes := f c.scopes }

/-- Work that reports what is wrong with some uses. -/
theorem of_finds {us : List (Surroundings × Use)} {P : Context → α → Context → Prop}
    (h : ∀ c, Finds c m us (P c)) : Careful m fun _ => True :=
  fun c => ⟨(h c).1 ▸ List.prefix_append .., fun _ => trivial⟩

theorem report {at_ : Text.Span} {cause : Cause} {k : Unit → Resolve α} (h : Careful (k ()) Q) :
    Careful (Resolve.report at_ cause >>= k) Q := by
  intro c
  obtain ⟨hlonger, hq⟩ := h { c with journal := c.journal.report ⟨at_, cause⟩ }
  refine ⟨List.IsPrefix.trans ?_ hlonger, hq⟩
  rw [Journal.diagnostics_report]
  exact List.prefix_append ..

/-- Behind the report of an assignment to a constant nothing is promised. -/
theorem loud {n : Syntax.Name} {k : Unit → Resolve α} (h : Careful (k ()) fun _ => True) :
    Careful (Resolve.report n.span (.assignToConstant n.text) >>= k) Q := by
  intro c
  refine ⟨(report h c).1, fun hquiet => ?_⟩
  refine absurd rfl (hquiet ⟨n.span, .assignToConstant n.text⟩ ?_ n.text)
  refine (h { c with journal := c.journal.report _ }).1.subset ?_
  simp

theorem and_run {P : α → Prop} (h : Careful m Q) (hrun : ∀ c, P (m.run c).1) :
    Careful m fun a => Q a ∧ P a :=
  fun c => ⟨(h c).1, fun hquiet => ⟨(h c).2 hquiet, hrun c⟩⟩

theorem fresh {k : SymbolId → Resolve α} (h : ∀ id, Careful (k id) Q) :
    Careful (Resolve.fresh >>= k) Q :=
  fun c => h _ { c with next := c.next + 1 }

theorem inScope {boundary : Bool} (h : Careful m Q) : Careful (Resolve.inScope boundary m) Q :=
  fun c => h { c with scopes := c.scopes.push boundary }

theorem inLoop {body : Label → Resolve α} (h : ∀ exit, Careful (body exit) Q) :
    Careful (Resolve.inLoop body) Q := by
  intro c
  let exit : Label := ⟨.declared c.unit c.next, s!"break#{c.loops + 1}"⟩
  exact h exit { c with next := c.next + 1, loops := c.loops + 1, exits := exit :: c.exits }

theorem inFunction {vararg : Bool} (h : Careful m Q) : Careful (Resolve.inFunction vararg m) Q :=
  fun c => inScope h { c with exits := [], vararg := vararg }

end Careful

namespace Resolve

theorem declare_careful (name : String) : Careful (declare name) fun l => l.isConstant = false :=
  fun _ => ⟨List.prefix_refl _, fun _ => rfl⟩

theorem declareAll_careful (names : List Syntax.Name) :
    Careful (declareAll names) fun _ => True :=
  .of_finds fun c => declareAll_finds c names

theorem declareVariables_careful (symbols : List Local) :
    Careful (symbols.forM declareVariable) fun _ => True :=
  .of_finds fun c => declareVariables_finds c symbols

theorem declaredSymbols_careful (ds : List Syntax.LocalDeclaration) :
    Careful (declaredSymbols false ds) fun _ => True :=
  .of_finds fun c => declaredSymbols_finds c .outermost [] ds

theorem declareLabels_careful (ss : List Syntax.Statement) :
    Careful (declareLabels ss) fun _ => True := by
  induction ss with
  | nil => exact .pure trivial
  | cons x later ih =>
    cases x with
    | label n span =>
      rw [declareLabels]
      have hrest : Careful (do
          let label : Label := ⟨← fresh, n.text⟩
          modifyScopes (·.declareLabel label n.span.start)
          declareLabels later) fun _ => True :=
        .fresh fun _ => .modifyScopes ih
      refine .get fun c => ?_
      split
      · exact .report hrest
      · exact hrest
    | _ => exact ih

theorem name_careful (n : Syntax.Name) :
    Careful (name n) fun e => AllSpare (Bodies.expression e) := by
  unfold name
  refine .get fun c => ?_
  split
  · exact .pure (by simp)
  · exact .pure (by simp [Expression.string])

/-- A constant that is assigned to is reported. -/
theorem targetName_careful (n : Syntax.Name) :
    Careful (targetName n) fun e => AllSpare (Bodies.expression e) ∧
      ∀ l ∈ e.symbol?, l.isConstant = false := by
  unfold targetName
  refine (name_careful n).bind fun e => ?_
  cases e with
  | name symbol =>
    dsimp only
    split
    · exact .loud (.pure trivial)
    next hsymbol => exact .pure fun he => ⟨he, by simpa [Expression.symbol?] using hsymbol⟩
  | _ => exact .pure fun he => ⟨he, by simp [Expression.symbol?]⟩

theorem allSpare_foldl_index (keys : List Syntax.Name) (e : Expression)
    (he : AllSpare (Bodies.expression e)) :
    AllSpare (Bodies.expression
      (keys.foldl (fun e key => .index e (.string key.text)) e)) := by
  induction keys generalizing e with
  | nil => exact he
  | cons key later ih => exact ih _ (by simpa [Expression.string] using he)

theorem symbol?_foldl_index {keys : List Syntax.Name} (hkeys : keys ≠ []) (e : Expression) :
    (keys.foldl (fun e key => .index e (.string key.text)) e).symbol? = none := by
  obtain ⟨init, last, rfl⟩ : ∃ init last, keys = init ++ [last] :=
    ⟨keys.dropLast, keys.getLast hkeys, (List.dropLast_append_getLast hkeys).symm⟩
  rw [List.foldl_append]
  rfl

/-- The name of a function is a target like any other. -/
theorem functionTarget?_careful (f : Syntax.FunctionName) :
    Careful (functionTarget? f) fun target => ∀ e ∈ target, AllSpare (Bodies.expression e) ∧
      ∀ l ∈ e.symbol?, l.isConstant = false := by
  unfold functionTarget?
  split
  · exact .pure (by simp)
  · refine (targetName_careful _).bind fun e => .pure fun he => ?_
    simpa using he
  next n keys _ hne =>
    refine (name_careful n).bind fun e => .pure fun he => ?_
    have hkeys : keys ++ f.method.toList ≠ [] := by
      cases keys <;> cases hm : f.method <;> simp_all
    simp only [Option.mem_def, Option.some.injEq, forall_eq']
    rw [symbol?_foldl_index hkeys]
    exact ⟨allSpare_foldl_index _ e he, by simp⟩

theorem breakLoop_careful (at_ : Text.Span) :
    Careful (breakLoop at_) fun x => AllSpare ([x] :: Bodies.statement x) := by
  unfold breakLoop
  refine .get fun c => ?_
  split
  · exact .pure (by simp)
  · exact .report (.pure (by simp))

theorem goto_careful (n : Syntax.Name) :
    Careful (goto n) fun x => AllSpare ([x] :: Bodies.statement x) := by
  unfold goto
  refine .get fun c => ?_
  split
  · exact .pure (by simp)
  · exact .report (.pure (by simp))

theorem label_careful (n : Syntax.Name) :
    Careful (label n) fun x => AllSpare ([x] :: Bodies.statement x) := by
  unfold label
  refine .get fun c => ?_
  split
  · exact .pure (by simp)
  · exact .fresh fun id => .pure (by simp)

/-- Only a name by itself means a variable. -/
theorem symbol?_expression {e : Syntax.Expression} (he : ∀ n, e ≠ .name n) (c : Context) :
    ((expression e).run c).1.symbol? = none := by
  cases e with
  | name n => exact absurd rfl (he n)
  | vararg at_ =>
    have hrun : ((expression (.vararg at_)).run c).1 = if c.vararg then .vararg else .error := by
      rw [expression]
      cases hvararg : c.vararg <;> simp [hvararg, report] <;> rfl
    rw [hrun]
    split <;> rfl
  | function body span =>
    obtain ⟨parameters, vararg, b, bspan⟩ := body
    rw [expression, functionBody]
    rfl
  | _ => rw [expression]; rfl

mutual

theorem expression_careful (e : Syntax.Expression) :
    Careful (expression e) fun a => AllSpare (Bodies.expression a) := by
  cases e with
  | literal value span =>
    rw [expression]
    exact .pure (by simp)
  | vararg at_ =>
    rw [expression]
    refine .get fun c => ?_
    split
    · exact .pure (by simp)
    · exact .report (.pure (by simp))
  | function body span =>
    rw [expression]
    exact functionBody_careful false body
  | table fields span =>
    rw [expression]
    exact (tableFields_careful 0 fields).bind fun a => .pure fun h => by simpa using h
  | unary op operand span =>
    rw [expression]
    exact (expression_careful operand).bind fun a => .pure fun h => by simpa using h
  | binary left op right span =>
    rw [expression]
    refine (expression_careful left).bind fun a => ?_
    exact (expression_careful right).bind fun b => .pure fun h₂ h₁ => by simp [h₁, h₂]
  | parenthesized inner span =>
    rw [expression]
    exact (expression_careful inner).bind fun a => .pure fun h => by simpa using h
  | call receiver method arguments span =>
    rw [expression]
    refine (expression_careful receiver).bind fun a => ?_
    exact (expressions_careful arguments).bind fun b => .pure fun h₂ h₁ => by simp [h₁, h₂]
  | name n =>
    rw [expression]
    exact name_careful n
  | index target index span =>
    rw [expression]
    refine (expression_careful target).bind fun a => ?_
    exact (expression_careful index).bind fun b => .pure fun h₂ h₁ => by simp [h₁, h₂]
  | dotted target key span =>
    rw [expression]
    refine (expression_careful target).bind fun a => .pure fun h => ?_
    simpa [Expression.string] using h

theorem expressions_careful (es : List Syntax.Expression) :
    Careful (expressions es) fun a => AllSpare (Bodies.expressions a) := by
  cases es with
  | nil => exact .pure (by simp)
  | cons e later =>
    rw [expressions]
    refine (expression_careful e).bind fun a => ?_
    exact (expressions_careful later).bind fun b => .pure fun h₂ h₁ => by simp [h₁, h₂]

theorem targets_careful (es : List Syntax.Expression) :
    Careful (targets es) fun a => AllSpare (Bodies.expressions a) ∧
      ∀ l ∈ a.filterMap Expression.symbol?, l.isConstant = false := by
  cases es with
  | nil => exact .pure (by simp)
  | cons e later =>
    by_cases he : ∃ n, e = .name n
    · obtain ⟨n, rfl⟩ := he
      rw [targets]
      refine (targetName_careful n).bind fun a => ?_
      refine (targets_careful later).bind fun b => .pure fun h₂ h₁ => ?_
      refine ⟨by simp [h₁.1, h₂.1], ?_⟩
      rw [List.filterMap_cons]
      cases hsymbol : a.symbol? with
      | none => exact h₂.2
      | some l => exact List.forall_mem_cons.2 ⟨h₁.2 l hsymbol, h₂.2⟩
    · have he : ∀ n, e ≠ .name n := by simpa using he
      rw [targets.eq_3 e later he]
      have hcareful : Careful (expression e) fun a =>
          AllSpare (Bodies.expression a) ∧ a.symbol? = none :=
        (expression_careful e).and_run (symbol?_expression he)
      refine hcareful.bind fun a => ?_
      refine (targets_careful later).bind fun b => .pure fun h₂ h₁ => ?_
      refine ⟨by simp [h₁.1, h₂.1], ?_⟩
      rw [List.filterMap_cons, h₁.2]
      exact h₂.2

theorem tableFields_careful (position : Nat) (fs : List Syntax.Field) :
    Careful (tableFields position fs) fun a => AllSpare (Bodies.fields a) := by
  cases fs with
  | nil => exact .pure (by simp)
  | cons f later =>
    cases f with
    | positional value span =>
      rw [tableFields]
      refine (expression_careful value).bind fun a => ?_
      exact (tableFields_careful _ later).bind fun b => .pure fun h₂ h₁ => by simp [h₁, h₂]
    | named key value span =>
      rw [tableFields]
      refine (expression_careful value).bind fun a => ?_
      refine (tableFields_careful _ later).bind fun b => .pure fun h₂ h₁ => ?_
      simp [h₁, h₂, Expression.string]
    | keyed key value span =>
      rw [tableFields]
      refine (expression_careful key).bind fun a => ?_
      refine (expression_careful value).bind fun b => ?_
      exact (tableFields_careful _ later).bind fun c => .pure fun h₃ h₂ h₁ => by simp [h₁, h₂, h₃]

theorem functionBody_careful (method : Bool) (f : Syntax.FunctionBody) :
    Careful (functionBody method f) fun a => AllSpare (Bodies.expression a) := by
  obtain ⟨parameters, vararg, body, span⟩ := f
  rw [functionBody]
  refine .inFunction ?_
  have hrest (receiver : List Local) : Careful (do
      let parameters ← declareAll parameters
      return Expression.function (receiver ++ parameters) vararg (← statements body))
      fun a => AllSpare (Bodies.expression a) := by
    refine (declareAll_careful parameters).bind fun ps => ?_
    exact (statements_careful body).bind fun b => .pure fun h _ => by simpa [Block.bodies] using h
  cases method with
  | true => exact (declare_careful "self").bind fun l => (hrest [l]).imp fun _ h _ => h
  | false => exact hrest []

theorem statements_careful (b : Syntax.Block) :
    Careful (statements b) fun a => AllSpare a.bodies := by
  obtain ⟨body, result, span⟩ := b
  rw [statements]
  refine (declareLabels_careful body).bind fun _ => ?_
  refine (statementList_careful body).bind fun a => ?_
  cases result with
  | none => exact .pure fun h _ => h
  | some r =>
    obtain ⟨values, rspan⟩ := r
    refine (expressions_careful values).bind fun vs => .pure fun h₂ h₁ _ => ?_
    simp_all [Block.bodies]

theorem statementList_careful (body : List Syntax.Statement) :
    Careful (statementList body) fun a => AllSpare (Block.bodies a) := by
  cases body with
  | nil => exact .pure (by simp [Block.bodies])
  | cons x later =>
    rw [statementList]
    refine (statement_careful x).bind fun a => ?_
    refine (statementList_careful later).bind fun b => .pure fun h₂ h₁ => ?_
    simp only [Block.bodies, Bodies.block, allSpare_cons, allSpare_append] at h₁ h₂ ⊢
    exact ⟨Block.spares_cons.2 ⟨h₁.1, h₂.1⟩, h₁.2, h₂.2⟩

theorem elseIfs_careful (es : List Syntax.ElseIf) :
    Careful (elseIfs es) fun a => (∀ x ∈ Spine.branches a, x.Spares) ∧
      AllSpare (Bodies.branches a) := by
  cases es with
  | nil => exact .pure (by simp)
  | cons e later =>
    obtain ⟨c, b, span⟩ := e
    rw [elseIfs]
    refine (expression_careful c).bind fun c => ?_
    refine (statements_careful b).inScope.bind fun b => ?_
    refine (elseIfs_careful later).bind fun es => .pure fun h₃ h₂ h₁ => ?_
    simp only [Block.bodies, allSpare_cons] at h₂
    simp only [Spine.branches, Bodies.branches, List.forall_mem_append, allSpare_append]
    exact ⟨⟨h₂.1, h₃.1⟩, ⟨h₁, h₂.2⟩, h₃.2⟩

theorem statement_careful (x : Syntax.Statement) :
    Careful (statement x) fun a => AllSpare ([a] :: Bodies.statement a) := by
  cases x with
  | assign ts vs span =>
    rw [statement]
    refine (targets_careful ts).bind fun ts => ?_
    refine (expressions_careful vs).bind fun vs => .pure fun h₂ h₁ => ?_
    refine allSpare_cons.2 ⟨Block.spares_assign.2 ⟨h₁.2, Block.spares_nil⟩, ?_⟩
    exact allSpare_append.2 ⟨h₁.1, h₂⟩
  | declare ds vs span =>
    rw [statement]
    refine (expressions_careful vs).bind fun vs => ?_
    refine (declaredSymbols_careful ds).bind fun symbols => ?_
    refine (declareVariables_careful symbols).bind fun _ => .pure fun _ _ h => ?_
    simp_all
  | call e span =>
    rw [statement]
    refine (expression_careful e).bind fun e => .pure fun h => ?_
    simp_all
  | ifThen c b es o span =>
    rw [statement]
    refine (expression_careful c).bind fun c => ?_
    refine (statements_careful b).inScope.bind fun b => ?_
    refine (elseIfs_careful es).bind fun es => ?_
    cases o with
    | none =>
      refine .pure fun h₃ h₂ h₁ => ?_
      simp_all [Block.bodies]
    | some o =>
      refine (statements_careful o).inScope.bind fun o => .pure fun h₄ h₃ h₂ h₁ => ?_
      simp only [Block.bodies, allSpare_cons] at h₂ h₄
      refine allSpare_cons.2 ⟨Block.spares_ifThen.2 ⟨h₂.1, h₃.1, h₄.1, Block.spares_nil⟩, ?_⟩
      simp [h₁, h₂.2, h₃.2, h₄.2]
  | whileDo c b span =>
    rw [statement]
    refine (expression_careful c).bind fun c => .inLoop fun exit => ?_
    refine (statements_careful b).inScope.bind fun b => .pure fun h₂ h₁ => ?_
    simp_all [Block.bodies]
  | repeatUntil b c span =>
    rw [statement]
    refine .inLoop fun exit => .inScope ?_
    refine (statements_careful b).bind fun b => ?_
    refine (expression_careful c).bind fun c => .pure fun h₂ h₁ => ?_
    simp_all [Block.bodies]
  | numericFor n initial limit step b span =>
    rw [statement]
    refine (expression_careful initial).bind fun initial => ?_
    refine (expression_careful limit).bind fun limit => ?_
    have hloop (step : Expression) : Careful (inLoop fun exit => inScope false do
        let counter ← declare n.text
        return Statement.numericFor counter initial limit step (← statements b) exit)
        fun a => AllSpare (Bodies.expression step) → AllSpare (Bodies.expression limit) →
          AllSpare (Bodies.expression initial) → AllSpare ([a] :: Bodies.statement a) := by
      refine .inLoop fun exit => .inScope ?_
      refine (declare_careful n.text).bind fun counter => ?_
      refine (statements_careful b).bind fun b => .pure fun h₅ h₄ h₃ h₂ h₁ => ?_
      simp_all [Block.bodies]
    cases step with
    | none => exact (hloop (.integer 1)).imp fun _ h => h (by simp [Expression.integer])
    | some step => exact (expression_careful step).bind hloop
  | genericFor ns vs b span =>
    rw [statement]
    refine (expressions_careful vs).bind fun vs => .inLoop fun exit => .inScope ?_
    refine (declareAll_careful ns).bind fun symbols => ?_
    refine (statements_careful b).bind fun b => .pure fun h₃ _ h₁ => ?_
    simp_all [Block.bodies]
  | doBlock b span =>
    rw [statement]
    refine (statements_careful b).inScope.bind fun b => .pure fun h => ?_
    simp_all [Block.bodies]
  | breakLoop at_ =>
    rw [statement]
    exact breakLoop_careful at_
  | goto n span =>
    rw [statement]
    exact goto_careful n
  | label n span =>
    rw [statement]
    exact label_careful n
  | function f body span =>
    rw [statement]
    refine (functionTarget?_careful f).bind fun target => ?_
    cases target with
    | none => exact .pure fun _ => by simp
    | some target =>
      refine (functionBody_careful f.method.isSome body).bind fun value => .pure fun h₂ h₁ => ?_
      have h₁ := h₁ target rfl
      simp_all
  | localFunction n body span =>
    rw [statement]
    refine (declare_careful n.text).bind fun symbol => ?_
    refine (functionBody_careful false body).bind fun value => .pure fun h _ => ?_
    simp_all

end
end Resolve
/-! ## Flattening -/

namespace Flatten

theorem symbol?_out (e : Expression) (n : Nat) : (out (expression e) n).symbol? = e.symbol? := by
  cases e <;> simp [expression, Expression.symbol?]

theorem symbols_out (es : List Expression) (n : Nat) :
    (out (expressions es) n).filterMap Expression.symbol? = es.filterMap Expression.symbol? := by
  induction es generalizing n with
  | nil => rfl
  | cons e later ih => simp [expressions, List.filterMap_cons, symbol?_out, ih]

/-- The values of a generic loop are noted in a variable that is made up. -/
theorem spares_nextValues (symbols : List Local) (l₁ l₂ : Local) (name : String) (k : Nat)
    (exit : Label) : Block.Spares (nextValues symbols l₁ l₂ (.made name k) exit) := by
  cases symbols with
  | nil => simp [nextValues]
  | cons symbol later => simp [nextValues, Expression.symbol?, Local.made, Local.plain,
      Local.isConstant]

mutual

theorem spares_statement (x : Statement) (h : Block.Spares [x]) (n : Nat) :
    Block.Spares (out (statement x) n) := by
  cases x with
  | assign targets values =>
    rw [Block.spares_assign] at h
    simpa only [statement, out_bind, out_pure, Block.spares_assign, symbols_out] using h
  | ifThen c b es o =>
    rw [Block.spares_ifThen] at h
    have hb := spares_block b h.1 (count (expression c) (n + 2))
    have hes (m : Nat) := spares_branches (.made (n + 1)) es h.2.1 m
    have ho (m : Nat) := spares_otherwise o h.2.2.1 m
    rw [out_ifThen]
    simp [branches, hb, hes, ho]
  | whileDo c b exit =>
    rw [Block.spares_whileDo] at h
    simp [statement, spares_block b h.1]
  | repeatUntil b c exit =>
    rw [Block.spares_repeatUntil] at h
    simp [statement, spares_block b h.1]
  | numericFor counter initial limit step b exit =>
    rw [Block.spares_numericFor] at h
    simp [statement, Expression.symbol?, h.1, spares_block b h.2.1]
  | genericFor symbols values b exit =>
    rw [Block.spares_genericFor] at h
    simp [statement, spares_nextValues, spares_block b h.1]
  | doBlock b =>
    rw [Block.spares_doBlock] at h
    simp [statement, spares_block b h.1]
  | expression | declare | result | goto | gotoIf | label => simp [statement]

theorem spares_branches (stop : Label) (es : List Branch)
    (h : ∀ x ∈ Spine.branches es, x.Spares) (n : Nat) :
    Block.Spares (out (branches stop es) n) := by
  cases es with
  | nil => exact Block.spares_nil
  | cons e later =>
    obtain ⟨c, b⟩ := e
    simp only [Spine.branches, List.forall_mem_append] at h
    simp [branches, spares_block b h.1, spares_branches stop later h.2]

theorem spares_otherwise (o : Option (List Statement))
    (h : ∀ x ∈ Spine.otherwise o, x.Spares) (n : Nat) :
    Block.Spares (out (otherwise o) n) := by
  cases o with
  | none => exact Block.spares_nil
  | some b => exact spares_block b h n

theorem spares_block (b : List Statement) (h : Block.Spares b) (n : Nat) :
    Block.Spares (out (block b) n) := by
  cases b with
  | nil => exact Block.spares_nil
  | cons x later =>
    rw [Block.spares_cons] at h
    rw [out_block_cons, Block.spares_append]
    exact ⟨spares_statement x h.1 n, spares_block later h.2 _⟩

end
end Flatten

theorem Flatten.FlatForms.allSpare {bodies bodies' : List Block} (h : FlatForms bodies bodies')
    (hs : AllSpare bodies) : AllSpare bodies' := by
  induction h with
  | nil => exact allSpare_nil
  | @cons f f' fs fs' hf hfs ih =>
    obtain ⟨n, rfl⟩ := hf
    rw [allSpare_cons] at hs
    exact allSpare_cons.2 ⟨spares_block f hs.1 n, ih hs.2⟩

end Resolved
end LuaFront
