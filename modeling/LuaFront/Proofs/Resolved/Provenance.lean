import LuaFront.Proofs.Resolved.Labels
import LuaFront.Proofs.Syntax.Shapes

/-!
# LuaFront.Proofs.Resolved.Provenance

Where the statements of a resolved program come from.

* `Resolve.Gives m P`: whatever the context, `P` holds of what `m` gives.
* `Resolve.From P x`: `x` is what a statement with `P` is resolved to, or the return of a block.
* `Resolve.program_from`: so is every statement of every function body, if `P` holds of all
  statements of the tree.
* `Program.parse_shapes`: what the tree of a text promises, and which branches of later stages are
  never taken on account of it.
-/

namespace LuaFront
namespace Resolved

open Syntax (Node)

/-- All statements in a node are such that `P` holds of them. -/
abbrev AllIn (P : Syntax.Statement → Prop) (n : Node) : Prop :=
  n.Everywhere fun m => ∀ s, m = .statement s → P s

section

variable {P : Syntax.Statement → Prop}

theorem AllIn.child {n c : Node} (h : AllIn P n) (hc : c ∈ n.children) : AllIn P c :=
  (Syntax.Node.everywhere_iff.1 h).2 c hc

theorem AllIn.statement {s : Syntax.Statement} (h : AllIn P (.statement s)) : P s :=
  (Syntax.Node.everywhere_iff.1 h).1 s rfl

theorem AllIn.ofExpression {e : Syntax.Expression} {c : Node} (h : AllIn P (.expression e))
    (hc : c ∈ e.parts) : AllIn P c := h.child hc

theorem AllIn.ofStatement {s : Syntax.Statement} {c : Node} (h : AllIn P (.statement s))
    (hc : c ∈ s.parts) : AllIn P c := h.child hc

theorem AllIn.ofField {f : Syntax.Field} {c : Node} (h : AllIn P (.field f))
    (hc : c ∈ f.parts) : AllIn P c := h.child hc

end

namespace Resolve

variable {α β : Type}

/-! ## What is given in any context -/

def Gives (m : Resolve α) (Q : α → Prop) : Prop := ∀ c, Q (m.run c).1

namespace Gives

variable {m : Resolve α} {k : α → Resolve β} {Q : α → Prop} {R : β → Prop}

theorem pure {a : α} (h : Q a) : Gives (pure a) Q := fun _ => h

theorem bind (h : Gives m Q) (hk : ∀ a, Q a → Gives (k a) R) : Gives (m >>= k) R :=
  fun c => hk _ (h c) _

/-- Nothing need be known of a step. -/
theorem behind (hk : ∀ a, Gives (k a) R) : Gives (m >>= k) R := fun c => hk _ (m.run c).2

/-- What is given is what was run. -/
theorem run (m : Resolve α) : Gives m fun a => ∃ c, a = (m.run c).1 := fun c => ⟨c, rfl⟩

theorem imp {Q' : α → Prop} (h : Gives m Q) (himp : ∀ a, Q a → Q' a) : Gives m Q' :=
  fun c => himp _ (h c)

theorem and {Q' : α → Prop} (h : Gives m Q) (h' : Gives m Q') : Gives m fun a => Q a ∧ Q' a :=
  fun c => ⟨h c, h' c⟩

theorem inScope {boundary : Bool} (h : Gives m Q) : Gives (inScope boundary m) Q :=
  fun c => h { c with scopes := c.scopes.push boundary }

theorem inLoop {body : Label → Resolve α} (h : ∀ exit, Gives (body exit) Q) :
    Gives (inLoop body) Q := by
  intro c
  let exit : Label := ⟨.declared c.unit c.next, s!"break#{c.loops + 1}"⟩
  exact h exit { c with next := c.next + 1, loops := c.loops + 1, exits := exit :: c.exits }

theorem inFunction {vararg : Bool} (h : Gives m Q) : Gives (inFunction vararg m) Q :=
  fun c => inScope h { c with exits := [], vararg := vararg }

end Gives

/-! ## Where statements come from -/

/-- What a statement with `P` is resolved to, or the return of a block. -/
def From (P : Syntax.Statement → Prop) (x : Statement) : Prop :=
  (∃ values, x = .result values) ∨ ∃ s c, P s ∧ x = ((statement s).run c).1

/-- All statements of a function body. -/
def BodyFrom (P : Syntax.Statement → Prop) (b : Block) : Prop := ∀ x ∈ Spine.block b, From P x

def AllFrom (P : Syntax.Statement → Prop) (bodies : List Block) : Prop :=
  ∀ f ∈ bodies, BodyFrom P f

variable {P : Syntax.Statement → Prop}

@[simp]
theorem allFrom_nil : AllFrom P [] := by simp [AllFrom]

@[simp]
theorem allFrom_cons {f : Block} {later : List Block} :
    AllFrom P (f :: later) ↔ BodyFrom P f ∧ AllFrom P later := by
  simp [AllFrom]

@[simp]
theorem allFrom_append {a b : List Block} : AllFrom P (a ++ b) ↔ AllFrom P a ∧ AllFrom P b :=
  List.forall_mem_append

@[simp]
theorem bodyFrom_nil : BodyFrom P [] := by simp [BodyFrom]

@[simp]
theorem bodyFrom_append {a b : Block} : BodyFrom P (a ++ b) ↔ BodyFrom P a ∧ BodyFrom P b := by
  simp [BodyFrom, or_imp, forall_and]

@[simp]
theorem bodyFrom_result {values : List Expression} : BodyFrom P [.result values] := by
  simp [BodyFrom, From]

/-- The statements in a statement, and the function bodies in it. -/
def Inside (P : Syntax.Statement → Prop) (x : Statement) : Prop :=
  (∀ y ∈ Spine.statement x, y = x ∨ From P y) ∧ AllFrom P (Bodies.statement x)

theorem Inside.of_inner {x : Statement} {inner : Block} (hspine : Spine.statement x = x :: inner)
    (hinner : ∀ y ∈ inner, From P y) (hbodies : AllFrom P (Bodies.statement x)) : Inside P x := by
  refine ⟨fun y hy => ?_, hbodies⟩
  rw [hspine] at hy
  exact (List.mem_cons.1 hy).imp_right (hinner y)

/-- A statement without blocks. -/
theorem Inside.of_plain {x : Statement} (hspine : Spine.statement x = [x])
    (hbodies : AllFrom P (Bodies.statement x)) : Inside P x :=
  .of_inner hspine (by simp) hbodies

/-! ## Names hold no functions -/

theorem name_bodies (n : Syntax.Name) : Gives (name n) fun e => Bodies.expression e = [] := by
  unfold name
  refine .behind fun c => ?_
  split
  · exact .pure rfl
  · exact .pure rfl

theorem targetName_bodies (n : Syntax.Name) :
    Gives (targetName n) fun e => Bodies.expression e = [] := by
  unfold targetName
  refine (name_bodies n).bind fun e he => ?_
  cases e with
  | name symbol =>
    dsimp only
    split
    · exact .behind fun _ => .pure he
    · exact .pure he
  | _ => exact .pure he

theorem bodies_foldl_index (keys : List Syntax.Name) {e : Expression}
    (he : Bodies.expression e = []) :
    Bodies.expression (keys.foldl (fun e key => .index e (.string key.text)) e) = [] := by
  induction keys generalizing e with
  | nil => exact he
  | cons key later ih => exact ih (by simp [he, Expression.string])

theorem functionTarget?_bodies (f : Syntax.FunctionName) :
    Gives (functionTarget? f) fun target => ∀ e ∈ target, Bodies.expression e = [] := by
  unfold functionTarget?
  split
  · exact .pure (by simp)
  · exact (targetName_bodies _).bind fun e he => .pure (by simpa using he)
  · refine (name_bodies _).bind fun e he => .pure fun e' he' => ?_
    cases he'
    exact bodies_foldl_index _ he

/-! ## The tree as a whole -/

mutual

theorem expression_from (e : Syntax.Expression) (h : AllIn P (.expression e)) :
    Gives (expression e) fun a => AllFrom P (Bodies.expression a) := by
  cases e with
  | literal value span =>
    rw [expression]
    exact .pure (by simp)
  | vararg at_ =>
    rw [expression]
    refine .behind fun c => ?_
    split
    · exact .pure (by simp)
    · exact .behind fun _ => .pure (by simp)
  | function body span =>
    rw [expression]
    exact functionBody_from false body (h.ofExpression (by simp [Syntax.Expression.parts]))
  | table fields span =>
    rw [expression]
    have hfields : ∀ f ∈ fields, AllIn P (.field f) := fun f hf =>
      h.ofExpression (by simpa [Syntax.Expression.parts] using hf)
    exact (tableFields_from 0 fields hfields).bind fun a ha => .pure (by simpa using ha)
  | unary op operand span =>
    rw [expression]
    have hoperand := h.ofExpression (c := .expression operand) (by simp [Syntax.Expression.parts])
    exact (expression_from operand hoperand).bind fun a ha => .pure (by simpa using ha)
  | binary left op right span =>
    rw [expression]
    have hleft := h.ofExpression (c := .expression left) (by simp [Syntax.Expression.parts])
    have hright := h.ofExpression (c := .expression right) (by simp [Syntax.Expression.parts])
    refine (expression_from left hleft).bind fun a ha => ?_
    exact (expression_from right hright).bind fun b hb => .pure (by simp [ha, hb])
  | parenthesized inner span =>
    rw [expression]
    have hinner := h.ofExpression (c := .expression inner) (by simp [Syntax.Expression.parts])
    exact (expression_from inner hinner).bind fun a ha => .pure (by simpa using ha)
  | call receiver method arguments span =>
    rw [expression]
    have hreceiver := h.ofExpression (c := .expression receiver)
      (by simp [Syntax.Expression.parts])
    have harguments : ∀ e ∈ arguments, AllIn P (.expression e) := fun e he =>
      h.ofExpression (by simp [Syntax.Expression.parts, he])
    refine (expression_from receiver hreceiver).bind fun a ha => ?_
    exact (expressions_from arguments harguments).bind fun b hb => .pure (by simp [ha, hb])
  | name n =>
    rw [expression]
    exact (name_bodies n).imp fun a ha => by simp [ha]
  | index target index span =>
    rw [expression]
    have htarget := h.ofExpression (c := .expression target) (by simp [Syntax.Expression.parts])
    have hindex := h.ofExpression (c := .expression index) (by simp [Syntax.Expression.parts])
    refine (expression_from target htarget).bind fun a ha => ?_
    exact (expression_from index hindex).bind fun b hb => .pure (by simp [ha, hb])
  | dotted target key span =>
    rw [expression]
    have htarget := h.ofExpression (c := .expression target) (by simp [Syntax.Expression.parts])
    refine (expression_from target htarget).bind fun a ha => .pure ?_
    simpa [Expression.string] using ha

theorem expressions_from (es : List Syntax.Expression) (h : ∀ e ∈ es, AllIn P (.expression e)) :
    Gives (expressions es) fun a => AllFrom P (Bodies.expressions a) := by
  cases es with
  | nil => exact .pure (by simp)
  | cons e later =>
    rw [expressions]
    obtain ⟨he, hlater⟩ := List.forall_mem_cons.1 h
    refine (expression_from e he).bind fun a ha => ?_
    exact (expressions_from later hlater).bind fun b hb => .pure (by simp [ha, hb])

theorem targets_from (es : List Syntax.Expression) (h : ∀ e ∈ es, AllIn P (.expression e)) :
    Gives (targets es) fun a => AllFrom P (Bodies.expressions a) := by
  cases es with
  | nil => exact .pure (by simp)
  | cons e later =>
    obtain ⟨he, hlater⟩ := List.forall_mem_cons.1 h
    by_cases hname : ∃ n, e = .name n
    · obtain ⟨n, rfl⟩ := hname
      rw [targets]
      refine (targetName_bodies n).bind fun a ha => ?_
      exact (targets_from later hlater).bind fun b hb => .pure (by simp [ha, hb])
    · rw [targets.eq_3 e later (by simpa using hname)]
      refine (expression_from e he).bind fun a ha => ?_
      exact (targets_from later hlater).bind fun b hb => .pure (by simp [ha, hb])

theorem tableFields_from (position : Nat) (fs : List Syntax.Field)
    (h : ∀ f ∈ fs, AllIn P (.field f)) :
    Gives (tableFields position fs) fun a => AllFrom P (Bodies.fields a) := by
  cases fs with
  | nil => exact .pure (by simp)
  | cons f later =>
    obtain ⟨hf, hlater⟩ := List.forall_mem_cons.1 h
    cases f with
    | positional value span =>
      rw [tableFields]
      have hvalue := hf.ofField (c := .expression value) (by simp [Syntax.Field.parts])
      refine (expression_from value hvalue).bind fun a ha => ?_
      exact (tableFields_from _ later hlater).bind fun b hb => .pure (by simp [ha, hb])
    | named key value span =>
      rw [tableFields]
      have hvalue := hf.ofField (c := .expression value) (by simp [Syntax.Field.parts])
      refine (expression_from value hvalue).bind fun a ha => ?_
      refine (tableFields_from _ later hlater).bind fun b hb => .pure ?_
      simp [ha, hb, Expression.string]
    | keyed key value span =>
      rw [tableFields]
      have hkey := hf.ofField (c := .expression key) (by simp [Syntax.Field.parts])
      have hvalue := hf.ofField (c := .expression value) (by simp [Syntax.Field.parts])
      refine (expression_from key hkey).bind fun k hk => ?_
      refine (expression_from value hvalue).bind fun a ha => ?_
      exact (tableFields_from _ later hlater).bind fun b hb => .pure (by simp [hk, ha, hb])

theorem functionBody_from (method : Bool) (f : Syntax.FunctionBody)
    (h : AllIn P (.functionBody f)) :
    Gives (functionBody method f) fun a => AllFrom P (Bodies.expression a) := by
  obtain ⟨parameters, vararg, body, span⟩ := f
  rw [functionBody]
  have hbody := h.child (c := .block body) (by simp [Node.children])
  have hrest (receiver : List Local) : Gives (do
      let parameters ← declareAll parameters
      return Expression.function (receiver ++ parameters) vararg (← statements body))
      fun a => AllFrom P (Bodies.expression a) := by
    refine .behind fun ps => (statements_from body hbody).bind fun b hb => .pure ?_
    simpa [Block.bodies] using hb
  refine .inFunction ?_
  cases method with
  | true => exact .behind fun self => hrest [self]
  | false => exact hrest []

theorem statements_from (b : Syntax.Block) (h : AllIn P (.block b)) :
    Gives (statements b) fun a => AllFrom P a.bodies := by
  obtain ⟨body, result, span⟩ := b
  rw [statements]
  have hbody : ∀ s ∈ body, AllIn P (.statement s) := fun s hs =>
    h.child (by simp [Node.children, Syntax.Block.parts, hs])
  refine .behind fun _ => (statementList_from body hbody).bind fun a ha => ?_
  cases result with
  | none => exact .pure ha
  | some r =>
    obtain ⟨values, rspan⟩ := r
    have hresult := h.child (c := .result ⟨values, rspan⟩)
      (by simp [Node.children, Syntax.Block.parts])
    have hvalues : ∀ e ∈ values, AllIn P (.expression e) := fun e he =>
      hresult.child (by simpa [Node.children] using he)
    refine (expressions_from values hvalues).bind fun vs hvs => .pure ?_
    simp_all [Block.bodies]

theorem statementList_from (body : List Syntax.Statement)
    (h : ∀ s ∈ body, AllIn P (.statement s)) :
    Gives (statementList body) fun a => AllFrom P (Block.bodies a) := by
  cases body with
  | nil => exact .pure (by simp [Block.bodies])
  | cons s later =>
    rw [statementList]
    obtain ⟨hs, hlater⟩ := List.forall_mem_cons.1 h
    -- What the statement itself is resolved to comes from it, and what is inside from the rest.
    refine ((statement_from s hs).and (.run (statement s))).bind fun a ⟨ha, c, hrun⟩ => ?_
    refine (statementList_from later hlater).bind fun b hb => .pure ?_
    simp only [Block.bodies, Bodies.block, allFrom_cons, allFrom_append] at hb ⊢
    refine ⟨?_, ha.2, hb.2⟩
    intro x hx
    rcases List.mem_append.1 hx with hx | hx
    · rcases ha.1 x hx with rfl | hfrom
      · exact .inr ⟨s, c, hs.statement, hrun⟩
      · exact hfrom
    · exact hb.1 x hx

theorem elseIfs_from (es : List Syntax.ElseIf) (h : ∀ e ∈ es, AllIn P (.elseIf e)) :
    Gives (elseIfs es) fun a => (∀ x ∈ Spine.branches a, From P x) ∧
      AllFrom P (Bodies.branches a) := by
  cases es with
  | nil => exact .pure (by simp)
  | cons e later =>
    obtain ⟨c, b, span⟩ := e
    rw [elseIfs]
    obtain ⟨he, hlater⟩ := List.forall_mem_cons.1 h
    have hc := he.child (c := .expression c) (by simp [Node.children])
    have hb := he.child (c := .block b) (by simp [Node.children])
    refine (expression_from c hc).bind fun c hc => ?_
    refine (statements_from b hb).inScope.bind fun b hb => ?_
    refine (elseIfs_from later hlater).bind fun es hes => .pure ?_
    simp only [Block.bodies, allFrom_cons] at hb
    simp only [Spine.branches, Bodies.branches, List.forall_mem_append, allFrom_append]
    exact ⟨⟨hb.1, hes.1⟩, ⟨hc, hb.2⟩, hes.2⟩

theorem statement_from (s : Syntax.Statement) (h : AllIn P (.statement s)) :
    Gives (statement s) (Inside P) := by
  cases s with
  | assign ts vs span =>
    rw [statement]
    have hts : ∀ e ∈ ts, AllIn P (.expression e) := fun e he =>
      h.ofStatement (by simp [Syntax.Statement.parts, he])
    have hvs : ∀ e ∈ vs, AllIn P (.expression e) := fun e he =>
      h.ofStatement (by simp [Syntax.Statement.parts, he])
    refine (targets_from ts hts).bind fun ts hts => ?_
    refine (expressions_from vs hvs).bind fun vs hvs => .pure ?_
    exact .of_plain rfl (by simp [hts, hvs])
  | declare ds vs span =>
    rw [statement]
    have hvs : ∀ e ∈ vs, AllIn P (.expression e) := fun e he =>
      h.ofStatement (by simp [Syntax.Statement.parts, he])
    refine (expressions_from vs hvs).bind fun vs hvs => .behind fun symbols => ?_
    exact .behind fun _ => .pure (.of_plain rfl (by simpa using hvs))
  | call e span =>
    rw [statement]
    have he := h.ofStatement (c := .expression e) (by simp [Syntax.Statement.parts])
    exact (expression_from e he).bind fun e he => .pure (.of_plain rfl (by simpa using he))
  | ifThen c b es o span =>
    rw [statement]
    have hc := h.ofStatement (c := .expression c) (by simp [Syntax.Statement.parts])
    have hb := h.ofStatement (c := .block b) (by simp [Syntax.Statement.parts])
    have hes : ∀ e ∈ es, AllIn P (.elseIf e) := fun e he =>
      h.ofStatement (by simp [Syntax.Statement.parts, he])
    refine (expression_from c hc).bind fun c hc => ?_
    refine (statements_from b hb).inScope.bind fun b hb => ?_
    refine (elseIfs_from es hes).bind fun es hes => ?_
    simp only [Block.bodies, allFrom_cons] at hb
    cases o with
    | none =>
      refine .pure (.of_inner rfl ?_ (by simp [hc, hb.2, hes.2]))
      simp only [Spine.otherwise, List.forall_mem_append]
      exact ⟨⟨hb.1, hes.1⟩, by simp⟩
    | some o =>
      have ho := h.ofStatement (c := .otherwise o) (by simp [Syntax.Statement.parts])
      have ho : AllIn P (.block o) :=
        Syntax.Node.everywhere_iff.2 ⟨by simp, (Syntax.Node.everywhere_iff.1 ho).2⟩
      refine (statements_from o ho).inScope.bind fun o ho => .pure ?_
      simp only [Block.bodies, allFrom_cons] at ho
      refine .of_inner rfl ?_ (by simp [hc, hb.2, hes.2, ho.2])
      simp only [Spine.otherwise, List.forall_mem_append]
      exact ⟨⟨hb.1, hes.1⟩, ho.1⟩
  | whileDo c b span =>
    rw [statement]
    have hc := h.ofStatement (c := .expression c) (by simp [Syntax.Statement.parts])
    have hb := h.ofStatement (c := .block b) (by simp [Syntax.Statement.parts])
    refine (expression_from c hc).bind fun c hc => .inLoop fun exit => ?_
    refine (statements_from b hb).inScope.bind fun b hb => .pure ?_
    simp only [Block.bodies, allFrom_cons] at hb
    exact .of_inner rfl hb.1 (by simp [hc, hb.2])
  | repeatUntil b c span =>
    rw [statement]
    have hb := h.ofStatement (c := .block b) (by simp [Syntax.Statement.parts])
    have hc := h.ofStatement (c := .expression c) (by simp [Syntax.Statement.parts])
    refine .inLoop fun exit => .inScope ((statements_from b hb).bind fun b hb => ?_)
    refine (expression_from c hc).bind fun c hc => .pure ?_
    simp only [Block.bodies, allFrom_cons] at hb
    exact .of_inner rfl hb.1 (by simp [hc, hb.2])
  | numericFor n initial limit step b span =>
    rw [statement]
    have hinitial := h.ofStatement (c := .expression initial) (by simp [Syntax.Statement.parts])
    have hlimit := h.ofStatement (c := .expression limit) (by simp [Syntax.Statement.parts])
    have hb := h.ofStatement (c := .block b) (by simp [Syntax.Statement.parts])
    refine (expression_from initial hinitial).bind fun initial hinitial => ?_
    refine (expression_from limit hlimit).bind fun limit hlimit => ?_
    have hloop (step : Expression) (hstep : AllFrom P (Bodies.expression step)) :
        Gives (inLoop fun exit => inScope false do
          let counter ← declare n.text
          return Statement.numericFor counter initial limit step (← statements b) exit)
          (Inside P) := by
      refine .inLoop fun exit => .inScope (.behind fun counter => ?_)
      refine (statements_from b hb).bind fun b hb => .pure ?_
      simp only [Block.bodies, allFrom_cons] at hb
      exact .of_inner rfl hb.1 (by simp [hinitial, hlimit, hstep, hb.2])
    cases step with
    | none => exact hloop (.integer 1) (by simp [Expression.integer])
    | some step =>
      have hstep := h.ofStatement (c := .expression step) (by simp [Syntax.Statement.parts])
      exact (expression_from step hstep).bind hloop
  | genericFor ns vs b span =>
    rw [statement]
    have hvs : ∀ e ∈ vs, AllIn P (.expression e) := fun e he =>
      h.ofStatement (by simp [Syntax.Statement.parts, he])
    have hb := h.ofStatement (c := .block b) (by simp [Syntax.Statement.parts])
    refine (expressions_from vs hvs).bind fun vs hvs => .inLoop fun exit => .inScope ?_
    refine .behind fun symbols => (statements_from b hb).bind fun b hb => .pure ?_
    simp only [Block.bodies, allFrom_cons] at hb
    exact .of_inner rfl hb.1 (by simp [hvs, hb.2])
  | doBlock b span =>
    rw [statement]
    have hb := h.ofStatement (c := .block b) (by simp [Syntax.Statement.parts])
    refine (statements_from b hb).inScope.bind fun b hb => .pure ?_
    simp only [Block.bodies, allFrom_cons] at hb
    exact .of_inner rfl hb.1 (by simp [hb.2])
  | breakLoop at_ =>
    rw [statement]
    refine .behind fun c => ?_
    split
    · exact .pure (.of_plain rfl (by simp))
    · exact .behind fun _ => .pure (.of_plain rfl (by simp))
  | goto n span =>
    rw [statement]
    refine .behind fun c => ?_
    split
    · exact .pure (.of_plain rfl (by simp))
    · exact .behind fun _ => .pure (.of_plain rfl (by simp))
  | label n span =>
    rw [statement]
    refine .behind fun c => ?_
    split
    · exact .pure (.of_plain rfl (by simp))
    · exact .behind fun _ => .pure (.of_plain rfl (by simp))
  | function f body span =>
    rw [statement]
    have hbody := h.ofStatement (c := .functionBody body) (by simp [Syntax.Statement.parts])
    refine (functionTarget?_bodies f).bind fun target htarget => ?_
    cases target with
    | none => exact .pure (.of_plain rfl (by simp))
    | some target =>
      refine (functionBody_from f.method.isSome body hbody).bind fun value hvalue => .pure ?_
      exact .of_plain rfl (by simp [htarget target rfl, hvalue])
  | localFunction n body span =>
    rw [statement]
    have hbody := h.ofStatement (c := .functionBody body) (by simp [Syntax.Statement.parts])
    refine .behind fun symbol => ?_
    refine (functionBody_from false body hbody).bind fun value hvalue => .pure ?_
    exact .of_plain rfl (by simpa using hvalue)

end

/-- Every statement of a program, however deep, comes from one of the tree. -/
theorem program_from (b : Syntax.Block) (h : AllIn P (.block b)) :
    Gives (program b) fun a => AllFrom P a.bodies :=
  .inScope (.behind fun _ => .behind fun _ => statements_from b h)

/-! ## Branches that are never taken -/

theorem functionTarget?_isSome {f : Syntax.FunctionName} (h : f.path ≠ []) :
    Gives (functionTarget? f) fun target => target.isSome = true := by
  unfold functionTarget?
  split
  next hpath => exact absurd hpath h
  · exact .behind fun _ => .pure rfl
  · exact .behind fun _ => .pure rfl

theorem declareAll_ne_nil {ns : List Syntax.Name} (h : ns ≠ []) :
    Gives (declareAll ns) fun symbols => symbols ≠ [] := by
  cases ns with
  | nil => exact absurd rfl h
  | cons n later => exact .behind fun _ => .behind fun _ => .pure (List.cons_ne_nil _ _)

/-- A generic loop declares at least one variable. -/
def HasSymbols : Statement → Prop
  | .genericFor symbols _ _ _ => symbols ≠ []
  | _ => True

theorem statement_hasSymbols {s : Syntax.Statement} {ds : List Diagnostic} (h : s.Shaped ds) :
    Gives (statement s) HasSymbols := by
  cases s with
  | assign ts vs span =>
    rw [statement]
    exact .behind fun _ => .behind fun _ => .pure trivial
  | declare declarations vs span =>
    rw [statement]
    exact .behind fun _ => .behind fun _ => .behind fun _ => .pure trivial
  | call e span =>
    rw [statement]
    exact .behind fun _ => .pure trivial
  | ifThen c b es o span =>
    rw [statement]
    refine .behind fun _ => .behind fun _ => .behind fun _ => ?_
    cases o with
    | none => exact .pure trivial
    | some o => exact .behind fun _ => .pure trivial
  | whileDo c b span =>
    rw [statement]
    exact .behind fun _ => .inLoop fun _ => .behind fun _ => .pure trivial
  | repeatUntil b c span =>
    rw [statement]
    exact .inLoop fun _ => .inScope (.behind fun _ => .behind fun _ => .pure trivial)
  | numericFor n initial limit step b span =>
    rw [statement]
    refine .behind fun initial => .behind fun limit => ?_
    have hloop (step : Expression) : Gives (inLoop fun exit => inScope false do
        let counter ← declare n.text
        return Statement.numericFor counter initial limit step (← statements b) exit)
        HasSymbols :=
      .inLoop fun _ => .inScope (.behind fun _ => .behind fun _ => .pure trivial)
    cases step with
    | none => exact hloop (.integer 1)
    | some step => exact .behind hloop
  | genericFor ns vs b span =>
    rw [statement]
    refine .behind fun _ => .inLoop fun _ => .inScope ?_
    refine (declareAll_ne_nil h.1).bind fun symbols hsymbols => .behind fun _ => .pure ?_
    exact hsymbols
  | doBlock b span =>
    rw [statement]
    exact .behind fun _ => .pure trivial
  | breakLoop at_ =>
    rw [statement]
    refine .behind fun c => ?_
    split
    · exact .pure trivial
    · exact .behind fun _ => .pure trivial
  | goto n span =>
    rw [statement]
    refine .behind fun c => ?_
    split
    · exact .pure trivial
    · exact .behind fun _ => .pure trivial
  | label n span =>
    rw [statement]
    refine .behind fun c => ?_
    split
    · exact .pure trivial
    · exact .behind fun _ => .pure trivial
  | function f body span =>
    rw [statement]
    refine .behind fun target => ?_
    cases target with
    | none => exact .pure trivial
    | some target => exact .behind fun _ => .pure trivial
  | localFunction n body span =>
    rw [statement]
    exact .behind fun _ => .behind fun _ => .pure trivial

theorem From.hasSymbols {ds : List Diagnostic} {x : Statement} (h : From (·.Shaped ds) x) :
    HasSymbols x := by
  rcases h with ⟨values, rfl⟩ | ⟨s, c, hs, rfl⟩
  · trivial
  · exact statement_hasSymbols hs c

end Resolve

open Resolve Syntax in
/-- Whatever the text, its tree has the promised shape. So a function always has a name to be
assigned to, and a generic loop a variable to be ended by. -/
theorem Program.parse_shapes (source : Text.Source) :
    (Node.chunk (Tree.parse source).root).Everywhere
        (Node.Shaped (Tree.parse source).diagnostics) ∧
      (∀ (inner : Nested) (r : Reading),
        Read.Ensures (Read.prefixExpression inner) r fun e _ => e.2.Tells e.1) ∧
      (Node.chunk (Tree.parse source).root).Everywhere (fun n => ∀ f, n = .functionName f →
        Gives (functionTarget? f) fun target => target.isSome = true) ∧
      ∀ unit, ∀ f ∈ (ofTree (Tree.parse source) unit).body.bodies,
        ∀ x ∈ Spine.block f, HasSymbols x := by
  have hshaped := Tree.parse_shaped source
  have hstatements : AllIn (·.Shaped (Tree.parse source).diagnostics)
      (.chunk (Tree.parse source).root) := by
    refine hshaped.imp fun n hn s hs => ?_
    subst hs
    exact hn
  refine ⟨hshaped, Read.prefixExpression_tells, hshaped.imp fun n hn f hf => ?_, ?_⟩
  · subst hf
    exact functionTarget?_isSome hn
  · intro unit f hf x hx
    have hblock := hstatements.child (c := .block (Tree.parse source).root.block)
      (by simp [Node.children])
    exact (program_from _ hblock (.ofUnit unit) f hf x hx).hasSymbols

open Resolve Syntax in
/-- A loop without a variable and a function without a name. -/
theorem Program.parse_shapes_unnamed :
    let source := Text.Source.ofString "for in do function . () end end"
    let program := ofTree (Tree.parse source) 0
    (∀ s ∈ (Tree.parse source).root.block.statements, s.Shaped (Tree.parse source).diagnostics) ∧
      (∃ x later, program.body = x :: later ∧ HasSymbols x) ∧
      (Tree.parse source).diagnostics.length = 4 := by
  intro source program
  obtain ⟨hshaped, -, -, hsymbols⟩ := parse_shapes source
  refine ⟨fun s hs => ?_, ?_, by decide +kernel⟩
  · refine hshaped (.statement s) (.child (c := .block (Tree.parse source).root.block) ?_ ?_)
    · simp [Node.children]
    · exact .child (c := .statement s) (by simp [Node.children, Block.parts, hs]) .refl
  · have hbody : program.body ≠ [] := by decide +kernel
    obtain ⟨x, later, heq⟩ := List.exists_cons_of_ne_nil hbody
    refine ⟨x, later, heq, hsymbols 0 program.body List.mem_cons_self x ?_⟩
    rw [heq]
    cases x <;> simp [Spine.block]

end Resolved
end LuaFront
