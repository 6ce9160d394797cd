import LuaFront.Proofs.Number.Digits
import LuaFront.Proofs.Resolved.Reports
import LuaFront.Proofs.Resolved.Variables
import Mathlib.Data.List.Nodup

/-!
# LuaFront.Proofs.Resolved.Restoring

What resolving names leaves of the context it is done in.

* `Exits`: where the loops in a piece of a program are left, in the order in which they are come to.
* `Context.Returns c c' symbols labels exits`: `c'` is `c` but for variables and labels declared in
  the innermost scope, and for the loops that were counted.
* `Resolve.statement_returns` and the lemmas about the other constructs: one case for each thing
  that is written. Whatever a construct opens it closes.
* `Resolve.returns`: so every construct leaves the context as it was, but for what it declares at its
  own level, and all loops are left at labels of different names.
-/

namespace LuaFront
namespace Resolved

/-! ## Loops -/

namespace Exits

mutual

@[simp]
def expression : Expression → List Label
  | .function _ _ body => block body
  | .table fs => fields fs
  | .unary _ operand => expression operand
  | .binary left _ right => expression left ++ expression right
  | .parenthesized inner => expression inner
  | .call receiver _ arguments => expression receiver ++ expressions arguments
  | .index target index => expression target ++ expression index
  | _ => []

@[simp]
def expressions : List Expression → List Label
  | [] => []
  | e :: later => expression e ++ expressions later

@[simp]
def fields : List Field → List Label
  | [] => []
  | .positional _ value :: later => expression value ++ fields later
  | .keyed key value :: later => expression key ++ (expression value ++ fields later)

@[simp]
def branches : List Branch → List Label
  | [] => []
  | ⟨condition, b⟩ :: later => expression condition ++ (block b ++ branches later)

@[simp]
def otherwise : Option (List Statement) → List Label
  | none => []
  | some b => block b

/-- A loop is come to when what is evaluated before it has been read. -/
@[simp]
def statement : Statement → List Label
  | .expression e => expression e
  | .assign targets values => expressions targets ++ expressions values
  | .declare _ values => expressions values
  | .result values => expressions values
  | .ifThen c b es o => expression c ++ (block b ++ (branches es ++ otherwise o))
  | .whileDo c b exit => expression c ++ exit :: block b
  | .repeatUntil b c exit => exit :: (block b ++ expression c)
  | .numericFor _ initial limit step b exit =>
    expression initial ++ (expression limit ++ (expression step ++ exit :: block b))
  | .genericFor _ values b exit => expressions values ++ exit :: block b
  | .doBlock b => block b
  | .gotoIf _ c _ => expression c
  | .goto _ | .label _ => []

@[simp]
def block : List Statement → List Label
  | [] => []
  | x :: later => statement x ++ block later

end

@[simp]
theorem block_append (a b : Block) : block (a ++ b) = block a ++ block b := by
  induction a with
  | nil => rfl
  | cons x later ih => simp [ih]

end Exits

/-- The name of the label where the loop of a number is left. -/
def exitName (n : Nat) : String := s!"break#{n}"

theorem exitName_injective : Function.Injective exitName := by
  intro j k h
  have hdigits : Nat.toDigits 10 j = Nat.toDigits 10 k := by
    simpa [exitName, ToString.toString, Nat.repr_eq_ofList_toDigits, String.ofList_inj] using h
  rw [← Numeral.decimalValue_toDigits j, hdigits, Numeral.decimalValue_toDigits]

/-- The variables that a statement declares at its own level. -/
def ownVariables : Syntax.Statement → List Variable
  | .declare ds _ _ => ds.map fun d => ⟨d.name.text, isConstant d⟩
  | .localFunction n _ _ => [⟨n.text, false⟩]
  | _ => []

/-! ## Contexts that are as they were -/

namespace Context

/-- `c'` is `c` again, but for the numbers of symbols and the journal, for variables and labels
declared in the innermost scope, and for the loops that are left at `ends`, which were counted. -/
structure Returns (c c' : Context) (symbols : List Local) (labels : List PlacedLabel)
    (ends : List Label) : Prop where
  unit : c'.unit = c.unit
  scopes : c'.scopes = c.scopes.modifyInnermost fun f =>
    ⟨symbols.reverse ++ f.symbols, f.labels ++ labels, f.boundary⟩
  exits : c'.exits = c.exits
  vararg : c'.vararg = c.vararg
  environment : c'.environment = c.environment
  loops : c'.loops = c.loops + ends.length
  names : ends.map Label.name = (List.range' (c.loops + 1) ends.length).map exitName

theorem modifyInnermost_same (s : Scopes) :
    s.modifyInnermost (fun f => ⟨[].reverse ++ f.symbols, f.labels ++ [], f.boundary⟩) = s := by
  obtain ⟨_ | ⟨f, outer⟩⟩ := s
  · rfl
  · simp [Scopes.modifyInnermost]

namespace Returns

variable {c c₁ c₂ : Context} {s s₁ s₂ : List Local} {l l₁ l₂ : List PlacedLabel}
  {e e₁ e₂ : List Label}

theorem ofSteady (h : c.Steady c₁) (hloops : c₁.loops = c.loops) : c.Returns c₁ [] [] [] :=
  ⟨h.unit, h.scopes.trans (modifyInnermost_same _).symm, h.exits, h.vararg, h.environment, hloops,
    rfl⟩

theorem refl (c : Context) : c.Returns c [] [] [] := ofSteady (.refl c) rfl

theorem trans (h₁ : c.Returns c₁ s₁ l₁ e₁) (h₂ : c₁.Returns c₂ s₂ l₂ e₂) :
    c.Returns c₂ (s₁ ++ s₂) (l₁ ++ l₂) (e₁ ++ e₂) where
  unit := h₂.unit.trans h₁.unit
  scopes := by
    rw [h₂.scopes, h₁.scopes]
    obtain ⟨_ | ⟨f, outer⟩⟩ := c.scopes
    · rfl
    · simp [Scopes.modifyInnermost]
  exits := h₂.exits.trans h₁.exits
  vararg := h₂.vararg.trans h₁.vararg
  environment := h₂.environment.trans h₁.environment
  loops := by rw [h₂.loops, h₁.loops, List.length_append, Nat.add_assoc]
  names := by
    rw [List.map_append, h₁.names, h₂.names, h₁.loops, List.length_append, ← List.map_append,
      Nat.add_right_comm, List.range'_append_1]

/-- What comes of the innermost scope, and of those further out. -/
theorem frames (h : c.Returns c₁ s l e) {f : Frame} {outer : List Frame}
    (hframes : c.scopes.frames = f :: outer) :
    c₁.scopes.frames = ⟨s.reverse ++ f.symbols, f.labels ++ l, f.boundary⟩ :: outer := by
  rw [h.scopes, Scopes.modifyInnermost, hframes]

theorem frames_ne_nil (h : c.Returns c₁ s l e) (hopen : c.scopes.frames ≠ []) :
    c₁.scopes.frames ≠ [] := by
  obtain ⟨f, outer, hframes⟩ := List.exists_cons_of_ne_nil hopen
  rw [h.frames hframes]
  exact List.cons_ne_nil _ _

/-- No two loops are left at labels of one name. -/
theorem nodup (h : c.Returns c₁ s l e) : (e.map Label.name).Nodup := by
  rw [h.names]
  exact List.Nodup.map exitName_injective List.nodup_range'

/-- Closing a scope brings back those that were open before. -/
theorem pop {boundary : Bool} (h : (c.opened boundary).Returns c₁ s l e) :
    c₁.scopes.pop = c.scopes := by
  have hopen : (c.opened boundary).scopes.frames = ⟨[], [], boundary⟩ :: c.scopes.frames := rfl
  exact congrArg (fun frames => Scopes.mk frames.tail) (h.frames hopen)

end Returns
end Context

namespace Resolve

variable {α : Type} {c : Context}

/-! ## Opening and closing -/

section

variable {P : α → List Label → Prop}

/-- What opens a scope closes it. -/
theorem inScope_returns {boundary : Bool} {body : Resolve α}
    (h : Yields (c.opened boundary) body fun a c' => ∃ s l e, P a e ∧
      (c.opened boundary).Returns c' s l e) :
    Yields c (inScope boundary body) fun a c' => ∃ e, P a e ∧ c.Returns c' [] [] e := by
  obtain ⟨s, l, e, hp, h⟩ := h
  exact ⟨e, hp, h.unit, h.pop.trans (Context.modifyInnermost_same _).symm, h.exits, h.vararg,
    h.environment, h.loops, h.names⟩

/-- A loop is counted, and what is inside it is counted behind it. -/
theorem inLoop_returns {body : Label → Resolve α}
    (h : ∀ exit c₁, Yields c₁ (body exit) fun a c' => ∃ e, P a (exit :: e) ∧
      c₁.Returns c' [] [] e) :
    Yields c (inLoop body) fun a c' => ∃ e, P a e ∧ c.Returns c' [] [] e := by
  obtain ⟨e, hp, h⟩ := h ⟨.declared c.unit c.next, exitName (c.loops + 1)⟩
    { c with
      next := c.next + 1
      loops := c.loops + 1
      exits := ⟨.declared c.unit c.next, exitName (c.loops + 1)⟩ :: c.exits }
  refine ⟨_ :: e, hp, h.unit, h.scopes, congrArg List.tail h.exits, h.vararg, h.environment, ?_, ?_⟩
  · exact h.loops.trans (by rw [List.length_cons, Nat.add_assoc, Nat.add_comm 1])
  · rw [List.map_cons, h.names, List.length_cons, List.range'_succ, List.map_cons]

/-- A function has exits and arguments of its own, and leaves those around it alone. -/
theorem inFunction_returns {vararg : Bool} {body : Resolve α}
    (h : Yields (c.entered vararg) body fun a c' => ∃ s l e, P a e ∧
      (c.entered vararg).Returns c' s l e) :
    Yields c (inFunction vararg body) fun a c' => ∃ e, P a e ∧ c.Returns c' [] [] e := by
  obtain ⟨s, l, e, hp, h⟩ := h
  have hopened : (Context.opened { c with exits := [], vararg } true).Returns _ s l e := h
  exact ⟨e, hp, h.unit, hopened.pop.trans (Context.modifyInnermost_same _).symm, rfl, rfl, h.environment,
    h.loops, h.names⟩

end

/-! ## What opens nothing -/

theorem returns_of_agrees {m : Resolve α} {a : α} (h : Agrees c m (Pure.pure a)) :
    Yields c m fun b c' => b = a ∧ c.Returns c' [] [] [] :=
  ⟨h.2.1, .ofSteady h.2.2 (congrArg Lexical.Supply.loops h.1)⟩

theorem get_yields {k : Context → Resolve α} {Q : α → Context → Prop} (h : Yields c (k c) Q) :
    Yields c (get >>= k) Q :=
  h

theorem report_returns {k : Unit → Resolve α} {at_ : Text.Span} {cause : Cause}
    {Q : α → Context → Prop} (h : ∀ c', c.Returns c' [] [] [] → Yields c' (k ()) Q) :
    Yields c (report at_ cause >>= k) Q :=
  h _ (.ofSteady ⟨rfl, rfl, rfl, rfl, rfl⟩ rfl)

/-- A check that may report something. -/
theorem check_returns {p : Prop} [Decidable p] {m : Resolve α} {at_ : Text.Span} {cause : Cause}
    {Q : α → Context → Prop} (h : ∀ c', c.Returns c' [] [] [] → Yields c' m Q) :
    Yields c (if p then report at_ cause >>= fun _ => m else m) Q := by
  split
  · exact report_returns h
  · exact h c (.refl c)

theorem fresh_returns (c : Context) : Yields c fresh fun _ c' => c.Returns c' [] [] [] :=
  .ofSteady ⟨rfl, rfl, rfl, rfl, rfl⟩ rfl

theorem label_returns (c : Context) (n : Syntax.Name) :
    Yields c (label n) fun a c' => c.Returns c' [] [] (Exits.statement a) ∧ a.locals = [] := by
  unfold label
  refine get_yields ?_
  cases c.scopes.localLabel? n.span.start with
  | some label => exact Yields.pure ⟨by simpa using .refl c, rfl⟩
  | none => exact (fresh_returns c).bind fun id c₁ h₁ => Yields.pure ⟨by simpa using h₁, rfl⟩

/-! ## Declarations -/

theorem returns_declares (c : Context) (symbols : List Local) :
    c.Returns (c.declares symbols) symbols [] [] := by
  refine ⟨rfl, ?_, rfl, rfl, rfl, rfl, rfl⟩
  simp only [Context.declares, List.append_nil]

theorem declareVariables_returns (c : Context) (symbols : List Local) :
    Yields c (symbols.forM declareVariable) fun _ c' => c.Returns c' symbols [] [] := by
  rw [Yields, declareVariables_run]
  exact returns_declares c symbols

theorem declare_returns (c : Context) (name : String) :
    Yields c (declare name) fun a c' => a.variable = ⟨name, false⟩ ∧ c.Returns c' [a] [] [] := by
  refine (fresh_returns c).bind fun id c₁ h₁ => ?_
  exact ⟨rfl, h₁.trans (returns_declares c₁ [Local.plain id name])⟩

theorem declareAll_returns (c : Context) (names : List Syntax.Name) :
    Yields c (declareAll names) fun a c' => c.Returns c' a [] [] := by
  induction names generalizing c with
  | nil => exact Yields.pure (.refl c)
  | cons n later ih =>
    rw [declareAll]
    refine (declare_returns c n.text).bind fun a c₁ ⟨_, h₁⟩ => ?_
    exact (ih c₁).bind fun as c₂ h₂ => Yields.pure (h₁.trans h₂)

theorem declaredSymbols_returns (c : Context) (closed : Bool) (ds : List Syntax.LocalDeclaration) :
    Yields c (declaredSymbols closed ds) fun a c' =>
      a.map Local.variable = ds.map (fun d => ⟨d.name.text, isConstant d⟩) ∧
        c.Returns c' [] [] [] := by
  induction ds generalizing c closed with
  | nil => exact Yields.pure ⟨rfl, .refl c⟩
  | cons d later ih =>
    have hrest (c₁ : Context) (h₁ : c.Returns c₁ [] [] []) :
        Yields c₁ (do
            let id ← fresh
            let symbols ← declaredSymbols (closed || isClosed d) later
            return ⟨id, d.name.text, hasAttribute d "const", isClosed d⟩ :: symbols)
          fun a c' => a.map Local.variable =
              (d :: later).map (fun d => ⟨d.name.text, isConstant d⟩) ∧
            c.Returns c' [] [] [] := by
      refine (fresh_returns c₁).bind fun id c₂ h₂ => ?_
      refine (ih c₂ _).bind fun symbols c₃ ⟨hsymbols, h₃⟩ => Yields.pure ⟨?_, ?_⟩
      · rw [List.map_cons, hsymbols, List.map_cons]
        rfl
      · exact (h₁.trans h₂).trans h₃
    simp only [declaredSymbols]
    refine check_returns fun c₁ h₁ => ?_
    cases hattrib : d.attrib with
    | none => simpa [isClosed, hasAttribute, hattrib] using hrest c₁ h₁
    | some a =>
      refine check_returns fun c₂ h₂ => ?_
      simpa [isClosed, hasAttribute, hattrib] using hrest c₂ (h₁.trans h₂)

theorem declareLabels_returns (hopen : c.scopes.frames ≠ []) (ss : List Syntax.Statement) :
    Yields c (declareLabels ss) fun _ c' =>
      c.Returns c' [] (placedFrom c.unit c.next (Syntax.labelNames ss)) [] := by
  obtain ⟨f, outer, hframes⟩ := List.exists_cons_of_ne_nil hopen
  obtain ⟨journal, hrun⟩ := declareLabels_run ss hframes
  rw [Yields, hrun]
  refine ⟨rfl, ?_, rfl, rfl, rfl, rfl, rfl⟩
  rw [Scopes.modifyInnermost, hframes]
  rfl

/-! ## Names -/

theorem ends_name (env : Lexical.Env) (n : Syntax.Name) : Exits.expression (env.name n) = [] := by
  unfold Lexical.Env.name
  split <;> simp [Expression.string]

theorem ends_foldl_index (keys : List Syntax.Name) (e : Expression) :
    Exits.expression (keys.foldl (fun e key => .index e (.string key.text)) e) =
      Exits.expression e := by
  induction keys generalizing e with
  | nil => rfl
  | cons key later ih => simpa [Expression.string] using ih (.index e (.string key.text))

theorem ends_functionTarget? {env : Lexical.Env} {f : Syntax.FunctionName} {target : Expression}
    (h : env.functionTarget? f = some target) : Exits.expression target = [] := by
  unfold Lexical.Env.functionTarget? at h
  split at h
  · cases h
  · cases h
    rw [ends_foldl_index, ends_name]

/-! ## Every construct -/

/-- A block declares its labels, and then what its statements declare. -/
def BlockReturns (b : Syntax.Block) : Prop :=
  ∀ c : Context, c.scopes.frames ≠ [] → Yields c (statements b) fun a c' =>
    c.Returns c' a.locals (placedFrom c.unit c.next (Syntax.labelNames b.statements))
        (Exits.block a) ∧
      a.locals.map Local.variable = b.statements.flatMap ownVariables

theorem BlockReturns.inScope {b : Syntax.Block} (h : BlockReturns b) (c : Context)
    (boundary : Bool) :
    Yields c (inScope boundary (statements b)) fun a c' => c.Returns c' [] [] (Exits.block a) := by
  have hbody := h (c.opened boundary) (List.cons_ne_nil _ _)
  obtain ⟨e, rfl, he⟩ := inScope_returns (P := fun a e => Exits.block a = e)
    (hbody.imp fun a c' h => ⟨_, _, _, rfl, h.1⟩)
  exact he

/-- What a statement has done that declares nothing: loops that were come to behind those left at
`before`. -/
def Plain (before : List Label) (a : Statement) (e : List Label) : Prop :=
  a.locals = [] ∧ Exits.statement a = before ++ e

theorem Plain.andThen {before : List Label} {c₁ c₂ : Context} {a : Statement}
    (h₁ : c.Returns c₁ [] [] before) (h₂ : ∃ e, Plain before a e ∧ c₁.Returns c₂ [] [] e) :
    c.Returns c₂ a.locals [] (Exits.statement a) ∧ a.locals.map Local.variable = [] := by
  obtain ⟨e, ⟨hlocals, hends⟩, h₂⟩ := h₂
  rw [hlocals, hends]
  exact ⟨h₁.trans h₂, rfl⟩

mutual

theorem expression_returns (e : Syntax.Expression) (c : Context) :
    Yields c (expression e) fun a c' => c.Returns c' [] [] (Exits.expression a) := by
  cases e with
  | literal value span =>
    rw [expression]
    exact Yields.pure (by simpa using .refl c)
  | vararg span =>
    rw [expression]
    refine get_yields ?_
    split
    · exact Yields.pure (by simpa using .refl c)
    · exact report_returns fun c₁ h₁ => Yields.pure (by simpa using h₁)
  | function body span =>
    rw [expression]
    exact functionBody_returns false body c
  | table fields span =>
    rw [expression]
    refine (tableFields_returns 0 fields c).bind fun fs c₁ h₁ => Yields.pure ?_
    simpa using h₁
  | unary op operand span =>
    rw [expression]
    refine (expression_returns operand c).bind fun operand c₁ h₁ => Yields.pure ?_
    simpa using h₁
  | binary left op right span =>
    rw [expression]
    refine (expression_returns left c).bind fun left c₁ h₁ => ?_
    refine (expression_returns right c₁).bind fun right c₂ h₂ => Yields.pure ?_
    simpa using h₁.trans h₂
  | parenthesized inner span =>
    rw [expression]
    refine (expression_returns inner c).bind fun inner c₁ h₁ => Yields.pure ?_
    simpa using h₁
  | call receiver method arguments span =>
    rw [expression]
    refine (expression_returns receiver c).bind fun receiver c₁ h₁ => ?_
    refine (expressions_returns arguments c₁).bind fun arguments c₂ h₂ => Yields.pure ?_
    simpa using h₁.trans h₂
  | name n =>
    rw [expression]
    refine (returns_of_agrees (name_agrees c n)).imp ?_
    rintro _ c₁ ⟨rfl, h₁⟩
    rw [ends_name]
    exact h₁
  | index target index span =>
    rw [expression]
    refine (expression_returns target c).bind fun target c₁ h₁ => ?_
    refine (expression_returns index c₁).bind fun index c₂ h₂ => Yields.pure ?_
    simpa using h₁.trans h₂
  | dotted target key span =>
    rw [expression]
    refine (expression_returns target c).bind fun target c₁ h₁ => Yields.pure ?_
    simpa [Expression.string] using h₁

theorem expressions_returns (es : List Syntax.Expression) (c : Context) :
    Yields c (expressions es) fun a c' => c.Returns c' [] [] (Exits.expressions a) := by
  cases es with
  | nil =>
    rw [expressions]
    exact Yields.pure (by simpa using .refl c)
  | cons e later =>
    rw [expressions]
    refine (expression_returns e c).bind fun e c₁ h₁ => ?_
    refine (expressions_returns later c₁).bind fun es c₂ h₂ => Yields.pure ?_
    simpa using h₁.trans h₂

theorem targets_returns (es : List Syntax.Expression) (c : Context) :
    Yields c (targets es) fun a c' => c.Returns c' [] [] (Exits.expressions a) := by
  cases es with
  | nil =>
    rw [targets]
    exact Yields.pure (by simpa using .refl c)
  | cons e later =>
    have hall {m : Resolve Expression}
        (hm : Yields c m fun a c' => c.Returns c' [] [] (Exits.expression a)) :
        Yields c (do let e ← m; return e :: (← targets later)) fun a c' =>
          c.Returns c' [] [] (Exits.expressions a) := by
      refine hm.bind fun e c₁ h₁ => ?_
      refine (targets_returns later c₁).bind fun es c₂ h₂ => Yields.pure ?_
      simpa using h₁.trans h₂
    have hfirst := expression_returns e c
    cases e with
    | name n =>
      rw [targets]
      refine hall ((returns_of_agrees (targetName_agrees c n)).imp ?_)
      rintro _ c₁ ⟨rfl, h₁⟩
      rw [ends_name]
      exact h₁
    | _ => exact hall hfirst

theorem tableFields_returns (position : Nat) (fields : List Syntax.Field) (c : Context) :
    Yields c (tableFields position fields) fun a c' => c.Returns c' [] [] (Exits.fields a) := by
  cases fields with
  | nil =>
    rw [tableFields]
    exact Yields.pure (by simpa using .refl c)
  | cons f later =>
    cases f with
    | positional value span =>
      rw [tableFields]
      refine (expression_returns value c).bind fun value c₁ h₁ => ?_
      refine (tableFields_returns _ later c₁).bind fun fs c₂ h₂ => Yields.pure ?_
      simpa using h₁.trans h₂
    | named key value span =>
      rw [tableFields]
      refine (expression_returns value c).bind fun value c₁ h₁ => ?_
      refine (tableFields_returns _ later c₁).bind fun fs c₂ h₂ => Yields.pure ?_
      simpa [Expression.string] using h₁.trans h₂
    | keyed key value span =>
      rw [tableFields]
      refine (expression_returns key c).bind fun key c₁ h₁ => ?_
      refine (expression_returns value c₁).bind fun value c₂ h₂ => ?_
      refine (tableFields_returns _ later c₂).bind fun fs c₃ h₃ => Yields.pure ?_
      simpa using h₁.trans (h₂.trans h₃)

theorem functionBody_returns (method : Bool) (f : Syntax.FunctionBody) (c : Context) :
    Yields c (functionBody method f) fun a c' => c.Returns c' [] [] (Exits.expression a) := by
  obtain ⟨parameters, vararg, b, span⟩ := f
  rw [functionBody]
  have hbody (receiver : List Local) (c₁ : Context)
      (h₁ : (c.entered vararg).Returns c₁ receiver [] []) :
      Yields c₁ (do
          let parameters ← declareAll parameters
          return Expression.function (receiver ++ parameters) vararg (← statements b))
        fun a c' => ∃ s l e, Exits.expression a = e ∧ (c.entered vararg).Returns c' s l e := by
    refine (declareAll_returns c₁ parameters).bind fun symbols c₂ h₂ => ?_
    have hopen := (h₁.trans h₂).frames_ne_nil (List.cons_ne_nil _ _)
    refine (statements_returns b c₂ hopen).bind fun body c₃ ⟨h₃, _⟩ => Yields.pure ?_
    exact ⟨_, _, _, by simp, (h₁.trans h₂).trans h₃⟩
  have hall : Yields (c.entered vararg) (do
      let receiver ← if method then pure [← declare "self"] else pure []
      let parameters ← declareAll parameters
      return Expression.function (receiver ++ parameters) vararg (← statements b))
      fun a c' => ∃ s l e, Exits.expression a = e ∧ (c.entered vararg).Returns c' s l e := by
    cases method with
    | false =>
      simp only [Bool.false_eq_true, if_false, pure_bind]
      exact hbody [] _ (.refl _)
    | true =>
      simp only [if_true, pure_bind]
      exact (declare_returns _ "self").bind fun receiver c₁ h₁ => hbody [receiver] c₁ h₁.2
  obtain ⟨e, rfl, he⟩ := inFunction_returns hall
  exact he

theorem statements_returns (b : Syntax.Block) : BlockReturns b := by
  intro c hopen
  obtain ⟨body, result, span⟩ := b
  rw [statements]
  refine (declareLabels_returns hopen body).bind fun _ c₁ h₁ => ?_
  refine (statementList_returns body c₁).bind fun body c₂ ⟨h₂, hlocals⟩ => ?_
  cases result with
  | none => exact Yields.pure ⟨by simpa using h₁.trans h₂, hlocals⟩
  | some x =>
    obtain ⟨values, span⟩ := x
    refine (expressions_returns values c₂).bind fun values c₃ h₃ => Yields.pure ⟨?_, ?_⟩
    · simpa [Statement.locals] using (h₁.trans h₂).trans h₃
    · simpa [Statement.locals] using hlocals

theorem statementList_returns (ss : List Syntax.Statement) (c : Context) :
    Yields c (statementList ss) fun a c' => c.Returns c' (Block.locals a) [] (Exits.block a) ∧
      (Block.locals a).map Local.variable = ss.flatMap ownVariables := by
  cases ss with
  | nil =>
    rw [statementList]
    exact Yields.pure ⟨by simpa using .refl c, rfl⟩
  | cons st later =>
    rw [statementList]
    refine (statement_returns st c).bind fun a c₁ ⟨h₁, ha⟩ => ?_
    refine (statementList_returns later c₁).bind fun body c₂ ⟨h₂, hbody⟩ => Yields.pure ⟨?_, ?_⟩
    · simpa using h₁.trans h₂
    · rw [Block.locals_cons, List.map_append, ha, hbody, List.flatMap_cons]

theorem elseIfs_returns (es : List Syntax.ElseIf) (c : Context) :
    Yields c (elseIfs es) fun a c' => c.Returns c' [] [] (Exits.branches a) := by
  cases es with
  | nil =>
    rw [elseIfs]
    exact Yields.pure (by simpa using .refl c)
  | cons e later =>
    obtain ⟨condition, b, span⟩ := e
    rw [elseIfs]
    refine (expression_returns condition c).bind fun condition c₁ h₁ => ?_
    refine ((statements_returns b).inScope c₁ false).bind fun body c₂ h₂ => ?_
    refine (elseIfs_returns later c₂).bind fun branches c₃ h₃ => Yields.pure ?_
    simpa using h₁.trans (h₂.trans h₃)

theorem statement_returns (st : Syntax.Statement) (c : Context) :
    Yields c (statement st) fun a c' => c.Returns c' a.locals [] (Exits.statement a) ∧
      a.locals.map Local.variable = ownVariables st := by
  cases st with
  | assign ts vs span =>
    rw [statement]
    refine (targets_returns ts c).bind fun ts c₁ h₁ => ?_
    refine (expressions_returns vs c₁).bind fun vs c₂ h₂ => Yields.pure ⟨?_, rfl⟩
    simpa [Statement.locals] using h₁.trans h₂
  | declare ds vs span =>
    rw [statement]
    refine (expressions_returns vs c).bind fun vs c₁ h₁ => ?_
    refine (declaredSymbols_returns c₁ false ds).bind fun symbols c₂ ⟨hsymbols, h₂⟩ => ?_
    refine (declareVariables_returns c₂ symbols).bind fun _ c₃ h₃ => Yields.pure ⟨?_, hsymbols⟩
    simpa [Statement.locals] using (h₁.trans h₂).trans h₃
  | call e span =>
    rw [statement]
    refine (expression_returns e c).bind fun e c₁ h₁ => Yields.pure ⟨?_, rfl⟩
    simpa [Statement.locals] using h₁
  | ifThen condition b es o span =>
    rw [statement]
    refine (expression_returns condition c).bind fun condition c₁ h₁ => ?_
    refine ((statements_returns b).inScope c₁ false).bind fun body c₂ h₂ => ?_
    refine (elseIfs_returns es c₂).bind fun es c₃ h₃ => ?_
    cases o with
    | none =>
      refine Yields.pure ⟨?_, rfl⟩
      simpa [Statement.locals] using h₁.trans (h₂.trans h₃)
    | some o =>
      refine ((statements_returns o).inScope c₃ false).bind fun o c₄ h₄ => Yields.pure ⟨?_, rfl⟩
      simpa [Statement.locals] using h₁.trans (h₂.trans (h₃.trans h₄))
  | whileDo condition b span =>
    rw [statement]
    refine (expression_returns condition c).bind fun condition c₁ h₁ => ?_
    refine (inLoop_returns (P := Plain (Exits.expression condition)) fun exit c₂ => ?_).imp
      fun _ _ h₂ => Plain.andThen h₁ h₂
    refine ((statements_returns b).inScope c₂ false).bind fun body c₃ h₃ => Yields.pure ?_
    exact ⟨_, ⟨rfl, by simp⟩, h₃⟩
  | repeatUntil b condition span =>
    rw [statement]
    refine (inLoop_returns (P := Plain []) fun exit c₁ => ?_).imp
      fun _ _ h₁ => Plain.andThen (.refl c) h₁
    refine inScope_returns (P := fun a e => Plain [] a (exit :: e)) ?_
    refine (statements_returns b _ (List.cons_ne_nil _ _)).bind fun body c₂ ⟨h₂, _⟩ => ?_
    refine (expression_returns condition c₂).bind fun condition c₃ h₃ => Yields.pure ?_
    exact ⟨_, _, _, ⟨rfl, by simp⟩, h₂.trans h₃⟩
  | numericFor n initial limit step b span =>
    rw [statement]
    refine (expression_returns initial c).bind fun initial c₁ h₁ => ?_
    refine (expression_returns limit c₁).bind fun limit c₂ h₂ => ?_
    have hstep (step : Expression) (c₃ : Context)
        (h₃ : c₂.Returns c₃ [] [] (Exits.expression step)) :
        Yields c₃ (inLoop fun exit => inScope false do
            let counter ← declare n.text
            return .numericFor counter initial limit step (← statements b) exit) fun a c' =>
          c.Returns c' a.locals [] (Exits.statement a) ∧ a.locals.map Local.variable = [] := by
      refine (inLoop_returns (P := Plain (Exits.expression initial ++
        (Exits.expression limit ++ Exits.expression step))) fun exit c₄ => ?_).imp
          fun _ _ h₄ => Plain.andThen (h₁.trans (h₂.trans h₃)) h₄
      refine inScope_returns (P := fun a e => Plain _ a (exit :: e)) ?_
      refine (declare_returns _ n.text).bind fun counter c₅ ⟨_, h₅⟩ => ?_
      refine (statements_returns b c₅ (h₅.frames_ne_nil (List.cons_ne_nil _ _))).bind
        fun body c₆ ⟨h₆, _⟩ => Yields.pure ?_
      exact ⟨_, _, _, ⟨rfl, by simp⟩, h₅.trans h₆⟩
    cases step with
    | none => exact hstep (.integer 1) c₂ (by simpa [Expression.integer] using .refl c₂)
    | some step => exact (expression_returns step c₂).bind hstep
  | genericFor ns vs b span =>
    rw [statement]
    refine (expressions_returns vs c).bind fun vs c₁ h₁ => ?_
    refine (inLoop_returns (P := Plain (Exits.expressions vs)) fun exit c₂ => ?_).imp
      fun _ _ h₂ => Plain.andThen h₁ h₂
    refine inScope_returns (P := fun a e => Plain _ a (exit :: e)) ?_
    refine (declareAll_returns _ ns).bind fun symbols c₃ h₃ => ?_
    refine (statements_returns b c₃ (h₃.frames_ne_nil (List.cons_ne_nil _ _))).bind
      fun body c₄ ⟨h₄, _⟩ => Yields.pure ?_
    exact ⟨_, _, _, ⟨rfl, by simp⟩, h₃.trans h₄⟩
  | doBlock b span =>
    rw [statement]
    refine ((statements_returns b).inScope c false).bind fun body c₁ h₁ => Yields.pure ⟨?_, rfl⟩
    simpa [Statement.locals] using h₁
  | breakLoop span =>
    rw [statement]
    refine (returns_of_agrees (breakLoop_agrees c span)).imp ?_
    rintro _ c₁ ⟨rfl, h₁⟩
    cases c.env.exit <;> exact ⟨by simpa [Statement.locals] using h₁, rfl⟩
  | goto n span =>
    rw [statement]
    refine (returns_of_agrees (goto_agrees c n)).imp ?_
    rintro _ c₁ ⟨rfl, h₁⟩
    cases c.env.label? n.text <;> exact ⟨by simpa [Statement.locals] using h₁, rfl⟩
  | label n span =>
    rw [statement]
    exact (label_returns c n).imp fun a c₁ ⟨h₁, hlocals⟩ => ⟨by rwa [hlocals], by rw [hlocals]; rfl⟩
  | function f body span =>
    rw [statement]
    refine (returns_of_agrees (functionTarget?_agrees c f)).bind ?_
    rintro _ c₁ ⟨rfl, h₁⟩
    cases htarget : c.env.functionTarget? f with
    | none => exact Yields.pure ⟨by simpa [Statement.locals] using h₁, rfl⟩
    | some target =>
      refine (functionBody_returns f.method.isSome body c₁).bind fun value c₂ h₂ =>
        Yields.pure ⟨?_, rfl⟩
      simpa [Statement.locals, ends_functionTarget? htarget] using h₁.trans h₂
  | localFunction n body span =>
    rw [statement]
    refine (declare_returns c n.text).bind fun symbol c₁ ⟨hsymbol, h₁⟩ => ?_
    refine (functionBody_returns false body c₁).bind fun value c₂ h₂ => Yields.pure ⟨?_, ?_⟩
    · simpa [Statement.locals] using h₁.trans h₂
    · rw [Statement.locals, List.map_singleton, hsymbol]
      rfl

end

/-! ## Programs -/

theorem program_returns (b : Syntax.Block) (c : Context) :
    Yields c (program b) fun a c' => c.Returns c' [] [] (Exits.block a) := by
  have hbody : Yields (c.opened true) (do
      declareVariable (← get).environment
      statements b)
      fun a c' => ∃ s l e, Exits.block a = e ∧ (c.opened true).Returns c' s l e := by
    refine get_yields ?_
    refine (declareVariables_returns _ [c.environment]).bind fun _ c₁ h₁ => ?_
    exact (statements_returns b c₁ (h₁.frames_ne_nil (List.cons_ne_nil _ _))).imp
      fun a c₂ h₂ => ⟨_, _, _, rfl, h₁.trans h₂.1⟩
  obtain ⟨e, rfl, he⟩ := inScope_returns hbody
  exact he

/-- Where a scope is open, whatever is resolved leaves the context as it was. Expressions, functions
and blocks with a scope of their own leave all scopes alone. What stands in the innermost scope
changes only that one, by the labels of a list of statements and by the variables that are declared
at its own level. Loops are counted, and those of a program have different names; a program closes
all scopes. -/
theorem returns {c : Context} {f : Frame} {outer : List Frame}
    (hopen : c.scopes.frames = f :: outer) :
    (∀ e, Yields c (expression e) fun a c' =>
      c.Returns c' [] [] (Exits.expression a) ∧ c'.scopes = c.scopes) ∧
    (∀ method body, Yields c (functionBody method body) fun a c' =>
      c.Returns c' [] [] (Exits.expression a) ∧ c'.scopes = c.scopes) ∧
    (∀ b, Yields c (inScope false (statements b)) fun a c' =>
      c.Returns c' [] [] (Exits.block a) ∧ c'.scopes = c.scopes) ∧
    (∀ b, Yields c (statements b) fun a c' =>
      c.Returns c' a.locals (placedFrom c.unit c.next (Syntax.labelNames b.statements))
        (Exits.block a) ∧
      c'.scopes.frames = ⟨a.locals.reverse ++ f.symbols,
        f.labels ++ placedFrom c.unit c.next (Syntax.labelNames b.statements), f.boundary⟩ :: outer ∧
      a.locals.map Local.variable = b.statements.flatMap ownVariables) ∧
    (∀ st, Yields c (statement st) fun a c' =>
      c.Returns c' a.locals [] (Exits.statement a) ∧
      c'.scopes.frames = ⟨a.locals.reverse ++ f.symbols, f.labels, f.boundary⟩ :: outer ∧
      a.locals.map Local.variable = ownVariables st) ∧
    ∀ unit b, Yields (.ofUnit unit) (program b) fun a c' =>
      c'.scopes.frames = [] ∧ ((Exits.block a).map Label.name).Nodup := by
  have hsame {c' : Context} {e : List Label} (h : c.Returns c' [] [] e) : c'.scopes = c.scopes :=
    h.scopes.trans (Context.modifyInnermost_same _)
  refine ⟨fun e => ?_, fun method body => ?_, fun b => ?_, fun b => ?_, fun st => ?_,
    fun unit b => ?_⟩
  · exact (expression_returns e c).imp fun _ _ h => ⟨h, hsame h⟩
  · exact (functionBody_returns method body c).imp fun _ _ h => ⟨h, hsame h⟩
  · exact ((statements_returns b).inScope c false).imp fun _ _ h => ⟨h, hsame h⟩
  · refine (statements_returns b c (by simp [hopen])).imp fun _ _ ⟨h, hlocals⟩ => ?_
    exact ⟨h, h.frames hopen, hlocals⟩
  · refine (statement_returns st c).imp fun _ _ ⟨h, hlocals⟩ => ⟨h, ?_, hlocals⟩
    rw [h.frames hopen, List.append_nil]
  · refine (program_returns b (.ofUnit unit)).imp fun _ _ h => ⟨?_, h.nodup⟩
    rw [h.scopes]
    rfl

/-- The body of a loop behind `local x`. -/
def loopBody : Context where
  __ := Context.ofUnit 0
  next := 3
  scopes := ⟨[⟨[Local.plain (.declared 0 1) "x"], [], false⟩]⟩
  exits := [⟨.declared 0 2, exitName 1⟩]
  loops := 1

/-- `local function f() while true do break end goto out end` -/
def strayGoto : Syntax.Statement :=
  .localFunction ⟨"f", ⟨15, 16⟩⟩ ⟨[], false, ⟨[
    .whileDo (.literal .«true» ⟨25, 29⟩) ⟨[.breakLoop ⟨33, 38⟩], none, ⟨33, 38⟩⟩ ⟨19, 42⟩,
    .goto ⟨"out", ⟨48, 51⟩⟩ ⟨43, 51⟩], none, ⟨19, 51⟩⟩, ⟨16, 55⟩⟩ ⟨0, 55⟩

/-- Apart from the function itself only the loop in it shows, though its jump was reported. -/
theorem returns_strayGoto :
    loopBody.scopes.frames = [⟨[Local.plain (.declared 0 1) "x"], [], false⟩] ∧
    ((statement strayGoto).run loopBody).2.scopes.frames =
      [⟨[Local.plain (.declared 0 3) "f", Local.plain (.declared 0 1) "x"], [], false⟩] ∧
    ((statement strayGoto).run loopBody).2.exits = [⟨.declared 0 2, exitName 1⟩] ∧
    ((statement strayGoto).run loopBody).2.vararg = true ∧
    ((statement strayGoto).run loopBody).2.loops = 2 ∧
    ((statement strayGoto).run loopBody).2.journal.diagnostics =
      [⟨⟨48, 51⟩, .undefinedLabel "out"⟩] := by
  have hopen : loopBody.scopes.frames = [⟨[Local.plain (.declared 0 1) "x"], [], false⟩] := rfl
  obtain ⟨-, -, -, -, hstatement, -⟩ := returns hopen
  obtain ⟨h, hframes, -⟩ := hstatement strayGoto
  exact ⟨hopen, hframes, h.exits, h.vararg, h.loops, rfl⟩

end Resolve
end Resolved
end LuaFront
