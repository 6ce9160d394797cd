import LuaFront.Proofs.Resolved.Origin
import Mathlib.Algebra.Group.End

/-!
# LuaFront.Proofs.Resolved.Renaming

Other symbols in the place of those of a program. Names are resolved to declared symbols only
(`Lexical.program_fixed`), so a renaming that keeps these keeps a resolved program.
-/

namespace LuaFront
namespace Resolved

def Local.isDeclared (l : Local) : Bool :=
  match l.id with
  | .declared .. => true
  | .generated _ => false

/-- A renaming of symbols that flattening makes up. -/
def KeepsDeclared (π : Local → Local) : Prop := ∀ l, l.isDeclared → π l = l

namespace Rename

variable (π : Local → Local)

mutual

@[simp]
def expression : Expression → Expression
  | .literal value => .literal value
  | .name symbol => .name (π symbol)
  | .vararg => .vararg
  | .function parameters vararg body => .function (parameters.map π) vararg (block body)
  | .table entries => .table (fields entries)
  | .unary op operand => .unary op (expression operand)
  | .binary left op right => .binary (expression left) op (expression right)
  | .parenthesized inner => .parenthesized (expression inner)
  | .call receiver method arguments => .call (expression receiver) method (expressions arguments)
  | .index target index => .index (expression target) (expression index)
  | .error => .error

@[simp]
def expressions : List Expression → List Expression
  | [] => []
  | e :: later => expression e :: expressions later

@[simp]
def fields : List Field → List Field
  | [] => []
  | .positional position value :: later => .positional position (expression value) :: fields later
  | .keyed key value :: later => .keyed (expression key) (expression value) :: fields later

@[simp]
def branches : List Branch → List Branch
  | [] => []
  | ⟨condition, body⟩ :: later => ⟨expression condition, block body⟩ :: branches later

@[simp]
def otherwise : Option (List Statement) → Option (List Statement)
  | none => none
  | some body => some (block body)

@[simp]
def statement : Statement → Statement
  | .expression e => .expression (expression e)
  | .assign targets values => .assign (expressions targets) (expressions values)
  | .declare symbols values => .declare (symbols.map π) (expressions values)
  | .result values => .result (expressions values)
  | .ifThen c b es o => .ifThen (expression c) (block b) (branches es) (otherwise o)
  | .whileDo c b exit => .whileDo (expression c) (block b) exit
  | .repeatUntil b c exit => .repeatUntil (block b) (expression c) exit
  | .numericFor counter initial limit step b exit =>
    .numericFor (π counter) (expression initial) (expression limit) (expression step) (block b) exit
  | .genericFor symbols values b exit =>
    .genericFor (symbols.map π) (expressions values) (block b) exit
  | .doBlock b => .doBlock (block b)
  | .goto l => .goto l
  | .gotoIf l c wanted => .gotoIf l (expression c) wanted
  | .label l => .label l

@[simp]
def block : List Statement → List Statement
  | [] => []
  | s :: later => statement s :: block later

end

@[simp]
theorem block_append (a b : Block) : block π (a ++ b) = block π a ++ block π b := by
  induction a with
  | nil => rfl
  | cons s later ih => simp [ih]

end Rename

/-! ## Resolved programs -/

namespace Lexical

variable {π : Local → Local}

/-- A renaming of other symbols than those that can be visible at a place. -/
structure Env.Fixed (π : Local → Local) (env : Env) : Prop where
  keeps : KeepsDeclared π
  environment : π env.environment = env.environment
  symbols : ∀ l ∈ env.locals, π l = l

namespace Env.Fixed

variable {env : Env}

theorem declares (h : env.Fixed π) {symbols : List Local} (hs : symbols.map π = symbols) :
    (env.declares symbols).Fixed π where
  keeps := h.keeps
  environment := h.environment
  symbols := by
    have hs : ∀ l ∈ symbols, π l = l := List.map_inj_left.1 (hs.trans (List.map_id symbols).symm)
    simpa [Env.declares, or_imp, forall_and] using ⟨hs, h.symbols⟩

theorem inBlock (h : env.Fixed π) (labels : List Label) : (env.inBlock labels).Fixed π :=
  ⟨h.keeps, h.environment, h.symbols⟩

theorem inLoop (h : env.Fixed π) (exit : Label) : (env.inLoop exit).Fixed π :=
  ⟨h.keeps, h.environment, h.symbols⟩

theorem inFunction (h : env.Fixed π) (vararg : Bool) : (env.inFunction vararg).Fixed π :=
  ⟨h.keeps, h.environment, h.symbols⟩

theorem name (h : env.Fixed π) (n : Syntax.Name) :
    Rename.expression π (env.name n) = env.name n := by
  have hsymbol (name : String) (l : Local) (hl : env.symbol? name = some l) : π l = l :=
    h.symbols l (List.mem_of_find?_eq_some hl)
  unfold Env.name
  split
  · next symbol hfind => simp [hsymbol _ _ hfind]
  · cases henv : env.symbol? environmentName with
    | none => simp [h.environment, Expression.string]
    | some l => simp [hsymbol _ _ henv, Expression.string]

theorem functionTarget? (h : env.Fixed π) {f : Syntax.FunctionName} {target : Expression}
    (htarget : env.functionTarget? f = some target) : Rename.expression π target = target := by
  have hkeys (keys : List Syntax.Name) (e : Expression) (he : Rename.expression π e = e) :
      Rename.expression π (keys.foldl (fun e key => .index e (.string key.text)) e) =
        keys.foldl (fun e key => .index e (.string key.text)) e := by
    induction keys generalizing e with
    | nil => exact he
    | cons key later ih => exact ih _ (by simp [he, Expression.string])
  unfold Env.functionTarget? at htarget
  split at htarget
  · cases htarget
  · cases htarget
    exact hkeys _ _ (h.name _)

end Env.Fixed

theorem fixed_plain (hπ : KeepsDeclared π) (unit k : Nat) (name : String) :
    π (Local.plain (.declared unit k) name) = Local.plain (.declared unit k) name :=
  hπ _ rfl

theorem declareAll_fixed (hπ : KeepsDeclared π) (unit : Nat) (names : List String) (s : Supply) :
    Yields s (declareAll unit names) fun symbols _ => symbols.map π = symbols := by
  induction names generalizing s with
  | nil => exact rfl
  | cons n later ih =>
    rw [declareAll]
    refine (fresh_yields unit s).bind ?_
    rintro _ s₁ ⟨rfl, -⟩
    refine (ih s₁).bind fun symbols s₂ h => Yields.pure ?_
    rw [List.map_cons, fixed_plain hπ, h]

theorem declared_fixed (hπ : KeepsDeclared π) (unit : Nat) (ds : List Syntax.LocalDeclaration)
    (s : Supply) : Yields s (declared unit ds) fun symbols _ => symbols.map π = symbols := by
  induction ds generalizing s with
  | nil => exact rfl
  | cons d later ih =>
    rw [declared]
    refine (fresh_yields unit s).bind ?_
    rintro _ s₁ ⟨rfl, -⟩
    refine (ih s₁).bind fun symbols s₂ h => Yields.pure ?_
    rw [List.map_cons, h, hπ _ rfl]

mutual

theorem expression_fixed {env : Env} (h : env.Fixed π) (e : Syntax.Expression) (s : Supply) :
    Yields s (expression env e) fun a _ => Rename.expression π a = a := by
  cases e with
  | literal value span => exact rfl
  | name n => exact h.name n
  | vararg span =>
    rw [expression]
    refine Yields.pure ?_
    split <;> rfl
  | function body span =>
    rw [expression]
    exact functionBody_fixed h false body s
  | table entries span =>
    rw [expression]
    exact (tableFields_fixed h 0 entries s).bind fun fs s₁ h₁ => Yields.pure (by simp [h₁])
  | unary op operand span =>
    rw [expression]
    exact (expression_fixed h operand s).bind fun a s₁ h₁ => Yields.pure (by simp [h₁])
  | binary left op right span =>
    rw [expression]
    refine (expression_fixed h left s).bind fun a s₁ h₁ => ?_
    exact (expression_fixed h right s₁).bind fun b s₂ h₂ => Yields.pure (by simp [h₁, h₂])
  | parenthesized inner span =>
    rw [expression]
    exact (expression_fixed h inner s).bind fun a s₁ h₁ => Yields.pure (by simp [h₁])
  | call receiver method arguments span =>
    rw [expression]
    refine (expression_fixed h receiver s).bind fun a s₁ h₁ => ?_
    exact (expressions_fixed h arguments s₁).bind fun as s₂ h₂ => Yields.pure (by simp [h₁, h₂])
  | index target index span =>
    rw [expression]
    refine (expression_fixed h target s).bind fun a s₁ h₁ => ?_
    exact (expression_fixed h index s₁).bind fun b s₂ h₂ => Yields.pure (by simp [h₁, h₂])
  | dotted target key span =>
    rw [expression]
    refine (expression_fixed h target s).bind fun a s₁ h₁ => ?_
    exact Yields.pure (by simp [h₁, Expression.string])

theorem expressions_fixed {env : Env} (h : env.Fixed π) (es : List Syntax.Expression)
    (s : Supply) : Yields s (expressions env es) fun a _ => Rename.expressions π a = a := by
  cases es with
  | nil => exact rfl
  | cons e later =>
    rw [expressions]
    refine (expression_fixed h e s).bind fun a s₁ h₁ => ?_
    exact (expressions_fixed h later s₁).bind fun as s₂ h₂ => Yields.pure (by simp [h₁, h₂])

theorem tableFields_fixed {env : Env} (h : env.Fixed π) (position : Nat) (fs : List Syntax.Field)
    (s : Supply) : Yields s (tableFields env position fs) fun a _ => Rename.fields π a = a := by
  cases fs with
  | nil => exact rfl
  | cons f later =>
    cases f with
    | positional value span =>
      rw [tableFields]
      refine (expression_fixed h value s).bind fun a s₁ h₁ => ?_
      exact (tableFields_fixed h _ later s₁).bind fun as s₂ h₂ => Yields.pure (by simp [h₁, h₂])
    | named key value span =>
      rw [tableFields]
      refine (expression_fixed h value s).bind fun a s₁ h₁ => ?_
      refine (tableFields_fixed h _ later s₁).bind fun as s₂ h₂ => ?_
      exact Yields.pure (by simp [h₁, h₂, Expression.string])
    | keyed key value span =>
      rw [tableFields]
      refine (expression_fixed h key s).bind fun a s₁ h₁ => ?_
      refine (expression_fixed h value s₁).bind fun b s₂ h₂ => ?_
      refine (tableFields_fixed h _ later s₂).bind fun as s₃ h₃ => ?_
      exact Yields.pure (by simp [h₁, h₂, h₃])

theorem functionBody_fixed {env : Env} (h : env.Fixed π) (method : Bool)
    (f : Syntax.FunctionBody) (s : Supply) :
    Yields s (functionBody env method f) fun a _ => Rename.expression π a = a := by
  obtain ⟨parameters, vararg, body, span⟩ := f
  rw [functionBody]
  refine (declareAll_fixed h.keeps _ _ s).bind fun symbols s₁ h₁ => ?_
  refine (block_fixed ((h.inFunction vararg).declares h₁) body s₁).bind fun b s₂ h₂ => ?_
  exact Yields.pure (by simp [h₁, h₂.1])

theorem block_fixed {env : Env} (h : env.Fixed π) (b : Syntax.Block) (s : Supply) :
    Yields s (block env b) fun a _ => Rename.block π a.1 = a.1 ∧ a.2.Fixed π := by
  obtain ⟨body, result, span⟩ := b
  rw [block]
  refine (reserve_yields _ s).bind fun first s₁ _ => ?_
  refine (statements_fixed (h.inBlock _) first body s₁).bind fun a s₂ h₂ => ?_
  cases result with
  | none => exact Yields.pure h₂
  | some r =>
    obtain ⟨values, rspan⟩ := r
    refine (expressions_fixed h₂.2 values s₂).bind fun vs s₃ h₃ => ?_
    exact Yields.pure ⟨by simp [h₂.1, h₃], h₂.2⟩

theorem statements_fixed {env : Env} (h : env.Fixed π) (number : Nat)
    (body : List Syntax.Statement) (s : Supply) :
    Yields s (statements env number body) fun a _ => Rename.block π a.1 = a.1 ∧ a.2.Fixed π := by
  cases body with
  | nil => exact ⟨rfl, h⟩
  | cons x later =>
    rw [statements]
    refine (statement_fixed h number x s).bind fun a s₁ h₁ => ?_
    refine (statements_fixed h₁.2 _ later s₁).bind fun as s₂ h₂ => ?_
    exact Yields.pure ⟨by simp [h₁.1, h₂.1], h₂.2⟩

theorem elseIfs_fixed {env : Env} (h : env.Fixed π) (es : List Syntax.ElseIf) (s : Supply) :
    Yields s (elseIfs env es) fun a _ => Rename.branches π a = a := by
  cases es with
  | nil => exact rfl
  | cons e later =>
    obtain ⟨c, b, span⟩ := e
    rw [elseIfs]
    refine (expression_fixed h c s).bind fun c s₁ h₁ => ?_
    refine (block_fixed h b s₁).bind fun b s₂ h₂ => ?_
    refine (elseIfs_fixed h later s₂).bind fun es s₃ h₃ => ?_
    exact Yields.pure (by simp [h₁, h₂.1, h₃])

theorem statement_fixed {env : Env} (h : env.Fixed π) (number : Nat) (x : Syntax.Statement)
    (s : Supply) :
    Yields s (statement env number x) fun a _ => Rename.statement π a.1 = a.1 ∧ a.2.Fixed π := by
  cases x with
  | assign ts vs span =>
    rw [statement]
    refine (expressions_fixed h ts s).bind fun ts s₁ h₁ => ?_
    refine (expressions_fixed h vs s₁).bind fun vs s₂ h₂ => ?_
    exact Yields.pure ⟨by simp [h₁, h₂], h⟩
  | declare ds vs span =>
    rw [statement]
    refine (expressions_fixed h vs s).bind fun vs s₁ h₁ => ?_
    refine (declared_fixed h.keeps env.unit ds s₁).bind fun symbols s₂ h₂ => ?_
    exact Yields.pure ⟨by simp [h₁, h₂], h.declares h₂⟩
  | call e span =>
    rw [statement]
    refine (expression_fixed h e s).bind fun e s₁ h₁ => ?_
    exact Yields.pure ⟨by simp [h₁], h⟩
  | ifThen c b es o span =>
    rw [statement]
    refine (expression_fixed h c s).bind fun c s₁ h₁ => ?_
    refine (block_fixed h b s₁).bind fun b s₂ h₂ => ?_
    refine (elseIfs_fixed h es s₂).bind fun es s₃ h₃ => ?_
    cases o with
    | none => exact Yields.pure ⟨by simp [h₁, h₂.1, h₃], h⟩
    | some o =>
      refine (block_fixed h o s₃).bind fun o s₄ h₄ => ?_
      exact Yields.pure ⟨by simp [h₁, h₂.1, h₃, h₄.1], h⟩
  | whileDo c b span =>
    rw [statement]
    refine (expression_fixed h c s).bind fun c s₁ h₁ => ?_
    refine (newExit_yields env.unit s₁).bind fun exit s₂ _ => ?_
    refine (block_fixed (h.inLoop exit) b s₂).bind fun b s₃ h₃ => ?_
    exact Yields.pure ⟨by simp [h₁, h₃.1], h⟩
  | repeatUntil b c span =>
    rw [statement]
    refine (newExit_yields env.unit s).bind fun exit s₁ _ => ?_
    refine (block_fixed (h.inLoop exit) b s₁).bind fun b s₂ h₂ => ?_
    refine (expression_fixed h₂.2 c s₂).bind fun c s₃ h₃ => ?_
    exact Yields.pure ⟨by simp [h₂.1, h₃], h⟩
  | numericFor n initial limit step b span =>
    rw [statement]
    refine (expression_fixed h initial s).bind fun initial s₁ h₁ => ?_
    refine (expression_fixed h limit s₁).bind fun limit s₂ h₂ => ?_
    have hloop (step : Expression) (s₃ : Supply) (h₃ : Rename.expression π step = step) :
        Yields s₃
          (do
            let exit ← newExit env.unit
            let id ← fresh env.unit
            let b ← block ((env.inLoop exit).declares [Local.plain id n.text]) b
            return (Statement.numericFor (Local.plain id n.text) initial limit step b.1 exit, env))
          fun a _ => Rename.statement π a.1 = a.1 ∧ a.2.Fixed π := by
      refine (newExit_yields env.unit s₃).bind fun exit s₄ _ => ?_
      refine (fresh_yields env.unit s₄).bind ?_
      rintro _ s₅ ⟨rfl, -⟩
      have hcounter := fixed_plain h.keeps env.unit s₄.next n.text
      refine (block_fixed ((h.inLoop exit).declares (by simp [hcounter])) b s₅).bind
        fun b s₆ h₆ => ?_
      exact Yields.pure ⟨by simp [hcounter, h₁, h₂, h₃, h₆.1], h⟩
    cases step with
    | none => exact hloop (.integer 1) s₂ rfl
    | some step => exact (expression_fixed h step s₂).bind hloop
  | genericFor ns vs b span =>
    rw [statement]
    refine (expressions_fixed h vs s).bind fun vs s₁ h₁ => ?_
    refine (newExit_yields env.unit s₁).bind fun exit s₂ _ => ?_
    refine (declareAll_fixed h.keeps env.unit _ s₂).bind fun symbols s₃ h₃ => ?_
    refine (block_fixed ((h.inLoop exit).declares h₃) b s₃).bind fun b s₄ h₄ => ?_
    exact Yields.pure ⟨by simp [h₁, h₃, h₄.1], h⟩
  | doBlock b span =>
    rw [statement]
    refine (block_fixed h b s).bind fun b s₁ h₁ => ?_
    exact Yields.pure ⟨by simp [h₁.1], h⟩
  | breakLoop span =>
    rw [statement]
    refine Yields.pure ⟨?_, h⟩
    cases env.exit <;> rfl
  | goto n span =>
    rw [statement]
    refine Yields.pure ⟨?_, h⟩
    cases env.label? n.text <;> rfl
  | label n span => exact ⟨rfl, h⟩
  | function f body span =>
    rw [statement]
    cases htarget : env.functionTarget? f with
    | none => exact Yields.pure ⟨rfl, h⟩
    | some target =>
      refine (functionBody_fixed h f.method.isSome body s).bind fun value s₁ h₁ => ?_
      exact Yields.pure ⟨by simp [h.functionTarget? htarget, h₁], h⟩
  | localFunction n body span =>
    rw [statement]
    refine (fresh_yields env.unit s).bind ?_
    rintro _ s₁ ⟨rfl, -⟩
    have hsymbol := fixed_plain h.keeps env.unit s.next n.text
    have hinner : (env.declares [Local.plain (.declared env.unit s.next) n.text]).Fixed π :=
      h.declares (by simp [hsymbol])
    refine (functionBody_fixed hinner false body s₁).bind fun value s₂ h₂ => ?_
    exact Yields.pure ⟨by simp [hsymbol, h₂], hinner⟩

end

theorem program_fixed (hπ : KeepsDeclared π) (unit : Nat) (b : Syntax.Block) :
    Rename.block π (program unit b) = program unit b := by
  have henv : (Env.ofUnit unit).Fixed π :=
    ⟨hπ, fixed_plain hπ unit 0 environmentName, by simp [Env.ofUnit, fixed_plain hπ unit 0]⟩
  exact (block_fixed henv b ⟨1, 0⟩).1

end Lexical
end Resolved
end LuaFront
