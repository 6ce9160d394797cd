import LuaFront.Proofs.Resolved.Variables
import LuaFront.Proofs.Syntax.Nesting

/-!
# LuaFront.Proofs.Resolved.Binding

Static scoping shows variables only where they are in scope, and numbers them one after the other.

* `Worded`: what declares a variable in a text is a word.
* `Lexical.Situated`: statements whose variables are in scope and numbered from a range, with what
  is visible behind them.
* `Lexical.program_situated`: so it is with a whole program.
-/

namespace LuaFront
namespace Resolved

theorem sharp_notMem_word {n : Syntax.Name} (h : n.IsWord) : '#' ∉ n.text.toList :=
  fun hmem => absurd (h '#' hmem) (by decide)

/-! ## Static scoping -/

open Syntax (Node)

/-- What declares a variable is a word, everywhere in a node. -/
def Worded (n : Node) : Prop :=
  n.Everywhere fun
    | .name n => n.IsWord
    | .declaration d => d.name.IsWord
    | _ => True

namespace Worded

theorem child {n m : Node} (h : Worded n) (hm : m ∈ n.children) : Worded m :=
  (Node.everywhere_iff.1 h).2 m hm

theorem name {n : Syntax.Name} (h : Worded (.name n)) : n.IsWord := h _ .refl

theorem declaration {d : Syntax.LocalDeclaration} (h : Worded (.declaration d)) :
    d.name.IsWord :=
  h _ .refl

/-- A block in a branch that is taken otherwise is a block like any other. -/
theorem otherwise {b : Syntax.Block} (h : Worded (.otherwise b)) : Worded (.block b) :=
  Node.everywhere_iff.2 ⟨trivial, fun _ hm => h.child hm⟩

end Worded

namespace Lexical

/-- All variables that can be meant at a place are among these. -/
structure Env.Shows (env : Env) (visible : List Local) : Prop where
  locals : env.locals ⊆ visible
  environment : env.environment ∈ visible

namespace Env.Shows

variable {env : Env} {visible visible' : List Local}

theorem mono (h : env.Shows visible) (hmore : visible ⊆ visible') : env.Shows visible' :=
  ⟨List.Subset.trans h.locals hmore, hmore h.environment⟩

theorem declares (h : env.Shows visible) (symbols : List Local) :
    (env.declares symbols).Shows (visible ++ symbols) where
  locals := by
    simp only [Env.declares, List.append_subset, List.reverse_subset]
    exact ⟨List.subset_append_right .., List.subset_append_of_subset_left _ h.locals⟩
  environment := List.mem_append_left _ h.environment

theorem inBlock (h : env.Shows visible) (labels : List Label) :
    (env.inBlock labels).Shows visible :=
  ⟨h.locals, h.environment⟩

theorem inLoop (h : env.Shows visible) (exit : Label) : (env.inLoop exit).Shows visible :=
  ⟨h.locals, h.environment⟩

theorem inFunction (h : env.Shows visible) (vararg : Bool) :
    (env.inFunction vararg).Shows visible :=
  ⟨h.locals, h.environment⟩

theorem name (h : env.Shows visible) (n : Syntax.Name) :
    Occurs.expression InScope visible (env.name n) := by
  have hsymbol (name : String) (l : Local) (hl : env.symbol? name = some l) : l ∈ visible :=
    h.locals (List.mem_of_find?_eq_some hl)
  unfold Env.name
  split
  · next symbol hfind => exact hsymbol _ _ hfind
  · refine ⟨?_, trivial⟩
    cases henv : env.symbol? environmentName with
    | none => exact h.environment
    | some l => exact hsymbol _ _ henv

theorem functionTarget? (h : env.Shows visible) {f : Syntax.FunctionName} {target : Expression}
    (htarget : env.functionTarget? f = some target) :
    Occurs.expression InScope visible target := by
  have hkeys (keys : List Syntax.Name) (e : Expression)
      (he : Occurs.expression InScope visible e) :
      Occurs.expression InScope visible
        (keys.foldl (fun e key => .index e (.string key.text)) e) := by
    induction keys generalizing e with
    | nil => exact he
    | cons key later ih => exact ih _ ⟨he, trivial⟩
  unfold Env.functionTarget? at htarget
  split at htarget
  · cases htarget
  · cases htarget
    exact hkeys _ _ (h.name _)

end Env.Shows

theorem declared_name (env : Env) (n : Syntax.Name) : Declared.expression (env.name n) = [] := by
  unfold Env.name
  split <;> simp [Expression.string]

theorem declared_functionTarget? {env : Env} {f : Syntax.FunctionName} {target : Expression}
    (h : env.functionTarget? f = some target) : Declared.expression target = [] := by
  have hkeys (keys : List Syntax.Name) (e : Expression) (he : Declared.expression e = []) :
      Declared.expression (keys.foldl (fun e key => .index e (.string key.text)) e) = [] := by
    induction keys generalizing e with
    | nil => exact he
    | cons key later ih => exact ih _ (by simp [he, Expression.string])
  unfold Env.functionTarget? at h
  split at h
  · cases h
  · cases h
    exact hkeys _ _ (declared_name env _)

theorem declareAll_issues (unit : Nat) {names : List String}
    (h : ∀ name ∈ names, '#' ∉ name.toList) (s : Supply) :
    Yields s (declareAll unit names) fun symbols s' => Issued unit s.next s'.next symbols := by
  induction names generalizing s with
  | nil => exact .nothing (Nat.le_refl _)
  | cons n later ih =>
    rw [List.forall_mem_cons] at h
    rw [declareAll]
    refine (fresh_yields unit s).bind ?_
    rintro _ s₁ ⟨rfl, hs₁⟩
    refine (ih h.2 s₁).bind fun symbols s₂ h₂ => Yields.pure ?_
    have h₁ : Issued unit s.next s₁.next [Local.plain (.declared unit s.next) n] :=
      hs₁ ▸ .one rfl h.1
    exact h₁.append h₂

theorem declared_issues (unit : Nat) {ds : List Syntax.LocalDeclaration}
    (h : ∀ d ∈ ds, d.name.IsWord) (s : Supply) :
    Yields s (declared unit ds) fun symbols s' => Issued unit s.next s'.next symbols := by
  induction ds generalizing s with
  | nil => exact .nothing (Nat.le_refl _)
  | cons d later ih =>
    rw [List.forall_mem_cons] at h
    rw [declared]
    refine (fresh_yields unit s).bind ?_
    rintro _ s₁ ⟨rfl, hs₁⟩
    refine (ih h.2 s₁).bind fun symbols s₂ h₂ => Yields.pure ?_
    refine Issued.append (a := [_]) ?_ h₂
    exact hs₁ ▸ .one rfl (sharp_notMem_word h.1)

theorem newExit_next (unit : Nat) (s : Supply) :
    Yields s (newExit unit) fun _ s' => s.next ≤ s'.next :=
  Nat.le_succ s.next

/-- What has become of statements, where these variables are visible. -/
structure Situated (env : Env) (visible : List Local) (s : Supply) (a : Block × Env)
    (s' : Supply) : Prop where
  inScope : Occurs.block InScope visible a.1
  issued : Issued env.unit s.next s'.next (Declared.block a.1)
  shows : a.2.Shows (visible ++ a.1.locals)
  unit : a.2.unit = env.unit

namespace Situated

variable {env env' : Env} {visible : List Local} {s s' s'' : Supply}

theorem nil (h : env.Shows visible) (s : Supply) : Situated env visible s ([], env) s :=
  ⟨trivial, .nothing (Nat.le_refl _), by simpa using h, rfl⟩

/-- A statement that declares nothing for those behind it. -/
theorem plain (h : env.Shows visible) {a : Statement} (hscope : Occurs.statement InScope visible a)
    (hissued : Issued env.unit s.next s'.next (Declared.statement a)) :
    Situated env visible s ([a], env) s' :=
  ⟨⟨hscope, trivial⟩, by simpa using hissued, h.mono (List.subset_append_left ..), rfl⟩

theorem append {a b : Block} {env'' : Env} (h : Situated env visible s (a, env') s')
    (h' : Situated env' (visible ++ a.locals) s' (b, env'') s'') :
    Situated env visible s (a ++ b, env'') s'' where
  inScope := (Occurs.block_append ..).2 ⟨h.inScope, h'.inScope⟩
  issued := by
    rw [Declared.block_append]
    exact h.issued.append (h.unit ▸ h'.issued)
  shows := by simpa using h'.shows
  unit := h'.unit.trans h.unit

/-- A block ends with the results of its function. -/
theorem result {a : Block × Env} {values : List Expression} (h : Situated env visible s a s')
    (hscope : Occurs.expressions InScope (visible ++ a.1.locals) values)
    (hissued : Issued env.unit s'.next s''.next (Declared.expressions values)) :
    Situated env visible s (a.1 ++ [.result values], a.2) s'' where
  inScope := (Occurs.block_append ..).2 ⟨h.inScope, hscope, trivial⟩
  issued := by simpa using h.issued.append hissued
  shows := by simpa [Statement.locals] using h.shows
  unit := h.unit

end Situated

mutual

theorem expression_situated {env : Env} {visible : List Local} (h : env.Shows visible)
    (e : Syntax.Expression) (ht : Worded (.expression e)) (s : Supply) :
    Yields s (expression env e) fun a s' => Occurs.expression InScope visible a ∧
      Issued env.unit s.next s'.next (Declared.expression a) := by
  have hpart {m : Node} (hm : m ∈ e.parts) : Worded m := ht.child hm
  cases e with
  | literal value span => exact ⟨trivial, .nothing (Nat.le_refl _)⟩
  | name n =>
    rw [expression]
    exact Yields.pure ⟨h.name n, declared_name env n ▸ .nothing (Nat.le_refl _)⟩
  | vararg span =>
    rw [expression]
    refine Yields.pure ?_
    split <;> exact ⟨trivial, .nothing (Nat.le_refl _)⟩
  | function body span =>
    rw [expression]
    refine (functionBody_situated h false body (hpart (by simp [Syntax.Expression.parts])) s).imp ?_
    rintro _ s₁ ⟨parameters, b, rfl, h₁⟩
    exact h₁
  | table fields span =>
    rw [expression]
    refine (tableFields_situated h 0 fields
      (fun f hf => hpart (by simp [Syntax.Expression.parts, hf])) s).bind fun fs s₁ h₁ => ?_
    exact Yields.pure h₁
  | unary op operand span =>
    rw [expression]
    refine (expression_situated h operand (hpart (by simp [Syntax.Expression.parts])) s).bind
      fun a s₁ h₁ => ?_
    exact Yields.pure h₁
  | binary left op right span =>
    rw [expression]
    refine (expression_situated h left (hpart (by simp [Syntax.Expression.parts])) s).bind
      fun a s₁ h₁ => ?_
    refine (expression_situated h right (hpart (by simp [Syntax.Expression.parts])) s₁).bind
      fun b s₂ h₂ => ?_
    exact Yields.pure ⟨⟨h₁.1, h₂.1⟩, h₁.2.append h₂.2⟩
  | parenthesized inner span =>
    rw [expression]
    refine (expression_situated h inner (hpart (by simp [Syntax.Expression.parts])) s).bind
      fun a s₁ h₁ => ?_
    exact Yields.pure h₁
  | call receiver method arguments span =>
    rw [expression]
    refine (expression_situated h receiver (hpart (by simp [Syntax.Expression.parts])) s).bind
      fun a s₁ h₁ => ?_
    refine (expressions_situated h arguments
      (fun e he => hpart (by simp [Syntax.Expression.parts, he])) s₁).bind fun as s₂ h₂ => ?_
    exact Yields.pure ⟨⟨h₁.1, h₂.1⟩, h₁.2.append h₂.2⟩
  | index target index span =>
    rw [expression]
    refine (expression_situated h target (hpart (by simp [Syntax.Expression.parts])) s).bind
      fun a s₁ h₁ => ?_
    refine (expression_situated h index (hpart (by simp [Syntax.Expression.parts])) s₁).bind
      fun b s₂ h₂ => ?_
    exact Yields.pure ⟨⟨h₁.1, h₂.1⟩, h₁.2.append h₂.2⟩
  | dotted target key span =>
    rw [expression]
    refine (expression_situated h target (hpart (by simp [Syntax.Expression.parts])) s).bind
      fun a s₁ h₁ => ?_
    exact Yields.pure ⟨⟨h₁.1, trivial⟩, by simpa [Expression.string] using h₁.2⟩

theorem expressions_situated {env : Env} {visible : List Local} (h : env.Shows visible)
    (es : List Syntax.Expression) (ht : ∀ e ∈ es, Worded (.expression e)) (s : Supply) :
    Yields s (expressions env es) fun a s' => Occurs.expressions InScope visible a ∧
      Issued env.unit s.next s'.next (Declared.expressions a) := by
  cases es with
  | nil => exact ⟨trivial, .nothing (Nat.le_refl _)⟩
  | cons e later =>
    rw [List.forall_mem_cons] at ht
    rw [expressions]
    refine (expression_situated h e ht.1 s).bind fun a s₁ h₁ => ?_
    refine (expressions_situated h later ht.2 s₁).bind fun as s₂ h₂ => ?_
    exact Yields.pure ⟨⟨h₁.1, h₂.1⟩, h₁.2.append h₂.2⟩

theorem tableFields_situated {env : Env} {visible : List Local} (h : env.Shows visible)
    (position : Nat) (fs : List Syntax.Field) (ht : ∀ f ∈ fs, Worded (.field f)) (s : Supply) :
    Yields s (tableFields env position fs) fun a s' => Occurs.fields InScope visible a ∧
      Issued env.unit s.next s'.next (Declared.fields a) := by
  cases fs with
  | nil => exact ⟨trivial, .nothing (Nat.le_refl _)⟩
  | cons f later =>
    rw [List.forall_mem_cons] at ht
    have hpart {m : Node} (hm : m ∈ f.parts) : Worded m := ht.1.child hm
    cases f with
    | positional value span =>
      rw [tableFields]
      refine (expression_situated h value (hpart (by simp [Syntax.Field.parts])) s).bind
        fun a s₁ h₁ => ?_
      refine (tableFields_situated h _ later ht.2 s₁).bind fun as s₂ h₂ => ?_
      exact Yields.pure ⟨⟨h₁.1, h₂.1⟩, h₁.2.append h₂.2⟩
    | named key value span =>
      rw [tableFields]
      refine (expression_situated h value (hpart (by simp [Syntax.Field.parts])) s).bind
        fun a s₁ h₁ => ?_
      refine (tableFields_situated h _ later ht.2 s₁).bind fun as s₂ h₂ => ?_
      exact Yields.pure ⟨⟨trivial, h₁.1, h₂.1⟩, h₁.2.append h₂.2⟩
    | keyed key value span =>
      rw [tableFields]
      refine (expression_situated h key (hpart (by simp [Syntax.Field.parts])) s).bind
        fun a s₁ h₁ => ?_
      refine (expression_situated h value (hpart (by simp [Syntax.Field.parts])) s₁).bind
        fun b s₂ h₂ => ?_
      refine (tableFields_situated h _ later ht.2 s₂).bind fun as s₃ h₃ => ?_
      exact Yields.pure ⟨⟨h₁.1, h₂.1, h₃.1⟩, (h₁.2.append h₂.2).append h₃.2⟩

theorem functionBody_situated {env : Env} {visible : List Local} (h : env.Shows visible)
    (method : Bool) (f : Syntax.FunctionBody) (ht : Worded (.functionBody f)) (s : Supply) :
    Yields s (functionBody env method f) fun a s' => ∃ parameters body,
      a = .function parameters f.vararg body ∧ Occurs.expression InScope visible a ∧
        Issued env.unit s.next s'.next (Declared.expression a) := by
  obtain ⟨parameters, vararg, body, span⟩ := f
  have hpart {m : Node} (hm : m ∈ (Node.functionBody ⟨parameters, vararg, body, span⟩).children) :
      Worded m := ht.child hm
  have hwords : ∀ name ∈ (if method then ["self"] else []) ++ parameters.map Syntax.Name.text,
      '#' ∉ name.toList := by
    refine List.forall_mem_append.2 ⟨?_, ?_⟩
    · cases method <;> decide
    · rw [List.forall_mem_map]
      exact fun n hn => sharp_notMem_word (hpart (by simp [Node.children, hn])).name
  rw [functionBody]
  refine (declareAll_issues env.unit hwords s).bind fun symbols s₁ h₁ => ?_
  refine (block_situated ((h.inFunction vararg).declares symbols) body
    (hpart (by simp [Node.children])) s₁).bind fun b s₂ h₂ => ?_
  exact Yields.pure ⟨symbols, b.1, rfl, h₂.inScope, h₁.append h₂.issued⟩

theorem block_situated {env : Env} {visible : List Local} (h : env.Shows visible)
    (b : Syntax.Block) (ht : Worded (.block b)) (s : Supply) :
    Yields s (block env b) (Situated env visible s) := by
  obtain ⟨body, result, span⟩ := b
  have hpart {m : Node} (hm : m ∈ (Node.block ⟨body, result, span⟩).children) : Worded m :=
    ht.child hm
  rw [block]
  refine (reserve_yields _ s).bind ?_
  rintro first s₁ ⟨-, hs₁⟩
  refine (statements_situated (h.inBlock _) first body
    (fun x hx => hpart (by simp [Node.children, Syntax.Block.parts, hx])) s₁).bind fun a s₂ h₂ => ?_
  have hbody : Situated env visible s a s₂ :=
    ⟨h₂.inScope, (Issued.nothing (by omega)).append h₂.issued, h₂.shows, h₂.unit⟩
  cases result with
  | none => exact Yields.pure hbody
  | some r =>
    obtain ⟨values, rspan⟩ := r
    have hresult : Worded (.result ⟨values, rspan⟩) :=
      hpart (by simp [Node.children, Syntax.Block.parts])
    refine (expressions_situated hbody.shows values
      (fun e he => hresult.child (by simp [Node.children, he])) s₂).bind fun vs s₃ h₃ => ?_
    exact Yields.pure (hbody.result h₃.1 (hbody.unit ▸ h₃.2))

theorem statements_situated {env : Env} {visible : List Local} (h : env.Shows visible)
    (number : Nat) (body : List Syntax.Statement) (ht : ∀ x ∈ body, Worded (.statement x))
    (s : Supply) : Yields s (statements env number body) (Situated env visible s) := by
  cases body with
  | nil => exact .nil h s
  | cons x later =>
    rw [List.forall_mem_cons] at ht
    rw [statements]
    refine (statement_situated h number x ht.1 s).bind fun a s₁ h₁ => ?_
    refine (statements_situated h₁.shows _ later ht.2 s₁).bind fun as s₂ h₂ => ?_
    exact Yields.pure (h₁.append h₂)

theorem elseIfs_situated {env : Env} {visible : List Local} (h : env.Shows visible)
    (es : List Syntax.ElseIf) (ht : ∀ e ∈ es, Worded (.elseIf e)) (s : Supply) :
    Yields s (elseIfs env es) fun a s' => Occurs.branches InScope visible a ∧
      Issued env.unit s.next s'.next (Declared.branches a) := by
  cases es with
  | nil => exact ⟨trivial, .nothing (Nat.le_refl _)⟩
  | cons e later =>
    obtain ⟨c, b, span⟩ := e
    rw [List.forall_mem_cons] at ht
    rw [elseIfs]
    refine (expression_situated h c (ht.1.child (by simp [Node.children])) s).bind
      fun c s₁ h₁ => ?_
    refine (block_situated h b (ht.1.child (by simp [Node.children])) s₁).bind fun b s₂ h₂ => ?_
    refine (elseIfs_situated h later ht.2 s₂).bind fun es s₃ h₃ => ?_
    exact Yields.pure ⟨⟨h₁.1, h₂.inScope, h₃.1⟩, (h₁.2.append h₂.issued).append h₃.2⟩

theorem statement_situated {env : Env} {visible : List Local} (h : env.Shows visible)
    (number : Nat) (x : Syntax.Statement) (ht : Worded (.statement x)) (s : Supply) :
    Yields s (statement env number x) fun a s' => Situated env visible s ([a.1], a.2) s' := by
  have hpart {m : Node} (hm : m ∈ x.parts) : Worded m := ht.child hm
  cases x with
  | assign ts vs span =>
    rw [statement]
    refine (expressions_situated h ts (fun e he => hpart (by simp [Syntax.Statement.parts, he]))
      s).bind fun ts s₁ h₁ => ?_
    refine (expressions_situated h vs (fun e he => hpart (by simp [Syntax.Statement.parts, he]))
      s₁).bind fun vs s₂ h₂ => ?_
    exact Yields.pure (.plain h ⟨h₁.1, h₂.1⟩ (h₁.2.append h₂.2))
  | declare ds vs span =>
    rw [statement]
    refine (expressions_situated h vs (fun e he => hpart (by simp [Syntax.Statement.parts, he]))
      s).bind fun vs s₁ h₁ => ?_
    refine (declared_issues env.unit
      (fun d hd => (hpart (by simp [Syntax.Statement.parts, hd])).declaration) s₁).bind
      fun symbols s₂ h₂ => ?_
    refine Yields.pure ⟨⟨?_, trivial⟩, ?_, ?_, rfl⟩
    · exact InScope.expressions_mono (List.subset_append_left ..) h₁.1
    · simpa using (h₁.2.append h₂).perm List.perm_append_comm
    · simpa [Statement.locals] using h.declares symbols
  | call e span =>
    rw [statement]
    refine (expression_situated h e (hpart (by simp [Syntax.Statement.parts])) s).bind
      fun e s₁ h₁ => ?_
    exact Yields.pure (.plain h h₁.1 h₁.2)
  | ifThen c b es o span =>
    rw [statement]
    refine (expression_situated h c (hpart (by simp [Syntax.Statement.parts])) s).bind
      fun c s₁ h₁ => ?_
    refine (block_situated h b (hpart (by simp [Syntax.Statement.parts])) s₁).bind
      fun b s₂ h₂ => ?_
    refine (elseIfs_situated h es (fun e he => hpart (by simp [Syntax.Statement.parts, he]))
      s₂).bind fun es s₃ h₃ => ?_
    have hissued := (h₁.2.append h₂.issued).append h₃.2
    cases o with
    | none =>
      refine Yields.pure (.plain h ⟨h₁.1, h₂.inScope, h₃.1, trivial⟩ ?_)
      simpa using hissued
    | some o =>
      have ho : Worded (.block o) := (hpart (by simp [Syntax.Statement.parts])).otherwise
      refine (block_situated h o ho s₃).bind fun o s₄ h₄ => ?_
      refine Yields.pure (.plain h ⟨h₁.1, h₂.inScope, h₃.1, h₄.inScope⟩ ?_)
      simpa using hissued.append h₄.issued
  | whileDo c b span =>
    rw [statement]
    refine (expression_situated h c (hpart (by simp [Syntax.Statement.parts])) s).bind
      fun c s₁ h₁ => ?_
    refine (newExit_next env.unit s₁).bind fun exit s₂ h₂ => ?_
    refine (block_situated (h.inLoop exit) b (hpart (by simp [Syntax.Statement.parts])) s₂).bind
      fun b s₃ h₃ => ?_
    refine Yields.pure (.plain h ⟨h₁.1, h₃.inScope⟩ ?_)
    simpa using (h₁.2.append (.nothing h₂)).append h₃.issued
  | repeatUntil b c span =>
    rw [statement]
    refine (newExit_next env.unit s).bind fun exit s₁ h₁ => ?_
    refine (block_situated (h.inLoop exit) b (hpart (by simp [Syntax.Statement.parts])) s₁).bind
      fun b s₂ h₂ => ?_
    refine (expression_situated h₂.shows c (hpart (by simp [Syntax.Statement.parts])) s₂).bind
      fun c s₃ h₃ => ?_
    rw [show b.2.unit = env.unit from h₂.unit] at h₃
    refine Yields.pure (.plain h ⟨h₂.inScope, h₃.1⟩ ?_)
    have hissued : Issued env.unit s.next s₂.next (Declared.block b.1) :=
      (Issued.nothing h₁).append h₂.issued
    exact hissued.append h₃.2
  | numericFor n initial limit step b span =>
    rw [statement]
    refine (expression_situated h initial (hpart (by simp [Syntax.Statement.parts])) s).bind
      fun initial s₁ h₁ => ?_
    refine (expression_situated h limit (hpart (by simp [Syntax.Statement.parts])) s₁).bind
      fun limit s₂ h₂ => ?_
    have hword : n.IsWord := (hpart (by simp [Syntax.Statement.parts])).name
    have hloop (step : Expression) (s₃ : Supply) (h₃ : Occurs.expression InScope visible step ∧
          Issued env.unit s₂.next s₃.next (Declared.expression step)) :
        Yields s₃
          (do
            let exit ← newExit env.unit
            let id ← fresh env.unit
            let b ← block ((env.inLoop exit).declares [Local.plain id n.text]) b
            return (Statement.numericFor (Local.plain id n.text) initial limit step b.1 exit, env))
          fun a s' => Situated env visible s ([a.1], a.2) s' := by
      refine (newExit_next env.unit s₃).bind fun exit s₄ h₄ => ?_
      refine (fresh_yields env.unit s₄).bind ?_
      rintro _ s₅ ⟨rfl, hs₅⟩
      have h₅ : Issued env.unit s₄.next s₅.next
          [Local.plain (.declared env.unit s₄.next) n.text] :=
        hs₅ ▸ .one rfl (sharp_notMem_word hword)
      refine (block_situated ((h.inLoop exit).declares _) b
        (hpart (by simp [Syntax.Statement.parts])) s₅).bind fun b s₆ h₆ => ?_
      refine Yields.pure (.plain h ⟨h₁.1, h₂.1, h₃.1, h₆.inScope⟩ ?_)
      simpa using (((h₁.2.append h₂.2).append h₃.2).append (.nothing h₄)).append
        (h₅.append h₆.issued)
    cases step with
    | none => exact hloop (.integer 1) s₂ ⟨trivial, .nothing (Nat.le_refl _)⟩
    | some step =>
      refine (expression_situated h step (hpart (by simp [Syntax.Statement.parts])) s₂).bind ?_
      exact hloop
  | genericFor ns vs b span =>
    rw [statement]
    refine (expressions_situated h vs (fun e he => hpart (by simp [Syntax.Statement.parts, he]))
      s).bind fun vs s₁ h₁ => ?_
    refine (newExit_next env.unit s₁).bind fun exit s₂ h₂ => ?_
    have hwords : ∀ name ∈ ns.map Syntax.Name.text, '#' ∉ name.toList := by
      rw [List.forall_mem_map]
      exact fun n hn => sharp_notMem_word (hpart (by simp [Syntax.Statement.parts, hn])).name
    refine (declareAll_issues env.unit hwords s₂).bind fun symbols s₃ h₃ => ?_
    refine (block_situated ((h.inLoop exit).declares symbols) b
      (hpart (by simp [Syntax.Statement.parts])) s₃).bind fun b s₄ h₄ => ?_
    refine Yields.pure (.plain h ⟨h₁.1, h₄.inScope⟩ ?_)
    simpa using ((h₁.2.append (.nothing h₂)).append h₃).append h₄.issued
  | doBlock b span =>
    rw [statement]
    refine (block_situated h b (hpart (by simp [Syntax.Statement.parts])) s).bind
      fun b s₁ h₁ => ?_
    exact Yields.pure (.plain h h₁.inScope h₁.issued)
  | breakLoop span =>
    rw [statement]
    refine Yields.pure ?_
    cases env.exit <;> exact .plain h trivial (.nothing (Nat.le_refl _))
  | goto n span =>
    rw [statement]
    refine Yields.pure ?_
    cases env.label? n.text <;> exact .plain h trivial (.nothing (Nat.le_refl _))
  | label n span => exact .plain h trivial (.nothing (Nat.le_refl _))
  | function f body span =>
    rw [statement]
    cases htarget : env.functionTarget? f with
    | none => exact Yields.pure (.plain h trivial (.nothing (Nat.le_refl _)))
    | some target =>
      refine (functionBody_situated h f.method.isSome body
        (hpart (by simp [Syntax.Statement.parts])) s).bind ?_
      rintro value s₁ ⟨parameters, b, -, h₁⟩
      refine Yields.pure (.plain h ⟨⟨h.functionTarget? htarget, trivial⟩, h₁.1, trivial⟩ ?_)
      simpa [declared_functionTarget? htarget] using h₁.2
  | localFunction n body span =>
    rw [statement]
    refine (fresh_yields env.unit s).bind ?_
    rintro _ s₁ ⟨rfl, hs₁⟩
    have hword : n.IsWord := (hpart (by simp [Syntax.Statement.parts])).name
    have h₁ : Issued env.unit s.next s₁.next [Local.plain (.declared env.unit s.next) n.text] :=
      hs₁ ▸ .one rfl (sharp_notMem_word hword)
    have hinner := h.declares [Local.plain (.declared env.unit s.next) n.text]
    refine (functionBody_situated hinner false body (hpart (by simp [Syntax.Statement.parts]))
      s₁).bind ?_
    rintro _ s₂ ⟨parameters, b, rfl, h₂⟩
    refine Yields.pure ⟨⟨⟨h₂.1, trivial⟩, trivial⟩, ?_, ?_, rfl⟩
    · simpa using h₁.append h₂.2
    · simpa [Statement.locals] using hinner

end

/-- The variables of a program are in scope, and numbered from the environment on. -/
theorem program_situated {b : Syntax.Block} (ht : Worded (.block b)) (unit : Nat) :
    Occurs.block InScope [(Env.ofUnit unit).environment] (program unit b) ∧
      ∃ hi, Issued unit 0 hi
        ((Env.ofUnit unit).environment :: Declared.block (program unit b)) := by
  have henv : (Env.ofUnit unit).Shows [(Env.ofUnit unit).environment] :=
    ⟨fun _ hl => hl, by simp⟩
  have h := block_situated henv b ht ⟨1, 0⟩
  have hword : '#' ∉ environmentName.toList := by decide
  have hroot : Issued unit 0 1 [(Env.ofUnit unit).environment] := .one rfl hword
  exact ⟨h.inScope, _, hroot.append h.issued⟩

end Lexical
end Resolved
end LuaFront
