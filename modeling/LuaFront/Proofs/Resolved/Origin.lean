import LuaFront.Proofs.Resolved.Labels
import LuaFront.Proofs.Resolved.Scoping
import Mathlib.Algebra.Group.Pi.Basic
import Mathlib.Algebra.GroupWithZero.Nat
import Mathlib.Tactic.SplitIfs
import Mathlib.Tactic.Tauto

/-!
# LuaFront.Proofs.Resolved.Origin

Where the labels of a resolved program come from.

* `Label.Bound`: a label is written in the text, or is the end of a loop.
* `Spent extra lo hi own inner`: the labels `own`, and those in the function bodies `inner`, have
  the numbers from `lo` to `hi` and those that `extra` grants, each at most once.
* `Lexical.program_placed`: so it is with the labels of a whole program, and every jump of each of
  its functions is to a place that its scope grants.
-/

namespace LuaFront
namespace Resolved

open Syntax (Node labelNames)
open Lexical (Env Supply Numbered)

/-! ## Counting labels -/

/-- How many of some labels are one symbol. -/
def occurrences (id : SymbolId) (ls : List Label) : Nat := ls.countP (·.id = id)

@[simp]
theorem occurrences_nil (id : SymbolId) : occurrences id [] = 0 := rfl

@[simp]
theorem occurrences_append (id : SymbolId) (a b : List Label) :
    occurrences id (a ++ b) = occurrences id a + occurrences id b := List.countP_append

theorem occurrences_cons (id : SymbolId) (l : Label) (ls : List Label) :
    occurrences id (l :: ls) = (if l.id = id then 1 else 0) + occurrences id ls := by
  simp [occurrences, List.countP_cons, Nat.add_comm]

/-- One for the numbers of a range, and zero for all others. -/
def between (lo hi k : Nat) : Nat := if lo ≤ k ∧ k < hi then 1 else 0

theorem between_self (n : Nat) : between n n = 0 := by
  funext k
  exact if_neg (by omega)

theorem between_add {lo mid hi : Nat} (h₁ : lo ≤ mid) (h₂ : mid ≤ hi) :
    between lo mid + between mid hi = between lo hi := by
  funext k
  simp only [between, Pi.add_apply]
  split_ifs <;> omega

theorem between_le_one (lo hi k : Nat) : between lo hi k ≤ 1 := by
  unfold between
  split_ifs <;> omega

/-- A label as resolving names makes it. -/
inductive Label.Bound (unit : Nat) : Label → Prop where
  | written {k : Nat} {n : Syntax.Name} : n.IsWord → Bound unit ⟨.declared unit k, n.text⟩
  | exit (k n : Nat) : Bound unit ⟨.declared unit k, s!"break#{n}"⟩

theorem Label.Bound.id_eq {unit : Nat} {l : Label} (h : l.Bound unit) :
    ∃ k, l.id = .declared unit k := by
  cases h with
  | written => exact ⟨_, rfl⟩
  | exit k n => exact ⟨k, rfl⟩

/-- The labels of a body and of the bodies in it. -/
def marksOf (own : List Label) (inner : List Block) : List Label := own ++ inner.flatMap Block.marks

theorem occurrences_marksOf_append (id : SymbolId) (a b : List Label) (fs gs : List Block) :
    occurrences id (marksOf (a ++ b) (fs ++ gs)) =
      occurrences id (marksOf a fs) + occurrences id (marksOf b gs) := by
  simp only [marksOf, List.flatMap_append, occurrences_append]
  omega

theorem mem_marksOf_append {l : Label} {a b : List Label} {fs gs : List Block} :
    l ∈ marksOf (a ++ b) (fs ++ gs) ↔ l ∈ marksOf a fs ∨ l ∈ marksOf b gs := by
  simp only [marksOf, List.flatMap_append, List.mem_append]
  tauto

structure Spent (unit : Nat) (extra : Nat → Nat) (lo hi : Nat) (own : List Label)
    (inner : List Block) : Prop where
  le : lo ≤ hi
  count : ∀ k, occurrences (.declared unit k) (marksOf own inner) ≤ extra k + between lo hi k
  bound : ∀ l ∈ marksOf own inner, l.Bound unit
  inScope : ∀ f ∈ inner, Scoped.block [] f

namespace Spent

variable {unit lo mid hi : Nat} {e e' : Nat → Nat} {a b : List Label} {fs gs : List Block}

theorem nothing (h : lo ≤ hi) : Spent unit 0 lo hi [] [] :=
  ⟨h, by simp [marksOf], by simp [marksOf], by simp⟩

/-- One part behind the other. -/
theorem append (h : Spent unit e lo mid a fs) (h' : Spent unit e' mid hi b gs) :
    Spent unit (e + e') lo hi (a ++ b) (fs ++ gs) where
  le := Nat.le_trans h.le h'.le
  count := by
    intro k
    rw [occurrences_marksOf_append, ← between_add h.le h'.le]
    have h₁ := h.count k
    have h₂ := h'.count k
    simp only [Pi.add_apply]
    omega
  bound l hl := (mem_marksOf_append.1 hl).elim (h.bound l) (h'.bound l)
  inScope f hf := (List.mem_append.1 hf).elim (h.inScope f) (h'.inScope f)

theorem andThen (h : Spent unit 0 lo mid a fs) (h' : Spent unit 0 mid hi b gs) :
    Spent unit 0 lo hi (a ++ b) (fs ++ gs) :=
  h.append h'

theorem exit (k n : Nat) :
    Spent unit 0 k (k + 1) [⟨.declared unit k, s!"break#{n}"⟩] [] where
  le := Nat.le_succ k
  count i := by
    simp only [marksOf, List.flatMap_nil, List.append_nil, occurrences_cons, occurrences_nil,
      between, SymbolId.declared.injEq, Pi.zero_apply]
    split_ifs <;> omega
  bound := by simpa [marksOf] using Label.Bound.exit k n
  inScope := by simp

/-- The numbers that were set aside are used. -/
theorem reserved (hle : lo ≤ mid) (h : Spent unit (between lo mid) mid hi a fs) :
    Spent unit 0 lo hi a fs where
  le := Nat.le_trans hle h.le
  count := by
    intro k
    rw [Pi.zero_apply, Nat.zero_add, ← between_add hle h.le]
    exact h.count k
  bound := h.bound
  inScope := h.inScope

/-- The labels of a function belong to it, and not to what is around it. -/
theorem function {f : Block} (h : Spent unit 0 lo hi f.marks (Bodies.block f))
    (hscoped : Scoped.block [] f) : Spent unit 0 lo hi [] (f :: Bodies.block f) where
  le := h.le
  count := h.count
  bound := h.bound
  inScope := List.forall_mem_cons.2 ⟨hscoped, h.inScope⟩

end Spent

/-! ## Work with a counter -/

/-- Work that ends so that `Q` holds of its result and the state it has come to. -/
def Yields {σ α : Type} (s : σ) (m : StateM σ α) (Q : α → σ → Prop) : Prop :=
  Q (m.run s).1 (m.run s).2

section

variable {σ α β : Type} {s : σ} {m : StateM σ α} {Q : α → σ → Prop}

theorem Yields.bind {k : α → StateM σ β} {R : β → σ → Prop} (h : Yields s m Q)
    (hnext : ∀ a s', Q a s' → Yields s' (k a) R) : Yields s (m >>= k) R :=
  hnext _ _ h

theorem Yields.pure {a : α} (h : Q a s) : Yields s (pure a) Q := h

theorem Yields.imp {R : α → σ → Prop} (h : Yields s m Q) (himp : ∀ a s', Q a s' → R a s') :
    Yields s m R :=
  himp _ _ h

end

/-! ## What static scoping grants -/

namespace Lexical
namespace Env

/-- All that can be jumped to from a place is among these labels. -/
structure Grants (env : Env) (visible : List Label) : Prop where
  blocks : ∀ ls ∈ env.blocks, ls ⊆ visible
  exit : ∀ l ∈ env.exit, l ∈ visible

/-- At most other variables are visible. -/
structure SameJumps (env env' : Env) : Prop where
  unit : env'.unit = env.unit
  blocks : env'.blocks = env.blocks
  exit : env'.exit = env.exit

variable {env env' env'' : Env} {visible : List Label}

theorem SameJumps.refl (env : Env) : SameJumps env env := ⟨rfl, rfl, rfl⟩

theorem SameJumps.trans (h : SameJumps env env') (h' : SameJumps env' env'') :
    SameJumps env env'' :=
  ⟨h'.unit.trans h.unit, h'.blocks.trans h.blocks, h'.exit.trans h.exit⟩

theorem SameJumps.grants (h : SameJumps env env') (hg : env.Grants visible) :
    env'.Grants visible :=
  ⟨h.blocks ▸ hg.blocks, h.exit ▸ hg.exit⟩

theorem sameJumps_declares (env : Env) (symbols : List Local) :
    SameJumps env (env.declares symbols) :=
  ⟨rfl, rfl, rfl⟩

theorem Grants.inBlock (h : env.Grants visible) (labels : List Label) :
    (env.inBlock labels).Grants (labels ++ visible) where
  blocks := by
    refine List.forall_mem_cons.2 ⟨List.subset_append_left .., fun ls hls => ?_⟩
    exact List.subset_append_of_subset_right _ (h.blocks ls hls)
  exit l hl := List.mem_append_right _ (h.exit l hl)

theorem Grants.inLoop (h : env.Grants visible) (exit : Label) :
    (env.inLoop exit).Grants (exit :: visible) where
  blocks ls hls := List.subset_cons_of_subset _ (h.blocks ls hls)
  exit := by simp [Env.inLoop]

theorem grants_inFunction (env : Env) (vararg : Bool) : (env.inFunction vararg).Grants [] :=
  ⟨by simp [inFunction], by simp [inFunction]⟩

theorem Grants.label? (h : env.Grants visible) {name : String} {l : Label}
    (hl : env.label? name = some l) : l ∈ visible := by
  obtain ⟨ls, hls, hfind⟩ := List.exists_of_findSome?_eq_some hl
  exact h.blocks ls hls (List.mem_of_find?_eq_some hfind)

theorem bodies_name (env : Env) (n : Syntax.Name) : Bodies.expression (env.name n) = [] := by
  unfold Env.name
  split <;> simp [Bodies.expression, Expression.string]

theorem bodies_functionTarget? {f : Syntax.FunctionName} {target : Expression}
    (h : env.functionTarget? f = some target) : Bodies.expression target = [] := by
  have hkeys (keys : List Syntax.Name) (e : Expression) (he : Bodies.expression e = []) :
      Bodies.expression (keys.foldl (fun e key => .index e (.string key.text)) e) = [] := by
    induction keys generalizing e with
    | nil => exact he
    | cons key later ih => exact ih _ (by simp [Bodies.expression, he, Expression.string])
  unfold functionTarget? at h
  split at h
  · cases h
  · cases h
    exact hkeys _ _ (bodies_name env _)

end Env

/-! ## Numbering -/

theorem fresh_yields (unit : Nat) (s : Supply) :
    Yields s (fresh unit) fun id s' => id = .declared unit s.next ∧ s'.next = s.next + 1 :=
  ⟨rfl, rfl⟩

theorem declareAll_yields (unit : Nat) (names : List String) (s : Supply) :
    Yields s (declareAll unit names) fun _ s' => s.next ≤ s'.next := by
  induction names generalizing s with
  | nil => exact Nat.le_refl _
  | cons n later ih =>
    rw [declareAll]
    refine (fresh_yields unit s).bind fun id s₁ h₁ => (ih s₁).bind fun symbols s₂ h₂ => ?_
    exact Yields.pure (by omega)

theorem declared_yields (unit : Nat) (ds : List Syntax.LocalDeclaration) (s : Supply) :
    Yields s (declared unit ds) fun _ s' => s.next ≤ s'.next := by
  induction ds generalizing s with
  | nil => exact Nat.le_refl _
  | cons d later ih =>
    rw [declared]
    refine (fresh_yields unit s).bind fun id s₁ h₁ => (ih s₁).bind fun symbols s₂ h₂ => ?_
    exact Yields.pure (by omega)

theorem newExit_yields (unit : Nat) (s : Supply) :
    Yields s (newExit unit) fun exit s' => Spent unit 0 s.next s'.next [exit] [] :=
  Spent.exit s.next (s.loops + 1)

theorem reserve_yields (count : Nat) (s : Supply) :
    Yields s (reserve count) fun first s' => first = s.next ∧ s'.next = s.next + count :=
  ⟨rfl, rfl⟩

theorem labelsFrom_append (unit first : Nat) (a b : List Syntax.Name) :
    labelsFrom unit first (a ++ b) =
      labelsFrom unit first a ++ labelsFrom unit (first + a.length) b := by
  induction a generalizing first with
  | nil => rfl
  | cons n later ih => simp [labelsFrom, ih, Nat.add_right_comm, Nat.add_assoc]

/-! ## Every construct -/

/-- What has become of a block. -/
structure Placed (env : Env) (visible : List Label) (s : Supply) (a : Block × Env) (s' : Supply) :
    Prop where
  spent : Spent env.unit 0 s.next s'.next a.1.marks (Bodies.block a.1)
  inScope : Scoped.block visible a.1
  unit : a.2.unit = env.unit

/-- What has become of statements with labels of these names, which are numbered from `number`
on. -/
structure Standing (env : Env) (visible : List Label) (number : Nat) (names : List Syntax.Name)
    (s : Supply) (a : Block × Env) (s' : Supply) : Prop where
  spent : Spent env.unit (between number (number + names.length)) s.next s'.next a.1.marks
    (Bodies.block a.1)
  heads : a.1.heads = labelsFrom env.unit number names
  inScope : Scoped.list visible a.1
  same : env.SameJumps a.2

/-- A block ends with the results of its function. -/
theorem Placed.result {env : Env} {visible : List Label} {s s' s'' : Supply} {a : Block × Env}
    {values : List Expression} (h : Placed env visible s a s')
    (hvalues : Spent env.unit 0 s'.next s''.next [] (Bodies.expressions values)) :
    Placed env visible s (a.1 ++ [.result values], a.2) s'' where
  spent := by
    simpa [Statement.marks]
      using h.spent.andThen hvalues
  inScope := by
    have hheads : Block.heads (a.1 ++ [.result values]) = a.1.heads := by
      simp [Block.heads, Statement.labels]
    rw [Scoped.block, hheads]
    exact Scoped.list_append.2 ⟨h.inScope, trivial, trivial⟩
  unit := h.unit

namespace Standing

variable {env env' : Env} {visible : List Label} {number : Nat} {s s' s'' : Supply}

theorem nil (env : Env) (visible : List Label) (number : Nat) (s : Supply) :
    Standing env visible number [] s ([], env) s where
  spent := by
    rw [List.length_nil, Nat.add_zero, between_self]
    exact .nothing (Nat.le_refl _)
  heads := rfl
  inScope := trivial
  same := .refl env

/-- A statement that is no label. -/
theorem plain {a : Statement} (hspent : Spent env.unit 0 s.next s'.next (Block.marks [a])
      (Bodies.statement a)) (hscoped : Scoped.statement visible a) (hlabel : a.labels = [])
    (hsame : env.SameJumps env') : Standing env visible number [] s ([a], env') s' where
  spent := by
    rw [List.length_nil, Nat.add_zero, between_self]
    simpa using hspent
  heads := by simp [Block.heads, hlabel, labelsFrom]
  inScope := ⟨hscoped, trivial⟩
  same := hsame

theorem label {n : Syntax.Name} (hword : n.IsWord) :
    Standing env visible number [n] s ([.label ⟨.declared env.unit number, n.text⟩], env) s where
  spent := by
    refine ⟨Nat.le_refl _, fun k => ?_, ?_, by simp⟩
    · simp only [marksOf, Block.marks, Spine.block, Spine.statement, Bodies.block, Bodies.statement,
        Statement.marks, List.flatMap_cons, List.flatMap_nil, List.append_nil, occurrences_cons,
        occurrences_nil, between, SymbolId.declared.injEq, List.length_singleton]
      split_ifs <;> omega
    · simpa [marksOf, Statement.marks] using Label.Bound.written hword
  heads := rfl
  inScope := ⟨trivial, trivial⟩
  same := .refl env

theorem append {ns ns' : List Syntax.Name} {a b : Block} {env'' : Env}
    (h : Standing env visible number ns s (a, env') s')
    (h' : Standing env' visible (number + ns.length) ns' s' (b, env'') s'') :
    Standing env visible number (ns ++ ns') s (a ++ b, env'') s'' where
  spent := by
    have hspent := h.same.unit ▸ h'.spent
    have happ := h.spent.append hspent
    rw [between_add (Nat.le_add_right ..) (Nat.le_add_right ..)] at happ
    simpa [Nat.add_assoc] using happ
  heads := by
    have hheads := h.same.unit ▸ h'.heads
    rw [Block.heads_append, h.heads, hheads, labelsFrom_append]
  inScope := Scoped.list_append.2 ⟨h.inScope, h'.inScope⟩
  same := h.same.trans h'.same

/-- The labels of the statements of a block are those that numbers were set aside for. -/
theorem placed {names : List Syntax.Name} {a : Block × Env}
    (h : Standing (env.inBlock (labelsFrom env.unit s.next names))
      (labelsFrom env.unit s.next names ++ visible) s.next names s' a s'')
    (hs : s'.next = s.next + names.length) : Placed env visible s a s'' where
  spent := by
    have hspent := h.spent
    rw [← hs] at hspent
    exact hspent.reserved (by omega)
  inScope := by
    rw [Scoped.block, h.heads]
    exact h.inScope
  unit := h.same.unit

end Standing

mutual

theorem expression_spends (env : Env) (e : Syntax.Expression) (ht : (Node.expression e).Tidy)
    (s : Supply) :
    Yields s (expression env e) fun a s' =>
      Spent env.unit 0 s.next s'.next [] (Bodies.expression a) := by
  rw [Node.tidy_expression] at ht
  cases e with
  | literal value span => exact .nothing (Nat.le_refl _)
  | name n =>
    rw [expression]
    exact Yields.pure (env.bodies_name n ▸ .nothing (Nat.le_refl _))
  | vararg span =>
    rw [expression]
    refine Yields.pure ?_
    split <;> exact .nothing (Nat.le_refl _)
  | function body span =>
    rw [expression]
    exact functionBody_spends env false body (ht _ (by simp [Syntax.Expression.parts])) s
  | table fields span =>
    rw [expression]
    refine (tableFields_spends env 0 fields
      (fun f hf => ht _ (by simp [Syntax.Expression.parts, hf])) s).bind fun fs s₁ h₁ => ?_
    exact Yields.pure h₁
  | unary op operand span =>
    rw [expression]
    refine (expression_spends env operand (ht _ (by simp [Syntax.Expression.parts])) s).bind
      fun a s₁ h₁ => ?_
    exact Yields.pure h₁
  | binary left op right span =>
    rw [expression]
    refine (expression_spends env left (ht _ (by simp [Syntax.Expression.parts])) s).bind
      fun a s₁ h₁ => ?_
    refine (expression_spends env right (ht _ (by simp [Syntax.Expression.parts])) s₁).bind
      fun b s₂ h₂ => ?_
    exact Yields.pure (h₁.andThen h₂)
  | parenthesized inner span =>
    rw [expression]
    refine (expression_spends env inner (ht _ (by simp [Syntax.Expression.parts])) s).bind
      fun a s₁ h₁ => ?_
    exact Yields.pure h₁
  | call receiver method arguments span =>
    rw [expression]
    refine (expression_spends env receiver (ht _ (by simp [Syntax.Expression.parts])) s).bind
      fun a s₁ h₁ => ?_
    refine (expressions_spends env arguments
      (fun e he => ht _ (by simp [Syntax.Expression.parts, he])) s₁).bind fun as s₂ h₂ => ?_
    exact Yields.pure (h₁.andThen h₂)
  | index target index span =>
    rw [expression]
    refine (expression_spends env target (ht _ (by simp [Syntax.Expression.parts])) s).bind
      fun a s₁ h₁ => ?_
    refine (expression_spends env index (ht _ (by simp [Syntax.Expression.parts])) s₁).bind
      fun b s₂ h₂ => ?_
    exact Yields.pure (h₁.andThen h₂)
  | dotted target key span =>
    rw [expression]
    refine (expression_spends env target (ht _ (by simp [Syntax.Expression.parts])) s).bind
      fun a s₁ h₁ => ?_
    exact Yields.pure (by simpa [Bodies.expression, Expression.string] using h₁)

theorem expressions_spends (env : Env) (es : List Syntax.Expression)
    (ht : ∀ e ∈ es, (Node.expression e).Tidy) (s : Supply) :
    Yields s (expressions env es) fun a s' =>
      Spent env.unit 0 s.next s'.next [] (Bodies.expressions a) := by
  cases es with
  | nil => exact .nothing (Nat.le_refl _)
  | cons e later =>
    rw [List.forall_mem_cons] at ht
    rw [expressions]
    refine (expression_spends env e ht.1 s).bind fun a s₁ h₁ => ?_
    refine (expressions_spends env later ht.2 s₁).bind fun as s₂ h₂ => ?_
    exact Yields.pure (h₁.andThen h₂)

theorem tableFields_spends (env : Env) (position : Nat) (fs : List Syntax.Field)
    (ht : ∀ f ∈ fs, (Node.field f).Tidy) (s : Supply) :
    Yields s (tableFields env position fs) fun a s' =>
      Spent env.unit 0 s.next s'.next [] (Bodies.fields a) := by
  cases fs with
  | nil => exact .nothing (Nat.le_refl _)
  | cons f later =>
    rw [List.forall_mem_cons, Node.tidy_field] at ht
    obtain ⟨ht, hlater⟩ := ht
    cases f with
    | positional value span =>
      rw [tableFields]
      refine (expression_spends env value (ht _ (by simp [Syntax.Field.parts])) s).bind
        fun a s₁ h₁ => ?_
      refine (tableFields_spends env (position + 1) later hlater s₁).bind fun as s₂ h₂ => ?_
      exact Yields.pure (h₁.andThen h₂)
    | named key value span =>
      rw [tableFields]
      refine (expression_spends env value (ht _ (by simp [Syntax.Field.parts])) s).bind
        fun a s₁ h₁ => ?_
      refine (tableFields_spends env position later hlater s₁).bind fun as s₂ h₂ => ?_
      exact Yields.pure (h₁.andThen h₂)
    | keyed key value span =>
      rw [tableFields]
      refine (expression_spends env key (ht _ (by simp [Syntax.Field.parts])) s).bind
        fun a s₁ h₁ => ?_
      refine (expression_spends env value (ht _ (by simp [Syntax.Field.parts])) s₁).bind
        fun b s₂ h₂ => ?_
      refine (tableFields_spends env position later hlater s₂).bind fun as s₃ h₃ => ?_
      exact Yields.pure ((h₁.andThen h₂).andThen h₃)

theorem functionBody_spends (env : Env) (method : Bool) (f : Syntax.FunctionBody)
    (ht : (Node.functionBody f).Tidy) (s : Supply) :
    Yields s (functionBody env method f) fun a s' =>
      Spent env.unit 0 s.next s'.next [] (Bodies.expression a) := by
  obtain ⟨parameters, vararg, body, span⟩ := f
  rw [Node.tidy_functionBody] at ht
  rw [functionBody]
  refine (declareAll_yields _ _ s).bind fun symbols s₁ h₁ => ?_
  have hg := (Env.sameJumps_declares _ symbols).grants (env.grants_inFunction vararg)
  refine (block_placed _ body ht [] hg s₁).bind fun b s₂ h₂ => ?_
  exact Yields.pure ((Spent.nothing h₁).andThen (h₂.spent.function h₂.inScope))

theorem block_placed (env : Env) (b : Syntax.Block) (ht : (Node.block b).Tidy)
    (visible : List Label) (hg : env.Grants visible) (s : Supply) :
    Yields s (block env b) (Placed env visible s) := by
  obtain ⟨body, result, span⟩ := b
  obtain ⟨⟨-, hwords⟩, ht⟩ := Node.tidy_iff.1 ht
  rw [block]
  refine (reserve_yields _ s).bind fun first s₁ h₁ => ?_
  obtain ⟨rfl, hnext⟩ := h₁
  refine (statements_standing _ body (fun x hx => ht _ (by simp [Node.children, Syntax.Block.parts, hx]))
    hwords _ (hg.inBlock _) s.next s₁).bind fun a s₂ h₂ => ?_
  have hplaced := h₂.placed hnext
  cases result with
  | none => exact Yields.pure hplaced
  | some r =>
    obtain ⟨values, rspan⟩ := r
    have hvalues := Node.tidy_result.1 (ht (.result ⟨values, rspan⟩)
      (by simp [Node.children, Syntax.Block.parts]))
    refine (expressions_spends a.2 values hvalues s₂).bind fun vs s₃ h₃ => ?_
    exact Yields.pure (hplaced.result (hplaced.unit ▸ h₃))

theorem statements_standing (env : Env) (body : List Syntax.Statement)
    (ht : ∀ x ∈ body, (Node.statement x).Tidy) (hwords : ∀ n ∈ labelNames body, n.IsWord)
    (visible : List Label) (hg : env.Grants visible) (number : Nat) (s : Supply) :
    Yields s (statements env number body)
      (Standing env visible number (labelNames body) s) := by
  cases body with
  | nil => exact .nil env visible number s
  | cons x later =>
    rw [List.forall_mem_cons] at ht
    rw [show x :: later = [x] ++ later from rfl, Syntax.labelNames_append, List.forall_mem_append]
      at hwords
    rw [statements]
    refine (statement_standing env x ht.1 hwords.1 visible hg number s).bind fun a s₁ h₁ => ?_
    refine (statements_standing a.2 later ht.2 hwords.2 visible (h₁.same.grants hg) _ s₁).bind
      fun as s₂ h₂ => ?_
    rw [show x :: later = [x] ++ later from rfl, Syntax.labelNames_append]
    exact Yields.pure (h₁.append h₂)

theorem statement_standing (env : Env) (x : Syntax.Statement) (ht : (Node.statement x).Tidy)
    (hwords : ∀ n ∈ labelNames [x], n.IsWord) (visible : List Label) (hg : env.Grants visible)
    (number : Nat) (s : Supply) :
    Yields s (statement env number x) fun a s' =>
      Standing env visible number (labelNames [x]) s ([a.1], a.2) s' := by
  rw [Node.tidy_statement] at ht
  cases x with
  | assign ts vs span =>
    rw [statement]
    refine (expressions_spends env ts (fun e he => ht _ (by simp [Syntax.Statement.parts, he]))
      s).bind fun ts s₁ h₁ => ?_
    refine (expressions_spends env vs (fun e he => ht _ (by simp [Syntax.Statement.parts, he]))
      s₁).bind fun vs s₂ h₂ => ?_
    exact Yields.pure (.plain (h₁.andThen h₂) trivial rfl (.refl env))
  | declare ds vs span =>
    rw [statement]
    refine (expressions_spends env vs (fun e he => ht _ (by simp [Syntax.Statement.parts, he]))
      s).bind fun vs s₁ h₁ => ?_
    refine (declared_yields env.unit ds s₁).bind fun symbols s₂ h₂ => ?_
    have hspent := h₁.andThen (.nothing h₂)
    simp only [List.append_nil] at hspent
    exact Yields.pure (.plain hspent trivial rfl (env.sameJumps_declares symbols))
  | call e span =>
    rw [statement]
    refine (expression_spends env e (ht _ (by simp [Syntax.Statement.parts])) s).bind
      fun e s₁ h₁ => ?_
    exact Yields.pure (.plain h₁ trivial rfl (.refl env))
  | ifThen c b es o span =>
    rw [statement]
    refine (expression_spends env c (ht _ (by simp [Syntax.Statement.parts])) s).bind
      fun c s₁ h₁ => ?_
    refine (block_placed env b (ht _ (by simp [Syntax.Statement.parts])) visible hg s₁).bind
      fun b s₂ h₂ => ?_
    refine (elseIfs_placed env es (fun e he => ht _ (by simp [Syntax.Statement.parts, he]))
      visible hg s₂).bind fun es s₃ h₃ => ?_
    have hspent := (h₁.andThen h₂.spent).andThen h₃.1
    cases o with
    | none =>
      refine Yields.pure (.plain ?_ ⟨h₂.inScope, h₃.2, trivial⟩ rfl (.refl env))
      simpa [Block.marks, Statement.marks] using hspent
    | some o =>
      have ho := Node.tidy_otherwise.1 (ht (.otherwise o) (by simp [Syntax.Statement.parts]))
      refine (block_placed env o ho visible hg s₃).bind fun o s₄ h₄ => ?_
      refine Yields.pure (.plain ?_ ⟨h₂.inScope, h₃.2, h₄.inScope⟩ rfl (.refl env))
      simpa [Block.marks, Statement.marks] using hspent.andThen h₄.spent
  | whileDo c b span =>
    rw [statement]
    refine (expression_spends env c (ht _ (by simp [Syntax.Statement.parts])) s).bind
      fun c s₁ h₁ => ?_
    refine (newExit_yields env.unit s₁).bind fun exit s₂ h₂ => ?_
    refine (block_placed (env.inLoop exit) b (ht _ (by simp [Syntax.Statement.parts])) _
      (hg.inLoop exit) s₂).bind fun b s₃ h₃ => ?_
    refine Yields.pure (.plain ?_ h₃.inScope rfl (.refl env))
    simpa [Block.marks, Statement.marks]
      using (h₁.andThen h₂).andThen h₃.spent
  | repeatUntil b c span =>
    rw [statement]
    refine (newExit_yields env.unit s).bind fun exit s₁ h₁ => ?_
    refine (block_placed (env.inLoop exit) b (ht _ (by simp [Syntax.Statement.parts])) _
      (hg.inLoop exit) s₁).bind fun b s₂ h₂ => ?_
    refine (expression_spends b.2 c (ht _ (by simp [Syntax.Statement.parts])) s₂).bind
      fun c s₃ h₃ => ?_
    rw [show b.2.unit = env.unit from h₂.unit] at h₃
    refine Yields.pure (.plain ?_ h₂.inScope rfl (.refl env))
    simpa [Block.marks, Statement.marks]
      using (h₁.andThen h₂.spent).andThen h₃
  | numericFor n initial limit step b span =>
    rw [statement]
    refine (expression_spends env initial (ht _ (by simp [Syntax.Statement.parts])) s).bind
      fun initial s₁ h₁ => ?_
    refine (expression_spends env limit (ht _ (by simp [Syntax.Statement.parts])) s₁).bind
      fun limit s₂ h₂ => ?_
    have hloop (step : Expression) (s₃ : Supply)
        (h₃ : Spent env.unit 0 s₂.next s₃.next [] (Bodies.expression step)) :
        Yields s₃
          (do
            let exit ← newExit env.unit
            let id ← fresh env.unit
            let b ← block ((env.inLoop exit).declares [Local.plain id n.text]) b
            return (Statement.numericFor (Local.plain id n.text) initial limit step b.1 exit, env))
          fun a s' => Standing env visible number [] s ([a.1], a.2) s' := by
      refine (newExit_yields env.unit s₃).bind fun exit s₄ h₄ => ?_
      refine (fresh_yields env.unit s₄).bind fun id s₅ h₅ => ?_
      have hg' := (Env.sameJumps_declares _ [Local.plain id n.text]).grants (hg.inLoop exit)
      refine (block_placed _ b (ht _ (by simp [Syntax.Statement.parts])) _ hg' s₅).bind
        fun b s₆ h₆ => ?_
      have hnext : s₄.next ≤ s₅.next := by omega
      refine Yields.pure (.plain ?_ h₆.inScope rfl (.refl env))
      simpa [Block.marks, Statement.marks]
        using ((((h₁.andThen h₂).andThen h₃).andThen h₄).andThen (.nothing hnext)).andThen h₆.spent
    cases step with
    | none => exact hloop (.integer 1) s₂ (.nothing (Nat.le_refl _))
    | some step =>
      refine (expression_spends env step (ht _ (by simp [Syntax.Statement.parts])) s₂).bind ?_
      exact hloop
  | genericFor ns vs b span =>
    rw [statement]
    refine (expressions_spends env vs (fun e he => ht _ (by simp [Syntax.Statement.parts, he]))
      s).bind fun vs s₁ h₁ => ?_
    refine (newExit_yields env.unit s₁).bind fun exit s₂ h₂ => ?_
    refine (declareAll_yields env.unit _ s₂).bind fun symbols s₃ h₃ => ?_
    have hg' := (Env.sameJumps_declares _ symbols).grants (hg.inLoop exit)
    refine (block_placed _ b (ht _ (by simp [Syntax.Statement.parts])) _ hg' s₃).bind
      fun b s₄ h₄ => ?_
    refine Yields.pure (.plain ?_ h₄.inScope rfl (.refl env))
    simpa [Block.marks, Statement.marks]
      using ((h₁.andThen h₂).andThen (.nothing h₃)).andThen h₄.spent
  | doBlock b span =>
    rw [statement]
    refine (block_placed env b (ht _ (by simp [Syntax.Statement.parts])) visible hg s).bind
      fun b s₁ h₁ => ?_
    refine Yields.pure (.plain ?_ h₁.inScope rfl (.refl env))
    simpa [Block.marks, Statement.marks]
      using h₁.spent
  | breakLoop span =>
    rw [statement]
    refine Yields.pure ?_
    cases hexit : env.exit with
    | none => exact .plain (.nothing (Nat.le_refl _)) trivial rfl (.refl env)
    | some exit => exact .plain (.nothing (Nat.le_refl _)) (hg.exit exit hexit) rfl (.refl env)
  | goto n span =>
    rw [statement]
    refine Yields.pure ?_
    cases hlabel : env.label? n.text with
    | none => exact .plain (.nothing (Nat.le_refl _)) trivial rfl (.refl env)
    | some l => exact .plain (.nothing (Nat.le_refl _)) (hg.label? hlabel) rfl (.refl env)
  | label n span =>
    rw [statement]
    exact Yields.pure (.label (hwords n (by simp [labelNames])))
  | function f body span =>
    rw [statement]
    cases htarget : env.functionTarget? f with
    | none => exact Yields.pure (.plain (.nothing (Nat.le_refl _)) trivial rfl (.refl env))
    | some target =>
      refine (functionBody_spends env f.method.isSome body
        (ht _ (by simp [Syntax.Statement.parts])) s).bind fun value s₁ h₁ => ?_
      refine Yields.pure (.plain ?_ trivial rfl (.refl env))
      simpa [Block.marks, Statement.marks, Env.bodies_functionTarget? htarget] using h₁
  | localFunction n body span =>
    rw [statement]
    refine (fresh_yields env.unit s).bind fun id s₁ h₁ => ?_
    refine (functionBody_spends (env.declares [Local.plain id n.text]) false body
      (ht _ (by simp [Syntax.Statement.parts])) s₁).bind fun value s₂ h₂ => ?_
    have hnext : s.next ≤ s₁.next := by omega
    have hspent : Spent env.unit 0 s.next s₂.next [] (Bodies.expression value) :=
      (Spent.nothing hnext).andThen h₂
    refine Yields.pure (.plain ?_ trivial rfl (env.sameJumps_declares _))
    simpa [Block.marks, Statement.marks] using hspent

theorem elseIfs_placed (env : Env) (es : List Syntax.ElseIf) (ht : ∀ e ∈ es, (Node.elseIf e).Tidy)
    (visible : List Label) (hg : env.Grants visible) (s : Supply) :
    Yields s (elseIfs env es) fun a s' =>
      Spent env.unit 0 s.next s'.next ((Spine.branches a).flatMap Statement.marks)
        (Bodies.branches a) ∧ Scoped.branches visible a := by
  cases es with
  | nil => exact ⟨.nothing (Nat.le_refl _), trivial⟩
  | cons e later =>
    obtain ⟨c, b, span⟩ := e
    rw [List.forall_mem_cons, Node.tidy_elseIf] at ht
    obtain ⟨⟨hc, hb⟩, hlater⟩ := ht
    rw [elseIfs]
    refine (expression_spends env c hc s).bind fun c s₁ h₁ => ?_
    refine (block_placed env b hb visible hg s₁).bind fun b s₂ h₂ => ?_
    refine (elseIfs_placed env later hlater visible hg s₂).bind fun es s₃ h₃ => ?_
    refine Yields.pure ⟨?_, h₂.inScope, h₃.2⟩
    simpa [Block.marks]
      using (h₁.andThen h₂.spent).andThen h₃.1

end

theorem grants_ofUnit (unit : Nat) : (Env.ofUnit unit).Grants [] :=
  ⟨by simp [Env.ofUnit], by simp [Env.ofUnit]⟩

/-- The labels of a program. -/
theorem program_placed {b : Syntax.Block} (ht : (Node.block b).Tidy) (unit : Nat) :
    ∃ hi, Spent unit 0 1 hi [] (Block.bodies (program unit b)) := by
  have h := block_placed (.ofUnit unit) b ht [] (grants_ofUnit unit) ⟨1, 0⟩
  exact ⟨_, h.spent.function h.inScope⟩

end Lexical
end Resolved
end LuaFront
