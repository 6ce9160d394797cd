import LuaFront.Proofs.Resolved.Binding
import LuaFront.Proofs.Resolved.Constants

/-!
# LuaFront.Proofs.Resolved.Locals

Flattening keeps variables well scoped.

* `Retains`: the variables of a flat form are those of what was flattened, and some that were made
  up, with numbers from a range.
* `Flatten.inScope_block`: what is visible stays visible, for declarations move outward only.
* `Block.wellScoped_of_retains`: so what was well scoped is well scoped in its flat form.
-/

namespace LuaFront
namespace Resolved

open Flatten (out count)

/-! ## Declarations -/

/-- Different variables that were made up, with numbers from a range. -/
structure MadeUp (n m : Nat) (ls : List Local) : Prop where
  le : n ≤ m
  nodup : (ls.map Local.id).Nodup
  made : ∀ l ∈ ls, ∃ name k, '#' ∉ name.toList ∧ n < k ∧ k ≤ m ∧ l = .made name k

theorem MadeUp.append {n m o : Nat} {a b : List Local} (h : MadeUp n m a) (h' : MadeUp m o b) :
    MadeUp n o (a ++ b) where
  le := Nat.le_trans h.le h'.le
  nodup := by
    rw [List.map_append]
    refine List.nodup_append.2 ⟨h.nodup, h'.nodup, fun id ha id' hb heq => ?_⟩
    obtain ⟨l, hl, rfl⟩ := List.mem_map.1 ha
    obtain ⟨l', hl', rfl⟩ := List.mem_map.1 hb
    obtain ⟨name, k, -, hk, hle, rfl⟩ := h.made l hl
    obtain ⟨name', k', -, hk', hle', rfl⟩ := h'.made l' hl'
    rw [Local.made, Local.made, Local.plain, Local.plain, SymbolId.generated.injEq] at heq
    omega
  made := by
    have hle := h.le
    have hle' := h'.le
    intro l hl
    rcases List.mem_append.1 hl with hl | hl
    · obtain ⟨name, k, hname, hk, hkm, rfl⟩ := h.made l hl
      exact ⟨name, k, hname, by omega, by omega, rfl⟩
    · obtain ⟨name, k, hname, hk, hkm, rfl⟩ := h'.made l hl
      exact ⟨name, k, hname, by omega, by omega, rfl⟩

/-- These variables are kept, and others are made up. -/
def Retains (n m : Nat) (a a' : List Local) : Prop := ∃ ls, MadeUp n m ls ∧ a'.Perm (a ++ ls)

namespace Retains

variable {n m o : Nat} {a a' b b' : List Local}

theorem nothing (h : n ≤ m) : Retains n m [] [] := ⟨[], ⟨h, by simp, by simp⟩, by simp⟩

theorem made {name : String} (h : '#' ∉ name.toList) (n : Nat) :
    Retains n (n + 1) [] [.made name (n + 1)] := by
  refine ⟨[.made name (n + 1)], ⟨Nat.le_succ n, by simp, ?_⟩, .refl _⟩
  intro l hl
  exact ⟨name, n + 1, h, Nat.lt_succ_self n, Nat.le_refl _, List.mem_singleton.1 hl⟩

theorem append (h : Retains n m a a') (h' : Retains m o b b') :
    Retains n o (a ++ b) (a' ++ b') := by
  obtain ⟨ls, hls, hperm⟩ := h
  obtain ⟨ls', hls', hperm'⟩ := h'
  refine ⟨ls ++ ls', hls.append hls', (hperm.append hperm').trans ?_⟩
  rw [List.append_assoc, List.append_assoc]
  refine List.Perm.append_left a ?_
  rw [← List.append_assoc, ← List.append_assoc]
  exact List.Perm.append_right ls' List.perm_append_comm

/-- Variables that are declared in the same way. -/
theorem same (h : Retains n m a a') (ls : List Local) : Retains n m (ls ++ a) (ls ++ a') := by
  obtain ⟨made, hmade, hperm⟩ := h
  refine ⟨made, hmade, ?_⟩
  rw [List.append_assoc]
  exact hperm.append_left ls

theorem perm (h : Retains n m a a') (hperm : a.Perm b) : Retains n m b a' := by
  obtain ⟨made, hmade, hperm'⟩ := h
  exact ⟨made, hmade, hperm'.trans (hperm.append_right made)⟩

end Retains

namespace Flatten

theorem declared_nextValues (symbols : List Local) (l₁ l₂ l₃ : Local) (exit : Label) :
    Declared.block (nextValues symbols l₁ l₂ l₃ exit) = symbols := by
  cases symbols <;> simp [nextValues, Expression.nil]

mutual

theorem declared_expression (e : Expression) (n : Nat) :
    Retains n (count (expression e) n) (Declared.expression e)
      (Declared.expression (out (expression e) n)) := by
  cases e with
  | function parameters vararg body =>
    simpa [expression] using (declared_block body n).same parameters
  | table entries => simpa [expression] using declared_fields entries n
  | unary op operand => simpa [expression] using declared_expression operand n
  | binary left op right =>
    simpa [expression] using (declared_expression left n).append (declared_expression right _)
  | parenthesized inner => simpa [expression] using declared_expression inner n
  | call receiver method arguments =>
    simpa [expression] using
      (declared_expression receiver n).append (declared_expressions arguments _)
  | index target index =>
    simpa [expression] using (declared_expression target n).append (declared_expression index _)
  | literal | name | vararg | error => exact .nothing (Nat.le_refl _)

theorem declared_expressions (es : List Expression) (n : Nat) :
    Retains n (count (expressions es) n) (Declared.expressions es)
      (Declared.expressions (out (expressions es) n)) := by
  cases es with
  | nil => exact .nothing (Nat.le_refl _)
  | cons e later =>
    simpa [expressions] using (declared_expression e n).append (declared_expressions later _)

theorem declared_fields (fs : List Field) (n : Nat) :
    Retains n (count (fields fs) n) (Declared.fields fs) (Declared.fields (out (fields fs) n)) := by
  cases fs with
  | nil => exact .nothing (Nat.le_refl _)
  | cons f later =>
    cases f with
    | positional position value =>
      simpa [fields] using (declared_expression value n).append (declared_fields later _)
    | keyed key value =>
      simpa [fields] using (declared_expression key n).append
        ((declared_expression value _).append (declared_fields later _))

theorem declared_branches (stop : Label) (es : List Branch) (n : Nat) :
    Retains n (count (branches stop es) n) (Declared.branches es)
      (Declared.block (out (branches stop es) n)) := by
  cases es with
  | nil => exact .nothing (Nat.le_refl _)
  | cons e later =>
    obtain ⟨c, b⟩ := e
    simpa [branches] using (Retains.nothing (Nat.le_succ n)).append
      ((declared_expression c (n + 1)).append
        ((declared_block b _).append (declared_branches stop later _)))

theorem declared_otherwise (o : Option (List Statement)) (n : Nat) :
    Retains n (count (otherwise o) n) (Declared.otherwise o)
      (Declared.block (out (otherwise o) n)) := by
  cases o with
  | none => exact .nothing (Nat.le_refl _)
  | some b => simpa [otherwise] using declared_block b n

theorem declared_statement (x : Statement) (n : Nat) :
    Retains n (count (statement x) n) (Declared.statement x)
      (Declared.block (out (statement x) n)) := by
  cases x with
  | expression e => simpa [statement] using declared_expression e n
  | assign targets values =>
    simpa [statement] using
      (declared_expressions targets n).append (declared_expressions values _)
  | declare symbols values =>
    simpa [statement] using (declared_expressions values n).same symbols
  | result values => simpa [statement] using declared_expressions values n
  | ifThen c b es o =>
    rw [out_ifThen, count_ifThen]
    simpa [branches] using (Retains.nothing (by omega : n ≤ n + 2)).append
      (((declared_expression c (n + 2)).append (declared_block b _)).append
        ((declared_branches (.made (n + 1)) es _).append (declared_otherwise o _)))
  | whileDo c b exit =>
    simpa [statement] using (Retains.nothing (Nat.le_succ n)).append
      ((declared_expression c (n + 1)).append (declared_block b _))
  | repeatUntil b c exit =>
    simpa [statement] using (Retains.nothing (Nat.le_succ n)).append
      ((declared_block b (n + 1)).append (declared_expression c _))
  | numericFor counter initial limit step b exit =>
    have hmade : Retains n (n + 3) [] [.made "limit" (n + 2), .made "step" (n + 3)] :=
      ((Retains.nothing (Nat.le_succ n)).append (.made (by decide) (n + 1))).append
        (.made (by decide) (n + 2))
    have hparts := (((hmade.append (declared_expression initial (n + 3))).append
      (declared_expression limit _)).append (declared_expression step _)).append
        (declared_block b _)
    have hperm : ([counter] ++ (Declared.expression initial ++ Declared.expression limit ++
        Declared.expression step ++ Declared.block b)).Perm
        (Declared.statement (.numericFor counter initial limit step b exit)) := by
      rw [Declared.statement, List.singleton_append]
      exact List.perm_middle.symm
    simpa [statement, withinLimit, Expression.integer] using (hparts.same [counter]).perm hperm
  | genericFor symbols values b exit =>
    have hmade : Retains n (n + 4) []
        [.made "iterator" (n + 2), .made "state" (n + 3), .made "control" (n + 4)] :=
      (((Retains.nothing (Nat.le_succ n)).append (.made (by decide) (n + 1))).append
        (.made (by decide) (n + 2))).append (.made (by decide) (n + 3))
    have hparts := hmade.append ((declared_expressions values (n + 4)).append
      ((declared_block b _).same symbols))
    simpa [statement, declared_nextValues] using hparts
  | doBlock b => simpa [statement] using declared_block b n
  | gotoIf label c wanted => simpa [statement] using declared_expression c n
  | goto | label => exact .nothing (Nat.le_refl _)

theorem declared_block (b : List Statement) (n : Nat) :
    Retains n (count (block b) n) (Declared.block b) (Declared.block (out (block b) n)) := by
  cases b with
  | nil => exact .nothing (Nat.le_refl _)
  | cons x later =>
    rw [out_block_cons, count_block_cons, Declared.block_append]
    exact (declared_statement x n).append (declared_block later _)

end

/-! ## Scopes -/

theorem locals_statement (x : Statement) (n : Nat) :
    x.locals ⊆ Block.locals (out (statement x) n) := by
  cases x with
  | declare symbols values => simp [statement, Statement.locals]
  | _ => simp [Statement.locals]

theorem locals_block (b : Block) (n : Nat) : b.locals ⊆ Block.locals (out (block b) n) := by
  induction b generalizing n with
  | nil => simp
  | cons x later ih =>
    rw [out_block_cons, Block.locals_cons, Block.locals_append]
    exact List.append_subset.2 ⟨List.subset_append_of_subset_left _ (locals_statement x n),
      List.subset_append_of_subset_right _ (ih _)⟩

theorem ownFunction_expressions (symbols : List Local) (values : List Expression) (n : Nat) :
    ownFunction symbols (out (expressions values) n) = ownFunction symbols values := by
  rcases values with _ | ⟨e, _ | ⟨e', later⟩⟩
  · rfl
  · cases e <;> rcases symbols with _ | ⟨s, _ | ⟨s', more⟩⟩ <;>
      simp [expressions, expression, ownFunction]
  · rcases symbols with _ | ⟨s, _ | ⟨s', more⟩⟩ <;> simp [expressions, ownFunction]

/-- The statements around the body of a generic loop mean the loop's own variables. -/
theorem inScope_nextValues {visible symbols : List Local} {l₁ l₂ l₃ : Local} (exit : Label)
    (h : [l₁, l₂, l₃] ⊆ visible) :
    Occurs.block InScope visible (nextValues symbols l₁ l₂ l₃ exit) := by
  simp only [List.cons_subset, List.nil_subset, and_true] at h
  cases symbols with
  | nil => simp [nextValues, InScope, h]
  | cons symbol later =>
    have hown : ownFunction (symbol :: later)
        [.call (.name l₁) none [.name l₂, .name l₃]] = [] := by
      unfold ownFunction
      split <;> simp_all
    simp [nextValues, InScope, Expression.nil, Statement.locals, hown, h]

theorem locals_nextValues (symbols : List Local) (l₁ l₂ l₃ : Local) (exit : Label) :
    Block.locals (nextValues symbols l₁ l₂ l₃ exit) = symbols := by
  cases symbols <;> simp [nextValues, Statement.locals]

mutual

theorem inScope_expression {visible : List Local} (e : Expression)
    (h : Occurs.expression InScope visible e) (n : Nat) :
    Occurs.expression InScope visible (out (expression e) n) := by
  cases e with
  | function parameters vararg body => simpa [expression] using inScope_block body h n
  | table entries => simpa [expression] using inScope_fields entries h n
  | unary op operand => simpa [expression] using inScope_expression operand h n
  | binary left op right =>
    simpa [expression] using ⟨inScope_expression left h.1 n, inScope_expression right h.2 _⟩
  | parenthesized inner => simpa [expression] using inScope_expression inner h n
  | call receiver method arguments =>
    simpa [expression] using
      ⟨inScope_expression receiver h.1 n, inScope_expressions arguments h.2 _⟩
  | index target index =>
    simpa [expression] using ⟨inScope_expression target h.1 n, inScope_expression index h.2 _⟩
  | literal | name | vararg | error => exact h

theorem inScope_expressions {visible : List Local} (es : List Expression)
    (h : Occurs.expressions InScope visible es) (n : Nat) :
    Occurs.expressions InScope visible (out (expressions es) n) := by
  cases es with
  | nil => trivial
  | cons e later =>
    simpa [expressions] using ⟨inScope_expression e h.1 n, inScope_expressions later h.2 _⟩

theorem inScope_fields {visible : List Local} (fs : List Field)
    (h : Occurs.fields InScope visible fs) (n : Nat) :
    Occurs.fields InScope visible (out (fields fs) n) := by
  cases fs with
  | nil => trivial
  | cons f later =>
    cases f with
    | positional position value =>
      simpa [fields] using ⟨inScope_expression value h.1 n, inScope_fields later h.2 _⟩
    | keyed key value =>
      simpa [fields] using ⟨inScope_expression key h.1 n, inScope_expression value h.2.1 _,
        inScope_fields later h.2.2 _⟩

theorem inScope_branches {visible : List Local} (stop : Label) (es : List Branch)
    (h : Occurs.branches InScope visible es) (n : Nat) :
    Occurs.block InScope visible (out (branches stop es) n) := by
  cases es with
  | nil => trivial
  | cons e later =>
    obtain ⟨c, b⟩ := e
    have hc := inScope_expression c h.1 (n + 1)
    have hb := inScope_block b h.2.1 (count (expression c) (n + 1))
    have hlater := inScope_branches stop later h.2.2
      (count (block b) (count (expression c) (n + 1)))
    simpa [branches, Statement.locals] using
      ⟨hc, hb, InScope.block_mono (List.subset_append_left ..) hlater⟩

theorem inScope_otherwise {visible : List Local} (o : Option (List Statement))
    (h : Occurs.otherwise InScope visible o) (n : Nat) :
    Occurs.block InScope visible (out (otherwise o) n) := by
  cases o with
  | none => trivial
  | some b => simpa [otherwise] using inScope_block b h n

theorem inScope_statement {visible : List Local} (x : Statement)
    (h : Occurs.statement InScope visible x) (n : Nat) :
    Occurs.block InScope visible (out (statement x) n) := by
  cases x with
  | expression e => simpa [statement] using inScope_expression e h n
  | assign targets values =>
    simpa [statement] using ⟨inScope_expressions targets h.1 n, inScope_expressions values h.2 _⟩
  | declare symbols values =>
    simpa [statement, ownFunction_expressions] using inScope_expressions values h n
  | result values => simpa [statement] using inScope_expressions values h n
  | ifThen c b es o =>
    have hc := inScope_expression c h.1 (n + 2)
    have hb := inScope_block b h.2.1 (count (expression c) (n + 2))
    have hes (m : Nat) (ls : List Local) :
        Occurs.block InScope (visible ++ ls) (out (branches (.made (n + 1)) es) m) :=
      InScope.block_mono (List.subset_append_left ..) (inScope_branches _ es h.2.2.1 m)
    have ho (m : Nat) (ls : List Local) :
        Occurs.block InScope (visible ++ ls) (out (otherwise o) m) :=
      InScope.block_mono (List.subset_append_left ..) (inScope_otherwise o h.2.2.2 m)
    rw [out_ifThen]
    simpa [branches, Statement.locals] using ⟨hc, hb, hes _ _, ho _ _⟩
  | whileDo c b exit =>
    have hc := inScope_expression c h.1 (n + 1)
    have hb := inScope_block b h.2 (count (expression c) (n + 1))
    simpa [statement, Statement.locals] using ⟨hc, hb⟩
  | repeatUntil b c exit =>
    have hb := inScope_block b h.1 (n + 1)
    have hlocals : visible ++ Block.locals b ⊆ visible ++ Block.locals (out (block b) (n + 1)) :=
      List.append_subset.2 ⟨List.subset_append_left ..,
        List.subset_append_of_subset_right _ (locals_block b (n + 1))⟩
    have hc := InScope.expression_mono hlocals
      (inScope_expression c h.2 (count (block b) (n + 1)))
    simpa [statement, Statement.locals] using ⟨hb, hc⟩
  | numericFor counter initial limit step b exit =>
    have hinitial := inScope_expression initial h.1 (n + 3)
    have hlimit (m : Nat) := inScope_expression limit h.2.1 m
    have hstep (m : Nat) := inScope_expression step h.2.2.1 m
    -- The body is behind the declaration of the counter, which declares two more variables.
    have hbody (m : Nat) (l₁ l₂ : Local) :
        Occurs.block InScope (visible ++ [counter, l₁, l₂]) (out (block b) m) :=
      InScope.block_mono (by simp) (inScope_block b h.2.2.2 m)
    simpa [statement, withinLimit, InScope, Expression.integer, ownFunction, Statement.locals]
      using ⟨⟨hinitial, hlimit _, hstep _⟩, hbody _ _ _⟩
  | genericFor symbols values b exit =>
    have hvalues := inScope_expressions values h.1 (n + 4)
    have hbody (m : Nat) (ls : List Local) :
        Occurs.block InScope (visible ++ (ls ++ symbols)) (out (block b) m) :=
      InScope.block_mono (by simp) (inScope_block b h.2 m)
    have hown (l₁ l₂ l₃ : Local) (vs : List Expression) : ownFunction [l₁, l₂, l₃] vs = [] := rfl
    have hnext (l₁ l₂ l₃ : Local) : Occurs.block InScope (visible ++ [l₁, l₂, l₃])
        (nextValues symbols l₁ l₂ l₃ exit) :=
      inScope_nextValues exit (List.subset_append_right ..)
    simpa [statement, hown, Statement.locals, locals_nextValues]
      using ⟨hvalues, hnext _ _ _, hbody _ [_, _, _]⟩
  | doBlock b => simpa [statement] using inScope_block b h n
  | gotoIf label c wanted => simpa [statement] using inScope_expression c h n
  | goto | label => trivial

theorem inScope_block {visible : List Local} (b : List Statement)
    (h : Occurs.block InScope visible b) (n : Nat) :
    Occurs.block InScope visible (out (block b) n) := by
  cases b with
  | nil => trivial
  | cons x later =>
    rw [out_block_cons, Occurs.block_append]
    have hlater := inScope_block later h.2 (count (statement x) n)
    refine ⟨inScope_statement x h.1 n, InScope.block_mono ?_ hlater⟩
    exact List.append_subset.2 ⟨List.subset_append_left ..,
      List.subset_append_of_subset_right _ (locals_statement x n)⟩

end
end Flatten

/-! ## Names -/

theorem Local.sharp_mem_made (name : String) (k : Nat) : '#' ∈ (made name k).name.toList := by
  simp [made, plain, ToString.toString]

/-- Variables that are made up have different names if they are different. -/
theorem Local.made_eq_of_name_eq {name name' : String} {k k' : Nat} (h : '#' ∉ name.toList)
    (heq : (made name k).name = (made name' k').name) : made name k = made name' k' := by
  have hlist : name.toList ++ '#' :: Nat.toDigits 10 k =
      name'.toList ++ '#' :: Nat.toDigits 10 k' := by
    simpa [made, plain, ToString.toString, Nat.repr_eq_ofList_toDigits] using
      congrArg String.toList heq
  have hdigits : '#' ∉ Nat.toDigits 10 k := by
    intro hmem
    have hdigit := Nat.isDigit_of_mem_toDigits (by decide) (by decide) hmem
    exact absurd hdigit (by decide)
  obtain ⟨hname, -, hk⟩ := (List.append_cons_inj_of_notMem h hdigits).1 hlist
  rw [String.toList_inj.1 hname, ← Nat.ofDigitChars_toDigits (b := 10) (n := k) (by decide)
    (by decide), hk, Nat.ofDigitChars_toDigits (by decide) (by decide)]

/-! ## Whole programs -/

/-- Variables that were declared and variables that were made up do not get in each other's way. -/
theorem Block.wellScoped_of_retains {unit hi n m : Nat} {root : Local} {ls : List Local} {b : Block}
    (hissued : Issued unit 0 hi (root :: ls)) (hretains : Retains n m ls (Declared.block b))
    (hscope : Occurs.block InScope [root] b) : b.WellScoped root := by
  obtain ⟨made, hmade, hperm⟩ := hretains
  have hall : (root :: Declared.block b).Perm ((root :: ls) ++ made) := hperm.cons root
  have hdeclared : ∀ l ∈ root :: ls, l.isDeclared = true := by
    intro l hl
    obtain ⟨k, hid, -⟩ := (hissued.written l hl).number
    rw [Local.isDeclared, hid]
  refine wellScoped_of_inScope ?_ hscope ?_
  · rw [(hall.map Local.id).nodup_iff, List.map_append]
    refine List.nodup_append.2 ⟨hissued.nodup, hmade.nodup, fun id hid id' hid' heq => ?_⟩
    obtain ⟨l, hl, rfl⟩ := List.mem_map.1 hid
    obtain ⟨l', hl', rfl⟩ := List.mem_map.1 hid'
    obtain ⟨k, hid, -⟩ := (hissued.written l hl).number
    obtain ⟨name, k', -, -, -, rfl⟩ := hmade.made l' hl'
    rw [hid] at heq
    cases heq
  · intro l hl hgenerated l' hl' hname
    rw [hperm.mem_iff, List.mem_append] at hl
    have hl : l ∈ made := hl.resolve_left fun hmem => by
      simp [hdeclared l (List.mem_cons_of_mem _ hmem)] at hgenerated
    obtain ⟨name, k, hword, -, -, rfl⟩ := hmade.made l hl
    rw [hall.mem_iff, List.mem_append] at hl'
    rcases hl' with hl' | hl'
    · refine absurd (Local.sharp_mem_made name k) ?_
      rw [← hname]
      exact (hissued.written l' hl').word
    · obtain ⟨name', k', hword', -, -, rfl⟩ := hmade.made l' hl'
      exact Local.made_eq_of_name_eq hword' hname

theorem worded_parse (source : Text.Source) :
    Worded (.block (Syntax.Tree.parse source).root.block) := by
  intro m hm
  obtain ⟨last, hspreads, _⟩ := Syntax.Tree.parse_lays source
  cases hm with
  | refl => trivial
  | child hmem hm =>
    have horigin := (hspreads.nodes _ hmem _ hm).origin
    cases m with
    | name n => exact horigin
    | declaration d => exact horigin
    | _ => trivial

namespace Program

/-- If no assignment to a constant was reported, then there is none, in any function. -/
theorem allSpare_ofTree {tree : Syntax.Tree} {unit : Nat}
    (h : Quiet (ofTree tree unit).diagnostics) :
    AllSpare (Block.bodies (ofTree tree unit).body) := by
  have hcareful : Careful (Resolve.program tree.root.block) fun b => AllSpare b.bodies :=
    .inScope (.get fun c => .modifyScopes (Resolve.statements_careful tree.root.block))
  refine (hcareful (.ofUnit unit)).2 fun d hd => h d (List.mem_append_right _ ?_)
  exact (Journal.diagnostics_record _ _).symm ▸ List.mem_append_left _ hd

/-- For every text, well formed or not, variables are well scoped in its program and in the flat
form of it. There a variable is declared by a declaration or as a parameter, for there are no loops.
If no assignment to a constant was reported, then no statement of the flat form assigns to one. -/
theorem locals_wellScoped (source : Text.Source) (unit : Nat) :
    let p := ofTree (Syntax.Tree.parse source) unit
    let root := Local.plain (.declared unit 0) environmentName
    p.body.WellScoped root ∧ p.flatten.body.WellScoped root ∧ p.flatten.body.IsNormal ∧
      ((∀ d ∈ p.diagnostics, ∀ name, d.cause ≠ .assignToConstant name) →
        ∀ f ∈ p.flatten.body.bodies, ∀ targets values, .assign targets values ∈ Spine.block f →
          ∀ l, .name l ∈ targets → l.isConstant = false) := by
  intro p root
  have hbody : p.body = Lexical.program unit (Syntax.Tree.parse source).root.block :=
    Resolve.program_eq (Syntax.Tree.parse_reads source).2 unit
  obtain ⟨hscope, hi, hissued⟩ := Lexical.program_situated (worded_parse source) unit
  rw [← hbody] at hscope hissued
  have hsame : Retains 0 0 (Declared.block p.body) (Declared.block p.body) := by
    simpa using (Retains.nothing (Nat.le_refl 0)).same (Declared.block p.body)
  refine ⟨Block.wellScoped_of_retains hissued hsame hscope, ?_, Block.isNormal_flatten _, ?_⟩
  · exact Block.wellScoped_of_retains hissued (Flatten.declared_block p.body 0)
      (Flatten.inScope_block p.body hscope 0)
  · intro hquiet f hf targets values hassign l hl
    have hspares : AllSpare (Block.bodies p.flatten.body) :=
      (Flatten.bodies_out p.body 0).allSpare (allSpare_ofTree hquiet)
    exact hspares f hf _ hassign l (List.mem_filterMap.2 ⟨_, hl, rfl⟩)

/-- With a constant, a loop in a loop and a function that calls itself. -/
theorem locals_wellScoped_counting :
    let source := Text.Source.ofString
      "local n <const> = 9 local function f(x) for i = x, n do for k in f do x = i end end end"
    let p := ofTree (Syntax.Tree.parse source) 0
    let root := Local.plain (.declared 0 0) environmentName
    p.body.WellScoped root ∧ p.flatten.body.WellScoped root ∧ p.flatten.body.IsNormal ∧
      p.diagnostics = [] ∧
      ∀ f ∈ p.flatten.body.bodies, ∀ targets values, .assign targets values ∈ Spine.block f →
        ∀ l, .name l ∈ targets → l.isConstant = false := by
  intro source p root
  have hdiagnostics : p.diagnostics = [] := by decide +kernel
  obtain ⟨hbody, hflat, hnormal, hconstants⟩ := locals_wellScoped source 0
  refine ⟨hbody, hflat, hnormal, hdiagnostics, hconstants ?_⟩
  intro d hd
  rw [hdiagnostics] at hd
  exact absurd hd List.not_mem_nil

end Program
end Resolved
end LuaFront
