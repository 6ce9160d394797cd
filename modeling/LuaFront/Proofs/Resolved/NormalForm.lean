import LuaFront.Proofs.Resolved.Meaning

/-!
# LuaFront.Proofs.Resolved.NormalForm

Flattening brings a block into a normal form.

* `Block.IsNormal`: no statement is structured, in the body and in the functions anywhere in it.
* `Flatten.block_of_isNormal`: a block in normal form is left alone, and no symbol is made up.
* `Flatten.bodies_block`: the functions of the flat form are the flat forms of the functions.
* `Flatten.doBlocks_block`: so are the `do` blocks, and none is added.
-/

namespace LuaFront
namespace Resolved

open Flatten (out count)

/-! ## Normal form -/

namespace Block

/-- No function body in a piece of a program has a structured statement. -/
def AllFlat (bodies : List Block) : Prop := ∀ f ∈ bodies, IsFlat f

/-- No statement of a block is structured, at any depth and in any function. -/
def IsNormal (b : Block) : Prop := AllFlat b.bodies

@[simp]
theorem allFlat_nil : AllFlat [] := by simp [AllFlat]

@[simp]
theorem allFlat_cons {f : Block} {later : List Block} :
    AllFlat (f :: later) ↔ IsFlat f ∧ AllFlat later := by
  simp [AllFlat]

@[simp]
theorem allFlat_append {a b : List Block} : AllFlat (a ++ b) ↔ AllFlat a ∧ AllFlat b :=
  List.forall_mem_append

theorem isNormal_iff {b : Block} : b.IsNormal ↔ IsFlat b ∧ AllFlat (Bodies.block b) := allFlat_cons

end Block

def Statement.doBlocks : Statement → List Block
  | .doBlock b => [b]
  | _ => []

/-- The `do` blocks of one function body, however deep in other blocks. -/
def Block.doBlocks (b : Block) : List Block := (Spine.block b).flatMap Statement.doBlocks

@[simp]
theorem Block.doBlocks_nil : doBlocks [] = [] := rfl

theorem Block.doBlocks_append (a b : Block) : doBlocks (a ++ b) = doBlocks a ++ doBlocks b := by
  simp [doBlocks]

theorem Block.doBlocks_cons (x : Statement) (b : Block) :
    doBlocks (x :: b) = (Spine.statement x).flatMap Statement.doBlocks ++ doBlocks b := by
  simp [doBlocks]

/-! ## Blocks in normal form are left alone -/

namespace Flatten

open Block

mutual

theorem expression_of_flat (e : Expression) (h : AllFlat (Bodies.expression e)) :
    expression e = pure e := by
  cases e with
  | function parameters vararg body =>
    simp only [Bodies.expression, allFlat_cons] at h
    simp [expression, block_of_flat body h.1 h.2]
  | table entries =>
    simp only [Bodies.expression] at h
    simp [expression, fields_of_flat entries h]
  | unary op operand =>
    simp only [Bodies.expression] at h
    simp [expression, expression_of_flat operand h]
  | binary left op right =>
    simp only [Bodies.expression, allFlat_append] at h
    simp [expression, expression_of_flat left h.1, expression_of_flat right h.2]
  | parenthesized inner =>
    simp only [Bodies.expression] at h
    simp [expression, expression_of_flat inner h]
  | call receiver method arguments =>
    simp only [Bodies.expression, allFlat_append] at h
    simp [expression, expression_of_flat receiver h.1, expressions_of_flat arguments h.2]
  | index target index =>
    simp only [Bodies.expression, allFlat_append] at h
    simp [expression, expression_of_flat target h.1, expression_of_flat index h.2]
  | literal | name | vararg | error => rfl

theorem expressions_of_flat (es : List Expression) (h : AllFlat (Bodies.expressions es)) :
    expressions es = pure es := by
  cases es with
  | nil => rfl
  | cons e later =>
    simp only [Bodies.expressions, allFlat_append] at h
    simp [expressions, expression_of_flat e h.1, expressions_of_flat later h.2]

theorem fields_of_flat (fs : List Field) (h : AllFlat (Bodies.fields fs)) :
    fields fs = pure fs := by
  cases fs with
  | nil => rfl
  | cons f later =>
    cases f with
    | positional position value =>
      simp only [Bodies.fields, allFlat_append] at h
      simp [fields, expression_of_flat value h.1, fields_of_flat later h.2]
    | keyed key value =>
      simp only [Bodies.fields, allFlat_append] at h
      simp [fields, expression_of_flat key h.1.1, expression_of_flat value h.1.2,
        fields_of_flat later h.2]

theorem statement_of_flat (x : Statement) (hx : x.IsFlat) (h : AllFlat (Bodies.statement x)) :
    statement x = pure [x] := by
  cases x with
  | expression e =>
    simp only [Bodies.statement] at h
    simp [statement, expression_of_flat e h]
  | assign targets values =>
    simp only [Bodies.statement, allFlat_append] at h
    simp [statement, expressions_of_flat targets h.1, expressions_of_flat values h.2]
  | declare symbols values =>
    simp only [Bodies.statement] at h
    simp [statement, expressions_of_flat values h]
  | result values =>
    simp only [Bodies.statement] at h
    simp [statement, expressions_of_flat values h]
  | doBlock b =>
    simp only [Bodies.statement] at h
    simp [statement, block_of_flat b (Statement.isFlat_doBlock.1 hx) h]
  | gotoIf label condition wanted =>
    simp only [Bodies.statement] at h
    simp [statement, expression_of_flat condition h]
  | goto | label => rfl
  | ifThen | whileDo | repeatUntil | numericFor | genericFor =>
    simp [Statement.IsFlat, Statement.isStructured] at hx

theorem block_of_flat (b : List Statement) (hb : IsFlat b) (h : AllFlat (Bodies.block b)) :
    block b = pure b := by
  cases b with
  | nil => rfl
  | cons x later =>
    rw [isFlat_cons] at hb
    simp only [Bodies.block, allFlat_append] at h
    simp [block, statement_of_flat x hb.1 h.1, block_of_flat later hb.2 h.2]

end

/-- A block in normal form is left alone, and no symbol is made up. -/
theorem block_of_isNormal {b : Block} (h : b.IsNormal) : block b = pure b :=
  block_of_flat b (isNormal_iff.1 h).1 (isNormal_iff.1 h).2

/-! ## Functions and `do` blocks are kept -/

/-- One block is the flat form of another, wherever the count of symbols stood. -/
def FlatForm (b b' : Block) : Prop := ∃ n, b' = out (block b) n

theorem flatForm_out (b : Block) (n : Nat) : FlatForm b (out (block b) n) := ⟨n, rfl⟩

/-- Blocks come out in their order, each in its flat form. -/
abbrev FlatForms : List Block → List Block → Prop := List.Forall₂ FlatForm

theorem FlatForms.append {a a' b b' : List Block} (ha : FlatForms a a') (hb : FlatForms b b') :
    FlatForms (a ++ b) (a' ++ b') :=
  List.rel_append ha hb

mutual

theorem bodies_expression (e : Expression) (n : Nat) :
    FlatForms (Bodies.expression e) (Bodies.expression (out (expression e) n)) := by
  cases e with
  | function parameters vararg body =>
    simp only [expression, Bodies.expression, out_bind, out_pure]
    exact .cons (flatForm_out body n) (bodies_block body n)
  | table entries => simpa [expression] using bodies_fields entries n
  | unary op operand => simpa [expression] using bodies_expression operand n
  | binary left op right =>
    simpa [expression] using (bodies_expression left n).append (bodies_expression right _)
  | parenthesized inner => simpa [expression] using bodies_expression inner n
  | call receiver method arguments =>
    simpa [expression] using (bodies_expression receiver n).append (bodies_expressions arguments _)
  | index target index =>
    simpa [expression] using (bodies_expression target n).append (bodies_expression index _)
  | literal | name | vararg | error => exact .nil

theorem bodies_expressions (es : List Expression) (n : Nat) :
    FlatForms (Bodies.expressions es) (Bodies.expressions (out (expressions es) n)) := by
  cases es with
  | nil => exact .nil
  | cons e later =>
    simpa [expressions] using (bodies_expression e n).append (bodies_expressions later _)

theorem bodies_fields (fs : List Field) (n : Nat) :
    FlatForms (Bodies.fields fs) (Bodies.fields (out (fields fs) n)) := by
  cases fs with
  | nil => exact .nil
  | cons f later =>
    cases f with
    | positional position value =>
      simpa [fields] using (bodies_expression value n).append (bodies_fields later _)
    | keyed key value =>
      simpa [fields] using (bodies_expression key n).append
        ((bodies_expression value _).append (bodies_fields later _))

theorem bodies_branches (stop : Label) (es : List Branch) (n : Nat) :
    FlatForms (Bodies.branches es) (Bodies.block (out (branches stop es) n)) := by
  cases es with
  | nil => exact .nil
  | cons e later =>
    obtain ⟨c, b⟩ := e
    simpa [branches] using (bodies_expression c (n + 1)).append
      ((bodies_block b _).append (bodies_branches stop later _))

theorem bodies_otherwise (o : Option (List Statement)) (n : Nat) :
    FlatForms (Bodies.otherwise o) (Bodies.block (out (otherwise o) n)) := by
  cases o with
  | none => exact .nil
  | some b => simpa [otherwise] using bodies_block b n

theorem bodies_statement (x : Statement) (n : Nat) :
    FlatForms (Bodies.statement x) (Bodies.block (out (statement x) n)) := by
  cases x with
  | expression e => simpa [statement] using bodies_expression e n
  | assign targets values =>
    simpa [statement] using (bodies_expressions targets n).append (bodies_expressions values _)
  | declare symbols values => simpa [statement] using bodies_expressions values n
  | result values => simpa [statement] using bodies_expressions values n
  | ifThen c b es o =>
    rw [out_ifThen]
    simpa [branches] using ((bodies_expression c (n + 2)).append (bodies_block b _)).append
      ((bodies_branches (.made (n + 1)) es _).append (bodies_otherwise o _))
  | whileDo c b exit =>
    simpa [statement] using (bodies_expression c (n + 1)).append (bodies_block b _)
  | repeatUntil b c exit =>
    simpa [statement] using (bodies_block b (n + 1)).append (bodies_expression c _)
  | numericFor counter initial limit step b exit =>
    simpa [statement, withinLimit, Expression.integer] using
      (bodies_expression initial (n + 3)).append ((bodies_expression limit _).append
        ((bodies_expression step _).append (bodies_block b _)))
  | genericFor symbols values b exit =>
    have hnext (l₁ l₂ l₃ : Local) : Bodies.block (nextValues symbols l₁ l₂ l₃ exit) = [] := by
      cases symbols <;> simp [nextValues, Expression.nil]
    simpa [statement, hnext] using (bodies_expressions values (n + 4)).append (bodies_block b _)
  | doBlock b => simpa [statement] using bodies_block b n
  | gotoIf label c wanted => simpa [statement] using bodies_expression c n
  | goto | label => exact .nil

theorem bodies_block (b : List Statement) (n : Nat) :
    FlatForms (Bodies.block b) (Bodies.block (out (block b) n)) := by
  cases b with
  | nil => exact .nil
  | cons x later =>
    rw [out_block_cons, Bodies.block_append]
    exact (bodies_statement x n).append (bodies_block later _)

end

/-- The functions of a flat form are the flat forms of the functions. -/
theorem bodies_out (b : Block) (n : Nat) : FlatForms b.bodies (bodies (out (block b) n)) :=
  .cons (flatForm_out b n) (bodies_block b n)

mutual

theorem doBlocks_statement (x : Statement) (n : Nat) :
    FlatForms ((Spine.statement x).flatMap Statement.doBlocks)
      (doBlocks (out (statement x) n)) := by
  cases x with
  | ifThen c b es o =>
    rw [out_ifThen]
    simpa [branches, doBlocks, Statement.doBlocks] using
      (doBlocks_block b (count (expression c) (n + 2))).append
        ((doBlocks_branches (.made (n + 1)) es _).append (doBlocks_otherwise o _))
  | whileDo c b exit =>
    simpa [statement, doBlocks, Statement.doBlocks] using
      doBlocks_block b (count (expression c) (n + 1))
  | repeatUntil b c exit =>
    simpa [statement, doBlocks, Statement.doBlocks] using doBlocks_block b (n + 1)
  | numericFor counter initial limit step b exit =>
    simpa [statement, expressions, doBlocks, Statement.doBlocks] using
      doBlocks_block b (count (expressions [initial, limit, step]) (n + 3))
  | genericFor symbols values b exit =>
    have hnext (l₁ l₂ l₃ : Local) : doBlocks (nextValues symbols l₁ l₂ l₃ exit) = [] := by
      cases symbols <;> rfl
    have hb := doBlocks_block b (count (expressions values) (n + 4))
    rw [doBlocks] at hb
    simpa [statement, doBlocks_append, doBlocks_cons, hnext, Statement.doBlocks] using hb
  | doBlock b =>
    simp only [statement, Spine.statement, out_bind, out_pure, doBlocks_cons, doBlocks_nil,
      List.append_nil, List.flatMap_cons, Statement.doBlocks, List.singleton_append]
    exact .cons (flatForm_out b n) (doBlocks_block b n)
  | expression | assign | declare | result | goto | gotoIf | label => exact .nil

theorem doBlocks_branches (stop : Label) (es : List Branch) (n : Nat) :
    FlatForms ((Spine.branches es).flatMap Statement.doBlocks)
      (doBlocks (out (branches stop es) n)) := by
  cases es with
  | nil => exact .nil
  | cons e later =>
    obtain ⟨c, b⟩ := e
    simpa [branches, doBlocks, Statement.doBlocks] using
      (doBlocks_block b (count (expression c) (n + 1))).append (doBlocks_branches stop later _)

theorem doBlocks_otherwise (o : Option (List Statement)) (n : Nat) :
    FlatForms ((Spine.otherwise o).flatMap Statement.doBlocks)
      (doBlocks (out (otherwise o) n)) := by
  cases o with
  | none => exact .nil
  | some b => simpa [otherwise, doBlocks] using doBlocks_block b n

theorem doBlocks_block (b : List Statement) (n : Nat) :
    FlatForms (doBlocks b) (doBlocks (out (block b) n)) := by
  cases b with
  | nil => exact .nil
  | cons x later =>
    rw [out_block_cons, doBlocks_append, doBlocks_cons]
    exact (doBlocks_statement x n).append (doBlocks_block later _)

end
end Flatten

/-! ## The flat form -/

open Flatten (FlatForm FlatForms)

theorem Flatten.FlatForm.isFlat {b b' : Block} (h : FlatForm b b') : Block.IsFlat b' := by
  obtain ⟨n, rfl⟩ := h
  exact Flatten.block_isFlat b n

theorem Flatten.FlatForm.doBlocks {b b' : Block} (h : FlatForm b b') :
    FlatForms b.doBlocks b'.doBlocks := by
  obtain ⟨n, rfl⟩ := h
  exact doBlocks_block b n

namespace Block

theorem isNormal_flatten (b : Block) : b.flatten.IsNormal := by
  have h : List.Forall₂ (fun f' f => IsFlat f' ∧ FlatForm f f') b.flatten.bodies b.bodies :=
    (Flatten.bodies_out b 0).flip.imp fun f' f h => ⟨FlatForm.isFlat h, h⟩
  exact ((List.forall₂_and_left _ _).1 h).1

theorem flatten_of_isNormal {b : Block} (h : b.IsNormal) : b.flatten = b := by
  rw [flatten, Flatten.block_of_isNormal h]
  rfl

/-- The flat form of a block has no structured statement in any function. Functions and `do` blocks
correspond one to one, in their order, and flattening again changes nothing. -/
theorem flatten_normal_form (b : Block) :
    b.flatten.IsNormal ∧
      List.Forall₂ (fun f f' => FlatForm f f' ∧ FlatForms f.doBlocks f'.doBlocks)
        b.bodies b.flatten.bodies ∧
      b.flatten.flatten = b.flatten := by
  have hbodies : FlatForms b.bodies b.flatten.bodies := Flatten.bodies_out b 0
  exact ⟨isNormal_flatten b, hbodies.imp fun f f' h => ⟨h, h.doBlocks⟩,
    flatten_of_isNormal (isNormal_flatten b)⟩

end Block
end Resolved
end LuaFront
