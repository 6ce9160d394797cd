import LuaFront.Proofs.Syntax.Labels
import LuaFront.Syntax.Reading.Statement

/-!
# LuaFront.Proofs.Syntax.Relocation

Texts whose tokens stand in other places.

* `Placed.relocate f`: everything that was at a place `p` is now at `f p`. It is defined for syntax
  trees, for diagnostics, for journals and for readings.
* `Chunk.erase`: a tree without its places, which is the tree with all of them at zero. Trees that
  differ in where they stand are equal once this is done (`Chunk.erase_relocate`).
* `Stretches f`: places that are told apart as starts of tokens are told apart by `f`.
-/

namespace LuaFront

open Text (Span)

/-- Places at which a token may start in a text that has all its tokens at even places. -/
def Aligned (place : Nat) : Prop := 0 < place ∧ place % 2 = 0

/-- A move of places that keeps their order, and that keeps a token apart from its own end. Where a
token ends and where the next one starts may be moved together. -/
structure Stretches (f : Nat → Nat) : Prop where
  mono : ∀ a b, a ≤ b → f a ≤ f b
  strict : ∀ a, Aligned a → f a < f (a + 1)

namespace Stretches

variable {f : Nat → Nat} {a b : Nat}

theorem max (h : Stretches f) (a b : Nat) : f (max a b) = max (f a) (f b) := by
  by_cases hab : a ≤ b
  · rw [Nat.max_eq_right hab, Nat.max_eq_right (h.mono a b hab)]
  · have hba : b ≤ a := by omega
    rw [Nat.max_eq_left hba, Nat.max_eq_left (h.mono b a hba)]

theorem min (h : Stretches f) (a b : Nat) : f (min a b) = min (f a) (f b) := by
  by_cases hab : a ≤ b
  · rw [Nat.min_eq_left hab, Nat.min_eq_left (h.mono a b hab)]
  · have hba : b ≤ a := by omega
    rw [Nat.min_eq_right hba, Nat.min_eq_right (h.mono b a hba)]

/-- What comes after the start of a token comes after it still. -/
theorem lt_iff (h : Stretches f) (ha : Aligned a) : f a < f b ↔ a < b := by
  constructor
  · intro hlt
    by_cases hab : a < b
    · exact hab
    · have := h.mono b a (by omega)
      omega
  · intro hab
    exact Nat.lt_of_lt_of_le (h.strict a ha) (h.mono (a + 1) b hab)

theorem eq_iff (h : Stretches f) (ha : Aligned a) (hb : Aligned b) : f a = f b ↔ a = b := by
  constructor
  · intro heq
    have hab := h.lt_iff (b := b) ha
    have hba := h.lt_iff (b := a) hb
    omega
  · rintro rfl
    rfl

end Stretches

/-! ## Moving things -/

/-- Things that stand at places. -/
class Placed (α : Type) where
  relocate : (Nat → Nat) → α → α
  /-- Its names start where tokens start. -/
  Settled : α → Prop

open Placed (relocate Settled)

instance : Placed Unit := ⟨fun _ u => u, fun _ => True⟩
instance : Placed Bool := ⟨fun _ b => b, fun _ => True⟩
instance : Placed Kind := ⟨fun _ k => k, fun _ => True⟩
instance : Placed Syntax.Read.Shape := ⟨fun _ s => s, fun _ => True⟩

instance : Placed Span := ⟨fun f s => ⟨f s.start, f s.stop⟩, fun _ => True⟩
instance : Placed Token := ⟨fun f t => { t with span := relocate f t.span }, fun t => Aligned t.span.start⟩
instance : Placed Diagnostic := ⟨fun f d => ⟨relocate f d.span, d.cause⟩, fun _ => True⟩

section

variable {α β : Type} [Placed α] [Placed β]

instance : Placed (Option α) := ⟨fun f => Option.map (relocate f), fun x => ∀ a ∈ x, Settled a⟩
instance : Placed (List α) := ⟨fun f => List.map (relocate f), fun as => ∀ a ∈ as, Settled a⟩
instance : Placed (α × β) := ⟨fun f => Prod.map (relocate f) (relocate f), fun x => Settled x.1 ∧ Settled x.2⟩
instance : Placed (α ⊕ β) := ⟨fun f => Sum.map (relocate f) (relocate f), Sum.elim Settled Settled⟩

theorem settled_some {a : α} (h : Settled a) : Settled (some a) := by
  intro b hb
  cases hb
  exact h

theorem settled_head {a : α} {later : List α} (h : Settled (a :: later)) :
    Settled a :=
  h a List.mem_cons_self

theorem settled_tail {a : α} {later : List α} (h : Settled (a :: later)) :
    Settled later :=
  fun b hb => h b (List.mem_cons_of_mem _ hb)

theorem settled_append {as bs : List α} (has : Settled as)
    (hbs : Settled bs) : Settled (as ++ bs) :=
  List.forall_mem_append.2 ⟨has, hbs⟩

end

instance : Placed Lexeme where
  relocate f l := ⟨relocate f l.token, relocate f l.diagnostics⟩
  Settled _ := True

/-! ## Journals -/

instance : Placed Event where
  relocate f
    | .reported d => .reported (relocate f d)
    | .took t => .took (relocate f t)
    | .supplied kind offset => .supplied kind (f offset)
    | .forced kind offset => .forced kind (f offset)
    | e => e
  Settled _ := True

instance : Placed Journal where
  relocate f j := ⟨relocate f j.latestFirst⟩
  Settled _ := True

namespace Journal

variable (f : Nat → Nat)

theorem diagnostic?_relocate (e : Event) :
    (relocate f e).diagnostic? = e.diagnostic?.map (relocate f) := by
  cases e <;> rfl

theorem diagnostics_relocate (j : Journal) :
    (relocate f j).diagnostics = relocate f j.diagnostics := by
  have hevents : (relocate f j).events = relocate f j.events := List.map_reverse.symm
  have hcomp : Event.diagnostic? ∘ relocate f = fun e => e.diagnostic?.map (relocate f) :=
    funext (diagnostic?_relocate f)
  calc (relocate f j).diagnostics
      = (relocate f j.events).filterMap Event.diagnostic? := by rw [diagnostics, hevents]
    _ = j.events.filterMap (Event.diagnostic? ∘ relocate f) := List.filterMap_map
    _ = relocate f j.diagnostics := by rw [hcomp]; exact List.map_filterMap.symm

theorem lastDiagnostic?_eq (j : Journal) : j.lastDiagnostic? = j.diagnostics.getLast? := by
  rw [diagnostics, events, List.filterMap_reverse, List.getLast?_reverse, List.head?_filterMap,
    lastDiagnostic?]

theorem lastDiagnostic?_relocate (j : Journal) :
    (relocate f j).lastDiagnostic? = relocate f j.lastDiagnostic? := by
  rw [lastDiagnostic?_eq, lastDiagnostic?_eq, diagnostics_relocate]
  exact List.getLast?_map

end Journal

namespace Syntax

/-! ## Syntax trees -/

/-- A name that starts where a token may start; any other node. -/
def Node.Stands : Node → Prop
  | .name n => Aligned n.span.start
  | _ => True

instance : Placed Name where
  relocate f n := ⟨n.text, relocate f n.span⟩
  Settled n := (Node.name n).Everywhere Node.Stands

instance : Placed FunctionName where
  relocate f n := ⟨relocate f n.path, relocate f n.method, relocate f n.span⟩
  Settled _ := True

instance : Placed LocalDeclaration where
  relocate f d := ⟨relocate f d.name, relocate f d.attrib, relocate f d.span⟩
  Settled _ := True

namespace Relocate

variable (f : Nat → Nat)

mutual

@[simp]
def expression : Expression → Expression
  | .literal value s => .literal value (relocate f s)
  | .vararg s => .vararg (relocate f s)
  | .function body s => .function (functionBody body) (relocate f s)
  | .table entries s => .table (fields entries) (relocate f s)
  | .unary op operand s => .unary op (expression operand) (relocate f s)
  | .binary left op right s => .binary (expression left) op (expression right) (relocate f s)
  | .parenthesized inner s => .parenthesized (expression inner) (relocate f s)
  | .call receiver method arguments s =>
    .call (expression receiver) (relocate f method) (expressions arguments) (relocate f s)
  | .name n => .name (relocate f n)
  | .index target index s => .index (expression target) (expression index) (relocate f s)
  | .dotted target n s => .dotted (expression target) (relocate f n) (relocate f s)

@[simp]
def expressions : List Expression → List Expression
  | [] => []
  | e :: later => expression e :: expressions later

@[simp]
def field : Field → Field
  | .positional value s => .positional (expression value) (relocate f s)
  | .named n value s => .named (relocate f n) (expression value) (relocate f s)
  | .keyed key value s => .keyed (expression key) (expression value) (relocate f s)

@[simp]
def fields : List Field → List Field
  | [] => []
  | x :: later => field x :: fields later

@[simp]
def functionBody : FunctionBody → FunctionBody
  | ⟨parameters, vararg, body, s⟩ => ⟨relocate f parameters, vararg, block body, relocate f s⟩

@[simp]
def block : Block → Block
  | ⟨body, last, s⟩ => ⟨statements body, result last, relocate f s⟩

@[simp]
def result : Option Return → Option Return
  | none => none
  | some ⟨values, s⟩ => some ⟨expressions values, relocate f s⟩

@[simp]
def statements : List Statement → List Statement
  | [] => []
  | s :: later => statement s :: statements later

@[simp]
def elseIf : ElseIf → ElseIf
  | ⟨condition, body, s⟩ => ⟨expression condition, block body, relocate f s⟩

@[simp]
def elseIfs : List ElseIf → List ElseIf
  | [] => []
  | e :: later => elseIf e :: elseIfs later

@[simp]
def otherwise : Option Block → Option Block
  | none => none
  | some body => some (block body)

@[simp]
def step : Option Expression → Option Expression
  | none => none
  | some e => some (expression e)

@[simp]
def statement : Statement → Statement
  | .assign targets values s => .assign (expressions targets) (expressions values) (relocate f s)
  | .declare declarations values s =>
    .declare (relocate f declarations) (expressions values) (relocate f s)
  | .call e s => .call (expression e) (relocate f s)
  | .ifThen c b es o s => .ifThen (expression c) (block b) (elseIfs es) (otherwise o) (relocate f s)
  | .whileDo c b s => .whileDo (expression c) (block b) (relocate f s)
  | .repeatUntil b c s => .repeatUntil (block b) (expression c) (relocate f s)
  | .numericFor n initial limit increment b s =>
    .numericFor (relocate f n) (expression initial) (expression limit) (step increment) (block b)
      (relocate f s)
  | .genericFor names values b s =>
    .genericFor (relocate f names) (expressions values) (block b) (relocate f s)
  | .doBlock b s => .doBlock (block b) (relocate f s)
  | .breakLoop s => .breakLoop (relocate f s)
  | .goto n s => .goto (relocate f n) (relocate f s)
  | .label n s => .label (relocate f n) (relocate f s)
  | .function n body s => .function (relocate f n) (functionBody body) (relocate f s)
  | .localFunction n body s => .localFunction (relocate f n) (functionBody body) (relocate f s)

end

end Relocate

instance : Placed Expression := ⟨Relocate.expression, fun e => (Node.expression e).Everywhere Node.Stands⟩
instance : Placed Field := ⟨Relocate.field, fun x => (Node.field x).Everywhere Node.Stands⟩
instance : Placed FunctionBody :=
  ⟨Relocate.functionBody, fun b => (Node.functionBody b).Everywhere Node.Stands⟩
instance : Placed Block := ⟨Relocate.block, fun b => (Node.block b).Everywhere Node.Stands⟩
instance : Placed Return where
  relocate f r := ⟨relocate f r.values, relocate f r.span⟩
  Settled r := (Node.result r).Everywhere Node.Stands
instance : Placed ElseIf := ⟨Relocate.elseIf, fun e => (Node.elseIf e).Everywhere Node.Stands⟩
instance : Placed Statement := ⟨Relocate.statement, fun s => (Node.statement s).Everywhere Node.Stands⟩
instance : Placed Chunk where
  relocate f c := ⟨relocate f c.block, relocate f c.span⟩
  Settled c := (Node.block c.block).Everywhere Node.Stands

namespace Relocate

variable (f : Nat → Nat)

/-! A list of parts, or a part that may be absent, is moved part by part. -/

theorem expressions_eq (es : List Expression) : expressions f es = relocate f es := by
  induction es with
  | nil => rfl
  | cons e later ih => exact congrArg _ ih

theorem fields_eq (fs : List Field) : fields f fs = relocate f fs := by
  induction fs with
  | nil => rfl
  | cons x later ih => exact congrArg _ ih

theorem statements_eq (ss : List Statement) : statements f ss = relocate f ss := by
  induction ss with
  | nil => rfl
  | cons s later ih => exact congrArg _ ih

theorem elseIfs_eq (es : List ElseIf) : elseIfs f es = relocate f es := by
  induction es with
  | nil => rfl
  | cons e later ih => exact congrArg _ ih

theorem otherwise_eq (b : Option Block) : otherwise f b = relocate f b := by
  cases b <;> rfl

theorem step_eq (e : Option Expression) : step f e = relocate f e := by
  cases e <;> rfl

theorem result_eq (r : Option Return) : result f r = relocate f r := by
  cases r with
  | none => rfl
  | some r =>
    obtain ⟨values, s⟩ := r
    simp only [result, expressions_eq]
    rfl

end Relocate

theorem Expression.isVariable_relocate (f : Nat → Nat) (e : Expression) :
    (relocate f e).isVariable = e.isVariable := by
  cases e <;> rfl

theorem Expression.span_relocate (f : Nat → Nat) (e : Expression) :
    (relocate f e).span = relocate f e.span := by
  cases e <;> rfl

/-! ## Settled trees -/

namespace Node

theorem stands_expression {e : Expression} :
    Settled e ↔ ∀ c ∈ e.parts, c.Everywhere Stands :=
  everywhere_iff.trans ⟨fun h => h.2, fun h => ⟨trivial, h⟩⟩

theorem stands_field {x : Field} : Settled x ↔ ∀ c ∈ x.parts, c.Everywhere Stands :=
  everywhere_iff.trans ⟨fun h => h.2, fun h => ⟨trivial, h⟩⟩

theorem stands_statement {s : Statement} : Settled s ↔ ∀ c ∈ s.parts, c.Everywhere Stands :=
  everywhere_iff.trans ⟨fun h => h.2, fun h => ⟨trivial, h⟩⟩

theorem stands_block {b : Block} : Settled b ↔ ∀ c ∈ b.parts, c.Everywhere Stands :=
  everywhere_iff.trans ⟨fun h => h.2, fun h => ⟨trivial, h⟩⟩

theorem stands_otherwise {b : Block} : (otherwise b).Everywhere Stands ↔ Settled b := by
  rw [stands_block]
  exact everywhere_iff.trans ⟨fun h => h.2, fun h => ⟨trivial, h⟩⟩

theorem stands_name {n : Name} : Settled n ↔ Aligned n.span.start :=
  everywhere_iff.trans ⟨fun h => h.1, fun h => ⟨h, by simp [children]⟩⟩

/-- A part that may be absent. -/
theorem stands_toList {α : Type} {part : α → Node} {x : Option α}
    (h : ∀ a ∈ x, (part a).Everywhere Stands) :
    ∀ c ∈ (x.map part).toList, c.Everywhere Stands := by
  cases x with
  | none => simp
  | some a => exact List.forall_mem_singleton.2 (h a rfl)

theorem stands_functionName (n : FunctionName) : (functionName n).Everywhere Stands :=
  everywhere_iff.2 ⟨trivial, by simp [children]⟩

theorem stands_declaration (d : LocalDeclaration) : (declaration d).Everywhere Stands :=
  everywhere_iff.2 ⟨trivial, by simp [children]⟩

theorem stands_functionBody {b : FunctionBody} : Settled b ↔ Settled b.parameters ∧ Settled b.block := by
  refine everywhere_iff.trans ?_
  simp only [children, Stands, true_and, List.mem_append, List.mem_map, List.mem_singleton, or_imp,
    forall_and, forall_exists_index, and_imp, forall_apply_eq_imp_iff₂, forall_eq]
  exact Iff.rfl

theorem stands_result {r : Return} : Settled r ↔ Settled r.values := by
  refine everywhere_iff.trans ?_
  simp only [children, Stands, true_and, List.mem_map, forall_exists_index, and_imp,
    forall_apply_eq_imp_iff₂]
  exact Iff.rfl

theorem stands_elseIf {e : ElseIf} : Settled e ↔ Settled e.condition ∧ Settled e.block := by
  refine everywhere_iff.trans ?_
  simp only [children, Stands, true_and, List.mem_cons, List.not_mem_nil, or_false, forall_eq_or_imp,
    forall_eq]
  exact Iff.rfl

end Node

/-! ## Trees without places -/

section

variable (f g : Nat → Nat)

theorem relocate_span (s : Span) : relocate g (relocate f s) = relocate (g ∘ f) s := rfl

theorem relocate_name (n : Name) : relocate g (relocate f n) = relocate (g ∘ f) n := rfl

theorem relocate_option (n : Option Name) : relocate g (relocate f n) = relocate (g ∘ f) n := by
  cases n <;> rfl

theorem relocate_names (ns : List Name) : relocate g (relocate f ns) = relocate (g ∘ f) ns :=
  List.map_map

theorem relocate_functionName (n : FunctionName) :
    relocate g (relocate f n) = relocate (g ∘ f) n :=
  (FunctionName.mk.injEq ..).mpr
    ⟨relocate_names f g n.path, relocate_option f g n.method, relocate_span f g n.span⟩

theorem relocate_declarations (ds : List LocalDeclaration) :
    relocate g (relocate f ds) = relocate (g ∘ f) ds := by
  have hone (d : LocalDeclaration) : relocate g (relocate f d) = relocate (g ∘ f) d :=
    congrArg (LocalDeclaration.mk _ · _) (relocate_option f g d.attrib)
  exact List.map_map.trans (List.map_congr_left fun d _ => hone d)

end

namespace Relocate

variable (f g : Nat → Nat)

mutual

theorem expression_comp (e : Expression) :
    expression g (expression f e) = expression (g ∘ f) e := by
  cases e with
  | function body s => simp [relocate_span, functionBody_comp body]
  | table entries s => simp [relocate_span, fields_comp entries]
  | unary op operand s => simp [relocate_span, expression_comp operand]
  | binary left op right s => simp [relocate_span, expression_comp left, expression_comp right]
  | parenthesized inner s => simp [relocate_span, expression_comp inner]
  | call receiver method arguments s =>
    simp [relocate_span, relocate_option, expression_comp receiver, expressions_comp arguments]
  | index target index s => simp [relocate_span, expression_comp target, expression_comp index]
  | dotted target n s => simp [relocate_span, relocate_name, expression_comp target]
  | _ => simp [relocate_span, relocate_name]

theorem expressions_comp (es : List Expression) :
    expressions g (expressions f es) = expressions (g ∘ f) es := by
  cases es with
  | nil => rfl
  | cons e later => simp [expression_comp e, expressions_comp later]

theorem fields_comp (fs : List Field) : fields g (fields f fs) = fields (g ∘ f) fs := by
  cases fs with
  | nil => rfl
  | cons x later =>
    cases x with
    | positional value s => simp [relocate_span, expression_comp value, fields_comp later]
    | named n value s =>
      simp [relocate_span, relocate_name, expression_comp value, fields_comp later]
    | keyed key value s =>
      simp [relocate_span, expression_comp key, expression_comp value, fields_comp later]

theorem functionBody_comp (b : FunctionBody) :
    functionBody g (functionBody f b) = functionBody (g ∘ f) b := by
  obtain ⟨parameters, vararg, body, s⟩ := b
  simp [relocate_span, relocate_names, block_comp body]

theorem block_comp (b : Block) : block g (block f b) = block (g ∘ f) b := by
  obtain ⟨body, last, s⟩ := b
  cases last with
  | none => simp [relocate_span, statements_comp body]
  | some r =>
    obtain ⟨values, s'⟩ := r
    simp [relocate_span, statements_comp body, expressions_comp values]

theorem statements_comp (ss : List Statement) :
    statements g (statements f ss) = statements (g ∘ f) ss := by
  cases ss with
  | nil => rfl
  | cons s later => simp [statement_comp s, statements_comp later]

theorem elseIfs_comp (es : List ElseIf) : elseIfs g (elseIfs f es) = elseIfs (g ∘ f) es := by
  cases es with
  | nil => rfl
  | cons e later =>
    obtain ⟨condition, body, s⟩ := e
    simp [relocate_span, expression_comp condition, block_comp body, elseIfs_comp later]

theorem statement_comp (s : Statement) : statement g (statement f s) = statement (g ∘ f) s := by
  cases s with
  | assign targets values s =>
    simp [relocate_span, expressions_comp targets, expressions_comp values]
  | declare declarations values s =>
    simp [relocate_span, relocate_declarations, expressions_comp values]
  | call e s => simp [relocate_span, expression_comp e]
  | ifThen c b es o s =>
    cases o with
    | none => simp [relocate_span, expression_comp c, block_comp b, elseIfs_comp es]
    | some o => simp [relocate_span, expression_comp c, block_comp b, elseIfs_comp es, block_comp o]
  | whileDo c b s => simp [relocate_span, expression_comp c, block_comp b]
  | repeatUntil b c s => simp [relocate_span, expression_comp c, block_comp b]
  | numericFor n initial limit increment b s =>
    cases increment with
    | none =>
      simp [relocate_span, relocate_name, expression_comp initial, expression_comp limit,
        block_comp b]
    | some increment =>
      simp [relocate_span, relocate_name, expression_comp initial, expression_comp limit,
        expression_comp increment, block_comp b]
  | genericFor names values b s =>
    simp [relocate_span, relocate_names, expressions_comp values, block_comp b]
  | doBlock b s => simp [relocate_span, block_comp b]
  | function n body s => simp [relocate_span, relocate_functionName, functionBody_comp body]
  | localFunction n body s => simp [relocate_span, relocate_name, functionBody_comp body]
  | _ => simp [relocate_span, relocate_name]

end

end Relocate

/-- A program without its places. -/
def Chunk.erase (c : Chunk) : Chunk := relocate (fun _ => 0) c

/-- Where a program stood leaves no trace. -/
theorem Chunk.erase_relocate (f : Nat → Nat) (c : Chunk) : (relocate f c).erase = c.erase := by
  have hblock : relocate (fun _ => 0) (relocate f c.block) = relocate (fun _ => 0) c.block :=
    Relocate.block_comp f (fun _ => 0) c.block
  exact congrArg (Chunk.mk · _) hblock

end Syntax
end LuaFront
