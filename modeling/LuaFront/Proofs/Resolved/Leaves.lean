import LuaFront.Resolved.Transform

/-!
# LuaFront.Proofs.Resolved.Leaves

What a transform does that says only what becomes of the leaves.

* `Leaves.block`: the leaves of a program, in the order in which they are written.
* `Refill.block`: a program with something else in place of each leaf, which may depend on the
  leaves before it. Nothing but the leaves changes.
* `Transform.image`: what a transform puts in place of a leaf, after it has seen those before it.
* `Transform.Visits`: a part of a transform sees certain leaves, once each and in order.
* `Transform.run_leaves`: a transform that only overrides what becomes of the leaves puts its images
  in their places.
-/

namespace LuaFront
namespace Resolved

open Syntax (Literal)

/-- What a transform can override with no regard to the parts of a node. -/
inductive Leaf where
  | literal (value : Literal)
  | name (symbol : Local)
  | vararg
  | error
  | goto (label : Label)
  | label (label : Label)

/-- What can stand where the leaf stands. -/
def Leaf.Image : Leaf → Type
  | .literal _ => Expression
  | .name _ => Expression
  | .vararg => Expression
  | .error => Expression
  | .goto _ => Statement
  | .label _ => Statement

/-- The leaf where it stands. -/
def Leaf.self : (l : Leaf) → l.Image
  | .literal value => Expression.literal value
  | .name symbol => Expression.name symbol
  | .vararg => Expression.vararg
  | .error => Expression.error
  | .goto target => Statement.goto target
  | .label target => Statement.label target

/-! ## The leaves of a program -/

namespace Leaves

mutual

@[simp]
def expression : Expression → List Leaf
  | .literal value => [.literal value]
  | .name symbol => [.name symbol]
  | .vararg => [.vararg]
  | .function _ _ body => block body
  | .table entries => fields entries
  | .unary _ operand => expression operand
  | .binary left _ right => expression left ++ expression right
  | .parenthesized inner => expression inner
  | .call receiver _ arguments => expression receiver ++ expressions arguments
  | .index target index => expression target ++ expression index
  | .error => [.error]

@[simp]
def expressions : List Expression → List Leaf
  | [] => []
  | e :: later => expression e ++ expressions later

@[simp]
def fields : List Field → List Leaf
  | [] => []
  | .positional _ value :: later => expression value ++ fields later
  | .keyed key value :: later => expression key ++ (expression value ++ fields later)

@[simp]
def branches : List Branch → List Leaf
  | [] => []
  | ⟨condition, body⟩ :: later => expression condition ++ (block body ++ branches later)

@[simp]
def otherwise : Option (List Statement) → List Leaf
  | none => []
  | some body => block body

@[simp]
def statement : Statement → List Leaf
  | .expression e => expression e
  | .assign targets values => expressions targets ++ expressions values
  | .declare _ values => expressions values
  | .result values => expressions values
  | .ifThen condition body elseIfs other =>
    expression condition ++ (block body ++ (branches elseIfs ++ otherwise other))
  | .whileDo condition body _ => expression condition ++ block body
  | .repeatUntil body condition _ => block body ++ expression condition
  | .numericFor _ initial limit step body _ =>
    expression initial ++ (expression limit ++ (expression step ++ block body))
  | .genericFor _ values body _ => expressions values ++ block body
  | .doBlock body => block body
  | .goto label => [.goto label]
  | .gotoIf _ condition _ => expression condition
  | .label label => [.label label]

@[simp]
def block : List Statement → List Leaf
  | [] => []
  | s :: later => statement s ++ block later

end

end Leaves

/-! ## A program with other leaves -/

namespace Refill

variable (image : List Leaf → (l : Leaf) → l.Image)

mutual

def expression (before : List Leaf) : Expression → Expression
  | .literal value => image before (.literal value)
  | .name symbol => image before (.name symbol)
  | .vararg => image before .vararg
  | .function parameters vararg body => .function parameters vararg (block before body)
  | .table entries => .table (fields before entries)
  | .unary op operand => .unary op (expression before operand)
  | .binary left op right =>
    .binary (expression before left) op (expression (before ++ Leaves.expression left) right)
  | .parenthesized inner => .parenthesized (expression before inner)
  | .call receiver method arguments =>
    .call (expression before receiver) method
      (expressions (before ++ Leaves.expression receiver) arguments)
  | .index target index =>
    .index (expression before target) (expression (before ++ Leaves.expression target) index)
  | .error => image before .error

def expressions (before : List Leaf) : List Expression → List Expression
  | [] => []
  | e :: later => expression before e :: expressions (before ++ Leaves.expression e) later

def fields (before : List Leaf) : List Field → List Field
  | [] => []
  | .positional position value :: later =>
    .positional position (expression before value) ::
      fields (before ++ Leaves.expression value) later
  | .keyed key value :: later =>
    .keyed (expression before key) (expression (before ++ Leaves.expression key) value) ::
      fields (before ++ Leaves.expression key ++ Leaves.expression value) later

def branches (before : List Leaf) : List Branch → List Branch
  | [] => []
  | ⟨condition, body⟩ :: later =>
    ⟨expression before condition, block (before ++ Leaves.expression condition) body⟩ ::
      branches (before ++ Leaves.expression condition ++ Leaves.block body) later

def otherwise (before : List Leaf) : Option (List Statement) → Option (List Statement)
  | none => none
  | some body => some (block before body)

def statement (before : List Leaf) : Statement → Statement
  | .expression e => .expression (expression before e)
  | .assign targets values =>
    .assign (expressions before targets) (expressions (before ++ Leaves.expressions targets) values)
  | .declare symbols values => .declare symbols (expressions before values)
  | .result values => .result (expressions before values)
  | .ifThen condition body elseIfs other =>
    let toBody := before ++ Leaves.expression condition
    let toElseIfs := toBody ++ Leaves.block body
    .ifThen (expression before condition) (block toBody body) (branches toElseIfs elseIfs)
      (otherwise (toElseIfs ++ Leaves.branches elseIfs) other)
  | .whileDo condition body exit =>
    .whileDo (expression before condition) (block (before ++ Leaves.expression condition) body) exit
  | .repeatUntil body condition exit =>
    .repeatUntil (block before body) (expression (before ++ Leaves.block body) condition) exit
  | .numericFor counter initial limit step body exit =>
    let toLimit := before ++ Leaves.expression initial
    let toStep := toLimit ++ Leaves.expression limit
    .numericFor counter (expression before initial) (expression toLimit limit)
      (expression toStep step) (block (toStep ++ Leaves.expression step) body) exit
  | .genericFor symbols values body exit =>
    .genericFor symbols (expressions before values)
      (block (before ++ Leaves.expressions values) body) exit
  | .doBlock body => .doBlock (block before body)
  | .goto label => image before (.goto label)
  | .gotoIf label condition wanted => .gotoIf label (expression before condition) wanted
  | .label label => image before (.label label)

def block (before : List Leaf) : List Statement → List Statement
  | [] => []
  | s :: later => statement before s :: block (before ++ Leaves.statement s) later

end

mutual

@[simp]
theorem expression_self : ∀ (e : Expression) (before : List Leaf),
    expression (fun _ l => l.self) before e = e
  | .literal _, _ => rfl
  | .name _, _ => rfl
  | .vararg, _ => rfl
  | .function _ _ body, before => by rw [expression, block_self body before]
  | .table entries, before => by rw [expression, fields_self entries before]
  | .unary _ operand, before => by rw [expression, expression_self operand before]
  | .binary left _ right, before => by
    rw [expression, expression_self left before, expression_self right _]
  | .parenthesized inner, before => by rw [expression, expression_self inner before]
  | .call receiver _ arguments, before => by
    rw [expression, expression_self receiver before, expressions_self arguments _]
  | .index target index, before => by
    rw [expression, expression_self target before, expression_self index _]
  | .error, _ => rfl

@[simp]
theorem expressions_self : ∀ (es : List Expression) (before : List Leaf),
    expressions (fun _ l => l.self) before es = es
  | [], _ => rfl
  | e :: later, before => by rw [expressions, expression_self e before, expressions_self later _]

@[simp]
theorem fields_self : ∀ (fs : List Field) (before : List Leaf),
    fields (fun _ l => l.self) before fs = fs
  | [], _ => rfl
  | .positional _ value :: later, before => by
    rw [fields, expression_self value before, fields_self later _]
  | .keyed key value :: later, before => by
    rw [fields, expression_self key before, expression_self value _, fields_self later _]

@[simp]
theorem branches_self : ∀ (bs : List Branch) (before : List Leaf),
    branches (fun _ l => l.self) before bs = bs
  | [], _ => rfl
  | ⟨condition, body⟩ :: later, before => by
    rw [branches, expression_self condition before, block_self body _, branches_self later _]

@[simp]
theorem otherwise_self : ∀ (other : Option (List Statement)) (before : List Leaf),
    otherwise (fun _ l => l.self) before other = other
  | none, _ => rfl
  | some body, before => by rw [otherwise, block_self body before]

@[simp]
theorem statement_self : ∀ (s : Statement) (before : List Leaf),
    statement (fun _ l => l.self) before s = s
  | .expression e, before => by rw [statement, expression_self e before]
  | .assign targets values, before => by
    rw [statement, expressions_self targets before, expressions_self values _]
  | .declare _ values, before => by rw [statement, expressions_self values before]
  | .result values, before => by rw [statement, expressions_self values before]
  | .ifThen condition body elseIfs other, before => by
    rw [statement, expression_self condition before, block_self body _, branches_self elseIfs _,
      otherwise_self other _]
  | .whileDo condition body _, before => by
    rw [statement, expression_self condition before, block_self body _]
  | .repeatUntil body condition _, before => by
    rw [statement, block_self body before, expression_self condition _]
  | .numericFor _ initial limit step body _, before => by
    rw [statement, expression_self initial before, expression_self limit _,
      expression_self step _, block_self body _]
  | .genericFor _ values body _, before => by
    rw [statement, expressions_self values before, block_self body _]
  | .doBlock body, before => by rw [statement, block_self body before]
  | .goto _, _ => rfl
  | .gotoIf _ condition _, before => by rw [statement, expression_self condition before]
  | .label _, _ => rfl

/-- With each leaf in its own place the program is as it was. -/
@[simp]
theorem block_self : ∀ (b : List Statement) (before : List Leaf),
    block (fun _ l => l.self) before b = b
  | [], _ => rfl
  | s :: later, before => by rw [block, statement_self s before, block_self later _]

end

end Refill

/-! ## Transforms -/

namespace Transform

variable {σ : Type} {α β : Type} (t : Transform σ)

/-- What the transform overrides for a leaf. -/
def leaf : (l : Leaf) → StateM σ l.Image
  | .literal value => t.literal value
  | .name symbol => t.name symbol
  | .vararg => t.vararg
  | .error => t.error
  | .goto label => t.goto label
  | .label label => t.label label

/-- The state after the overrides were called for some leaves, each once and in order. -/
def after (s : σ) (ls : List Leaf) : σ := ls.foldl (fun s l => ((t.leaf l).run s).2) s

/-- What comes of a leaf when those before it were seen. -/
def image (s : σ) (before : List Leaf) (l : Leaf) : l.Image :=
  ((t.leaf l).run (t.after s before)).1

theorem after_append (s : σ) (ls ls' : List Leaf) :
    t.after s (ls ++ ls') = t.after (t.after s ls) ls' := List.foldl_append

/-- Only what becomes of the leaves is overridden. -/
structure OnLeaves : Prop where
  binary : t.binary = .binary
  parenthesized : t.parenthesized = .parenthesized

/-- Behind certain leaves, `m` comes to `a` and calls the overrides for the leaves `ls`. -/
def Visits (s : σ) (before : List Leaf) (m : StateM σ α) (a : α) (ls : List Leaf) : Prop :=
  m.run (t.after s before) = (a, t.after s (before ++ ls))

variable {t} {s : σ} {before ls ls' : List Leaf}

namespace Visits

theorem pure (a : α) : t.Visits s before (pure a) a [] := by
  rw [Visits, List.append_nil]
  rfl

theorem leaf (l : Leaf) : t.Visits s before (t.leaf l) (t.image s before l) [l] := by
  rw [Visits, after_append]
  rfl

/-- One part behind another. -/
theorem bind {m : StateM σ α} {k : α → StateM σ β} {a : α} {b : β}
    (hm : t.Visits s before m a ls) (hk : t.Visits s (before ++ ls) (k a) b ls') :
    t.Visits s before (m >>= k) b (ls ++ ls') := by
  rw [Visits, StateT.run_bind, hm, ← List.append_assoc]
  exact hk

/-- The last part, and what is made of it. -/
theorem bind_pure {m : StateM σ α} {f : α → β} {a : α} (hm : t.Visits s before m a ls) :
    t.Visits s before (m >>= fun a => Pure.pure (f a)) (f a) ls := by
  have hpure := hm.bind (k := fun a => Pure.pure (f a)) (.pure (f a))
  rwa [List.append_nil] at hpure

end Visits

mutual

theorem expression_visits (ht : t.OnLeaves) : ∀ (e : Expression) (before : List Leaf),
    t.Visits s before (t.expression e) (Refill.expression (t.image s) before e)
      (Leaves.expression e)
  | .literal value, _ => .leaf (.literal value)
  | .name symbol, _ => .leaf (.name symbol)
  | .vararg, _ => .leaf .vararg
  | .function _ _ body, before => (block_visits ht body before).bind_pure
  | .table entries, before => (fields_visits ht entries before).bind_pure
  | .unary _ operand, before => (expression_visits ht operand before).bind_pure
  | .binary left op right, before => by
    rw [expression, ht.binary]
    exact (expression_visits ht left before).bind (expression_visits ht right _).bind_pure
  | .parenthesized inner, before => by
    rw [expression, ht.parenthesized]
    exact (expression_visits ht inner before).bind_pure
  | .call receiver _ arguments, before =>
    (expression_visits ht receiver before).bind (expressions_visits ht arguments _).bind_pure
  | .index target index, before =>
    (expression_visits ht target before).bind (expression_visits ht index _).bind_pure
  | .error, _ => .leaf .error

theorem expressions_visits (ht : t.OnLeaves) : ∀ (es : List Expression) (before : List Leaf),
    t.Visits s before (t.expressions es) (Refill.expressions (t.image s) before es)
      (Leaves.expressions es)
  | [], _ => .pure []
  | e :: later, before =>
    (expression_visits ht e before).bind (expressions_visits ht later _).bind_pure

theorem fields_visits (ht : t.OnLeaves) : ∀ (fs : List Field) (before : List Leaf),
    t.Visits s before (t.fields fs) (Refill.fields (t.image s) before fs) (Leaves.fields fs)
  | [], _ => .pure []
  | .positional _ value :: later, before =>
    (expression_visits ht value before).bind (fields_visits ht later _).bind_pure
  | .keyed key value :: later, before =>
    (expression_visits ht key before).bind
      ((expression_visits ht value _).bind (fields_visits ht later _).bind_pure)

theorem branches_visits (ht : t.OnLeaves) : ∀ (bs : List Branch) (before : List Leaf),
    t.Visits s before (t.branches bs) (Refill.branches (t.image s) before bs) (Leaves.branches bs)
  | [], _ => .pure []
  | ⟨condition, body⟩ :: later, before =>
    (expression_visits ht condition before).bind
      ((block_visits ht body _).bind (branches_visits ht later _).bind_pure)

theorem statement_visits (ht : t.OnLeaves) : ∀ (st : Statement) (before : List Leaf),
    t.Visits s before (t.statement st) (Refill.statement (t.image s) before st)
      (Leaves.statement st)
  | .expression e, before => (expression_visits ht e before).bind_pure
  | .assign targets values, before =>
    (expressions_visits ht targets before).bind (expressions_visits ht values _).bind_pure
  | .declare _ values, before => (expressions_visits ht values before).bind_pure
  | .result values, before => (expressions_visits ht values before).bind_pure
  | .ifThen condition body elseIfs none, before => by
    refine (expression_visits ht condition before).bind ((block_visits ht body _).bind ?_)
    exact (branches_visits ht elseIfs _).bind (.pure _)
  | .ifThen condition body elseIfs (some other), before => by
    refine (expression_visits ht condition before).bind ((block_visits ht body _).bind ?_)
    exact (branches_visits ht elseIfs _).bind (block_visits ht other _).bind_pure
  | .whileDo condition body _, before =>
    (expression_visits ht condition before).bind (block_visits ht body _).bind_pure
  | .repeatUntil body condition _, before =>
    (block_visits ht body before).bind (expression_visits ht condition _).bind_pure
  | .numericFor _ initial limit step body _, before => by
    refine (expression_visits ht initial before).bind ((expression_visits ht limit _).bind ?_)
    exact (expression_visits ht step _).bind (block_visits ht body _).bind_pure
  | .genericFor _ values body _, before =>
    (expressions_visits ht values before).bind (block_visits ht body _).bind_pure
  | .doBlock body, before => (block_visits ht body before).bind_pure
  | .goto label, _ => .leaf (.goto label)
  | .gotoIf _ condition _, before => (expression_visits ht condition before).bind_pure
  | .label label, _ => .leaf (.label label)

theorem block_visits (ht : t.OnLeaves) : ∀ (b : List Statement) (before : List Leaf),
    t.Visits s before (t.block b) (Refill.block (t.image s) before b) (Leaves.block b)
  | [], _ => .pure []
  | st :: later, before =>
    (statement_visits ht st before).bind (block_visits ht later _).bind_pure

end

theorem leaf_default (l : Leaf) : ({} : Transform σ).leaf l = pure l.self := by
  cases l <;> rfl

theorem after_default (s : σ) (ls : List Leaf) : ({} : Transform σ).after s ls = s := by
  induction ls with
  | nil => rfl
  | cons l ls ih =>
    rw [after, List.foldl_cons, leaf_default]
    exact ih

theorem image_default (s : σ) : ({} : Transform σ).image s = fun _ l => l.self := by
  funext before l
  rw [image, leaf_default]
  rfl

/-- A transform that overrides only what becomes of the leaves visits each of them once, in the order
in which they are written, and changes nothing else; one that overrides nothing changes nothing. -/
theorem run_leaves (b : Block) (s : σ) :
    (∀ t : Transform σ, t.OnLeaves →
      (t.block b).run s = (Refill.block (t.image s) [] b, t.after s (Leaves.block b))) ∧
    (({} : Transform σ).block b).run s = (b, s) := by
  have hall : ∀ t : Transform σ, t.OnLeaves →
      (t.block b).run s = (Refill.block (t.image s) [] b, t.after s (Leaves.block b)) :=
    fun t ht => block_visits ht b []
  refine ⟨hall, ?_⟩
  rw [hall {} ⟨rfl, rfl⟩, image_default, Refill.block_self, after_default]

theorem run_leaves_tracing :
    let x : Local := .plain (.declared 0 0) "x"
    let l : Label := ⟨.declared 0 1, "l"⟩
    tracing.OnLeaves ∧
      ((tracing.block [.repeatUntil [.goto l, .label l] (.name x) l,
        .genericFor [x] [.vararg] [.expression .error] l]).run []).2 =
          ["goto l", "label l", "name x", "vararg", "error"] := by
  refine ⟨⟨rfl, rfl⟩, ?_⟩
  rw [(run_leaves _ _).1 tracing ⟨rfl, rfl⟩]
  rfl

end Transform
end Resolved
end LuaFront
