import LuaFront.Proofs.Resolved.Renaming

/-!
# LuaFront.Proofs.Resolved.Variables

The variables of a resolved program.

* `Declared`: all variables that are declared in a piece of a program, each as often as it is
  declared. Declarations, loops and functions declare variables.
* `Occurs P`: every occurrence of a variable in a piece of a program has the property `P`, given the
  variables visible there. A variable is visible behind its declaration in the same list of
  statements and in what is nested there, that of a loop in the body, a parameter in its function,
  those of a repeated body in the condition, and one declared as a function in the function too.
* `Block.WellScoped`: every variable is declared once, occurs only where it is visible, and is told
  by its name from those that were made up.
* `Issued`: different variables, with numbers from a range.
-/

namespace LuaFront
namespace Resolved

/-! ## Declarations -/

/-- The variables that a statement shows to those behind it. -/
def Statement.locals : Statement → List Local
  | .declare symbols _ => symbols
  | _ => []

namespace Block

def locals (b : Block) : List Local := b.flatMap Statement.locals

@[simp]
theorem locals_nil : locals [] = [] := rfl

@[simp]
theorem locals_cons (x : Statement) (b : Block) : locals (x :: b) = x.locals ++ locals b := by
  simp [locals]

@[simp]
theorem locals_append (a b : Block) : locals (a ++ b) = locals a ++ locals b :=
  List.flatMap_append

end Block

namespace Declared

mutual

@[simp]
def expression : Expression → List Local
  | .function parameters _ body => parameters ++ block body
  | .table fs => fields fs
  | .unary _ operand => expression operand
  | .binary left _ right => expression left ++ expression right
  | .parenthesized inner => expression inner
  | .call receiver _ arguments => expression receiver ++ expressions arguments
  | .index target index => expression target ++ expression index
  | _ => []

@[simp]
def expressions : List Expression → List Local
  | [] => []
  | e :: later => expression e ++ expressions later

@[simp]
def fields : List Field → List Local
  | [] => []
  | .positional _ value :: later => expression value ++ fields later
  | .keyed key value :: later => expression key ++ expression value ++ fields later

@[simp]
def branches : List Branch → List Local
  | [] => []
  | ⟨condition, b⟩ :: later => expression condition ++ block b ++ branches later

@[simp]
def otherwise : Option (List Statement) → List Local
  | none => []
  | some b => block b

@[simp]
def statement : Statement → List Local
  | .expression e => expression e
  | .assign targets values => expressions targets ++ expressions values
  | .declare symbols values => symbols ++ expressions values
  | .result values => expressions values
  | .ifThen c b es o => expression c ++ block b ++ branches es ++ otherwise o
  | .whileDo c b _ => expression c ++ block b
  | .repeatUntil b c _ => block b ++ expression c
  | .numericFor counter initial limit step b _ =>
    expression initial ++ expression limit ++ expression step ++ counter :: block b
  | .genericFor symbols values b _ => expressions values ++ symbols ++ block b
  | .doBlock b => block b
  | .gotoIf _ c _ => expression c
  | .goto _ | .label _ => []

@[simp]
def block : List Statement → List Local
  | [] => []
  | x :: later => statement x ++ block later

end

@[simp]
theorem block_append (a b : Block) : block (a ++ b) = block a ++ block b := by
  induction a with
  | nil => rfl
  | cons x later ih => simp [ih]

end Declared

/-! ## Occurrences -/

/-- A variable that is declared as a function is visible in that function. -/
def ownFunction : List Local → List Expression → List Local
  | [symbol], [.function ..] => [symbol]
  | _, _ => []

theorem ownFunction_subset (symbols : List Local) (values : List Expression) :
    ownFunction symbols values ⊆ symbols := by
  unfold ownFunction
  split <;> simp

namespace Occurs

section

variable (P : List Local → Local → Prop)

mutual

@[simp]
def expression (visible : List Local) : Expression → Prop
  | .name symbol => P visible symbol
  | .function parameters _ body => block (visible ++ parameters) body
  | .table fs => fields visible fs
  | .unary _ operand => expression visible operand
  | .binary left _ right => expression visible left ∧ expression visible right
  | .parenthesized inner => expression visible inner
  | .call receiver _ arguments => expression visible receiver ∧ expressions visible arguments
  | .index target index => expression visible target ∧ expression visible index
  | .literal _ | .vararg | .error => True

@[simp]
def expressions (visible : List Local) : List Expression → Prop
  | [] => True
  | e :: later => expression visible e ∧ expressions visible later

@[simp]
def fields (visible : List Local) : List Field → Prop
  | [] => True
  | .positional _ value :: later => expression visible value ∧ fields visible later
  | .keyed key value :: later =>
    expression visible key ∧ expression visible value ∧ fields visible later

@[simp]
def branches (visible : List Local) : List Branch → Prop
  | [] => True
  | ⟨condition, b⟩ :: later =>
    expression visible condition ∧ block visible b ∧ branches visible later

@[simp]
def otherwise (visible : List Local) : Option (List Statement) → Prop
  | none => True
  | some b => block visible b

@[simp]
def statement (visible : List Local) : Statement → Prop
  | .expression e => expression visible e
  | .assign targets values => expressions visible targets ∧ expressions visible values
  | .declare symbols values => expressions (visible ++ ownFunction symbols values) values
  | .result values => expressions visible values
  | .ifThen c b es o =>
    expression visible c ∧ block visible b ∧ branches visible es ∧ otherwise visible o
  | .whileDo c b _ => expression visible c ∧ block visible b
  | .repeatUntil b c _ => block visible b ∧ expression (visible ++ Block.locals b) c
  | .numericFor counter initial limit step b _ =>
    expression visible initial ∧ expression visible limit ∧ expression visible step ∧
      block (visible ++ [counter]) b
  | .genericFor symbols values b _ =>
    expressions visible values ∧ block (visible ++ symbols) b
  | .doBlock b => block visible b
  | .gotoIf _ c _ => expression visible c
  | .goto _ | .label _ => True

@[simp]
def block (visible : List Local) : List Statement → Prop
  | [] => True
  | x :: later => statement visible x ∧ block (visible ++ x.locals) later

end

@[simp]
theorem block_append (visible : List Local) (a b : Block) :
    block P visible (a ++ b) ↔ block P visible a ∧ block P (visible ++ a.locals) b := by
  induction a generalizing visible with
  | nil => simp
  | cons x later ih => simp [ih, and_assoc]

end

section

variable {P Q : List Local → Local → Prop} {all : List Local}

/-- What has the property `P` has the property `Q` where more variables are visible, all of them
among some that are given. -/
structure Carries (P Q : List Local → Local → Prop) (all visible visible' : List Local) : Prop where
  imp : ∀ vs vs' symbol, vs ⊆ vs' → vs' ⊆ all → P vs symbol → Q vs' symbol
  more : visible ⊆ visible'
  among : visible' ⊆ all

theorem Carries.declares {visible visible' : List Local} (h : Carries P Q all visible visible')
    {symbols : List Local} (hsymbols : symbols ⊆ all) :
    Carries P Q all (visible ++ symbols) (visible' ++ symbols) where
  imp := h.imp
  more := List.append_subset.2
    ⟨List.subset_append_of_subset_left _ h.more, List.subset_append_right ..⟩
  among := List.append_subset.2 ⟨h.among, hsymbols⟩

theorem locals_subset_declared (b : Block) : b.locals ⊆ Declared.block b := by
  induction b with
  | nil => simp
  | cons x later ih =>
    have hx : x.locals ⊆ Declared.statement x := by cases x <;> simp [Statement.locals]
    simpa using ⟨List.subset_append_of_subset_left _ hx, List.subset_append_of_subset_right _ ih⟩

mutual

theorem expression_imp {visible visible' : List Local} (h : Carries P Q all visible visible')
    (e : Expression) (hd : Declared.expression e ⊆ all) (he : expression P visible e) :
    expression Q visible' e := by
  cases e with
  | name symbol => exact h.imp _ _ _ h.more h.among he
  | function parameters vararg body =>
    simp only [Declared.expression, List.append_subset] at hd
    exact block_imp (h.declares hd.1) body hd.2 he
  | table fs => exact fields_imp h fs hd he
  | unary op operand => exact expression_imp h operand hd he
  | binary left op right =>
    simp only [Declared.expression, List.append_subset] at hd
    exact ⟨expression_imp h left hd.1 he.1, expression_imp h right hd.2 he.2⟩
  | parenthesized inner => exact expression_imp h inner hd he
  | call receiver method arguments =>
    simp only [Declared.expression, List.append_subset] at hd
    exact ⟨expression_imp h receiver hd.1 he.1,
      expressions_imp h arguments hd.2 he.2⟩
  | index target index =>
    simp only [Declared.expression, List.append_subset] at hd
    exact ⟨expression_imp h target hd.1 he.1, expression_imp h index hd.2 he.2⟩
  | literal | vararg | error => trivial

theorem expressions_imp {visible visible' : List Local} (h : Carries P Q all visible visible')
    (es : List Expression) (hd : Declared.expressions es ⊆ all)
    (hes : expressions P visible es) : expressions Q visible' es := by
  cases es with
  | nil => trivial
  | cons e later =>
    simp only [Declared.expressions, List.append_subset] at hd
    exact ⟨expression_imp h e hd.1 hes.1, expressions_imp h later hd.2 hes.2⟩

theorem fields_imp {visible visible' : List Local} (h : Carries P Q all visible visible')
    (fs : List Field) (hd : Declared.fields fs ⊆ all) (hfs : fields P visible fs) :
    fields Q visible' fs := by
  cases fs with
  | nil => trivial
  | cons f later =>
    cases f with
    | positional position value =>
      simp only [Declared.fields, List.append_subset] at hd
      exact ⟨expression_imp h value hd.1 hfs.1, fields_imp h later hd.2 hfs.2⟩
    | keyed key value =>
      simp only [Declared.fields, List.append_subset] at hd
      exact ⟨expression_imp h key hd.1.1 hfs.1,
        expression_imp h value hd.1.2 hfs.2.1, fields_imp h later hd.2 hfs.2.2⟩

theorem branches_imp {visible visible' : List Local} (h : Carries P Q all visible visible')
    (es : List Branch) (hd : Declared.branches es ⊆ all) (hes : branches P visible es) :
    branches Q visible' es := by
  cases es with
  | nil => trivial
  | cons e later =>
    obtain ⟨c, b⟩ := e
    simp only [Declared.branches, List.append_subset] at hd
    exact ⟨expression_imp h c hd.1.1 hes.1, block_imp h b hd.1.2 hes.2.1,
      branches_imp h later hd.2 hes.2.2⟩

theorem otherwise_imp {visible visible' : List Local} (h : Carries P Q all visible visible')
    (o : Option (List Statement)) (hd : Declared.otherwise o ⊆ all)
    (ho : otherwise P visible o) : otherwise Q visible' o := by
  cases o with
  | none => trivial
  | some b => exact block_imp h b hd ho

theorem statement_imp {visible visible' : List Local} (h : Carries P Q all visible visible')
    (x : Statement) (hd : Declared.statement x ⊆ all) (hx : statement P visible x) :
    statement Q visible' x := by
  cases x with
  | expression e => exact expression_imp h e hd hx
  | assign targets values =>
    simp only [Declared.statement, List.append_subset] at hd
    exact ⟨expressions_imp h targets hd.1 hx.1,
      expressions_imp h values hd.2 hx.2⟩
  | declare symbols values =>
    simp only [Declared.statement, List.append_subset] at hd
    have hown := List.Subset.trans (ownFunction_subset symbols values) hd.1
    exact expressions_imp (h.declares hown) values hd.2 hx
  | result values => exact expressions_imp h values hd hx
  | ifThen c b es o =>
    simp only [Declared.statement, List.append_subset] at hd
    exact ⟨expression_imp h c hd.1.1.1 hx.1, block_imp h b hd.1.1.2 hx.2.1,
      branches_imp h es hd.1.2 hx.2.2.1, otherwise_imp h o hd.2 hx.2.2.2⟩
  | whileDo c b exit =>
    simp only [Declared.statement, List.append_subset] at hd
    exact ⟨expression_imp h c hd.1 hx.1, block_imp h b hd.2 hx.2⟩
  | repeatUntil b c exit =>
    simp only [Declared.statement, List.append_subset] at hd
    have hlocals := List.Subset.trans (locals_subset_declared b) hd.1
    exact ⟨block_imp h b hd.1 hx.1,
      expression_imp (h.declares hlocals) c hd.2 hx.2⟩
  | numericFor counter initial limit step b exit =>
    simp only [Declared.statement, List.append_subset, List.cons_subset] at hd
    exact ⟨expression_imp h initial hd.1.1.1 hx.1,
      expression_imp h limit hd.1.1.2 hx.2.1,
      expression_imp h step hd.1.2 hx.2.2.1,
      block_imp (h.declares (by simpa using hd.2.1)) b hd.2.2 hx.2.2.2⟩
  | genericFor symbols values b exit =>
    simp only [Declared.statement, List.append_subset] at hd
    exact ⟨expressions_imp h values hd.1.1 hx.1,
      block_imp (h.declares hd.1.2) b hd.2 hx.2⟩
  | doBlock b => exact block_imp h b hd hx
  | gotoIf label c wanted => exact expression_imp h c hd hx
  | goto | label => trivial

theorem block_imp {visible visible' : List Local} (h : Carries P Q all visible visible')
    (b : List Statement) (hd : Declared.block b ⊆ all) (hb : block P visible b) :
    block Q visible' b := by
  cases b with
  | nil => trivial
  | cons x later =>
    have hlocals := List.Subset.trans (locals_subset_declared (x :: later)) hd
    simp only [Declared.block, List.append_subset] at hd
    simp only [Block.locals_cons, List.append_subset] at hlocals
    exact ⟨statement_imp h x hd.1 hb.1, block_imp (h.declares hlocals.1) later hd.2 hb.2⟩

end
end
end Occurs

/-- Every variable that occurs is visible there. -/
abbrev InScope : List Local → Local → Prop := fun visible symbol => symbol ∈ visible

/-- Variables stay visible where more are visible. -/
theorem Occurs.Carries.inScope {all visible visible' : List Local} (h : visible ⊆ visible')
    (hall : visible' ⊆ all) : Carries InScope InScope all visible visible' :=
  ⟨fun _ _ _ hmore _ hsymbol => hmore hsymbol, h, hall⟩

theorem InScope.block_mono {visible visible' : List Local} (h : visible ⊆ visible') {b : Block}
    (hb : Occurs.block InScope visible b) : Occurs.block InScope visible' b :=
  Occurs.block_imp (.inScope h (List.subset_append_left ..)) b (List.subset_append_right ..) hb

theorem InScope.expression_mono {visible visible' : List Local} (h : visible ⊆ visible')
    {e : Expression} (he : Occurs.expression InScope visible e) :
    Occurs.expression InScope visible' e :=
  Occurs.expression_imp (.inScope h (List.subset_append_left ..)) e (List.subset_append_right ..) he

theorem InScope.expressions_mono {visible visible' : List Local} (h : visible ⊆ visible')
    {es : List Expression} (hes : Occurs.expressions InScope visible es) :
    Occurs.expressions InScope visible' es :=
  Occurs.expressions_imp (.inScope h (List.subset_append_left ..)) es
    (List.subset_append_right ..) hes

/-! ## Well-scoped programs -/

/-- A program in which every variable but one that is given is declared once, and visible wherever
it occurs. A variable that was made up shares its name with no other. -/
structure Block.WellScoped (root : Local) (b : Block) : Prop where
  once : ((root :: Declared.block b).map Local.id).Nodup
  visible : Occurs.block
    (fun visible symbol => symbol ∈ visible ∧ symbol ∈ root :: Declared.block b) [root] b
  generated : ∀ l ∈ Declared.block b, l.isDeclared = false →
    ∀ l' ∈ root :: Declared.block b, l'.name = l.name → l' = l

/-- What is visible is declared, or was given. -/
theorem Block.wellScoped_of_inScope {root : Local} {b : Block}
    (honce : ((root :: Declared.block b).map Local.id).Nodup)
    (hscope : Occurs.block InScope [root] b)
    (hgenerated : ∀ l ∈ Declared.block b, l.isDeclared = false →
      ∀ l' ∈ root :: Declared.block b, l'.name = l.name → l' = l) : b.WellScoped root where
  once := honce
  visible := by
    have hcarries : Occurs.Carries InScope
        (fun visible symbol => symbol ∈ visible ∧ symbol ∈ root :: Declared.block b)
        (root :: Declared.block b) [root] [root] := by
      refine ⟨fun vs vs' symbol hmore hall hsymbol => ?_, fun _ hl => hl, by simp⟩
      exact ⟨hmore hsymbol, hall (hmore hsymbol)⟩
    exact Occurs.block_imp hcarries b (List.subset_cons_self ..) hscope
  generated := hgenerated

/-! ## Numbering -/

/-- A variable with a number from a range, and a name that no variable that is made up has. -/
structure Local.Written (unit lo hi : Nat) (l : Local) : Prop where
  number : ∃ k, l.id = .declared unit k ∧ lo ≤ k ∧ k < hi
  word : '#' ∉ l.name.toList

/-- Different variables with numbers from a range. -/
structure Issued (unit lo hi : Nat) (ls : List Local) : Prop where
  le : lo ≤ hi
  nodup : (ls.map Local.id).Nodup
  written : ∀ l ∈ ls, l.Written unit lo hi

theorem Local.Written.widen {unit lo lo' hi hi' : Nat} {l : Local} (h : l.Written unit lo hi)
    (hlo : lo' ≤ lo) (hhi : hi ≤ hi') : l.Written unit lo' hi' := by
  obtain ⟨⟨k, hid, hk⟩, hword⟩ := h
  exact ⟨⟨k, hid, by omega⟩, hword⟩

namespace Issued

variable {unit lo mid hi : Nat} {a b : List Local}

theorem nothing (h : lo ≤ hi) : Issued unit lo hi [] := ⟨h, by simp, by simp⟩

theorem append (h : Issued unit lo mid a) (h' : Issued unit mid hi b) :
    Issued unit lo hi (a ++ b) where
  le := Nat.le_trans h.le h'.le
  nodup := by
    rw [List.map_append]
    refine List.nodup_append.2 ⟨h.nodup, h'.nodup, fun id ha id' hb heq => ?_⟩
    obtain ⟨l, hl, rfl⟩ := List.mem_map.1 ha
    obtain ⟨l', hl', rfl⟩ := List.mem_map.1 hb
    obtain ⟨k, hk, hlt⟩ := (h.written l hl).number
    obtain ⟨k', hk', hle⟩ := (h'.written l' hl').number
    rw [hk, hk', SymbolId.declared.injEq] at heq
    omega
  written := by
    intro l hl
    rcases List.mem_append.1 hl with hl | hl
    · exact (h.written l hl).widen (Nat.le_refl _) h'.le
    · exact (h'.written l hl).widen h.le (Nat.le_refl _)

theorem perm (h : Issued unit lo hi a) (hperm : a.Perm b) : Issued unit lo hi b where
  le := h.le
  nodup := (hperm.map Local.id).nodup_iff.1 h.nodup
  written l hl := h.written l (hperm.mem_iff.2 hl)

theorem one {l : Local} {k : Nat} (hid : l.id = .declared unit k) (hword : '#' ∉ l.name.toList) :
    Issued unit k (k + 1) [l] :=
  ⟨Nat.le_succ k, by simp, by simpa using ⟨⟨k, hid, by omega⟩, hword⟩⟩

end Issued

end Resolved
end LuaFront
