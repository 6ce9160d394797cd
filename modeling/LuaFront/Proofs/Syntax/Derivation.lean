import LuaFront.Proofs.Syntax.Expression

/-!
# LuaFront.Proofs.Syntax.Derivation

What derivations look like from the left, token by token, which is how they are read.

* `Derives.length_le`: what follows a phrase is no longer than what it starts, and shorter if the
  phrase cannot be empty.
* `Derives.chain`: an expression is a chain of operands with operators before and between them,
  however its derivation associates them.
* `Derives.operations`: an expression is its leftmost operand and then any number of operators with
  their right operands, as its derivation associates them.
* `Derives.suffixes`: a prefix expression is a head and then any number of suffixes.
* `Derives.next_*`: what a phrase can start with.
-/

namespace LuaFront

/-! ## Kinds of tokens -/

def Sign.all : List Sign :=
  [.plus, .minus, .asterisk, .slash, .slashSlash, .percent, .caret, .hash, .ampersand, .tilde, .pipe,
    .lessLess, .greaterGreater, .equalsEquals, .tildeEquals, .lessEquals, .greaterEquals, .less,
    .greater, .equals, .colonColon, .semicolon, .colon, .comma, .dot, .dotDot, .dotDotDot,
    .openParenthesis, .closeParenthesis, .openBrace, .closeBrace, .openBracket, .closeBracket]

def Kind.all : List Kind :=
  [.endOfFile, .bad, .name, .string, .integer, .float] ++ Keyword.all.map .keyword ++
    Sign.all.map .sign

theorem Kind.mem_all (k : Kind) : k ∈ Kind.all := by
  cases k with
  | keyword k => cases k <;> decide
  | sign s => cases s <;> decide
  | _ => decide

/-- A statement about all kinds of tokens can be tried on each of them. -/
instance Kind.decidableForall {P : Kind → Prop} [DecidablePred P] : Decidable (∀ k, P k) :=
  decidable_of_iff (∀ k ∈ Kind.all, P k) ⟨fun h k => h k (mem_all k), fun h k _ => h k⟩

namespace Syntax
namespace Grammar

/-! ## The next token -/

/-- The first of some tokens, if there is one, is of such a kind. -/
def Next (p : Kind → Bool) (i : List Token) : Prop := ∀ t ∈ i.head?, p t.kind = true

theorem Next.imp {p q : Kind → Bool} {i : List Token} (h : Next p i)
    (hpq : ∀ k, p k = true → q k = true) : Next q i :=
  fun t ht => hpq _ (h t ht)

theorem next_cons {p : Kind → Bool} {t : Token} {i : List Token} :
    Next p (t :: i) ↔ p t.kind = true := by
  simp [Next]

theorem Terminal.next {p : Kind → Bool} {k : Kind} {i o : List Token} (h : Terminal k i o)
    (hp : p k = true) : Next p i := by
  cases h with
  | mk hk =>
    rw [next_cons, hk]
    exact hp

theorem Word.next {p : Kind → Bool} {n : Name} {i o : List Token} (h : Word n i o)
    (hp : p .name = true) : Next p i := by
  cases h with
  | mk hk =>
    rw [next_cons, hk]
    exact hp

theorem Following.next {α : Type} {separator : Kind} {item : α → List Token → List Token → Prop}
    {p : Kind → Bool} {as : List α} {i o : List Token} (h : Following separator item as i o)
    (ho : Next p o) (hp : p separator = true) : Next p i := by
  cases h with
  | nil => exact ho
  | cons hcons _ =>
    obtain ⟨m, hsep, _⟩ := hcons
    exact hsep.next hp

/-! ## Lengths -/

@[grind →] theorem Terminal.length {k : Kind} {i o : List Token} (h : Terminal k i o) :
    i.length = o.length + 1 := by
  cases h
  rfl

@[grind →] theorem Word.length {n : Name} {i o : List Token} (h : Word n i o) : i.length = o.length + 1 := by
  cases h
  rfl

theorem Following.length_le {α : Type} {separator : Kind}
    {item : α → List Token → List Token → Prop} {as : List α} {i o : List Token}
    (hitem : ∀ a i o, item a i o → o.length < i.length) (h : Following separator item as i o) :
    o.length ≤ i.length := by
  induction h with
  | nil => exact Nat.le_refl _
  | cons hcons _ ih =>
    obtain ⟨m, hsep, ha⟩ := hcons
    have := hsep.length
    have := hitem _ _ _ ha
    omega

theorem Separated.length_lt {α : Type} {separator : Kind}
    {item : α → List Token → List Token → Prop} {as : List α} {i o : List Token}
    (hitem : ∀ a i o, item a i o → o.length < i.length) (h : Separated separator item as i o) :
    o.length < i.length := by
  cases as with
  | nil => exact h.elim
  | cons a as =>
    obtain ⟨m, ha, has⟩ := h
    exact Nat.lt_of_le_of_lt (Following.length_le hitem has) (hitem _ _ _ ha)

@[grind →] theorem Parameters.length_lt {ns : List Name} {vararg : Bool} {i o : List Token}
    (h : Parameters ns vararg i o) : o.length < i.length := by
  induction h with
  | last hn => grind
  | dots hdots => grind
  | more hn hcomma _ ih => grind

@[grind →] theorem length_lt_of_words {separator : Kind} {ns : List Name} {i o : List Token}
    (h : Separated separator Word ns i o) : o.length < i.length :=
  h.length_lt fun _ _ _ hn => by grind

@[grind →] theorem DeclaredName.length_lt {f : FunctionName} {i o : List Token} (h : DeclaredName f i o) :
    o.length < i.length := by
  cases h with
  | plain hpath => grind
  | method hpath hcolon hn => grind

@[grind →] theorem Declaration.length_lt {d : LocalDeclaration} {i o : List Token} (h : Declaration d i o) :
    o.length < i.length := by
  cases h with
  | plain hn => grind
  | attributed hn hless ha hgreater => grind

@[grind →] theorem length_lt_of_declarations {separator : Kind} {ds : List LocalDeclaration}
    {i o : List Token} (h : Separated separator Declaration ds i o) : o.length < i.length :=
  h.length_lt fun _ _ _ hd => hd.length_lt

/-- How many tokens a phrase has at least. -/
def Phrase.weight : Phrase → Nat
  | .expression _ | .expressions _ | .prefixed _ | .arguments _ | .table _ | .field _
  | .functionBody _ | .statement _ | .target _ | .result _ => 1
  | _ => 0

theorem Derives.length_le {p : Phrase} {i o : List Token} (h : Derives p i o) :
    o.length + p.weight ≤ i.length := by
  induction h <;> simp only [Phrase.weight] at * <;> grind

@[grind →] theorem Derives.le {p : Phrase} {i o : List Token} (h : Derives p i o) :
    o.length ≤ i.length :=
  Nat.le_of_add_right_le h.length_le

theorem Derives.lt {p : Phrase} {i o : List Token} (h : Derives p i o) (hp : p.weight = 1) :
    o.length < i.length := by
  have := h.length_le
  omega

/-! ## Lists -/

theorem Derives.followingExpressions {es : List Expression} {i o : List Token}
    (h : Derives (.moreExpressions es) i o) :
    Following (.sign .comma) (fun e => Derives (.expression e)) es i o := by
  generalize hp : Phrase.moreExpressions es = p at h
  induction h generalizing es with
  | noExpressions =>
    cases hp
    exact .nil
  | moreExpressions hcomma he _ _ ih =>
    cases hp
    exact .cons ⟨_, hcomma, he⟩ (ih rfl)
  | _ => cases hp

theorem Derives.followingTargets {es : List Expression} {i o : List Token}
    (h : Derives (.moreTargets es) i o) :
    Following (.sign .comma) (fun e => Derives (.target e)) es i o := by
  generalize hp : Phrase.moreTargets es = p at h
  induction h generalizing es with
  | noTargets =>
    cases hp
    exact .nil
  | moreTargets hcomma he _ _ ih =>
    cases hp
    exact .cons ⟨_, hcomma, he⟩ (ih rfl)
  | _ => cases hp

/-! ## Prefix expressions -/

/-- What a prefix expression starts with. -/
inductive Head : Expression → List Token → List Token → Prop where
  | name {n : Name} {i o : List Token} : Word n i o → Head (.name n) i o
  | parenthesized {e : Expression} {s : Text.Span} {i m m' o : List Token} :
      Terminal (.sign .openParenthesis) i m → Derives (.expression e) m m' →
      Terminal (.sign .closeParenthesis) m' o → Head (.parenthesized e s) i o

/-- One more index or call, and what it makes of a prefix expression. -/
inductive Suffix : Expression → Expression → List Token → List Token → Prop where
  | dotted {e : Expression} {n : Name} {s : Text.Span} {i m o : List Token} :
      Terminal (.sign .dot) i m → Word n m o → Suffix e (.dotted e n s) i o
  | index {e x : Expression} {s : Text.Span} {i m m' o : List Token} :
      Terminal (.sign .openBracket) i m → Derives (.expression x) m m' →
      Terminal (.sign .closeBracket) m' o → Suffix e (.index e x s) i o
  | call {e : Expression} {es : List Expression} {s : Text.Span} {i o : List Token} :
      Derives (.arguments es) i o → Suffix e (.call e none es s) i o
  | methodCall {e : Expression} {n : Name} {es : List Expression} {s : Text.Span}
      {i m m' o : List Token} : Terminal (.sign .colon) i m → Word n m m' →
      Derives (.arguments es) m' o → Suffix e (.call e (some n) es s) i o

@[grind →] theorem Head.length_lt {e : Expression} {i o : List Token} (h : Head e i o) :
    o.length < i.length := by
  cases h <;> grind

@[grind →] theorem Suffix.length_lt {e e' : Expression} {i o : List Token} (h : Suffix e e' i o) :
    o.length < i.length := by
  cases h with
  | call hes => exact hes.lt rfl
  | _ => grind

/-- Any number of suffixes, from one prefix expression to another. -/
inductive Suffixes : Expression → Expression → List Token → List Token → Prop where
  | nil {e : Expression} {o : List Token} : Suffixes e e o o
  | cons {e e' e'' : Expression} {i m o : List Token} : Suffix e e' i m → Suffixes e' e'' m o →
      Suffixes e e'' i o

theorem Suffixes.snoc {e e' e'' : Expression} {i m o : List Token} (h : Suffixes e e' i m)
    (hlast : Suffix e' e'' m o) : Suffixes e e'' i o := by
  induction h with
  | nil => exact .cons hlast .nil
  | cons hfirst _ ih => exact .cons hfirst (ih hlast)

/-- A prefix expression, whose derivation nests to the left, read from the left. -/
theorem Derives.suffixes {e : Expression} {i o : List Token} (h : Derives (.prefixed e) i o) :
    ∃ e₀ m, Head e₀ i m ∧ Suffixes e₀ e m o := by
  generalize hp : Phrase.prefixed e = p at h
  induction h generalizing e with
  | name hn =>
    cases hp
    exact ⟨_, _, .name hn, .nil⟩
  | parenthesized hopen he hclose =>
    cases hp
    exact ⟨_, _, .parenthesized hopen he hclose, .nil⟩
  | dotted _ hdot hn ih =>
    cases hp
    obtain ⟨e₀, m, hhead, hsuffixes⟩ := ih rfl
    exact ⟨e₀, m, hhead, hsuffixes.snoc (.dotted hdot hn)⟩
  | index _ hopen hx hclose ih =>
    cases hp
    obtain ⟨e₀, m, hhead, hsuffixes⟩ := ih rfl
    exact ⟨e₀, m, hhead, hsuffixes.snoc (.index hopen hx hclose)⟩
  | call _ hes ih =>
    cases hp
    obtain ⟨e₀, m, hhead, hsuffixes⟩ := ih rfl
    exact ⟨e₀, m, hhead, hsuffixes.snoc (.call hes)⟩
  | methodCall _ hcolon hn hes ih =>
    cases hp
    obtain ⟨e₀, m, hhead, hsuffixes⟩ := ih rfl
    exact ⟨e₀, m, hhead, hsuffixes.snoc (.methodCall hcolon hn hes)⟩
  | _ => cases hp

theorem Derives.isVariable_iff {e : Expression} {i o : List Token}
    (h : Derives (.prefixed e) i o) : e.isVariable = true ↔ e.shape = .variable := by
  cases h <;> simp [Expression.isVariable, Expression.shape]

theorem Head.next {e : Expression} {i o : List Token} (h : Head e i o) : Next startsPrefix i := by
  cases h with
  | name hn => exact hn.next rfl
  | parenthesized hopen _ _ => exact hopen.next rfl

theorem Derives.next_prefixed {e : Expression} {i o : List Token} (h : Derives (.prefixed e) i o) :
    Next startsPrefix i := by
  obtain ⟨e₀, m, hhead, _⟩ := h.suffixes
  exact hhead.next

theorem Derives.next_table {fs : List Field} {i o : List Token} (h : Derives (.table fs) i o) :
    Next (· == .sign .openBrace) i := by
  cases h with
  | braces hopen _ _ => exact hopen.next rfl

theorem Derives.next_arguments {es : List Expression} {i o : List Token}
    (h : Derives (.arguments es) i o) : Next opensArguments i := by
  cases h with
  | stringArgument hk =>
    rw [next_cons, hk]
    rfl
  | tableArgument htable => exact htable.next_table.imp fun k hk => by simp_all [opensArguments]
  | noArguments hopen _ => exact hopen.next rfl
  | someArguments hopen _ _ => exact hopen.next rfl

/-- Whether a kind of token starts a suffix. -/
def startsSuffix : Kind → Bool
  | .sign .dot | .sign .openBracket | .sign .colon => true
  | k => opensArguments k

theorem Suffix.next {e e' : Expression} {i o : List Token} (h : Suffix e e' i o) :
    Next startsSuffix i := by
  cases h with
  | dotted hdot _ => exact hdot.next rfl
  | index hopen _ _ => exact hopen.next rfl
  | call hes =>
    refine hes.next_arguments.imp fun k hk => ?_
    unfold startsSuffix
    split
    · rfl
    · rfl
    · rfl
    · exact hk
  | methodCall hcolon _ _ => exact hcolon.next rfl

end Grammar

/-! ## Operators -/

@[simp] theorem UnaryOperator.ofKind?_kind (op : UnaryOperator) : ofKind? op.kind = some op := by
  cases op <;> rfl

@[simp] theorem BinaryOperator.ofKind?_kind (op : BinaryOperator) : ofKind? op.kind = some op := by
  cases op <;> rfl

namespace Grammar

/-- An operand that starts with no unary operator. -/
inductive Primary : Expression → List Token → List Token → Prop where
  | literal {t : Token} {o : List Token} : isLiteral t.kind = true →
      Primary (.literal (Read.literalOf t) t.span) (t :: o) o
  | vararg {s : Text.Span} {i o : List Token} : Terminal (.sign .dotDotDot) i o →
      Primary (.vararg s) i o
  | function {f : FunctionBody} {s : Text.Span} {i m o : List Token} :
      Terminal (.keyword .function) i m → Derives (.functionBody f) m o →
      Primary (.function f s) i o
  | table {fs : List Field} {s : Text.Span} {i o : List Token} : Derives (.table fs) i o →
      Primary (.table fs s) i o
  | prefixed {e : Expression} {i o : List Token} : Derives (.prefixed e) i o → Closed o →
      Primary e i o

@[grind →] theorem Primary.length_lt {e : Expression} {i o : List Token} (h : Primary e i o) :
    o.length < i.length := by
  cases h with
  | table htable => exact htable.lt rfl
  | prefixed he _ => exact he.lt rfl
  | _ => grind

/-- Operands with operators before and between them. -/
inductive Chain : List Token → List Token → Prop where
  | primary {e : Expression} {i o : List Token} : Primary e i o → Chain i o
  | unary {op : UnaryOperator} {i m o : List Token} : Terminal op.kind i m → Chain m o → Chain i o
  | binary {e : Expression} {op : BinaryOperator} {i m m' o : List Token} : Primary e i m →
      Terminal op.kind m m' → Chain m' o → Chain i o

/-- What may be left of a chain behind one of its operands. -/
inductive Rest : List Token → List Token → Prop where
  | nil {o : List Token} : Rest o o
  | more {op : BinaryOperator} {i m o : List Token} : Terminal op.kind i m → Chain m o → Rest i o

theorem Chain.append {op : BinaryOperator} {i m m' o : List Token} (h : Chain i m)
    (hop : Terminal op.kind m m') (hlater : Chain m' o) : Chain i o := by
  induction h with
  | primary hfirst => exact .binary hfirst hop hlater
  | unary hop' _ ih => exact .unary hop' (ih hop)
  | binary hfirst hop' _ ih => exact .binary hfirst hop' (ih hop)

/-- The operators of an expression in a row, however its derivation associates them. -/
theorem Derives.chain {e : Expression} {i o : List Token} (h : Derives (.expression e) i o) :
    Chain i o := by
  generalize hp : Phrase.expression e = p at h
  induction h generalizing e with
  | literal hk => exact .primary (.literal hk)
  | @vararg s _ _ hdots => exact .primary (.vararg (s := s) hdots)
  | @function _ s _ _ _ hfunction hf => exact .primary (.function (s := s) hfunction hf)
  | @table _ s _ _ htable => exact .primary (.table (s := s) htable)
  | prefixed he hclosed => exact .primary (.prefixed he hclosed)
  | unary hop _ ih => exact .unary hop (ih rfl)
  | binary _ hop _ ihl ihr => exact (ihl rfl).append hop (ihr rfl)
  | _ => cases hp

/-- What stands left of all binary operators: a primary operand, or a unary operator and its own. -/
inductive Operand : Expression → List Token → List Token → Prop where
  | primary {e : Expression} {i o : List Token} : Primary e i o → Operand e i o
  | unary {op : UnaryOperator} {e : Expression} {s : Text.Span} {i m o : List Token} :
      Terminal op.kind i m → Derives (.expression e) m o → Operand (.unary op e s) i o

/-- Any number of binary operators with their right operands, from one left operand to another. -/
inductive Operations : Expression → Expression → List Token → List Token → Prop where
  | nil {e : Expression} {o : List Token} : Operations e e o o
  | cons {op : BinaryOperator} {l r e : Expression} {s : Text.Span} {i m m' o : List Token} :
      Terminal op.kind i m → Derives (.expression r) m m' → Operations (.binary l op r s) e m' o →
      Operations l e i o

theorem Operations.snoc {op : BinaryOperator} {l e r : Expression} {s : Text.Span}
    {i m m' o : List Token} (h : Operations l e i m) (hop : Terminal op.kind m m')
    (hr : Derives (.expression r) m' o) : Operations l (.binary e op r s) i o := by
  induction h with
  | nil => exact .cons hop hr .nil
  | cons hop' hr' _ ih => exact .cons hop' hr' (ih hop)

/-- An expression, whose derivation may nest to the left, read from the left. -/
theorem Derives.operations {e : Expression} {i o : List Token} (h : Derives (.expression e) i o) :
    ∃ e₀ m, Operand e₀ i m ∧ Operations e₀ e m o := by
  generalize hp : Phrase.expression e = p at h
  induction h generalizing e with
  | literal hk =>
    cases hp
    exact ⟨_, _, .primary (.literal hk), .nil⟩
  | vararg hdots =>
    cases hp
    exact ⟨_, _, .primary (.vararg hdots), .nil⟩
  | function hfunction hf =>
    cases hp
    exact ⟨_, _, .primary (.function hfunction hf), .nil⟩
  | table htable =>
    cases hp
    exact ⟨_, _, .primary (.table htable), .nil⟩
  | prefixed he hclosed =>
    cases hp
    exact ⟨_, _, .primary (.prefixed he hclosed), .nil⟩
  | unary hop he =>
    cases hp
    exact ⟨_, _, .unary hop he, .nil⟩
  | binary _ hop hr ih _ =>
    cases hp
    obtain ⟨e₀, m, hfirst, hmore⟩ := ih rfl
    exact ⟨e₀, m, hfirst, hmore.snoc hop hr⟩
  | _ => cases hp

/-- Whether a kind of token starts an operand without a unary operator. -/
def startsPrimary : Kind → Bool
  | .sign .dotDotDot | .keyword .function | .sign .openBrace => true
  | k => isLiteral k || startsPrefix k

/-- Whether a kind of token starts an expression. -/
def startsExpression (k : Kind) : Bool := startsPrimary k || (UnaryOperator.ofKind? k).isSome

theorem Primary.next {e : Expression} {i o : List Token} (h : Primary e i o) :
    Next startsPrimary i := by
  cases h with
  | literal hk => exact next_cons.2 ((by decide : ∀ k, isLiteral k → startsPrimary k) _ hk)
  | vararg hdots => exact hdots.next rfl
  | function hfunction _ => exact hfunction.next rfl
  | table htable => exact htable.next_table.imp (by decide)
  | prefixed he _ => exact he.next_prefixed.imp (by decide)

theorem Chain.next {i o : List Token} (h : Chain i o) : Next startsExpression i := by
  cases h with
  | primary hfirst => exact hfirst.next.imp (by decide)
  | unary hop _ => exact hop.next (by simp [startsExpression])
  | binary hfirst _ _ => exact hfirst.next.imp (by decide)

/-- Whether an expression may end before a kind of token. A parenthesis, a string or a brace is
not excluded here: whether it continues an expression depends on the expression. -/
def endsExpression : Kind → Bool
  | .sign .dot | .sign .openBracket | .sign .colon => false
  | k => (BinaryOperator.ofKind? k).isNone

/-- Whether a kind of token is neither a dot nor a bracket nor a colon. -/
def endsPrefix : Kind → Bool
  | .sign .dot | .sign .openBracket | .sign .colon => false
  | _ => true

theorem Rest.next {i o : List Token} (h : Rest i o) (ho : Next endsExpression o) :
    Next endsPrefix i := by
  cases h with
  | nil => exact ho.imp (by decide)
  | @more op _ _ _ hop _ => exact hop.next (by cases op <;> rfl)

theorem Operations.next {e e' : Expression} {i o : List Token} (h : Operations e e' i o)
    (ho : Next endsPrefix o) : Next endsPrefix i := by
  cases h with
  | nil => exact ho
  | @cons op _ _ _ _ _ _ _ _ hop _ _ => exact hop.next (by cases op <;> rfl)

/-- An operand in front of what is left of a chain. -/
theorem Chain.rest {i o : List Token} (h : Chain i o) :
    (∃ op m, Terminal (UnaryOperator.kind op) i m ∧ Chain m o) ∨
      ∃ e m, Primary e i m ∧ Rest m o := by
  cases h with
  | primary hfirst => exact .inr ⟨_, _, hfirst, .nil⟩
  | unary hop hlater => exact .inl ⟨_, _, hop, hlater⟩
  | binary hfirst hop hlater => exact .inr ⟨_, _, hfirst, .more hop hlater⟩

/-- A name that starts an expression is not followed by an equals sign, unless the expression is. -/
theorem Chain.next_of_name {t : Token} {i o : List Token} (h : Chain (t :: i) o)
    (ht : t.kind = .name) (ho : Next (· != .sign .equals) o) : Next (· != .sign .equals) i := by
  rcases h.rest with ⟨op, m, hop, _⟩ | ⟨e, m, hfirst, hrest⟩
  · cases hop with
    | mk hk => cases op <;> simp [ht, UnaryOperator.kind] at hk
  have hm : Next (· != .sign .equals) m := by
    cases hrest with
    | nil => exact ho
    | @more op _ _ _ hop _ => exact hop.next (by cases op <;> rfl)
  cases hfirst with
  | literal hk => simp [ht, isLiteral] at hk
  | vararg hdots => cases hdots with | mk hk => simp [ht] at hk
  | function hfunction _ => cases hfunction with | mk hk => simp [ht] at hk
  | table htable => simpa [ht] using next_cons.1 htable.next_table
  | prefixed he _ =>
    obtain ⟨e₀, m', hhead, hsuffixes⟩ := he.suffixes
    cases hhead with
    | parenthesized hopen _ _ => cases hopen with | mk hk => simp [ht] at hk
    | name hn =>
      cases hn
      cases hsuffixes with
      | nil => exact hm
      | cons hsuffix _ => exact hsuffix.next.imp (by decide)

/-! ## Fields and statements -/

theorem Derives.next_field {f : Field} {i o : List Token} (h : Derives (.field f) i o) :
    Next (fun k => startsExpression k || k == .sign .openBracket) i := by
  cases h with
  | positional he => exact he.chain.next.imp fun k hk => by simp [hk]
  | named hn _ _ => exact hn.next (by decide)
  | keyed hopen _ _ _ _ => exact hopen.next (by decide)

theorem Derives.next_expressions {es : List Expression} {i o : List Token}
    (h : Derives (.expressions es) i o) : Next startsExpression i := by
  cases h with
  | expressions he _ => exact he.chain.next

theorem Derives.next_functionBody {f : FunctionBody} {i o : List Token}
    (h : Derives (.functionBody f) i o) : Next (· == .sign .openParenthesis) i := by
  cases h with
  | niladic hopen _ _ _ => exact hopen.next rfl
  | parametric hopen _ _ _ _ => exact hopen.next rfl

/-- Whether a kind of token starts a statement that is not empty. -/
def opensStatement (k : Kind) : Bool :=
  Read.startsStatement k && !Read.endsBlock k && k != .keyword .«return» && k != .sign .semicolon

theorem Derives.next_statement {s : Statement} {i o : List Token}
    (h : Derives (.statement s) i o) : Next opensStatement i := by
  cases h with
  | assign htarget _ _ _ =>
    cases htarget with
    | target he _ => exact he.next_prefixed.imp (by decide)
  | callStatement he _ => exact he.next_prefixed.imp (by decide)
  | label h₁ _ _ => exact h₁.next (by decide)
  | breakLoop h₁ => exact h₁.next (by decide)
  | goto h₁ _ => exact h₁.next (by decide)
  | doBlock h₁ _ _ => exact h₁.next (by decide)
  | whileDo h₁ _ _ _ _ => exact h₁.next (by decide)
  | repeatUntil h₁ _ _ _ => exact h₁.next (by decide)
  | ifThen h₁ _ _ _ _ _ _ => exact h₁.next (by decide)
  | numericFor h₁ _ _ _ _ _ _ _ _ _ => exact h₁.next (by decide)
  | genericFor h₁ _ _ _ _ _ _ => exact h₁.next (by decide)
  | functionStatement h₁ _ _ => exact h₁.next (by decide)
  | localFunction h₁ _ _ _ => exact h₁.next (by decide)
  | declare h₁ _ _ => exact h₁.next (by decide)

/-- What a block consists of: nothing, a return, or a semicolon or statement before a block. -/
theorem Derives.block_cases {b : Block} {i o : List Token} (h : Derives (.block b) i o) :
    (i = o ∧ b.statements = [] ∧ b.result = none) ∨
      (∃ r, Derives (.result r) i o ∧ b.statements = [] ∧ b.result = some r) ∨
      (∃ m b', Terminal (.sign .semicolon) i m ∧ Derives (.block b') m o ∧
        b.statements = b'.statements ∧ b.result = b'.result) ∨
      ∃ s m b', Derives (.statement s) i m ∧ Derives (.block b') m o ∧
        b.statements = s :: b'.statements ∧ b.result = b'.result := by
  cases h with
  | @openBlock _ sp _ _ hss =>
    cases hss with
    | noStatements => exact .inl ⟨rfl, rfl, rfl⟩
    | semicolon hsemi hss =>
      exact .inr (.inr (.inl ⟨_, _, hsemi, .openBlock (s := sp) hss, rfl, rfl⟩))
    | moreStatements hs hss =>
      exact .inr (.inr (.inr ⟨_, _, _, hs, .openBlock (s := sp) hss, rfl, rfl⟩))
  | @returning _ _ sp _ _ _ hss hresult =>
    cases hss with
    | noStatements => exact .inr (.inl ⟨_, hresult, rfl, rfl⟩)
    | semicolon hsemi hss =>
      exact .inr (.inr (.inl ⟨_, _, hsemi, .returning (s := sp) hss hresult, rfl, rfl⟩))
    | moreStatements hs hss =>
      exact .inr (.inr (.inr ⟨_, _, _, hs, .returning (s := sp) hss hresult, rfl, rfl⟩))

/-- Behind a statement stands what may start another one, or ends the block. -/
theorem Derives.next_block {b : Block} {i o : List Token} (h : Derives (.block b) i o)
    (ho : Next Read.endsBlock o) : Next Read.startsStatement i := by
  rcases h.block_cases with ⟨rfl, _⟩ | ⟨r, hresult, _⟩ | ⟨m, b', hsemi, _⟩ | ⟨s, m, b', hs, _⟩
  · exact ho.imp (by decide)
  · cases hresult with
    | result hreturn _ => exact hreturn.next rfl
    | resultClosed hreturn _ _ => exact hreturn.next rfl
  · exact hsemi.next rfl
  · exact hs.next_statement.imp (by decide)

end Grammar
end Syntax
end LuaFront
