import LuaFront.Proofs.Syntax.Completion

/-!
# LuaFront.Proofs.Syntax.Viability

Statements, blocks and programs: what is consumed of them before the first diagnostic can be
completed.

A statement that starts with a prefix expression can always be completed to an assignment: whatever
was read of the expression, a field of it is a variable.
-/

namespace LuaFront
namespace Syntax

open Relation (Comp ReflTransGen)
open Grammar

namespace Read

open Reading (Tracks tracks_taken)

variable {inner : Nested} {r : Reading}

/-! ## Parts of statements -/

theorem blockToEnd_tracks (hin : inner.Tracks) (r : Reading) :
    Ensures (blockToEnd inner) r fun _ r' =>
      r.Tracks false false (Comp (Any .block) (Terminal (.keyword .«end»))) r' := by
  unfold blockToEnd
  simp only [ensures_bind, ensures_pure]
  refine (hin.block r).imp fun _ r₁ h₁ => ?_
  exact (expect_tracks (.keyword .«end») r₁).imp fun _ r₂ h₂ => h₁.comp h₂ rfl

theorem results_tracks (hin : inner.Tracks) (r : Reading) :
    Ensures (results inner) r fun _ r' => r.Tracks false true (Any .results) r' := by
  unfold results
  simp only [ensures_bind, ensures_kind, ensures_ite, ensures_pure]
  split
  next => exact (Tracks.refl rfl r).imp fun _ _ hio => hio ▸ ⟨[], .noResults⟩
  next =>
    refine (expressions_tracks hin r).imp fun _ r₁ h₁ => h₁.imp ?_
    rintro i o ⟨es, hes⟩
    exact ⟨es, .someResults hes⟩

theorem result_tracks (hin : inner.Tracks) (r : Reading) :
    Ensures (result inner) r fun _ r' => r.Tracks false true (Any .result) r' := by
  unfold result
  simp only [ensures_bind, ensures_start, ensures_spanFrom, ensures_pure, ensures_takeIf]
  refine (expect_tracks (.keyword .«return») r).imp fun _ r₁ h₁ => ?_
  refine (results_tracks hin r₁).imp fun _ r₂ h₂ => ?_
  split
  next hk =>
    have h₃ := terminal_tracks hk (.sign .semicolon) rfl
    refine ((h₁.comp (h₂.comp h₃ rfl) rfl).loosen id (Bool.false_le true)).imp ?_
    rintro i o ⟨_, hreturn, _, ⟨es, hes⟩, hsemicolon⟩
    exact ⟨⟨es, .empty 0⟩, .resultClosed hreturn hes hsemicolon⟩
  next =>
    refine (h₁.comp h₂ rfl).imp ?_
    rintro i o ⟨_, hreturn, es, hes⟩
    exact ⟨⟨es, .empty 0⟩, .result hreturn hes⟩

/-- A condition with its block, behind an `elseif`. -/
def Branch : List Token → List Token → Prop :=
  Comp (Terminal (.keyword .«elseif»)) (Comp (Any .expression)
    (Comp (Terminal (.keyword .«then»)) (Any .block)))

theorem any_elseIfs {i o : List Token} (h : ReflTransGen Branch i o) : Any .elseIfs i o := by
  induction h using ReflTransGen.head_induction_on with
  | refl => exact ⟨[], .noElseIfs⟩
  | head hone _ ih =>
    obtain ⟨_, helse, _, ⟨e, he⟩, _, hthen, b, hb⟩ := hone
    obtain ⟨es, hes⟩ := ih
    exact ⟨⟨e, b, .empty 0⟩ :: es, .moreElseIfs helse he hthen hb hes⟩

theorem elseIfs_tracks (hin : inner.Tracks) (r : Reading) :
    Ensures (elseIfs inner) r fun _ r' => r.Tracks false true (Any .elseIfs) r' := by
  unfold elseIfs
  refine Ensures.imp (Ensures.loop (Q := fun _ r' => r.Tracks false true (ReflTransGen Branch) r')
    (fun _ r' => r.Tracks false true (ReflTransGen Branch) r')
    ((Tracks.refl rfl r).imp fun _ _ hio => hio ▸ .refl) fun es r₁ h₁ => ?_) ?_
  · simp only [ensures_bind, ensures_kind, ensures_ite, ensures_pure, elseIf, ensures_start,
      ensures_take, ensures_spanFrom]
    split
    next hk =>
      refine (expression_tracks hin r₁.taken).imp fun _ r₂ h₂ => ?_
      refine (expect_tracks (.keyword .«then») r₂).imp fun _ r₃ h₃ => ?_
      refine (hin.block r₃).imp fun _ r₄ h₄ => ?_
      have h₀ := terminal_tracks hk (.keyword .«elseif») rfl
      exact h₁.snoc (h₀.comp (h₂.comp (h₃.comp h₄ rfl) rfl) rfl)
    next => exact h₁
  · exact fun _ r' h => h.imp fun _ _ => any_elseIfs

theorem otherwise_tracks (hin : inner.Tracks) (r : Reading) :
    Ensures (otherwise inner) r fun _ r' => r.Tracks false true (Any .otherwise) r' := by
  unfold otherwise
  simp only [ensures_bind, ensures_takeIf, ensures_ite, ensures_map, ensures_pure]
  split
  next hk =>
    simp only [if_true]
    refine (hin.block r.taken).imp fun _ r₁ h₁ => ?_
    have h₀ := terminal_tracks hk (.keyword .«else») rfl
    refine (h₀.comp h₁ rfl).imp ?_
    rintro i o ⟨_, helse, b, hb⟩
    exact ⟨some b, .otherwise helse hb⟩
  next =>
    simp only [Bool.false_eq_true, if_false]
    exact (Tracks.refl rfl r).imp fun _ _ hio => hio ▸ ⟨none, .noOtherwise⟩

theorem step_tracks (hin : inner.Tracks) (r : Reading) :
    Ensures (step inner) r fun _ r' => r.Tracks false true (Any .step) r' := by
  unfold step
  simp only [ensures_bind, ensures_takeIf, ensures_ite, ensures_map, ensures_pure]
  split
  next hk =>
    simp only [if_true]
    refine (expression_tracks hin r.taken).imp fun _ r₁ h₁ => ?_
    have h₀ := terminal_tracks hk (.sign .comma) rfl
    refine (h₀.comp h₁ rfl).imp ?_
    rintro i o ⟨_, hcomma, e, he⟩
    exact ⟨some e, .step hcomma he⟩
  next =>
    simp only [Bool.false_eq_true, if_false]
    exact (Tracks.refl rfl r).imp fun _ _ hio => hio ▸ ⟨none, .noStep⟩

theorem functionName_tracks (r : Reading) :
    Ensures functionName r fun _ r' =>
      r.Tracks false false (fun i o => ∃ f, DeclaredName f i o) r' := by
  unfold functionName method
  simp only [ensures_bind, ensures_start, ensures_spanFrom, ensures_pure, ensures_takeIf]
  refine (separated_tracks rfl name_tracks r).imp fun _ r₁ h₁ => ?_
  split
  next hk =>
    simp only [if_true, ensures_map]
    refine (name_tracks r₁.taken).imp fun _ r₂ h₂ => ?_
    have h₀ := terminal_tracks hk (.sign .colon) rfl
    refine (h₁.comp (h₀.comp h₂ rfl) rfl).imp ?_
    rintro i o ⟨_, ⟨m, ⟨n, hn⟩, hmore⟩, _, hcolon, x, hx⟩
    obtain ⟨ns, hns⟩ := exists_following (G := Word) hmore
    exact ⟨⟨n :: ns, some x, .empty 0⟩, .method ⟨m, hn, hns⟩ hcolon hx⟩
  next =>
    simp only [Bool.false_eq_true, if_false, ensures_pure]
    refine h₁.imp ?_
    rintro i o ⟨m, ⟨n, hn⟩, hmore⟩
    obtain ⟨ns, hns⟩ := exists_following (G := Word) hmore
    exact ⟨⟨n :: ns, none, .empty 0⟩, .plain ⟨m, hn, hns⟩⟩

/-- A declared variable, whichever it is. -/
def AnyDeclaration (i o : List Token) : Prop := ∃ d, Declaration d i o

theorem declaration_tracks (r : Reading) :
    Ensures declaration r fun _ r' => r.Tracks false false AnyDeclaration r' := by
  unfold declaration attrib
  simp only [ensures_bind, ensures_start, ensures_spanFrom, ensures_pure, ensures_takeIf]
  refine (name_tracks r).imp fun _ r₁ h₁ => ?_
  split
  next hk =>
    simp only [if_true, ensures_bind, ensures_pure]
    refine (name_tracks r₁.taken).imp fun _ r₂ h₂ => ?_
    refine (expect_tracks (.sign .greater) r₂).imp fun _ r₃ h₃ => ?_
    have h₀ := terminal_tracks hk (.sign .less) rfl
    refine (h₁.comp (h₀.comp (h₂.comp h₃ rfl) rfl) rfl).imp ?_
    rintro i o ⟨_, ⟨n, hn⟩, _, hless, _, ⟨a, ha⟩, hgreater⟩
    exact ⟨⟨n, some a, .empty 0⟩, .attributed hn hless ha hgreater⟩
  next =>
    simp only [Bool.false_eq_true, if_false, ensures_pure]
    refine h₁.imp ?_
    rintro i o ⟨n, hn⟩
    exact ⟨⟨n, none, .empty 0⟩, .plain hn⟩

theorem initializer_tracks (hin : inner.Tracks) (r : Reading) :
    Ensures (initializer inner) r fun _ r' => r.Tracks false true (Any .initializer) r' := by
  unfold initializer
  simp only [ensures_bind, ensures_takeIf]
  split
  next hk =>
    simp only [if_true]
    refine (expressions_tracks hin r.taken).imp fun _ r₁ h₁ => ?_
    have h₀ := terminal_tracks hk (.sign .equals) rfl
    refine (h₀.comp h₁ rfl).imp ?_
    rintro i o ⟨_, hequals, es, hes⟩
    exact ⟨es, .initializer hequals hes⟩
  next =>
    simp only [Bool.false_eq_true, if_false, ensures_pure]
    exact (Tracks.refl rfl r).imp fun _ _ hio => hio ▸ ⟨[], .noInitializer⟩

/-! ## Statements -/

theorem ifThen_tracks (hin : inner.Tracks) (r : Reading) :
    Ensures (ifThen inner) r fun _ r' => r.Tracks false false (Any .statement) r' := by
  unfold ifThen
  simp only [ensures_bind, ensures_start, ensures_spanFrom, ensures_pure]
  refine (expect_tracks (.keyword .«if») r).imp fun _ r₁ h₁ => ?_
  refine (expression_tracks hin r₁).imp fun _ r₂ h₂ => ?_
  refine (expect_tracks (.keyword .«then») r₂).imp fun _ r₃ h₃ => ?_
  refine (hin.block r₃).imp fun _ r₄ h₄ => ?_
  refine (elseIfs_tracks hin r₄).imp fun _ r₅ h₅ => ?_
  refine (otherwise_tracks hin r₅).imp fun _ r₆ h₆ => ?_
  refine (expect_tracks (.keyword .«end») r₆).imp fun _ r₇ h₇ => ?_
  have hrest := h₄.comp (h₅.comp (h₆.comp h₇ rfl) rfl) rfl
  refine (h₁.comp (h₂.comp (h₃.comp hrest rfl) rfl) rfl).imp ?_
  rintro i o ⟨_, hif, _, ⟨e, he⟩, _, hthen, _, ⟨b, hb⟩, _, ⟨es, hes⟩, _, ⟨x, hx⟩, hend⟩
  exact ⟨.ifThen e b es x (.empty 0), .ifThen hif he hthen hb hes hx hend⟩

theorem forLoop_tracks (hin : inner.Tracks) (r : Reading) :
    Ensures (forLoop inner) r fun _ r' => r.Tracks false false (Any .statement) r' := by
  unfold forLoop
  simp only [ensures_bind, ensures_start, ensures_takeIf]
  refine (expect_tracks (.keyword .«for») r).imp fun _ r₁ h₁ => ?_
  refine (name_tracks r₁).imp fun _ r₂ h₂ => ?_
  split
  next hk =>
    simp only [if_true, ensures_bind, ensures_spanFrom, ensures_pure]
    have h₃ := terminal_tracks hk (.sign .equals) rfl
    refine (expression_tracks hin r₂.taken).imp fun _ r₄ h₄ => ?_
    refine (expect_tracks (.sign .comma) r₄).imp fun _ r₅ h₅ => ?_
    refine (expression_tracks hin r₅).imp fun _ r₆ h₆ => ?_
    refine (step_tracks hin r₆).imp fun _ r₇ h₇ => ?_
    refine (expect_tracks (.keyword .«do») r₇).imp fun _ r₈ h₈ => ?_
    refine (blockToEnd_tracks hin r₈).imp fun _ r₉ h₉ => ?_
    have hrest := h₅.comp (h₆.comp (h₇.comp (h₈.comp h₉ rfl) rfl) rfl) rfl
    refine (h₁.comp (h₂.comp (h₃.comp (h₄.comp hrest rfl) rfl) rfl) rfl).imp ?_
    rintro i o ⟨_, hfor, _, ⟨n, hn⟩, _, hequals, _, ⟨a, ha⟩, _, hcomma, _, ⟨l, hl⟩, _, ⟨x, hx⟩, _,
      hdo, _, ⟨b, hb⟩, hend⟩
    exact ⟨.numericFor n a l x b (.empty 0),
      .numericFor hfor hn hequals ha hcomma hl hx hdo hb hend⟩
  next =>
    simp only [Bool.false_eq_true, if_false, ensures_bind, ensures_spanFrom, ensures_pure]
    refine (following_tracks rfl name_tracks r₂).imp fun _ r₃ h₃ => ?_
    refine (expect_tracks (.keyword .«in») r₃).imp fun _ r₄ h₄ => ?_
    refine (expressions_tracks hin r₄).imp fun _ r₅ h₅ => ?_
    refine (expect_tracks (.keyword .«do») r₅).imp fun _ r₆ h₆ => ?_
    refine (blockToEnd_tracks hin r₆).imp fun _ r₇ h₇ => ?_
    have hrest := h₄.comp (h₅.comp (h₆.comp h₇ rfl) rfl) rfl
    refine (h₁.comp (h₂.comp (h₃.comp hrest rfl) rfl) rfl).imp ?_
    rintro i o ⟨_, hfor, _, ⟨n, hn⟩, _, hmore, _, hin', _, ⟨es, hes⟩, _, hdo, _, ⟨b, hb⟩, hend⟩
    obtain ⟨ns, hns⟩ := exists_following (G := Word) hmore
    exact ⟨.genericFor (n :: ns) es b (.empty 0),
      .genericFor hfor ⟨_, hn, hns⟩ hin' hes hdo hb hend⟩

theorem function_tracks (hin : inner.Tracks) (r : Reading) :
    Ensures (function inner) r fun _ r' => r.Tracks false false (Any .statement) r' := by
  unfold function
  simp only [ensures_bind, ensures_start, ensures_spanFrom, ensures_pure]
  refine (expect_tracks (.keyword .function) r).imp fun _ r₁ h₁ => ?_
  refine (functionName_tracks r₁).imp fun _ r₂ h₂ => ?_
  refine (functionBody_tracks hin r₂).imp fun _ r₃ h₃ => ?_
  refine (h₁.comp (h₂.comp h₃ rfl) rfl).imp ?_
  rintro i o ⟨_, hfunction, _, ⟨n, hn⟩, f, hf⟩
  exact ⟨.function n f (.empty 0), .functionStatement hfunction hn hf⟩

theorem localStatement_tracks (hin : inner.Tracks) (r : Reading) :
    Ensures (localStatement inner) r fun _ r' => r.Tracks false true (Any .statement) r' := by
  unfold localStatement
  simp only [ensures_bind, ensures_start, ensures_takeIf]
  refine (expect_tracks (.keyword .«local») r).imp fun _ r₁ h₁ => ?_
  split
  next hk =>
    simp only [if_true, ensures_bind, ensures_spanFrom, ensures_pure]
    have h₂ := terminal_tracks hk (.keyword .function) rfl
    refine (name_tracks r₁.taken).imp fun _ r₃ h₃ => ?_
    refine (functionBody_tracks hin r₃).imp fun _ r₄ h₄ => ?_
    refine ((h₁.comp (h₂.comp (h₃.comp h₄ rfl) rfl) rfl).loosen id (Bool.false_le true)).imp ?_
    rintro i o ⟨_, hlocal, _, hfunction, _, ⟨n, hn⟩, f, hf⟩
    exact ⟨.localFunction n f (.empty 0), .localFunction hlocal hfunction hn hf⟩
  next =>
    simp only [Bool.false_eq_true, if_false, ensures_bind, ensures_spanFrom, ensures_pure]
    refine (separated_tracks rfl declaration_tracks r₁).imp fun _ r₂ h₂ => ?_
    refine (initializer_tracks hin r₂).imp fun _ r₃ h₃ => ?_
    refine (h₁.comp (h₂.comp h₃ rfl) rfl).imp ?_
    rintro i o ⟨_, hlocal, _, ⟨m, ⟨d, hd⟩, hmore⟩, es, hes⟩
    obtain ⟨ds, hds⟩ := exists_following (G := Declaration) hmore
    exact ⟨.declare (d :: ds) es (.empty 0), .declare hlocal ⟨m, hd, hds⟩ hes⟩

/-! ### Calls and assignments -/

/-- A target that cannot be assigned to can still be indexed. -/
theorem checkTarget_tracks {r₁ : Reading} {x : Expression × Shape}
    (h : r.Tracks false false (Shaped x.2) r₁) (hx : Fair x) :
    Ensures (checkTarget x.1) r₁ fun _ r' => r.Tracks false false (Any .target) r' := by
  unfold checkTarget
  cases hvariable : x.1.isVariable with
  | true =>
    have hshape : x.2 = .variable := hx.1 hvariable
    simp only [Bool.not_true, Bool.false_eq_true, if_false, ensures_pure]
    refine h.imp ?_
    rintro i o ⟨e, he, hor⟩
    have hvar : e.shape = .variable := by simpa [hshape] using hor
    exact ⟨e, .target he (he.isVariable_iff.2 hvar)⟩
  | false =>
    simp only [Bool.not_false, if_true, ensures_bind, ensures_pure]
    refine (report_tracks _ _ r₁).imp fun _ r₂ h₂ => ?_
    have hfield := (Begins.terminal (x := .sign .dot) rfl).comp begins_word rfl
    refine (h.comp (h₂ hfield (.refl r₂)) rfl).imp ?_
    rintro i o ⟨_, ⟨e, he, _⟩, _, hdot, n, hn⟩
    exact ⟨.dotted e n (.empty 0), .target (.dotted he hdot hn) rfl⟩

theorem target_tracks (hin : inner.Tracks) [inner.Acting] (r : Reading) :
    Ensures (do checkTarget (← prefixExpression inner).1) r fun _ r' =>
      r.Tracks false false (Any .target) r' := by
  rw [ensures_bind]
  exact (prefixExpression_tracks hin r).imp fun x r₁ h₁ => checkTarget_tracks h₁.1.1 h₁.1.2

theorem callOrAssign_tracks (hin : inner.Tracks) [inner.Acting] (r : Reading) :
    Ensures (callOrAssign inner) r fun _ r' => r.Tracks false true (Any .statement) r' := by
  unfold callOrAssign
  simp only [ensures_bind, ensures_start]
  refine (prefixExpression_tracks hin r).imp ?_
  rintro ⟨e, shape⟩ r₁ ⟨⟨h₁, hfair⟩, hclosed⟩
  simp only [ensures_ite, ensures_bind, ensures_spanFrom, ensures_pure]
  split
  next hcall =>
    refine (h₁.close hclosed).imp ?_
    rintro i o ⟨⟨x, hx, hor⟩, ho⟩
    have hshape : x.shape = .call := by simpa [hcall] using hor
    cases x with
    | call x n es s => exact ⟨.call (.call x n es s) (.empty 0), .callStatement hx ho⟩
    | _ => simp [Expression.shape] at hshape
  next =>
    refine (checkTarget_tracks h₁ hfair).imp fun _ r₂ h₂ => ?_
    refine (following_tracks rfl (target_tracks hin) r₂).imp fun _ r₃ h₃ => ?_
    refine (expect_tracks (.sign .equals) r₃).imp fun _ r₄ h₄ => ?_
    refine (expressions_tracks hin r₄).imp fun _ r₅ h₅ => ?_
    refine (h₂.comp (h₃.comp (h₄.comp h₅ rfl) rfl) rfl).imp ?_
    rintro i o ⟨_, ⟨t, ht⟩, _, hmore, _, hequals, es, hes⟩
    obtain ⟨ts, hts⟩ := exists_following (G := fun e => Derives (.target e)) hmore
    exact ⟨.assign (t :: ts) es (.empty 0), .assign ht hts.targets hequals hes⟩

/-! ### All statements -/

theorem begins_statement : Begins false true (Any .statement) [] :=
  ((Begins.terminal (x := .keyword .«break») rfl).loosen id (Bool.false_le true)).imp
    fun _ _ h => ⟨.breakLoop (.empty 0), .breakLoop h⟩

theorem statement_tracks (hin : inner.Tracks) [inner.Acting] (r : Reading) :
    Ensures (statement inner) r fun _ r' => r.Tracks false true (Any .statement) r' := by
  have htight {r' : Reading} (h : r.Tracks false false (Any .statement) r') :
      r.Tracks false true (Any .statement) r' := h.loosen id (Bool.false_le true)
  unfold statement
  simp only [ensures_bind, ensures_start, ensures_kind]
  split
  next => exact (ensures_map ..).2 ((ifThen_tracks hin r).imp fun _ _ => htight)
  next => exact (ensures_map ..).2 ((forLoop_tracks hin r).imp fun _ _ => htight)
  next => exact (ensures_map ..).2 ((function_tracks hin r).imp fun _ _ => htight)
  next => exact (ensures_map ..).2 (localStatement_tracks hin r)
  next => exact (ensures_map ..).2 (callOrAssign_tracks hin r)
  next => exact (ensures_map ..).2 (callOrAssign_tracks hin r)
  next hk =>
    simp only [ensures_bind, ensures_take, ensures_spanFrom, ensures_pure]
    refine (expression_tracks hin r.taken).imp fun _ r₁ h₁ => ?_
    refine (expect_tracks (.keyword .«do») r₁).imp fun _ r₂ h₂ => ?_
    refine (blockToEnd_tracks hin r₂).imp fun _ r₃ h₃ => htight ?_
    have h₀ := terminal_tracks hk (.keyword .«while») rfl
    refine (h₀.comp (h₁.comp (h₂.comp h₃ rfl) rfl) rfl).imp ?_
    rintro i o ⟨_, hwhile, _, ⟨e, he⟩, _, hdo, _, ⟨b, hb⟩, hend⟩
    exact ⟨.whileDo e b (.empty 0), .whileDo hwhile he hdo hb hend⟩
  next hk =>
    simp only [ensures_bind, ensures_take, ensures_spanFrom, ensures_pure]
    refine (hin.block r.taken).imp fun _ r₁ h₁ => ?_
    refine (expect_tracks (.keyword .«until») r₁).imp fun _ r₂ h₂ => ?_
    refine (expression_tracks hin r₂).imp fun _ r₃ h₃ => ?_
    have h₀ := terminal_tracks hk (.keyword .«repeat») rfl
    refine (h₀.comp (h₁.comp (h₂.comp h₃ rfl) rfl) rfl).imp ?_
    rintro i o ⟨_, hrepeat, _, ⟨b, hb⟩, _, huntil, e, he⟩
    exact ⟨.repeatUntil b e (.empty 0), .repeatUntil hrepeat hb huntil he⟩
  next hk =>
    simp only [ensures_bind, ensures_take, ensures_spanFrom, ensures_pure]
    refine (blockToEnd_tracks hin r.taken).imp fun _ r₁ h₁ => htight ?_
    have h₀ := terminal_tracks hk (.keyword .«do») rfl
    refine (h₀.comp h₁ rfl).imp ?_
    rintro i o ⟨_, hdo, _, ⟨b, hb⟩, hend⟩
    exact ⟨.doBlock b (.empty 0), .doBlock hdo hb hend⟩
  next hk =>
    simp only [ensures_bind, ensures_take, ensures_spanFrom, ensures_pure]
    refine (name_tracks r.taken).imp fun _ r₁ h₁ => ?_
    refine (expect_tracks (.sign .colonColon) r₁).imp fun _ r₂ h₂ => htight ?_
    have h₀ := terminal_tracks hk (.sign .colonColon) rfl
    refine (h₀.comp (h₁.comp h₂ rfl) rfl).imp ?_
    rintro i o ⟨_, hopen, _, ⟨n, hn⟩, hclose⟩
    exact ⟨.label n (.empty 0), .label hopen hn hclose⟩
  next hk =>
    simp only [ensures_bind, ensures_take, ensures_spanFrom, ensures_pure]
    refine (name_tracks r.taken).imp fun _ r₁ h₁ => htight ?_
    have h₀ := terminal_tracks hk (.keyword .goto) rfl
    refine (h₀.comp h₁ rfl).imp ?_
    rintro i o ⟨_, hgoto, n, hn⟩
    exact ⟨.goto n (.empty 0), .goto hgoto hn⟩
  next hk =>
    simp only [ensures_bind, ensures_take, ensures_spanFrom, ensures_pure]
    refine tracks_taken (by simp [hk]) begins_statement fun o => ?_
    exact ⟨.breakLoop (.empty 0), .breakLoop (.mk hk)⟩
  next =>
    simp only [ensures_bind, ensures_span, ensures_take, ensures_pure]
    refine (report_tracks _ _ r).imp fun _ r₁ h₁ => ?_
    intro _ r₂ hskip
    exact h₁ begins_statement (.trans (.single (.took r₁)) (Acting.acts hskip))

/-! ## Blocks and programs -/

section Depth

variable {d : Nat}

theorem statementOrSkip_tracks (hin : (Nested.upTo d).Tracks) (r : Reading) :
    Ensures (statementOrSkip (.upTo d)) r fun _ r' => r.Tracks false true (Any .statement) r' := by
  intro x r' hrun
  have hrun' := hrun
  rw [statementOrSkip, run_start_bind] at hrun'
  obtain ⟨y, r₁, hstatement, hrest⟩ := run_bind_eq_some.1 hrun'
  have hacts : r₁.Acts r' := Acting.acts hrest
  have h₁ := statement_tracks hin r y r₁ hstatement
  refine ⟨h₁.acts.trans hacts, h₁.least, fun hr => ?_⟩
  cases h₁.tracked hr with
  | took htakes htokens hG hempty =>
    -- A statement that was read consumed something, so nothing is dropped behind it.
    rw [run_statementOrSkip hr.sound hstatement (htakes.ready hr).silent] at hrun
    cases hrun
    exact .took htakes htokens hG hempty
  | blamed htakes hrest htokens hbegins => exact .blamed htakes (hrest.trans hacts) htokens hbegins

/-- A statement or a semicolon. -/
def Piece (i o : List Token) : Prop := Any .statement i o ∨ Terminal (.sign .semicolon) i o

theorem any_statements {i o : List Token} (h : ReflTransGen Piece i o) : Any .statements i o := by
  induction h using ReflTransGen.head_induction_on with
  | refl => exact ⟨[], .noStatements⟩
  | head hone _ ih =>
    obtain ⟨ss, hss⟩ := ih
    rcases hone with ⟨s, hs⟩ | hsemicolon
    · exact ⟨s :: ss, .moreStatements hs hss⟩
    · exact ⟨ss, .semicolon hsemicolon hss⟩

theorem block_tracks (hin : (Nested.upTo d).Tracks) (r : Reading) :
    Ensures (Read.block (.upTo d)) r fun _ r' => r.Tracks false true (Any .block) r' := by
  intro b r' hrun
  obtain ⟨x, hloop, -⟩ := run_block hrun
  refine Ensures.loop (Q := fun _ r' => r.Tracks false true (Any .block) r')
    (fun _ r' => r.Tracks false true (ReflTransGen Piece) r')
    ((Tracks.refl rfl r).imp fun _ _ hio => hio ▸ .refl) (fun ss r₁ h₁ => ?_) x r' hloop
  unfold blockStep
  simp only [ensures_bind, ensures_kind, ensures_ite, ensures_pure, ensures_takeIf]
  split
  next =>
    refine h₁.imp fun i o hio => ?_
    obtain ⟨ss, hss⟩ := any_statements hio
    exact ⟨⟨ss, none, .empty 0⟩, .openBlock hss⟩
  split
  next =>
    refine (result_tracks hin r₁).imp fun _ r₂ h₂ => (h₁.comp h₂ rfl).imp ?_
    rintro i o ⟨m, hmany, x, hx⟩
    obtain ⟨ss, hss⟩ := any_statements hmany
    exact ⟨⟨ss, some x, .empty 0⟩, .returning hss hx⟩
  split
  next hk =>
    have h₂ := terminal_tracks hk (.sign .semicolon) rfl
    exact h₁.snoc ((h₂.loosen id (Bool.false_le true)).imp fun _ _ => .inr)
  next =>
    simp only [Bool.false_eq_true, if_false]
    exact (statementOrSkip_tracks hin r₁).imp fun _ r₂ h₂ => h₁.snoc (h₂.imp fun _ _ => .inl)

end Depth
end Read

theorem Nested.tracks_upTo (depth : Nat) : (Nested.upTo depth).Tracks := by
  induction depth with
  | zero => exact ⟨fun _ _ _ _ hrun => (by cases hrun), fun _ _ _ hrun => (by cases hrun)⟩
  | succ depth ih => exact ⟨Read.operand_tracks ih, Read.block_tracks ih⟩

theorem Read.chunk_tracks (depth : Nat) (r : Reading) :
    Ensures (chunk (.upTo depth)) r fun _ r' => r.Tracks false true (Any .block) r' := by
  have hin := Nested.tracks_upTo depth
  unfold chunk
  simp only [ensures_bind, ensures_span, ensures_pure]
  refine (hin.block r).imp fun b r₁ h₁ => ?_
  refine Ensures.loop (fun _ r' => r.Tracks false true (Any .block) r') h₁ fun b r₂ h₂ => ?_
  simp only [ensures_bind, ensures_kind, ensures_ite, ensures_pure, ensures_span, ensures_take,
    ensures_spanFrom]
  split
  next => exact h₂
  next =>
    refine (report_tracks _ _ r₂).imp fun _ r₃ h₃ => ?_
    refine (hin.block r₃.taken).imp fun _ r₄ h₄ => ?_
    refine (h₂.comp (h₃ (.nil rfl) (.trans (.single (.took r₃)) h₄.acts)) rfl).imp ?_
    rintro i o ⟨m, hblock, hmo⟩
    exact hmo ▸ hblock

end Syntax
end LuaFront
