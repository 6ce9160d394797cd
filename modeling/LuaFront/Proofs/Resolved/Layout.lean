import LuaFront.Proofs.Resolved.Relabel
import LuaFront.Proofs.Syntax.Words
import Mathlib.Logic.Equiv.Basic

/-!
# LuaFront.Proofs.Resolved.Layout

The layout of a text has no meaning.

* `Resolve.statements_follows`: names in a tree that stands elsewhere are resolved as before, since
  scopes tell labels apart by where these start and by nothing else.
* `Program.ofTree_parse_of_words`: texts with the same words have the same tree but for places, and
  the same program but for the identities of symbols; the same is wrong with them.
-/

namespace LuaFront
namespace Resolved

open Placed (relocate Settled)
open Changing (change)
open Syntax (Node)

namespace Resolve

variable {g : Change}

mutual

theorem expression_follows (e : Syntax.Expression) (he : Settled e) {c : Context} (h : g.Fits c) :
    Follows g (expression e) (expression (Syntax.Relocate.expression g.place e)) c := by
  have hparts := Node.stands_expression.1 he
  cases e with
  | literal value at_ =>
    simp only [Syntax.Relocate.expression, expression]
    exact .pure h rfl
  | vararg at_ =>
    simp only [Syntax.Relocate.expression, expression]
    refine .get (.ite Iff.rfl (fun _ => .pure h rfl) fun _ => ?_)
    exact (report_follows h at_ _).bind fun _ c₁ h₁ => .pure h₁ rfl
  | function body at_ =>
    simp only [Syntax.Relocate.expression, expression]
    exact functionBody_follows false body (hparts _ List.mem_cons_self) h
  | table fields at_ =>
    simp only [Syntax.Relocate.expression, expression]
    have hfields : Settled fields := fun x hx => hparts _ (List.mem_map_of_mem hx)
    exact (tableFields_follows 0 fields hfields h).bind fun fs c₁ h₁ => .pure h₁ rfl
  | unary op operand at_ =>
    simp only [Syntax.Relocate.expression, expression]
    refine (expression_follows operand (hparts _ List.mem_cons_self) h).bind fun x c₁ h₁ => ?_
    exact .pure h₁ rfl
  | binary left op right at_ =>
    simp only [Syntax.Relocate.expression, expression]
    have hright : Settled right := hparts _ (List.mem_cons_of_mem _ List.mem_cons_self)
    refine (expression_follows left (hparts _ List.mem_cons_self) h).bind fun l c₁ h₁ => ?_
    exact (expression_follows right hright h₁).bind fun r c₂ h₂ => .pure h₂ rfl
  | parenthesized inner at_ =>
    simp only [Syntax.Relocate.expression, expression]
    refine (expression_follows inner (hparts _ List.mem_cons_self) h).bind fun x c₁ h₁ => ?_
    exact .pure h₁ rfl
  | call receiver method arguments at_ =>
    simp only [Syntax.Relocate.expression, expression]
    have harguments : Settled arguments := fun x hx =>
      hparts _ (List.mem_cons_of_mem _ (List.mem_map_of_mem hx))
    refine (expression_follows receiver (hparts _ List.mem_cons_self) h).bind fun f c₁ h₁ => ?_
    refine (expressions_follows arguments harguments h₁).bind fun es c₂ h₂ => ?_
    cases method <;> exact .pure h₂ rfl
  | name n =>
    simp only [Syntax.Relocate.expression, expression]
    exact name_follows h n
  | index target index at_ =>
    simp only [Syntax.Relocate.expression, expression]
    have hindex : Settled index := hparts _ (List.mem_cons_of_mem _ List.mem_cons_self)
    refine (expression_follows target (hparts _ List.mem_cons_self) h).bind fun t c₁ h₁ => ?_
    exact (expression_follows index hindex h₁).bind fun i c₂ h₂ => .pure h₂ rfl
  | dotted target key at_ =>
    simp only [Syntax.Relocate.expression, expression]
    refine (expression_follows target (hparts _ List.mem_cons_self) h).bind fun t c₁ h₁ => ?_
    exact .pure h₁ rfl

theorem expressions_follows (es : List Syntax.Expression) (hes : Settled es) {c : Context}
    (h : g.Fits c) :
    Follows g (expressions es) (expressions (Syntax.Relocate.expressions g.place es)) c := by
  cases es with
  | nil =>
    simp only [Syntax.Relocate.expressions, expressions]
    exact .pure h rfl
  | cons e later =>
    simp only [Syntax.Relocate.expressions, expressions]
    refine (expression_follows e (settled_head hes) h).bind fun x c₁ h₁ => ?_
    refine (expressions_follows later (settled_tail hes) h₁).bind fun xs c₂ h₂ => ?_
    exact .pure h₂ rfl

theorem tableFields_follows (position : Nat) (fields : List Syntax.Field) (hfields : Settled fields)
    {c : Context} (h : g.Fits c) :
    Follows g (tableFields position fields)
      (tableFields position (Syntax.Relocate.fields g.place fields)) c := by
  cases fields with
  | nil =>
    simp only [Syntax.Relocate.fields, tableFields]
    exact .pure h rfl
  | cons x later =>
    have hparts := Node.stands_field.1 (settled_head hfields)
    have hlater := settled_tail hfields
    cases x with
    | positional value at_ =>
      simp only [Syntax.Relocate.fields, Syntax.Relocate.field, tableFields]
      refine (expression_follows value (hparts _ List.mem_cons_self) h).bind fun v c₁ h₁ => ?_
      exact (tableFields_follows (position + 1) later hlater h₁).bind fun fs c₂ h₂ => .pure h₂ rfl
    | named key value at_ =>
      simp only [Syntax.Relocate.fields, Syntax.Relocate.field, tableFields]
      refine (expression_follows value (hparts _ List.mem_cons_self) h).bind fun v c₁ h₁ => ?_
      exact (tableFields_follows position later hlater h₁).bind fun fs c₂ h₂ => .pure h₂ rfl
    | keyed key value at_ =>
      simp only [Syntax.Relocate.fields, Syntax.Relocate.field, tableFields]
      have hvalue : Settled value := hparts _ (List.mem_cons_of_mem _ List.mem_cons_self)
      refine (expression_follows key (hparts _ List.mem_cons_self) h).bind fun k c₁ h₁ => ?_
      refine (expression_follows value hvalue h₁).bind fun v c₂ h₂ => ?_
      exact (tableFields_follows position later hlater h₂).bind fun fs c₃ h₃ => .pure h₃ rfl

theorem functionBody_follows (method : Bool) (body : Syntax.FunctionBody) (hbody : Settled body)
    {c : Context} (h : g.Fits c) :
    Follows g (functionBody method body)
      (functionBody method (Syntax.Relocate.functionBody g.place body)) c := by
  obtain ⟨parameters, vararg, block, at_⟩ := body
  have hblock : Settled block := (Node.stands_functionBody.1 hbody).2
  simp only [Syntax.Relocate.functionBody, functionBody]
  refine inFunction_follows h fun c₁ h₁ => ?_
  have hrest (receiver : List Local) (c₂ : Context) (h₂ : g.Fits c₂) : Follows g
      (do
        let parameters ← declareAll parameters
        return Expression.function (receiver ++ parameters) vararg (← statements block))
      (do
        let parameters ← declareAll (relocate g.place parameters)
        return Expression.function (change g receiver ++ parameters) vararg
          (← statements (Syntax.Relocate.block g.place block))) c₂ := by
    refine (declareAll_follows h₂ parameters).bind fun symbols c₃ h₃ => ?_
    refine (statements_follows block hblock h₃).bind fun ss c₄ h₄ => .pure h₄ ?_
    exact congrArg (Expression.function · vararg _) List.map_append.symm
  cases method with
  | false => exact hrest [] c₁ h₁
  | true => exact (declare_follows h₁ "self").bind fun receiver c₂ h₂ => hrest [receiver] c₂ h₂

theorem statements_follows (block : Syntax.Block) (hblock : Settled block) {c : Context}
    (h : g.Fits c) :
    Follows g (statements block) (statements (Syntax.Relocate.block g.place block)) c := by
  obtain ⟨body, result, at_⟩ := block
  have hparts := List.forall_mem_append.1 (Node.stands_block.1 hblock)
  have hbody : Settled body := fun s hs => hparts.1 _ (List.mem_map_of_mem hs)
  rw [Syntax.Relocate.block, statements, statements]
  have hlabels := declareLabels_follows h body hbody
  rw [← Syntax.Relocate.statements_eq] at hlabels
  refine hlabels.bind fun _ c₁ h₁ => ?_
  refine (statementList_follows body hbody h₁).bind fun ss c₂ h₂ => ?_
  cases result with
  | none => exact .pure h₂ rfl
  | some r =>
    obtain ⟨values, at_'⟩ := r
    have hvalues : Settled values := Node.stands_result.1 (hparts.2 _ List.mem_cons_self)
    refine (expressions_follows values hvalues h₂).bind fun es c₃ h₃ => .pure h₃ ?_
    exact (Relabel.block_append g.symbol ss [.result es]).symm

theorem statementList_follows (ss : List Syntax.Statement) (hss : Settled ss) {c : Context}
    (h : g.Fits c) :
    Follows g (statementList ss) (statementList (Syntax.Relocate.statements g.place ss)) c := by
  cases ss with
  | nil =>
    simp only [Syntax.Relocate.statements, statementList]
    exact .pure h rfl
  | cons s later =>
    simp only [Syntax.Relocate.statements, statementList]
    refine (statement_follows s (settled_head hss) h).bind fun x c₁ h₁ => ?_
    exact (statementList_follows later (settled_tail hss) h₁).bind fun xs c₂ h₂ => .pure h₂ rfl

theorem elseIfs_follows (es : List Syntax.ElseIf) (hes : Settled es) {c : Context} (h : g.Fits c) :
    Follows g (elseIfs es) (elseIfs (Syntax.Relocate.elseIfs g.place es)) c := by
  cases es with
  | nil =>
    simp only [Syntax.Relocate.elseIfs, elseIfs]
    exact .pure h rfl
  | cons e later =>
    obtain ⟨condition, block, at_⟩ := e
    obtain ⟨hcondition, hblock⟩ := Node.stands_elseIf.1 (settled_head hes)
    simp only [Syntax.Relocate.elseIfs, Syntax.Relocate.elseIf, elseIfs]
    refine (expression_follows condition hcondition h).bind fun x c₁ h₁ => ?_
    refine (inScope_follows h₁ fun c' h' => statements_follows block hblock h').bind
      fun b c₂ h₂ => ?_
    exact (elseIfs_follows later (settled_tail hes) h₂).bind fun xs c₃ h₃ => .pure h₃ rfl

theorem targets_follows (es : List Syntax.Expression) (hes : Settled es) {c : Context}
    (h : g.Fits c) :
    Follows g (targets es) (targets (Syntax.Relocate.expressions g.place es)) c := by
  cases es with
  | nil =>
    simp only [Syntax.Relocate.expressions, targets]
    exact .pure h rfl
  | cons e later =>
    have hlater (x : Expression) (c₁ : Context) (h₁ : g.Fits c₁) :
        Follows g (do return x :: (← targets later))
          (do return change g x :: (← targets (Syntax.Relocate.expressions g.place later))) c₁ :=
      (targets_follows later (settled_tail hes) h₁).bind fun xs c₂ h₂ => .pure h₂ rfl
    have hother := expression_follows e (settled_head hes) h
    cases e with
    | name n =>
      simp only [Syntax.Relocate.expressions, Syntax.Relocate.expression, targets]
      exact (targetName_follows h n).bind hlater
    | _ =>
      simp only [Syntax.Relocate.expressions, Syntax.Relocate.expression, targets] at hother ⊢
      exact hother.bind hlater

theorem statement_follows (s : Syntax.Statement) (hs : Settled s) {c : Context} (h : g.Fits c) :
    Follows g (statement s) (statement (Syntax.Relocate.statement g.place s)) c := by
  have hparts := Node.stands_statement.1 hs
  cases s with
  | assign ts vs at_ =>
    simp only [Syntax.Relocate.statement, statement]
    obtain ⟨hts, hvs⟩ := List.forall_mem_append.1 hparts
    refine (targets_follows ts (fun x hx => hts _ (List.mem_map_of_mem hx)) h).bind
      fun xs c₁ h₁ => ?_
    refine (expressions_follows vs (fun x hx => hvs _ (List.mem_map_of_mem hx)) h₁).bind
      fun ys c₂ h₂ => ?_
    exact .pure h₂ rfl
  | declare ds vs at_ =>
    simp only [Syntax.Relocate.statement, statement]
    obtain ⟨_, hvs⟩ := List.forall_mem_append.1 hparts
    refine (expressions_follows vs (fun x hx => hvs _ (List.mem_map_of_mem hx)) h).bind
      fun ys c₁ h₁ => ?_
    refine (declaredSymbols_follows h₁ false ds).bind fun symbols c₂ h₂ => ?_
    exact (declareVariables_follows h₂ symbols).bind fun _ c₃ h₃ => .pure h₃ rfl
  | call e at_ =>
    simp only [Syntax.Relocate.statement, statement]
    refine (expression_follows e (hparts _ List.mem_cons_self) h).bind fun x c₁ h₁ => ?_
    exact .pure h₁ rfl
  | ifThen condition block es o at_ =>
    rw [Syntax.Relocate.statement, statement, statement]
    obtain ⟨hcondition, hrest⟩ := List.forall_mem_cons.1 hparts
    obtain ⟨hblock, hrest⟩ := List.forall_mem_cons.1 hrest
    obtain ⟨hes, ho⟩ := List.forall_mem_append.1 hrest
    refine (expression_follows condition hcondition h).bind fun x c₁ h₁ => ?_
    refine (inScope_follows h₁ fun c' h' => statements_follows block hblock h').bind
      fun b c₂ h₂ => ?_
    refine (elseIfs_follows es (fun x hx => hes _ (List.mem_map_of_mem hx)) h₂).bind
      fun bs c₃ h₃ => ?_
    cases o with
    | none => exact .pure h₃ rfl
    | some o =>
      have ho : Settled o := Node.stands_otherwise.1 (ho _ List.mem_cons_self)
      exact (inScope_follows h₃ fun c' h' => statements_follows o ho h').bind
        fun b' c₄ h₄ => .pure h₄ rfl
  | whileDo condition block at_ =>
    simp only [Syntax.Relocate.statement, statement]
    have hblock : Settled block := hparts _ (List.mem_cons_of_mem _ List.mem_cons_self)
    refine (expression_follows condition (hparts _ List.mem_cons_self) h).bind fun x c₁ h₁ => ?_
    refine inLoop_follows h₁ fun exit c₂ h₂ => ?_
    exact (inScope_follows h₂ fun c' h' => statements_follows block hblock h').bind
      fun b c₃ h₃ => .pure h₃ rfl
  | repeatUntil block condition at_ =>
    simp only [Syntax.Relocate.statement, statement]
    have hcondition : Settled condition := hparts _ (List.mem_cons_of_mem _ List.mem_cons_self)
    refine inLoop_follows h fun exit c₁ h₁ => inScope_follows h₁ fun c₂ h₂ => ?_
    refine (statements_follows block (hparts _ List.mem_cons_self) h₂).bind fun b c₃ h₃ => ?_
    exact (expression_follows condition hcondition h₃).bind fun x c₄ h₄ => .pure h₄ rfl
  | numericFor n initial limit step block at_ =>
    rw [Syntax.Relocate.statement, statement, statement]
    obtain ⟨_, hrest⟩ := List.forall_mem_cons.1 hparts
    obtain ⟨hinitial, hrest⟩ := List.forall_mem_cons.1 hrest
    obtain ⟨hlimit, hrest⟩ := List.forall_mem_cons.1 hrest
    obtain ⟨hstep, hblock⟩ := List.forall_mem_append.1 hrest
    have hblock : Settled block := hblock _ List.mem_cons_self
    refine (expression_follows initial hinitial h).bind fun x c₁ h₁ => ?_
    refine (expression_follows limit hlimit h₁).bind fun y c₂ h₂ => ?_
    have hbody (z : Expression) (c₃ : Context) (h₃ : g.Fits c₃) : Follows g
        (inLoop fun exit => inScope false do
          let counter ← declare n.text
          return Statement.numericFor counter x y z (← statements block) exit)
        (inLoop fun exit => inScope false do
          let counter ← declare (relocate g.place n).text
          return Statement.numericFor counter (change g x) (change g y) (change g z)
            (← statements (Syntax.Relocate.block g.place block)) exit) c₃ := by
      refine inLoop_follows h₃ fun exit c₄ h₄ => inScope_follows h₄ fun c₅ h₅ => ?_
      refine (declare_follows h₅ n.text).bind fun counter c₆ h₆ => ?_
      exact (statements_follows block hblock h₆).bind fun b c₇ h₇ => .pure h₇ rfl
    cases step with
    | none => exact hbody (.integer 1) c₂ h₂
    | some e => exact (expression_follows e (hstep _ List.mem_cons_self) h₂).bind hbody
  | genericFor ns vs block at_ =>
    simp only [Syntax.Relocate.statement, statement]
    obtain ⟨hfront, hblock⟩ := List.forall_mem_append.1 hparts
    obtain ⟨_, hvs⟩ := List.forall_mem_append.1 hfront
    have hblock : Settled block := hblock _ List.mem_cons_self
    refine (expressions_follows vs (fun x hx => hvs _ (List.mem_map_of_mem hx)) h).bind
      fun ys c₁ h₁ => ?_
    refine inLoop_follows h₁ fun exit c₂ h₂ => inScope_follows h₂ fun c₃ h₃ => ?_
    refine (declareAll_follows h₃ ns).bind fun symbols c₄ h₄ => ?_
    exact (statements_follows block hblock h₄).bind fun b c₅ h₅ => .pure h₅ rfl
  | doBlock block at_ =>
    simp only [Syntax.Relocate.statement, statement]
    have hblock : Settled block := hparts _ List.mem_cons_self
    exact (inScope_follows h fun c' h' => statements_follows block hblock h').bind
      fun b c₁ h₁ => .pure h₁ rfl
  | breakLoop at_ =>
    simp only [Syntax.Relocate.statement, statement]
    exact breakLoop_follows h at_
  | goto n at_ =>
    simp only [Syntax.Relocate.statement, statement]
    exact goto_follows h n
  | label n at_ =>
    simp only [Syntax.Relocate.statement, statement]
    exact label_follows h n (Node.stands_name.1 (hparts _ List.mem_cons_self))
  | function f body at_ =>
    simp only [Syntax.Relocate.statement, statement]
    have hbody : Settled body := hparts _ (List.mem_cons_of_mem _ List.mem_cons_self)
    refine (functionTarget?_follows h f).bind fun target c₁ h₁ => ?_
    have hmethod : (relocate g.place f).method.isSome = f.method.isSome := Option.isSome_map ..
    cases target with
    | none => exact .pure h₁ rfl
    | some target =>
      rw [hmethod]
      exact (functionBody_follows f.method.isSome body hbody h₁).bind fun x c₂ h₂ => .pure h₂ rfl
  | localFunction n body at_ =>
    simp only [Syntax.Relocate.statement, statement]
    have hbody : Settled body := hparts _ (List.mem_cons_of_mem _ List.mem_cons_self)
    refine (declare_follows h n.text).bind fun symbol c₁ h₁ => ?_
    exact (functionBody_follows false body hbody h₁).bind fun x c₂ h₂ => .pure h₂ rfl

end

theorem program_follows {b : Syntax.Block} (hb : Settled b) {c : Context} (h : g.Fits c) :
    Follows g (program b) (program (relocate g.place b)) c := by
  unfold program
  refine inScope_follows h fun c₁ h₁ => .get ?_
  refine (declareVariable_follows h₁ c₁.environment).bind fun _ c₂ h₂ => ?_
  exact statements_follows b hb h₂

end Resolve

/-! ## Other units -/

/-- The symbols of one unit for those of another, and the other way round. -/
def SymbolId.exchange (u v : Nat) : SymbolId → SymbolId
  | .declared unit index => .declared (Equiv.swap u v unit) index
  | .generated index => .generated index

theorem SymbolId.exchange_bijective (u v : Nat) : Function.Bijective (exchange u v) := by
  have hinvolutive : Function.Involutive (exchange u v) := by
    intro id
    cases id with
    | declared unit index => simp [exchange]
    | generated index => rfl
  exact hinvolutive.bijective

namespace Program

open Syntax (Tree)

/-- A tree that stands elsewhere is resolved to the same program in its own unit, but for the
identities of its symbols, and what is wrong with it is the same. -/
theorem ofTree_relocate {t : Tree} {f : Nat → Nat} (hf : Stretches f) {chunk : Syntax.Chunk}
    (hchunk : Settled chunk) (ht : t.root = relocate f chunk) {u v : Nat}
    {σ : SymbolId → SymbolId} (hσ : ∀ i, σ (.declared u i) = .declared v i) :
    (ofTree t v).body = Relabel.block σ ((Resolve.program chunk.block).run (.ofUnit u)).1 ∧
      (ofTree t v).journal.diagnostics =
        relocate f ((Resolve.program chunk.block).run (.ofUnit u)).2.journal.diagnostics := by
  have hfits : Change.Fits ⟨f, σ, v⟩ (.ofUnit u) :=
    ⟨hf, hσ, by simp [Context.ofUnit, Scopes.empty]⟩
  have hcontext : change ⟨f, σ, v⟩ (Context.ofUnit u) = .ofUnit v := by
    have henvironment : Local.relabel σ (Local.plain (.declared u 0) environmentName) =
        Local.plain (.declared v 0) environmentName :=
      congrArg (Local.plain · environmentName) (hσ 0)
    exact congrArg (fun environment => { Context.ofUnit v with environment }) henvironment
  have hrun := (Resolve.program_follows hchunk hfits).1
  rw [hcontext] at hrun
  have hblock : t.root.block = relocate f chunk.block := congrArg Syntax.Chunk.block ht
  rw [← hblock] at hrun
  constructor
  · exact congrArg Prod.fst hrun
  · have hjournal : ((Resolve.program t.root.block).run (.ofUnit v)).2.journal =
        relocate f ((Resolve.program chunk.block).run (.ofUnit u)).2.journal :=
      congrArg (fun x => x.2.journal) hrun
    rw [← Journal.diagnostics_relocate, ← hjournal]
    exact (Journal.diagnostics_record ..).trans (List.append_nil _)

/-- The layout of a text has no meaning. Texts with the same words that have no lexical diagnostic
are read to the same tree but for its places, and resolved to the same program but for the
identities of its symbols. What is wrong with them is the same, in the same order. -/
theorem ofTree_parse_of_words {s t : Text.Source}
    (hs : ∀ l ∈ (Scanner.ofSource s).lexemes, l.diagnostics = [])
    (ht : ∀ l ∈ (Scanner.ofSource t).lexemes, l.diagnostics = []) (hwords : s.words = t.words) :
    (Tree.parse s).root.erase = (Tree.parse t).root.erase ∧
      (Tree.parse s).diagnostics.map Diagnostic.cause =
        (Tree.parse t).diagnostics.map Diagnostic.cause ∧
      ∀ u v,
        (∃ σ, Function.Bijective σ ∧
          (ofTree (Tree.parse t) v).body = Relabel.block σ (ofTree (Tree.parse s) u).body) ∧
        (ofTree (Tree.parse s) u).journal.diagnostics.map Diagnostic.cause =
          (ofTree (Tree.parse t) v).journal.diagnostics.map Diagnostic.cause := by
  have hcause (f : Nat → Nat) (ds : List Diagnostic) :
      (relocate f ds).map Diagnostic.cause = ds.map Diagnostic.cause := List.map_map
  obtain ⟨f, hf, hroot, hdiagnostics, hsettled⟩ := Tree.parse_ofWords hs
  obtain ⟨f', hf', hroot', hdiagnostics', -⟩ := Tree.parse_ofWords ht
  rw [← hwords] at hroot' hdiagnostics'
  refine ⟨?_, ?_, fun u v => ?_⟩
  · rw [hroot, hroot', Syntax.Chunk.erase_relocate, Syntax.Chunk.erase_relocate]
  · rw [hdiagnostics, hdiagnostics', hcause, hcause]
  have hexchange (i : Nat) : SymbolId.exchange u v (.declared u i) = .declared v i :=
    congrArg (SymbolId.declared · i) (Equiv.swap_apply_left u v)
  have hsame (i : Nat) : id (SymbolId.declared u i) = .declared u i := rfl
  obtain ⟨hbody, hjournal⟩ := ofTree_relocate hf hsettled hroot hsame
  obtain ⟨hbody', hjournal'⟩ := ofTree_relocate hf' hsettled hroot' hexchange
  refine ⟨⟨SymbolId.exchange u v, SymbolId.exchange_bijective u v, ?_⟩, ?_⟩
  · rw [hbody, hbody', Relabel.block_id]
  · rw [hjournal, hjournal', hcause, hcause]

/-- Two labels of one name, a jump to none, a call that is assigned to and a token that is left over,
in one line and with comments. -/
theorem ofTree_parse_of_words_comments :
    let s := Text.Source.ofString "::a::::a::goto b(f()),x=1 break end"
    let t := Text.Source.ofString "::a:: ::a:: --[[two]] goto b\n(f()) , x = 1\nbreak -- left\n end"
    ((∀ l ∈ (Scanner.ofSource s).lexemes, l.diagnostics = []) ∧
        (∀ l ∈ (Scanner.ofSource t).lexemes, l.diagnostics = []) ∧ s.words = t.words) ∧
      (Tree.parse s).root.erase = (Tree.parse t).root.erase ∧
      (Tree.parse s).diagnostics.map Diagnostic.cause =
        (Tree.parse t).diagnostics.map Diagnostic.cause ∧
      ∀ u v,
        (∃ σ, Function.Bijective σ ∧
          (ofTree (Tree.parse t) v).body = Relabel.block σ (ofTree (Tree.parse s) u).body) ∧
        (ofTree (Tree.parse s) u).journal.diagnostics.map Diagnostic.cause =
          (ofTree (Tree.parse t) v).journal.diagnostics.map Diagnostic.cause := by
  intro s t
  have hs : ∀ l ∈ (Scanner.ofSource s).lexemes, l.diagnostics = [] := by decide +kernel
  have ht : ∀ l ∈ (Scanner.ofSource t).lexemes, l.diagnostics = [] := by decide +kernel
  have hwords : s.words = t.words := by decide +kernel
  exact ⟨⟨hs, ht, hwords⟩, ofTree_parse_of_words hs ht hwords⟩

end Program
end Resolved
end LuaFront
