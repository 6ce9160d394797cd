import LuaFront.Proofs.Resolved.Reports
import LuaFront.Proofs.Syntax.Places

/-!
# LuaFront.Proofs.Resolved.Places

Where the diagnostics of a program stand. What violates a rule is a spot of some node of the tree
(`Node.Holds`, for each construct in turn), and spots lie between characters.
-/

namespace LuaFront
namespace Resolved

open Text (Span)
open Syntax (Node)

/-- Where a use stands. -/
def Use.span : Use → Span
  | .breakLoop at_ | .vararg at_ => at_
  | .goto n | .label n | .attribute n | .assigned n => n.span
  | .declared _ d => d.span

/-- What is wrong with a use is reported where it stands. -/
theorem Use.span_violation? {s : Surroundings} {u : Use} {d : Diagnostic}
    (h : u.violation? s = some d) : d.span = u.span := by
  cases u <;> simp only [violation?] at h <;> split at h <;> cases h <;> rfl

/-- The uses stand at spots of a node, or of nodes below it. -/
def Holds (n : Node) (us : List (Surroundings × Use)) : Prop :=
  ∀ u ∈ us, ∃ m, Node.Within m n ∧ u.2.span ∈ m.spots

namespace Holds

variable {n c : Node} {us vs : List (Surroundings × Use)}

theorem nil (n : Node) : Holds n [] := by simp [Holds]

theorem append (h : Holds n us) (h' : Holds n vs) : Holds n (us ++ vs) :=
  fun u hu => (List.mem_append.1 hu).elim (h u) (h' u)

theorem child (h : Holds c us) (hc : c ∈ n.children) : Holds n us := by
  intro u hu
  obtain ⟨m, hm, hspan⟩ := h u hu
  exact ⟨m, .child hc hm, hspan⟩

/-- A block behind an `else` has the nodes below it that it has by itself. -/
theorem otherwise {b : Syntax.Block} (h : Holds (.block b) us) : Holds (.otherwise b) us := by
  intro u hu
  obtain ⟨m, hm, hspan⟩ := h u hu
  cases hm with
  | refl => cases hspan
  | child hc hm => exact ⟨m, .child hc hm, hspan⟩

/-- Uses at the node itself. -/
theorem own (h : ∀ u ∈ us, u.2.span ∈ n.spots) : Holds n us := fun u hu => ⟨n, .refl, h u hu⟩

end Holds

theorem functionName_spots (s : Surroundings) (f : Syntax.FunctionName) :
    ∀ u ∈ Uses.functionName s f, u.2.span ∈ f.path.map Syntax.Name.span := by
  unfold Uses.functionName
  split
  next n hpath _ => simp [hpath, Use.span]
  next => simp

theorem declared_spots (s : Surroundings) (earlier ds : List Syntax.LocalDeclaration) :
    ∀ u ∈ Uses.declared s earlier ds, u.2.span ∈
      ds.flatMap fun d => d.span :: d.attrib.toList.map Syntax.Name.span := by
  induction ds generalizing earlier with
  | nil => simp [Uses.declared]
  | cons d later ih =>
    intro u hu
    rw [Uses.declared, List.mem_append] at hu
    rw [List.flatMap_cons, List.mem_append]
    rcases hu with hu | hu
    · left
      rcases List.mem_cons.1 hu with rfl | hu
      · exact List.mem_cons_self
      · obtain ⟨a, ha, rfl⟩ := List.mem_map.1 hu
        exact List.mem_cons_of_mem _ (List.mem_map_of_mem ha)
    · exact .inr (ih _ u hu)

/-- A label is a spot of the statement that has it. -/
theorem labelNames_spots {ss : List Syntax.Statement} {n : Syntax.Name}
    (h : n ∈ Syntax.labelNames ss) : ∃ st ∈ ss, n.span ∈ st.spots := by
  fun_induction Syntax.labelNames ss with
  | case1 => cases h
  | case2 m span later ih =>
    rcases List.mem_cons.1 h with rfl | h
    · exact ⟨_, List.mem_cons_self, by simp [Syntax.Statement.spots]⟩
    · obtain ⟨st, hst, hspan⟩ := ih h
      exact ⟨st, List.mem_cons_of_mem _ hst, hspan⟩
  | case3 st later _ ih =>
    obtain ⟨st', hst, hspan⟩ := ih h
    exact ⟨st', List.mem_cons_of_mem _ hst, hspan⟩

mutual

theorem expression_holds (s : Surroundings) (e : Syntax.Expression) :
    Holds (.expression e) (Uses.expression s e) := by
  have hpart {c : Node} {us : List (Surroundings × Use)} (hc : c ∈ e.parts) (h : Holds c us) :
      Holds (.expression e) us := h.child hc
  cases e with
  | literal v span => rw [Uses.expression]; exact .nil _
  | name n => rw [Uses.expression]; exact .nil _
  | vararg at_ =>
    rw [Uses.expression]
    exact .own (by simp [Use.span, Node.spots, Syntax.Expression.span])
  | function body span =>
    rw [Uses.expression]
    exact hpart (by simp [Syntax.Expression.parts]) (functionBody_holds s [] body)
  | table fields span =>
    rw [Uses.expression]
    exact tableFields_holds s fields (by simp [Node.children, Syntax.Expression.parts])
  | unary op e span =>
    rw [Uses.expression]
    exact hpart (by simp [Syntax.Expression.parts]) (expression_holds s e)
  | parenthesized e span =>
    rw [Uses.expression]
    exact hpart (by simp [Syntax.Expression.parts]) (expression_holds s e)
  | dotted e n span =>
    rw [Uses.expression]
    exact hpart (by simp [Syntax.Expression.parts]) (expression_holds s e)
  | binary left op right span =>
    rw [Uses.expression]
    exact (hpart (by simp [Syntax.Expression.parts]) (expression_holds s left)).append
      (hpart (by simp [Syntax.Expression.parts]) (expression_holds s right))
  | call receiver m arguments span =>
    rw [Uses.expression]
    exact (hpart (by simp [Syntax.Expression.parts]) (expression_holds s receiver)).append
      (expressions_holds s arguments fun e he => by
        simp [Node.children, Syntax.Expression.parts, he])
  | index target index span =>
    rw [Uses.expression]
    exact (hpart (by simp [Syntax.Expression.parts]) (expression_holds s target)).append
      (hpart (by simp [Syntax.Expression.parts]) (expression_holds s index))

theorem expressions_holds {n : Node} (s : Surroundings) (es : List Syntax.Expression)
    (hes : ∀ e ∈ es, Node.expression e ∈ n.children) : Holds n (Uses.expressions s es) := by
  cases es with
  | nil => rw [Uses.expressions]; exact .nil _
  | cons e later =>
    rw [Uses.expressions]
    exact ((expression_holds s e).child (hes e (by simp))).append
      (expressions_holds s later fun e he => hes e (by simp [he]))

theorem targets_holds {n : Node} (s : Surroundings) (es : List Syntax.Expression)
    (hes : ∀ e ∈ es, Node.expression e ∈ n.children) : Holds n (Uses.targets s es) := by
  cases es with
  | nil => rw [Uses.targets]; exact .nil _
  | cons e later =>
    have hlater := targets_holds s later fun e he => hes e (by simp [he])
    have hfirst := (expression_holds s e).child (hes e (by simp))
    cases e with
    | name x =>
      rw [Uses.targets]
      have hname : Holds (.expression (.name x)) [(s, .assigned x)] :=
        .own (by simp [Use.span, Node.spots, Syntax.Expression.span])
      exact (hname.child (hes _ (by simp))).append hlater
    | _ => exact hfirst.append hlater

theorem tableFields_holds {n : Node} (s : Surroundings) (fs : List Syntax.Field)
    (hfs : ∀ f ∈ fs, Node.field f ∈ n.children) : Holds n (Uses.tableFields s fs) := by
  cases fs with
  | nil => rw [Uses.tableFields]; exact .nil _
  | cons f later =>
    have hlater := tableFields_holds s later fun f hf => hfs f (by simp [hf])
    have hpart {c : Node} {us : List (Surroundings × Use)} (hc : c ∈ f.parts) (h : Holds c us) :
        Holds n us := (h.child (n := .field f) hc).child (hfs f (by simp))
    cases f with
    | positional value span =>
      rw [Uses.tableFields]
      exact (hpart (by simp [Syntax.Field.parts]) (expression_holds s value)).append hlater
    | named key value span =>
      rw [Uses.tableFields]
      exact (hpart (by simp [Syntax.Field.parts]) (expression_holds s value)).append hlater
    | keyed key value span =>
      rw [Uses.tableFields]
      exact (hpart (by simp [Syntax.Field.parts]) (expression_holds s key)).append
        ((hpart (by simp [Syntax.Field.parts]) (expression_holds s value)).append hlater)

theorem functionBody_holds (s : Surroundings) (given : List String) (f : Syntax.FunctionBody) :
    Holds (.functionBody f) (Uses.functionBody s given f) := by
  obtain ⟨parameters, vararg, b, span⟩ := f
  rw [Uses.functionBody]
  exact (block_holds _ b).child (by simp [Node.children])

theorem block_holds (s : Surroundings) (b : Syntax.Block) :
    Holds (.block b) (Uses.block s b) := by
  obtain ⟨body, result, span⟩ := b
  rw [Uses.block.eq_def]
  have hlabels : Holds (.block ⟨body, result, span⟩)
      ((Syntax.labelNames body).map fun n => (s.inBlock (Syntax.labelNames body), .label n)) := by
    intro u hu
    obtain ⟨n, hn, rfl⟩ := List.mem_map.1 hu
    obtain ⟨st, hst, hspan⟩ := labelNames_spots hn
    exact ⟨.statement st, .child (by simp [Node.children, Syntax.Block.parts, hst]) .refl, hspan⟩
  have hbody := statements_holds (n := .block ⟨body, result, span⟩)
    (s.inBlock (Syntax.labelNames body)) body
    (fun st hst => by simp [Node.children, Syntax.Block.parts, hst])
  refine hlabels.append (hbody.append ?_)
  cases result with
  | none => exact .nil _
  | some x =>
    obtain ⟨values, at_⟩ := x
    have hvalues := expressions_holds (n := .result ⟨values, at_⟩)
      (s.atEnd ⟨body, some ⟨values, at_⟩, span⟩) values (by simp [Node.children])
    exact hvalues.child (by simp [Node.children, Syntax.Block.parts])

theorem statements_holds {n : Node} (s : Surroundings) (ss : List Syntax.Statement)
    (hss : ∀ st ∈ ss, Node.statement st ∈ n.children) : Holds n (Uses.statements s ss) := by
  cases ss with
  | nil => rw [Uses.statements]; exact .nil _
  | cons st later =>
    rw [Uses.statements]
    exact ((statement_holds s st).child (hss st (by simp))).append
      (statements_holds _ later fun st hst => hss st (by simp [hst]))

theorem elseIfs_holds {n : Node} (s : Surroundings) (es : List Syntax.ElseIf)
    (hes : ∀ e ∈ es, Node.elseIf e ∈ n.children) : Holds n (Uses.elseIfs s es) := by
  cases es with
  | nil => rw [Uses.elseIfs]; exact .nil _
  | cons e later =>
    have hlater := elseIfs_holds s later fun e he => hes e (by simp [he])
    have hhere := hes e (by simp)
    obtain ⟨condition, b, span⟩ := e
    rw [Uses.elseIfs]
    have hcondition : Holds (.elseIf ⟨condition, b, span⟩) (Uses.expression s condition) :=
      (expression_holds s condition).child (by simp [Node.children])
    have hblock : Holds (.elseIf ⟨condition, b, span⟩) (Uses.block s b) :=
      (block_holds s b).child (by simp [Node.children])
    exact (hcondition.child hhere).append ((hblock.child hhere).append hlater)

theorem statement_holds (s : Surroundings) (st : Syntax.Statement) :
    Holds (.statement st) (Uses.statementUses s st) := by
  have hpart {c : Node} {us : List (Surroundings × Use)} (hc : c ∈ st.parts) (h : Holds c us) :
      Holds (.statement st) us := h.child hc
  cases st with
  | assign ts vs span =>
    rw [Uses.statementUses]
    exact (targets_holds s ts fun e he => by
      simp [Node.children, Syntax.Statement.parts, he]).append
      (expressions_holds s vs fun e he => by simp [Node.children, Syntax.Statement.parts, he])
  | declare ds vs span =>
    rw [Uses.statementUses]
    exact (expressions_holds s vs fun e he => by
      simp [Node.children, Syntax.Statement.parts, he]).append (.own (declared_spots s [] ds))
  | call e span =>
    rw [Uses.statementUses]
    exact hpart (by simp [Syntax.Statement.parts]) (expression_holds s e)
  | ifThen c b es o span =>
    rw [Uses.statementUses.eq_def]
    refine (hpart (by simp [Syntax.Statement.parts]) (expression_holds s c)).append
      ((hpart (by simp [Syntax.Statement.parts]) (block_holds s b)).append
        ((elseIfs_holds s es fun e he => by
          simp [Node.children, Syntax.Statement.parts, he]).append ?_))
    cases o with
    | none => exact .nil _
    | some o =>
      exact hpart (by simp [Syntax.Statement.parts]) (block_holds s o).otherwise
  | whileDo c b span =>
    rw [Uses.statementUses]
    exact (hpart (by simp [Syntax.Statement.parts]) (expression_holds s c)).append
      (hpart (by simp [Syntax.Statement.parts]) (block_holds _ b))
  | repeatUntil b c span =>
    rw [Uses.statementUses]
    exact (hpart (by simp [Syntax.Statement.parts]) (block_holds _ b)).append
      (hpart (by simp [Syntax.Statement.parts]) (expression_holds _ c))
  | numericFor n initial limit step b span =>
    rw [Uses.statementUses.eq_def]
    refine (hpart (by simp [Syntax.Statement.parts]) (expression_holds s initial)).append
      ((hpart (by simp [Syntax.Statement.parts]) (expression_holds s limit)).append
        (Holds.append ?_ (hpart (by simp [Syntax.Statement.parts]) (block_holds _ b))))
    cases step with
    | none => exact .nil _
    | some step => exact hpart (by simp [Syntax.Statement.parts]) (expression_holds s step)
  | genericFor ns vs b span =>
    rw [Uses.statementUses]
    exact (expressions_holds s vs fun e he => by
      simp [Node.children, Syntax.Statement.parts, he]).append
      (hpart (by simp [Syntax.Statement.parts]) (block_holds _ b))
  | doBlock b span =>
    rw [Uses.statementUses]
    exact hpart (by simp [Syntax.Statement.parts]) (block_holds s b)
  | breakLoop at_ =>
    rw [Uses.statementUses]
    exact .own (by simp [Use.span, Node.spots, Syntax.Statement.spots])
  | goto n span =>
    rw [Uses.statementUses]
    exact .own (by simp [Use.span, Node.spots, Syntax.Statement.spots])
  | label n span =>
    rw [Uses.statementUses]
    exact .nil _
  | function f body span =>
    rw [Uses.statementUses]
    have hname : Holds (.statement (.function f body span)) (Uses.functionName s f) :=
      .own (functionName_spots s f)
    exact hname.append
      (hpart (by simp [Syntax.Statement.parts]) (functionBody_holds s _ body))
  | localFunction n body span =>
    rw [Uses.statementUses]
    exact hpart (by simp [Syntax.Statement.parts]) (functionBody_holds _ [] body)

end

/-- Every diagnostic of a program lies between two characters of its text. -/
theorem Program.diagnostics_on (source : Text.Source) (unit : Nat) :
    ∀ d ∈ (ofTree (Syntax.Tree.parse source) unit).diagnostics,
      d.span.On (Text.Boundary source.chars) := by
  obtain ⟨hparsed, hspots⟩ := Syntax.Tree.parse_on source
  obtain ⟨hfound, -⟩ := program_settles (sturdy_parse source) unit
  have hjournal : (ofTree (Syntax.Tree.parse source) unit).journal.diagnostics =
      violations (Uses.program (Syntax.Tree.parse source).root.block) :=
    (Journal.diagnostics_record _ _).trans ((List.append_nil _).trans hfound)
  intro d hd
  rw [Program.diagnostics, hjournal] at hd
  rcases List.mem_append.1 hd with hd | hd
  · exact hparsed d hd
  · obtain ⟨u, hu, hviolation⟩ := List.mem_filterMap.1 hd
    obtain ⟨m, hm, hspan⟩ := block_holds .outermost _ u hu
    rw [Use.span_violation? hviolation]
    exact hspots m hm _ hspan

end Resolved
end LuaFront
