import LuaFront.Proofs.Syntax.Nesting

/-!
# LuaFront.Proofs.Syntax.Spelling

The names in a tree, whatever the text was.

* `Read.Spells m Q`: from tokens as they come from a text, what `m` gives has the property `Q`.
* `Node.names`: the names that a node shows itself, and `Node.Worded`: they are words.
* `Tree.parse_worded`: all nodes of a tree are so. Most come from a reader of their own
  (`Node.Origin`); fields, declarations and names of functions from that of the node around them.
-/

namespace LuaFront
namespace Syntax

/-! ## Names that are shown -/

def FunctionName.names (f : FunctionName) : List Name := f.path ++ f.method.toList

def LocalDeclaration.names (d : LocalDeclaration) : List Name := d.name :: d.attrib.toList

def Field.names : Field → List Name
  | .named n _ _ => [n]
  | _ => []

def Expression.names : Expression → List Name
  | .call _ method _ _ => method.toList
  | .name n => [n]
  | .dotted _ n _ => [n]
  | _ => []

namespace Node

/-- The names that a node shows itself. -/
def names : Node → List Name
  | .expression e => e.names
  | .field f => f.names
  | .functionName f => f.names
  | .declaration d => d.names
  | .name n => [n]
  | _ => []

def Worded (n : Node) : Prop := ∀ m ∈ n.names, m.IsWord

end Node

def Expression.fields : Expression → List Field
  | .table fs _ => fs
  | _ => []

/-- An expression with the fields that it may have. -/
def Expression.Worded (e : Expression) : Prop :=
  (Node.expression e).Worded ∧ ∀ f ∈ e.fields, (Node.field f).Worded

/-- What a statement declares. -/
def Statement.Worded : Statement → Prop
  | .declare ds _ _ => ∀ d ∈ ds, (Node.declaration d).Worded
  | .function f _ _ => (Node.functionName f).Worded
  | _ => True

namespace Read

variable {α β σ : Type}

/-! ## What is read from the tokens of a text -/

def Spells (m : Read α) (Q : α → Prop) : Prop :=
  ∀ r : Reading, r.Sound → Ensures m r fun a _ => Q a

namespace Spells

variable {m : Read α} {k : α → Read β} {Q : α → Prop} {R : β → Prop}

theorem pure {a : α} (h : Q a) : Spells (Pure.pure a) Q := fun r _ => (ensures_pure a r _).2 h

theorem bind [Acting m] (h : Spells m Q) (hk : ∀ a, Q a → Spells (k a) R) : Spells (m >>= k) R := by
  intro r hr
  refine (ensures_bind m k r _).2 (((h r hr).and (ensures_run m r)).imp ?_)
  rintro a r₁ ⟨ha, hrun⟩
  exact hk a ha r₁ ((Acting.acts hrun).sound hr)

/-- Nothing need be known of a step. -/
theorem behind [Acting m] (hk : ∀ a, Spells (k a) R) : Spells (m >>= k) R :=
  bind (Q := fun _ => True) (fun _ _ => .of_forall fun _ _ => trivial) fun a _ => hk a

theorem map [Acting m] {f : α → β} (h : Spells m fun a => R (f a)) : Spells (f <$> m) R :=
  fun r hr => (ensures_map f m r _).2 (h r hr)

theorem loop {step : σ → Read (σ ⊕ α)} [∀ a, Acting (step a)] {a : σ} (P : σ → Prop) (h : P a)
    (hstep : ∀ a, P a → Spells (step a) (Sum.elim P Q)) : Spells (Read.loop step a) Q := by
  intro r hr
  refine Ensures.loop (fun a r => P a ∧ r.Sound) ⟨h, hr⟩ ?_
  rintro a r ⟨ha, hr⟩
  refine ((hstep a ha r hr).and (ensures_run _ r)).imp ?_
  rintro x r₁ ⟨hx, hrun⟩
  cases x with
  | inl a' => exact ⟨hx, (Acting.acts hrun).sound hr⟩
  | inr b => exact hx

/-- What holds of each item holds of a list of them. -/
theorem separated {separator : Kind} [Acting m] (h : Spells m Q) :
    Spells (Read.separated separator m) fun as => ∀ a ∈ as, Q a := by
  unfold Read.separated
  refine h.bind fun a ha => bind (Q := fun as => ∀ a ∈ as, Q a) ?_ fun as has =>
    pure (List.forall_mem_cons.2 ⟨ha, has⟩)
  unfold following
  refine loop (fun as => ∀ a ∈ as, Q a) (by simp) fun as has => behind fun more => ?_
  cases more with
  | true =>
    refine h.bind fun a ha => pure ?_
    exact List.forall_mem_append.2 ⟨has, List.forall_mem_singleton.2 ha⟩
  | false => exact pure has

end Spells

theorem name_spells : Spells name Name.IsWord :=
  fun _ hr n r' hrun => ((name_reads hr).ensures n r' hrun).2.1

/-! ## Expressions -/

section

variable (inner : Nested) [inner.Acting]

/-- The name of a field is there if an equals sign is behind it. -/
theorem field_spells : Spells (field inner) fun f => (Node.field f).Worded := by
  have hrest (start : Nat) (named : Bool) : Spells (do
      if (← kind) = .sign .openBracket then
        let _ ← take
        let key ← inner.expression
        let _ ← expect (.sign .closeBracket)
        let _ ← expect (.sign .equals)
        let value ← inner.expression
        return .keyed key value (← spanFrom start)
      else if named then
        let name ← name
        let _ ← take
        let value ← inner.expression
        return .named name value (← spanFrom start)
      else
        let value ← inner.expression
        return .positional value (← spanFrom start)) fun f => (Node.field f).Worded := by
    refine .behind fun k => ?_
    split
    · refine .behind fun _ => .behind fun key => .behind fun _ => .behind fun _ => ?_
      exact .behind fun value => .behind fun span => .pure (List.forall_mem_nil _)
    split
    · refine name_spells.bind fun n hn => .behind fun _ => .behind fun value => ?_
      exact .behind fun span => .pure (List.forall_mem_singleton.2 hn)
    · exact .behind fun value => .behind fun span => .pure (List.forall_mem_nil _)
  unfold field
  refine .behind fun start => .behind fun k => ?_
  split
  · exact .behind fun named => hrest start _
  · exact hrest start false

theorem table_spells : Spells (table inner) Expression.Worded := by
  unfold table
  refine .behind fun start => .behind fun _ => ?_
  refine Spells.bind (Q := fun fs => ∀ f ∈ fs, (Node.field f).Worded) ?_ fun fs hfs => ?_
  · refine Spells.loop (fun fs => ∀ f ∈ fs, (Node.field f).Worded) (by simp) fun fs hfs => ?_
    refine .behind fun k₁ => .behind fun k₂ => ?_
    split
    · exact .pure hfs
    · refine (field_spells inner).bind fun f hf => .behind fun k₁ => .behind fun k₂ => ?_
      have hmore : ∀ g ∈ fs ++ [f], (Node.field g).Worded :=
        List.forall_mem_append.2 ⟨hfs, List.forall_mem_singleton.2 hf⟩
      split
      · exact .behind fun _ => .pure hmore
      · exact .pure hmore
  · exact .behind fun _ => .behind fun span => .pure ⟨List.forall_mem_nil _, hfs⟩

theorem prefixHead_spells : Spells (prefixHead inner) fun e => e.1.Worded := by
  unfold prefixHead
  refine .behind fun start => .behind fun k => ?_
  split
  · refine name_spells.bind fun n hn => ?_
    exact .pure ⟨List.forall_mem_singleton.2 hn, List.forall_mem_nil _⟩
  · refine .behind fun _ => .behind fun e => .behind fun _ => .behind fun span => ?_
    exact .pure ⟨List.forall_mem_nil _, List.forall_mem_nil _⟩
  · -- What stands for a missing name is empty.
    refine .behind fun _ => .behind fun _ => .behind fun t => .pure ⟨?_, List.forall_mem_nil _⟩
    exact List.forall_mem_singleton.2 (by simp [Name.IsWord])

theorem suffix_spells (start : Nat) {e : Expression × Shape} (he : e.1.Worded) :
    Spells (suffix inner start e)
      (Sum.elim (fun (e : Expression × Shape) => e.1.Worded) fun e => e.1.Worded) := by
  have hcall {method : Option Name} (hmethod : ∀ n ∈ method.toList, n.IsWord) : Spells (do
      let arguments ← arguments inner
      return .inl (.call e.1 method arguments (← spanFrom start), .call))
      (Sum.elim (fun (e : Expression × Shape) => e.1.Worded)
        fun (e : Expression × Shape) => e.1.Worded) :=
    .behind fun _ => .behind fun span => .pure ⟨hmethod, List.forall_mem_nil _⟩
  unfold suffix
  refine .behind fun k => ?_
  split
  · refine .behind fun _ => name_spells.bind fun n hn => .behind fun span => ?_
    exact .pure ⟨List.forall_mem_singleton.2 hn, List.forall_mem_nil _⟩
  · refine .behind fun _ => .behind fun index => .behind fun _ => .behind fun span => ?_
    exact .pure ⟨List.forall_mem_nil _, List.forall_mem_nil _⟩
  · exact .behind fun _ => name_spells.bind fun n hn => hcall (List.forall_mem_singleton.2 hn)
  · exact hcall (List.forall_mem_nil _)
  · exact hcall (List.forall_mem_nil _)
  · exact hcall (List.forall_mem_nil _)
  · exact .pure he

theorem unary_spells : Spells (unary inner) Expression.Worded := by
  have hliteral : Spells literal Expression.Worded :=
    .behind fun t => .pure ⟨List.forall_mem_nil _, List.forall_mem_nil _⟩
  unfold unary primary
  refine .behind fun start => .behind fun k => ?_
  split
  · refine .behind fun _ => .behind fun operand => .behind fun span => ?_
    exact .pure ⟨List.forall_mem_nil _, List.forall_mem_nil _⟩
  refine .behind fun start => .behind fun k => ?_
  split
  iterate 6
    · exact hliteral
  · exact .behind fun _ => .behind fun span => .pure ⟨List.forall_mem_nil _, List.forall_mem_nil _⟩
  · refine .behind fun _ => .behind fun body => .behind fun span => ?_
    exact .pure ⟨List.forall_mem_nil _, List.forall_mem_nil _⟩
  · exact table_spells inner
  · refine Spells.bind (Q := fun e => e.1.Worded) ?_ fun e he => .pure he
    unfold prefixExpression
    refine .behind fun start => (prefixHead_spells inner).bind fun head hhead => ?_
    exact .loop (fun e => e.1.Worded) hhead fun e he => suffix_spells inner start he

theorem infixed_spells (parent start : Nat) {left : Expression} (hleft : left.Worded) :
    Spells (infixed inner parent start left) (Sum.elim Expression.Worded Expression.Worded) := by
  unfold infixed
  refine .behind fun k => ?_
  split
  · split
    · refine .behind fun _ => .behind fun right => .behind fun span => ?_
      exact .pure ⟨List.forall_mem_nil _, List.forall_mem_nil _⟩
    · exact .pure hleft
  · exact .pure hleft

end

/-- What holds before some turns holds after them, if it is kept by each. -/
theorem Turned.spells {step : σ → Read (σ ⊕ α)} [∀ a, Acting (step a)] {P : σ → Prop}
    {Q : α → Prop} (hstep : ∀ a, P a → Spells (step a) (Sum.elim P Q)) {a b : σ} {r r' : Reading}
    (h : Turned step a r b r') (ha : P a) (hr : r.Sound) : P b := by
  induction h with
  | refl => exact ha
  | tail hbefore hrun ih => exact hstep _ ih _ (hbefore.acts.sound hr) _ _ hrun

/-! ## Statements -/

theorem method_spells : Spells method fun x => ∀ n ∈ x.toList, n.IsWord := by
  unfold method
  refine .behind fun colon => ?_
  cases colon with
  | true =>
    refine .map fun r hr => (name_spells r hr).imp fun n _ hn => ?_
    exact List.forall_mem_singleton.2 hn
  | false => exact .pure (List.forall_mem_nil _)

theorem functionName_spells : Spells functionName fun f => (Node.functionName f).Worded := by
  unfold functionName
  refine .behind fun start => name_spells.separated.bind fun path hpath => ?_
  refine method_spells.bind fun method hmethod => .behind fun span => .pure ?_
  exact List.forall_mem_append.2 ⟨hpath, hmethod⟩

theorem attrib_spells : Spells attrib fun x => ∀ n ∈ x.toList, n.IsWord := by
  unfold attrib
  refine .behind fun less => ?_
  cases less with
  | true =>
    refine name_spells.bind fun n hn => .behind fun _ => .pure ?_
    exact List.forall_mem_singleton.2 hn
  | false => exact .pure (List.forall_mem_nil _)

theorem declaration_spells : Spells declaration fun d => (Node.declaration d).Worded := by
  unfold declaration
  refine .behind fun start => name_spells.bind fun n hn => attrib_spells.bind fun a ha => ?_
  exact .behind fun span => .pure (List.forall_mem_cons.2 ⟨hn, ha⟩)

section

variable (inner : Nested) [inner.Acting]

theorem localStatement_spells : Spells (localStatement inner) Statement.Worded := by
  unfold localStatement
  refine .behind fun start => .behind fun _ => .behind fun function => ?_
  cases function with
  | true => exact .behind fun n => .behind fun body => .behind fun span => .pure trivial
  | false =>
    refine declaration_spells.separated.bind fun ds hds => .behind fun values => ?_
    exact .behind fun span => .pure hds

theorem function_spells : Spells (function inner) Statement.Worded := by
  unfold function
  refine .behind fun start => .behind fun _ => functionName_spells.bind fun f hf => ?_
  exact .behind fun body => .behind fun span => .pure hf

theorem ifThen_spells : Spells (ifThen inner) Statement.Worded := by
  unfold ifThen
  refine .behind fun _ => .behind fun _ => .behind fun _ => .behind fun _ => .behind fun _ => ?_
  exact .behind fun _ => .behind fun _ => .behind fun _ => .behind fun _ => .pure trivial

theorem forLoop_spells : Spells (forLoop inner) Statement.Worded := by
  unfold forLoop
  refine .behind fun _ => .behind fun _ => .behind fun first => .behind fun equals => ?_
  cases equals with
  | true =>
    refine .behind fun _ => .behind fun _ => .behind fun _ => .behind fun _ => ?_
    exact .behind fun _ => .behind fun _ => .behind fun _ => .pure trivial
  | false =>
    refine .behind fun _ => .behind fun _ => .behind fun _ => .behind fun _ => ?_
    exact .behind fun _ => .behind fun _ => .pure trivial

theorem callOrAssign_spells : Spells (callOrAssign inner) Statement.Worded := by
  unfold callOrAssign
  refine .behind fun _ => .behind fun ⟨first, shape⟩ => ?_
  dsimp only
  split
  · exact .behind fun _ => .pure trivial
  · refine .behind fun _ => .behind fun _ => .behind fun _ => .behind fun _ => ?_
    exact .behind fun _ => .pure trivial

theorem statement_spells : Spells (statement inner) fun x => ∀ s ∈ x, s.Worded := by
  have hsome {m : Read Statement} [Acting m] (hm : Spells m Statement.Worded) :
      Spells (some <$> m) fun x => ∀ s ∈ x, s.Worded :=
    .map fun r hr => (hm r hr).imp fun s _ hs => by simpa using hs
  -- Most statements show no names but in their parts.
  have hplain {s : Statement} (hs : s.Worded) :
      Spells (pure (some s)) fun x => ∀ s ∈ x, s.Worded := .pure (by simpa using hs)
  unfold statement
  refine .behind fun _ => .behind fun k => ?_
  split
  next => exact hsome (ifThen_spells inner)
  next => exact hsome (forLoop_spells inner)
  next => exact hsome (function_spells inner)
  next => exact hsome (localStatement_spells inner)
  next => exact hsome (callOrAssign_spells inner)
  next => exact hsome (callOrAssign_spells inner)
  next =>
    refine .behind fun _ => .behind fun _ => .behind fun _ => .behind fun _ => ?_
    exact .behind fun _ => hplain trivial
  next =>
    refine .behind fun _ => .behind fun _ => .behind fun _ => .behind fun _ => ?_
    exact .behind fun _ => hplain trivial
  next => exact .behind fun _ => .behind fun _ => .behind fun _ => hplain trivial
  next =>
    exact .behind fun _ => .behind fun _ => .behind fun _ => .behind fun _ => hplain trivial
  next => exact .behind fun _ => .behind fun _ => .behind fun _ => hplain trivial
  next => exact .behind fun _ => .behind fun _ => hplain trivial
  next => exact .behind fun _ => .behind fun _ => .behind fun _ => .behind fun _ => .pure (by simp)

end

end Read

/-! ## Trees -/

theorem Expression.ReadAt.worded {depth : Nat} {e : Expression} {r r' : Reading}
    (h : e.ReadAt depth r r') (hr : r.Sound) : e.Worded := by
  cases h with
  | operand hleft hturned =>
    have hsound := (Read.Acting.acts hleft).sound hr
    refine hturned.spells (fun _ => Read.infixed_spells _ _ _) ?_ hsound
    exact Read.unary_spells _ _ hr _ _ hleft
  | prefixed hhead hturned =>
    have hsound := (Read.Acting.acts hhead).sound hr
    refine Read.Turned.spells (P := fun e => e.1.Worded) (fun _ => Read.suffix_spells _ _)
      hturned ?_ hsound
    exact Read.prefixHead_spells _ _ hr _ _ hhead

namespace Node

theorem field_mem_children {n : Node} {f : Field} (h : .field f ∈ n.children) :
    ∃ e, n = .expression e ∧ f ∈ e.fields := by
  cases n with
  | statement s => cases s <;> simp_all [children, Statement.parts]
  | expression e => cases e <;> simp_all [children, Expression.parts, Expression.fields]
  | field f => cases f <;> simp_all [children, Field.parts]
  | _ => simp_all [children, Block.parts]

theorem functionName_mem_children {n : Node} {f : FunctionName}
    (h : .functionName f ∈ n.children) : ∃ body span, n = .statement (.function f body span) := by
  cases n with
  | statement s => cases s <;> simp_all [children, Statement.parts]
  | expression e => cases e <;> simp_all [children, Expression.parts]
  | field f => cases f <;> simp_all [children, Field.parts]
  | _ => simp_all [children, Block.parts]

theorem declaration_mem_children {n : Node} {d : LocalDeclaration}
    (h : .declaration d ∈ n.children) :
    ∃ ds values span, n = .statement (.declare ds values span) ∧ d ∈ ds := by
  cases n with
  | statement s => cases s <;> simp_all [children, Statement.parts]
  | expression e => cases e <;> simp_all [children, Expression.parts]
  | field f => cases f <;> simp_all [children, Field.parts]
  | _ => simp_all [children, Block.parts]

variable {first last : Reading} {c n : Node}

/-- What an expression or a statement was read as also says which names the fields, the
declarations and the name of a function right below it show. -/
theorem Origin.worded_child (hn : n.Origin first last) (hfirst : first.Sound)
    (hmem : c ∈ n.children) (hc : c.Origin first last) : c.Worded := by
  cases c with
  | expression e =>
    obtain ⟨depth, r, r', hr, -, -, hread⟩ := hc
    exact (hread.worded (hr.sound hfirst)).1
  | name x => exact List.forall_mem_singleton.2 hc
  | field f =>
    obtain ⟨e, rfl, hf⟩ := field_mem_children hmem
    obtain ⟨depth, r, r', hr, -, -, hread⟩ := hn
    exact (hread.worded (hr.sound hfirst)).2 f hf
  | functionName f =>
    obtain ⟨body, span, rfl⟩ := functionName_mem_children hmem
    obtain ⟨depth, r, r', hr, -, -, hrun⟩ := hn
    exact Read.statement_spells _ r (hr.sound hfirst) _ _ hrun _ rfl
  | declaration d =>
    obtain ⟨ds, values, span, rfl, hd⟩ := declaration_mem_children hmem
    obtain ⟨depth, r, r', hr, -, -, hrun⟩ := hn
    exact Read.statement_spells _ r (hr.sound hfirst) _ _ hrun _ rfl d hd
  | _ => exact List.forall_mem_nil _

theorem Everywhere.worded (h : n.Everywhere (Sourced first last)) (hfirst : first.Sound)
    (hn : n.Worded) : n.Everywhere Worded := by
  intro m hm
  induction hm with
  | refl => exact hn
  | child hmem hm ih =>
    obtain ⟨hsourced, hchildren⟩ := everywhere_iff.1 h
    have hc := hchildren _ hmem
    exact ih hc (hsourced.origin.worded_child hfirst hmem (hc _ .refl).origin)

end Node

/-- The names that a tree shows are words, whatever the text was. -/
theorem Tree.parse_worded (source : Text.Source) :
    (Node.chunk (parse source).root).Everywhere Node.Worded := by
  obtain ⟨last, hspreads, -⟩ := parse_lays source
  have hsound := Reading.sound_ofSource source
  refine Node.everywhere_iff.2 ⟨List.forall_mem_nil _, List.forall_mem_singleton.2 ?_⟩
  refine Node.everywhere_iff.2 ⟨List.forall_mem_nil _, fun n hn => ?_⟩
  have hn' := hspreads.nodes n hn
  have horigin : (Node.block (parse source).root.block).Origin (.ofSource source) last := trivial
  exact hn'.worded hsound (horigin.worded_child hsound hn (hn' n .refl).origin)

end Syntax
end LuaFront
