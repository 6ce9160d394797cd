import LuaFront.Proofs.Resolved.Scoping
import LuaFront.Proofs.Resolved.Violations
import LuaFront.Proofs.Syntax.Nesting

/-!
# LuaFront.Proofs.Resolved.Reports

Resolving the names of a program reports every violation of a rule once, in order, and nothing else.

* `Context.Amid c s`: what the open scopes show is what the surroundings `s` say.
* `Finds c m us Q`: from the context `c` on, `m` reports what is wrong with the uses `us`, and `Q`
  holds of its result.
* `Program.diagnostics_ofTree_parse`: the reports of every text, and the number of errors in its program.
-/

namespace LuaFront
namespace Resolved

/-! ## Surroundings of a context -/

def Local.variable (l : Local) : Variable := ⟨l.name, l.isConstant⟩

/-- The names and offsets of the labels. -/
def Frame.places (f : Frame) : List (String × Nat) := f.labels.map fun l => (l.label.name, l.start)

def Surroundings.places (s : Surroundings) : List (List (String × Nat)) :=
  s.blocks.map fun labels => labels.map fun n => (n.text, n.span.start)

theorem Scopes.places_upToBoundary (f : Frame) (outer : List Frame) :
    (upToBoundary (f :: outer)).map Frame.places =
      f.places :: if f.boundary then [] else (upToBoundary outer).map Frame.places := by
  rw [upToBoundary]
  split <;> rfl

namespace Context

structure Amid (c : Context) (s : Surroundings) : Prop where
  opened : c.scopes.frames ≠ []
  visible : (c.scopes.frames.flatMap Frame.symbols).map Local.variable = s.visible
  places : c.scopes.labelFrames.map Frame.places = s.places
  looped : c.exits.isEmpty = !s.looped
  vararg : c.vararg = s.vararg

variable {c c' : Context} {s : Surroundings}

theorem Steady.amid (hs : c.Steady c') (h : c.Amid s) : c'.Amid s where
  opened := hs.scopes ▸ h.opened
  visible := hs.scopes ▸ h.visible
  places := hs.scopes ▸ h.places
  looped := hs.exits ▸ h.looped
  vararg := hs.vararg ▸ h.vararg

namespace Amid

theorem variableAt? (h : c.Amid s) (name : String) :
    s.variableAt? name = (c.scopes.lookupVariable? name).map Local.variable := by
  rw [Surroundings.variableAt?, ← h.visible, List.find?_map, ← c.symbol?_env]
  rfl

theorem hasLabel (h : c.Amid s) (name : String) :
    s.hasLabel name = (c.scopes.lookupLabel? name).isSome := by
  have hany : s.hasLabel name = s.places.any (·.any (·.1 == name)) := by
    simp [Surroundings.hasLabel, Surroundings.places, List.any_map, Function.comp_def]
  rw [hany, ← h.places, Scopes.lookupLabel?, List.any_map, List.isSome_findSome?]
  congr 1
  funext f
  rw [Function.comp, Frame.places, List.any_map, Frame.label?, Option.isSome_map, List.isSome_find?]
  congr 1

theorem hasLabelBefore (h : c.Amid s) (name : String) (offset : Nat) :
    s.hasLabelBefore name offset = c.scopes.labelClashes name offset := by
  have hany : s.hasLabelBefore name offset =
      s.places.any (·.any fun p => p.2 < offset && p.1 == name) := by
    simp [Surroundings.hasLabelBefore, Surroundings.places, List.any_map, Function.comp_def]
  rw [hany, ← h.places]
  simp [Scopes.labelClashes, Frame.places, List.any_map, Function.comp_def]

theorem declares (h : c.Amid s) (symbols : List Local) :
    (c.declares symbols).Amid (s.declares (symbols.map Local.variable)) := by
  have henv := env_declares h.opened symbols
  cases hf : c.scopes.frames with
  | nil => exact absurd hf h.opened
  | cons f outer =>
    refine ⟨by simp [Context.declares, Scopes.modifyInnermost, hf], ?_, ?_, h.looped, h.vararg⟩
    · have hlocals : ((c.declares symbols).env.locals).map Local.variable = _ :=
        congrArg (fun e => e.locals.map Local.variable) henv
      rw [show ((c.declares symbols).scopes.frames.flatMap Frame.symbols) =
        (c.declares symbols).env.locals from rfl, hlocals]
      simp [Lexical.Env.declares, Surroundings.declares, ← h.visible, env]
    · have hplaces := h.places
      rw [Scopes.labelFrames, hf, Scopes.places_upToBoundary] at hplaces
      simp only [Context.declares, Scopes.modifyInnermost, hf, Scopes.labelFrames]
      exact (Scopes.places_upToBoundary _ outer).trans hplaces

end Amid
end Context

/-! ## Reporting -/

@[simp] theorem violations_nil : violations [] = [] := rfl

@[simp] theorem violations_append (us vs : List (Surroundings × Use)) :
    violations (us ++ vs) = violations us ++ violations vs :=
  List.filterMap_append

/-- The number of errors that stand in the place of what is wrong with some uses. -/
def marks (uses : List (Surroundings × Use)) : Nat :=
  (violations uses).countP fun d => leavesError d.cause

@[simp] theorem marks_nil : marks [] = 0 := rfl

@[simp] theorem marks_append (us vs : List (Surroundings × Use)) :
    marks (us ++ vs) = marks us + marks vs := by
  rw [marks, violations_append, List.countP_append]
  rfl

/-- Something that leaves no error, however wrong it is. -/
theorem marks_cons {s : Surroundings} {u : Use}
    (h : ∀ d ∈ u.violation? s, leavesError d.cause = false) (us : List (Surroundings × Use)) :
    marks ((s, u) :: us) = marks us := by
  unfold marks violations
  rw [List.filterMap_cons]
  cases hu : u.violation? s with
  | none => rfl
  | some d => simp [h d hu]

section Finds

variable {α β : Type} {c : Context} {m : Resolve α} {us vs : List (Surroundings × Use)}

def Finds (c : Context) (m : Resolve α) (us : List (Surroundings × Use))
    (Q : α → Context → Prop) : Prop :=
  (m.run c).2.journal.diagnostics = c.journal.diagnostics ++ violations us ∧
    Q (m.run c).1 (m.run c).2

namespace Finds

variable {Q Q' : α → Context → Prop} {Q₂ : β → Context → Prop}

theorem imp (h : Finds c m us Q) (himp : ∀ a c', Q a c' → Q' a c') : Finds c m us Q' :=
  ⟨h.1, himp _ _ h.2⟩

theorem pure {a : α} (h : Q a c) : Finds c (pure a) [] Q := ⟨(List.append_nil _).symm, h⟩

theorem get {k : Context → Resolve α} (h : Finds c (k c) us Q) : Finds c (get >>= k) us Q := h

theorem bind {k : α → Resolve β} (h : Finds c m us Q)
    (hnext : ∀ a c', Q a c' → Finds c' (k a) vs Q₂) : Finds c (m >>= k) (us ++ vs) Q₂ := by
  obtain ⟨hfound, hq⟩ := hnext _ _ h.2
  refine ⟨?_, hq⟩
  rw [h.1, List.append_assoc, ← violations_append] at hfound
  exact hfound

/-- A last step that reports nothing. -/
theorem last {f : α → β} (h : Finds c m us Q) (hq : ∀ a c', Q a c' → Q₂ (f a) c') :
    Finds c (m >>= fun a => Pure.pure (f a)) us Q₂ :=
  ⟨h.1, hq _ _ h.2⟩

/-- A first step that reports nothing. -/
theorem first {k : α → Resolve β} (h : Finds c m [] Q)
    (hnext : ∀ a c', Q a c' → Finds c' (k a) us Q₂) : Finds c (m >>= k) us Q₂ :=
  h.bind hnext

theorem report {k : Unit → Resolve α} {at_ : Text.Span} {cause : Cause} {s : Surroundings} {u : Use}
    (hu : u.violation? s = some ⟨at_, cause⟩) (hnext : ∀ c', c.Steady c' → Finds c' (k ()) us Q) :
    Finds c (Resolve.report at_ cause >>= k) ((s, u) :: us) Q := by
  have h := hnext { c with journal := c.journal.report ⟨at_, cause⟩ } ⟨rfl, rfl, rfl, rfl, rfl⟩
  refine ⟨?_, h.2⟩
  have hcons : violations ((s, u) :: us) = ⟨at_, cause⟩ :: violations us := by
    simp [violations, hu]
  rw [hcons, List.append_cons, ← Journal.diagnostics_report]
  exact h.1

/-- A use with which nothing is wrong. -/
theorem skip {s : Surroundings} {u : Use} (hu : u.violation? s = none) (h : Finds c m us Q) :
    Finds c m ((s, u) :: us) Q := by
  have hcons : violations ((s, u) :: us) = violations us := by simp [violations, hu]
  exact ⟨hcons ▸ h.1, h.2⟩

/-- A report under the condition that something is wrong. -/
theorem check {p : Prop} [Decidable p] {at_ : Text.Span} {cause : Cause} {s : Surroundings}
    {u : Use} (hu : u.violation? s = if p then some ⟨at_, cause⟩ else none)
    (hnext : ∀ c', c.Steady c' → Finds c' m us Q) :
    Finds c (if p then Resolve.report at_ cause >>= fun _ => m else m) ((s, u) :: us) Q := by
  split
  · rename_i hp
    exact report (by rw [hu, if_pos hp]) hnext
  · rename_i hp
    exact skip (by rw [hu, if_neg hp]) (hnext c (.refl c))

theorem inScope {body : Resolve α} {boundary : Bool} {P : α → Prop}
    (h : Finds (c.opened boundary) body us fun a c' => P a ∧ (c.opened boundary).Inside c') :
    Finds c (Resolve.inScope boundary body) us fun a c' => P a ∧ c.Steady c' := by
  obtain ⟨hfound, hp, hinside⟩ := h
  refine ⟨hfound, hp, hinside.unit, ?_, hinside.exits, hinside.vararg, hinside.environment⟩
  exact congrArg Scopes.mk hinside.outer

theorem inLoop {body : Label → Resolve α} {P : α → Prop}
    (h : ∀ exit c', Context.Steady { c with exits := exit :: c.exits } c' →
      Finds c' (body exit) us fun a c'' => P a ∧ c'.Steady c'') :
    Finds c (Resolve.inLoop body) us fun a c' => P a ∧ c.Steady c' := by
  obtain ⟨hfound, hp, hsteady⟩ := h ⟨.declared c.unit c.next, s!"break#{c.loops + 1}"⟩
    { c with
      next := c.next + 1
      loops := c.loops + 1
      exits := ⟨.declared c.unit c.next, s!"break#{c.loops + 1}"⟩ :: c.exits }
    ⟨rfl, rfl, rfl, rfl, rfl⟩
  refine ⟨hfound, hp, hsteady.unit, hsteady.scopes, ?_, hsteady.vararg, hsteady.environment⟩
  exact congrArg List.tail hsteady.exits

theorem inFunction {body : Resolve α} {vararg : Bool} {P : α → Prop}
    (h : Finds (c.entered vararg) body us fun a c' => P a ∧ (c.entered vararg).Inside c') :
    Finds c (Resolve.inFunction vararg body) us fun a c' => P a ∧ c.Steady c' := by
  obtain ⟨hfound, hp, hinside⟩ := h
  refine ⟨hfound, hp, hinside.unit, ?_, rfl, rfl, hinside.environment⟩
  exact congrArg Scopes.mk hinside.outer

end Finds

/-- What is wrong with some uses is reported, and an error stands for each thing that leaves one. -/
def Settles (c : Context) (m : Resolve α) (us : List (Surroundings × Use)) (errors : α → Nat) :
    Prop :=
  Finds c m us fun a c' => errors a = marks us ∧ c.Steady c'

namespace Settles

variable {errors : α → Nat} {a : α} {s : Surroundings} {u : Use}

theorem pure (h : errors a = 0) : Settles c (pure a) [] errors := Finds.pure ⟨h, .refl c⟩

theorem fine (hu : u.violation? s = none) (h : errors a = 0) :
    Settles c (Pure.pure a) [(s, u)] errors := by
  refine Finds.skip hu (Finds.pure ⟨?_, .refl c⟩)
  rw [marks_cons (by simp [hu])]
  exact h

theorem wrong {at_ : Text.Span} {cause : Cause} (hu : u.violation? s = some ⟨at_, cause⟩)
    (h : errors a = if leavesError cause then 1 else 0) :
    Settles c (Resolve.report at_ cause >>= fun _ => Pure.pure a) [(s, u)] errors := by
  refine Finds.report hu fun c' hsteady => Finds.pure ⟨?_, hsteady⟩
  rw [h]
  simp [marks, violations, hu, List.countP_cons]

end Settles
end Finds

/-! ## Names and jumps -/

section Uses

variable {c : Context} {s : Surroundings}

theorem fresh_finds (c : Context) : Finds c Resolve.fresh [] fun _ c' => c.Steady c' :=
  ⟨(List.append_nil _).symm, rfl, rfl, rfl, rfl, rfl⟩

theorem name_settles (c : Context) (n : Syntax.Name) :
    Settles c (Resolve.name n) [] Errors.expression := by
  unfold Resolve.name
  refine Finds.get ?_
  cases c.scopes.lookupVariable? n.text with
  | some symbol => exact Settles.pure (by simp [Errors.expression])
  | none => exact Settles.pure (by simp [Errors.expression, Expression.string])

/-- Assigning to a constant leaves no error in its place. -/
theorem targetName_settles (h : c.Amid s) (n : Syntax.Name) :
    Settles c (Resolve.targetName n) [(s, .assigned n)] Errors.expression := by
  have hvariable := h.variableAt? n.text
  unfold Resolve.targetName Resolve.name
  rw [bind_assoc]
  refine Finds.get ?_
  cases hfound : c.scopes.lookupVariable? n.text with
  | some symbol =>
    rw [hfound] at hvariable
    simp only [pure_bind]
    split
    · exact Settles.wrong (by simp_all [Use.violation?, Local.variable])
        (by simp [Errors.expression, leavesError])
    · exact Settles.fine (by simp_all [Use.violation?, Local.variable])
        (by simp [Errors.expression])
  | none =>
    rw [hfound] at hvariable
    exact Settles.fine (by simp_all [Use.violation?])
      (by simp [Errors.expression, Expression.string])

theorem breakLoop_settles (h : c.Amid s) (at_ : Text.Span) :
    Settles c (Resolve.breakLoop at_) [(s, .breakLoop at_)] Errors.statement := by
  have hlooped := h.looped
  unfold Resolve.breakLoop
  refine Finds.get ?_
  cases hexits : c.exits with
  | nil =>
    exact Settles.wrong (by simp_all [Use.violation?])
      (by simp [Errors.statement, Errors.expression, leavesError])
  | cons exit outer =>
    exact Settles.fine (by simp_all [Use.violation?]) (by simp [Errors.statement])

theorem goto_settles (h : c.Amid s) (n : Syntax.Name) :
    Settles c (Resolve.goto n) [(s, .goto n)] Errors.statement := by
  have hlabel := h.hasLabel n.text
  unfold Resolve.goto
  refine Finds.get ?_
  cases hfound : c.scopes.lookupLabel? n.text with
  | none =>
    exact Settles.wrong (by simp_all [Use.violation?])
      (by simp [Errors.statement, Errors.expression, leavesError])
  | some label => exact Settles.fine (by simp_all [Use.violation?]) (by simp [Errors.statement])

theorem label_settles (c : Context) (n : Syntax.Name) :
    Settles c (Resolve.label n) [] Errors.statement := by
  unfold Resolve.label
  refine Finds.get ?_
  cases c.scopes.localLabel? n.span.start with
  | some label => exact Settles.pure (by simp [Errors.statement])
  | none =>
    refine (fresh_finds c).last ?_
    rintro id c' hsteady
    exact ⟨by simp [Errors.statement], hsteady⟩

theorem vararg_settles (h : c.Amid s) (at_ : Text.Span) :
    Settles c (Resolve.expression (.vararg at_)) [(s, .vararg at_)] Errors.expression := by
  have hvararg := h.vararg
  rw [Resolve.expression]
  refine Finds.get ?_
  split
  · exact Settles.fine (by simp_all [Use.violation?]) (by simp [Errors.expression])
  · exact Settles.wrong (by simp_all [Use.violation?]) (by simp [Errors.expression, leavesError])

/-- Keys behind a name are no errors. -/
theorem errors_foldl_index (keys : List Syntax.Name) (e : Expression) :
    Errors.expression (keys.foldl (fun e key => .index e (.string key.text)) e) =
      Errors.expression e := by
  induction keys generalizing e with
  | nil => rfl
  | cons key later ih =>
    rw [List.foldl_cons, ih]
    simp [Errors.expression, Expression.string]

theorem functionTarget?_finds (h : c.Amid s) {f : Syntax.FunctionName} (hf : f.path ≠ []) :
    Finds c (Resolve.functionTarget? f) (Uses.functionName s f) fun a c' =>
      (∃ target, a = some target ∧ Errors.expression target = marks (Uses.functionName s f)) ∧
        c.Steady c' := by
  obtain ⟨path, method, span⟩ := f
  have hfield (n : Syntax.Name) (keys : List Syntax.Name) :
      Finds c (do
          let first ← Resolve.name n
          return some (keys.foldl (fun e key => Expression.index e (.string key.text)) first)) []
        fun a c' => (∃ target, a = some target ∧ Errors.expression target = marks []) ∧
          c.Steady c' := by
    refine (name_settles c n).last ?_
    rintro e c' ⟨he, hsteady⟩
    exact ⟨⟨_, rfl, (errors_foldl_index keys e).trans he⟩, hsteady⟩
  cases path with
  | nil => exact absurd rfl hf
  | cons n keys =>
    cases keys with
    | cons key keys => exact hfield n (key :: keys ++ method.toList)
    | nil =>
      cases method with
      | some m => exact hfield n [m]
      | none =>
        refine (targetName_settles h n).last ?_
        rintro e c' ⟨he, hsteady⟩
        exact ⟨⟨e, rfl, he⟩, hsteady⟩

end Uses

/-! ## Declarations -/

section Declarations

variable {c : Context} {s : Surroundings}

theorem declare_finds (c : Context) (name : String) :
    Finds c (Resolve.declare name) [] fun a c' =>
      a.variable = ⟨name, false⟩ ∧ (c.declares [a]).Steady c' :=
  ⟨(List.append_nil _).symm, rfl, rfl, rfl, rfl, rfl, rfl⟩

theorem declareVariables_finds (c : Context) (symbols : List Local) :
    Finds c (symbols.forM Resolve.declareVariable) [] fun _ c' => c.declares symbols = c' := by
  rw [Finds, declareVariables_run]
  exact ⟨(List.append_nil _).symm, rfl⟩

theorem declareAll_finds (c : Context) (names : List Syntax.Name) :
    Finds c (Resolve.declareAll names) [] fun a c' =>
      a.map Local.variable = names.map (fun n => ⟨n.text, false⟩) ∧ (c.declares a).Steady c' := by
  induction names generalizing c with
  | nil => exact Finds.pure ⟨rfl, c.declares_nil.symm ▸ .refl c⟩
  | cons n later ih =>
    refine (declare_finds c n.text).first ?_
    rintro a c₁ ⟨ha, h₁⟩
    refine (ih c₁).last ?_
    rintro symbols c₂ ⟨hsymbols, h₂⟩
    have h := (h₁.declares symbols).trans h₂
    rw [Context.declares_append] at h
    exact ⟨by rw [List.map_cons, ha, hsymbols, List.map_cons], h⟩

/-- Nothing that is wrong with a declaration leaves an error. -/
theorem marks_declared (s : Surroundings) (earlier ds : List Syntax.LocalDeclaration) :
    marks (Uses.declared s earlier ds) = 0 := by
  induction ds generalizing earlier with
  | nil => rfl
  | cons d later ih =>
    rw [Uses.declared, List.cons_append,
      marks_cons (by simp only [Use.violation?]; split <;> simp [leavesError]), marks_append, ih]
    cases d.attrib with
    | none => rfl
    | some a => exact marks_cons (by simp only [Use.violation?]; split <;> simp [leavesError]) []

theorem declaredSymbols_finds (c : Context) (s : Surroundings)
    (earlier ds : List Syntax.LocalDeclaration) :
    Finds c (Resolve.declaredSymbols (earlier.any isClosed) ds) (Uses.declared s earlier ds)
      fun a c' => a.map Local.variable = ds.map (fun d => ⟨d.name.text, isConstant d⟩) ∧
        c.Steady c' := by
  induction ds generalizing c earlier with
  | nil => exact Finds.pure ⟨rfl, .refl c⟩
  | cons d later ih =>
    have hrest (c₁ : Context) (h₁ : c.Steady c₁) :
        Finds c₁ (do
            let id ← Resolve.fresh
            let symbols ← Resolve.declaredSymbols (earlier.any isClosed || isClosed d) later
            return ⟨id, d.name.text, hasAttribute d "const", isClosed d⟩ :: symbols)
          (Uses.declared s (earlier ++ [d]) later) fun a c' =>
            a.map Local.variable = (d :: later).map (fun d => ⟨d.name.text, isConstant d⟩) ∧
              c.Steady c' := by
      refine (fresh_finds c₁).first fun id c₂ h₂ => ?_
      have hlater := ih c₂ (earlier ++ [d])
      rw [List.any_append, List.any_cons, List.any_nil, Bool.or_false] at hlater
      refine hlater.last ?_
      rintro symbols c₃ ⟨hsymbols, h₃⟩
      exact ⟨by rw [List.map_cons, hsymbols, List.map_cons]; rfl, (h₁.trans h₂).trans h₃⟩
    rw [Uses.declared, List.cons_append]
    simp only [Resolve.declaredSymbols]
    refine Finds.check (by simp [Use.violation?, isClosed, hasAttribute]) fun c₁ h₁ => ?_
    cases hattrib : d.attrib with
    | none => simpa [isClosed, hasAttribute, hattrib] using hrest c₁ h₁
    | some a =>
      refine Finds.check (by simp [Use.violation?]) fun c₂ h₂ => ?_
      simpa [isClosed, hasAttribute, hattrib] using hrest c₂ (h₁.trans h₂)

/-- A label has no other one before it among those behind it. -/
theorem hasLabelBefore_append {done later : List Syntax.Name} {n : Syntax.Name}
    (h : (done ++ n :: later).Pairwise (·.span.start < ·.span.start)) :
    (s.inBlock (done ++ n :: later)).hasLabelBefore n.text n.span.start =
      (s.inBlock done).hasLabelBefore n.text n.span.start := by
  have hnone : (n :: later).any (fun m => m.span.start < n.span.start && m.text == n.text) =
      false := by
    have hbehind := (List.pairwise_cons.1 (List.pairwise_append.1 h).2.1).1
    rw [List.any_eq_false]
    intro m hm
    rcases List.mem_cons.1 hm with rfl | hm
    · simp
    · have := hbehind m hm
      simp
      omega
  rw [Surroundings.hasLabelBefore, Surroundings.inBlock, List.any_cons, List.any_append, hnone,
    Bool.or_false]
  rfl

theorem declareLabel_finds {done : List Syntax.Name} (h : c.Amid (s.inBlock done))
    (n : Syntax.Name) (label : Label) (hlabel : label.name = n.text) :
    Finds c (Resolve.modifyScopes (·.declareLabel label n.span.start)) [] fun _ c' =>
      c'.Amid (s.inBlock (done ++ [n])) ∧ c.Inside c' := by
  obtain ⟨hopened, hvisible, hplaces, hlooped, hvararg⟩ := h
  obtain ⟨unit, next, ⟨frames⟩, journal, exits, loops, vararg, environment⟩ := c
  cases frames with
  | nil => exact absurd rfl hopened
  | cons f outer =>
    refine ⟨(List.append_nil _).symm, ⟨List.cons_ne_nil _ _, hvisible, ?_, hlooped, hvararg⟩,
      rfl, rfl, rfl, rfl, rfl⟩
    have hcons := (Scopes.places_upToBoundary f outer).symm.trans hplaces
    have hplace : Frame.places { f with labels := f.labels ++ [⟨label, n.span.start⟩] } =
        f.places ++ [(n.text, n.span.start)] := by
      simp [Frame.places, hlabel]
    refine (Scopes.places_upToBoundary { f with labels := f.labels ++ [⟨label, n.span.start⟩] }
      outer).trans ?_
    simp only [Surroundings.places, Surroundings.inBlock, List.map_cons, List.cons.injEq] at hcons ⊢
    rw [hplace, hcons.1, List.map_append]
    exact ⟨rfl, hcons.2⟩

theorem declareLabels_finds (ss : List Syntax.Statement) {done : List Syntax.Name}
    (h : c.Amid (s.inBlock done))
    (hincreasing : (done ++ Syntax.labelNames ss).Pairwise (·.span.start < ·.span.start)) :
    Finds c (Resolve.declareLabels ss)
      ((Syntax.labelNames ss).map fun n => (s.inBlock (done ++ Syntax.labelNames ss), .label n))
      fun _ c' => c'.Amid (s.inBlock (done ++ Syntax.labelNames ss)) ∧ c.Inside c' := by
  induction ss generalizing c done with
  | nil =>
    rw [Syntax.labelNames, List.append_nil]
    exact Finds.pure ⟨h, (Context.Steady.refl c).inside⟩
  | cons st later ih =>
    cases st with
    | label n span =>
      simp only [Resolve.declareLabels, Syntax.labelNames, List.map_cons] at hincreasing ⊢
      refine Finds.get (Finds.check ?_ fun c₁ h₁ => ?_)
      · rw [Use.violation?, hasLabelBefore_append hincreasing, h.hasLabelBefore]
      · refine (fresh_finds c₁).first fun id c₂ h₂ => ?_
        refine (declareLabel_finds ((h₁.trans h₂).amid h) n ⟨id, n.text⟩ rfl).first ?_
        rintro _ c₃ ⟨hamid, h₃⟩
        rw [List.append_cons] at hincreasing ⊢
        refine (ih hamid hincreasing).imp ?_
        rintro _ c₄ ⟨hend, h₄⟩
        exact ⟨hend, (h₁.trans h₂).inside.trans (h₃.trans h₄)⟩
    | _ => exact ih h hincreasing

end Declarations

/-! ## Opening scopes -/

namespace Context.Amid

variable {c c' : Context} {s : Surroundings}

theorem inScope (h : c.Amid s) : (c.opened false).Amid (s.inBlock []) where
  opened := List.cons_ne_nil _ _
  visible := h.visible
  places := congrArg ([] :: ·) h.places
  looped := h.looped
  vararg := h.vararg

theorem inFunction (h : c.Amid s) (vararg : Bool) :
    (c.entered vararg).Amid ((s.inFunction vararg).inBlock []) where
  opened := List.cons_ne_nil _ _
  visible := h.visible
  places := rfl
  looped := rfl
  vararg := rfl

theorem inLoop (h : c.Amid s) {exit : Label}
    (hs : Steady { c with exits := exit :: c.exits } c') : c'.Amid s.inLoop :=
  hs.amid ⟨h.opened, h.visible, h.places, rfl, h.vararg⟩

end Context.Amid

/-- A block is settled in a scope that was opened for it. -/
def BlockSettles (b : Syntax.Block) : Prop :=
  ∀ (s : Surroundings) (c : Context), c.Amid (s.inBlock []) →
    Finds c (Resolve.statements b) (Uses.block s b) fun a c' =>
      Errors.block a = marks (Uses.block s b) ∧ c'.Amid (s.atEnd b) ∧ c.Inside c'

theorem BlockSettles.inScope {b : Syntax.Block} (h : BlockSettles b) {c : Context}
    {s : Surroundings} (hc : c.Amid s) :
    Settles c (Resolve.inScope false (Resolve.statements b)) (Uses.block s b) Errors.block :=
  Finds.inScope ((h s _ hc.inScope).imp fun _ _ hb => ⟨hb.1, hb.2.2⟩)

/-- A block with variables of its own in front. -/
theorem BlockSettles.declaring {b : Syntax.Block} (h : BlockSettles b) {c c₁ : Context}
    {s : Surroundings} (hc : c.Amid (s.inBlock [])) {symbols : List Local} {names : List String}
    (hsymbols : symbols.map Local.variable = names.map (⟨·, false⟩))
    (hs : (c.declares symbols).Steady c₁) :
    Finds c₁ (Resolve.statements b) (Uses.block (s.declaresAll names) b) fun a c' =>
      Errors.block a = marks (Uses.block (s.declaresAll names) b) ∧ c.Inside c' := by
  have hamid : c₁.Amid ((s.declaresAll names).inBlock []) := by
    have := hs.amid (hc.declares symbols)
    rw [hsymbols] at this
    exact this
  refine (h _ _ hamid).imp ?_
  rintro a c' ⟨ha, _, h'⟩
  exact ⟨ha, ((c.inside_declares symbols).trans hs.inside).trans h'⟩

theorem errors_append (a b : Block) :
    Errors.block (a ++ b) = Errors.block a + Errors.block b := by
  induction a with
  | nil => simp [Errors.block]
  | cons s later ih => rw [List.cons_append, Errors.block, ih, Errors.block, Nat.add_assoc]

/-- Repeated labels leave no errors. -/
theorem marks_labels (s : Surroundings) (labels : List Syntax.Name) :
    marks (labels.map fun n => (s, .label n)) = 0 := by
  induction labels with
  | nil => rfl
  | cons n later ih =>
    rw [List.map_cons, marks_cons (by simp only [Use.violation?]; split <;> simp [leavesError])]
    exact ih

/-- A statement behind which the same is visible as before it. -/
theorem Settles.statement {c : Context} {s : Surroundings} {m : Resolve Statement}
    {us : List (Surroundings × Use)} (hm : Settles c m us Errors.statement) (h : c.Amid s) :
    Finds c m us fun a c' => Errors.statement a = marks us ∧ c'.Amid s ∧ c.Inside c' :=
  hm.imp fun _ _ ha => ⟨ha.1, ha.2.amid h, ha.2.inside⟩

/-! ## Programs -/

open Syntax (Node)

/-- Blocks are labelled well, and functions that are declared have a name. -/
def Sturdy (n : Node) : Prop :=
  n.Everywhere fun m => m.Labelled ∧ ∀ f, m = .functionName f → f.path ≠ []

theorem Sturdy.child {n m : Node} (h : Sturdy n) (hm : m ∈ n.children) : Sturdy m :=
  (Node.everywhere_iff.1 h).2 m hm

/-- A block in a branch that is taken otherwise is a block like any other. -/
theorem Sturdy.otherwise {b : Syntax.Block} (h : Sturdy (.otherwise b)) : Sturdy (.block b) :=
  Node.everywhere_iff.2 ⟨⟨(h _ .refl).1, by simp⟩, fun _ hm => h.child hm⟩

mutual

theorem expression_settles (e : Syntax.Expression) (ht : Sturdy (.expression e)) {c : Context}
    {s : Surroundings} (h : c.Amid s) :
    Settles c (Resolve.expression e) (Uses.expression s e) Errors.expression := by
  replace ht : ∀ m ∈ e.parts, Sturdy m := fun m hm => ht.child hm
  cases e with
  | literal value span =>
    rw [Resolve.expression, Uses.expression]
    exact .pure (by simp [Errors.expression])
  | vararg span =>
    rw [Uses.expression]
    exact vararg_settles h span
  | function body span =>
    rw [Resolve.expression, Uses.expression]
    exact functionBody_settles false body (ht _ (by simp [Syntax.Expression.parts])) h
  | table fields span =>
    rw [Resolve.expression, Uses.expression]
    refine (tableFields_settles 0 fields
      (fun f hf => ht _ (by simp [Syntax.Expression.parts, hf])) h).last ?_
    rintro fields c₁ ⟨hfields, h₁⟩
    exact ⟨by simp [Errors.expression, hfields], h₁⟩
  | unary op operand span =>
    rw [Resolve.expression, Uses.expression]
    refine (expression_settles operand (ht _ (by simp [Syntax.Expression.parts])) h).last ?_
    rintro operand c₁ ⟨hoperand, h₁⟩
    exact ⟨by simp [Errors.expression, hoperand], h₁⟩
  | binary left op right span =>
    rw [Resolve.expression, Uses.expression]
    refine (expression_settles left (ht _ (by simp [Syntax.Expression.parts])) h).bind ?_
    rintro left c₁ ⟨hleft, h₁⟩
    refine (expression_settles right (ht _ (by simp [Syntax.Expression.parts])) (h₁.amid h)).last ?_
    rintro right c₂ ⟨hright, h₂⟩
    exact ⟨by simp [Errors.expression, hleft, hright], h₁.trans h₂⟩
  | parenthesized inner span =>
    rw [Resolve.expression, Uses.expression]
    refine (expression_settles inner (ht _ (by simp [Syntax.Expression.parts])) h).last ?_
    rintro inner c₁ ⟨hinner, h₁⟩
    exact ⟨by simp [Errors.expression, hinner], h₁⟩
  | call receiver method arguments span =>
    rw [Resolve.expression, Uses.expression]
    refine (expression_settles receiver (ht _ (by simp [Syntax.Expression.parts])) h).bind ?_
    rintro receiver c₁ ⟨hreceiver, h₁⟩
    refine (expressions_settles arguments (fun e he => ht _ (by simp [Syntax.Expression.parts, he]))
      (h₁.amid h)).last ?_
    rintro arguments c₂ ⟨harguments, h₂⟩
    exact ⟨by simp [Errors.expression, hreceiver, harguments], h₁.trans h₂⟩
  | name n =>
    rw [Resolve.expression, Uses.expression]
    exact name_settles c n
  | index target index span =>
    rw [Resolve.expression, Uses.expression]
    refine (expression_settles target (ht _ (by simp [Syntax.Expression.parts])) h).bind ?_
    rintro target c₁ ⟨htarget, h₁⟩
    refine (expression_settles index (ht _ (by simp [Syntax.Expression.parts])) (h₁.amid h)).last ?_
    rintro index c₂ ⟨hindex, h₂⟩
    exact ⟨by simp [Errors.expression, htarget, hindex], h₁.trans h₂⟩
  | dotted target key span =>
    rw [Resolve.expression, Uses.expression]
    refine (expression_settles target (ht _ (by simp [Syntax.Expression.parts])) h).last ?_
    rintro target c₁ ⟨htarget, h₁⟩
    exact ⟨by simp [Errors.expression, Expression.string, htarget], h₁⟩

theorem expressions_settles (es : List Syntax.Expression) (ht : ∀ e ∈ es, Sturdy (.expression e))
    {c : Context} {s : Surroundings} (h : c.Amid s) :
    Settles c (Resolve.expressions es) (Uses.expressions s es) Errors.expressions := by
  cases es with
  | nil =>
    rw [Resolve.expressions, Uses.expressions]
    exact .pure (by simp [Errors.expressions])
  | cons e later =>
    rw [Resolve.expressions, Uses.expressions]
    refine (expression_settles e (ht e (by simp)) h).bind ?_
    rintro e c₁ ⟨he, h₁⟩
    refine (expressions_settles later (fun e he => ht e (by simp [he])) (h₁.amid h)).last ?_
    rintro es c₂ ⟨hes, h₂⟩
    exact ⟨by simp [Errors.expressions, he, hes], h₁.trans h₂⟩

theorem targets_settles (es : List Syntax.Expression) (ht : ∀ e ∈ es, Sturdy (.expression e))
    {c : Context} {s : Surroundings} (h : c.Amid s) :
    Settles c (Resolve.targets es) (Uses.targets s es) Errors.expressions := by
  cases es with
  | nil =>
    rw [Resolve.targets, Uses.targets]
    exact .pure (by simp [Errors.expressions])
  | cons e later =>
    have hlater (c₁ : Context) (h₁ : c.Steady c₁) :=
      targets_settles later (fun e he => ht e (by simp [he])) (h₁.amid h)
    have hall {m : Resolve Expression} {us : List (Surroundings × Use)}
        (hm : Settles c m us Errors.expression) :
        Settles c (do let e ← m; return e :: (← Resolve.targets later))
          (us ++ Uses.targets s later) Errors.expressions := by
      refine hm.bind ?_
      rintro e c₁ ⟨he, h₁⟩
      refine (hlater c₁ h₁).last ?_
      rintro es c₂ ⟨hes, h₂⟩
      exact ⟨by simp [Errors.expressions, he, hes], h₁.trans h₂⟩
    have hfirst := expression_settles e (ht e (by simp)) h
    cases e with
    | name n =>
      rw [Resolve.targets, Uses.targets]
      exact hall (targetName_settles h n)
    | _ => exact hall hfirst

theorem tableFields_settles (position : Nat) (fields : List Syntax.Field)
    (ht : ∀ f ∈ fields, Sturdy (.field f)) {c : Context} {s : Surroundings} (h : c.Amid s) :
    Settles c (Resolve.tableFields position fields) (Uses.tableFields s fields)
      Errors.tableFields := by
  cases fields with
  | nil =>
    rw [Resolve.tableFields, Uses.tableFields]
    exact .pure (by simp [Errors.tableFields])
  | cons f later =>
    have hf : ∀ m ∈ f.parts, Sturdy m := fun m hm => (ht f (by simp)).child hm
    have hlater (position : Nat) (c₁ : Context) (h₁ : c.Steady c₁) :=
      tableFields_settles position later (fun f hf => ht f (by simp [hf])) (h₁.amid h)
    cases f with
    | positional value span =>
      rw [Resolve.tableFields, Uses.tableFields]
      refine (expression_settles value (hf _ (by simp [Syntax.Field.parts])) h).bind ?_
      rintro value c₁ ⟨hvalue, h₁⟩
      refine (hlater _ c₁ h₁).last ?_
      rintro fields c₂ ⟨hfields, h₂⟩
      exact ⟨by simp [Errors.tableFields, hvalue, hfields], h₁.trans h₂⟩
    | named key value span =>
      rw [Resolve.tableFields, Uses.tableFields]
      refine (expression_settles value (hf _ (by simp [Syntax.Field.parts])) h).bind ?_
      rintro value c₁ ⟨hvalue, h₁⟩
      refine (hlater _ c₁ h₁).last ?_
      rintro fields c₂ ⟨hfields, h₂⟩
      exact ⟨by simp [Errors.tableFields, Errors.expression, Expression.string, hvalue, hfields],
        h₁.trans h₂⟩
    | keyed key value span =>
      rw [Resolve.tableFields, Uses.tableFields]
      refine (expression_settles key (hf _ (by simp [Syntax.Field.parts])) h).bind ?_
      rintro key c₁ ⟨hkey, h₁⟩
      refine (expression_settles value (hf _ (by simp [Syntax.Field.parts])) (h₁.amid h)).bind ?_
      rintro value c₂ ⟨hvalue, h₂⟩
      refine (hlater _ c₂ (h₁.trans h₂)).last ?_
      rintro fields c₃ ⟨hfields, h₃⟩
      exact ⟨by simp [Errors.tableFields, hkey, hvalue, hfields, Nat.add_assoc],
        (h₁.trans h₂).trans h₃⟩

theorem functionBody_settles (method : Bool) (f : Syntax.FunctionBody)
    (ht : Sturdy (.functionBody f)) {c : Context} {s : Surroundings} (h : c.Amid s) :
    Settles c (Resolve.functionBody method f)
      (Uses.functionBody s (if method then ["self"] else []) f) Errors.expression := by
  obtain ⟨parameters, vararg, b, span⟩ := f
  rw [Resolve.functionBody, Uses.functionBody]
  refine Finds.inFunction ?_
  have hbody (symbols : List Local) (names : List String) (c₁ : Context)
      (hsymbols : symbols.map Local.variable = names.map (⟨·, false⟩))
      (h₁ : ((c.entered vararg).declares symbols).Steady c₁) :
      Finds c₁ (return Expression.function symbols vararg (← Resolve.statements b))
        (Uses.block ((s.inFunction vararg).declaresAll names) b) fun a c' =>
          Errors.expression a = marks (Uses.block ((s.inFunction vararg).declaresAll names) b) ∧
            (c.entered vararg).Inside c' := by
    refine ((block_settles b (ht.child (by simp [Node.children]))).declaring (h.inFunction vararg)
      hsymbols h₁).last ?_
    rintro body c₂ ⟨hbody, h₂⟩
    exact ⟨by simp [Errors.expression, hbody], h₂⟩
  cases method with
  | false =>
    simp only [Bool.false_eq_true, if_false, List.nil_append, pure_bind]
    refine (declareAll_finds (c.entered vararg) parameters).first ?_
    rintro symbols c₁ ⟨hsymbols, h₁⟩
    exact hbody symbols _ c₁ (by simp [hsymbols]) h₁
  | true =>
    simp only [if_true, List.cons_append, List.nil_append, pure_bind]
    refine (declare_finds (c.entered vararg) "self").first ?_
    rintro receiver c₁ ⟨hreceiver, h₁⟩
    refine (declareAll_finds c₁ parameters).first ?_
    rintro symbols c₂ ⟨hsymbols, h₂⟩
    refine hbody (receiver :: symbols) _ c₂ (by simp [hreceiver, hsymbols]) ?_
    have h := (h₁.declares symbols).trans h₂
    rw [Context.declares_append] at h
    exact h

theorem block_settles (b : Syntax.Block) (ht : Sturdy (.block b)) : BlockSettles b := by
  intro s c h
  obtain ⟨body, result, span⟩ := b
  have hlabelled := (ht _ .refl).1
  rw [Resolve.statements, Uses.block.eq_def]
  refine (declareLabels_finds body h hlabelled.increasing).bind ?_
  rintro _ c₁ ⟨hamid₁, h₁⟩
  have hbody := statements_settles body (fun st hst => ht.child (by simp [Node.children,
    Syntax.Block.parts, hst])) hamid₁
  refine hbody.bind ?_
  rintro statements c₂ ⟨hstatements, hamid₂, h₂⟩
  cases result with
  | none =>
    refine Finds.pure ⟨?_, hamid₂, h₁.trans h₂⟩
    simp [marks_labels, hstatements]
  | some x =>
    obtain ⟨values, span⟩ := x
    have hx : Sturdy (.result ⟨values, span⟩) :=
      ht.child (by simp [Node.children, Syntax.Block.parts])
    refine (expressions_settles values (fun e he => hx.child (by simp [Node.children, he]))
      hamid₂).last ?_
    rintro values c₃ ⟨hvalues, h₃⟩
    refine ⟨?_, h₃.amid hamid₂, (h₁.trans h₂).trans h₃.inside⟩
    simp [errors_append, Errors.block, Errors.statement, marks_labels, hstatements, hvalues]
    rfl

theorem statements_settles (ss : List Syntax.Statement) (ht : ∀ st ∈ ss, Sturdy (.statement st))
    {c : Context} {s : Surroundings} (h : c.Amid s) :
    Finds c (Resolve.statementList ss) (Uses.statements s ss) fun a c' =>
      Errors.block a = marks (Uses.statements s ss) ∧ c'.Amid (ss.foldl Surroundings.behind s) ∧
        c.Inside c' := by
  cases ss with
  | nil =>
    rw [Resolve.statementList, Uses.statements]
    exact Finds.pure ⟨by simp [Errors.block], h, (Context.Steady.refl c).inside⟩
  | cons st later =>
    rw [Resolve.statementList, Uses.statements]
    refine (statement_settles st (ht st (by simp)) h).bind ?_
    rintro a c₁ ⟨ha, hamid₁, h₁⟩
    refine (statements_settles later (fun st hst => ht st (by simp [hst])) hamid₁).last ?_
    rintro body c₂ ⟨hbody, hamid₂, h₂⟩
    exact ⟨by simp [Errors.block, ha, hbody], hamid₂, h₁.trans h₂⟩

theorem elseIfs_settles (es : List Syntax.ElseIf) (ht : ∀ e ∈ es, Sturdy (.elseIf e)) {c : Context}
    {s : Surroundings} (h : c.Amid s) :
    Settles c (Resolve.elseIfs es) (Uses.elseIfs s es) Errors.branches := by
  cases es with
  | nil =>
    rw [Resolve.elseIfs, Uses.elseIfs]
    exact .pure (by simp [Errors.branches])
  | cons e later =>
    obtain ⟨condition, b, span⟩ := e
    have he := ht ⟨condition, b, span⟩ (by simp)
    rw [Resolve.elseIfs, Uses.elseIfs]
    refine (expression_settles condition (he.child (by simp [Node.children])) h).bind ?_
    rintro condition c₁ ⟨hcondition, h₁⟩
    refine ((block_settles b (he.child (by simp [Node.children]))).inScope (h₁.amid h)).bind ?_
    rintro body c₂ ⟨hbody, h₂⟩
    have h₂ := h₁.trans h₂
    refine (elseIfs_settles later (fun e he => ht e (by simp [he])) (h₂.amid h)).last ?_
    rintro branches c₃ ⟨hbranches, h₃⟩
    exact ⟨by simp [Errors.branches, hcondition, hbody, hbranches, Nat.add_assoc], h₂.trans h₃⟩

theorem statement_settles (st : Syntax.Statement) (ht : Sturdy (.statement st)) {c : Context}
    {s : Surroundings} (h : c.Amid s) :
    Finds c (Resolve.statement st) (Uses.statementUses s st) fun a c' =>
      Errors.statement a = marks (Uses.statementUses s st) ∧ c'.Amid (s.behind st) ∧
        c.Inside c' := by
  replace ht : ∀ m ∈ st.parts, Sturdy m := fun m hm => ht.child hm
  cases st with
  | assign ts vs span =>
    rw [Resolve.statement, Uses.statementUses]
    refine Settles.statement ?_ h
    refine (targets_settles ts (fun e he => ht _ (by simp [Syntax.Statement.parts, he])) h).bind ?_
    rintro ts c₁ ⟨hts, h₁⟩
    refine (expressions_settles vs (fun e he => ht _ (by simp [Syntax.Statement.parts, he]))
      (h₁.amid h)).last ?_
    rintro vs c₂ ⟨hvs, h₂⟩
    exact ⟨by simp [Errors.statement, hts, hvs], h₁.trans h₂⟩
  | declare ds vs span =>
    rw [Resolve.statement, Uses.statementUses]
    refine (expressions_settles vs (fun e he => ht _ (by simp [Syntax.Statement.parts, he]))
      h).bind ?_
    rintro vs c₁ ⟨hvs, h₁⟩
    rw [← List.append_nil (Uses.declared s [] ds)]
    refine (declaredSymbols_finds c₁ s [] ds).bind ?_
    rintro symbols c₂ ⟨hsymbols, h₂⟩
    refine (declareVariables_finds c₂ symbols).last ?_
    rintro _ _ rfl
    have hamid := ((h₁.trans h₂).amid h).declares symbols
    rw [hsymbols] at hamid
    refine ⟨by simp [Errors.statement, hvs, marks_declared], hamid, ?_⟩
    exact (h₁.trans h₂).inside.trans (c₂.inside_declares symbols)
  | call e span =>
    rw [Resolve.statement, Uses.statementUses]
    refine Settles.statement ?_ h
    refine (expression_settles e (ht _ (by simp [Syntax.Statement.parts])) h).last ?_
    rintro e c₁ ⟨he, h₁⟩
    exact ⟨by simp [Errors.statement, he], h₁⟩
  | ifThen condition b es o span =>
    rw [Resolve.statement, Uses.statementUses.eq_def]
    refine Settles.statement ?_ h
    refine (expression_settles condition (ht _ (by simp [Syntax.Statement.parts])) h).bind ?_
    rintro condition c₁ ⟨hcondition, h₁⟩
    refine ((block_settles b (ht _ (by simp [Syntax.Statement.parts]))).inScope (h₁.amid h)).bind ?_
    rintro body c₂ ⟨hbody, h₂⟩
    have h₂ := h₁.trans h₂
    refine (elseIfs_settles es (fun e he => ht _ (by simp [Syntax.Statement.parts, he]))
      (h₂.amid h)).bind ?_
    rintro es c₃ ⟨hes, h₃⟩
    have h₃ := h₂.trans h₃
    cases o with
    | none =>
      refine Finds.pure ⟨?_, h₃⟩
      simp [Errors.statement, hcondition, hbody, hes, Nat.add_assoc]
    | some o =>
      have ho : Sturdy (.otherwise o) :=
        ht _ (by simp [Syntax.Statement.parts])
      refine ((block_settles o ho.otherwise).inScope (h₃.amid h)).last ?_
      rintro o c₄ ⟨ho, h₄⟩
      exact ⟨by simp [Errors.statement, hcondition, hbody, hes, ho, Nat.add_assoc], h₃.trans h₄⟩
  | whileDo condition b span =>
    rw [Resolve.statement, Uses.statementUses]
    refine Settles.statement ?_ h
    refine (expression_settles condition (ht _ (by simp [Syntax.Statement.parts])) h).bind ?_
    rintro condition c₁ ⟨hcondition, h₁⟩
    refine (Finds.inLoop fun exit c₂ h₂ => ?_).imp fun _ _ ha => ⟨ha.1, h₁.trans ha.2⟩
    refine ((block_settles b (ht _ (by simp [Syntax.Statement.parts]))).inScope
      ((h₁.amid h).inLoop h₂)).last ?_
    rintro body c₃ ⟨hbody, h₃⟩
    exact ⟨by simp [Errors.statement, hcondition, hbody], h₃⟩
  | repeatUntil b condition span =>
    rw [Resolve.statement, Uses.statementUses]
    refine Settles.statement ?_ h
    refine Finds.inLoop fun exit c₁ h₁ => Finds.inScope ?_
    refine (block_settles b (ht _ (by simp [Syntax.Statement.parts])) _ _
      (h.inLoop h₁).inScope).bind ?_
    rintro body c₂ ⟨hbody, hamid, h₂⟩
    refine (expression_settles condition (ht _ (by simp [Syntax.Statement.parts])) hamid).last ?_
    rintro condition c₃ ⟨hcondition, h₃⟩
    exact ⟨by simp [Errors.statement, hbody, hcondition], h₂.trans h₃.inside⟩
  | doBlock b span =>
    rw [Resolve.statement, Uses.statementUses]
    refine Settles.statement ?_ h
    refine ((block_settles b (ht _ (by simp [Syntax.Statement.parts]))).inScope h).last ?_
    rintro body c₁ ⟨hbody, h₁⟩
    exact ⟨by simp [Errors.statement, hbody], h₁⟩
  | breakLoop span =>
    rw [Resolve.statement, Uses.statementUses]
    exact (breakLoop_settles h span).statement h
  | goto n span =>
    rw [Resolve.statement, Uses.statementUses]
    exact (goto_settles h n).statement h
  | label n span =>
    rw [Resolve.statement, Uses.statementUses]
    exact (label_settles c n).statement h
  | function f body span =>
    have hname : Sturdy (.functionName f) := ht _ (by simp [Syntax.Statement.parts])
    have hpath := (hname _ .refl).2 f rfl
    rw [Resolve.statement, Uses.statementUses]
    refine Settles.statement ?_ h
    refine (functionTarget?_finds h hpath).bind ?_
    rintro _ c₁ ⟨⟨target, rfl, htarget⟩, h₁⟩
    refine (functionBody_settles f.method.isSome body
      (ht _ (by simp [Syntax.Statement.parts])) (h₁.amid h)).last ?_
    rintro e c₂ ⟨he, h₂⟩
    exact ⟨by simp [Errors.statement, Errors.expressions, htarget, he], h₁.trans h₂⟩
  | localFunction n body span =>
    rw [Resolve.statement, Uses.statementUses]
    refine (declare_finds c n.text).first ?_
    rintro symbol c₁ ⟨hsymbol, h₁⟩
    have hamid : c₁.Amid (s.declaresAll [n.text]) := by
      have := h₁.amid (h.declares [symbol])
      rw [List.map_singleton, hsymbol] at this
      exact this
    refine (functionBody_settles false body (ht _ (by simp [Syntax.Statement.parts]))
      hamid).last ?_
    rintro e c₂ ⟨he, h₂⟩
    refine ⟨by simpa [Errors.statement, Errors.expressions] using he, h₂.amid hamid, ?_⟩
    exact ((c.inside_declares [symbol]).trans h₁.inside).trans h₂.inside
  | numericFor n initial limit step b span =>
    rw [Resolve.statement, Uses.statementUses.eq_def]
    refine Settles.statement ?_ h
    refine (expression_settles initial (ht _ (by simp [Syntax.Statement.parts]))
      h).bind ?_
    rintro initial c₁ ⟨hinitial, h₁⟩
    refine (expression_settles limit (ht _ (by simp [Syntax.Statement.parts]))
      (h₁.amid h)).bind ?_
    rintro limit c₂ ⟨hlimit, h₂⟩
    have h₂ := h₁.trans h₂
    have hloop (step : Expression) (c₃ : Context) (h₃ : c.Steady c₃) :
        Finds c₃
          (Resolve.inLoop fun exit => Resolve.inScope false do
            let counter ← Resolve.declare n.text
            return Statement.numericFor counter initial limit step (← Resolve.statements b) exit)
          (Uses.block (s.inLoop.declaresAll [n.text]) b) fun a c' =>
            Errors.statement a = Errors.expression initial + Errors.expression limit +
              Errors.expression step + marks (Uses.block (s.inLoop.declaresAll [n.text]) b) ∧
            c₃.Steady c' := by
      refine Finds.inLoop fun exit c₄ h₄ => Finds.inScope ?_
      refine (declare_finds _ n.text).first ?_
      rintro counter c₅ ⟨hcounter, h₅⟩
      refine ((block_settles b (ht _ (by simp [Syntax.Statement.parts]))).declaring
        ((h₃.amid h).inLoop h₄).inScope (by simp [hcounter]) h₅).last ?_
      rintro body c₆ ⟨hbody, h₆⟩
      exact ⟨by simp [Errors.statement, hbody], h₆⟩
    cases step with
    | none =>
      refine (hloop (.integer 1) c₂ h₂).imp ?_
      rintro a c₃ ⟨ha, h₃⟩
      refine ⟨?_, h₂.trans h₃⟩
      simp [ha, hinitial, hlimit, Expression.integer, Errors.expression, Nat.add_assoc]
    | some step =>
      refine (expression_settles step (ht _ (by simp [Syntax.Statement.parts]))
        (h₂.amid h)).bind ?_
      rintro step c₃ ⟨hstep, h₃⟩
      have h₃ := h₂.trans h₃
      refine (hloop step c₃ h₃).imp ?_
      rintro a c₄ ⟨ha, h₄⟩
      exact ⟨by simp [ha, hinitial, hlimit, hstep, Nat.add_assoc], h₃.trans h₄⟩
  | genericFor ns vs b span =>
    rw [Resolve.statement, Uses.statementUses]
    refine Settles.statement ?_ h
    refine (expressions_settles vs (fun e he => ht _ (by simp [Syntax.Statement.parts, he]))
      h).bind ?_
    rintro vs c₁ ⟨hvs, h₁⟩
    refine (Finds.inLoop fun exit c₂ h₂ => Finds.inScope ?_).imp fun _ _ ha => ⟨ha.1, h₁.trans ha.2⟩
    refine (declareAll_finds _ ns).first ?_
    rintro symbols c₃ ⟨hsymbols, h₃⟩
    refine ((block_settles b (ht _ (by simp [Syntax.Statement.parts]))).declaring
      ((h₁.amid h).inLoop h₂).inScope (by simp [hsymbols]) h₃).last ?_
    rintro body c₄ ⟨hbody, h₄⟩
    exact ⟨by simp [Errors.statement, hvs, hbody], h₄⟩

end

theorem sturdy_parse (source : Text.Source) :
    Sturdy (.block (Syntax.Tree.parse source).root.block) := by
  intro m hm
  refine ⟨(Syntax.Tree.parse_reads source).2 m hm, ?_⟩
  rintro f rfl
  obtain ⟨last, hspreads, _⟩ := Syntax.Tree.parse_lays source
  cases hm with
  | child hmem hm => exact (hspreads.nodes _ hmem _ hm).origin

theorem program_settles {b : Syntax.Block} (ht : Sturdy (.block b)) (unit : Nat) :
    Settles (.ofUnit unit) (Resolve.program b) (Uses.program b) Errors.block := by
  refine Finds.inScope (Finds.get ?_)
  have hamid : (((Context.ofUnit unit).opened true).declares
      [(Context.ofUnit unit).environment]).Amid (Surroundings.outermost.inBlock []) :=
    ⟨List.cons_ne_nil _ _, rfl, rfl, rfl, rfl⟩
  refine (declareVariables_finds _ [(Context.ofUnit unit).environment]).first ?_
  rintro _ _ rfl
  refine (block_settles b ht _ _ hamid).imp ?_
  rintro body c' ⟨hbody, _, h⟩
  exact ⟨hbody, (Context.inside_declares _ _).trans h⟩

/-- What is reported behind a text's own diagnostics is what violates a rule, each violation once
and in order. An error stands for each `break` without a loop, each jump to no label and each
`...` in a function without it, and for nothing else. -/
theorem Program.diagnostics_ofTree_parse (source : Text.Source) (unit : Nat) :
    (ofTree (Syntax.Tree.parse source) unit).diagnostics =
        (Syntax.Tree.parse source).diagnostics ++
          violations (Uses.program (Syntax.Tree.parse source).root.block) ∧
      Errors.block (ofTree (Syntax.Tree.parse source) unit).body =
        (violations (Uses.program (Syntax.Tree.parse source).root.block)).countP
          fun d => leavesError d.cause := by
  obtain ⟨hfound, herrors, _⟩ := program_settles (sturdy_parse source) unit
  refine ⟨?_, herrors⟩
  rw [Program.diagnostics]
  refine congrArg ((Syntax.Tree.parse source).diagnostics ++ ·) ?_
  exact (Journal.diagnostics_record _ _).trans ((List.append_nil _).trans hfound)

end Resolved
end LuaFront
