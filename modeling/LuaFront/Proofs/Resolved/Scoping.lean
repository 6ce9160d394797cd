import LuaFront.Proofs.Resolved.Lexical
import LuaFront.Proofs.Syntax.Statement

/-!
# LuaFront.Proofs.Resolved.Scoping

Resolving names with a stack of scopes gives what static scoping says.

* `Context.env`: what is visible from the scopes that are open.
* `Sim c m r Q`: from the context `c` and the numbers it has come to, resolving by `m` and by `r`
  ends with the same numbers, and `Q` relates the results.
* `Context.Steady c c'`: the same scopes are open, with the same in them.
* `Resolve.program_eq`: a program in which labels stand one behind the other is resolved as static
  scoping says.
-/

namespace LuaFront
namespace Resolved

open Lexical (Env Supply Numbered)

/-! ## What is visible in a context -/

namespace Frame

def jumps (f : Frame) : List Label := f.labels.map PlacedLabel.label

end Frame

namespace Context

def env (c : Context) : Env where
  unit := c.unit
  environment := c.environment
  locals := c.scopes.frames.flatMap Frame.symbols
  blocks := c.scopes.labelFrames.map Frame.jumps
  exit := c.exits.head?
  vararg := c.vararg

def supply (c : Context) : Supply := ⟨c.next, c.loops⟩

/-- At most the numbers and the journal differ. -/
structure Steady (c c' : Context) : Prop where
  unit : c'.unit = c.unit
  scopes : c'.scopes = c.scopes
  exits : c'.exits = c.exits
  vararg : c'.vararg = c.vararg
  environment : c'.environment = c.environment

namespace Steady

theorem refl (c : Context) : Steady c c := ⟨rfl, rfl, rfl, rfl, rfl⟩

theorem trans {c₁ c₂ c₃ : Context} (h₁ : Steady c₁ c₂) (h₂ : Steady c₂ c₃) : Steady c₁ c₃ :=
  ⟨h₂.unit.trans h₁.unit, h₂.scopes.trans h₁.scopes, h₂.exits.trans h₁.exits,
    h₂.vararg.trans h₁.vararg, h₂.environment.trans h₁.environment⟩

theorem env_eq {c c' : Context} (h : Steady c c') : c'.env = c.env := by
  simp only [env, h.unit, h.scopes, h.exits, h.vararg, h.environment]

end Steady
end Context

theorem Context.symbol?_env (c : Context) (name : String) :
    c.env.symbol? name = c.scopes.lookupVariable? name :=
  List.find?_flatMap

theorem Context.label?_env (c : Context) (name : String) :
    c.env.label? name = c.scopes.lookupLabel? name := by
  rw [Lexical.Env.label?, env, Scopes.lookupLabel?, List.findSome?_map]
  congr 1
  funext f
  exact List.find?_map

/-! ## Resolving side by side -/

section Sim

variable {α β α' β' : Type} {c : Context} {m : Resolve α} {r : Numbered β}

def Sim (c : Context) (m : Resolve α) (r : Numbered β) (Q : α → Context → β → Prop) : Prop :=
  (m.run c).2.supply = (r.run c.supply).2 ∧ Q (m.run c).1 (m.run c).2 (r.run c.supply).1

namespace Sim

theorem imp {Q Q' : α → Context → β → Prop} (h : Sim c m r Q)
    (himp : ∀ a c' b, Q a c' b → Q' a c' b) : Sim c m r Q' :=
  ⟨h.1, himp _ _ _ h.2⟩

theorem pure {Q : α → Context → β → Prop} {a : α} {b : β} (h : Q a c b) :
    Sim c (pure a) (pure b) Q :=
  ⟨rfl, h⟩

theorem bind {Q : α → Context → β → Prop} {Q' : α' → Context → β' → Prop} {k : α → Resolve α'}
    {l : β → Numbered β'} (h : Sim c m r Q)
    (hnext : ∀ a c' b, Q a c' b → Sim c' (k a) (l b) Q') : Sim c (m >>= k) (r >>= l) Q' := by
  have hsim := hnext _ _ _ h.2
  rw [Sim, h.1] at hsim
  exact hsim

/-- Something only the scopes or the journal notice. -/
theorem bind_left {Q' : α' → Context → β → Prop} {k : α → Resolve α'} {a : α} {c' : Context}
    (hrun : m.run c = (a, c')) (hsupply : c'.supply = c.supply) (hnext : Sim c' (k a) r Q') :
    Sim c (m >>= k) r Q' := by
  have : (m >>= k).run c = (k a).run c' := by
    rw [StateT.run_bind, hrun]
    rfl
  rw [Sim, this, ← hsupply]
  exact hnext

end Sim

/-- The same result, in a context that is open as before. -/
def Agrees (c : Context) (m : Resolve α) (r : Numbered α) : Prop :=
  Sim c m r fun a c' b => a = b ∧ c.Steady c'

theorem Agrees.pure (a : α) : Agrees c (pure a) (pure a) := Sim.pure ⟨rfl, .refl c⟩

theorem Agrees.get {k : Context → Resolve α} {r : Numbered α} (h : Agrees c (k c) r) :
    Agrees c (get >>= k) r :=
  h

/-- Two parts that agree, one behind the other. -/
theorem Agrees.bind {k : α → Resolve α'} {l : α → Numbered α'} {r : Numbered α}
    (h : Agrees c m r) (hnext : ∀ a c', c.Steady c' → Agrees c' (k a) (l a)) :
    Agrees c (m >>= k) (r >>= l) := by
  refine Sim.bind h ?_
  rintro a c' _ ⟨rfl, h₁⟩
  refine (hnext a c' h₁).imp ?_
  rintro b c'' _ ⟨rfl, h₂⟩
  exact ⟨rfl, h₁.trans h₂⟩

/-- A part that has its result from what is visible alone. -/
theorem Agrees.bind_left {a : α} {k : α → Resolve α'} {r : Numbered β}
    {Q : α' → Context → β → Prop} (h : Agrees c m (return a))
    (hnext : ∀ c', c.Steady c' → Sim c' (k a) r Q) : Sim c (m >>= k) r Q := by
  have ha : Sim c m (return a) fun b c' _ => b = a ∧ c.Steady c' := ⟨h.1, h.2.1, h.2.2⟩
  rw [← pure_bind a fun _ => r]
  refine ha.bind ?_
  rintro _ c' _ ⟨rfl, h₁⟩
  exact hnext c' h₁

end Sim

/-! ## Declarations -/

namespace Context

/-- The context behind a declaration in the innermost scope. -/
def declares (c : Context) (symbols : List Local) : Context :=
  { c with
    scopes := c.scopes.modifyInnermost fun f => { f with symbols := symbols.reverse ++ f.symbols } }

theorem declares_nil (c : Context) : c.declares [] = c := by
  obtain ⟨unit, next, ⟨frames⟩, journal, exits, loops, vararg, environment⟩ := c
  cases frames <;> rfl

theorem declares_append (c : Context) (a b : List Local) :
    (c.declares a).declares b = c.declares (a ++ b) := by
  unfold declares Scopes.modifyInnermost
  split <;> simp_all

theorem env_declares {c : Context} (h : c.scopes.frames ≠ []) (symbols : List Local) :
    (c.declares symbols).env = c.env.declares symbols := by
  cases hf : c.scopes.frames with
  | nil => exact absurd hf h
  | cons f outer =>
    simp only [env, declares, Scopes.modifyInnermost, hf, Env.declares, Scopes.labelFrames,
      Scopes.upToBoundary, List.flatMap_cons, List.append_assoc, Env.mk.injEq, true_and, and_true]
    split <;> rfl

theorem Steady.declares {c c' : Context} (h : Steady c c') (symbols : List Local) :
    Steady (c.declares symbols) (c'.declares symbols) := by
  obtain ⟨hunit, hscopes, hexits, hvararg, henvironment⟩ := h
  exact ⟨hunit, by simp only [Context.declares, hscopes], hexits, hvararg, henvironment⟩

end Context

theorem fresh_agrees (c : Context) : Agrees c Resolve.fresh (Lexical.fresh c.unit) :=
  ⟨rfl, rfl, rfl, rfl, rfl, rfl, rfl⟩

theorem declareVariables_run (c : Context) (symbols : List Local) :
    (symbols.forM Resolve.declareVariable).run c = ((), c.declares symbols) := by
  induction symbols generalizing c with
  | nil =>
    rw [Context.declares_nil]
    rfl
  | cons symbol later ih =>
    have h := ih (c.declares [symbol])
    rw [Context.declares_append] at h
    exact h

/-- A new variable of a name, which is then visible. -/
theorem declare_agrees (c : Context) (name : String) :
    Sim c (Resolve.declare name) (Lexical.fresh c.unit) fun a c' id =>
      a = Local.plain id name ∧ (c.declares [a]).Steady c' :=
  ⟨rfl, rfl, rfl, rfl, rfl, rfl, rfl⟩

theorem declareAll_agrees (c : Context) (names : List Syntax.Name) :
    Sim c (Resolve.declareAll names) (Lexical.declareAll c.unit (names.map Syntax.Name.text))
      fun a c' b => a = b ∧ (c.declares a).Steady c' := by
  induction names generalizing c with
  | nil => exact Sim.pure ⟨rfl, c.declares_nil.symm ▸ .refl c⟩
  | cons n later ih =>
    refine (declare_agrees c n.text).bind ?_
    rintro _ c₁ id ⟨rfl, h₁⟩
    rw [← show c₁.unit = c.unit from h₁.unit]
    refine (ih c₁).bind ?_
    rintro symbols c₂ _ ⟨rfl, h₂⟩
    have h := (h₁.declares symbols).trans h₂
    rw [Context.declares_append] at h
    exact Sim.pure ⟨rfl, h⟩

/-- Reports are noted, and nothing else. -/
theorem Agrees.report {α : Type} {c : Context} {k : Unit → Resolve α} {r : Numbered α}
    {at_ : Text.Span} {cause : Cause} (h : ∀ c', c.Steady c' → Agrees c' (k ()) r) :
    Agrees c (Resolve.report at_ cause >>= k) r := by
  have hsteady : c.Steady { c with journal := c.journal.report ⟨at_, cause⟩ } :=
    ⟨rfl, rfl, rfl, rfl, rfl⟩
  refine Sim.bind_left rfl rfl ((h _ hsteady).imp ?_)
  rintro a c' b ⟨hab, hsteady'⟩
  exact ⟨hab, hsteady.trans hsteady'⟩

theorem declaredSymbols_agrees (c : Context) (closed : Bool)
    (declarations : List Syntax.LocalDeclaration) :
    Agrees c (Resolve.declaredSymbols closed declarations)
      (Lexical.declared c.unit declarations) := by
  induction declarations generalizing c closed with
  | nil => exact .pure []
  | cons d later ih =>
    have hrest (c' : Context) (h : c.Steady c') (closed : Bool) :
        Agrees c' (do
            let id ← Resolve.fresh
            let later ← Resolve.declaredSymbols closed later
            return ⟨id, d.name.text, decide (d.attrib.map Syntax.Name.text = some "const"),
              decide (d.attrib.map Syntax.Name.text = some "close")⟩ :: later)
          (Lexical.declared c.unit (d :: later)) := by
      rw [← h.unit]
      refine (fresh_agrees c').bind fun id c₁ h₁ => ?_
      rw [← h₁.unit]
      exact (ih c₁ closed).bind fun symbols c₂ _ => .pure _
    obtain ⟨name, attrib, span⟩ := d
    cases attrib with
    | none =>
      simp only [Resolve.declaredSymbols, Option.map_none, reduceCtorEq, false_and, if_false]
      exact hrest c (.refl c) _
    | some a =>
      have hattrib (c' : Context) (h : c.Steady c') {m : Resolve (List Local)}
          (hm : ∀ c', c.Steady c' →
            Agrees c' m (Lexical.declared c.unit (⟨name, some a, span⟩ :: later))) :
          Agrees c' (if a.text ≠ "const" ∧ a.text ≠ "close" then
              Resolve.report a.span (.unknownAttribute a.text) >>= fun _ => m else m)
            (Lexical.declared c.unit (⟨name, some a, span⟩ :: later)) := by
        split
        · exact .report fun c'' h' => hm c'' (h.trans h')
        · exact hm c' h
      simp only [Resolve.declaredSymbols]
      split
      · exact .report fun c₁ h₁ => hattrib c₁ h₁ fun c₂ h₂ => hrest c₂ h₂ _
      · exact hattrib c (.refl c) fun c₂ h₂ => hrest c₂ h₂ _

/-! ## Names and jumps -/

theorem name_agrees (c : Context) (n : Syntax.Name) :
    Agrees c (Resolve.name n) (pure (c.env.name n)) := by
  have hrun : (Resolve.name n).run c = (c.env.name n, c) := by
    rw [Lexical.Env.name, c.symbol?_env, c.symbol?_env]
    unfold Resolve.name
    cases h : c.scopes.lookupVariable? n.text <;> simp [h] <;> rfl
  rw [Agrees, Sim, hrun]
  exact ⟨rfl, rfl, .refl c⟩

theorem targetName_agrees (c : Context) (n : Syntax.Name) :
    Agrees c (Resolve.targetName n) (pure (c.env.name n)) := by
  unfold Resolve.targetName
  rw [← bind_pure (pure (c.env.name n) : Numbered Expression)]
  refine (name_agrees c n).bind fun e c₁ _ => ?_
  cases e with
  | name symbol =>
    simp only
    split
    · exact .report fun c₂ _ => .pure _
    · exact .pure _
  | _ => exact .pure _

theorem functionTarget?_agrees (c : Context) (f : Syntax.FunctionName) :
    Agrees c (Resolve.functionTarget? f) (pure (c.env.functionTarget? f)) := by
  obtain ⟨path, method, span⟩ := f
  -- A path with keys or a method assigns to a field, and so to no constant.
  have hfield (n : Syntax.Name) (keys : List Syntax.Name) :
      Agrees c (do
          let first ← Resolve.name n
          return some (keys.foldl (fun e key => .index e (.string key.text)) first))
        (pure (some (keys.foldl (fun e key => .index e (.string key.text)) (c.env.name n)))) := by
    rw [← pure_bind (c.env.name n) fun first =>
      pure (some (keys.foldl (fun e key => .index e (.string key.text)) first))]
    exact (name_agrees c n).bind fun e c₁ _ => .pure _
  cases path with
  | nil => exact .pure none
  | cons n keys =>
    cases keys with
    | cons key keys => exact hfield n (key :: keys ++ method.toList)
    | nil =>
      cases method with
      | some m => exact hfield n [m]
      | none =>
        change Agrees c _ (pure (some (c.env.name n)))
        rw [← pure_bind (c.env.name n) fun e => pure (some e)]
        exact (targetName_agrees c n).bind fun e c₁ _ => .pure _

theorem breakLoop_agrees (c : Context) (at_ : Text.Span) :
    Agrees c (Resolve.breakLoop at_) (pure (c.env.exit.elim (.expression .error) .goto)) := by
  unfold Resolve.breakLoop
  refine Agrees.get ?_
  rw [show c.env.exit = c.exits.head? from rfl]
  cases c.exits with
  | nil => exact .report fun c₁ _ => .pure _
  | cons exit outer => exact .pure _

theorem goto_agrees (c : Context) (n : Syntax.Name) :
    Agrees c (Resolve.goto n) (pure ((c.env.label? n.text).elim (.expression .error) .goto)) := by
  unfold Resolve.goto
  refine Agrees.get ?_
  rw [c.label?_env]
  cases c.scopes.lookupLabel? n.text with
  | none => exact .report fun c₁ _ => .pure _
  | some label => exact .pure _

/-! ## Labels -/

/-- These labels as a frame keeps them, numbered from `first` on. -/
def placedFrom (unit first : Nat) : List Syntax.Name → List PlacedLabel
  | [] => []
  | n :: later => ⟨⟨.declared unit first, n.text⟩, n.span.start⟩ :: placedFrom unit (first + 1) later

theorem label_placedFrom (unit first : Nat) (names : List Syntax.Name) :
    (placedFrom unit first names).map PlacedLabel.label = Lexical.labelsFrom unit first names := by
  induction names generalizing first with
  | nil => rfl
  | cons n later ih => rw [placedFrom, List.map_cons, ih, Lexical.labelsFrom]

theorem placedFrom_append (unit first : Nat) (a b : List Syntax.Name) :
    placedFrom unit first (a ++ b) =
      placedFrom unit first a ++ placedFrom unit (first + a.length) b := by
  induction a generalizing first with
  | nil => rfl
  | cons n later ih =>
    rw [List.cons_append, placedFrom, ih, placedFrom, List.cons_append, List.length_cons,
      Nat.add_right_comm, Nat.add_assoc]

theorem start_of_mem_placedFrom {unit first : Nat} {names : List Syntax.Name} {l : PlacedLabel}
    (h : l ∈ placedFrom unit first names) : ∃ n ∈ names, l.start = n.span.start := by
  induction names generalizing first with
  | nil => cases h
  | cons n later ih =>
    rcases List.mem_cons.1 h with rfl | h
    · exact ⟨n, by simp, rfl⟩
    · obtain ⟨m, hm, hl⟩ := ih h
      exact ⟨m, List.mem_cons_of_mem n hm, hl⟩

namespace Context

/-- The innermost scope has the labels of a block, of which those of these names are still to come
and are numbered from `number` on. -/
def Stands (number : Nat) (names : List Syntax.Name) (c : Context) : Prop :=
  ∃ f outer first done, c.scopes.frames = f :: outer ∧
    f.labels = placedFrom c.unit first (done ++ names) ∧ number = first + done.length ∧
    (done ++ names).Pairwise (·.span.start < ·.span.start)

namespace Stands

variable {number : Nat} {names : List Syntax.Name} {n : Syntax.Name} {c c' : Context}

theorem frames_ne_nil (h : c.Stands number names) : c.scopes.frames ≠ [] := by
  obtain ⟨f, outer, _, _, hframes, _⟩ := h
  simp [hframes]

theorem drop {later : List Syntax.Name} (h : c.Stands number (names ++ later)) :
    c.Stands (number + names.length) later := by
  obtain ⟨f, outer, first, done, hframes, hlabels, hnumber, hincreasing⟩ := h
  refine ⟨f, outer, first, done ++ names, hframes, ?_, ?_, ?_⟩
  · simpa using hlabels
  · rw [hnumber, List.length_append, Nat.add_assoc]
  · simpa using hincreasing

theorem declares (h : c.Stands number names) (symbols : List Local) :
    (c.declares symbols).Stands number names := by
  obtain ⟨f, outer, first, done, hframes, hlabels, hnumber, hincreasing⟩ := h
  refine ⟨{ f with symbols := symbols.reverse ++ f.symbols }, outer, first, done, ?_, hlabels,
    hnumber, hincreasing⟩
  simp [Context.declares, Scopes.modifyInnermost, hframes]

theorem steady (h : c.Stands number names) (hs : c.Steady c') : c'.Stands number names := by
  obtain ⟨f, outer, first, done, hframes, hlabels, hrest⟩ := h
  exact ⟨f, outer, first, done, hs.scopes ▸ hframes, hs.unit ▸ hlabels, hrest⟩

/-- Labels stand at different offsets, so the one declared where the next name stands is the next
one in order. -/
theorem localLabel? (h : c.Stands number (n :: names)) :
    c.scopes.localLabel? n.span.start = some ⟨.declared c.unit number, n.text⟩ := by
  obtain ⟨f, outer, first, done, hframes, hlabels, rfl, hincreasing⟩ := h
  have hdone : (placedFrom c.unit first done).find? (·.start = n.span.start) = none := by
    rw [List.find?_eq_none]
    intro l hl
    obtain ⟨m, hm, hstart⟩ := start_of_mem_placedFrom hl
    have := (List.pairwise_append.1 hincreasing).2.2 m hm n (by simp)
    simp
    omega
  simp [Scopes.localLabel?, hframes, hlabels, placedFrom_append, hdone, placedFrom]

end Stands
end Context

theorem label_agrees {number : Nat} {names : List Syntax.Name} {n : Syntax.Name} {c : Context}
    (h : c.Stands number (n :: names)) :
    Agrees c (Resolve.label n) (pure (.label ⟨.declared c.unit number, n.text⟩)) := by
  unfold Resolve.label
  refine Agrees.get ?_
  rw [h.localLabel?]
  exact .pure _

/-- Where nothing is reported of a label's name, or it is, the label is declared. -/
theorem declareLabels_run (ss : List Syntax.Statement) {c : Context} {f : Frame}
    {outer : List Frame} (hframes : c.scopes.frames = f :: outer) : ∃ journal,
    (Resolve.declareLabels ss).run c = ((), { c with
      next := c.next + (Syntax.labelNames ss).length
      scopes := ⟨{ f with
        labels := f.labels ++ placedFrom c.unit c.next (Syntax.labelNames ss) } :: outer⟩
      journal }) := by
  induction ss generalizing c f with
  | nil =>
    refine ⟨c.journal, ?_⟩
    obtain ⟨unit, next, ⟨frames⟩, journal, exits, loops, vararg, environment⟩ := c
    simp only at hframes
    subst hframes
    simp [Resolve.declareLabels, Syntax.labelNames, placedFrom]
    rfl
  | cons s later ih =>
    cases s with
    | label n span =>
      obtain ⟨journal, hrun⟩ : ∃ journal,
          (Resolve.declareLabels (.label n span :: later)).run c =
            (Resolve.declareLabels later).run { c with
              next := c.next + 1
              scopes := ⟨{ f with
                labels := f.labels ++ placedFrom c.unit c.next [n] } :: outer⟩
              journal } := by
        by_cases hclash : c.scopes.labelClashes n.text n.span.start
        · refine ⟨c.journal.report ⟨n.span, .duplicateLabel n.text⟩, ?_⟩
          simp [Resolve.declareLabels, hclash, placedFrom, Resolve.report, Resolve.fresh,
            Resolve.modifyScopes, Scopes.declareLabel, Scopes.modifyInnermost, hframes]
        · refine ⟨c.journal, ?_⟩
          simp [Resolve.declareLabels, hclash, placedFrom, Resolve.report, Resolve.fresh,
            Resolve.modifyScopes, Scopes.declareLabel, Scopes.modifyInnermost, hframes]
      obtain ⟨journal', hlater⟩ := ih (c := { c with
        next := c.next + 1
        scopes := ⟨{ f with labels := f.labels ++ placedFrom c.unit c.next [n] } :: outer⟩
        journal }) rfl
      refine ⟨journal', ?_⟩
      rw [hrun, hlater]
      simp [Syntax.labelNames, placedFrom, Nat.add_assoc, Nat.add_comm 1]
    | _ => exact ih hframes

/-! ## Opening scopes -/

namespace Context

/-- At most the innermost scope, the numbers and the journal differ. -/
structure Inside (c c' : Context) : Prop where
  unit : c'.unit = c.unit
  outer : c'.scopes.frames.tail = c.scopes.frames.tail
  exits : c'.exits = c.exits
  vararg : c'.vararg = c.vararg
  environment : c'.environment = c.environment

theorem Steady.inside {c c' : Context} (h : Steady c c') : Inside c c' :=
  ⟨h.unit, by rw [h.scopes], h.exits, h.vararg, h.environment⟩

theorem Inside.trans {c₁ c₂ c₃ : Context} (h₁ : Inside c₁ c₂) (h₂ : Inside c₂ c₃) :
    Inside c₁ c₃ :=
  ⟨h₂.unit.trans h₁.unit, h₂.outer.trans h₁.outer, h₂.exits.trans h₁.exits,
    h₂.vararg.trans h₁.vararg, h₂.environment.trans h₁.environment⟩

theorem inside_declares (c : Context) (symbols : List Local) : Inside c (c.declares symbols) := by
  refine ⟨rfl, ?_, rfl, rfl, rfl⟩
  unfold declares Scopes.modifyInnermost
  split <;> simp_all

/-- The context in a new scope. -/
def opened (c : Context) (boundary : Bool) : Context :=
  { c with scopes := c.scopes.push boundary }

/-- The context in a new function. -/
def entered (c : Context) (vararg : Bool) : Context :=
  { c with exits := [], vararg, scopes := c.scopes.push true }

/-- An innermost scope that has no labels yet, inside of which nothing else was opened. -/
structure Opens (env : Env) (c : Context) : Prop where
  labels : ∃ f outer, c.scopes.frames = f :: outer ∧ f.labels = []
  env : c.env = env.inBlock []

theorem opens_opened (c : Context) : (c.opened false).Opens c.env :=
  ⟨⟨_, _, rfl, rfl⟩, rfl⟩

theorem opens_entered (c : Context) (vararg : Bool) :
    (c.entered vararg).Opens (c.env.inFunction vararg) :=
  ⟨⟨_, _, rfl, rfl⟩, rfl⟩

theorem Opens.declares {env : Env} {c : Context} (h : c.Opens env) (symbols : List Local) :
    (c.declares symbols).Opens (env.declares symbols) := by
  obtain ⟨⟨f, outer, hframes, hlabels⟩, henv⟩ := h
  refine ⟨⟨{ f with symbols := symbols.reverse ++ f.symbols }, outer, ?_, hlabels⟩, ?_⟩
  · simp [Context.declares, Scopes.modifyInnermost, hframes]
  · rw [env_declares (by simp [hframes]), henv]
    rfl

theorem Opens.steady {env : Env} {c c' : Context} (h : c.Opens env) (hs : c.Steady c') :
    c'.Opens env :=
  ⟨hs.scopes ▸ h.labels, hs.env_eq.trans h.env⟩

end Context

section

variable {α β : Type} {c : Context} {Q : α → β → Prop}

theorem Sim.inScope {body : Resolve α} {r : Numbered β} {boundary : Bool}
    (h : Sim (c.opened boundary) body r fun a c' b => Q a b ∧ (c.opened boundary).Inside c') :
    Sim c (Resolve.inScope boundary body) r fun a c' b => Q a b ∧ c.Steady c' := by
  obtain ⟨hsupply, hq, hinside⟩ := h
  refine ⟨hsupply, hq, hinside.unit, ?_, hinside.exits, hinside.vararg, hinside.environment⟩
  exact congrArg Scopes.mk hinside.outer

theorem Sim.inLoop {body : Label → Resolve α} {l : Label → Numbered β}
    (h : ∀ exit c', Context.Steady { c with exits := exit :: c.exits } c' →
      Sim c' (body exit) (l exit) fun a c'' b => Q a b ∧ c'.Steady c'') :
    Sim c (Resolve.inLoop body) (Lexical.newExit c.unit >>= l) fun a c' b => Q a b ∧ c.Steady c' := by
  obtain ⟨hsupply, hq, hsteady⟩ := h ⟨.declared c.unit c.next, s!"break#{c.loops + 1}"⟩
    { c with
      next := c.next + 1
      loops := c.loops + 1
      exits := ⟨.declared c.unit c.next, s!"break#{c.loops + 1}"⟩ :: c.exits }
    ⟨rfl, rfl, rfl, rfl, rfl⟩
  refine ⟨hsupply, hq, hsteady.unit, hsteady.scopes, ?_, hsteady.vararg, hsteady.environment⟩
  exact congrArg List.tail hsteady.exits

theorem Sim.inFunction {body : Resolve α} {r : Numbered β} {vararg : Bool}
    (h : Sim (c.entered vararg) body r fun a c' b => Q a b ∧ (c.entered vararg).Inside c') :
    Sim c (Resolve.inFunction vararg body) r fun a c' b => Q a b ∧ c.Steady c' := by
  obtain ⟨hsupply, hq, hinside⟩ := h
  refine ⟨hsupply, hq, hinside.unit, ?_, rfl, rfl, hinside.environment⟩
  exact congrArg Scopes.mk hinside.outer

end

/-- Declaring the labels of a block makes them visible in it. -/
theorem declareLabels_agrees {env : Env} {c : Context} (h : c.Opens env)
    {ss : List Syntax.Statement}
    (hincreasing : (Syntax.labelNames ss).Pairwise (·.span.start < ·.span.start)) :
    Sim c (Resolve.declareLabels ss) (Lexical.reserve (Syntax.labelNames ss).length)
      fun _ c' first => c'.Stands first (Syntax.labelNames ss) ∧
        c'.env = env.inBlock (Lexical.labelsFrom env.unit first (Syntax.labelNames ss)) ∧
        c.Inside c' := by
  obtain ⟨⟨f, outer, hframes, hlabels⟩, henv⟩ := h
  obtain ⟨journal, hrun⟩ := declareLabels_run ss hframes
  rw [hlabels, List.nil_append] at hrun
  rw [Sim, hrun]
  refine ⟨rfl, ⟨_, outer, c.next, [], rfl, rfl, rfl, hincreasing⟩, ?_, rfl, ?_, rfl, rfl, rfl⟩
  · have hunit : env.unit = c.unit := congrArg Env.unit henv.symm
    rw [hunit, ← label_placedFrom]
    simp only [Context.env, Env.inBlock, hframes, Scopes.labelFrames, Scopes.upToBoundary,
      List.flatMap_cons, Env.mk.injEq] at henv ⊢
    obtain ⟨_, henvironment, hlocals, hblocks, hexit, hvararg⟩ := henv
    refine ⟨hunit.symm, henvironment, hlocals, ?_, hexit, hvararg⟩
    cases hb : f.boundary with
    | true =>
      simp only [hb, if_true, List.map_cons, List.map_nil, List.cons.injEq] at hblocks ⊢
      exact ⟨rfl, hblocks.2⟩
    | false =>
      simp only [hb, Bool.false_eq_true, if_false, List.map_cons, List.cons.injEq] at hblocks ⊢
      exact ⟨rfl, hblocks.2⟩
  · rw [hframes]
    rfl

/-- What resolving a statement leaves: the same statement, and the variables it declares. -/
def Declaring (c : Context) (a : Statement) (c' : Context) (r : Statement × Env) : Prop :=
  a = r.1 ∧ ∃ symbols, (c.declares symbols).Steady c' ∧ r.2 = c.env.declares symbols

theorem Context.Steady.declaring {c c' : Context} (h : c.Steady c') (a : Statement) :
    Declaring c a c' (a, c.env) :=
  ⟨rfl, [], c.declares_nil.symm ▸ h, rfl⟩

/-- A statement that declares nothing. -/
theorem Agrees.declaring {c : Context} {m : Resolve Statement} {a : Statement}
    (h : Agrees c m (return a)) : Sim c m (return (a, c.env)) (Declaring c) := by
  obtain ⟨hsupply, hab, hsteady⟩ := h
  refine ⟨hsupply, ?_⟩
  rw [show (m.run c).1 = a from hab]
  exact hsteady.declaring a

/-- A block is resolved alike in a scope that was opened for it. -/
def BlockAgrees (b : Syntax.Block) : Prop :=
  ∀ (env : Env) (c : Context), c.Opens env →
    Sim c (Resolve.statements b) (Lexical.block env b) fun a c' r =>
      a = r.1 ∧ c'.env = r.2 ∧ c.Inside c'

theorem BlockAgrees.inScope {b : Syntax.Block} (h : BlockAgrees b) {env : Env} {c : Context}
    (henv : c.env = env) :
    Sim c (Resolve.inScope false (Resolve.statements b)) (Lexical.block env b) fun a c' r =>
      a = r.1 ∧ c.Steady c' :=
  Sim.inScope ((h _ _ (henv ▸ c.opens_opened)).imp fun _ _ _ hb => ⟨hb.1, hb.2.2⟩)

/-! ## Programs -/

open Syntax (Node)

mutual

theorem expression_agrees (e : Syntax.Expression) (ht : (Node.expression e).Tidy) {env : Env}
    {c : Context} (henv : c.env = env) :
    Agrees c (Resolve.expression e) (Lexical.expression env e) := by
  rw [Node.tidy_expression] at ht
  cases e with
  | literal value span => exact .pure _
  | vararg span =>
    rw [Resolve.expression, Lexical.expression]
    refine Agrees.get ?_
    rw [← henv, show c.env.vararg = c.vararg from rfl]
    cases c.vararg with
    | true => exact .pure _
    | false => exact .report fun c₁ _ => .pure _
  | function body span =>
    rw [Resolve.expression, Lexical.expression]
    exact functionBody_agrees false body (ht _ (by simp [Syntax.Expression.parts])) henv
  | table fields span =>
    rw [Resolve.expression, Lexical.expression]
    exact (tableFields_agrees 0 fields (fun f hf => ht _ (by simp [Syntax.Expression.parts, hf]))
      henv).bind fun _ _ _ => .pure _
  | unary op operand span =>
    rw [Resolve.expression, Lexical.expression]
    exact (expression_agrees operand (ht _ (by simp [Syntax.Expression.parts])) henv).bind
      fun _ _ _ => .pure _
  | binary left op right span =>
    rw [Resolve.expression, Lexical.expression]
    refine (expression_agrees left (ht _ (by simp [Syntax.Expression.parts])) henv).bind
      fun _ c₁ h₁ => ?_
    exact (expression_agrees right (ht _ (by simp [Syntax.Expression.parts]))
      (h₁.env_eq.trans henv)).bind fun _ _ _ => .pure _
  | parenthesized inner span =>
    rw [Resolve.expression, Lexical.expression]
    exact (expression_agrees inner (ht _ (by simp [Syntax.Expression.parts])) henv).bind
      fun _ _ _ => .pure _
  | call receiver method arguments span =>
    rw [Resolve.expression, Lexical.expression]
    refine (expression_agrees receiver (ht _ (by simp [Syntax.Expression.parts])) henv).bind
      fun _ c₁ h₁ => ?_
    exact (expressions_agrees arguments (fun e he => ht _ (by simp [Syntax.Expression.parts, he]))
      (h₁.env_eq.trans henv)).bind fun _ _ _ => .pure _
  | name n =>
    rw [Resolve.expression, Lexical.expression, ← henv]
    exact name_agrees c n
  | index target index span =>
    rw [Resolve.expression, Lexical.expression]
    refine (expression_agrees target (ht _ (by simp [Syntax.Expression.parts])) henv).bind
      fun _ c₁ h₁ => ?_
    exact (expression_agrees index (ht _ (by simp [Syntax.Expression.parts]))
      (h₁.env_eq.trans henv)).bind fun _ _ _ => .pure _
  | dotted target key span =>
    rw [Resolve.expression, Lexical.expression]
    exact (expression_agrees target (ht _ (by simp [Syntax.Expression.parts])) henv).bind
      fun _ _ _ => .pure _

theorem expressions_agrees (es : List Syntax.Expression) (ht : ∀ e ∈ es, (Node.expression e).Tidy)
    {env : Env} {c : Context} (henv : c.env = env) :
    Agrees c (Resolve.expressions es) (Lexical.expressions env es) := by
  cases es with
  | nil => exact .pure []
  | cons e later =>
    rw [Resolve.expressions, Lexical.expressions]
    refine (expression_agrees e (ht e (by simp)) henv).bind fun e c₁ h₁ => ?_
    refine (expressions_agrees later (fun e he => ht e (by simp [he])) (h₁.env_eq.trans henv)).bind
      fun es c₂ _ => .pure _

theorem targets_agrees (es : List Syntax.Expression) (ht : ∀ e ∈ es, (Node.expression e).Tidy)
    {env : Env} {c : Context} (henv : c.env = env) :
    Agrees c (Resolve.targets es) (Lexical.expressions env es) := by
  cases es with
  | nil => exact .pure []
  | cons e later =>
    have hlater (c₁ : Context) (h₁ : c.Steady c₁) :=
      targets_agrees later (fun e he => ht e (by simp [he])) (h₁.env_eq.trans henv)
    have hfirst := expression_agrees e (ht e (by simp)) henv
    rw [Lexical.expressions]
    cases e with
    | name n =>
      rw [Resolve.targets, Lexical.expression, ← henv]
      refine (targetName_agrees c n).bind fun _ c₁ h₁ => ?_
      exact henv ▸ (hlater c₁ h₁).bind fun _ _ _ => .pure _
    | _ => exact hfirst.bind fun _ c₁ h₁ => (hlater c₁ h₁).bind fun _ _ _ => .pure _

theorem tableFields_agrees (position : Nat) (fields : List Syntax.Field)
    (ht : ∀ f ∈ fields, (Node.field f).Tidy) {env : Env} {c : Context} (henv : c.env = env) :
    Agrees c (Resolve.tableFields position fields) (Lexical.tableFields env position fields) := by
  cases fields with
  | nil => exact .pure []
  | cons f later =>
    have hf := Node.tidy_field.1 (ht f (by simp))
    have hlater (position : Nat) (c₁ : Context) (h₁ : c.Steady c₁) :=
      tableFields_agrees position later (fun f hf => ht f (by simp [hf])) (h₁.env_eq.trans henv)
    cases f with
    | positional value span =>
      rw [Resolve.tableFields, Lexical.tableFields]
      refine (expression_agrees value (hf _ (by simp [Syntax.Field.parts])) henv).bind
        fun _ c₁ h₁ => ?_
      exact (hlater _ c₁ h₁).bind fun _ _ _ => .pure _
    | named key value span =>
      rw [Resolve.tableFields, Lexical.tableFields]
      refine (expression_agrees value (hf _ (by simp [Syntax.Field.parts])) henv).bind
        fun _ c₁ h₁ => ?_
      exact (hlater _ c₁ h₁).bind fun _ _ _ => .pure _
    | keyed key value span =>
      rw [Resolve.tableFields, Lexical.tableFields]
      refine (expression_agrees key (hf _ (by simp [Syntax.Field.parts])) henv).bind
        fun _ c₁ h₁ => ?_
      refine (expression_agrees value (hf _ (by simp [Syntax.Field.parts]))
        (h₁.env_eq.trans henv)).bind fun _ c₂ h₂ => ?_
      exact (hlater _ c₂ (h₁.trans h₂)).bind fun _ _ _ => .pure _

theorem functionBody_agrees (method : Bool) (f : Syntax.FunctionBody)
    (ht : (Node.functionBody f).Tidy) {env : Env} {c : Context} (henv : c.env = env) :
    Agrees c (Resolve.functionBody method f) (Lexical.functionBody env method f) := by
  obtain ⟨parameters, vararg, b, span⟩ := f
  rw [Node.tidy_functionBody] at ht
  rw [Resolve.functionBody, Lexical.functionBody]
  refine Sim.inFunction ?_
  have hbody (symbols : List Local) (c₁ : Context)
      (h₁ : ((c.entered vararg).declares symbols).Steady c₁) :
      Sim c₁ (return Expression.function symbols vararg (← Resolve.statements b))
        (do
          let body ← Lexical.block ((env.inFunction vararg).declares symbols) b
          return Expression.function symbols vararg body.1)
        fun a c' e => a = e ∧ (c.entered vararg).Inside c' := by
    have hopens := ((henv ▸ c.opens_entered vararg).declares symbols).steady h₁
    refine (block_agrees b ht _ _ hopens).bind ?_
    rintro _ c₂ body ⟨rfl, _, h₂⟩
    refine Sim.pure ⟨rfl, ?_⟩
    exact ((Context.inside_declares _ symbols).trans h₁.inside).trans h₂
  have hunit : env.unit = (c.entered vararg).unit := henv ▸ rfl
  rw [hunit]
  cases method with
  | false =>
    simp only [Bool.false_eq_true, if_false, List.nil_append, pure_bind]
    refine (declareAll_agrees (c.entered vararg) parameters).bind ?_
    rintro symbols c₁ _ ⟨rfl, h₁⟩
    exact hbody symbols c₁ h₁
  | true =>
    simp only [if_true, List.cons_append, List.nil_append, Lexical.declareAll, bind_assoc, pure_bind]
    refine (declare_agrees (c.entered vararg) "self").bind ?_
    rintro _ c₁ id ⟨rfl, h₁⟩
    rw [← show c₁.unit = (c.entered vararg).unit from h₁.unit]
    refine (declareAll_agrees c₁ parameters).bind ?_
    rintro symbols c₂ _ ⟨rfl, h₂⟩
    refine hbody (_ :: symbols) c₂ ?_
    have h := (h₁.declares symbols).trans h₂
    rw [Context.declares_append] at h
    exact h

theorem block_agrees (b : Syntax.Block) (ht : (Node.block b).Tidy) : BlockAgrees b := by
  intro env c h
  obtain ⟨body, result, span⟩ := b
  obtain ⟨hlabelled, hparts⟩ := Node.tidy_iff.1 ht
  rw [Resolve.statements, Lexical.block]
  refine (declareLabels_agrees h hlabelled.increasing).bind ?_
  rintro _ c₁ first ⟨hstands, henv₁, h₁⟩
  rw [← henv₁]
  have hbody := statements_agrees body (fun s hs => hparts _ (by simp [Node.children,
    Syntax.Block.parts, hs])) hstands
  refine hbody.bind ?_
  rintro _ c₂ r ⟨rfl, henv₂, h₂⟩
  cases result with
  | none => exact Sim.pure ⟨rfl, henv₂, h₁.trans h₂⟩
  | some x =>
    obtain ⟨values, span⟩ := x
    have hx := Node.tidy_result.1 (hparts (.result ⟨values, span⟩) (by simp [Node.children,
      Syntax.Block.parts]))
    refine Sim.bind (expressions_agrees values hx henv₂) ?_
    rintro values c₃ _ ⟨rfl, h₃⟩
    exact Sim.pure ⟨rfl, h₃.env_eq.trans henv₂, (h₁.trans h₂).trans h₃.inside⟩

theorem statements_agrees (ss : List Syntax.Statement)
    (ht : ∀ s ∈ ss, (Node.statement s).Tidy) {number : Nat} {c : Context}
    (h : c.Stands number (Syntax.labelNames ss)) :
    Sim c (Resolve.statementList ss) (Lexical.statements c.env number ss) fun a c' r =>
      a = r.1 ∧ c'.env = r.2 ∧ c.Inside c' := by
  cases ss with
  | nil => exact Sim.pure ⟨rfl, rfl, (Context.Steady.refl c).inside⟩
  | cons s later =>
    rw [show s :: later = [s] ++ later from rfl, Syntax.labelNames_append] at h
    rw [Resolve.statementList, Lexical.statements]
    refine (statement_agrees s (ht s (by simp)) h).bind ?_
    rintro _ c₁ r ⟨rfl, symbols, h₁, henv⟩
    have henv₁ : c₁.env = r.2 := by
      rw [h₁.env_eq, Context.env_declares h.frames_ne_nil, henv]
    rw [← henv₁]
    refine (statements_agrees later (fun s hs => ht s (by simp [hs]))
      ((h.declares symbols).steady h₁).drop).bind ?_
    rintro _ c₂ r' ⟨rfl, henv₂, h₂⟩
    exact Sim.pure ⟨rfl, henv₂, ((c.inside_declares symbols).trans h₁.inside).trans h₂⟩

theorem elseIfs_agrees (es : List Syntax.ElseIf) (ht : ∀ e ∈ es, (Node.elseIf e).Tidy) {env : Env}
    {c : Context} (henv : c.env = env) :
    Agrees c (Resolve.elseIfs es) (Lexical.elseIfs env es) := by
  cases es with
  | nil => exact .pure []
  | cons e later =>
    obtain ⟨condition, b, span⟩ := e
    obtain ⟨hcondition, hb⟩ := Node.tidy_elseIf.1 (ht ⟨condition, b, span⟩ (by simp))
    rw [Resolve.elseIfs, Lexical.elseIfs]
    refine (expression_agrees condition hcondition henv).bind fun _ c₁ h₁ => ?_
    refine ((block_agrees b hb).inScope (h₁.env_eq.trans henv)).bind ?_
    rintro _ c₂ r ⟨rfl, h₂⟩
    have h := h₁.trans h₂
    have hlater := elseIfs_agrees later (fun e he => ht e (by simp [he])) (h.env_eq.trans henv)
    refine (hlater.bind fun _ _ _ => .pure _).imp ?_
    rintro a c' b ⟨hab, h₃⟩
    exact ⟨hab, h₂.trans h₃⟩

theorem statement_agrees (s : Syntax.Statement) (ht : (Node.statement s).Tidy) {number : Nat}
    {later : List Syntax.Name} {c : Context}
    (h : c.Stands number (Syntax.labelNames [s] ++ later)) :
    Sim c (Resolve.statement s) (Lexical.statement c.env number s) (Declaring c) := by
  rw [Node.tidy_statement] at ht
  cases s with
  | assign ts vs span =>
    rw [Resolve.statement, Lexical.statement]
    refine Sim.bind (targets_agrees ts (fun e he => ht _ (by simp [Syntax.Statement.parts, he]))
      rfl) ?_
    rintro ts c₁ _ ⟨rfl, h₁⟩
    refine Sim.bind (expressions_agrees vs (fun e he => ht _ (by simp [Syntax.Statement.parts, he]))
      h₁.env_eq) ?_
    rintro vs c₂ _ ⟨rfl, h₂⟩
    exact Sim.pure ((h₁.trans h₂).declaring _)
  | declare ds vs span =>
    rw [Resolve.statement, Lexical.statement]
    refine Sim.bind (expressions_agrees vs (fun e he => ht _ (by simp [Syntax.Statement.parts, he]))
      rfl) ?_
    rintro vs c₁ _ ⟨rfl, h₁⟩
    rw [show c.env.unit = c₁.unit from h₁.unit.symm]
    refine Sim.bind (declaredSymbols_agrees c₁ false ds) ?_
    rintro symbols c₂ _ ⟨rfl, h₂⟩
    refine Sim.bind_left (declareVariables_run c₂ symbols) rfl (Sim.pure ⟨rfl, symbols, ?_, rfl⟩)
    exact (h₁.trans h₂).declares symbols
  | call e span =>
    rw [Resolve.statement, Lexical.statement]
    refine Sim.bind (expression_agrees e (ht _ (by simp [Syntax.Statement.parts])) rfl) ?_
    rintro e c₁ _ ⟨rfl, h₁⟩
    exact Sim.pure (h₁.declaring _)
  | ifThen condition b es o span =>
    rw [Resolve.statement, Lexical.statement]
    refine Sim.bind (expression_agrees condition (ht _ (by simp [Syntax.Statement.parts])) rfl) ?_
    rintro condition c₁ _ ⟨rfl, h₁⟩
    refine ((block_agrees b (ht _ (by simp [Syntax.Statement.parts]))).inScope h₁.env_eq).bind ?_
    rintro _ c₂ b ⟨rfl, h₂⟩
    have h₂ := h₁.trans h₂
    refine Sim.bind (elseIfs_agrees es (fun e he => ht _ (by simp [Syntax.Statement.parts, he]))
      h₂.env_eq) ?_
    rintro es c₃ _ ⟨rfl, h₃⟩
    have h₃ := h₂.trans h₃
    cases o with
    | none => exact Sim.pure (h₃.declaring _)
    | some o =>
      have ho := Node.tidy_otherwise.1 (ht (.otherwise o) (by simp [Syntax.Statement.parts]))
      refine ((block_agrees o ho).inScope h₃.env_eq).bind ?_
      rintro _ c₄ o ⟨rfl, h₄⟩
      exact Sim.pure ((h₃.trans h₄).declaring _)
  | whileDo condition b span =>
    rw [Resolve.statement, Lexical.statement]
    refine Sim.bind (expression_agrees condition (ht _ (by simp [Syntax.Statement.parts])) rfl) ?_
    rintro condition c₁ _ ⟨rfl, h₁⟩
    rw [show c.env.unit = c₁.unit from h₁.unit.symm]
    refine (Sim.inLoop (Q := fun a r => r = (a, c.env)) fun exit c₂ h₂ => ?_).imp ?_
    · have henv : c₂.env = c.env.inLoop exit := by
        rw [h₂.env_eq, ← h₁.env_eq]
        rfl
      refine ((block_agrees b (ht _ (by simp [Syntax.Statement.parts]))).inScope henv).bind ?_
      rintro _ c₃ b ⟨rfl, h₃⟩
      exact Sim.pure ⟨rfl, h₃⟩
    · rintro a c' _ ⟨rfl, h'⟩
      exact (h₁.trans h').declaring _
  | doBlock b span =>
    rw [Resolve.statement, Lexical.statement]
    refine ((block_agrees b (ht _ (by simp [Syntax.Statement.parts]))).inScope rfl).bind ?_
    rintro _ c₁ b ⟨rfl, h₁⟩
    exact Sim.pure (h₁.declaring _)
  | breakLoop span =>
    rw [Resolve.statement, Lexical.statement]
    exact (breakLoop_agrees c span).declaring
  | goto n span =>
    rw [Resolve.statement, Lexical.statement]
    exact (goto_agrees c n).declaring
  | label n span =>
    rw [Resolve.statement, Lexical.statement]
    refine (label_agrees h).declaring
  | function f body span =>
    rw [Resolve.statement, Lexical.statement]
    refine (functionTarget?_agrees c f).bind_left fun c₁ h₁ => ?_
    cases c.env.functionTarget? f with
    | none => exact Sim.pure (h₁.declaring _)
    | some target =>
      refine Sim.bind (functionBody_agrees f.method.isSome body
        (ht _ (by simp [Syntax.Statement.parts])) h₁.env_eq) ?_
      rintro e c₂ _ ⟨rfl, h₂⟩
      exact Sim.pure ((h₁.trans h₂).declaring _)
  | repeatUntil b condition span =>
    rw [Resolve.statement, Lexical.statement]
    refine (Sim.inLoop (Q := fun a r => r = (a, c.env)) fun exit c₁ h₁ => Sim.inScope ?_).imp ?_
    · have henv : c₁.env = c.env.inLoop exit := h₁.env_eq
      refine (block_agrees b (ht _ (by simp [Syntax.Statement.parts])) _ _
        (henv ▸ c₁.opens_opened)).bind ?_
      rintro _ c₂ b ⟨rfl, henv₂, h₂⟩
      refine Sim.bind (expression_agrees condition (ht _ (by simp [Syntax.Statement.parts]))
        henv₂) ?_
      rintro condition c₃ _ ⟨rfl, h₃⟩
      exact Sim.pure ⟨rfl, h₂.trans h₃.inside⟩
    · rintro a c' _ ⟨rfl, h'⟩
      exact h'.declaring _
  | numericFor n initial limit step b span =>
    rw [Resolve.statement, Lexical.statement]
    refine Sim.bind (expression_agrees initial (ht _ (by simp [Syntax.Statement.parts])) rfl) ?_
    rintro initial c₁ _ ⟨rfl, h₁⟩
    refine Sim.bind (expression_agrees limit (ht _ (by simp [Syntax.Statement.parts]))
      h₁.env_eq) ?_
    rintro limit c₂ _ ⟨rfl, h₂⟩
    have h₂ := h₁.trans h₂
    have hloop (step : Expression) (c₃ : Context) (h₃ : c.Steady c₃) :
        Sim c₃
          (Resolve.inLoop fun exit => Resolve.inScope false do
            let counter ← Resolve.declare n.text
            return Statement.numericFor counter initial limit step (← Resolve.statements b) exit)
          (do
            let exit ← Lexical.newExit c.env.unit
            let id ← Lexical.fresh c.env.unit
            let b ← Lexical.block ((c.env.inLoop exit).declares [Local.plain id n.text]) b
            return (.numericFor (Local.plain id n.text) initial limit step b.1 exit, c.env))
          (Declaring c) := by
      rw [show c.env.unit = c₃.unit from h₃.unit.symm]
      refine (Sim.inLoop (Q := fun a r => r = (a, c.env)) fun exit c₄ h₄ => Sim.inScope ?_).imp ?_
      · have hopens : (c₄.opened false).Opens (c.env.inLoop exit) := by
          have henv : c₄.env = c.env.inLoop exit := by
            rw [h₄.env_eq, ← h₃.env_eq]
            rfl
          exact henv ▸ c₄.opens_opened
        rw [show c₃.unit = (c₄.opened false).unit from h₄.unit.symm]
        refine (declare_agrees (c₄.opened false) n.text).bind ?_
        rintro _ c₅ id ⟨rfl, h₅⟩
        refine (block_agrees b (ht _ (by simp [Syntax.Statement.parts])) _ _
          ((hopens.declares _).steady h₅)).bind ?_
        rintro _ c₆ b ⟨rfl, _, h₆⟩
        exact Sim.pure ⟨rfl, ((Context.inside_declares _ _).trans h₅.inside).trans h₆⟩
      · rintro a c' _ ⟨rfl, h'⟩
        exact (h₃.trans h').declaring _
    cases step with
    | none => exact hloop _ c₂ h₂
    | some step =>
      refine Sim.bind (expression_agrees step (ht _ (by simp [Syntax.Statement.parts]))
        h₂.env_eq) ?_
      rintro step c₃ _ ⟨rfl, h₃⟩
      exact hloop step c₃ (h₂.trans h₃)
  | genericFor ns vs b span =>
    rw [Resolve.statement, Lexical.statement]
    refine Sim.bind (expressions_agrees vs (fun e he => ht _ (by simp [Syntax.Statement.parts, he]))
      rfl) ?_
    rintro vs c₁ _ ⟨rfl, h₁⟩
    rw [show c.env.unit = c₁.unit from h₁.unit.symm]
    refine (Sim.inLoop (Q := fun a r => r = (a, c.env)) fun exit c₂ h₂ => Sim.inScope ?_).imp ?_
    · have hopens : (c₂.opened false).Opens (c.env.inLoop exit) := by
        have henv : c₂.env = c.env.inLoop exit := by
          rw [h₂.env_eq, ← h₁.env_eq]
          rfl
        exact henv ▸ c₂.opens_opened
      rw [show c₁.unit = (c₂.opened false).unit from h₂.unit.symm]
      refine (declareAll_agrees (c₂.opened false) ns).bind ?_
      rintro symbols c₃ _ ⟨rfl, h₃⟩
      refine (block_agrees b (ht _ (by simp [Syntax.Statement.parts])) _ _
        ((hopens.declares symbols).steady h₃)).bind ?_
      rintro _ c₄ b ⟨rfl, _, h₄⟩
      exact Sim.pure ⟨rfl, ((Context.inside_declares _ symbols).trans h₃.inside).trans h₄⟩
    · rintro a c' _ ⟨rfl, h'⟩
      exact (h₁.trans h').declaring _
  | localFunction n body span =>
    rw [Resolve.statement, Lexical.statement]
    refine (declare_agrees c n.text).bind ?_
    rintro _ c₁ id ⟨rfl, h₁⟩
    have henv : c₁.env = c.env.declares [Local.plain id n.text] :=
      h₁.env_eq.trans (Context.env_declares h.frames_ne_nil _)
    refine Sim.bind (functionBody_agrees false body (ht _ (by simp [Syntax.Statement.parts]))
      henv) ?_
    rintro f c₂ _ ⟨rfl, h₂⟩
    exact Sim.pure ⟨rfl, _, h₁.trans h₂, rfl⟩

end

/-- A program whose labels stand one behind the other is resolved as static scoping says. -/
theorem Resolve.program_eq {b : Syntax.Block} (ht : (Node.block b).Tidy) (unit : Nat) :
    ((Resolve.program b).run (.ofUnit unit)).1 = Lexical.program unit b := by
  have hopens : (((Context.ofUnit unit).opened true).declares
      [(Context.ofUnit unit).environment]).Opens (.ofUnit unit) :=
    ⟨⟨_, _, rfl, rfl⟩, rfl⟩
  exact (block_agrees b ht _ _ hopens).2.1

end Resolved
end LuaFront
