import LuaFront.Proofs.Resolved.Labels
import LuaFront.Proofs.Resolved.Renaming
import Mathlib.Algebra.Group.Action.Defs

/-!
# LuaFront.Proofs.Resolved.Run

Running resolved programs, structured or flat, over a store and an evaluator of conditions and of
simple statements that may be any.

* `Outcome`: a statement ends, jumps or returns. A jump is caught by the nearest list of statements
  around it that has its target, and goes on behind it there.
* `Loop`: all four kinds of loops, unrolled. What a `for` loop has to remember is in variables of
  its own, which `Hidden` names.
* `Run n task`: a run of height at most `n`, which evaluates conditions and performs simple
  statements as the list of `Seen` says.
-/

namespace LuaFront
namespace Resolved

/-! ## Actions -/

/-- A statement that is performed as a whole and goes on with the next. -/
def Statement.isSimple : Statement → Bool
  | .expression _ | .assign .. | .declare .. => true
  | _ => false

/-- What running a program asks of an evaluator: the truth of a condition, or the effect of a
simple statement. -/
inductive Action where
  | test (condition : Expression) (truth : Bool)
  | perform (s : Statement)

namespace Action

/-- Whether a run can ask for an action: statements are performed only if they are simple, or
return. -/
def isAtomic : Action → Bool
  | .test .. => true
  | .perform (.result _) => true
  | .perform s => s.isSimple

/-- The action with functions in it flattened, where `n` symbols have been made up before. -/
def lowered (n : Nat) : Action → Action
  | .test c truth => .test ((Flatten.expression c).run n).1 truth
  | .perform s => .perform (((Flatten.statement s).run n).1.headD s)

def rename (π : Local → Local) : Action → Action
  | .test c truth => .test (Rename.expression π c) truth
  | .perform s => .perform (Rename.statement π s)

/-- Two actions that differ in the form of functions or in symbols that are made up. -/
inductive Alike : Action → Action → Prop where
  | lowered (a : Action) (n : Nat) : a.isAtomic → Alike a (a.lowered n)
  | renamed (a : Action) (π : Equiv.Perm Local) : KeepsDeclared π → Alike a (a.rename π)

end Action

/-- An action, without regard to symbols that are made up and to the form of functions in it. -/
def Seen : Type := Quot Action.Alike

def seen (a : Action) : Seen := Quot.mk _ a

/-- How actions change a store: any relation whatever. -/
abbrev Evaluator (S : Type) := Action → S → S → Prop

/-- An evaluator that cannot tell an expression from its flat form, nor one symbol that is made up
from another. -/
structure Evaluator.Blind {S : Type} [MulAction (Equiv.Perm Local) S] (act : Evaluator S) :
    Prop where
  lowered : ∀ a : Action, a.isAtomic → ∀ n s t, act (a.lowered n) s t ↔ act a s t
  renamed : ∀ (π : Equiv.Perm Local), KeepsDeclared π →
    ∀ a s t, act (a.rename π) (π • s) (π • t) ↔ act a s t

/-! ## Loops -/

/-- What a `for` loop has to remember. -/
inductive Role where
  | limit
  | step
  | iterator
  | state
  | control
deriving DecidableEq

/-- The variables of a loop that no program can name, where a loop is known by its end. -/
abbrev Hidden := Label → Role → Local

/-- A loop, unrolled. -/
structure Loop where
  /-- Done once. -/
  setup : List Statement := []
  /-- Done at the start of each turn. -/
  start : List Statement := []
  /-- The loop is left unless this condition is as wanted. -/
  guard : Option (Expression × Bool) := none
  /-- Done behind the condition. -/
  early : List Statement := []
  body : List Statement
  /-- Done behind the body. -/
  late : List Statement := []
  /-- The loop is left if this holds at the end of a turn. -/
  stopWhen : Option Expression := none
  exit : Label

/-- `step > 0 and counter <= limit or step <= 0 and counter >= limit`. -/
def Loop.within (counter limit step : Local) : Expression :=
  .binary
    (.binary (.binary (.name step) .greaterThan (.integer 0)) .logicalAnd
      (.binary (.name counter) .lessThanOrEqual (.name limit)))
    .logicalOr
    (.binary (.binary (.name step) .lessThanOrEqual (.integer 0)) .logicalAnd
      (.binary (.name counter) .greaterThanOrEqual (.name limit)))

def Statement.loop? (hidden : Hidden) : Statement → Option Loop
  | .whileDo c b exit => some { guard := some (c, true), body := b, exit }
  | .repeatUntil b c exit => some { body := b, stopWhen := some c, exit }
  | .numericFor counter initial limit step b exit =>
    let limit' := hidden exit .limit
    let step' := hidden exit .step
    some
      { setup := [.declare [counter, limit', step'] [initial, limit, step]]
        guard := some (Loop.within counter limit' step', true)
        body := b
        late := [.assign [.name counter] [.binary (.name counter) .add (.name step')]]
        exit }
  | .genericFor symbols values b exit =>
    let iterator := hidden exit .iterator
    let state := hidden exit .state
    let control := hidden exit .control
    let call : Expression := .call (.name iterator) none [.name state, .name control]
    let setup : List Statement := [.declare [iterator, state, control] values]
    match symbols with
    | [] => some { setup, start := [.expression call], body := b, exit }
    | first :: _ =>
      some
        { setup
          start := [.declare symbols [call]]
          guard := some (.binary (.name first) .equal .nil, false)
          early := [.assign [.name control] [.name first]]
          body := b
          exit }
  | _ => none

/-! ## Runs -/

inductive Outcome where
  | fall
  | jump (l : Label)
  | returned

/-- How a loop ends whose body was left so. -/
def Loop.out (loop : Loop) : Outcome → Outcome
  | .jump l => if l = loop.exit then .fall else .jump l
  | o => o

/-- The statements behind a label. -/
def Block.after (l : Label) : List Statement → List Statement
  | [] => []
  | .label l' :: later => if l' = l then later else after l later
  | _ :: later => after l later

inductive Task where
  | statement (s : Statement)
  /-- The remaining statements of a list. -/
  | list (b rest : List Statement)
  /-- What a list makes of the outcome of one of its statements, with those that remain. -/
  | resume (b rest : List Statement) (o : Outcome)
  | choose (branches : List Branch) (otherwise : Option (List Statement))
  /-- The turns of a loop that is set up. -/
  | turns (loop : Loop)

section

variable {S : Type} (act : Evaluator S)

/-- Simple statements, one behind the other. -/
inductive Performs : List Statement → S → List Seen → S → Prop where
  | nil {s : S} : Performs [] s [] s
  | cons {x : Statement} {later : List Statement} {s u t : S} {κ : List Seen} :
    act (.perform x) s u → Performs later u κ t →
      Performs (x :: later) s (seen (.perform x) :: κ) t

/-- A condition that is as wanted, if there is one. -/
inductive Passes : Option (Expression × Bool) → S → List Seen → S → Prop where
  | free {s : S} : Passes none s [] s
  | test {c : Expression} {wanted : Bool} {s t : S} :
    act (.test c wanted) s t → Passes (some (c, wanted)) s [seen (.test c wanted)] t

/-- A condition that is not as wanted. -/
inductive Fails : Option (Expression × Bool) → S → List Seen → S → Prop where
  | test {c : Expression} {wanted : Bool} {s t : S} :
    act (.test c !wanted) s t → Fails (some (c, wanted)) s [seen (.test c !wanted)] t

/-- The end of a turn, and whether there is one more. -/
inductive Ends : Option Expression → S → List Seen → Bool → S → Prop where
  | free {s : S} : Ends none s [] true s
  | test {c : Expression} {truth : Bool} {s t : S} :
    act (.test c truth) s t → Ends (some c) s [seen (.test c truth)] (!truth) t

/-- Everything of a turn before the body. -/
inductive Loop.Begins (loop : Loop) : S → List Seen → S → Prop where
  | mk {s u v t : S} {κ₁ κ₂ κ₃ : List Seen} : Performs act loop.start s κ₁ u →
    Passes act loop.guard u κ₂ v → Performs act loop.early v κ₃ t →
      loop.Begins s (κ₁ ++ κ₂ ++ κ₃) t

variable (hidden : Hidden)

/-- Running a task from a store gives a sequence of actions, an outcome and a store. -/
inductive Run : Nat → Task → S → List Seen → Outcome → S → Prop where
  | simple {n : Nat} {x : Statement} {s t : S} : x.isSimple → act (.perform x) s t →
    Run n (.statement x) s [seen (.perform x)] .fall t
  | result {n : Nat} {values : List Expression} {s t : S} : act (.perform (.result values)) s t →
    Run n (.statement (.result values)) s [seen (.perform (.result values))] .returned t
  | goto {n : Nat} {l : Label} {s : S} : Run n (.statement (.goto l)) s [] (.jump l) s
  | gotoIf {n : Nat} {l : Label} {c : Expression} {wanted : Bool} {s t : S} :
    act (.test c wanted) s t →
      Run n (.statement (.gotoIf l c wanted)) s [seen (.test c wanted)] (.jump l) t
  | stay {n : Nat} {l : Label} {c : Expression} {wanted : Bool} {s t : S} :
    act (.test c !wanted) s t →
      Run n (.statement (.gotoIf l c wanted)) s [seen (.test c !wanted)] .fall t
  | label {n : Nat} {l : Label} {s : S} : Run n (.statement (.label l)) s [] .fall s
  | doBlock {n : Nat} {b : List Statement} {s t : S} {κ : List Seen} {o : Outcome} :
    Run n (.list b b) s κ o t → Run (n + 1) (.statement (.doBlock b)) s κ o t
  | ifThen {n : Nat} {c : Expression} {b : List Statement} {es : List Branch}
      {otherwise : Option (List Statement)} {s t : S} {κ : List Seen} {o : Outcome} :
    Run n (.choose (⟨c, b⟩ :: es) otherwise) s κ o t →
      Run (n + 1) (.statement (.ifThen c b es otherwise)) s κ o t
  | loop {n : Nat} {x : Statement} {loop : Loop} {s u t : S} {κ κ' : List Seen} {o : Outcome} :
    x.loop? hidden = some loop → Performs act loop.setup s κ u → Run n (.turns loop) u κ' o t →
      Run (n + 1) (.statement x) s (κ ++ κ') o t
  | nil {n : Nat} {b : List Statement} {s : S} : Run n (.list b []) s [] .fall s
  | cons {n : Nat} {b rest : List Statement} {x : Statement} {s u t : S} {κ κ' : List Seen}
      {o o' : Outcome} :
    Run n (.statement x) s κ o u → Run n (.resume b rest o) u κ' o' t →
      Run (n + 1) (.list b (x :: rest)) s (κ ++ κ') o' t
  | next {n : Nat} {b rest : List Statement} {s t : S} {κ : List Seen} {o : Outcome} :
    Run n (.list b rest) s κ o t → Run n (.resume b rest .fall) s κ o t
  | caught {n : Nat} {b rest : List Statement} {l : Label} {s t : S} {κ : List Seen}
      {o : Outcome} :
    l ∈ Block.heads b → Run n (.list b (Block.after l b)) s κ o t →
      Run n (.resume b rest (.jump l)) s κ o t
  | passed {n : Nat} {b rest : List Statement} {l : Label} {s : S} :
    l ∉ Block.heads b → Run n (.resume b rest (.jump l)) s [] (.jump l) s
  | returned {n : Nat} {b rest : List Statement} {s : S} :
    Run n (.resume b rest .returned) s [] .returned s
  | none {n : Nat} {s : S} : Run n (.choose [] none) s [] .fall s
  | otherwise {n : Nat} {b : List Statement} {s t : S} {κ : List Seen} {o : Outcome} :
    Run n (.list b b) s κ o t → Run (n + 1) (.choose [] (some b)) s κ o t
  | chosen {n : Nat} {c : Expression} {b : List Statement} {es : List Branch}
      {otherwise : Option (List Statement)} {s u t : S} {κ : List Seen} {o : Outcome} :
    act (.test c true) s u → Run n (.list b b) u κ o t →
      Run (n + 1) (.choose (⟨c, b⟩ :: es) otherwise) s (seen (.test c true) :: κ) o t
  | skipped {n : Nat} {c : Expression} {b : List Statement} {es : List Branch}
      {otherwise : Option (List Statement)} {s u t : S} {κ : List Seen} {o : Outcome} :
    act (.test c false) s u → Run n (.choose es otherwise) u κ o t →
      Run (n + 1) (.choose (⟨c, b⟩ :: es) otherwise) s (seen (.test c false) :: κ) o t
  | stop {n : Nat} {loop : Loop} {s u t : S} {κ κ' : List Seen} :
    Performs act loop.start s κ u → Fails act loop.guard u κ' t →
      Run n (.turns loop) s (κ ++ κ') .fall t
  | leave {n : Nat} {loop : Loop} {s u t : S} {κ κ' : List Seen} {o : Outcome} :
    loop.Begins act s κ u → Run n (.list loop.body loop.body) u κ' o t → o ≠ .fall →
      Run (n + 1) (.turns loop) s (κ ++ κ') (loop.out o) t
  | last {n : Nat} {loop : Loop} {s u v w t : S} {κ₁ κ₂ κ₃ κ₄ : List Seen} :
    loop.Begins act s κ₁ u → Run n (.list loop.body loop.body) u κ₂ .fall v →
      Performs act loop.late v κ₃ w → Ends act loop.stopWhen w κ₄ false t →
      Run (n + 1) (.turns loop) s (κ₁ ++ κ₂ ++ κ₃ ++ κ₄) .fall t
  | again {n : Nat} {loop : Loop} {s u v w x t : S} {κ₁ κ₂ κ₃ κ₄ κ₅ : List Seen} {o : Outcome} :
    loop.Begins act s κ₁ u → Run n (.list loop.body loop.body) u κ₂ .fall v →
      Performs act loop.late v κ₃ w → Ends act loop.stopWhen w κ₄ true x →
      Run n (.turns loop) x κ₅ o t →
      Run (n + 1) (.turns loop) s (κ₁ ++ κ₂ ++ κ₃ ++ κ₄ ++ κ₅) o t

/-- A run of any height. -/
def Runs (task : Task) (s : S) (κ : List Seen) (o : Outcome) (t : S) : Prop :=
  ∃ n, Run act hidden n task s κ o t

/-- A block can run from a store to an outcome and a store, with these actions in order. -/
def Block.CanRun (b : Block) (s : S) (κ : List Seen) (o : Outcome) (t : S) : Prop :=
  Runs act hidden (.list b b) s κ o t

end

/-! ## Heights of runs -/

section

variable {S : Type} {act : Evaluator S} {hidden : Hidden}

theorem Run.mono {n m : Nat} {task : Task} {s t : S} {κ : List Seen} {o : Outcome}
    (h : Run act hidden n task s κ o t) (hle : n ≤ m) : Run act hidden m task s κ o t := by
  induction h generalizing m with
  | simple hx ha => exact .simple hx ha
  | result ha => exact .result ha
  | goto => exact .goto
  | gotoIf ha => exact .gotoIf ha
  | stay ha => exact .stay ha
  | label => exact .label
  | nil => exact .nil
  | next _ ih => exact .next (ih hle)
  | caught hl _ ih => exact .caught hl (ih hle)
  | passed hl => exact .passed hl
  | returned => exact .returned
  | none => exact .none
  | stop hp hf => exact .stop hp hf
  | doBlock _ ih =>
    obtain ⟨m, rfl⟩ := Nat.exists_eq_add_of_le' hle
    exact .doBlock (ih (Nat.le_add_left _ m))
  | ifThen _ ih =>
    obtain ⟨m, rfl⟩ := Nat.exists_eq_add_of_le' hle
    exact .ifThen (ih (Nat.le_add_left _ m))
  | loop hx hp _ ih =>
    obtain ⟨m, rfl⟩ := Nat.exists_eq_add_of_le' hle
    exact .loop hx hp (ih (Nat.le_add_left _ m))
  | cons _ _ ih₁ ih₂ =>
    obtain ⟨m, rfl⟩ := Nat.exists_eq_add_of_le' hle
    exact .cons (ih₁ (Nat.le_add_left _ m)) (ih₂ (Nat.le_add_left _ m))
  | otherwise _ ih =>
    obtain ⟨m, rfl⟩ := Nat.exists_eq_add_of_le' hle
    exact .otherwise (ih (Nat.le_add_left _ m))
  | chosen ha _ ih =>
    obtain ⟨m, rfl⟩ := Nat.exists_eq_add_of_le' hle
    exact .chosen ha (ih (Nat.le_add_left _ m))
  | skipped ha _ ih =>
    obtain ⟨m, rfl⟩ := Nat.exists_eq_add_of_le' hle
    exact .skipped ha (ih (Nat.le_add_left _ m))
  | leave hb _ ho ih =>
    obtain ⟨m, rfl⟩ := Nat.exists_eq_add_of_le' hle
    exact .leave hb (ih (Nat.le_add_left _ m)) ho
  | last hb _ hp he ih =>
    obtain ⟨m, rfl⟩ := Nat.exists_eq_add_of_le' hle
    exact .last hb (ih (Nat.le_add_left _ m)) hp he
  | again hb _ hp he _ ih₁ ih₂ =>
    obtain ⟨m, rfl⟩ := Nat.exists_eq_add_of_le' hle
    exact .again hb (ih₁ (Nat.le_add_left _ m)) hp he (ih₂ (Nat.le_add_left _ m))

/-- What becomes of a jump does not depend on what remains. -/
theorem Run.resume_of_ne {n : Nat} {b rest rest' : List Statement} {s t : S} {κ : List Seen}
    {o o' : Outcome} (ho : o ≠ .fall) (h : Run act hidden n (.resume b rest o) s κ o' t) :
    Run act hidden n (.resume b rest' o) s κ o' t := by
  cases h with
  | next => exact absurd rfl ho
  | caught hl h => exact .caught hl h
  | passed hl => exact .passed hl
  | returned => exact .returned

namespace Runs

variable {s u t : S} {κ κ' : List Seen} {o o' : Outcome} {b rest : List Statement}

theorem cons {x : Statement} (h : Runs act hidden (.statement x) s κ o u)
    (h' : Runs act hidden (.resume b rest o) u κ' o' t) :
    Runs act hidden (.list b (x :: rest)) s (κ ++ κ') o' t := by
  obtain ⟨n, h⟩ := h
  obtain ⟨m, h'⟩ := h'
  exact ⟨max n m + 1, .cons (h.mono (Nat.le_max_left ..)) (h'.mono (Nat.le_max_right ..))⟩

theorem resume_fall :
    Runs act hidden (.resume b rest .fall) s κ o t ↔ Runs act hidden (.list b rest) s κ o t := by
  constructor
  · rintro ⟨n, h⟩
    cases h with
    | next h => exact ⟨n, h⟩
  · rintro ⟨n, h⟩
    exact ⟨n, .next h⟩

theorem resume_of_ne {rest' : List Statement} (ho : o ≠ .fall)
    (h : Runs act hidden (.resume b rest o) s κ o' t) :
    Runs act hidden (.resume b rest' o) s κ o' t := by
  obtain ⟨n, h⟩ := h
  exact ⟨n, h.resume_of_ne ho⟩

end Runs

/-! ## What a statement can do -/

section

variable {n : Nat} {s t : S} {κ : List Seen} {o : Outcome}

theorem Run.simple_inv {x : Statement} (hx : x.isSimple)
    (h : Run act hidden n (.statement x) s κ o t) :
    κ = [seen (.perform x)] ∧ o = .fall ∧ act (.perform x) s t := by
  cases h with
  | simple _ ha => exact ⟨rfl, rfl, ha⟩
  | loop hloop => cases x <;> simp [Statement.isSimple, Statement.loop?] at hx hloop
  | _ => cases hx

theorem Run.result_inv {values : List Expression}
    (h : Run act hidden n (.statement (.result values)) s κ o t) :
    κ = [seen (.perform (.result values))] ∧ o = .returned ∧ act (.perform (.result values)) s t := by
  cases h with
  | result ha => exact ⟨rfl, rfl, ha⟩
  | simple hx => cases hx
  | loop hloop => cases hloop

theorem Run.goto_inv {l : Label} (h : Run act hidden n (.statement (.goto l)) s κ o t) :
    κ = [] ∧ o = .jump l ∧ t = s := by
  cases h with
  | goto => exact ⟨rfl, rfl, rfl⟩
  | simple hx => cases hx
  | loop hloop => cases hloop

theorem Run.label_inv {l : Label} (h : Run act hidden n (.statement (.label l)) s κ o t) :
    κ = [] ∧ o = .fall ∧ t = s := by
  cases h with
  | label => exact ⟨rfl, rfl, rfl⟩
  | simple hx => cases hx
  | loop hloop => cases hloop

theorem Run.gotoIf_inv {l : Label} {c : Expression} {wanted : Bool}
    (h : Run act hidden n (.statement (.gotoIf l c wanted)) s κ o t) :
    (κ = [seen (.test c wanted)] ∧ o = .jump l ∧ act (.test c wanted) s t) ∨
      κ = [seen (.test c !wanted)] ∧ o = .fall ∧ act (.test c !wanted) s t := by
  cases h with
  | gotoIf ha => exact .inl ⟨rfl, rfl, ha⟩
  | stay ha => exact .inr ⟨rfl, rfl, ha⟩
  | simple hx => cases hx
  | loop hloop => cases hloop

theorem Run.loop_inv {x : Statement} {loop : Loop} (hx : x.loop? hidden = some loop)
    (h : Run act hidden n (.statement x) s κ o t) :
    ∃ κ₁ κ₂ u, κ = κ₁ ++ κ₂ ∧ Performs act loop.setup s κ₁ u ∧
      Runs act hidden (.turns loop) u κ₂ o t := by
  cases h with
  | loop hloop hsetup hturns =>
    rw [hx] at hloop
    cases hloop
    exact ⟨_, _, _, rfl, hsetup, _, hturns⟩
  | simple hsimple => cases x <;> simp [Statement.isSimple, Statement.loop?] at hsimple hx
  | _ => cases hx

theorem Run.doBlock_inv {b : List Statement}
    (h : Run act hidden n (.statement (.doBlock b)) s κ o t) :
    Runs act hidden (.list b b) s κ o t := by
  cases h with
  | doBlock h => exact ⟨_, h⟩
  | simple hx => cases hx
  | loop hloop => cases hloop

end

end
end Resolved
end LuaFront
