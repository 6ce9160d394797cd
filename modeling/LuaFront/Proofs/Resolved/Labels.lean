import LuaFront.Resolved.Flat

/-!
# LuaFront.Proofs.Resolved.Labels

The labels and jumps of a resolved program.

* `Spine`: the statements of one function body, however deep in blocks, but not those of functions
  in it. `Block.labels` are the labels among them, `Block.marks` the places one can jump to: labels,
  and the ends of loops.
* `Bodies`: the bodies of all functions in a piece of a program, at any depth.
* `Jumps`: the jumps of one function body, each with the labels in the list of statements it stands
  in and in the lists around that one that are reached through `do` blocks only.
* `Scoped`: what static scoping grants a jump: the labels of all lists around it and the ends of
  all loops around it.
-/

namespace LuaFront
namespace Resolved

/-! ## Labels -/

def Statement.labels : Statement → List Label
  | .label l => [l]
  | _ => []

/-- The places that a statement adds to its function, apart from those in its blocks. -/
def Statement.marks : Statement → List Label
  | .label l => [l]
  | .whileDo _ _ exit | .repeatUntil _ _ exit | .numericFor _ _ _ _ _ exit
  | .genericFor _ _ _ exit => [exit]
  | _ => []

namespace Spine

mutual

@[simp]
def statement : Statement → List Statement
  | .ifThen c b es o => .ifThen c b es o :: (block b ++ branches es ++ otherwise o)
  | .whileDo c b exit => .whileDo c b exit :: block b
  | .repeatUntil b c exit => .repeatUntil b c exit :: block b
  | .numericFor v i l d b exit => .numericFor v i l d b exit :: block b
  | .genericFor vs es b exit => .genericFor vs es b exit :: block b
  | .doBlock b => .doBlock b :: block b
  | s => [s]

@[simp]
def branches : List Branch → List Statement
  | [] => []
  | ⟨_, b⟩ :: later => block b ++ branches later

@[simp]
def otherwise : Option (List Statement) → List Statement
  | none => []
  | some b => block b

@[simp]
def block : List Statement → List Statement
  | [] => []
  | s :: later => statement s ++ block later

end

@[simp]
theorem block_append (a b : Block) : block (a ++ b) = block a ++ block b := by
  induction a with
  | nil => rfl
  | cons s later ih => simp [block, ih]

end Spine

namespace Block

/-- The labels that stand in a list of statements itself. -/
def heads (b : Block) : List Label := b.flatMap Statement.labels

def labels (b : Block) : List Label := (Spine.block b).flatMap Statement.labels

def marks (b : Block) : List Label := (Spine.block b).flatMap Statement.marks

@[simp]
theorem heads_nil : heads [] = [] := rfl

@[simp]
theorem heads_append (a b : Block) : heads (a ++ b) = heads a ++ heads b := List.flatMap_append

@[simp]
theorem heads_cons (s : Statement) (b : Block) : heads (s :: b) = s.labels ++ heads b := by
  simp [heads]

@[simp]
theorem labels_nil : labels [] = [] := rfl

@[simp]
theorem labels_append (a b : Block) : labels (a ++ b) = labels a ++ labels b := by simp [labels]

@[simp]
theorem marks_nil : marks [] = [] := rfl

@[simp]
theorem marks_append (a b : Block) : marks (a ++ b) = marks a ++ marks b := by simp [marks]

@[simp]
theorem labels_cons (s : Statement) (b : Block) :
    labels (s :: b) = (Spine.statement s).flatMap Statement.labels ++ labels b := by
  simp [labels, Spine.block]

@[simp]
theorem marks_cons (s : Statement) (b : Block) :
    marks (s :: b) = (Spine.statement s).flatMap Statement.marks ++ marks b := by
  simp [marks, Spine.block]

theorem heads_sublist_labels (b : Block) : (heads b).Sublist (labels b) := by
  induction b with
  | nil => exact .slnil
  | cons s later ih =>
    rw [heads_cons, labels_cons]
    refine List.Sublist.append ?_ ih
    cases s <;> simp [Statement.labels]

theorem heads_subset_labels (b : Block) : heads b ⊆ labels b := (heads_sublist_labels b).subset

theorem heads_sublist_marks (b : Block) : (heads b).Sublist (marks b) := by
  induction b with
  | nil => exact .slnil
  | cons s later ih =>
    rw [heads_cons, marks_cons]
    refine List.Sublist.append ?_ ih
    cases s <;> simp [Statement.labels, Statement.marks]

end Block

/-! ## Function bodies -/

namespace Bodies

mutual

@[simp]
def expression : Expression → List Block
  | .function _ _ body => body :: block body
  | .table fs => fields fs
  | .unary _ operand => expression operand
  | .binary left _ right => expression left ++ expression right
  | .parenthesized inner => expression inner
  | .call receiver _ arguments => expression receiver ++ expressions arguments
  | .index target index => expression target ++ expression index
  | _ => []

@[simp]
def expressions : List Expression → List Block
  | [] => []
  | e :: later => expression e ++ expressions later

@[simp]
def fields : List Field → List Block
  | [] => []
  | .positional _ value :: later => expression value ++ fields later
  | .keyed key value :: later => expression key ++ expression value ++ fields later

@[simp]
def branches : List Branch → List Block
  | [] => []
  | ⟨condition, b⟩ :: later => expression condition ++ block b ++ branches later

@[simp]
def otherwise : Option (List Statement) → List Block
  | none => []
  | some b => block b

@[simp]
def statement : Statement → List Block
  | .expression e => expression e
  | .assign targets values => expressions targets ++ expressions values
  | .declare _ values => expressions values
  | .result values => expressions values
  | .ifThen c b es o => expression c ++ block b ++ branches es ++ otherwise o
  | .whileDo c b _ => expression c ++ block b
  | .repeatUntil b c _ => block b ++ expression c
  | .numericFor _ initial limit step b _ =>
    expression initial ++ expression limit ++ expression step ++ block b
  | .genericFor _ values b _ => expressions values ++ block b
  | .doBlock b => block b
  | .gotoIf _ c _ => expression c
  | .goto _ | .label _ => []

@[simp]
def block : List Statement → List Block
  | [] => []
  | s :: later => statement s ++ block later

end

@[simp]
theorem block_append (a b : Block) : block (a ++ b) = block a ++ block b := by
  induction a with
  | nil => rfl
  | cons s later ih => simp [block, ih]

end Bodies

/-- The body of a program or function, and the bodies of the functions in it. -/
def Block.bodies (b : Block) : List Block := b :: Bodies.block b

/-! ## Jumps -/

structure Jump where
  target : Label
  visible : List Label

/-- The target is there to be jumped to. -/
def Jump.Lands (j : Jump) : Prop := j.target ∈ j.visible

namespace Jumps

mutual

@[simp]
def statement (visible : List Label) : Statement → List Jump
  | .goto l => [⟨l, visible⟩]
  | .gotoIf l _ _ => [⟨l, visible⟩]
  | .doBlock b => list (Block.heads b ++ visible) b
  | .ifThen _ b es o => list (Block.heads b) b ++ branches es ++ otherwise o
  | .whileDo _ b _ | .repeatUntil b _ _ | .numericFor _ _ _ _ b _ | .genericFor _ _ b _ =>
    list (Block.heads b) b
  | _ => []

@[simp]
def branches : List Branch → List Jump
  | [] => []
  | ⟨_, b⟩ :: later => list (Block.heads b) b ++ branches later

@[simp]
def otherwise : Option (List Statement) → List Jump
  | none => []
  | some b => list (Block.heads b) b

@[simp]
def list (visible : List Label) : List Statement → List Jump
  | [] => []
  | s :: later => statement visible s ++ list visible later

end

@[simp]
theorem list_append (visible : List Label) (a b : Block) :
    list visible (a ++ b) = list visible a ++ list visible b := by
  induction a with
  | nil => rfl
  | cons s later ih => simp [list, ih]

end Jumps

def Block.jumps (b : Block) : List Jump := Jumps.list (heads b) b

namespace Jumps

/-- What is visible from a jump in a block `b` is visible around `b` or a label of `b`. -/
def Sees (visible : List Label) (labels : List Label) (js : List Jump) : Prop :=
  ∀ j ∈ js, ∀ l ∈ j.visible, l ∈ visible ∨ l ∈ labels

section

variable {v v' ls ls' : List Label} {js js' : List Jump}

theorem Sees.append (h : Sees v ls js) (h' : Sees v ls' js') : Sees v (ls ++ ls') (js ++ js') := by
  intro j hj l hl
  rcases List.mem_append.1 hj with hj | hj
  · exact (h j hj l hl).imp_right (List.mem_append_left _)
  · exact (h' j hj l hl).imp_right (List.mem_append_right _)

theorem Sees.inner (h : Sees v' ls js) (hv : ∀ l ∈ v', l ∈ v ∨ l ∈ ls) : Sees v ls js := by
  intro j hj l hl
  rcases h j hj l hl with hl | hl
  · exact hv l hl
  · exact .inr hl

end

mutual

theorem sees_statement (v : List Label) (s : Statement) :
    Sees v ((Spine.statement s).flatMap Statement.labels) (statement v s) := by
  cases s with
  | goto l => simp +contextual [Sees, statement]
  | gotoIf l c wanted => simp +contextual [Sees, statement]
  | doBlock b =>
    refine (sees_list (Block.heads b ++ v) b).inner ?_
    intro l hl
    exact (List.mem_append.1 hl).symm.imp_right (Block.heads_subset_labels b ·)
  | ifThen c b es o =>
    have h := ((sees_list (Block.heads b) b).inner (v := v) fun l hl =>
      .inr (Block.heads_subset_labels b hl)).append (sees_branches v es)
    simpa [Spine.statement, statement, Statement.labels, Block.labels] using
      h.append (sees_otherwise v o)
  | whileDo c b exit =>
    exact (sees_list (Block.heads b) b).inner fun l hl => .inr (Block.heads_subset_labels b hl)
  | repeatUntil b c exit =>
    exact (sees_list (Block.heads b) b).inner fun l hl => .inr (Block.heads_subset_labels b hl)
  | numericFor counter i l d b exit =>
    exact (sees_list (Block.heads b) b).inner fun l hl => .inr (Block.heads_subset_labels b hl)
  | genericFor symbols es b exit =>
    exact (sees_list (Block.heads b) b).inner fun l hl => .inr (Block.heads_subset_labels b hl)
  | expression | assign | declare | result | label => simp [Sees, statement]

theorem sees_branches (v : List Label) (es : List Branch) :
    Sees v ((Spine.branches es).flatMap Statement.labels) (branches es) := by
  cases es with
  | nil => simp [Sees, branches]
  | cons e later =>
    obtain ⟨c, b⟩ := e
    rw [Spine.branches, branches, List.flatMap_append]
    exact ((sees_list (Block.heads b) b).inner fun l hl =>
      .inr (Block.heads_subset_labels b hl)).append (sees_branches v later)

theorem sees_otherwise (v : List Label) (o : Option (List Statement)) :
    Sees v ((Spine.otherwise o).flatMap Statement.labels) (otherwise o) := by
  cases o with
  | none => simp [Sees, otherwise]
  | some b =>
    exact (sees_list (Block.heads b) b).inner fun l hl => .inr (Block.heads_subset_labels b hl)

theorem sees_list (v : List Label) (b : List Statement) : Sees v (Block.labels b) (list v b) := by
  cases b with
  | nil => simp [Sees, list]
  | cons s later =>
    rw [Block.labels_cons, list]
    exact (sees_statement v s).append (sees_list v later)

end
end Jumps

/-- A jump that lands does so at a label of its own function body. -/
theorem Block.target_mem_labels {b : Block} {j : Jump} (hj : j ∈ b.jumps) (h : j.Lands) :
    j.target ∈ b.labels := by
  rcases Jumps.sees_list (heads b) b j hj j.target h with hl | hl
  · exact heads_subset_labels b hl
  · exact hl

/-! ## Static scoping of jumps -/

namespace Scoped

mutual

def statement (visible : List Label) : Statement → Prop
  | .goto l => l ∈ visible
  | .gotoIf l _ _ => l ∈ visible
  | .doBlock b => list (Block.heads b ++ visible) b
  | .ifThen _ b es o =>
    list (Block.heads b ++ visible) b ∧ branches visible es ∧ otherwise visible o
  | .whileDo _ b exit | .repeatUntil b _ exit | .numericFor _ _ _ _ b exit
  | .genericFor _ _ b exit => list (Block.heads b ++ exit :: visible) b
  | _ => True

def branches (visible : List Label) : List Branch → Prop
  | [] => True
  | ⟨_, b⟩ :: later => list (Block.heads b ++ visible) b ∧ branches visible later

def otherwise (visible : List Label) : Option (List Statement) → Prop
  | none => True
  | some b => list (Block.heads b ++ visible) b

def list (visible : List Label) : List Statement → Prop
  | [] => True
  | s :: later => statement visible s ∧ list visible later

end

/-- Every jump of a block is to a place that is visible around the block or in it. -/
def block (visible : List Label) (b : Block) : Prop := list (Block.heads b ++ visible) b

theorem list_append {visible : List Label} {a b : Block} :
    list visible (a ++ b) ↔ list visible a ∧ list visible b := by
  induction a with
  | nil => simp [list]
  | cons s later ih => simp [list, ih, and_assoc]

end Scoped
end Resolved
end LuaFront
