import LuaFront.Proofs.Syntax.OneLine
import LuaFront.Syntax.Tree
import Mathlib.Data.List.Basic

/-!
# LuaFront.Proofs.Syntax.Drawing

The drawing of a tree says where each node belongs.

A node is found by its path: which branch to take at each node from the root on. `Outline.rows`
has all values of an outline with their paths, each value before those below it, and a drawing has
one line for each of them.

* `Drawing.read`: the lines of a drawing, from nothing but its text.
* `Drawing.paths`: the paths of values, from nothing but their depths.
* `Tree.draw_read`: both give back what the nodes of the tree are, whatever the text was.
-/

namespace LuaFront
namespace Syntax

open Outline (Line)

/-! ## Reading a drawing -/

namespace Drawing

/-- The groups of four columns in front of a label, up to those that connect to it. -/
def readMargin : List Char → List Bool × List Char
  | '│' :: ' ' :: ' ' :: ' ' :: cs => (false :: (readMargin cs).1, (readMargin cs).2)
  | ' ' :: ' ' :: ' ' :: ' ' :: cs => (true :: (readMargin cs).1, (readMargin cs).2)
  | '├' :: '─' :: '─' :: ' ' :: cs => ([false], cs)
  | '└' :: '─' :: '─' :: ' ' :: cs => ([true], cs)
  | cs => ([], cs)

def readLine (cs : List Char) : Line :=
  ⟨(readMargin cs).1, String.ofList (readMargin cs).2⟩

/-- The lines of a drawing, each of which ends in a line feed. -/
def read (s : String) : List Line := (s.toList.splitOn '\n').dropLast.map readLine

/-- The path of a value at some depth, given the path of the value before it. -/
def next (before : List Nat) : Nat → List Nat
  | 0 => []
  | d + 1 => before.take d ++ [((before[d]?).map (· + 1)).getD 0]

/-- The paths of values at some depths, one behind the other. -/
def paths (before : List Nat) : List Nat → List (List Nat)
  | [] => []
  | d :: later => next before d :: paths (next before d) later

/-- Which of some paths is that of the parent, given the path of a value. -/
def above (paths : List (List Nat)) (path : List Nat) : Nat := paths.idxOf path.dropLast

/-! ## Lines -/

theorem readMargin_append {trail : List Bool} (h : trail ≠ []) (cs : List Char) :
    readMargin ((Line.margin trail).toList ++ cs) = (trail, cs) := by
  fun_induction Line.margin trail with
  | case1 => exact absurd rfl h
  | case2 => simp [readMargin]
  | case3 => simp [readMargin]
  | case4 later hne ih => simp [readMargin, ih hne]
  | case5 later hne ih => simp [readMargin, ih hne]

theorem oneLine_margin (trail : List Bool) : OneLine (Line.margin trail) := by
  fun_induction Line.margin trail with
  | case1 => decide
  | case2 => decide
  | case3 => decide
  | case4 later _ ih => exact oneLine_append.2 ⟨by decide, ih⟩
  | case5 later _ ih => exact oneLine_append.2 ⟨by decide, ih⟩

theorem length_margin (trail : List Bool) :
    (Line.margin trail).toList.length = 4 * trail.length := by
  fun_induction Line.margin trail with
  | case1 => rfl
  | case2 => rfl
  | case3 => rfl
  | case4 later _ ih => simp [ih]; omega
  | case5 later _ ih => simp [ih]; omega

/-- A line without its end. -/
def text (l : Line) : List Char := (Line.margin l.trail).toList ++ l.label.toList

/-- A label that stands on one line, and is not taken for a margin where it stands alone. -/
structure Legible (l : Line) : Prop where
  oneLine : OneLine l.label
  alone : l.trail = [] → readMargin l.label.toList = ([], l.label.toList)

theorem Legible.readLine {l : Line} (h : Legible l) : readLine (text l) = l := by
  obtain ⟨trail, label⟩ := l
  by_cases htrail : trail = []
  · subst htrail
    simp [Drawing.readLine, text, Line.margin, h.alone rfl]
  · simp [Drawing.readLine, text, readMargin_append htrail]

theorem Legible.not_mem_text {l : Line} (h : Legible l) : '\n' ∉ text l := by
  simpa [text] using ⟨oneLine_margin l.trail, h.oneLine⟩

theorem toList_render (ls : List Line) :
    (String.join (ls.map Line.render)).toList = (ls.map text).flatMap (· ++ ['\n']) := by
  simp [text, Line.render, List.flatMap_map, String.toList_join]

theorem splitOn_lines {lines : List (List Char)} (h : ∀ l ∈ lines, '\n' ∉ l) :
    (lines.flatMap (· ++ ['\n'])).splitOn '\n' = lines ++ [[]] := by
  induction lines with
  | nil => simp
  | cons l later ih =>
    obtain ⟨hl, hlater⟩ := List.forall_mem_cons.1 h
    have hchars : ∀ c ∈ l, (c == '\n') = false := by
      intro c hc
      rw [beq_eq_false_iff_ne]
      rintro rfl
      exact hl hc
    rw [List.flatMap_cons, List.append_assoc, List.singleton_append, List.splitOn,
      List.splitOnP_append_cons_of_forall_mem hchars _ rfl]
    exact congrArg (l :: ·) (ih hlater)

/-- What was drawn is read. -/
theorem read_render {ls : List Line} (h : ∀ l ∈ ls, Legible l) :
    read (String.join (ls.map Line.render)) = ls := by
  have hlines : ∀ cs ∈ ls.map text, '\n' ∉ cs :=
    List.forall_mem_map.2 fun l hl => (h l hl).not_mem_text
  rw [read, toList_render, splitOn_lines hlines, List.dropLast_concat, List.map_map]
  exact (List.map_congr_left fun l hl => (h l hl).readLine).trans (List.map_id ls)

end Drawing

namespace Outline

variable {α : Type}

/-! ## Values and their paths -/

/-- A value with its path, and with what the path says of itself: whether each branch of it is the
last one. -/
structure Row (α : Type) where
  path : List Nat
  trail : List Bool
  value : α

/-- The line of a value in a drawing. -/
def Row.line (label : α → String) (r : Row α) : Line := ⟨r.trail, label r.value⟩

/-- A row of a branch, as one of the whole outline. -/
def Row.under (number : Nat) (last : Bool) (r : Row α) : Row α :=
  ⟨number :: r.path, last :: r.trail, r.value⟩

mutual

/-- All values with their paths, each before those below it. -/
def rows : Outline α → List (Row α)
  | .mk value branches => ⟨[], [], value⟩ :: rowsAll 0 branches

/-- The same for branches, of which the first has a number. -/
def rowsAll (number : Nat) : List (Outline α) → List (Row α)
  | [] => []
  | o :: later => (rows o).map (.under number later.isEmpty) ++ rowsAll (number + 1) later

end

theorem mem_rowsAll {os : List (Outline α)} {number : Nat} {r : Row α} :
    r ∈ rowsAll number os ↔ ∃ (i : Nat) (o : Outline α) (q : Row α), os[i]? = some o ∧
      q ∈ o.rows ∧ r = q.under (number + i) (decide (i + 1 = os.length)) := by
  induction os generalizing number with
  | nil => simp [rowsAll]
  | cons o later ih =>
    have hlast : later.isEmpty = decide (0 + 1 = (o :: later).length) := by cases later <;> simp
    rw [rowsAll, List.mem_append, List.mem_map, ih, hlast]
    constructor
    · rintro (⟨q, hq, rfl⟩ | ⟨i, b, q, hb, hq, rfl⟩)
      · exact ⟨0, o, q, rfl, hq, rfl⟩
      · exact ⟨i + 1, b, q, hb, hq, by simp [Nat.add_assoc, Nat.add_comm 1]⟩
    · rintro ⟨i, b, q, hb, hq, rfl⟩
      cases i with
      | zero =>
        cases hb
        exact .inl ⟨q, hq, rfl⟩
      | succ i => exact .inr ⟨i, b, q, hb, hq, by simp [Nat.add_assoc, Nat.add_comm 1]⟩

theorem mem_rows {value : α} {branches : List (Outline α)} {r : Row α} :
    r ∈ (mk value branches).rows ↔ r = ⟨[], [], value⟩ ∨
      ∃ (i : Nat) (o : Outline α) (q : Row α), branches[i]? = some o ∧ q ∈ o.rows ∧
        r = q.under i (decide (i + 1 = branches.length)) := by
  simp [rows, mem_rowsAll]

mutual

theorem lines_eq (label : α → String) (trail : List Bool) (o : Outline α) :
    o.lines label trail = o.rows.map fun r => ⟨trail ++ r.trail, label r.value⟩ := by
  cases o with
  | mk value branches => simp [lines, rows, linesAll_eq label trail branches 0]

theorem linesAll_eq (label : α → String) (trail : List Bool) (os : List (Outline α))
    (number : Nat) : linesAll label trail os =
      (rowsAll number os).map fun r => ⟨trail ++ r.trail, label r.value⟩ := by
  cases os with
  | nil => rfl
  | cons o later =>
    rw [linesAll, rowsAll, lines_eq label _ o, linesAll_eq label trail later (number + 1)]
    simp [Row.under]

end

theorem draw_eq (label : α → String) (o : Outline α) :
    o.draw label = String.join ((o.rows.map (Row.line label)).map Line.render) := by
  rw [draw, lines_eq]
  rfl

mutual

theorem rows_sorted (o : Outline α) :
    o.rows.Pairwise fun r r' => List.Lex (· < ·) r.path r'.path := by
  cases o with
  | mk value branches =>
    refine List.pairwise_cons.2 ⟨fun r hr => ?_, rowsAll_sorted branches 0⟩
    obtain ⟨i, o, q, -, -, rfl⟩ := mem_rowsAll.1 hr
    exact .nil

theorem rowsAll_sorted (os : List (Outline α)) (number : Nat) :
    (rowsAll number os).Pairwise fun r r' => List.Lex (· < ·) r.path r'.path := by
  cases os with
  | nil => exact .nil
  | cons o later =>
    refine List.pairwise_append.2 ⟨?_, rowsAll_sorted later (number + 1), fun r hr r' hr' => ?_⟩
    · refine List.pairwise_map.2 ((rows_sorted o).imp fun h => ?_)
      exact .cons h
    · obtain ⟨q, hq, rfl⟩ := List.mem_map.1 hr
      obtain ⟨i, o', q', -, -, rfl⟩ := mem_rowsAll.1 hr'
      exact .rel (by omega)

end

theorem length_trail {o : Outline α} {r : Row α} (h : r ∈ o.rows) :
    r.trail.length = r.path.length := by
  obtain ⟨path, trail, value⟩ := r
  induction path generalizing o trail with
  | nil =>
    cases o
    rcases mem_rows.1 h with h | ⟨i, b, q, -, -, h⟩ <;> cases h
    rfl
  | cons j path ih =>
    cases o
    rcases mem_rows.1 h with h | ⟨i, b, q, -, hq, h⟩ <;> cases h
    exact congrArg (· + 1) (ih _ hq)

theorem next_append (base more : List Nat) (i : Nat) :
    Drawing.next (base ++ i :: more) (base.length + 1) = base ++ [i + 1] := by
  simp [Drawing.next]

mutual

/-- Whatever value was the one before, the depths of the values of an outline tell their paths, and
the path of the last of them is at or below the path of the outline. -/
theorem paths_rows (o : Outline α) {base before : List Nat}
    (h : Drawing.next before base.length = base) (ds : List Nat) : ∃ e, base <+: e ∧
      Drawing.paths before (o.rows.map (base.length + ·.path.length) ++ ds) =
        o.rows.map (base ++ ·.path) ++ Drawing.paths e ds := by
  cases o with
  | mk value branches =>
    have hfirst : Drawing.next base (base.length + 1) = base ++ [0] := by simp [Drawing.next]
    obtain ⟨e, he, hpaths⟩ := paths_rowsAll branches hfirst List.prefix_rfl ds
    refine ⟨e, he, ?_⟩
    simp [rows, Drawing.paths, h, hpaths]

-- Before the first branch comes a value at or below `base`, and before every other one the last
-- value of the branch in front of it, so the next path ends in the number of the branch.
theorem paths_rowsAll (os : List (Outline α)) {number : Nat} {base before : List Nat}
    (h : Drawing.next before (base.length + 1) = base ++ [number]) (hbase : base <+: before)
    (ds : List Nat) : ∃ e, base <+: e ∧
      Drawing.paths before ((rowsAll number os).map (base.length + ·.path.length) ++ ds) =
        (rowsAll number os).map (base ++ ·.path) ++ Drawing.paths e ds := by
  cases os with
  | nil => exact ⟨before, hbase, rfl⟩
  | cons o later =>
    have hhere : Drawing.next before (base ++ [number]).length = base ++ [number] := by
      rw [List.length_append, List.length_singleton, h]
    obtain ⟨e, ⟨more, he⟩, hpaths⟩ := paths_rows o hhere
      ((rowsAll (number + 1) later).map (base.length + ·.path.length) ++ ds)
    rw [List.append_assoc] at he
    have hnext : Drawing.next e (base.length + 1) = base ++ [number + 1] := by
      rw [← he]
      exact next_append base more number
    obtain ⟨e', he', hpaths'⟩ := paths_rowsAll later hnext ⟨_, he⟩ ds
    refine ⟨e', he', ?_⟩
    have hdepth (q : Row α) (last : Bool) : base.length + (q.under number last).path.length =
        (base ++ [number]).length + q.path.length := by
      simp [Row.under]
      omega
    have hpath (q : Row α) (last : Bool) : base ++ (q.under number last).path =
        base ++ [number] ++ q.path := by
      simp [Row.under]
    simp only [Function.comp_def, rowsAll, List.map_append, List.map_map, List.append_assoc,
      hdepth, hpath]
    simp only [List.append_assoc] at hpaths
    rw [hpaths, hpaths']

end

example : Drawing.paths [] [0, 1, 2, 3, 3, 2] =
    [[], [0], [0, 0], [0, 0, 0], [0, 0, 1], [0, 1]] := by decide

end Outline

open Outline (Row)

/-! ## Nodes and their paths -/

theorem Node.outline_eq (n : Node) : n.outline = .mk n (n.children.map Node.outline) := by
  rw [outline]
  simp

namespace Node

/-- The node at the end of a path. -/
def descend : Node → List Nat → Option Node
  | n, [] => some n
  | n, i :: path => n.children[i]?.bind (descend · path)

/-- Whether each branch of a path is the last one of its node. -/
def trail : Node → List Nat → List Bool
  | _, [] => []
  | n, i :: path =>
    decide (i + 1 = n.children.length) :: (n.children[i]?.map (trail · path)).getD []

theorem descend_concat (n : Node) (path : List Nat) (i : Nat) :
    n.descend (path ++ [i]) = (n.descend path).bind (·.children[i]?) := by
  induction path generalizing n with
  | nil => cases h : n.children[i]? <;> simp [descend, h]
  | cons j path ih => cases h : n.children[j]? <;> simp [descend, h, ih]

theorem mem_rows {n m : Node} {path : List Nat} {trail : List Bool} :
    ⟨path, trail, m⟩ ∈ n.outline.rows ↔ n.descend path = some m ∧ trail = n.trail path := by
  induction path generalizing n trail with
  | nil =>
    rw [outline_eq, Outline.mem_rows]
    constructor
    · rintro (h | ⟨i, b, q, -, -, h⟩) <;> cases h
      exact ⟨rfl, rfl⟩
    · rintro ⟨h, rfl⟩
      cases h
      exact .inl rfl
  | cons i path ih =>
    rw [outline_eq, Outline.mem_rows]
    constructor
    · rintro (h | ⟨i, b, q, hb, hq, h⟩) <;> cases h
      rw [List.getElem?_map, Option.map_eq_some_iff] at hb
      obtain ⟨c, hc, rfl⟩ := hb
      obtain ⟨hdescend, htrail⟩ := ih.1 hq
      simp_all [descend, Node.trail]
    · rintro ⟨hdescend, htrail⟩
      rw [descend, Option.bind_eq_some_iff] at hdescend
      obtain ⟨c, hc, hdescend⟩ := hdescend
      have hq := ih.2 ⟨hdescend, rfl⟩
      refine .inr ⟨i, c.outline, _, ?_, hq, ?_⟩
      · rw [List.getElem?_map, hc, Option.map_some]
      · simp [htrail, Node.trail, hc, Row.under]

/-! ## Drawings -/

/-- Some rows are those of all nodes from a root on, in preorder: paths are in the order of a
dictionary, so each node stands before those below it, and these in the order of its children. -/
structure Traversal (root : Node) (rows : List (Row Node)) : Prop where
  nodes : ∀ path n, root.descend path = some n ↔ ∃ r ∈ rows, r.path = path ∧ r.value = n
  sorted : rows.Pairwise fun r r' => List.Lex (· < ·) r.path r'.path
  trails : ∀ r ∈ rows, r.trail = root.trail r.path

theorem traversal_rows (root : Node) : root.Traversal root.outline.rows where
  nodes path n := by
    constructor
    · intro h
      exact ⟨_, mem_rows.2 ⟨h, rfl⟩, rfl, rfl⟩
    · rintro ⟨r, hr, rfl, rfl⟩
      exact (mem_rows.1 hr).1
  sorted := root.outline.rows_sorted
  trails r hr := (mem_rows.1 hr).2

/-- Behind the path of a node, the next branch is one of its children. -/
theorem trail_concat {n m : Node} {path : List Nat} (h : n.descend path = some m) (i : Nat) :
    n.trail (path ++ [i]) = n.trail path ++ [decide (i + 1 = m.children.length)] := by
  induction path generalizing n with
  | nil =>
    obtain rfl : n = m := Option.some.inj h
    cases hc : n.children[i]? <;> simp [Node.trail, hc]
  | cons j path ih =>
    rw [descend, Option.bind_eq_some_iff] at h
    obtain ⟨c, hc, h⟩ := h
    simp [Node.trail, hc, ih h]

theorem within_of_descend {n m : Node} {path : List Nat} (h : n.descend path = some m) :
    Within m n := by
  induction path generalizing n with
  | nil =>
    obtain rfl : n = m := Option.some.inj h
    exact .refl
  | cons i path ih =>
    rw [descend, Option.bind_eq_some_iff] at h
    obtain ⟨c, hc, h⟩ := h
    exact .child (List.mem_of_getElem? hc) (ih h)

namespace Traversal

variable {root : Node} {rows : List (Row Node)}

theorem descend (h : root.Traversal rows) {r : Row Node} (hr : r ∈ rows) :
    root.descend r.path = some r.value :=
  (h.nodes r.path r.value).2 ⟨r, hr, rfl, rfl⟩

theorem unique (h : root.Traversal rows) {r r' : Row Node} (hr : r ∈ rows)
    (hr' : r' ∈ rows) (hpath : r.path = r'.path) : r = r' := by
  have hvalue := h.descend hr
  have htrail := h.trails r hr
  rw [hpath, h.descend hr'] at hvalue
  rw [hpath, ← h.trails r' hr'] at htrail
  cases r
  cases r'
  simp_all

/-- The row of a parent is found by its path. -/
theorem above (h : root.Traversal rows) {r : Row Node} (hr : r ∈ rows) {path : List Nat}
    {i : Nat} (hpath : r.path = path ++ [i]) :
    ∃ q, rows[Drawing.above (rows.map (·.path)) r.path]? = some q ∧
      q.value.children[i]? = some r.value ∧
        r.trail = q.trail ++ [decide (i + 1 = q.value.children.length)] := by
  have hdescend := h.descend hr
  rw [hpath, descend_concat, Option.bind_eq_some_iff] at hdescend
  obtain ⟨m, hm, hchild⟩ := hdescend
  obtain ⟨q, hq, rfl, rfl⟩ := (h.nodes path m).1 hm
  have hmem : q.path ∈ rows.map (·.path) := List.mem_map.2 ⟨q, hq, rfl⟩
  have hfound := List.getElem?_idxOf hmem
  rw [List.getElem?_map, Option.map_eq_some_iff] at hfound
  obtain ⟨q', hq', hpath'⟩ := hfound
  obtain rfl := h.unique (List.mem_of_getElem? hq') hq hpath'
  refine ⟨q', ?_, hchild, ?_⟩
  · rw [Drawing.above, hpath, List.dropLast_concat, hq']
  · rw [h.trails r hr, hpath, trail_concat hm, h.trails q' hq]

end Traversal
end Node

/-- The label of the root starts with a letter, and no other label stands alone on its line. -/
theorem Chunk.legible {c : Chunk} (h : (Node.chunk c).Everywhere fun n => OneLine n.label)
    {r : Row Node} (hr : r ∈ (Node.chunk c).outline.rows) :
    Drawing.Legible (r.line Node.label) where
  oneLine := h _ (Node.within_of_descend (Node.mem_rows.1 hr).1)
  alone htrail := by
    have hpath : r.path = [] := by
      rw [← List.length_eq_zero_iff, ← Outline.length_trail hr]
      exact List.length_eq_zero_iff.2 htrail
    have hroot := (Node.mem_rows.1 hr).1
    rw [hpath] at hroot
    have hlabel : (r.line Node.label).label = (Node.chunk c).label :=
      congrArg Node.label (Option.some.inj hroot).symm
    rw [hlabel]
    simp [Node.label, Node.title, Drawing.readMargin]

/-- A tree is read back from its drawing, whatever the text was. The drawing has one line for each
node, in preorder: a margin of four columns for each branch of the path to the node, and its label.
Its lines are found in it, with the depth of each node and whether the node is the last child; the
depths alone tell the paths of the nodes, and these tell which line is that of a parent. -/
theorem Tree.draw_read (source : Text.Source) :
    let root := Node.chunk (parse source).root
    let drawing := (parse source).draw
    let lines := Drawing.read drawing
    let paths := Drawing.paths [] (lines.map (·.trail.length))
    ∃ rows : List (Row Node), root.Traversal rows ∧
      drawing = String.join (rows.map fun r => Line.margin r.trail ++ r.value.label ++ "\n") ∧
      (∀ r ∈ rows, (Line.margin r.trail).toList.length = 4 * r.path.length ∧
        OneLine (Line.margin r.trail ++ r.value.label)) ∧
      lines = rows.map (fun r => ⟨r.trail, r.value.label⟩) ∧
      paths = rows.map (·.path) ∧
      ∀ r ∈ rows, ∀ path i, r.path = path ++ [i] →
        ∃ parent, rows[Drawing.above paths r.path]? = some parent ∧
          parent.value.children[i]? = some r.value ∧
            r.trail = parent.trail ++ [decide (i + 1 = parent.value.children.length)] := by
  intro root drawing lines paths
  have hrows := root.traversal_rows
  have hdrawing := Outline.draw_eq Node.label root.outline
  have hlegible : ∀ r ∈ root.outline.rows, Drawing.Legible (r.line Node.label) :=
    fun r hr => Chunk.legible (parse_oneLine source) hr
  have hlines : lines = root.outline.rows.map (Row.line Node.label) := by
    rw [← Drawing.read_render (List.forall_mem_map.2 hlegible), ← hdrawing]
    rfl
  have hpaths : paths = root.outline.rows.map (·.path) := by
    have hdepths : lines.map (·.trail.length) = root.outline.rows.map (·.path.length) := by
      rw [hlines, List.map_map]
      exact List.map_congr_left fun r hr => Outline.length_trail hr
    have hstart : Drawing.next [] ([] : List Nat).length = [] := rfl
    obtain ⟨e, -, h⟩ := root.outline.paths_rows hstart []
    simpa [paths, hdepths, Drawing.paths] using h
  refine ⟨root.outline.rows, hrows, ?_, fun r hr => ⟨?_, ?_⟩, hlines, hpaths, ?_⟩
  · refine hdrawing.trans ?_
    rw [List.map_map]
    rfl
  · rw [Drawing.length_margin, Outline.length_trail hr]
  · exact oneLine_append.2 ⟨Drawing.oneLine_margin _, (hlegible r hr).oneLine⟩
  · rw [hpaths]
    exact fun r hr path i => hrows.above hr

end Syntax
end LuaFront
