import LuaFront.Diagnostic
import LuaFront.Token.Basic

/-!
# LuaFront.Journal

The journal of a run: what was done and what was found wrong, in order. The diagnostics of a
program are read off it, and so are the lines of a verbose log.
-/

namespace LuaFront

inductive Event where
  | reported (d : Diagnostic)
  /-- A token was consumed. -/
  | took (t : Token)
  /-- A token was made up in place of an absent one. -/
  | supplied (kind : Kind) (offset : Nat)
  /-- A token was dropped because the statement before it consumed nothing. -/
  | forced (kind : Kind) (offset : Nat)
  | parsed (bytes diagnostics : Nat)
  | resolved (diagnostics : Nat)
  | flattened (symbols : Nat)
deriving DecidableEq, Repr

def Event.diagnostic? : Event → Option Diagnostic
  | .reported d => some d
  | _ => none

/-- Events with the latest first. -/
structure Journal where
  latestFirst : List Event
deriving DecidableEq, Repr

namespace Journal

def empty : Journal := ⟨[]⟩

instance : Inhabited Journal := ⟨empty⟩

def record (j : Journal) (e : Event) : Journal := ⟨e :: j.latestFirst⟩

def report (j : Journal) (d : Diagnostic) : Journal := j.record (.reported d)

def reportAll (j : Journal) (ds : List Diagnostic) : Journal := ds.foldl report j

def events (j : Journal) : List Event := j.latestFirst.reverse

def diagnostics (j : Journal) : List Diagnostic := j.events.filterMap Event.diagnostic?

/-- The latest diagnostic, if there is one. -/
def lastDiagnostic? (j : Journal) : Option Diagnostic :=
  j.latestFirst.findSome? Event.diagnostic?

@[simp] theorem diagnostics_empty : empty.diagnostics = [] := rfl

@[simp] theorem diagnostics_record (j : Journal) (e : Event) :
    (j.record e).diagnostics = j.diagnostics ++ e.diagnostic?.toList := by
  simp only [diagnostics, events, record, List.reverse_cons, List.filterMap_append]
  cases h : e.diagnostic? <;> simp [h]

@[simp] theorem diagnostics_report (j : Journal) (d : Diagnostic) :
    (j.report d).diagnostics = j.diagnostics ++ [d] :=
  diagnostics_record j (.reported d)

@[simp] theorem diagnostics_reportAll (j : Journal) (ds : List Diagnostic) :
    (j.reportAll ds).diagnostics = j.diagnostics ++ ds := by
  induction ds generalizing j with
  | nil => simp [reportAll]
  | cons d later ih =>
    have : j.reportAll (d :: later) = (j.report d).reportAll later := rfl
    rw [this, ih, diagnostics_report, List.append_assoc]
    rfl

theorem lastDiagnostic?_eq_none {j : Journal} (h : j.diagnostics = []) :
    j.lastDiagnostic? = none := by
  rw [diagnostics, events, List.filterMap_reverse, List.reverse_eq_nil_iff] at h
  rw [lastDiagnostic?, List.findSome?_eq_none_iff]
  exact List.filterMap_eq_nil_iff.1 h

end Journal

/-- How much a line of the log matters. -/
inductive Level where
  | trace
  | debug
deriving DecidableEq, Repr

def Level.title : Level → String
  | .trace => "TRACE"
  | .debug => "DEBUG"

namespace Event

/-- The line that a verbose run logs for an event: its level, the part of the program that it
comes from, and its text. -/
def log? : Event → Option (Level × String × String)
  | .reported d =>
    some (.trace, "selenite::diagnostic", "diagnostic at " ++ d.render)
  | .took _ => none
  | .supplied kind offset =>
    some (.trace, "selenite::ast::parser", s!"synthesized missing {kind.title} at {offset}")
  | .forced kind offset =>
    some (.trace, "selenite::ast::parser", s!"forcing progress past {kind.title} at {offset}")
  | .parsed bytes diagnostics =>
    some (.debug, "selenite::ast", s!"parsed {bytes} bytes with {diagnostics} diagnostics")
  | .resolved diagnostics =>
    some (.debug, "selenite::binder", s!"bound chunk with {diagnostics} binding diagnostics")
  | .flattened symbols =>
    some (.debug, "selenite::lower", s!"lowered chunk, generating {symbols} symbols")

end Event
end LuaFront
