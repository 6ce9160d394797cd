import LuaFront.Cli.Prompt
import LuaFront.Proofs.Resolved.Segments
import LuaFront.Proofs.Syntax.FirstError
import LuaFront.Proofs.Token.LineCut

/-!
# LuaFront.Proofs.Cli.Prompt

Programs that arrive line by line.

* `Tree.diagnostics_cut`: a program that is cut off behind a line is a program, or it is said that
  the end of file was met, or a string or a long comment does not end.
* `Prompt.awaits`: so the prompt asks for the lines that are missing and does not complain, except
  where the line ends within a string between quotes.
* `Prompt.gives_up`: there it may complain of a program that the next line would have completed.
-/

namespace LuaFront

open Text (Source)

/-- Whoever meets the end of file says that the input ended too soon. -/
theorem Cli.endedTooSoon_of_names {cause : Cause} (h : cause.Names .endOfFile) :
    endedTooSoon cause = true := by
  cases h <;> rfl

namespace Syntax.Tree

variable {whole part : Source}

/-- What the lexemes of a text have to say is among its diagnostics. -/
theorem diagnostics_of_lexemes {l : Lexeme} (hl : l ∈ (Scanner.ofSource part).lexemes) :
    l.diagnostics ⊆ (parse part).diagnostics := by
  obtain ⟨last, hspreads, -, -, hdiagnostics, hend⟩ := parse_lays part
  rw [hdiagnostics]
  exact hspreads.acts.diagnostics_subset hend hl

/-- Nothing is said about the tokens of a program. -/
theorem clean_of_diagnostics (h : (parse whole).diagnostics = []) :
    ∀ l ∈ (Scanner.ofSource whole).lexemes, l.diagnostics = [] := by
  intro l hl
  have hsub := diagnostics_of_lexemes hl
  rw [h] at hsub
  exact List.subset_nil.1 hsub

/-- The tokens that a program starts with can only be followed too early by the end of file. -/
theorem endOfFile_of_prefix (hwhole : (parse whole).diagnostics = []) {ts us : List Token}
    {eof : Token} (hts : (Scanner.ofSource whole).lexemes = (ts ++ us).map (⟨·, []⟩))
    (hpart : (Scanner.ofSource part).lexemes = (ts ++ [eof]).map (⟨·, []⟩))
    (hparsed : (parse part).diagnostics ≠ []) :
    ∃ d ∈ (parse part).diagnostics, d.cause.Names .endOfFile := by
  have hlexed : ∀ l ∈ (Scanner.ofSource part).lexemes, l.diagnostics = [] := by
    rw [hpart, List.forall_mem_map]
    exact fun _ _ => rfl
  obtain ⟨consumed, s, d, htokens, -, -, hreport, htold⟩ := blames_of_diagnostics hlexed hparsed
  by_cases hend : s.current.kind = .endOfFile
  · exact htold hend
  · refine absurd ?_ (not_viable hlexed htokens hreport)
    -- What was consumed and the token that was met are where the program starts.
    have hsame : consumed ++ s.current :: s.ahead.map Lexeme.token = ts ++ [eof] := by
      have hmap := congrArg (List.map Lexeme.token) hpart
      rw [List.map_map, ← Reading.tokens_ofSource, htokens] at hmap
      exact hmap.trans (List.map_id _)
    have hrest : s.ahead.map Lexeme.token ≠ [] := by
      have hordered := (Reading.sound_ofSource part).ordered
      rw [htokens] at hordered
      exact fun hnil => hend (hordered.endOfFile_iff.2 hnil)
    obtain ⟨more, hmore⟩ : consumed ++ [s.current] <+: ts := by
      rw [← List.singleton_append, ← List.append_assoc] at hsame
      rcases List.append_eq_append_iff.1 hsame with ⟨m, hm, -⟩ | ⟨m, hm, hlast⟩
      · exact ⟨m, hm.symm⟩
      · have hlength := congrArg List.length hlast
        have hpos := List.length_pos_iff.2 hrest
        simp only [List.length_append, List.length_singleton] at hlength
        have hnil : m = [] := List.eq_nil_of_length_eq_zero (by omega)
        rw [hnil, List.append_nil] at hm
        exact ⟨[], by rw [hm, List.append_nil]⟩
    refine ⟨whole, (parse whole).root, clean_of_diagnostics hwhole, ?_, ?_⟩
    · rw [← Reading.tokens_ofSource]
      exact (parse_reads whole).1 hwhole
    · rw [Source.words, hts, List.map_map, ← hmore, List.append_assoc]
      exact (List.prefix_append (consumed ++ [s.current]) (more ++ us)).map _

/-- A program that is cut off behind a line: nothing is wrong with what is left of it, or that it
ended too soon is seen from its diagnostics, or it ends within a string between quotes. -/
theorem diagnostics_cut {q : List Char} (hchars : whole.chars = part.chars ++ q)
    (hline : Scanner.AtLine part.chars) (hwhole : (parse whole).diagnostics = []) :
    (parse part).diagnostics = [] ∨ Cli.unfinished (parse part).diagnostics = true ∨
      (Scanner.ofSource whole).Quotes part.length ∧
        ∃ d ∈ (parse part).diagnostics, d.cause = .unterminatedString := by
  have hunfinished {d : Diagnostic} (hd : d ∈ (parse part).diagnostics)
      (hcause : Cli.endedTooSoon d.cause = true) :
      Cli.unfinished (parse part).diagnostics = true :=
    List.any_eq_true.2 ⟨d, hd, hcause⟩
  have hscanner : Scanner.ofSource whole = ⟨0, part.chars ++ q⟩ := by
    rw [Scanner.ofSource, hchars]
  have hclean := clean_of_diagnostics hwhole
  rw [hscanner] at hclean
  cases Scanner.lexemes_cut hline 0 q hclean with
  | between ts hus hk hts hpart =>
    by_cases hparsed : (parse part).diagnostics = []
    · exact .inl hparsed
    · rw [← hscanner] at hts
      obtain ⟨d, hd, hnames⟩ := endOfFile_of_prefix hwhole hts hpart hparsed
      exact .inr (.inl (hunfinished hd (Cli.endedTooSoon_of_names hnames)))
  | long hl hd hcause =>
    refine .inr (.inl (hunfinished (diagnostics_of_lexemes hl hd) ?_))
    rcases hcause with hcause | hcause <;> rw [hcause] <;> rfl
  | quoted hl hd hcause hquotes =>
    simp only [Nat.zero_add] at hquotes
    rw [← hscanner, ← part.length_eq_size_chars] at hquotes
    exact .inr (.inr ⟨hquotes, _, diagnostics_of_lexemes hl hd, hcause⟩)

end Syntax.Tree

namespace Cli.Prompt

open Syntax (Tree)

/-- The prompt gives an input up only if that is no program and is not seen to have ended too
soon. -/
theorem diagnostics_read {verbose : Bool} {lines : List (List Char)} {tree : Tree}
    (h : (read verbose lines).1 = some tree) : tree.diagnostics = [] ∨
      tree = Tree.parse (.ofSegments lines) ∧ unfinished tree.diagnostics = false := by
  simp only [read] at h
  split at h
  next hempty =>
    cases h
    exact .inl (List.isEmpty_iff.1 hempty)
  next =>
    split at h
    next => cases h
    next hfinished =>
      cases h
      exact .inr ⟨rfl, by simpa using hfinished⟩

/-- Lines that start a program, up to the end of one of them, are a program or are seen to have
ended too soon, so that the prompt asks for more and complains of nothing, unless they end within a
string between quotes. -/
theorem awaits (whole : Source) (lines : List (List Char)) (q : List Char)
    (hchars : whole.chars = lines.flatten ++ q) (hline : lines.flatten.getLast? = some '\n')
    (hwhole : (Tree.parse whole).diagnostics = []) :
    (((Tree.parse (.ofSegments lines)).diagnostics = [] ∨
        unfinished (Tree.parse (.ofSegments lines)).diagnostics = true) ∧
      ∀ verbose tree, (read verbose lines).1 = some tree → tree.diagnostics = []) ∨
    (Scanner.ofSource whole).Quotes (Source.ofSegments lines).length ∧
      ∃ d ∈ (Tree.parse (.ofSegments lines)).diagnostics, d.cause = .unterminatedString := by
  have hsegments := Source.chars_ofSegments lines
  have hatLine : Scanner.AtLine (Source.ofSegments lines).chars := by
    intro c hc
    rw [hsegments, hline] at hc
    exact (Option.some.inj hc).symm
  rw [← hsegments] at hchars
  rcases Tree.diagnostics_cut hchars hatLine hwhole with hnone | hsoon | hquoted
  · refine .inl ⟨.inl hnone, fun verbose tree htree => ?_⟩
    rcases diagnostics_read htree with hempty | ⟨rfl, -⟩
    · exact hempty
    · exact hnone
  · refine .inl ⟨.inr hsoon, fun verbose tree htree => ?_⟩
    rcases diagnostics_read htree with hempty | ⟨rfl, hfinished⟩
    · exact hempty
    · rw [hsoon] at hfinished
      cases hfinished
  · exact .inr hquoted

/-- In front of an equals sign, behind a target that is none yet. -/
theorem awaits_target :
    let whole := Source.ofString "x,\nf()\n.y = 1"
    let lines := ["x,\n".toList, "f()\n".toList]
    whole.chars = lines.flatten ++ ".y = 1".toList ∧ lines.flatten.getLast? = some '\n' ∧
      (Tree.parse whole).diagnostics = [] ∧
      ((((Tree.parse (.ofSegments lines)).diagnostics = [] ∨
          unfinished (Tree.parse (.ofSegments lines)).diagnostics = true) ∧
        ∀ verbose tree, (read verbose lines).1 = some tree → tree.diagnostics = []) ∨
      (Scanner.ofSource whole).Quotes (Source.ofSegments lines).length ∧
        ∃ d ∈ (Tree.parse (.ofSegments lines)).diagnostics, d.cause = .unterminatedString) := by
  intro whole lines
  have hchars : whole.chars = lines.flatten ++ ".y = 1".toList := by decide +kernel
  have hline : lines.flatten.getLast? = some '\n' := by decide +kernel
  have hwhole : (Tree.parse whole).diagnostics = [] := by decide +kernel
  exact ⟨hchars, hline, hwhole, awaits whole lines _ hchars hline hwhole⟩

/-- A line that ends with a backslash within a string is given up, though the next line would
complete it. -/
theorem gives_up :
    let whole := Source.ofString "x = \"a\\\nb\"\n"
    let lines := ["x = \"a\\\n".toList]
    whole.chars = lines.flatten ++ "b\"\n".toList ∧ (Tree.parse whole).diagnostics = [] ∧
      (Tree.parse (.ofSegments lines)).diagnostics ≠ [] ∧
      unfinished (Tree.parse (.ofSegments lines)).diagnostics = false ∧
      (read false lines).1.map Tree.diagnostics =
        some (Tree.parse (.ofSegments lines)).diagnostics := by
  decide +kernel

end Cli.Prompt
end LuaFront
