import Frontend.Proofs.Parse.Completeness
import Frontend.Proofs.Tree.Legible
import Mathlib.Data.List.Chain

/-!
# Reading a printed program back

The text of a program puts nothing between its statements, so two of them may run into each other: a
name at the end of the one and a word at the beginning of the other are read as one word. Where this
does not happen, a printable program is read back from its text.

* `reads_program`: the tokens of the text are a rendering of the program in its plain form.
* `ofSource_programText`: nothing is reported, and the statements read are those printed, up to
  truth values and names with the same text. So they are printed alike.
-/

namespace Frontend

open Rule (isWordChar)

/-- No word goes on from the text of the statement into the text of the next one. -/
def Stmt.PartedFrom (s next : Stmt) : Prop :=
  ¬ (s.text.toList.getLast?.any isWordChar = true ∧ next.text.toList.head?.any isWordChar = true)

instance (s next : Stmt) : Decidable (s.PartedFrom next) :=
  inferInstanceAs (Decidable (¬ (_ ∧ _)))

theorem apart_programText {s : Stmt} {rest : List Stmt}
    (hRest : ∀ next ∈ rest.head?, next.isPrintable = true ∧ s.PartedFrom next) :
    Apart s.text.toList (programText rest).toList := by
  cases rest with
  | nil => exact fun _ _ _ => nofun
  | cons next others =>
    obtain ⟨hPrintable, hParted⟩ := hRest next rfl
    obtain ⟨c, tail, hText, hChar⟩ := Stmt.text_starts (Stmt.legible_of_isPrintable hPrintable).1
    intro a ha hWord b hb
    rw [programText, String.toList_append, hText] at hb
    cases hb
    have hLast : s.text.toList.getLast?.any isWordChar = true :=
      (Option.any_eq_true _ _).2 ⟨a, ha, hWord⟩
    rcases hChar with hChar | rfl
    · refine absurd ⟨hLast, ?_⟩ hParted
      rw [hText]
      exact hChar
    · decide

/-- The text of a program is read as a rendering of its statements. -/
theorem reads_program {program : List Stmt} (hPrintable : ∀ s ∈ program, s.isPrintable = true)
    (hParted : program.IsChain Stmt.PartedFrom) :
    Reads (programText program).toList [] (RendersBodyLike program) := by
  induction program with
  | nil => exact reads_nil rendersBodyLike_nil
  | cons s rest ih =>
    have hFirst := hPrintable s List.mem_cons_self
    obtain ⟨hSpelled, hExposed⟩ := Stmt.legible_of_isPrintable hFirst
    have hEnds : s.EndsBefore ((programText rest).toList ++ []) := by
      rw [List.append_nil]
      refine ⟨apart_programText fun next hNext => ?_, ?_⟩
      · obtain ⟨others, rfl⟩ := List.head?_eq_some_iff.1 hNext
        exact ⟨hPrintable next (by simp), (List.isChain_cons_cons.1 hParted).1⟩
      · intro hKeyword
        rw [Stmt.isKeyword_of_isPrintable hFirst] at hKeyword
        cases hKeyword
    have hRest := ih (fun t hMem => hPrintable t (List.mem_cons_of_mem s hMem)) hParted.tail
    have hStmt := reads_stmt s hSpelled hExposed hEnds
    rw [programText, String.toList_append]
    refine (hStmt.append hRest).imp ?_
    rintro _ ⟨ts, tsBody, rfl, hStmtLike, hBody⟩
    exact hStmtLike.cons hBody

/-- A printable program is read back from its text, up to truth values and names with the same
text, if no two statements run into each other. -/
theorem ofSource_programText {program : List Stmt}
    (hPrintable : ∀ s ∈ program, s.isPrintable = true)
    (hParted : program.IsChain Stmt.PartedFrom) :
    (Program.ofSource .default (programText program)).errors = [] ∧
      (Program.ofSource .default (programText program)).statements.map Stmt.plain =
        program.map Stmt.plain ∧
      (Program.ofSource .default (programText program)).text = programText program := by
  obtain ⟨ts, ⟨body, hRenders, hPlain, -⟩, hTokens⟩ := reads_program hPrintable hParted 0
  rw [List.append_nil, Piece.scan_nil] at hTokens
  have hRead : Program.ofSource .default (programText program) = ⟨body, []⟩ := by
    have hEnds : Parse.Ends false (Reading.default.tokensOf
        (0 + Text.byteLength (programText program).toList) []) := by
      intro t hT
      cases hT
      exact Or.inl rfl
    have hParse := Parse.statements_of_renders
      (Parse.isStandard_ofTokens (Reading.default.tokens (programText program))) hRenders hEnds
    rw [← hTokens] at hParse
    exact congrArg (fun step => Program.mk step.value step.errors) hParse
  rw [bodyPlain_eq_map, bodyPlain_eq_map] at hPlain
  rw [hRead]
  refine ⟨rfl, hPlain, ?_⟩
  rw [Program.text, ← programText_plain, hPlain, programText_plain]

/-- The program `var flag = (true==(!done));if (flag) {return (-7); x} else {}`. Its truth value
stands before an operator and is read back as a name. -/
def flagged : List Stmt :=
  [.varDecl "flag" (some (.binary .equals (.bool true) (.unary .not (.name "done")))),
    .expr (.cond (.name "flag") [.ret (.unary .negate (.int 7)), .expr (.name "x")] (some []))]

theorem ofSource_programText_flagged :
    (∀ s ∈ flagged, s.isPrintable = true) ∧ flagged.IsChain Stmt.PartedFrom ∧
      (Program.ofSource .default (programText flagged)).errors = [] ∧
      (Program.ofSource .default (programText flagged)).statements.map Stmt.plain =
        flagged.map Stmt.plain ∧
      (Program.ofSource .default (programText flagged)).text = programText flagged := by
  have hPrintable : ∀ s ∈ flagged, s.isPrintable = true := by decide +kernel
  have hParted : flagged.IsChain Stmt.PartedFrom := by decide +kernel
  exact ⟨hPrintable, hParted, ofSource_programText hPrintable hParted⟩

end Frontend
