import Frontend.Proofs.Parse.Exposed
import Frontend.Proofs.Parse.Spelled
import Frontend.Tree.Equality

/-!
# Which statements are read back from their text

What is parsed from a source can be printed and parsed again. The text of a statement is read back
as one statement with the same text, and nothing is reported, unless the statement exposes a name:
in the text, other characters may stand behind a name than in the source, and a name that is spelled
like a keyword may be taken for the keyword there. So `if;` is a statement, but its text `if` is
not.

* `Stmt.reread_of_legible`, `Stmt.legible_of_clean`: where no name is exposed, the text is read as a
  statement with the same plain form; where nothing is reported, no name is exposed.
* `Stmt.isReadBack_iff`: which spelled statements are read back.
* `isReadBack_of_ofSource_iff`: the same for the statements of a source.
* `not_isReadBack_if`: a statement that is not read back.
-/

namespace Frontend

/-- The text of the statement is read as one statement with this text, and nothing is reported. -/
def Stmt.IsReadBack (s : Stmt) : Prop :=
  ∃ s', Program.ofSource .default s.text = ⟨[s'], []⟩ ∧ s'.text = s.text

/-- A source whose tokens are a rendering of statements is read as these. -/
theorem exists_ofSource {source : String} {P : List Stmt → Prop}
    (h : Reads source.toList [] fun ts => ∃ body, RendersBody body ts ∧ P body) :
    ∃ body, Program.ofSource .default source = ⟨body, []⟩ ∧ P body := by
  obtain ⟨ts, ⟨body, hRenders, hBody⟩, hTokens⟩ := h 0
  rw [List.append_nil, Piece.scan_nil] at hTokens
  have hEnds : Parse.Ends false (Reading.default.tokensOf
      (0 + Text.byteLength source.toList) []) := by
    rintro t ⟨⟩
    exact Or.inl rfl
  have hParse := Parse.statements_of_renders
    (Parse.isStandard_ofTokens (Reading.default.tokens source)) hRenders hEnds
  rw [← hTokens] at hParse
  exact ⟨body, congrArg (fun step => Program.mk step.value step.errors) hParse, hBody⟩

/-- The text of a statement in which no name is exposed is read as a statement like it. -/
theorem Stmt.reread_of_legible {s : Stmt} (hSpelled : s.isSpelled = true)
    (hExposed : s.isExposed = false) (hKeyword : s.isKeyword = false) :
    ∃ s', Program.ofSource .default s.text = ⟨[s'], []⟩ ∧ s'.plain = s.plain := by
  have hEnds : s.EndsBefore [] := ⟨fun _ _ _ => nofun, by simp [hKeyword]⟩
  have hReads : Reads s.text.toList [] fun ts =>
      ∃ body', RendersBody body' ts ∧ bodyPlain body' = bodyPlain [s] := by
    refine (reads_stmt s hSpelled hExposed hEnds).imp fun ts hStmt => ?_
    obtain ⟨body', hRenders, hPlain, -⟩ := hStmt.cons rendersBodyLike_nil
    rw [List.append_nil] at hRenders
    exact ⟨body', hRenders, hPlain⟩
  obtain ⟨body', hRead, hPlain⟩ := exists_ofSource hReads
  rw [bodyPlain_eq_map, bodyPlain_eq_map] at hPlain
  obtain ⟨s', rfl⟩ : ∃ s', body' = [s'] := by
    have hLength := congrArg List.length hPlain
    rw [List.length_map, List.length_map] at hLength
    exact List.length_eq_one_iff.1 hLength
  exact ⟨s', hRead, (List.cons.inj hPlain).1⟩

theorem Stmt.isReadBack_of_legible {s : Stmt} (hSpelled : s.isSpelled = true)
    (hExposed : s.isExposed = false) (hKeyword : s.isKeyword = false) : s.IsReadBack := by
  obtain ⟨s', hRead, hPlain⟩ := s.reread_of_legible hSpelled hExposed hKeyword
  refine ⟨s', hRead, ?_⟩
  rw [← s'.text_plain, hPlain, s.text_plain]

/-- A text whose first statement is reported has a report. -/
theorem errors_ne_nil_of_fails {s : Stmt} (hStarts : Starts s.text.toList)
    (h : ∀ p : Parse.Setting, p.IsStandard → Yields (s.text.toList ++ []) (Parse.StmtFails p)) :
    (Program.ofSource .default s.text).errors ≠ [] := by
  have hp := Parse.isStandard_ofTokens (Reading.default.tokens s.text)
  obtain ⟨t, tail, hTokens, hEnd, -⟩ := Parse.yields_starts hStarts [] 0
  have hFails := h _ hp 0
  rw [List.append_nil] at hFails hTokens
  have hNot : ¬ Parse.Ends false (Reading.default.tokens s.text) := by
    rw [Reading.tokens, hTokens]
    intro hEnds
    rcases hEnds t rfl with hIsEnd | ⟨hFalse, -⟩
    · rw [hEnd] at hIsEnd
      cases hIsEnd
    · cases hFalse
  exact Parse.statements_fails hNot hFails

/-- A text without a report exposes no name, and is no keyword by itself. -/
theorem Stmt.legible_of_clean {s : Stmt} (hSpelled : s.isSpelled = true)
    (hClean : (Program.ofSource .default s.text).errors = []) :
    s.isExposed = false ∧ s.isKeyword = false := by
  have hStarts := Stmt.text_starts hSpelled
  constructor
  · refine Bool.eq_false_iff.2 fun hExposed => ?_
    exact errors_ne_nil_of_fails hStarts
      (fun p hp => Parse.stmtFails_of_exposed hp s hSpelled hExposed []) hClean
  · refine Bool.eq_false_iff.2 fun hKeyword => ?_
    refine errors_ne_nil_of_fails hStarts (fun p hp => ?_) hClean
    match s, hKeyword with
    | .expr (.name n), hKeyword =>
      obtain ⟨k, hk, rfl⟩ := spellsKeyword_iff.1 hKeyword
      intro offset
      have hReads : Reads k.spelling.toList [] (One k) := reads_keyword hk rfl
      obtain ⟨_, ⟨t, rfl, hIs⟩, hTokens⟩ := hReads offset
      rw [Stmt.text, Expr.text, hTokens, Piece.scan_nil]
      exact Parse.stmtFails_of_isEnd hp hk hIs rfl

/-- A statement that a source can spell is read back from its text exactly if no name is exposed in
it and it is no keyword by itself. -/
theorem Stmt.isReadBack_iff {s : Stmt} (hSpelled : s.isSpelled = true) :
    s.IsReadBack ↔ s.isExposed = false ∧ s.isKeyword = false := by
  constructor
  · rintro ⟨s', hRead, -⟩
    exact Stmt.legible_of_clean hSpelled (congrArg Program.errors hRead)
  · rintro ⟨hExposed, hKeyword⟩
    exact Stmt.isReadBack_of_legible hSpelled hExposed hKeyword

/-- A statement of a source is read back from its text exactly if no name is exposed in it and it is
no keyword by itself. -/
theorem isReadBack_of_ofSource_iff {source : String} {s : Stmt}
    (h : s ∈ (Program.ofSource .default source).statements) :
    s.IsReadBack ↔ s.isExposed = false ∧ s.isKeyword = false :=
  Stmt.isReadBack_iff (isSpelled_of_mem_statements h)

/-- A source with names that are spelled like keywords. -/
def hidden : String := "if (for) { b; true; return var; fn; }"

/-- The statement of `hidden`. A bracket or a semicolon stands behind each name in its text, as in
the source, or the name is no keyword. -/
def hiddenStmt : Stmt :=
  .expr (.cond (.name "for") [.expr (.name "b"), .expr (.bool true), .ret (.name "var"),
    .expr (.name "fn")] none)

theorem isReadBack_hiddenStmt :
    hiddenStmt ∈ (Program.ofSource .default hidden).statements ∧ hiddenStmt.IsReadBack := by
  have hMem : hiddenStmt ∈ (Program.ofSource .default hidden).statements := by decide +kernel
  have hParts : hiddenStmt.isExposed = false ∧ hiddenStmt.isKeyword = false := by decide +kernel
  exact ⟨hMem, (isReadBack_of_ofSource_iff hMem).2 hParts⟩

/-- The source `if;` has a statement, the text of which is read as a keyword. -/
theorem not_isReadBack_if :
    ∃ s ∈ (Program.ofSource .default "if;").statements, ¬ s.IsReadBack := by
  refine ⟨.expr (.name "if"), by decide +kernel, fun hRead => ?_⟩
  have hParts := (Stmt.isReadBack_iff (by decide)).1 hRead
  exact absurd hParts.2 (by decide)

end Frontend
