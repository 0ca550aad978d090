import Frontend.Proofs.Parse.Grounds
import Frontend.Proofs.Token.Break
import Frontend.Proofs.Token.Partition

/-!
# The tokens that reports are about

A report carries a place and the text of a token, and the two are read from the list one after the
other, sometimes at the place and sometimes at the token behind it. This module says that they
always belong to the same token. In a source, a report so stands at a boundary between characters,
and what it quotes stands right behind the boundary.

* `Diagnostic.IsAbout`: a report and the token it is about.
* `Fault.HasGround.isAbout`: a report with a ground in a token is about that token.
* `exists_token_of_error`: for a token list, which may lack the mark of its end.
* `Diagnostic.Quotes`: what a report and the source have in common.
* `errors_attributed`: for token lists and for sources.
-/

namespace Frontend

/-- The text of the token that the fault is about. A tree that has no value has none. -/
def Fault.token? : Fault → Option String
  | .unexpectedToken t => some t
  | .expectedName t => some t
  | .expectedAssignment t => some t
  | .missingSemicolon _ t => some t
  | .missingOpeningParen _ t => some t
  | .missingClosingParen _ t => some t
  | .missingOpeningCurly _ t => some t
  | .noOperand t => some t
  | .notInteger t => some t
  | .notTruth t => some t
  | .notEvaluable _ => none

/-- The report is at the beginning of the token, and refers to it as messages do. -/
structure Diagnostic.IsAbout (d : Diagnostic) (t : Token) : Prop where
  position : d.position = t.span.first
  token : d.fault.token? = some t.describe

/-- A literal is not the mark of the end, so that its report quotes it. -/
theorem Fault.HasGround.isAbout {t : Token} {f : Fault} (h : f.HasGround t) :
    (Parse.faultAt t f).IsAbout t := by
  refine ⟨rfl, ?_⟩
  cases h with
  | notInteger hClass _ =>
    rw [Token.describe_of_not_isEnd (by simp [Token.isEnd, hClass])]
    rfl
  | notTruth hClass _ =>
    rw [Token.describe_of_not_isEnd (by simp [Token.isEnd, hClass])]
    rfl
  | _ => rfl

namespace Parse

/-- Each report of a parse is about a token of the list or about the mark that is seen behind it. -/
theorem exists_token_of_error {tokens : List Token} {d : Diagnostic}
    (hError : d ∈ (Program.parse tokens).errors) :
    ∃ t, (t ∈ tokens ∨ t = Program.endMark tokens) ∧ d.IsAbout t := by
  obtain ⟨t, hMem, f, hGround, rfl⟩ := exists_ground_of_error hError
  exact ⟨t, hMem, hGround.isAbout⟩

end Parse

/-! ## Reports and sources -/

open Text (byteLength)

/-- The mark of the end is itself a token of a source. -/
theorem exists_ground_of_ofSource {r : Reading} {source : String} {d : Diagnostic}
    (hError : d ∈ (Program.ofSource r source).errors) :
    ∃ t ∈ r.tokens source, ∃ f : Fault, f.HasGround t ∧ d = Parse.faultAt t f := by
  obtain ⟨t, hMem | rfl, f, hGround, hReport⟩ := Parse.exists_ground_of_error hError
  · exact ⟨t, hMem, f, hGround, hReport⟩
  · obtain ⟨written, hTokens, -⟩ := tokensOf_eq r 0 source.toList
    have hEnd : Program.endMark (r.tokens source) =
        .endOfInput r.file (0 + byteLength source.toList) := by
      rw [Reading.tokens, hTokens]
      exact Parse.endMark_append rfl
    refine ⟨_, ?_, f, hGround, hReport⟩
    rw [hEnd, Reading.tokens, hTokens]
    exact List.mem_concat_self

theorem exists_token_of_ofSource {r : Reading} {source : String} {d : Diagnostic}
    (hError : d ∈ (Program.ofSource r source).errors) :
    ∃ t ∈ r.tokens source, d.IsAbout t := by
  obtain ⟨t, hMem, f, hGround, rfl⟩ := exists_ground_of_ofSource hError
  exact ⟨t, hMem, hGround.isAbout⟩

/-- A report about a token of a source is at the end of the source and says so, or it is where the
token stands and gives its lexeme. -/
theorem Diagnostic.IsAbout.place {d : Diagnostic} {t : Token} {r : Reading} {source : String}
    (h : d.IsAbout t) (hSize : byteLength source.toList < UInt32.size)
    (hMem : t ∈ r.tokens source) :
    (d.fault.token? = some "end of input" ∧
        d.position.offset.toNat = byteLength source.toList) ∨
      (t.isEnd = false ∧ d.fault.token? = some t.lexeme ∧
        ∃ before after, source.toList = before ++ (t.lexeme.toList ++ after) ∧
          byteLength before = d.position.offset.toNat) := by
  have hOffset : d.position.offset = t.span.start := by
    rw [h.position]
    rfl
  obtain ⟨parts, last, hParts⟩ := exists_partitions r source hSize
  rw [hParts.tokens, List.mem_append, List.mem_singleton] at hMem
  rw [h.token, hOffset]
  rcases hMem with hPart | rfl
  · obtain ⟨hEnd, -, before, after, hSource, hStart, -⟩ := hParts.slices t hPart
    rw [List.append_assoc] at hSource
    right
    refine ⟨hEnd, ?_, before, after, hSource, hStart⟩
    rw [Token.describe_of_not_isEnd (by simp [hEnd])]
  · left
    refine ⟨?_, hParts.last_span.1⟩
    rw [Token.describe, if_pos hParts.last_isEnd]

/-- The report is at the end of the source and speaks of it, or the text that it quotes begins right
there in the source. -/
def Diagnostic.Quotes (source : List Char) (d : Diagnostic) : Prop :=
  ∃ before behind, source = before ++ behind ∧ byteLength before = d.position.offset.toNat ∧
    ((d.position.offset.toNat = byteLength source ∧ d.fault.token? = some "end of input") ∨
      ∃ text, d.fault.token? = some text ∧ text ≠ "" ∧ text.toList <+: behind)

theorem Diagnostic.IsAbout.quotes {d : Diagnostic} {t : Token} {r : Reading} {source : String}
    (h : d.IsAbout t) (hSize : byteLength source.toList < UInt32.size)
    (hMem : t ∈ r.tokens source) : d.Quotes source.toList := by
  rcases h.place hSize hMem with ⟨hToken, hPlace⟩ | ⟨hEnd, hToken, before, after, hSource, hPlace⟩
  · exact ⟨source.toList, [], (List.append_nil _).symm, hPlace.symm, Or.inl ⟨hPlace, hToken⟩⟩
  · obtain ⟨behind, hFound⟩ := exists_classify_of_mem_tokensOf hMem hEnd
    have hText : t.lexeme ≠ "" := by
      intro hNone
      exact classify_ne_nil hFound (by rw [hNone]; rfl)
    exact ⟨before, _, hSource, hPlace, Or.inr ⟨t.lexeme, hToken, hText, List.prefix_append _ _⟩⟩

/-- Each report is about one token, in its place as in what it quotes. For a token list this is a
token of the list or the mark behind it. In a source, the report is at the end and says so, or it
quotes what stands in the source where it is. -/
theorem errors_attributed :
    (∀ tokens, ∀ d ∈ (Program.parse tokens).errors,
      ∃ t, (t ∈ tokens ∨ t = Program.endMark tokens) ∧ d.IsAbout t) ∧
    ∀ (file : Option String) (skipBlanks verbose : Bool) (source : String),
      byteLength source.toList < UInt32.size →
      ∀ d ∈ (Program.ofSource ⟨file.getD Reading.unnamed, skipBlanks, verbose⟩ source).errors,
        d.position.file = file.getD "shell" ∧ d.Quotes source.toList := by
  constructor
  · exact fun _ _ hError => Parse.exists_token_of_error hError
  · intro file skipBlanks verbose source hSize d hError
    obtain ⟨t, hMem, hAbout⟩ := exists_token_of_ofSource hError
    refine ⟨?_, hAbout.quotes hSize hMem⟩
    rw [hAbout.position]
    exact file_of_mem_tokensOf hMem

/-- A parenthesis that is not closed, behind a character that is no token. -/
def unclosed : String := "return é (1"

/-- The report about it is at the end, eleven characters but twelve bytes on. -/
def unclosedReport : Diagnostic :=
  ⟨.missingClosingParen "grouped expression" "end of input", ⟨"main.lang", 12⟩⟩

theorem errors_attributed_unclosed :
    byteLength unclosed.toList < UInt32.size ∧
      unclosedReport ∈ (Program.ofSource ⟨"main.lang", true, false⟩ unclosed).errors ∧
      (∃ t, (t ∈ Reading.tokens ⟨"main.lang", true, false⟩ unclosed ∨
        t = Program.endMark (Reading.tokens ⟨"main.lang", true, false⟩ unclosed)) ∧
        unclosedReport.IsAbout t) ∧
      unclosedReport.Quotes unclosed.toList :=
  have hSize : byteLength unclosed.toList < UInt32.size := by decide
  have hError : unclosedReport ∈
      (Program.ofSource ⟨"main.lang", true, false⟩ unclosed).errors := by decide +kernel
  ⟨hSize, hError, errors_attributed.1 _ _ hError,
    (errors_attributed.2 (some "main.lang") true false unclosed hSize _ hError).2⟩

end Frontend
