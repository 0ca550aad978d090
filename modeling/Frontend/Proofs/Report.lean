import Mathlib.Data.List.DropRight
import Frontend.Proofs.Parse.Attribution
import Frontend.Proofs.Text.Line
import Frontend.Proofs.Token.Blanks
import Frontend.Report

/-!
# What reports show

The report of an error that was found in a source always has all of its lines. A token does not
begin with a blank, so it stands behind the indentation of its line, and the caret is moved by
exactly the bytes that are shown in front of the token. The end of a source is shown behind its last
line, and there is one, because nothing is reported about a source of newlines alone.

* `View`: a line of a source, cut up as a report shows it.
* `View.ShowsToken`, `View.ShowsEnd`: the report of a token, and that of the end of a source.
* `exists_view_of_token`, `exists_view_of_end`: the view of each of the two.
* `lines_complete`: the reports about the errors of a source.
-/

namespace Frontend.Report

open Text (byteLength isBlank)

/-- A line of a source, cut up as a report shows it. -/
structure View where
  line : Text.Line
  /-- The lines before it. -/
  before : List Char
  indent : List Char
  shown : List Char
  /-- The blanks at the end of the line. -/
  trailing : List Char
  /-- The width that the caret is moved by. -/
  dashes : Nat

namespace View

def sourceLine (v : View) : String :=
  Decimal.ofNat v.line.number ++ " | " ++ String.ofList v.shown

def caretLine (v : View) : String :=
  bar (Decimal.ofNat v.line.number) ++ " " ++ (String.ofList (List.replicate v.dashes '-') ++ "^")

/-- The report of a diagnostic, with all of its lines. -/
def report (v : View) (d : Diagnostic) : List String :=
  [headline d.fault, "-> " ++ d.position.file, bar (Decimal.ofNat v.line.number), v.sourceLine,
    v.caretLine]

/-- All the spaces and tabs in front of the line are left out, and all the blanks at its end. -/
structure Trims (v : View) : Prop where
  spelled : v.line.text = v.indent ++ (v.shown ++ v.trailing)
  indent : ∀ c ∈ v.indent, c = ' ' ∨ c = '\t'
  first : ∀ c ∈ (v.shown ++ v.trailing).head?, c ≠ ' ' ∧ c ≠ '\t'
  trailing : ∀ c ∈ v.trailing, isBlank c = true
  last : ∀ c ∈ v.shown.getLast?, isBlank c = false

/-- The report of a token. In front of its first character, `front` is shown; from there on,
`behind` is. -/
structure ShowsToken (v : View) (d : Diagnostic) (source front behind : List Char) (text : String) :
    Prop where
  token : d.fault.token? = some text
  lies : ∃ after, v.line.LiesIn source v.before after
  shown : v.shown = front ++ behind
  begins : behind ≠ [] ∧ behind.head? = text.toList.head?
  place : byteLength (v.before ++ v.indent ++ front) = d.position.offset.toNat
  number : v.line.number = 1 + (v.before ++ v.indent ++ front).count '\n'
  moved : v.dashes = byteLength front
  /-- If what is in front of it is ASCII, the token begins above the caret. -/
  under : (∀ c ∈ front, c.toNat < 128) →
    ∃ k : Nat, v.caretLine.toList[k]? = some '^' ∧ v.sourceLine.toList[k]? = text.toList.head?

/-- The report of the end of the source. The line is the last one that is left without the newlines
at the end, and the caret stands just behind its last character. -/
structure ShowsEnd (v : View) (d : Diagnostic) (source : List Char) : Prop where
  token : d.fault.token? = some "end of input"
  spelled : ∃ newlines, source = v.before ++ v.line.text ++ newlines ∧ ∀ c ∈ newlines, c = '\n'
  begins : v.before = [] ∨ v.before.getLast? = some '\n'
  line : v.line.text ≠ [] ∧ '\n' ∉ v.line.text
  number : v.line.number = 1 + v.before.count '\n'
  moved : v.dashes = byteLength (v.shown ++ v.trailing)

/-! ## The view of a line -/

/-- How a report cuts up a line. -/
def of (line : Text.Line) (before : List Char) : View :=
  let indent := line.text.takeWhile isIndent
  let bare := line.text.dropWhile isIndent
  ⟨line, before, indent, trimEnd bare, bare.rtakeWhile isBlank, line.column - byteLength indent⟩

variable {line : Text.Line} {c : Char}

theorem shown_append_trailing (line : Text.Line) (before : List Char) :
    (of line before).shown ++ (of line before).trailing = line.text.dropWhile isIndent :=
  List.rdropWhile_append_rtakeWhile

theorem isIndent_iff : isIndent c = true ↔ c = ' ' ∨ c = '\t' := by
  simp [isIndent]

theorem trims_of (line : Text.Line) (before : List Char) : (of line before).Trims where
  spelled := by
    rw [shown_append_trailing]
    exact List.takeWhile_append_dropWhile.symm
  indent c hc := isIndent_iff.1 (List.mem_takeWhile_imp hc)
  first c hc := by
    rw [shown_append_trailing] at hc
    have hNot := List.head?_dropWhile_not isIndent line.text
    rw [Option.mem_def.1 hc] at hNot
    have hChar : ¬ (c = ' ' ∨ c = '\t') := fun h => by simp [isIndent_iff.2 h] at hNot
    exact not_or.1 hChar
  trailing c hc := List.mem_rtakeWhile_imp hc
  last c hc := by
    obtain ⟨hNonempty, rfl⟩ := List.mem_getLast?_eq_getLast hc
    exact Bool.eq_false_iff.2 (List.rdropWhile_last_not isBlank _ hNonempty)

theorem lines_eq_report {d : Diagnostic} {source : String}
    (h : line? source.toList d.position.offset.toNat = some line) (before : List Char) :
    lines d source = (of line before).report d := by
  rw [lines, h]
  rfl

/-- What is shown of a line goes beyond each character that is no blank. -/
theorem Trims.shown_of_not_isBlank {v : View} {front tail : List Char} (h : v.Trims)
    (hText : v.shown ++ v.trailing = front ++ c :: tail) (hc : isBlank c = false) :
    ∃ behind, v.shown = front ++ c :: behind := by
  rcases List.append_eq_append_iff.1 hText with ⟨more, -, hTrailing⟩ | ⟨behind, hShown, hRest⟩
  · have hBlank := h.trailing c (by simp [hTrailing])
    rw [hc] at hBlank
    cases hBlank
  · cases behind with
    | nil =>
      have hTrailing : v.trailing = c :: tail := hRest.symm
      have hBlank := h.trailing c (by simp [hTrailing])
      rw [hc] at hBlank
      cases hBlank
    | cons d behind =>
      obtain ⟨rfl, -⟩ := List.cons.inj hRest
      exact ⟨behind, hShown⟩

theorem not_isIndent_of_not_isBlank (hc : isBlank c = false) : isIndent c = false := by
  have hSpace : c ≠ ' ' := (ne_of_isBlank (by decide) hc).symm
  have hTab : c ≠ '\t' := (ne_of_isBlank (by decide) hc).symm
  simp [isIndent, hSpace, hTab]

/-- A character on the line that is no blank. The indentation ends before it, and the line is shown
beyond it; a caret below it is moved by what is shown in front of it. -/
theorem of_cut {lead others : List Char} (hLine : line.text = lead ++ c :: others)
    (hColumn : byteLength lead = line.column) (hc : isBlank c = false) (before : List Char) :
    ∃ front behind, (of line before).indent ++ front = lead ∧
      (of line before).shown = front ++ c :: behind ∧
      (of line before).dashes = byteLength front := by
  have hIndent := not_isIndent_of_not_isBlank hc
  have hSplit : (of line before).indent ++ lead.dropWhile isIndent = lead := by
    show line.text.takeWhile isIndent ++ _ = lead
    rw [hLine, takeWhile_append_break hIndent, List.takeWhile_append_dropWhile]
  have hBare : (of line before).shown ++ (of line before).trailing =
      lead.dropWhile isIndent ++ c :: others := by
    rw [shown_append_trailing, hLine, dropWhile_append_break hIndent]
  obtain ⟨behind, hShown⟩ := (trims_of line before).shown_of_not_isBlank hBare hc
  refine ⟨lead.dropWhile isIndent, behind, hSplit, hShown, ?_⟩
  have hWidth : byteLength (of line before).indent + byteLength (lead.dropWhile isIndent) =
      line.column := by
    rw [← Text.byteLength_append, hSplit, hColumn]
  show line.column - byteLength (of line before).indent = _
  omega

/-! ## The caret -/

/-- The caret ends its line. The margin in front of it has the width of the number. -/
theorem getElem?_caretLine (v : View) :
    v.caretLine.toList[(Decimal.ofNat v.line.number).length + 3 + v.dashes]? = some '^' := by
  have hText : v.caretLine.toList =
      (List.replicate ((Decimal.ofNat v.line.number).length + 1) ' ' ++ ['|', ' '] ++
        List.replicate v.dashes '-') ++ ['^'] := by
    simp [caretLine, bar]
  have hWidth : (List.replicate ((Decimal.ofNat v.line.number).length + 1) ' ' ++ ['|', ' '] ++
      List.replicate v.dashes '-').length =
        (Decimal.ofNat v.line.number).length + 3 + v.dashes := by
    simp only [List.length_append, List.length_replicate, List.length_cons, List.length_nil]
  rw [hText, ← hWidth, List.getElem?_concat_length]

/-- What is shown of the source stands behind a margin of the same width. -/
theorem getElem?_sourceLine {v : View} {front behind : List Char}
    (hShown : v.shown = front ++ behind) :
    v.sourceLine.toList[(Decimal.ofNat v.line.number).length + 3 + front.length]? =
      behind.head? := by
  have hText : v.sourceLine.toList =
      ((Decimal.ofNat v.line.number).toList ++ [' ', '|', ' '] ++ front) ++ behind := by
    simp [sourceLine, hShown]
  have hWidth : ((Decimal.ofNat v.line.number).toList ++ [' ', '|', ' '] ++ front).length =
      (Decimal.ofNat v.line.number).length + 3 + front.length := by
    simp only [List.length_append, String.length_toList, List.length_cons, List.length_nil]
  rw [hText, ← hWidth, List.getElem?_append_right (Nat.le_refl _), Nat.sub_self,
    List.head?_eq_getElem?]

theorem byteLength_of_ascii {text : List Char} (h : ∀ c ∈ text, c.toNat < 128) :
    byteLength text = text.length := by
  induction text with
  | nil => rfl
  | cons c rest ih =>
    have hOne : c.utf8Size = 1 := by
      have hc : c.toNat < 128 := h c List.mem_cons_self
      have hLe : c.val ≤ 0x7F := UInt32.le_iff_toNat_le.2 (Nat.le_of_lt_succ hc)
      unfold Char.utf8Size
      exact if_pos hLe
    rw [Text.byteLength_cons, ih fun d hd => h d (List.mem_cons_of_mem c hd), hOne,
      List.length_cons, Nat.add_comm]

end View

/-! ## The report of a token -/

/-- A token in the source that does not begin with a blank. Whatever blanks are in front of it on
its line, the token is not one of them. -/
theorem exists_view_of_token {d : Diagnostic} {source text : String} {before after : List Char}
    {c : Char} {more : List Char} (hToken : d.fault.token? = some text)
    (hSource : source.toList = before ++ (text.toList ++ after))
    (hPlace : byteLength before = d.position.offset.toNat) (hText : text.toList = c :: more)
    (hc : isBlank c = false) :
    d.position.offset.toNat < byteLength source.toList ∧
      ∃ v : View, lines d source = v.report d ∧ v.Trims ∧
        ∃ front behind, v.ShowsToken d source.toList front behind text := by
  have hInside : d.position.offset.toNat < byteLength source.toList := by
    have hPos := c.utf8Size_pos
    rw [hSource, hText, ← hPlace]
    simp only [Text.byteLength_append, List.cons_append, Text.byteLength_cons]
    omega
  obtain ⟨line, hLine⟩ : ∃ line, Text.Line.locate? source.toList d.position.offset.toNat =
      some line := by
    rw [← Option.ne_none_iff_exists']
    exact fun hNone => Nat.not_le_of_lt hInside (Text.Line.locate?_eq_none_iff.1 hNone)
  obtain ⟨start, rest, hLies, hOffset, hColumn⟩ := Text.Line.locate?_eq_some hLine
  have hLies' := hLies
  rw [hSource] at hLies'
  obtain ⟨lead, tail, rfl, hLead, hTail, hNonempty, hLength, hNewline⟩ :=
    hLies'.cut (hOffset.trans hPlace.symm) hColumn
  -- The rest of the line begins with the token.
  obtain ⟨others, rfl⟩ : ∃ others, tail = c :: others := by
    cases tail with
    | nil => exact absurd rfl hNonempty
    | cons e others =>
      rw [hText, List.cons_append, List.cons_append] at hTail
      exact ⟨others, by rw [(List.cons.inj hTail).1]⟩
  obtain ⟨front, behind, hSplit, hShown, hDashes⟩ := View.of_cut hLead hLength hc start
  have hBefore : start ++ (View.of line start).indent ++ front = start ++ lead := by
    rw [List.append_assoc, hSplit]
  refine ⟨hInside, View.of line start, View.lines_eq_report (by rw [line?, hLine]; rfl) start,
    View.trims_of line start, front, c :: behind, hToken, ⟨rest, hLies⟩, hShown,
    ⟨nofun, by rw [hText]; rfl⟩, ?_, ?_, hDashes, ?_⟩
  · show byteLength (start ++ (View.of line start).indent ++ front) = _
    rw [hBefore, hPlace]
  · show line.number = 1 + (start ++ (View.of line start).indent ++ front).count '\n'
    rw [hBefore, List.count_append, List.count_eq_zero.2 hNewline]
    exact hLies.number
  · intro hAscii
    refine ⟨_, (View.of line start).getElem?_caretLine, ?_⟩
    rw [hDashes, View.byteLength_of_ascii hAscii, View.getElem?_sourceLine hShown, hText]
    rfl

/-! ## The report of the end -/

theorem exists_view_of_end {d : Diagnostic} {source : String}
    (hToken : d.fault.token? = some "end of input")
    (hPlace : d.position.offset.toNat = byteLength source.toList)
    (hText : Text.Line.trimNewlines source.toList ≠ []) :
    ∃ v : View, lines d source = v.report d ∧ v.Trims ∧ v.ShowsEnd d source.toList := by
  obtain ⟨line, before, hLast, hLies, hNonempty, hOpen, hColumn⟩ := Text.Line.last?_of_ne_nil hText
  obtain ⟨newlines, hSource, hNewlines⟩ := Text.Line.trimNewlines_append source.toList
  have hNone : Text.Line.locate? source.toList d.position.offset.toNat = none :=
    Text.Line.locate?_eq_none_iff.2 (Nat.le_of_eq hPlace.symm)
  refine ⟨View.of line before, View.lines_eq_report (by rw [line?, hNone, hLast]; rfl) before,
    View.trims_of line before, hToken, ⟨newlines, ?_, hNewlines⟩, hLies.begins,
    ⟨hNonempty, hOpen⟩, hLies.number, ?_⟩
  · show source.toList = before ++ line.text ++ newlines
    rw [hLies.spelled, List.append_nil] at hSource
    exact hSource
  · show line.column - byteLength (line.text.takeWhile isIndent) = _
    rw [View.shown_append_trailing, hColumn]
    have hWidth : byteLength line.text = byteLength (line.text.takeWhile isIndent) +
        byteLength (line.text.dropWhile isIndent) := by
      rw [← Text.byteLength_append, List.takeWhile_append_dropWhile]
    omega

/-- Nothing is reported about a source of blanks. -/
theorem errors_of_blanks {r : Reading} (hSkip : r.skipBlanks = true) {source : String}
    (hBlanks : ∀ c ∈ source.toList, isBlank c = true) :
    (Program.ofSource r source).errors = [] := by
  have hTokens : r.tokens source = [.endOfInput r.file (0 + byteLength source.toList)] := by
    have hMoved := tokensOf_blanks hSkip hBlanks 0 []
    rw [List.append_nil, Piece.scan_nil] at hMoved
    exact hMoved
  have hEnds : Parse.Ends false (r.tokens source) := by
    rw [hTokens]
    rintro t ⟨⟩
    exact Or.inl rfl
  show (Parse.statements (.ofTokens (r.tokens source)) (r.tokens source) false).errors = []
  rw [Parse.statements_of_ends hEnds]
  rfl

/-- Where something is reported, some line is not only a newline. -/
theorem trimNewlines_ne_nil_of_error {r : Reading} (hSkip : r.skipBlanks = true) {source : String}
    {d : Diagnostic} (hError : d ∈ (Program.ofSource r source).errors) :
    Text.Line.trimNewlines source.toList ≠ [] := by
  intro hNone
  have hNewlines : ∀ c ∈ source.toList, decide (c = '\n') = true :=
    List.rdropWhile_eq_nil_iff.1 hNone
  have hBlanks : ∀ c ∈ source.toList, isBlank c = true := by
    intro c hc
    rw [of_decide_eq_true (hNewlines c hc)]
    decide
  rw [errors_of_blanks hSkip hBlanks] at hError
  cases hError

/-! ## The reports about a source -/

/-- The report of each error of a source has all of its lines. An error in the source is shown on
its line, with the caret under its token; an error at the end is shown behind the last line. -/
theorem lines_complete (file : String) (verbose : Bool) (source : String)
    (hSize : byteLength source.toList < UInt32.size) :
    ∀ d ∈ (Program.ofSource ⟨file, true, verbose⟩ source).errors,
      ∃ v : View, lines d source = v.report d ∧ v.Trims ∧
        ((d.position.offset.toNat < byteLength source.toList ∧
            ∃ front behind text, v.ShowsToken d source.toList front behind text) ∨
          (d.position.offset.toNat = byteLength source.toList ∧ v.ShowsEnd d source.toList)) := by
  intro d hError
  obtain ⟨t, hMem, hAbout⟩ := exists_token_of_ofSource hError
  rcases hAbout.place hSize hMem with ⟨hToken, hPlace⟩ |
    ⟨hEnd, hToken, before, after, hSource, hPlace⟩
  · obtain ⟨v, hLines, hTrims, hShows⟩ :=
      exists_view_of_end hToken hPlace (trimNewlines_ne_nil_of_error rfl hError)
    exact ⟨v, hLines, hTrims, Or.inr ⟨hPlace, hShows⟩⟩
  · obtain ⟨c, more, hText, hc⟩ := exists_cons_of_mem_tokensOf rfl hMem hEnd
    obtain ⟨hInside, v, hLines, hTrims, front, behind, hShows⟩ :=
      exists_view_of_token hToken hSource hPlace hText hc
    exact ⟨v, hLines, hTrims, Or.inl ⟨hInside, front, behind, t.lexeme, hShows⟩⟩

/-- A declaration without a name, in front of a parenthesis that is not closed. The character of two
bytes is no token. -/
def unfinished : String := "x\n\tvar é = (1\n\n"

/-- The report of the name that is missing. -/
def unnamed : Diagnostic := ⟨.expectedName "=", ⟨"main.lang", 10⟩⟩

/-- The report of the parenthesis that is missing at the end. -/
def unclosed : Diagnostic :=
  ⟨.missingClosingParen "grouped expression" "end of input", ⟨"main.lang", 16⟩⟩

theorem lines_complete_unfinished :
    byteLength unfinished.toList < UInt32.size ∧
      ∀ d ∈ [unnamed, unclosed],
        d ∈ (Program.ofSource ⟨"main.lang", true, false⟩ unfinished).errors ∧
          ∃ v : View, lines d unfinished = v.report d ∧ v.Trims ∧
            ((d.position.offset.toNat < byteLength unfinished.toList ∧
                ∃ front behind text, v.ShowsToken d unfinished.toList front behind text) ∨
              (d.position.offset.toNat = byteLength unfinished.toList ∧
                v.ShowsEnd d unfinished.toList)) :=
  have hSize : byteLength unfinished.toList < UInt32.size := by decide
  have hErrors : ∀ d ∈ [unnamed, unclosed],
      d ∈ (Program.ofSource ⟨"main.lang", true, false⟩ unfinished).errors := by decide +kernel
  ⟨hSize, fun d hd => ⟨hErrors d hd, lines_complete "main.lang" false unfinished hSize d
    (hErrors d hd)⟩⟩

/-- The caret is moved by bytes, so that it is one too far behind a character of two bytes. -/
example : lines ⟨.expectedName "=", ⟨"main.lang", 10⟩⟩ "x\n\tvar é = (1\n\n" =
    ["Error: ExpectedIdentifier (Expected a variable name after `var`, found `=`)",
      "-> main.lang", "  |", "2 | var é = (1", "  | -------^"] := by decide +kernel

end Frontend.Report
