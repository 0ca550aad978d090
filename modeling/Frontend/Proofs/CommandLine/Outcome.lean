import Frontend.Main

/-!
# What a run comes to

A run is refused, it reads lines, or it reads a file. What it prints and its exit status follow from
its arguments and from what it reads. In the interactive mode this is a law about any number of lines:
each is shown as it would be on its own, up to the first that is no text.

* `inputLines_rawLine`, `shown_eq_flatMap`: the lines of an input, one by one.
* `source_of_errors`: what is printed about a source with errors.
* `program_outcome`: the outcome of every run.
-/

namespace Frontend

/-! ## Line by line -/

/-- The bytes of a line, with the newline that ends it. -/
def rawLine (line : List UInt8 × Bool) : List UInt8 :=
  line.1 ++ if line.2 then [10] else []

/-- The text of a line, if it is one. -/
def lineText? (line : List UInt8 × Bool) : Option String :=
  decode? (withoutReturn line)

theorem flatten_rawLine (input : List UInt8) :
    ((inputLines input).map rawLine).flatten = input := by
  induction input with
  | nil => rfl
  | cons b rest ih =>
    rw [inputLines]
    split
    · rename_i hNewline
      rw [List.map_cons, List.flatten_cons, ih, hNewline]
      rfl
    · split
      · rename_i hLines
        rw [hLines] at ih
        rw [← ih]
        rfl
      · rename_i line ended others hLines
        rw [hLines, List.map_cons, List.flatten_cons] at ih
        rw [List.map_cons, List.flatten_cons, ← ih]
        rfl

/-- A line of an input, read alone, is its own only line. -/
theorem inputLines_rawLine {input : List UInt8} {line : List UInt8 × Bool}
    (h : line ∈ inputLines input) : inputLines (rawLine line) = [line] := by
  induction input generalizing line with
  | nil => cases h
  | cons b rest ih =>
    rw [inputLines] at h
    split at h
    · rcases List.mem_cons.1 h with rfl | hRest
      · rfl
      · exact ih hRest
    · rename_i hb
      split at h
      · rw [List.mem_singleton] at h
        subst h
        show inputLines [b] = _
        rw [inputLines, if_neg hb, inputLines]
      · rename_i front ended others hLines
        rcases List.mem_cons.1 h with rfl | hRest
        · have hFront := @ih (front, ended) (hLines ▸ List.mem_cons_self)
          show inputLines (b :: rawLine (front, ended)) = _
          rw [inputLines, if_neg hb, hFront]
        · exact ih (hLines ▸ List.mem_cons_of_mem _ hRest)

theorem inputTexts_rawLine {input : List UInt8} {line : List UInt8 × Bool}
    (h : line ∈ inputLines input) : inputTexts (rawLine line) = (lineText? line).toList := by
  rw [inputTexts, inputLines_rawLine h, List.map_singleton]
  show (List.takeWhile Option.isSome [lineText? line]).filterMap id = _
  cases lineText? line <;> rfl

/-- The texts of lines up to the first that is none. -/
theorem filterMap_takeWhile (lines : List (List UInt8 × Bool)) :
    ((lines.map lineText?).takeWhile Option.isSome).filterMap id =
      (lines.takeWhile fun line => (lineText? line).isSome).flatMap fun line =>
        (lineText? line).toList := by
  induction lines with
  | nil => rfl
  | cons line others ih =>
    rw [List.map_cons, List.takeWhile_cons, List.takeWhile_cons]
    cases hText : lineText? line with
    | none => rfl
    | some text =>
      rw [Option.isSome_some, if_pos rfl, if_pos rfl, List.flatMap_cons, hText, ← ih]
      rfl

/-- The texts of an input are those of its lines, each read alone. -/
theorem inputTexts_eq_flatMap (input : List UInt8) :
    inputTexts input =
      ((inputLines input).takeWhile fun line => (lineText? line).isSome).flatMap fun line =>
        inputTexts (rawLine line) := by
  refine (filterMap_takeWhile (inputLines input)).trans ?_
  rw [List.flatMap_def, List.flatMap_def]
  congr 1
  apply List.map_congr_left
  intro line hLine
  exact (inputTexts_rawLine ((List.takeWhile_sublist _).subset hLine)).symm

namespace Run

variable {o : Options} {text path : String} {file : Option String} {timed : Bool}
  {arguments : List String} {read : String → Except FileFault (List UInt8)} {input : List UInt8}
  {e : OptionFault}

/-- What is printed about the lines of an input. -/
def shown (o : Options) (input : List UInt8) : List Output :=
  (inputTexts input).flatMap fun text => (source o text none false).1

/-- The program that a source is parsed to. -/
def parsed (o : Options) (text : String) (file : Option String) : Program :=
  Program.parse ((o.reading file).tokens text)

/-- What is printed about a source before it is parsed. -/
def lexed (o : Options) (text : String) (file : Option String) (timed : Bool) : List Output :=
  stamp timed "Tokenized" ++
    if o.lex then [.line (listing ((o.reading file).tokens text))] else []

/-- Each line is shown as it is on its own, up to the first that is no text. -/
theorem shown_eq_flatMap (o : Options) (input : List UInt8) :
    shown o input =
      ((inputLines input).takeWhile fun line => (lineText? line).isSome).flatMap fun line =>
        shown o (rawLine line) := by
  rw [shown, inputTexts_eq_flatMap, List.flatMap_assoc]
  rfl

/-! ## One source -/

theorem source_eq (o : Options) (text : String) (file : Option String) (timed : Bool) :
    source o text file timed =
      if o.parse = true ∨ o.eval = true then
        if (parsed o text file).errors = [] then
          (lexed o text file timed ++ stamp timed "Parsed" ++
            results o (parsed o text file) timed, true)
        else
          (lexed o text file timed ++ stamp timed "Parsed" ++ reports (parsed o text file) text,
            false)
      else (lexed o text file timed, true) :=
  rfl

/-- A source with errors: the reports in order, and nothing behind them. -/
theorem source_of_errors (h : o.parse = true ∨ o.eval = true)
    (hErrors : (parsed o text file).errors ≠ []) :
    source o text file timed =
      (lexed o text file timed ++ stamp timed "Parsed" ++
        (parsed o text file).errors.flatMap (fun d => (Report.lines d text).map .line), false) := by
  rw [source_eq, if_pos h, if_neg hErrors]
  rfl

theorem source_succeeds_iff :
    (source o text file timed).2 = true ↔
      o.parse = false ∧ o.eval = false ∨ (parsed o text file).errors = [] := by
  rw [source_eq]
  by_cases hAsked : o.parse = true ∨ o.eval = true
  · have hNot : ¬ (o.parse = false ∧ o.eval = false) := by
      rintro ⟨hParse, hEval⟩
      rw [hParse, hEval] at hAsked
      rcases hAsked with h | h <;> cases h
    rw [if_pos hAsked]
    by_cases hClean : (parsed o text file).errors = []
    · rw [if_pos hClean]
      exact ⟨fun _ => Or.inr hClean, fun _ => rfl⟩
    · rw [if_neg hClean]
      exact ⟨nofun, fun h => absurd h (not_or.2 ⟨hNot, hClean⟩)⟩
  · rw [if_neg hAsked]
    rw [not_or, Bool.not_eq_true, Bool.not_eq_true] at hAsked
    exact ⟨fun _ => Or.inl hAsked, fun _ => rfl⟩

/-! ## Files -/

/-- A file that reads as the content holds the text. -/
def Holds (content : Except FileFault (List UInt8)) (text : String) : Prop :=
  ∃ bytes, content = .ok bytes ∧ decode? bytes = some text

variable {content : Except FileFault (List UInt8)}

theorem file_of_holds (h : Holds content text) :
    Run.file o path content =
      ⟨(source o text o.fileName? true).1 ++ done, [],
        if (source o text o.fileName? true).2 then 0 else 1⟩ := by
  obtain ⟨bytes, rfl, hText⟩ := h
  unfold Run.file
  simp only [Except.bind, hText, Option.elim_some]

theorem status_of_not_holds (h : ∀ text, ¬ Holds content text) :
    (Run.file o path content).status = 1 := by
  unfold Run.file
  split
  · rfl
  · rename_i text hText
    cases content with
    | error f => cases hText
    | ok bytes =>
      refine absurd ⟨bytes, rfl, ?_⟩ (h text)
      cases hDecode : decode? bytes with
      | none =>
        rw [Except.bind, hDecode] at hText
        cases hText
      | some found =>
        rw [Except.bind, hDecode] at hText
        cases hText
        rfl

theorem status_file :
    (Run.file o path content).status = 0 ∨ (Run.file o path content).status = 1 := by
  by_cases h : ∃ text, Holds content text
  · obtain ⟨text, hText⟩ := h
    rw [file_of_holds hText]
    dsimp only
    split
    · exact Or.inl rfl
    · exact Or.inr rfl
  · exact Or.inr (status_of_not_holds fun text hText => h ⟨text, hText⟩)

theorem Holds.unique {text' : String} (h : Holds content text) (h' : Holds content text') :
    text = text' := by
  obtain ⟨bytes, rfl, hText⟩ := h
  obtain ⟨bytes', hBytes, hText'⟩ := h'
  cases hBytes
  exact Option.some.inj (hText.symm.trans hText')

theorem status_file_eq_zero_iff :
    (Run.file o path content).status = 0 ↔ ∃ text, Holds content text ∧
      (o.parse = false ∧ o.eval = false ∨ (parsed o text o.fileName?).errors = []) := by
  by_cases h : ∃ text, Holds content text
  · obtain ⟨text, hText⟩ := h
    have hStatus : (Run.file o path content).status = 0 ↔
        (source o text o.fileName? true).2 = true := by
      rw [file_of_holds hText]
      dsimp only
      split <;> simp_all
    rw [hStatus, source_succeeds_iff]
    constructor
    · intro hSucceeds
      exact ⟨text, hText, hSucceeds⟩
    · rintro ⟨text', hText', hSucceeds⟩
      rwa [hText.unique hText']
  · rw [status_of_not_holds fun text hText => h ⟨text, hText⟩]
    refine ⟨nofun, ?_⟩
    rintro ⟨text, hText, -⟩
    exact absurd ⟨text, hText⟩ h

/-! ## Runs -/

/-- Options that are accepted read lines or name a file. -/
theorem exists_file_of_ofArguments (h : Options.ofArguments arguments = .ok o)
    (hRepl : o.repl = false) : ∃ path, o.file = some path := by
  unfold Options.ofArguments at h
  cases hRead : Options.unset.read arguments with
  | error e =>
    rw [hRead] at h
    cases h
  | ok o' =>
    rw [hRead, Except.bind] at h
    unfold Options.validate at h
    split at h
    · cases h
    · rename_i hValid
      cases h
      cases hFile : o'.file with
      | none => exact absurd ⟨hRepl, hFile⟩ hValid
      | some path => exact ⟨path, rfl⟩

theorem program_of_refused (h : Options.ofArguments arguments = .error e) :
    program arguments read input = refuse e := by
  rw [program, h]

theorem program_of_repl (h : Options.ofArguments arguments = .ok o) (hRepl : o.repl = true) :
    program arguments read input =
      ⟨.line "Running repl..." :: shown o input ++ [.line "Closing repl"] ++ done, [], 0⟩ := by
  rw [program, h]
  dsimp only
  rw [sourceOf, if_pos hRepl]
  rfl

theorem program_of_file (h : Options.ofArguments arguments = .ok o) (hRepl : o.repl = false)
    (hFile : o.file = some path) :
    program arguments read input = Run.file o path (read path) := by
  rw [program, h]
  dsimp only
  rw [sourceOf, hRepl, if_neg Bool.false_ne_true, hFile]
  rfl

/-- Refused arguments are refused before anything is read. -/
theorem runProgram_of_refused (h : Options.ofArguments arguments = .error e) :
    runProgram arguments = pure (refuse e) := by
  unfold runProgram
  rw [h]
  show pure (program arguments _ []) = _
  rw [program_of_refused h]

/-- In the interactive mode nothing but the standard input is read. -/
theorem runProgram_of_repl (h : Options.ofArguments arguments = .ok o) (hRepl : o.repl = true) :
    runProgram arguments = (do
      let bytes ← (← IO.getStdin).readBinToEnd
      pure (program arguments read bytes.toList)) := by
  have hSource : (Options.ofArguments arguments).toOption.map sourceOf = some .input := by
    rw [h]
    show some (sourceOf o) = _
    rw [sourceOf, if_pos hRepl]
  have hProgram : ∀ input, program arguments (fun _ => .error .notFound) input =
      program arguments read input := by
    intro input
    rw [program_of_repl h hRepl, program_of_repl h hRepl]
  unfold runProgram
  rw [hSource]
  simp only [hProgram]

theorem status_eq_two_iff :
    (program arguments read input).status = 2 ↔ ∃ e, Options.ofArguments arguments = .error e := by
  cases h : Options.ofArguments arguments with
  | error e =>
    rw [program_of_refused h]
    exact ⟨fun _ => ⟨e, rfl⟩, fun _ => rfl⟩
  | ok o =>
    refine ⟨fun hStatus => absurd hStatus ?_, nofun⟩
    cases hRepl : o.repl with
    | true =>
      rw [program_of_repl h hRepl]
      nofun
    | false =>
      obtain ⟨path, hFile⟩ := exists_file_of_ofArguments h hRepl
      rw [program_of_file h hRepl hFile]
      rcases @status_file o path (read path) with hStatus | hStatus
      · rw [hStatus]
        nofun
      · rw [hStatus]
        nofun

/-- A run of the options in the interactive mode. -/
structure IsInteractive (arguments : List String)
    (read : String → Except FileFault (List UInt8)) (input : List UInt8) (o : Options) : Prop where
  outcome : program arguments read input =
    ⟨.line "Running repl..." :: shown o input ++ [.line "Closing repl"] ++ done, [], 0⟩
  /-- Nothing but the standard input is read. -/
  reads : runProgram arguments = (do
    let bytes ← (← IO.getStdin).readBinToEnd
    pure (program arguments read bytes.toList))
  /-- A file that is named as well makes no difference. -/
  ignores_file : ∀ file, shown o input = shown { o with file := file } input
  /-- The lines are all of the input. -/
  lines : ((inputLines input).map rawLine).flatten = input
  /-- Each line is shown as it is when it is the only one. -/
  shown_lines : shown o input =
    ((inputLines input).takeWhile fun line => (lineText? line).isSome).flatMap fun line =>
      shown o (rawLine line)

/-- A run of the options on the file at the path. -/
structure IsOnFile (arguments : List String) (read : String → Except FileFault (List UInt8))
    (input : List UInt8) (o : Options) (path : String) : Prop where
  file : o.file = some path
  status : (program arguments read input).status = 0 ∨ (program arguments read input).status = 1
  /-- It succeeds if the file holds a text, and nothing is to be parsed or there are no errors. -/
  succeeds_iff : (program arguments read input).status = 0 ↔ ∃ text, Holds (read path) text ∧
    (o.parse = false ∧ o.eval = false ∨ (parsed o text o.fileName?).errors = [])
  printed : ∀ text, Holds (read path) text →
    (program arguments read input).stdout = (source o text o.fileName? true).1 ++ done

/-- The outcome of every run. The status is 2 if and only if the arguments are refused, and then
nothing is read. Otherwise the run is interactive or on a file. About a source with errors the
reports are printed in order, but neither its text nor a value. -/
theorem program_outcome (arguments : List String)
    (read : String → Except FileFault (List UInt8)) (input : List UInt8) :
    ((program arguments read input).status = 2 ↔
      ∃ e, Options.ofArguments arguments = .error e) ∧
    (∀ e, Options.ofArguments arguments = .error e →
      program arguments read input = refuse e ∧ runProgram arguments = pure (refuse e)) ∧
    (∀ o, Options.ofArguments arguments = .ok o → o.repl = true →
      IsInteractive arguments read input o) ∧
    (∀ o, Options.ofArguments arguments = .ok o → o.repl = false →
      ∃ path, IsOnFile arguments read input o path) ∧
    ∀ o text file timed, o.parse = true ∨ o.eval = true → (parsed o text file).errors ≠ [] →
      (source o text file timed).1 =
        lexed o text file timed ++ stamp timed "Parsed" ++
          (parsed o text file).errors.flatMap fun d => (Report.lines d text).map .line := by
  refine ⟨status_eq_two_iff, ?_, ?_, ?_, ?_⟩
  · intro e h
    exact ⟨program_of_refused h, runProgram_of_refused h⟩
  · intro o h hRepl
    exact ⟨program_of_repl h hRepl, runProgram_of_repl h hRepl, fun _ => rfl,
      flatten_rawLine input, shown_eq_flatMap o input⟩
  · intro o h hRepl
    obtain ⟨path, hFile⟩ := exists_file_of_ofArguments h hRepl
    have hProgram := @program_of_file o path arguments read input h hRepl hFile
    refine ⟨path, hFile, ?_, ?_, fun text hText => ?_⟩
    · rw [hProgram]
      exact status_file
    · rw [hProgram]
      exact status_file_eq_zero_iff
    · rw [hProgram, file_of_holds hText]
  · intro o text file timed hAsked hErrors
    rw [source_of_errors hAsked hErrors]

/-- Where no file can be read, a switch alone is refused, a file fails, and lines do not. -/
theorem program_outcome_notFound :
    (program ["--lex"] (fun _ => .error .notFound) []).status = 2 ∧
      (program ["--file=a"] (fun _ => .error .notFound) []).status = 1 ∧
      (program ["--file=a", "--repl"] (fun _ => .error .notFound) []).status = 0 := by
  have hSwitch : Options.ofArguments ["--lex"] = .error .missingFile := by cbv
  have hFile : Options.ofArguments ["--file=a"] =
      .ok { Options.unset with file := some "a" } := by cbv
  have hRepl : Options.ofArguments ["--file=a", "--repl"] =
      .ok { Options.unset with file := some "a", repl := true } := by cbv
  refine ⟨?_, ?_, ?_⟩
  · exact (program_outcome ["--lex"] (fun _ => .error .notFound) []).1.2 ⟨_, hSwitch⟩
  · obtain ⟨path, hRun⟩ :=
      (program_outcome ["--file=a"] (fun _ => .error .notFound) []).2.2.2.1 _ hFile rfl
    refine hRun.status.resolve_left fun hZero => ?_
    obtain ⟨text, ⟨bytes, hBytes, -⟩, -⟩ := hRun.succeeds_iff.1 hZero
    cases hBytes
  · have hRun :=
      (program_outcome ["--file=a", "--repl"] (fun _ => .error .notFound) []).2.2.1 _ hRepl rfl
    rw [hRun.outcome]

end Run
end Frontend
