import Mathlib.Data.List.Induction
import Frontend.CommandLine.Options

/-!
# Options as they are written

There are two ways to write a switch and four to name a file. Options that are written so are always
accepted, in any order; and all that matters is which switches occur and which file is the last. The
first argument with which no such option begins is refused, whatever stands in front of it and
however the line goes on.

* `WrittenOption`: an option in one of the ways to write it.
* `read_written`: written options are taken one by one.
* `Refuses`: the fault of an argument with which no option begins.
* `read_of_refuses`: such an argument ends the reading.
* `ofArguments_written`: what comes of every command line.
-/

namespace Frontend

namespace Switch

/-- The word that the switch is written with. -/
def name : Switch → String
  | lex => "lex"
  | parse => "parse"
  | eval => "eval"
  | repl => "repl"
  | verbose => "verbose"

theorem ofName?_name (s : Switch) : ofName? s.name = some s := by
  cases s <;> decide

theorem name_of_ofName? {word : String} {s : Switch} (h : ofName? word = some s) :
    word = s.name := by
  unfold ofName? at h
  split_ifs at h <;> cases h <;> assumption

end Switch

/-! ## Ways to write an option -/

/-- The dashes in front of an option. -/
inductive Dashes where
  | one
  | two
  deriving DecidableEq

namespace Dashes

def text : Dashes → String
  | one => "-"
  | two => "--"

/-- The argument of an option, with a value behind an equals sign if there is one. -/
def argument (dashes : Dashes) (word : String) (value : Option String) : String :=
  dashes.text ++ word ++ value.elim "" ("=" ++ ·)

end Dashes

/-- An option as it is written. A path is never empty, but may look like anything else. -/
inductive WrittenOption where
  | switch (dashes : Dashes) (s : Switch)
  /-- A file in the argument behind the option. -/
  | file (dashes : Dashes) (path : String) (path_ne : path ≠ "")
  /-- A file behind an equals sign. -/
  | inlineFile (dashes : Dashes) (path : String) (path_ne : path ≠ "")

namespace WrittenOption

def arguments : WrittenOption → List String
  | switch dashes s => [dashes.argument s.name none]
  | file dashes path _ => [dashes.argument "file" none, path]
  | inlineFile dashes path _ => [dashes.argument "file" (some path)]

def switch? : WrittenOption → Option Switch
  | switch _ s => some s
  | file _ _ _ => none
  | inlineFile _ _ _ => none

def path? : WrittenOption → Option String
  | switch _ _ => none
  | file _ path _ => some path
  | inlineFile _ path _ => some path

/-- The switches that occur. -/
def switches (written : List WrittenOption) : List Switch :=
  written.filterMap switch?

/-- The files that are named. -/
def paths (written : List WrittenOption) : List String :=
  written.filterMap path?

end WrittenOption

/-- The words that options are written with. -/
def IsOptionWord (word : String) : Prop :=
  word = "file" ∨ ∃ s : Switch, word = s.name

/-- The fault for which an argument is refused. If the argument is nothing but the name of the file
option, what follows it must be no path. -/
inductive Refuses : String → OptionFault → Prop
  | bareFile (dashes : Dashes) : Refuses (dashes.argument "file" none) (.missingValue "file")
  | emptyFile (dashes : Dashes) : Refuses (dashes.argument "file" (some "")) (.missingValue "file")
  | switchValue (dashes : Dashes) (s : Switch) (value : String) :
    Refuses (dashes.argument s.name (some value)) (.unexpectedValue s.name)
  | unknown (argument : String)
    (h : ∀ (dashes : Dashes) (word : String) (value : Option String), IsOptionWord word →
      argument ≠ dashes.argument word value) :
    Refuses argument (.unknownArgument argument)

/-- Whether no written option begins with the argument, in front of the others. -/
def BeginsNone (argument : String) (others : List String) : Prop :=
  ∀ u : WrittenOption, ¬ u.arguments <+: argument :: others

namespace Options

open WrittenOption (switches paths)

/-- The options with the switches that occur and the last of the files. -/
def ofWritten (written : List WrittenOption) : Options where
  file := (paths written).getLast?
  lex := .lex ∈ switches written
  parse := .parse ∈ switches written
  eval := .eval ∈ switches written
  repl := .repl ∈ switches written
  verbose := .verbose ∈ switches written

variable {argument word : String} {value : Option String} {flag : List Char} {fault : OptionFault}
  {others : List String} {o : Options}

/-! ## The name and the value in an argument -/

/-- The value as it stands behind a name. -/
def valueText (value : Option String) : List Char :=
  value.elim [] fun v => '=' :: v.toList

theorem toList_argument (dashes : Dashes) :
    (dashes.argument word value).toList =
      dashes.text.toList ++ (word.toList ++ valueText value) := by
  cases value <;> simp [Dashes.argument, valueText]

theorem splitValue_append (h : '=' ∉ word.toList) (value : Option String) :
    splitValue (word.toList ++ valueText value) = (word, value) := by
  have hName : (word.toList ++ valueText value).takeWhile (· ≠ '=') = word.toList := by
    have hWord : ∀ c ∈ word.toList, decide (c ≠ '=') = true := by
      intro c hc
      exact decide_eq_true fun hEq => h (hEq ▸ hc)
    rw [List.takeWhile_append_of_pos hWord]
    cases value <;> simp [valueText]
  unfold splitValue
  rw [hName]
  cases value <;> simp [valueText]

/-- Up to its first equals sign a text is a name. -/
theorem exists_name_and_value (flag : List Char) :
    ∃ (word : String) (value : Option String),
      flag = word.toList ++ valueText value ∧ '=' ∉ word.toList := by
  by_cases hSign : '=' ∈ flag
  · obtain ⟨front, behind, rfl, hFront⟩ := List.eq_append_cons_of_mem hSign
    exact ⟨.ofList front, some (.ofList behind), by simp [valueText], by simpa using hFront⟩
  · exact ⟨.ofList flag, none, by simp [valueText], by simpa using hSign⟩

theorem append_splitValue (h : splitValue flag = (word, value)) :
    flag = word.toList ++ valueText value := by
  obtain ⟨word', value', rfl, hSign⟩ := exists_name_and_value flag
  rw [splitValue_append hSign] at h
  cases h
  rfl

theorem exists_dashes_of_flag? (h : flag? argument = some flag) :
    ∃ dashes : Dashes, argument.toList = dashes.text.toList ++ flag := by
  unfold flag? at h
  split at h
  · rename_i behind hText
    cases h
    exact ⟨.two, hText⟩
  · rename_i behind hText
    cases h
    exact ⟨.one, hText⟩
  · cases h

/-- Behind a single dash nothing begins with another one. -/
theorem flag?_append (dashes : Dashes) (h : flag.head? ≠ some '-')
    (hText : argument.toList = dashes.text.toList ++ flag) : flag? argument = some flag := by
  unfold flag?
  rw [hText]
  cases dashes with
  | two => rfl
  | one =>
    cases flag with
    | nil => rfl
    | cons c rest =>
      have hDash : c ≠ '-' := fun hEq => h (by rw [hEq]; rfl)
      simp [Dashes.text, hDash]

/-- An option word begins with no dash and holds no equals sign. -/
theorem plain_of_isOptionWord (h : IsOptionWord word) :
    '=' ∉ word.toList ∧ word.toList ≠ [] ∧ word.toList.head? ≠ some '-' := by
  obtain rfl | ⟨s, rfl⟩ := h
  · decide
  · cases s <;> decide

theorem split_argument (dashes : Dashes) (h : IsOptionWord word) :
    (flag? (dashes.argument word value)).map splitValue = some (word, value) := by
  obtain ⟨hSign, hNil, hDash⟩ := plain_of_isOptionWord h
  have hHead : (word.toList ++ valueText value).head? ≠ some '-' := by
    rw [List.head?_append, List.head?_eq_some_head hNil] at *
    exact hDash
  rw [flag?_append dashes hHead (toList_argument dashes), Option.map_some,
    splitValue_append hSign]

theorem exists_argument_of_split (h : (flag? argument).map splitValue = some (word, value)) :
    ∃ dashes : Dashes, argument = dashes.argument word value := by
  obtain ⟨flag, hFlag, hSplit⟩ := Option.map_eq_some_iff.1 h
  obtain ⟨dashes, hText⟩ := exists_dashes_of_flag? hFlag
  refine ⟨dashes, String.toList_inj.1 ?_⟩
  rw [hText, toList_argument, append_splitValue hSplit]

/-! ## Written options are taken one by one -/

/-- The options with one more that is written. -/
def add (o : Options) : WrittenOption → Options
  | .switch _ s => o.turnOn s
  | .file _ path _ => { o with file := some path }
  | .inlineFile _ path _ => { o with file := some path }

theorem name_ne_file (s : Switch) : s.name ≠ "file" := by
  cases s <;> decide

theorem read_file {path : String} (h : (flag? argument).map splitValue = some ("file", none)) :
    o.read (argument :: path :: others) = (o.withFile path).bind fun o => o.read others := by
  rw [read.eq_def]
  simp only [h, if_true]

theorem read_file_nil (h : (flag? argument).map splitValue = some ("file", none)) :
    o.read [argument] = .error (.missingValue "file") := by
  rw [read.eq_def]
  simp only [h, if_true]

theorem read_inlineFile {path : String}
    (h : (flag? argument).map splitValue = some ("file", some path)) :
    o.read (argument :: others) = (o.withFile path).bind fun o => o.read others := by
  rw [read.eq_def]
  simp only [h, if_true]

theorem read_switch (h : (flag? argument).map splitValue = some (word, value))
    (hWord : word ≠ "file") :
    o.read (argument :: others) =
      (o.withSwitch argument word value).bind fun o => o.read others := by
  rw [read.eq_def]
  simp only [h, if_neg hWord]

theorem read_none (h : flag? argument = none) :
    o.read (argument :: others) = .error (.unknownArgument argument) := by
  rw [read.eq_def]
  simp only [h, Option.map_none]

theorem withFile_of_ne {path : String} (h : path ≠ "") :
    o.withFile path = .ok { o with file := some path } := by
  rw [withFile, if_neg h]

theorem withSwitch_name (s : Switch) :
    o.withSwitch argument s.name value =
      value.elim (.ok (o.turnOn s)) fun _ => .error (.unexpectedValue s.name) := by
  unfold withSwitch
  rw [s.ofName?_name]
  cases value <;> rfl

theorem withSwitch_none (h : ¬ IsOptionWord word) :
    o.withSwitch argument word value = .error (.unknownArgument argument) := by
  have hNone : Switch.ofName? word = none := by
    cases hSwitch : Switch.ofName? word with
    | none => rfl
    | some s => exact absurd (.inr ⟨s, Switch.name_of_ofName? hSwitch⟩) h
  unfold withSwitch
  rw [hNone]

theorem read_option (o : Options) (u : WrittenOption) (others : List String) :
    o.read (u.arguments ++ others) = (o.add u).read others := by
  cases u with
  | switch dashes s =>
    show o.read (dashes.argument s.name none :: others) = _
    rw [read_switch (split_argument dashes (.inr ⟨s, rfl⟩)) (name_ne_file s), withSwitch_name]
    rfl
  | file dashes path hPath =>
    show o.read (dashes.argument "file" none :: path :: others) = _
    rw [read_file (split_argument dashes (.inl rfl)), withFile_of_ne hPath]
    rfl
  | inlineFile dashes path hPath =>
    show o.read (dashes.argument "file" (some path) :: others) = _
    rw [read_inlineFile (split_argument dashes (.inl rfl)), withFile_of_ne hPath]
    rfl

theorem read_written (o : Options) (written : List WrittenOption) (others : List String) :
    o.read (written.flatMap WrittenOption.arguments ++ others) =
      (written.foldl add o).read others := by
  induction written generalizing o with
  | nil => rfl
  | cons u rest ih => rw [List.flatMap_cons, List.append_assoc, read_option, ih, List.foldl_cons]

theorem ofWritten_concat (written : List WrittenOption) (u : WrittenOption) :
    ofWritten (written ++ [u]) = (ofWritten written).add u := by
  cases u with
  | switch dashes s =>
    cases s <;>
      simp [ofWritten, add, turnOn, switches, paths, WrittenOption.switch?, WrittenOption.path?]
  | file dashes path h =>
    simp [ofWritten, add, switches, paths, WrittenOption.switch?, WrittenOption.path?]
  | inlineFile dashes path h =>
    simp [ofWritten, add, switches, paths, WrittenOption.switch?, WrittenOption.path?]

/-- Added one by one, written options leave the switches that occur and the last file. -/
theorem foldl_add (written : List WrittenOption) : written.foldl add unset = ofWritten written := by
  induction written using List.reverseRecOn with
  | nil => rfl
  | append_singleton rest u ih =>
    rw [List.foldl_append, ih, List.foldl_cons, List.foldl_nil, ofWritten_concat]

theorem validate_ofWritten (written : List WrittenOption) :
    (ofWritten written).validate =
      if .repl ∈ switches written ∨ paths written ≠ [] then .ok () else .error .missingFile := by
  unfold validate
  split_ifs <;> simp_all [ofWritten]

theorem ofArguments_of_written (written : List WrittenOption) :
    ofArguments (written.flatMap WrittenOption.arguments) =
      if .repl ∈ switches written ∨ paths written ≠ [] then .ok (ofWritten written)
      else .error .missingFile := by
  have hRead : unset.read (written.flatMap WrittenOption.arguments) = .ok (ofWritten written) := by
    have h := read_written unset written []
    rwa [List.append_nil, foldl_add] at h
  unfold ofArguments
  rw [hRead]
  show ((ofWritten written).validate.map fun _ => ofWritten written) = _
  rw [validate_ofWritten]
  split_ifs <;> rfl

/-- Only the occurrence of a switch counts, and only the last file. -/
theorem ofWritten_congr {written written' : List WrittenOption}
    (hSwitches : ∀ s, s ∈ switches written ↔ s ∈ switches written')
    (hPaths : (paths written).getLast? = (paths written').getLast?) :
    ofWritten written = ofWritten written' := by
  simp only [ofWritten, hSwitches, hPaths]

/-! ## Arguments that begin no option -/

/-- The first argument with which no option begins ends the reading. -/
theorem read_of_refuses (h : Refuses argument fault)
    (hPath : ∀ path ∈ others.head?, path ≠ "" →
      ∀ dashes : Dashes, argument ≠ dashes.argument "file" none) :
    o.read (argument :: others) = .error fault := by
  cases h with
  | bareFile dashes =>
    have hSplit : (flag? (dashes.argument "file" none)).map splitValue = some ("file", none) :=
      split_argument dashes (.inl rfl)
    cases others with
    | nil => exact read_file_nil hSplit
    | cons path rest =>
      have hEmpty : path = "" := by
        by_contra hNe
        exact hPath path rfl hNe dashes rfl
      rw [read_file hSplit, hEmpty]
      rfl
  | emptyFile dashes =>
    rw [read_inlineFile (split_argument dashes (.inl rfl))]
    rfl
  | switchValue dashes s value =>
    rw [read_switch (split_argument dashes (.inr ⟨s, rfl⟩)) (name_ne_file s), withSwitch_name]
    rfl
  | unknown _ hForeign =>
    cases hSplit : (flag? argument).map splitValue with
    | none => exact read_none (Option.map_eq_none_iff.1 hSplit)
    | some found =>
      obtain ⟨word, value⟩ := found
      obtain ⟨dashes, hArgument⟩ := exists_argument_of_split hSplit
      have hWord : ¬ IsOptionWord word := fun h => hForeign dashes word value h hArgument
      rw [read_switch hSplit fun hFile => hWord (.inl hFile), withSwitch_none hWord]
      rfl

/-- No argument is refused for two faults. -/
theorem refuses_unique {fault' : OptionFault} (h : Refuses argument fault)
    (h' : Refuses argument fault') : fault = fault' := by
  have hRead : unset.read [argument] = .error fault := read_of_refuses h nofun
  have hRead' : unset.read [argument] = .error fault' := read_of_refuses h' nofun
  exact Except.error.inj (hRead.symm.trans hRead')

theorem exists_refuses (h : BeginsNone argument others) : ∃ fault, Refuses argument fault := by
  by_cases hOption : ∃ (dashes : Dashes) (word : String) (value : Option String),
      IsOptionWord word ∧ argument = dashes.argument word value
  · obtain ⟨dashes, word, value, rfl | ⟨s, rfl⟩, rfl⟩ := hOption
    · cases value with
      | none => exact ⟨_, .bareFile dashes⟩
      | some path =>
        by_cases hPath : path = ""
        · rw [hPath]
          exact ⟨_, .emptyFile dashes⟩
        · exact absurd (List.prefix_append _ others) (h (.inlineFile dashes path hPath))
    · cases value with
      | none => exact absurd (List.prefix_append _ others) (h (.switch dashes s))
      | some value => exact ⟨_, .switchValue dashes s value⟩
  · refine ⟨_, .unknown argument fun dashes word value hWord hArgument => ?_⟩
    exact hOption ⟨dashes, word, value, hWord, hArgument⟩

theorem ofArguments_of_refuses (h : Refuses argument fault) (hNone : BeginsNone argument others)
    (written : List WrittenOption) :
    ofArguments (written.flatMap WrittenOption.arguments ++ argument :: others) = .error fault := by
  have hRead : (ofWritten written).read (argument :: others) = .error fault := by
    refine read_of_refuses h fun path hHead hPath dashes hArgument => ?_
    obtain ⟨rest, rfl⟩ := List.head?_eq_some_iff.1 hHead
    apply hNone (.file dashes path hPath)
    rw [hArgument]
    exact List.prefix_append _ rest
  unfold ofArguments
  rw [read_written, foldl_add, hRead]
  rfl

/-! ## Command lines -/

/-- What comes of a command line. Written options are accepted if a switch asks for lines or a file
is named, and give the switches that occur and the last file. So it makes no difference how often a
switch is written, where it stands, how many dashes there are and where the paths stand. Behind
written options, an argument with which no other one begins is refused for a fault that this
argument alone decides. -/
theorem ofArguments_written :
    (∀ written : List WrittenOption, ofArguments (written.flatMap WrittenOption.arguments) =
      if .repl ∈ switches written ∨ paths written ≠ [] then .ok (ofWritten written)
      else .error .missingFile) ∧
    (∀ written written' : List WrittenOption,
      (∀ s, s ∈ switches written ↔ s ∈ switches written') →
      (paths written).getLast? = (paths written').getLast? →
      ofArguments (written.flatMap WrittenOption.arguments) =
        ofArguments (written'.flatMap WrittenOption.arguments)) ∧
    ∀ (argument : String) (others : List String), BeginsNone argument others →
      ∃ fault, (∀ other, Refuses argument other ↔ other = fault) ∧
        ∀ written : List WrittenOption,
          ofArguments (written.flatMap WrittenOption.arguments ++ argument :: others) =
            .error fault := by
  refine ⟨ofArguments_of_written, ?_, ?_⟩
  · intro written written' hSwitches hPaths
    have hNamed : paths written ≠ [] ↔ paths written' ≠ [] := by
      rw [ne_eq, ne_eq, ← List.getLast?_eq_none_iff, hPaths, List.getLast?_eq_none_iff]
    rw [ofArguments_of_written, ofArguments_of_written, ofWritten_congr hSwitches hPaths]
    simp only [hSwitches, hNamed]
  · intro argument others hNone
    obtain ⟨fault, hRefuses⟩ := exists_refuses hNone
    refine ⟨fault, fun other => ⟨fun h => refuses_unique h hRefuses, ?_⟩,
      ofArguments_of_refuses hRefuses hNone⟩
    rintro rfl
    exact hRefuses

/-- A file that looks like a switch, with a switch that is given a value behind it; and the same
switch and the same last file, written in two ways. -/
theorem ofArguments_written_value :
    BeginsNone "--lex=file" ["--repl"] ∧
      ofArguments ["-file", "--repl", "--lex=file", "--repl"] =
        .error (.unexpectedValue "lex") ∧
      ofArguments ["-repl", "-file=a", "--file=b=c"] =
        ofArguments ["--file", "b=c", "--repl", "-repl"] := by
  have hNone : BeginsNone "--lex=file" ["--repl"] := by
    intro u hPrefix
    cases u with
    | switch dashes s =>
      have hHead := (List.cons_prefix_cons.1 hPrefix).1
      cases dashes <;> cases s <;> revert hHead <;> decide
    | file dashes path _ =>
      have hHead := (List.cons_prefix_cons.1 hPrefix).1
      cases dashes <;> revert hHead <;> decide
    | inlineFile dashes path _ =>
      have hHead := congrArg String.toList (List.cons_prefix_cons.1 hPrefix).1
      rw [toList_argument] at hHead
      cases dashes <;> simp [Dashes.text] at hHead
  obtain ⟨fault, hFault, hRefused⟩ := ofArguments_written.2.2 _ _ hNone
  have hValue : fault = .unexpectedValue "lex" :=
    ((hFault _).1 (Refuses.switchValue .two .lex "file")).symm
  refine ⟨hNone, ?_, ?_⟩
  · rw [← hValue]
    exact hRefused [.file .one "--repl" (by decide)]
  · exact ofArguments_written.2.1
      [.switch .one .repl, .inlineFile .one "a" (by decide), .inlineFile .two "b=c" (by decide)]
      [.file .two "b=c" (by decide), .switch .two .repl, .switch .one .repl]
      (by intro s; cases s <;> decide) rfl

end Options

end Frontend
