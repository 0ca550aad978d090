import Frontend.Proofs.Parse.Composition

/-!
# The end of the input

A token list may end with a mark of its end, with several, or without any. Behind the list a parse
sees the mark that the list ends with, or an implied one, over and over again. So it makes no
difference how often the mark is written; and if it is not written at all, then only the place
differs that reports about the end of the input are given.

* `Diagnostic.SameButForEnd`: the same report, apart from the place of the end.
* `Likeness.ending`: the likeness of two marks of the end.
* `parse_ended`: written, repeated and implied ends.
-/

namespace Frontend

/-- The same fault in two parses of the tokens: about one of them, at the same place, or about the
end of the input, which has its place in each of the parses. -/
structure Diagnostic.SameButForEnd (tokens : List Token) (place place' : Position)
    (d d' : Diagnostic) : Prop where
  fault : d'.fault = d.fault
  place :
    (∃ t ∈ tokens, d.fault = d.fault.about t.describe ∧ d.position = t.span.first ∧
      d'.position = t.span.first) ∨
    d.fault = d.fault.about "end of input" ∧ d.position = place ∧ d'.position = place'

theorem Fault.about_about (f : Fault) (token other : String) :
    (f.about token).about other = f.about other := by
  cases f <;> rfl

theorem Token.describe_of_isEnd {t : Token} (h : t.isEnd = true) : t.describe = "end of input" :=
  if_pos h

namespace Parse

variable {p q : Setting} {ts : List Token} {mark mark' : Token}

/-! ## What is seen -/

/-- A list without a mark of its end is parsed with the implied one behind it. -/
theorem endMark_of_inside (h : ∀ t ∈ ts, ¬ t.isEnd = true) :
    (Setting.ofTokens ts).endMark = Program.impliedEnd := by
  show Program.endMark ts = _
  unfold Program.endMark
  split
  · rename_i t hLast
    exact if_neg (h t (List.mem_of_getLast? hLast))
  · rfl

theorem endMark_replicate (ts : List Token) (h : mark.isEnd = true) (further : Nat) :
    (Setting.ofTokens (ts ++ List.replicate (further + 1) mark)).endMark = mark := by
  rw [List.replicate_succ', ← List.append_assoc]
  exact endMark_append h

/-! ## Two marks of the end -/

/-- The likeness of the tokens with themselves, and of a mark of the end with another one. -/
def Likeness.ending (tokens : List Token) (mark mark' : Token) (h : mark.isEnd = true)
    (h' : mark'.isEnd = true) : Likeness :=
  .building (fun t t' => t ∈ tokens ∧ t' = t ∨ t = mark ∧ t' = mark')
    (Diagnostic.SameButForEnd tokens mark.span.first mark'.span.first)
    (by
      rintro t t' (⟨-, rfl⟩ | ⟨rfl, rfl⟩)
      · rfl
      · rw [Token.key_of_isEnd h, Token.key_of_isEnd h'])
    (by
      rintro t t' (⟨-, rfl⟩ | ⟨rfl, rfl⟩) hInside
      · rfl
      · exact absurd h hInside)
    (by
      rintro t t' (⟨hMem, rfl⟩ | ⟨rfl, rfl⟩) f
      · exact ⟨rfl, Or.inl ⟨t', hMem, (f.about_about _ _).symm, rfl, rfl⟩⟩
      · rw [Token.describe_of_isEnd h, Token.describe_of_isEnd h']
        exact ⟨rfl, Or.inr ⟨(f.about_about _ _).symm, rfl, rfl⟩⟩)

theorem streams_ending (ts : List Token) (h : p.endMark.isEnd = true) (h' : q.endMark.isEnd = true)
    (copies copies' n : Nat) :
    (Likeness.ending ts p.endMark q.endMark h h').Streams p q n
      (ts ++ List.replicate copies p.endMark) (ts ++ List.replicate copies' q.endMark) := by
  intro i _
  rw [current_drop_replicate, current_drop_replicate]
  cases hToken : ts[i]? with
  | some t => exact Or.inl ⟨List.mem_of_getElem? hToken, rfl⟩
  | none => exact Or.inr ⟨rfl, rfl⟩

/-- Parses that see the same tokens, and then a mark of the end each, come to the same
statements. -/
theorem statements_ending (hp : p.IsStandard) (hq : q.IsStandard) (ts : List Token)
    (copies copies' : Nat) :
    (statements q (ts ++ List.replicate copies' q.endMark) false).value =
        (statements p (ts ++ List.replicate copies p.endMark) false).value ∧
      List.Forall₂ (Diagnostic.SameButForEnd ts p.endMark.span.first q.endMark.span.first)
        (statements p (ts ++ List.replicate copies p.endMark) false).errors
        (statements q (ts ++ List.replicate copies' q.endMark) false).errors := by
  have hSteps := Likeness.statements_at hp hq
    (streams_ending ts hp.endMark hq.endMark copies copies') false
  exact ⟨hSteps.value.symm, hSteps.errors.forall₂⟩

/-- With the same mark behind them, lists that look the same are parsed alike. -/
theorem statements_repeated (hp : p.IsStandard) (ts : List Token) (copies copies' : Nat) :
    statements p (ts ++ List.replicate copies' p.endMark) false =
      statements p (ts ++ List.replicate copies p.endMark) false := by
  have hStreams : ∀ n, Likeness.same.Streams p p n (ts ++ List.replicate copies p.endMark)
      (ts ++ List.replicate copies' p.endMark) := by
    intro n i _
    rw [current_drop_replicate, current_drop_replicate]
    rfl
  exact Likeness.eq_of_steps (Likeness.statements_at hp hp hStreams false)

/-! ## Whole parses -/

theorem parse_eq {tokens : List Token} (h : Setting.ofTokens tokens = p) :
    Program.parse tokens =
      ⟨(statements p tokens false).value, (statements p tokens false).errors⟩ := by
  subst h
  rfl

/-- Tokens without a mark of the end, in front of one or more copies of such a mark, and without
any. It makes no difference how many copies there are. Without any, the statements are the same, and
the reports are the same one by one, but for the place of those about the end of the input. -/
theorem parse_ended (h : ∀ t ∈ ts, ¬ t.isEnd = true) (hMark : mark.isEnd = true)
    (further : Nat) :
    Program.parse (ts ++ List.replicate (further + 1) mark) = Program.parse (ts ++ [mark]) ∧
      (Program.parse (ts ++ [mark])).statements = (Program.parse ts).statements ∧
      List.Forall₂ (Diagnostic.SameButForEnd ts Position.null mark.span.first)
        (Program.parse ts).errors (Program.parse (ts ++ [mark])).errors := by
  let p : Setting := ⟨.standard, Program.impliedEnd⟩
  let q : Setting := ⟨.standard, mark⟩
  have hp : p.IsStandard := ⟨rfl, rfl⟩
  have hq : q.IsStandard := ⟨rfl, hMark⟩
  have hUnmarked : Setting.ofTokens ts = p :=
    congrArg (Setting.mk .standard) (endMark_of_inside h)
  have hMarked : ∀ n, Setting.ofTokens (ts ++ List.replicate (n + 1) mark) = q :=
    fun n => congrArg (Setting.mk .standard) (endMark_replicate ts hMark n)
  have hOne : Setting.ofTokens (ts ++ [mark]) = q := hMarked 0
  rw [parse_eq hUnmarked, parse_eq (hMarked further), parse_eq hOne]
  constructor
  · have hSame : statements q (ts ++ List.replicate (further + 1) mark) false =
        statements q (ts ++ [mark]) false := statements_repeated hq ts 1 (further + 1)
    rw [hSame]
  · have hEnding := statements_ending hp hq ts 0 1
    rw [List.replicate_zero, List.append_nil] at hEnding
    exact hEnding

/-- A block that is left open inside a group, behind a declaration without its end. -/
def cutOff : List Token :=
  (Reading.default.tokens "var a = 1 (if (b) \x7b -").dropLast

/-- A mark of the end with a text and a place of its own. -/
def lastMark : Token :=
  ⟨.endOfInput, "\x7d", .ofOffsets "a.lang" 70 70⟩

theorem parse_ended_twice :
    (∀ t ∈ cutOff, ¬ t.isEnd = true) ∧ lastMark.isEnd = true ∧
      (Program.parse cutOff).errors.map (·.position.text) =
        ["shell:10", "<null>:0", "<null>:0"] ∧
      Program.parse (cutOff ++ [lastMark, lastMark]) = Program.parse (cutOff ++ [lastMark]) ∧
      (Program.parse (cutOff ++ [lastMark])).statements = (Program.parse cutOff).statements :=
  have hCutOff : ∀ t ∈ cutOff, ¬ t.isEnd = true := by decide +kernel
  have hMark : lastMark.isEnd = true := rfl
  have hEnded := parse_ended hCutOff hMark 1
  ⟨hCutOff, hMark, by decide +kernel, hEnded.1, hEnded.2.1⟩

end Parse

end Frontend
