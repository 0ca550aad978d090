import Frontend.Proofs.Parse.Contract
import Frontend.Proofs.Token.Partition

/-!
# The order of the reports

What is missing is reported at the token that stands in its place, which is the one at the place or
the one after it. A construct goes on from the last token of its part, so its own reports come
behind those of the part. One does not: the parenthesis behind a condition is looked for on the last
token of the condition, where a report from within the condition may already be about the token
after it. There the order of the source is broken, and by no more than one token.

* `Marked`: reports with the tokens they are about, one not far before the other.
* `ordered_respected`: each way to a result keeps its reports in this order.
* `errors_pairwise`: what this says of the offsets in a source, and when they never decrease.
-/

namespace Frontend

/-- The fault of a conditional whose condition does not end with its parenthesis. -/
def Fault.isUnclosedCondition : Fault → Bool
  | .missingClosingParen context _ => context = "if expression"
  | _ => false

namespace Parse

/-! ## Marks -/

/-- A report with the token it is about, counted from the place at which a function starts. -/
structure Mark where
  index : Nat
  report : Diagnostic

namespace Mark

/-- The report is at the token. -/
def Fits (p : Setting) (ts : List Token) (m : Mark) : Prop :=
  m.report.position = (p.current (ts.drop m.index)).span.first

/-- The second report is about no earlier token, unless it is about an unclosed condition. Then it
may be about the token right in front. -/
def Precedes (m m' : Mark) : Prop :=
  m.index ≤ m'.index ∨ m.index = m'.index + 1 ∧ m'.report.fault.isUnclosedCondition = true

/-- The same mark, counted from a place so many tokens earlier. -/
def later (k : Nat) (m : Mark) : Mark :=
  ⟨k + m.index, m.report⟩

/-- A report about a token up to the given one. -/
def Upto (last : Nat) (m : Mark) : Prop :=
  m.index ≤ last

/-- A report about a token up to the given one, but about the token at the place only if this does
not close a condition. -/
def Behind (last : Nat) (m : Mark) : Prop :=
  m.index ≤ last ∧ (1 ≤ m.index ∨ m.report.fault.isUnclosedCondition = true)

end Mark

/-- The reports are about tokens of which the condition holds, in their order up to unclosed
conditions. -/
def Marked (p : Setting) (ts : List Token) (P : Mark → Prop) (errors : List Diagnostic) : Prop :=
  ∃ marks : List Mark, marks.map Mark.report = errors ∧ marks.Pairwise Mark.Precedes ∧
    ∀ m ∈ marks, m.Fits p ts ∧ P m

variable {p : Setting} {ts rest : List Token} {t : Token} {P Q R : Mark → Prop}
  {errors errors' : List Diagnostic} {j k : Nat}

theorem marked_nil : Marked p ts P [] :=
  ⟨[], rfl, List.Pairwise.nil, fun _ hm => absurd hm List.not_mem_nil⟩

theorem marked_fault (k : Nat) (f : Fault)
    (hP : P ⟨k, faultAt (p.current (ts.drop k)) f⟩) :
    Marked p ts P [faultAt (p.current (ts.drop k)) f] := by
  refine ⟨[⟨k, faultAt (p.current (ts.drop k)) f⟩], rfl, List.pairwise_singleton _ _, ?_⟩
  intro m hm
  rw [List.mem_singleton.1 hm]
  exact ⟨rfl, hP⟩

theorem Marked.imp (h : Marked p ts P errors) (hQ : ∀ m, P m → Q m) : Marked p ts Q errors := by
  obtain ⟨marks, hMap, hPairwise, hMem⟩ := h
  exact ⟨marks, hMap, hPairwise, fun m hm => ⟨(hMem m hm).1, hQ m (hMem m hm).2⟩⟩

theorem Mark.Fits.later {m : Mark} (h : m.Fits p (ts.drop k)) : (m.later k).Fits p ts := by
  unfold Mark.Fits at h
  rw [List.drop_drop] at h
  exact h

theorem Mark.Precedes.later {m m' : Mark} (h : m.Precedes m') (k : Nat) :
    (m.later k).Precedes (m'.later k) := by
  rcases h with hLe | ⟨hIndex, hUnclosed⟩
  · exact Or.inl (Nat.add_le_add_left hLe k)
  · refine Or.inr ⟨?_, hUnclosed⟩
    show k + m.index = k + m'.index + 1
    omega

/-- Two parts one after the other, the second on the tokens behind the first `k`. -/
theorem Marked.append (h : Marked p ts P errors) (h' : Marked p (ts.drop k) Q errors')
    (hOrder : ∀ m m', P m → Q m' → m.Precedes (m'.later k)) (hP : ∀ m, P m → R m)
    (hQ : ∀ m, Q m → R (m.later k)) : Marked p ts R (errors ++ errors') := by
  obtain ⟨marks, rfl, hPairwise, hMem⟩ := h
  obtain ⟨marks', rfl, hPairwise', hMem'⟩ := h'
  refine ⟨marks ++ marks'.map (Mark.later k), ?_, ?_, ?_⟩
  · rw [List.map_append, List.map_map]
    rfl
  · refine List.pairwise_append.2 ⟨hPairwise, ?_, ?_⟩
    · exact List.pairwise_map.2 (hPairwise'.imp fun hm => hm.later k)
    · intro m hm later hLater
      obtain ⟨m', hm', rfl⟩ := List.mem_map.1 hLater
      exact hOrder m m' (hMem m hm).2 (hMem' m' hm').2
  · intro m hm
    rcases List.mem_append.1 hm with hm | hm
    · exact ⟨(hMem m hm).1, hP m (hMem m hm).2⟩
    · obtain ⟨m', hm', rfl⟩ := List.mem_map.1 hm
      exact ⟨(hMem' m' hm').1.later, hQ m' (hMem' m' hm').2⟩

/-- A part in front of which a construct has one more token. -/
theorem Marked.inFront {n : Nat} (h : Marked p rest (Mark.Upto k) errors) (hLe : 1 + k ≤ n) :
    Marked p (t :: rest) (Mark.Behind n) errors := by
  have hNil : Marked p (t :: rest) (fun _ => False) [] := marked_nil
  refine hNil.append (k := 1) h (fun _ _ hFalse _ => hFalse.elim) (fun _ hFalse => hFalse.elim) ?_
  intro m hm
  exact ⟨Nat.le_trans (Nat.add_le_add_left hm 1) hLe, Or.inl (Nat.le_add_right 1 _)⟩

theorem Marked.upto (h : Marked p ts (Mark.Behind k) errors) :
    Marked p ts (Mark.Upto k) errors :=
  h.imp fun _ hm => hm.1

/-- A part, and what goes on from its last token. -/
theorem Marked.goOn (h : Marked p ts (Mark.Upto (k + 1)) errors)
    (h' : Marked p (ts.drop k) (Mark.Behind (j + 1)) errors') :
    Marked p ts (Mark.Upto (k + j + 1)) (errors ++ errors') := by
  refine h.append h' ?_ ?_ ?_
  · -- The two are about the same token or in order, unless the second is about the token in front.
    intro m m' hm hm'
    have hIndex : m.index ≤ k + 1 := hm
    rcases hm'.2 with hBehind | hUnclosed
    · refine Or.inl ?_
      show m.index ≤ k + m'.index
      omega
    · by_cases hLe : m.index ≤ k + m'.index
      · exact Or.inl hLe
      · refine Or.inr ⟨?_, hUnclosed⟩
        show m.index = k + m'.index + 1
        omega
  · intro m hm
    have hIndex : m.index ≤ k + 1 := hm
    show m.index ≤ k + j + 1
    omega
  · intro m hm
    have hIndex := hm.1
    show k + m.index ≤ k + j + 1
    omega

theorem Marked.closing {α : Type} {part : Step (Option α)}
    (h : Marked p ts (Mark.Upto (part.moved + 1)) part.errors) (s : Symbol)
    (fault : String → Fault) :
    Marked p ts (Mark.Upto ((closing p s fault ts part).moved + 1))
      (closing p s fault ts part).errors := by
  by_cases hNext : (p.next (ts.drop part.moved)).is s = true
  · rw [closing_found hNext]
    refine h.imp ?_
    intro m hm
    exact Nat.le_succ_of_le hm
  · rw [closing_missing hNext]
    exact h.goOn (j := 0) (marked_fault 1 _ ⟨Nat.le_refl 1, Or.inl (Nat.le_refl 1)⟩)

/-! ## The contract -/

/-- Where each parsing function reports. What goes on from an operand, a condition or a body starts
on its last token, and reports about what follows, unclosed conditions apart. -/
def ordered (p : Setting) : Contract where
  expression ts _ s := Marked p ts (Mark.Upto (s.moved + 1)) s.errors
  operators ts _ _ s := Marked p ts (Mark.Behind (s.moved + 1)) s.errors
  operand ts s := Marked p ts (Mark.Upto (s.moved + 1)) s.errors
  branches ts _ s := Marked p ts (Mark.Behind (s.moved + 1)) s.errors
  otherwise ts _ _ s := Marked p ts (Mark.Behind (s.moved + 1)) s.errors
  block ts s := Marked p ts (Mark.Upto (s.moved + 1)) s.errors
  statements ts _ s := Marked p ts (Mark.Upto (s.moved + 1)) s.errors
  statement ts s := Marked p ts (Mark.Upto (s.moved + 1)) s.errors

theorem marked_here (f : Fault) : Marked p ts (Mark.Upto 1) [faultAt (p.current ts) f] :=
  marked_fault 0 f (Nat.zero_le 1)

theorem marked_literal {s : Step (Option Expr)} (h : BuiltOrFault t s) :
    Marked p (t :: rest) (Mark.Upto (s.moved + 1)) s.errors := by
  rcases h with ⟨e, rfl⟩ | ⟨f, rfl⟩
  · exact marked_nil
  · exact marked_here f

theorem marked_next (ts : List Token) (f : Fault) :
    Marked p ts (Mark.Behind 1) [faultAt (p.next ts) f] :=
  marked_fault 1 f ⟨Nat.le_refl 1, Or.inl (Nat.le_refl 1)⟩

theorem marked_nextNext (ts : List Token) (f : Fault) :
    Marked p ts (Mark.Behind 2) [faultAt (p.next (ts.drop 1)) f] := by
  have hDrop : p.next (ts.drop 1) = p.current (ts.drop 2) := by
    rw [Setting.next, List.drop_drop]
  rw [hDrop]
  exact marked_fault 2 f ⟨Nat.le_refl 2, Or.inl (Nat.le_succ 1)⟩

theorem ordered_respected (p : Setting) : (ordered p).Respected p where
  noOperand _ := marked_here _
  opened _ hFirst hRest := hFirst.goOn hRest
  stop _ := marked_nil
  fold _ _ hRight hRest := by
    refine ((hRight.goOn hRest).inFront (Nat.le_refl _)).upto.inFront ?_
    rw [Step.moved_after]
    omega
  integer {t rest} _ := marked_literal (builtOrFault_integer t)
  truth {t rest} _ := marked_literal (builtOrFault_truth t)
  name _ := marked_nil
  unary _ hOperand := by
    refine (hOperand.inFront ?_).upto
    rw [Step.moved_after, Step.moved_build]
    omega
  group _ hInner := by
    refine ((hInner.closing _ _).inFront ?_).upto
    rw [Step.moved_after]
    omega
  cond _ _ hCondition hRest := by
    refine ((hCondition.goOn hRest).inFront ?_).upto
    rw [Step.moved_after]
    omega
  condUnopened {t rest} _ _ := (marked_next (t :: rest) _).upto
  branches _ _ hBody hRest := by
    refine (hBody.goOn hRest).inFront ?_
    rw [Step.moved_after]
    omega
  branchesUnclosed _ := marked_fault 0 _ ⟨Nat.zero_le 1, Or.inr rfl⟩
  branchesUnopened _ _ := by
    refine (marked_next _ _).imp ?_
    intro m hm
    exact ⟨Nat.le_succ_of_le hm.1, hm.2⟩
  otherwiseNone _ := marked_nil
  otherwise _ _ hOther := by
    refine (hOther.inFront (Nat.le_refl _)).upto.inFront ?_
    dsimp only
    omega
  otherwiseUnopened _ _ := marked_nextNext _ _
  block _ hBody := by
    refine (hBody.inFront ?_).upto
    rw [Step.moved_after]
    omega
  ends _ := marked_nil
  next {t rest inBlock one others} _ hOne hOthers := by
    have hDrop : Marked p ((t :: rest).drop (one.moved + 1)) _ _ := hOthers
    refine hOne.append hDrop ?_ ?_ ?_
    · intro m m' hm _
      exact Or.inl (Nat.le_trans hm (Nat.le_add_right _ _))
    · intro m hm
      refine Nat.le_trans hm ?_
      show one.moved + 1 ≤ one.moved + 1 + others.moved + 1
      omega
    · intro m hm
      have hIndex : m.index ≤ others.moved + 1 := hm
      show one.moved + 1 + m.index ≤ one.moved + 1 + others.moved + 1
      omega
  expressionStmt {ts s} _ _ hValue := by
    refine hValue.imp ?_
    intro m hm
    refine Nat.le_trans hm ?_
    show s.moved + 1 ≤ s.moved + _ + 1
    omega
  ret _ hValue := by
    refine ((hValue.closing _ _).inFront ?_).upto
    rw [Step.moved_after, Step.moved_build]
    omega
  varDecl _ _ _ hValue := by
    have hClosing := hValue.closing .semicolon (.missingSemicolon "var")
    refine (((hClosing.inFront (Nat.le_refl _)).upto.inFront (Nat.le_refl _)).upto.inFront ?_).upto
    rw [Step.moved_after, Step.moved_build]
    omega
  varDeclNone _ _ _ := marked_nil
  varDeclUnnamed {t rest} _ _ := (marked_next (t :: rest) _).upto
  varDeclUnassigned {t rest} _ _ _ _ := (marked_nextNext (t :: rest) _).upto

theorem marked_statements (hp : p.IsStandard) (ts : List Token) (inBlock : Bool) :
    Marked p ts (Mark.Upto ((statements p ts inBlock).moved + 1))
      (statements p ts inBlock).errors :=
  (Contract.holdsAt (ordered_respected p) hp ts).statements inBlock

/-! ## Offsets -/

/-- Behind the last token of a list, its mark of the end is seen again and again. -/
theorem getElem?_min (written : List Token) {last : Token} (hEnd : last.isEnd = true) (i : Nat) :
    (written ++ [last])[min i written.length]? =
      some ((Setting.ofTokens (written ++ [last])).current ((written ++ [last]).drop i)) := by
  rw [Setting.current, endMark_append hEnd, List.headD_eq_head?_getD, List.head?_drop]
  by_cases hi : i < written.length
  · rw [Nat.min_eq_left (Nat.le_of_lt hi), List.getElem?_append_left hi,
      List.getElem?_eq_getElem hi, Option.getD_some]
  · have hle : written.length ≤ i := Nat.le_of_not_lt hi
    rw [Nat.min_eq_right hle, List.getElem?_concat_length, List.getElem?_append_right hle]
    cases i - written.length <;> rfl

end Parse

open Parse
open Text (byteLength)

/-- The second report is about a condition that is not closed, at the token right in front of the
one that the first is about. -/
structure UnclosedBefore (tokens : List Token) (d d' : Diagnostic) : Prop where
  unclosed : d'.fault.isUnclosedCondition = true
  adjacent : ∃ t u, [t, u] <:+: tokens ∧ d'.position = t.span.first ∧ d.position = u.span.first

theorem UnclosedBefore.lt {tokens : List Token} {d d' : Diagnostic}
    (hTokens : tokens.Pairwise fun s t => s.span.start < t.span.start)
    (h : UnclosedBefore tokens d d') : d'.position.offset < d.position.offset := by
  obtain ⟨t, u, ⟨before, after, rfl⟩, hPosition', hPosition⟩ := h.adjacent
  rw [hPosition', hPosition]
  have hPart := (List.pairwise_append.1 hTokens).1
  have hPair := (List.pairwise_append.1 hPart).2.1
  exact List.rel_of_pairwise_cons hPair (List.mem_singleton_self u)


section

variable {written : List Token} {last : Token} (hEnd : last.isEnd = true)
  (hTokens : (written ++ [last]).Pairwise fun s t => s.span.start < t.span.start)

include hEnd hTokens

theorem start_le {i j : Nat} (hLe : i ≤ j) :
    ((Setting.ofTokens (written ++ [last])).current ((written ++ [last]).drop i)).span.start ≤
      ((Setting.ofTokens (written ++ [last])).current ((written ++ [last]).drop j)).span.start := by
  obtain ⟨hi, hFirst⟩ := List.getElem?_eq_some_iff.1 (getElem?_min written hEnd i)
  obtain ⟨hj, hSecond⟩ := List.getElem?_eq_some_iff.1 (getElem?_min written hEnd j)
  rw [← hFirst, ← hSecond]
  have hMin : min i written.length ≤ min j written.length := by omega
  rcases Nat.lt_or_eq_of_le hMin with hLt | hEq
  · exact Nat.le_of_lt (List.pairwise_iff_getElem.1 hTokens _ _ hi hj hLt)
  · simp only [hEq]
    exact Nat.le_refl _

/-- Marks in order are reports with offsets in order, unless a condition is not closed. -/
theorem offset_le_or_unclosedBefore {m m' : Mark}
    (hFits : m.Fits (Setting.ofTokens (written ++ [last])) (written ++ [last]))
    (hFits' : m'.Fits (Setting.ofTokens (written ++ [last])) (written ++ [last]))
    (h : m.Precedes m') :
    m.report.position.offset ≤ m'.report.position.offset ∨
      UnclosedBefore (written ++ [last]) m.report m'.report := by
  rcases h with hLe | ⟨hIndex, hUnclosed⟩
  · rw [hFits, hFits']
    exact Or.inl (start_le hEnd hTokens hLe)
  · by_cases hInside : m'.index < written.length
    · have hAt := getElem?_min written hEnd m.index
      have hAt' := getElem?_min written hEnd m'.index
      rw [Nat.min_eq_left (Nat.le_of_lt hInside)] at hAt'
      rw [Nat.min_eq_left (by omega)] at hAt
      obtain ⟨hi, hFirst⟩ := List.getElem?_eq_some_iff.1 hAt'
      obtain ⟨hj, hSecond⟩ := List.getElem?_eq_some_iff.1 hAt
      refine Or.inr ⟨hUnclosed, _, _, ?_, hFits', hFits⟩
      rw [← hFirst, ← hSecond]
      have hDrop := List.drop_eq_getElem_cons hi
      rw [← hIndex, List.drop_eq_getElem_cons hj] at hDrop
      have hPrefix : [(written ++ [last])[m'.index], (written ++ [last])[m.index]] <+:
          (written ++ [last]).drop m'.index := by
        rw [hDrop]
        exact List.prefix_append [_, _] _
      exact hPrefix.isInfix.trans (List.drop_suffix _ _).isInfix
    · -- Both reports are at the mark of the end.
      have hSame := getElem?_min written hEnd m.index
      have hMin : min m.index written.length = min m'.index written.length := by omega
      rw [hMin, getElem?_min written hEnd m'.index, Option.some.injEq] at hSame
      rw [hFits, hFits', hSame]
      exact Or.inl (Nat.le_refl _)

end

/-- The offsets of the reports do not decrease from one report to a later one, except where the
later one is about a condition that is not closed: that one may be at the token right in front of
the other. So the reports are in the order of the source if and only if no report about an unclosed
condition comes behind one at the next token. -/
theorem errors_pairwise (r : Reading) (source : String)
    (hSize : byteLength source.toList < UInt32.size) :
    ((Program.ofSource r source).errors.Pairwise fun d d' =>
      d.position.offset ≤ d'.position.offset ∨ UnclosedBefore (r.tokens source) d d') ∧
    (((Program.ofSource r source).errors.Pairwise fun d d' =>
        d.position.offset ≤ d'.position.offset) ↔
      (Program.ofSource r source).errors.Pairwise fun d d' =>
        ¬ UnclosedBefore (r.tokens source) d d') := by
  obtain ⟨parts, last, hParts⟩ := exists_partitions r source hSize
  have hTokens := hParts.pairwise_start
  obtain ⟨marks, hMap, hPairwise, hMem⟩ :=
    marked_statements (isStandard_ofTokens (r.tokens source)) (r.tokens source) false
  have hOrder : (Program.ofSource r source).errors.Pairwise fun d d' =>
      d.position.offset ≤ d'.position.offset ∨ UnclosedBefore (r.tokens source) d d' := by
    have hErrors : (Program.ofSource r source).errors = marks.map Mark.report := hMap.symm
    rw [hErrors, List.pairwise_map]
    refine hPairwise.imp_of_mem ?_
    intro m m' hm hm' hPrecedes
    have hFits := (hMem m hm).1
    have hFits' := (hMem m' hm').1
    rw [hParts.tokens] at hTokens hFits hFits' ⊢
    exact offset_le_or_unclosedBefore hParts.last_isEnd hTokens hFits hFits' hPrecedes
  refine ⟨hOrder, ?_, ?_⟩
  · intro hSorted
    refine hSorted.imp ?_
    intro d d' hLe hUnclosed
    exact absurd (hUnclosed.lt hTokens) (UInt32.not_lt.2 hLe)
  · intro hNone
    refine (hOrder.and hNone).imp ?_
    rintro d d' ⟨hLe | hUnclosed, hNot⟩
    · exact hLe
    · exact absurd hUnclosed hNot

/-- A condition with two operands: the parenthesis is missed at the second one and then, for the
conditional, at the first. -/
theorem errors_pairwise_unclosed :
    byteLength "if (a b".toList < UInt32.size ∧
      (Program.ofSource .default "if (a b").errors.Pairwise fun d d' =>
        d.position.offset ≤ d'.position.offset ∨
          UnclosedBefore (Reading.default.tokens "if (a b") d d' :=
  ⟨by decide, (errors_pairwise .default "if (a b" (by decide)).1⟩

/-- So the reports about this source are not in its order. -/
theorem not_pairwise_unclosed :
    ¬ (Program.ofSource .default "if (a b").errors.Pairwise fun d d' =>
      d.position.offset ≤ d'.position.offset := by
  decide +kernel

end Frontend
