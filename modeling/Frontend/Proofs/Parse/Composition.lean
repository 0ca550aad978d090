import Frontend.Proofs.Parse.Balance
import Frontend.Proofs.Parse.Likeness
import Frontend.Proofs.Token.Break
import Frontend.Proofs.Token.Partition

/-!
# Sources one behind the other

A statement that ends with a semicolon has seen nothing behind it. So statements without reports,
the last of which ends with a semicolon, are parsed in front of other statements as they are alone,
if all their blocks are closed; and what comes behind them is parsed as if nothing stood before.

* `Likeness.building`, `Likeness.reading`: the likeness of tokens that build the same trees, and of
  those that read the same.
* `statement_terminated`: what an ended statement sees.
* `statements_append`: the tokens of ended statements in front of other tokens.
* `ofSource_append`: two sources with a line break between them.
-/

namespace Frontend

/-- The same report, by so many bytes further on in the same source. -/
structure Diagnostic.ShiftedBy (k : Nat) (d d' : Diagnostic) : Prop where
  fault : d'.fault = d.fault
  file : d'.position.file = d.position.file
  offset : d'.position.offset.toNat = d.position.offset.toNat + k

namespace Parse

variable {p q : Setting} {t : Token} {ts ts' rest : List Token}

/-! ## Tokens that read the same -/

theorem describe_of_alike {t' : Token} (hKey : t.key = t'.key) (hEnd : ¬ t.isEnd = true)
    (hLexeme : t'.lexeme = t.lexeme) : t'.describe = t.lexeme := by
  rw [isEnd_of_key hKey] at hEnd
  rw [Token.describe_of_not_isEnd hEnd, hLexeme]

/-- Tokens are alike only if they have the same key and, but for marks of the end, the same lexeme.
All reports are compared, and the trees are the same. -/
def Likeness.building (token : Token → Token → Prop) (report : Diagnostic → Diagnostic → Prop)
    (hKey : ∀ {t t'}, token t t' → t.key = t'.key)
    (hLexeme : ∀ {t t'}, token t t' → ¬ t.isEnd = true → t'.lexeme = t.lexeme)
    (hReport : ∀ {t t'}, token t t' → ∀ f : Fault,
      report (faultAt t (f.about t.describe)) (faultAt t' (f.about t'.describe))) : Likeness where
  token := token
  report := report
  counts _ := true
  expr := Eq
  stmt := Eq
  body := Eq
  key := hKey
  counts_about _ _ := rfl
  fault := hReport
  integer := by
    intro t t' h hClass
    have hEnd : ¬ t.isEnd = true := by simp [Token.isEnd, hClass]
    have hFault := hReport h (.notInteger t.lexeme)
    rw [describe_of_alike (hKey h) hEnd (hLexeme h hEnd),
      Token.describe_of_not_isEnd hEnd] at hFault
    unfold Parse.integer
    rw [hLexeme h hEnd]
    split
    · exact ⟨rfl, rfl, .nil⟩
    · exact ⟨rfl, rfl, .cons hFault .nil⟩
  truth := by
    intro t t' h hClass
    have hEnd : ¬ t.isEnd = true := by simp [Token.isEnd, hClass]
    have hFault := hReport h (.notTruth t.lexeme)
    rw [describe_of_alike (hKey h) hEnd (hLexeme h hEnd),
      Token.describe_of_not_isEnd hEnd] at hFault
    unfold Parse.truth
    rw [hLexeme h hEnd]
    split
    · exact ⟨rfl, rfl, .nil⟩
    · exact ⟨rfl, rfl, .cons hFault .nil⟩
  name := by
    intro t t' h hClass
    unfold Parse.name
    rw [hLexeme h (by simp [Token.isEnd, hClass])]
    exact ⟨rfl, rfl, .nil⟩
  exprNone := rfl
  unary _ h := by rw [h]
  binary _ hLeft hRight := by rw [hLeft, hRight]
  cond h hBody := by rw [h, hBody]
  condElse h hBody hOther := by rw [h, hBody, hOther]
  stmtNone := rfl
  exprStmt h := by rw [h]
  ret h := by rw [h]
  varDecl h hClass hValue := by rw [hValue, hLexeme h (by simp [Token.isEnd, hClass])]
  declaration h hClass := by rw [hLexeme h (by simp [Token.isEnd, hClass])]
  bodyNil := rfl
  bodyCons hOne hBody := by rw [hOne, hBody]

/-- Tokens are alike if they have the same class and the same lexeme. -/
def Likeness.reading (token : Token → Token → Prop) (report : Diagnostic → Diagnostic → Prop)
    (hToken : ∀ {t t'}, token t t' → t'.tokenClass = t.tokenClass ∧ t'.lexeme = t.lexeme)
    (hReport : ∀ {t t'}, token t t' → ∀ f, report (faultAt t f) (faultAt t' f)) : Likeness :=
  .building token report
    (by
      intro t t' h
      obtain ⟨hClass, hLexeme⟩ := hToken h
      unfold Token.key Token.symbol?
      rw [hClass, hLexeme])
    (fun h _ => (hToken h).2)
    (by
      intro t t' h f
      obtain ⟨hClass, hLexeme⟩ := hToken h
      have hDescribe : t'.describe = t.describe := by
        unfold Token.describe Token.isEnd
        rw [hClass, hLexeme]
      rw [hDescribe]
      exact hReport h _)

/-- The likeness of the very same tokens. -/
def Likeness.same : Likeness :=
  .reading Eq Eq (by rintro t _ rfl; exact ⟨rfl, rfl⟩) (by rintro t _ rfl _; rfl)

/-- If all reports are compared, none is left out. -/
theorem ReportsAlike.forall₂ {report : Diagnostic → Diagnostic → Prop}
    {errors errors' : List Diagnostic} (h : ReportsAlike report (fun _ => true) errors errors') :
    List.Forall₂ report errors errors' := by
  unfold ReportsAlike at h
  rwa [List.filter_true, List.filter_true] at h

theorem Likeness.eq_of_steps {α : Type} {s s' : Step α}
    (h : Likeness.same.Steps Eq s s') : s' = s := by
  obtain ⟨hValue, hMoved, hErrors⟩ := h
  have hSame : s.errors = s'.errors := List.forall₂_eq_eq_eq ▸ hErrors.forall₂
  cases s
  cases s'
  simp_all

/-! ## Statements that end with a semicolon -/

/-- If no report tells of a part and the token behind it, the symbol that ends it was found. -/
theorem moved_of_closing_clean {α : Type} {s : Symbol} {fault : String → Fault}
    {part : Step (Option α)} (h : (closing p s fault ts part).errors = []) :
    (closing p s fault ts part).moved = part.moved + 1 := by
  rw [closing_found (next_of_closing h)]

section

variable {L : Likeness} (hp : p.IsStandard) (hq : q.IsStandard)
include hp hq

theorem varDecl_terminated (hClean : (varDecl p ts).errors = [])
    (h : L.Streams p q ((varDecl p ts).moved + 1) ts ts') :
    L.Steps L.stmt (varDecl p ts) (varDecl q ts') := by
  by_cases hName : (p.next ts).tokenClass = .identifier
  · by_cases hSemicolon : (p.next (ts.drop 1)).is .semicolon = true
    · obtain ⟨t, word, sign, rest, rfl, hSign⟩ := hp.exists_cons_next_next hSemicolon
      rw [Setting.next_cons, Setting.current_cons] at hName
      rw [varDecl_none hName hSign] at h ⊢
      exact Likeness.varDecl_none_alike hq hName hSign h
    · by_cases hAssignment : (p.next (ts.drop 1)).is .assignment = true
      · obtain ⟨t, word, sign, rest, rfl, hSign⟩ := hp.exists_cons_next_next hAssignment
        rw [Setting.next_cons, Setting.current_cons] at hName
        rw [varDecl_some hName hSign] at hClean h ⊢
        rw [Step.moved_after, Step.moved_build, moved_of_closing_clean hClean] at h
        exact Likeness.varDecl_some_alike hq hName hSign
          ((L.holdsAt hp hq rest).expression .lowest) (h.mono (by omega))
      · rw [varDecl_unassigned hName hSemicolon hAssignment] at hClean
        cases hClean
  · rw [varDecl_unnamed hName] at hClean
    cases hClean

theorem ret_terminated (hClean : (ret p ts).errors = [])
    (h : L.Streams p q ((ret p ts).moved + 1) ts ts') : L.Steps L.stmt (ret p ts) (ret q ts') := by
  rw [ret_eq] at hClean h ⊢
  rw [Step.moved_after, Step.moved_build, moved_of_closing_clean hClean] at h
  have hBehind : L.Streams p q ((expression p (ts.drop 1) .lowest).moved + 2) (ts.drop 1)
      (ts'.drop 1) := h.drop rfl (by omega)
  exact Likeness.steps_ret ts ts' hBehind ((L.holdsAt hp hq _).expression .lowest _ hBehind)

/-- An expression without reports does not end on a semicolon, so that the one it ends on as a
statement is the token behind it. -/
theorem expressionStmt_terminated (hFinal : Final p ts) (hClean : (expressionStmt p ts).errors = [])
    (hLast : (p.current (ts.drop (expressionStmt p ts).moved)).is .semicolon = true)
    (h : L.Streams p q ((expressionStmt p ts).moved + 1) ts ts') :
    L.Steps L.stmt (expressionStmt p ts) (expressionStmt q ts') := by
  have hCloses := (Contract.holdsAt (balance_respected hp) hp ts).expression .lowest
  rw [expressionStmt_eq] at hClean hLast h ⊢
  have hNotLast := (hCloses hFinal hClean).not_semicolon
  split at hLast
  · rename_i hNext
    rw [if_pos hNext] at h
    have hSeen : L.Streams p q ((expression p ts .lowest).moved + 2) ts ts' := h
    exact Likeness.steps_expressionStmt hSeen ((L.holdsAt hp hq ts).expression .lowest _ hSeen)
  · exact absurd hLast hNotLast

/-- A statement that ends with a semicolon has seen nothing behind that. -/
theorem statement_terminated (hFinal : Final p ts) (hClean : (statement p ts).errors = [])
    (hLast : (p.current (ts.drop (statement p ts).moved)).is .semicolon = true)
    (h : L.Streams p q ((statement p ts).moved + 1) ts ts') :
    L.Steps L.stmt (statement p ts) (statement q ts') := by
  have hCurrent := h.current_is (Nat.succ_pos _)
  by_cases hVar : (p.current ts).is .varWord = true
  · have hVar' : (q.current ts').is .varWord = true := hCurrent .varWord ▸ hVar
    rw [statement_eq_varDecl hp hVar] at hClean h ⊢
    rw [statement_eq_varDecl hq hVar']
    exact varDecl_terminated hp hq hClean h
  · have hVar' : ¬ (q.current ts').is .varWord = true := hCurrent .varWord ▸ hVar
    by_cases hReturn : (p.current ts).is .returnWord = true
    · have hReturn' : (q.current ts').is .returnWord = true := hCurrent .returnWord ▸ hReturn
      rw [statement_eq_ret hp hReturn] at hClean h ⊢
      rw [statement_eq_ret hq hReturn']
      exact ret_terminated hp hq hClean h
    · have hReturn' : ¬ (q.current ts').is .returnWord = true := hCurrent .returnWord ▸ hReturn
      rw [statement_expr hp hVar hReturn] at hClean hLast h ⊢
      rw [statement_expr hq hVar' hReturn']
      exact expressionStmt_terminated hp hq hFinal hClean hLast h

end

/-! ## Statements in front of other tokens -/

/-- Behind tokens none of which is the mark of the end, this mark is final. -/
theorem final_of_append (hp : p.IsStandard) {written : List Token} {last : Token}
    (hWritten : ∀ t ∈ written, ¬ t.isEnd = true) : Final p (written ++ [last]) := by
  intro i hEnd
  induction written generalizing i with
  | nil =>
    cases i with
    | zero => exact hp.endMark
    | succ i =>
      rw [List.nil_append, List.drop_succ_cons, List.drop_nil]
      exact hp.endMark
  | cons t rest ih =>
    cases i with
    | zero => exact absurd hEnd (hWritten t List.mem_cons_self)
    | succ i => exact ih (fun t ht => hWritten t (List.mem_cons_of_mem _ ht)) i hEnd

/-- The first tokens are the same, whatever stands behind them. -/
theorem streams_same {written a b : List Token} {n : Nat} (h : n ≤ written.length) :
    Likeness.same.Streams p q n (written ++ a) (written ++ b) := by
  intro i hi
  have hDrop : ∀ tail : List Token, (written ++ tail).drop i = written.drop i ++ tail :=
    fun tail => List.drop_append_of_le_length (by omega)
  show _ = _
  rw [hDrop, hDrop]
  obtain ⟨t, behind, hBehind⟩ := List.exists_cons_of_ne_nil
    (List.ne_nil_of_length_pos (l := written.drop i) (by rw [List.length_drop]; omega))
  rw [hBehind]
  rfl

/-- What is left of tokens, if as many blocks are closed as are opened in all of them and in those
before. -/
theorem depth_drop {n : Nat} (h : depth ts = 0) (hFront : depth (ts.take n) = 0) :
    depth (ts.drop n) = 0 := by
  have hSplit := depth_append (ts.take n) (ts.drop n)
  rw [List.take_append_drop, h, hFront, Int.zero_add] at hSplit
  exact hSplit.symm

theorem getLast?_of_drop {n : Nat} (h : t ∈ (ts.drop n).getLast?) : t ∈ ts.getLast? := by
  rw [List.getLast?_drop] at h
  split at h
  · cases h
  · exact h

section

variable (hp : p.IsStandard) (hq : q.IsStandard) {written : List Token} {last : Token}
include hp

/-- A statement without reports does not reach the end of the input, if as many blocks are closed as
are opened before that. -/
theorem statement_within (hWritten : ∀ t ∈ written, ¬ t.isEnd = true) (hLast : last.isEnd = true)
    (hDepth : depth written = 0) (hClean : (statement p (written ++ [last])).errors = []) :
    (statement p (written ++ [last])).moved < written.length ∧
      depth (written.take ((statement p (written ++ [last])).moved + 1)) = 0 := by
  have hFinal : Final p (written ++ [last]) := final_of_append hp hWritten
  obtain ⟨hNonneg, hOpen⟩ :=
    (Contract.holdsAt (balance_respected hp) hp (written ++ [last])).statement hFinal hClean
  generalize (statement p (written ++ [last])).moved = moved at hNonneg hOpen ⊢
  by_cases hWithin : moved < written.length
  · refine ⟨hWithin, ?_⟩
    have hTake : (written ++ [last]).take (moved + 1) = written.take (moved + 1) :=
      List.take_append_of_le_length hWithin
    have hNot : ¬ (p.current ((written ++ [last]).drop moved)).isEnd = true := by
      have hCurrent : p.current ((written ++ [last]).drop moved) = written[moved] := by
        rw [List.drop_append_of_le_length (Nat.le_of_lt hWithin), List.drop_eq_getElem_cons hWithin]
        rfl
      rw [hCurrent]
      exact hWritten _ (List.getElem_mem hWithin)
    rw [← hOpen, hTake] at hNot
    rw [hTake] at hNonneg
    omega
  · have hEnd : (p.current ((written ++ [last]).drop moved)).isEnd = true := by
      refine hFinal.of_le (i := written.length) (by omega) ?_
      rw [List.drop_left]
      exact hLast
    have hAll : (written ++ [last]).take (moved + 1) = written ++ [last] := by
      apply List.take_of_length_le
      rw [List.length_append, List.length_singleton]
      omega
    rw [← hOpen, hAll, depth_append, hDepth, depth_cons_of_isEnd hLast, depth] at hEnd
    exact absurd hEnd (by decide)

include hq

/-- The first statement, before the end and in front of other tokens. -/
theorem statement_same (rest : List Token) (hWritten : ∀ t ∈ written, ¬ t.isEnd = true)
    (hClean : (statement p (written ++ [last])).errors = [])
    (hWithin : (statement p (written ++ [last])).moved < written.length)
    (hEnded : ∀ t ∈ written.getLast?, t.is .semicolon = true) :
    statement q (written ++ rest) = statement p (written ++ [last]) := by
  apply Likeness.eq_of_steps
  by_cases hBefore : (statement p (written ++ [last])).moved + 2 ≤ written.length
  · exact (Likeness.same.holdsAt hp hq _).statement _ (streams_same hBefore)
  · have hOne : (written.drop (statement p (written ++ [last])).moved).length = 1 := by
      rw [List.length_drop]
      omega
    obtain ⟨t, ht⟩ := List.length_eq_one_iff.1 hOne
    have hSemicolon : t.is .semicolon = true := by
      apply hEnded
      rw [← List.take_append_drop (statement p (written ++ [last])).moved written, ht,
        List.getLast?_append]
      rfl
    refine statement_terminated hp hq (final_of_append hp hWritten) hClean ?_
      (streams_same hWithin)
    rw [List.drop_append_of_le_length (Nat.le_of_lt hWithin), ht]
    exact hSemicolon

/-- Statements without reports, the last of which ends with a semicolon, in front of other tokens:
if all their blocks are closed, they are parsed as before the end, and what comes behind them as if
they were not there. -/
theorem statements_append (rest : List Token) (hWritten : ∀ t ∈ written, ¬ t.isEnd = true)
    (hLast : last.isEnd = true) (hDepth : depth written = 0)
    (hEnded : ∀ t ∈ written.getLast?, t.is .semicolon = true)
    (hClean : (statements p (written ++ [last]) false).errors = []) :
    (statements q (written ++ rest) false).value =
        (statements p (written ++ [last]) false).value ++ (statements q rest false).value ∧
      (statements q (written ++ rest) false).errors = (statements q rest false).errors := by
  induction hLength : written.length using Nat.strongRecOn generalizing written with
  | ind n ih =>
    cases written with
    | nil =>
      have hEnds : Ends false ([] ++ [last]) := by
        rintro t ⟨⟩
        exact Or.inl hLast
      rw [statements_of_ends hEnds]
      exact ⟨rfl, rfl⟩
    | cons t tail =>
      have hEnds : ∀ behind, ¬ Ends false (t :: (tail ++ behind)) := by
        intro behind hEnds
        rcases hEnds t rfl with hEnd | ⟨hFalse, -⟩
        · exact hWritten t List.mem_cons_self hEnd
        · cases hFalse
      rw [List.cons_append, statements_cons (hEnds _)] at hClean ⊢
      rw [List.cons_append, statements_cons (hEnds _)]
      obtain ⟨hCleanOne, hCleanOthers⟩ := List.append_eq_nil_iff.1 hClean
      obtain ⟨hWithin, hDepthOne⟩ := statement_within hp hWritten hLast hDepth hCleanOne
      have hSame : statement q (t :: (tail ++ rest)) = statement p (t :: (tail ++ [last])) :=
        statement_same hp hq rest hWritten hCleanOne hWithin hEnded
      rw [hSame]
      rw [List.cons_append] at hWithin hDepthOne
      generalize hMoved : (statement p (t :: (tail ++ [last]))).moved = moved at *
      have hFits : moved ≤ tail.length := Nat.le_of_lt_succ hWithin
      have hDrop : ∀ behind, (tail ++ behind).drop moved = tail.drop moved ++ behind :=
        fun behind => List.drop_append_of_le_length hFits
      rw [hDrop] at hCleanOthers ⊢
      rw [hDrop]
      have hDepthOthers : depth ((t :: tail).drop (moved + 1)) = 0 := depth_drop hDepth hDepthOne
      have hEndedOthers : ∀ u ∈ ((t :: tail).drop (moved + 1)).getLast?, u.is .semicolon = true :=
        fun u hu => hEnded u (getLast?_of_drop hu)
      obtain ⟨hValue, hErrors⟩ := ih (tail.drop moved).length
        (by rw [← hLength, List.length_drop, List.length_cons]; omega)
        (fun u hu => hWritten u (List.mem_cons_of_mem _ (List.mem_of_mem_drop hu)))
        hDepthOthers hEndedOthers hCleanOthers rfl
      refine ⟨?_, ?_⟩
      · rw [hValue]
        exact (List.append_assoc _ _ _).symm
      · rw [hErrors, hCleanOne]
        rfl

end

/-! ## Tokens further on -/

/-- The likeness of tokens that stand by so many bytes further on. -/
def Likeness.shifted (k : Nat) : Likeness :=
  .reading (Token.ShiftedBy k) (Diagnostic.ShiftedBy k) (fun h => ⟨h.tokenClass, h.lexeme⟩)
    (fun h _ => ⟨rfl, h.file, h.start⟩)

theorem Likeness.current_of_forall₂ {L : Likeness} (h : List.Forall₂ L.token ts ts')
    (hEnd : L.token p.endMark q.endMark) : L.token (p.current ts) (q.current ts') := by
  cases h with
  | nil => exact hEnd
  | cons hToken _ => exact hToken

theorem Likeness.streams_of_forall₂ {L : Likeness} (h : List.Forall₂ L.token ts ts')
    (hEnd : L.token p.endMark q.endMark) (n : Nat) : L.Streams p q n ts ts' :=
  fun i _ => L.current_of_forall₂ (List.forall₂_drop i h) hEnd

/-! ## Sources -/

theorem depth_eq_countP (ts : List Token) :
    depth ts = ts.countP (·.is .openCurly) - ts.countP (·.is .closeCurly) := by
  induction ts with
  | nil => rfl
  | cons t rest ih =>
    rw [depth, ih, List.countP_cons, List.countP_cons, Token.turn]
    by_cases hOpen : t.is .openCurly = true
    · have hClose : ¬ t.is .closeCurly = true := by
        intro hIs
        cases Token.is_unique hOpen hIs
      rw [if_pos hOpen, if_pos hOpen, if_neg hClose]
      omega
    · rw [if_neg hOpen, if_neg hOpen]
      by_cases hClose : t.is .closeCurly = true
      · rw [if_pos hClose, if_pos hClose]
        omega
      · rw [if_neg hClose, if_neg hClose]
        omega

open Text (byteLength)

/-- The tokens of a source, as they are parsed. -/
theorem exists_tokens (source : String) :
    ∃ written last, Reading.default.tokens source = written ++ [last] ∧ last.isEnd = true ∧
      ∀ t ∈ written, ¬ t.isEnd = true := by
  obtain ⟨written, hTokens, hWritten⟩ := tokensOf_eq .default 0 source.toList
  exact ⟨written, _, hTokens, rfl, hWritten⟩

/-- What is parsed behind other tokens, if the tokens are those of a source further on. -/
theorem statements_shifted (b : String) {start : Nat} {q : Setting} (hq : q.IsStandard)
    (hEnd : q.endMark = .endOfInput Reading.unnamed (start + byteLength b.toList))
    (hSize : start + byteLength b.toList < UInt32.size) :
    (statements q (Reading.default.tokensOf start (Piece.scan b.toList)) false).value =
        (Program.ofSource .default b).statements ∧
      List.Forall₂ (Diagnostic.ShiftedBy start) (Program.ofSource .default b).errors
        (statements q (Reading.default.tokensOf start (Piece.scan b.toList)) false).errors := by
  have hp := isStandard_ofTokens (Reading.default.tokens b)
  have hShifted := tokensOf_shifted .default start 0 (Piece.scan b.toList)
    (by rwa [Piece.flatMap_text_scan, Nat.zero_add])
  rw [Nat.zero_add] at hShifted
  obtain ⟨written, hTokens, -⟩ := tokensOf_eq .default 0 b.toList
  have hEndMark : Token.ShiftedBy start
      (Setting.ofTokens (Reading.default.tokens b)).endMark q.endMark := by
    rw [hEnd, Reading.tokens, hTokens, endMark_append rfl, Nat.add_comm start,
      Nat.zero_add]
    exact shiftedBy_of_lt (by omega) _ _ _
  have hSteps := Likeness.statements_at (L := .shifted start) hp hq
    (Likeness.streams_of_forall₂ hShifted hEndMark) false
  exact ⟨hSteps.value.symm, hSteps.errors.forall₂⟩

/-! A source, and another one behind it on the next line. -/

theorem byteLength_nextLine (a b : String) :
    byteLength (a ++ "\n" ++ b).toList = byteLength a.toList + 1 + byteLength b.toList := by
  have hOne : byteLength "\n".toList = 1 := rfl
  rw [String.toList_append, String.toList_append, Text.byteLength_append, Text.byteLength_append,
    hOne]

theorem tokens_nextLine (a b : String) :
    Reading.default.tokens (a ++ "\n" ++ b) = (Reading.default.tokens a).dropLast ++
      Reading.default.tokensOf (byteLength a.toList + 1) (Piece.scan b.toList) := by
  have hText : (a ++ "\n" ++ b).toList = a.toList ++ '\n' :: b.toList := by
    rw [String.toList_append, String.toList_append, List.append_assoc]
    rfl
  have hSplit := tokensOf_break (r := .default) rfl (w := '\n') (by decide) 0 a.toList b.toList
  rw [Nat.zero_add] at hSplit
  rw [Reading.tokens, hText, hSplit]
  rfl

theorem endMark_nextLine (a b : String) :
    (Setting.ofTokens (Reading.default.tokens (a ++ "\n" ++ b))).endMark =
      .endOfInput Reading.unnamed (byteLength a.toList + 1 + byteLength b.toList) := by
  obtain ⟨written, hTokens, -⟩ := tokensOf_eq .default (byteLength a.toList + 1) b.toList
  rw [tokens_nextLine, hTokens, ← List.append_assoc, endMark_append rfl]
  rfl

/-- A source without errors whose last token is a semicolon and that has as many closing braces as
opening ones, and any source behind it on the next line. The statements are those of the first and
then those of the second, and the errors are those of the second, moved on by what stands before. -/
theorem ofSource_append (a b : String) (hClean : (Program.ofSource .default a).errors = [])
    (hEnded : ∀ t ∈ (Reading.default.tokens a).dropLast.getLast?, t.is .semicolon = true)
    (hBraces : (Reading.default.tokens a).countP (·.is .openCurly) =
      (Reading.default.tokens a).countP (·.is .closeCurly))
    (hSize : byteLength (a ++ "\n" ++ b).toList < UInt32.size) :
    (Program.ofSource .default (a ++ "\n" ++ b)).statements =
        (Program.ofSource .default a).statements ++ (Program.ofSource .default b).statements ∧
      List.Forall₂ (Diagnostic.ShiftedBy (byteLength a.toList + 1))
        (Program.ofSource .default b).errors
        (Program.ofSource .default (a ++ "\n" ++ b)).errors := by
  obtain ⟨written, last, hTokens, hLast, hWritten⟩ := exists_tokens a
  have hp := isStandard_ofTokens (Reading.default.tokens a)
  have hq := isStandard_ofTokens (Reading.default.tokens (a ++ "\n" ++ b))
  have hBoth := tokens_nextLine a b
  rw [hTokens, List.dropLast_concat] at hBoth hEnded
  have hDepth : depth written = 0 := by
    have hAll := depth_eq_countP (Reading.default.tokens a)
    rw [hBraces, hTokens, depth_append, depth_cons_of_isEnd hLast, depth] at hAll
    omega
  have hCleanA : (statements (.ofTokens (Reading.default.tokens a)) (written ++ [last])
      false).errors = [] := by
    rw [← hTokens]
    exact hClean
  obtain ⟨hValue, hErrors⟩ := statements_append hp hq
    (Reading.default.tokensOf (byteLength a.toList + 1) (Piece.scan b.toList)) hWritten hLast hDepth
    hEnded hCleanA
  rw [← hBoth, ← hTokens] at hValue
  rw [← hBoth] at hErrors
  rw [byteLength_nextLine] at hSize
  obtain ⟨hStatements, hShifted⟩ := statements_shifted b hq (endMark_nextLine a b) hSize
  constructor
  · show (statements (.ofTokens _) _ false).value = _
    rw [hValue, hStatements]
    rfl
  · show List.Forall₂ _ _ (statements (.ofTokens _) _ false).errors
    rw [hErrors]
    exact hShifted

/-- Statements with closed blocks. -/
def ended : String := "var a = if (b) \x7bc\x7d else \x7b\x7d; return !d;"

/-- A statement that lacks its end, in front of one that is left open. -/
def broken : String := "var e = 1 if (f) \x7b g"

theorem ofSource_append_broken :
    (Program.ofSource .default ended).errors = [] ∧
      (∀ t ∈ (Reading.default.tokens ended).dropLast.getLast?, t.is .semicolon = true) ∧
      (Reading.default.tokens ended).countP (·.is .openCurly) =
        (Reading.default.tokens ended).countP (·.is .closeCurly) ∧
      byteLength (ended ++ "\n" ++ broken).toList < UInt32.size ∧
      (Program.ofSource .default broken).errors ≠ [] ∧
      (Program.ofSource .default (ended ++ "\n" ++ broken)).statements =
        (Program.ofSource .default ended).statements ++
          (Program.ofSource .default broken).statements :=
  have hClean : (Program.ofSource .default ended).errors = [] := by decide +kernel
  have hEnded : ∀ t ∈ (Reading.default.tokens ended).dropLast.getLast?, t.is .semicolon = true := by
    decide +kernel
  have hBraces : (Reading.default.tokens ended).countP (·.is .openCurly) =
      (Reading.default.tokens ended).countP (·.is .closeCurly) := by decide +kernel
  have hSize : byteLength (ended ++ "\n" ++ broken).toList < UInt32.size := by decide +kernel
  ⟨hClean, hEnded, hBraces, hSize, by decide +kernel,
    (ofSource_append ended broken hClean hEnded hBraces hSize).1⟩

end Parse

end Frontend
