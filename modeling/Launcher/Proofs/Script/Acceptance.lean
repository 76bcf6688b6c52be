import Launcher.Proofs.Script.Completeness
import Launcher.Proofs.Script.StackSafety

/-!
# Which sources are compiled

A source is compiled if its tokens spell a program, and is a syntax error if not. What the tokens spell is what is
compiled: no tokens spell two programs.
-/

namespace Launcher.Script

namespace Grammar

/-! ## What is not in an expression -/

theorem Joins.ne_equal {level : Level} {t : Token} {last : Nat} {a b e : Expr} (h : Joins level t last a b e) :
    t.lexeme ≠ .mark .equal := by
  cases h with
  | or | and => nofun
  | @sum m op _ _ _ _ _ hm | @product m op _ _ _ _ _ hm =>
      rintro ⟨⟩
      cases op <;> simp [Mark.text, BinaryOp.symbol] at hm

theorem ne_equal_of_comparison {m : Mark} {op : Comparison} (h : m.text = op.symbol) : m ≠ .equal := by
  rintro rfl
  cases op <;> simp [Mark.text, Comparison.symbol] at h

mutual

/-- There is no sign of assignment in an expression. -/
theorem Derives.ne_equal {level : Level} {ts : List Token} {e : Expr} :
    Derives level ts e → ∀ t ∈ ts, t.lexeme ≠ .mark .equal
  | .inner h => h.ne_equal
  | .joined ha hb hj => by
      simpa [or_imp, forall_and] using ⟨ha.ne_equal, hj.ne_equal, hb.ne_equal⟩
  | .not h | .minus h | .plus h => by simpa using h.ne_equal
  | .compare ha hm hb => by
      simpa [or_imp, forall_and] using ⟨ha.ne_equal, ne_equal_of_comparison hm, hb.ne_equal⟩
  | .call h hes => by simpa [or_imp, forall_and] using ⟨h.ne_equal, hes.ne_equal⟩
  | .attr h _ => by simpa [or_imp, forall_and] using h.ne_equal
  | .subscript ha hb => by simpa [or_imp, forall_and] using ⟨ha.ne_equal, hb.ne_equal⟩
  | .int | .float | .word _ | .name _ => by simp
  | .str _ h => by
      intro t ht heq
      have hmem := List.mem_map_of_mem (f := Token.lexeme) ht
      rw [h] at hmem
      obtain ⟨s, _, hs⟩ := List.mem_map.mp hmem
      rw [heq] at hs
      cases hs
  | .parens h => by simpa [or_imp, forall_and] using h.ne_equal
  | .list hes => by simpa [or_imp, forall_and] using hes.ne_equal

theorem Items.ne_equal {ts : List Token} {es : List Expr} : Items ts es → ∀ t ∈ ts, t.lexeme ≠ .mark .equal
  | .nil => nofun
  | .one h => h.ne_equal
  | .cons h hes => by simpa [or_imp, forall_and] using ⟨h.ne_equal, hes.ne_equal⟩

end

end Grammar

namespace Reader

open Grammar

/-! ## Dotted names -/

theorem name_front {id : String} {line line' : Nat} {rest : List Token} (h : IsName id) :
    name ⟨line, ⟨.name id, line'⟩ :: rest⟩ = .ok (id, ⟨line', rest⟩) := by
  simp [name, Cursor.peek, Cursor.skip, isKeyword_of_isName h]

theorem mark?_eq_none {m : Mark} (line : Nat) {rest : List Token} (h : front rest ≠ .mark m) :
    Cursor.mark? m ⟨line, rest⟩ = none := if_neg h

/-- From its first component on, a dotted name is read, and may go on. -/
theorem dotted_grows {ts : List Token} {dotted : String} (h : Dotted ts dotted) (line : Nat) (rest : List Token) :
    ∃ first c n, name ⟨line, ts ++ rest⟩ = .ok (first, c) ∧ n + rest.length ≤ c.rest.length ∧
      ∀ rounds, moreComponents (n + rounds) first c = moreComponents rounds dotted ⟨lastLine ts, rest⟩ := by
  induction h generalizing rest with
  | one hid => exact ⟨_, _, 0, name_front hid, by simp, fun rounds => by rw [Nat.zero_add]; rfl⟩
  | @more ts dotted id line₁ line₂ _ hid ih =>
      obtain ⟨first, c, n, hfirst, hn, hmore⟩ := ih (⟨.mark .dot, line₁⟩ :: ⟨.name id, line₂⟩ :: rest)
      refine ⟨first, c, n + 1, by rw [List.append_assoc]; exact hfirst, ?_, fun rounds => ?_⟩
      · simp only [List.length_cons] at hn; omega
      · rw [Nat.add_assoc, Nat.add_comm 1, hmore, moreComponents, mark?_front, lastLine_append (by simp)]
        simp only [name_front hid, Bind.bind, Except.bind]
        rfl

/-- A dotted name that does not go on is read to its end. -/
theorem dotted_reads {ts : List Token} {dotted : String} (h : Dotted ts dotted) (line : Nat) (rest : List Token)
    (hrest : front rest ≠ .mark .dot) :
    ∃ first c, name ⟨line, ts ++ rest⟩ = .ok (first, c) ∧
      moreComponents c.rest.length first c = .ok (dotted, ⟨lastLine ts, rest⟩) := by
  obtain ⟨first, c, n, hfirst, hn, hmore⟩ := dotted_grows h line rest
  obtain ⟨k, hk⟩ := Nat.exists_eq_add_of_le (Nat.le_trans (Nat.le_add_right n _) hn)
  refine ⟨first, c, hfirst, ?_⟩
  rw [hk, hmore]
  cases k with
  | zero => rfl
  | succ k => rw [moreComponents, mark?_eq_none _ hrest]

theorem dottedNames_reads {ts : List Token} {names : List (Nat × String)} (h : DottedNames ts names)
    (rounds line : Nat) {rest : List Token} (hrounds : ts.length < rounds)
    (hdot : front rest ≠ .mark .dot) (hcomma : front rest ≠ .mark .comma) :
    dottedNames rounds ⟨line, ts ++ rest⟩ = .ok (names, ⟨lastLine ts, rest⟩) := by
  induction h generalizing rounds line with
  | last hd =>
      obtain ⟨rounds, rfl⟩ := Nat.exists_eq_succ_of_ne_zero (Nat.ne_zero_of_lt hrounds)
      obtain ⟨first, c, hfirst, hmore⟩ := dotted_reads hd line rest hdot
      rw [dottedNames, hfirst]
      simp only [Bind.bind, Except.bind, hmore, mark?_eq_none _ hcomma]
  | @more ts us dotted names line' hd hnames ih =>
      rw [List.length_append, List.length_cons] at hrounds
      obtain ⟨rounds, rfl⟩ := Nat.exists_eq_succ_of_ne_zero (Nat.ne_zero_of_lt hrounds)
      obtain ⟨first, c, hfirst, hmore⟩ :=
        dotted_reads hd line (⟨.mark .comma, line'⟩ :: (us ++ rest)) nofun
      have hne : us ≠ [] := by
        cases hnames with
        | last h => exact h.ne_nil
        | more => simp
      rw [lastLine_append (by simp), lastLine_cons hne, List.append_assoc, List.cons_append, dottedNames, hfirst]
      simp only [Bind.bind, Except.bind, hmore, mark?_front, ih rounds line' (by omega)]

/-! ## Statements -/

/-- The lexemes that come behind a statement. -/
def breaks : List Lexeme := [.newline, .endOfSource, .mark .semicolon]

theorem closer_of_break {l : Lexeme} (h : l ∈ breaks) : l ∈ closers := by
  simp only [breaks, List.mem_cons, List.not_mem_nil, or_false] at h
  rcases h with rfl | rfl | rfl <;> simp [closers]

theorem ne_mark_of_break {l : Lexeme} (h : l ∈ breaks) {m : Mark} (hm : m ≠ .semicolon) : l ≠ .mark m := by
  rintro rfl
  simp [breaks] at h
  exact hm h

theorem assertion_reads {ts : List Token} {e : Expr} (h : Derives .disjunction ts e) (line : Nat)
    {rest : List Token} (hrest : front rest ∈ breaks) :
    assertion ⟨line, ts ++ rest⟩ =
      .ok (.assert (lastLine ts) e (lastLine ts) none, ⟨lastLine ts, rest⟩) := by
  have htest := expression_of_derives h line rest (closer_of_break hrest)
  have hcomma := mark?_eq_none (lastLine ts) (ne_mark_of_break hrest (m := .comma) nofun)
  simp only [assertion, htest, Bind.bind, Except.bind, hcomma]

theorem assertion_message_reads {ts us : List Token} {a b : Expr} {comma : Nat} (ha : Derives .disjunction ts a)
    (hb : Derives .disjunction us b) (line : Nat) {rest : List Token} (hrest : front rest ∈ breaks) :
    assertion ⟨line, ts ++ ⟨.mark .comma, comma⟩ :: (us ++ rest)⟩ =
      .ok (.assert (lastLine ts) a (lastLine us) (some b), ⟨lastLine us, rest⟩) := by
  have htest := expression_of_derives ha line (⟨.mark .comma, comma⟩ :: (us ++ rest))
    (by simp [front, Cursor.peek, closers])
  have hmessage := expression_of_derives hb comma rest (closer_of_break hrest)
  simp only [assertion, htest, Bind.bind, Except.bind, mark?_front, hmessage]

/-- The words with which statements begin that are no expressions. -/
def statementWords : List String := ["import", "assert", "raise", "pass"]

theorem not_begins_word {level : Level} {word : String} (h : word ∈ statementWords) :
    ¬Begins level (.name word) := by
  have hdisjoint : ∀ w ∈ statementWords, w ∉ ["None", "True", "False"] ∧ w ∈ keywords ∧ w ≠ "not" := by decide
  obtain ⟨hconst, hkeyword, hnot⟩ := hdisjoint word h
  intro hb
  cases hb with
  | word hc => exact hconst (mem_of_isConst hc)
  | name hn => exact hn hkeyword
  | not _ => exact hnot rfl

/-- An expression is no other statement. -/
theorem expression_reads {ts : List Token} {e : Expr} (h : Derives .disjunction ts e) (line : Nat)
    {rest : List Token} (hrest : front rest ∈ breaks) :
    simpleStatement ⟨line, ts ++ rest⟩ = .ok (.expression (lastLine ts) e, ⟨lastLine ts, rest⟩) := by
  have hread := expression_of_derives h line rest (closer_of_break hrest)
  obtain ⟨t, us, rfl, hbegins⟩ := h.opens
  have hequal : front (us ++ rest) ≠ .mark .equal := by
    cases us with
    | nil => exact ne_mark_of_break hrest nofun
    | cons u us => exact h.ne_equal u (by simp)
  have hword : ∀ word ∈ statementWords, t.lexeme ≠ .name word := fun word hw heq =>
    not_begins_word hw (heq ▸ hbegins)
  unfold simpleStatement
  dsimp only
  split
  · exact absurd ‹_› (hword _ (by decide))
  · exact absurd ‹_› (hword _ (by decide))
  · exact absurd ‹_› (hword _ (by decide))
  · exact absurd ‹_› (hword _ (by decide))
  · exact absurd ‹_› hequal
  · rw [hread]; rfl

theorem assignment_reads {ts : List Token} {e : Expr} {id : String} {line line' : Nat} (hid : IsName id)
    (h : Derives .disjunction ts e) (start : Nat) {rest : List Token} (hrest : front rest ∈ breaks) :
    simpleStatement ⟨start, ⟨.name id, line⟩ :: ⟨.mark .equal, line'⟩ :: (ts ++ rest)⟩ =
      .ok (.assign (lastLine ts) id e, ⟨lastLine ts, rest⟩) := by
  have hread := expression_of_derives h line' rest (closer_of_break hrest)
  have hword : ∀ word ∈ keywords, id ≠ word := fun _ hw heq => hid (heq ▸ hw)
  have himport := hword "import" (by decide)
  have hassert := hword "assert" (by decide)
  have hraise := hword "raise" (by decide)
  have hpass := hword "pass" (by decide)
  simp only [simpleStatement, Cursor.peek, Cursor.skip, name_front hid, Bind.bind, Except.bind, assignment, hread]

theorem reraise_reads (start line : Nat) {rest : List Token} (hrest : front rest ∈ breaks) :
    simpleStatement ⟨start, ⟨.name "raise", line⟩ :: rest⟩ =
      .ok (.raise line "RuntimeError" line (some (.const line (.str "No active exception to reraise"))),
        ⟨line, rest⟩) := by
  have hpeek : Cursor.peek ⟨line, rest⟩ = front rest := rfl
  simp only [breaks, List.mem_cons, List.not_mem_nil, or_false] at hrest
  show raising ⟨line, rest⟩ = _
  rw [raising, hpeek]
  rcases hrest with h | h | h <;> rw [h]

section

variable {kind : String} {line line' : Nat}

theorem raise_reads (hkind : IsName kind) (start : Nat) {rest : List Token} (hrest : front rest ∈ breaks) :
    simpleStatement ⟨start, ⟨.name "raise", line⟩ :: ⟨.name kind, line'⟩ :: rest⟩ =
      .ok (.raise line' kind line' none, ⟨line', rest⟩) := by
  have hopen := mark?_eq_none line' (ne_mark_of_break hrest (m := .openParen) nofun)
  simp only [simpleStatement, Cursor.peek, Cursor.skip, raising, name_front hkind, Bind.bind, Except.bind, hopen]

theorem raiseEmpty_reads {line₁ line₂ : Nat} (hkind : IsName kind) (start : Nat) (rest : List Token) :
    simpleStatement ⟨start, ⟨.name "raise", line⟩ :: ⟨.name kind, line'⟩ :: ⟨.mark .openParen, line₁⟩ ::
        ⟨.mark .closeParen, line₂⟩ :: rest⟩ = .ok (.raise line' kind line₂ none, ⟨line₂, rest⟩) := by
  simp only [simpleStatement, Cursor.peek, Cursor.skip, raising, name_front hkind, Bind.bind, Except.bind,
    mark?_front]

theorem raiseMessage_reads {ts : List Token} {e : Expr} {line₁ line₂ : Nat} (hkind : IsName kind)
    (h : Derives .disjunction ts e) (start : Nat) (rest : List Token) :
    simpleStatement ⟨start, ⟨.name "raise", line⟩ :: ⟨.name kind, line'⟩ :: ⟨.mark .openParen, line₁⟩ ::
        (ts ++ ⟨.mark .closeParen, line₂⟩ :: rest)⟩ = .ok (.raise line' kind line₂ (some e), ⟨line₂, rest⟩) := by
  have hmessage := expression_of_derives h line₁ (⟨.mark .closeParen, line₂⟩ :: rest)
    (by simp [front, Cursor.peek, closers])
  have hclose := @mark?_of_opens _ _ .closeParen h.opens (by decide) line₁ (⟨.mark .closeParen, line₂⟩ :: rest)
  simp only [simpleStatement, Cursor.peek, Cursor.skip, raising, name_front hkind, Bind.bind, Except.bind,
    mark?_front, hclose, hmessage, expect_front]

end

/-- The tokens of a statement are read as that statement. -/
theorem simpleStatement_reads {ts : List Token} {s : Statement} (h : Spells ts s) (line : Nat)
    (rest : List Token) (hrest : front rest ∈ breaks) :
    simpleStatement ⟨line, ts ++ rest⟩ = .ok (s, ⟨lastLine ts, rest⟩) := by
  cases h with
  | @imports ts names line' hnames =>
      have hne : ts ≠ [] := by
        cases hnames with
        | last h => exact h.ne_nil
        | more => simp
      have hread := dottedNames_reads hnames ((ts ++ rest).length + 1) line'
        (by rw [List.length_append]; omega) (ne_mark_of_break hrest nofun) (ne_mark_of_break hrest nofun)
      rw [lastLine_cons hne]
      simp only [simpleStatement, List.cons_append, Cursor.peek, Cursor.skip, hread, Bind.bind, Except.bind]
  | assert h =>
      rw [lastLine_cons h.ne_nil]
      exact assertion_reads h _ hrest
  | assertMessage ha hb =>
      rw [lastLine_append (by simp), lastLine_cons hb.ne_nil, List.append_assoc, List.cons_append]
      exact assertion_message_reads ha hb _ hrest
  | reraise => exact reraise_reads line _ hrest
  | raise hkind => exact raise_reads hkind line hrest
  | raiseEmpty hkind => exact raiseEmpty_reads hkind line rest
  | raiseMessage hkind h =>
      rw [lastLine_concat]
      simp only [List.cons_append, List.append_assoc]
      exact raiseMessage_reads hkind h line rest
  | pass => rfl
  | assign hid h =>
      rw [lastLine_cons (by simp), lastLine_cons h.ne_nil]
      exact assignment_reads hid h line hrest
  | expression h => exact expression_reads h line hrest

/-! ## Lines -/

theorem inline_of_begins {level : Level} {l : Lexeme} (h : Begins level l) : l.Inline := by
  cases h <;> exact ⟨nofun, nofun⟩

theorem spells_opens {ts : List Token} {s : Statement} (h : Spells ts s) :
    ∃ t us, ts = t :: us ∧ t.lexeme.Inline := by
  cases h with
  | expression h =>
      obtain ⟨t, us, hts, hbegins⟩ := h.opens
      exact ⟨t, us, hts, inline_of_begins hbegins⟩
  | _ => exact ⟨_, _, rfl, Lexeme.inline_name _⟩

theorem spellsAll_opens {ts : List Token} {ss : List Statement} (h : SpellsAll ts ss) :
    ∃ t us, ts = t :: us ∧ t.lexeme.Inline := by
  cases h with
  | last h => exact spells_opens h
  | closed h | more h _ =>
      obtain ⟨t, us, rfl, hin⟩ := spells_opens h
      exact ⟨t, _, rfl, hin⟩

theorem length_le_of_spellsAll {ts : List Token} {ss : List Statement} (h : SpellsAll ts ss) :
    ss.length ≤ ts.length := by
  induction h with
  | last h | closed h =>
      obtain ⟨t, us, rfl, _⟩ := spells_opens h
      simp
  | more h _ ih => simp only [List.length_append, List.length_cons]; omega

/-- The statements of a line are read one after the other, up to its end. -/
theorem statements_read {ts : List Token} {ss : List Statement} (h : SpellsAll ts ss) (line line' : Nat)
    (rest : List Token) :
    ∃ s more c, s :: more = ss ∧ simpleStatement ⟨line, ts ++ ⟨.newline, line'⟩ :: rest⟩ = .ok (s, c) ∧
      ss.length ≤ c.rest.length ∧ ∀ rounds, ss.length ≤ rounds →
        moreStatements rounds c = .ok (more, ⟨lastLine ts, ⟨.newline, line'⟩ :: rest⟩) := by
  induction h generalizing line with
  | @last ts s h =>
      have hread := simpleStatement_reads h line (⟨.newline, line'⟩ :: rest) (.head _)
      refine ⟨s, [], _, rfl, hread, by simp, fun rounds hrounds => ?_⟩
      obtain ⟨rounds, rfl⟩ := Nat.exists_eq_succ_of_ne_zero (Nat.ne_zero_of_lt hrounds)
      have hnone : Cursor.mark? .semicolon ⟨lastLine ts, ⟨.newline, line'⟩ :: rest⟩ = none := rfl
      rw [moreStatements, hnone]
  | @closed ts s semicolon h =>
      have hread := simpleStatement_reads h line
        (⟨.mark .semicolon, semicolon⟩ :: ⟨.newline, line'⟩ :: rest) (.tail _ (.tail _ (.head _)))
      refine ⟨s, [], _, rfl, by rw [List.append_assoc]; exact hread, by simp, fun rounds hrounds => ?_⟩
      obtain ⟨rounds, rfl⟩ := Nat.exists_eq_succ_of_ne_zero (Nat.ne_zero_of_lt hrounds)
      rw [moreStatements, mark?_front, lastLine_concat]
      rfl
  | @more ts us s ss semicolon h hall ih =>
      have hread := simpleStatement_reads h line
        (⟨.mark .semicolon, semicolon⟩ :: (us ++ ⟨.newline, line'⟩ :: rest)) (.tail _ (.tail _ (.head _)))
      have hlen := length_le_of_spellsAll hall
      obtain ⟨s', more, c, rfl, hfirst, hc, hmore⟩ := ih semicolon
      refine ⟨s, s' :: more, _, rfl, by rw [List.append_assoc]; exact hread, ?_, fun rounds hrounds => ?_⟩
      · rw [List.length_cons] at hlen
        simp only [List.length_append, List.length_cons]; omega
      · obtain ⟨rounds, rfl⟩ := Nat.exists_eq_succ_of_ne_zero (Nat.ne_zero_of_lt hrounds)
        obtain ⟨t, vs, rfl, hin⟩ := spellsAll_opens hall
        have hnext := hmore rounds (Nat.le_of_succ_le_succ hrounds)
        rw [moreStatements, mark?_front, lastLine_append (by simp), lastLine_cons (by simp)]
        dsimp only
        split
        · exact absurd ‹_› hin.1
        · exact absurd ‹_› hin.2
        · rw [hfirst]
          simp only [Bind.bind, Except.bind, hnext]

theorem statementLine_reads {ts : List Token} {ss : List Statement} (h : SpellsAll ts ss) (line line' : Nat)
    (rest : List Token) : statementLine ⟨line, ts ++ ⟨.newline, line'⟩ :: rest⟩ = .ok (ss, ⟨line', rest⟩) := by
  obtain ⟨s, more, c, rfl, hfirst, hc, hmore⟩ := statements_read h line line' rest
  simp only [statementLine, hfirst, Bind.bind, Except.bind, hmore _ hc]
  rfl

/-- The tokens of a program are read as that program. -/
theorem program_reads {ts : List Token} {p : Program} (h : SpellsProgram ts p) {rounds : Nat}
    (hrounds : ts.length ≤ rounds) (line : Nat) : ∃ c, program rounds ⟨line, ts⟩ = .ok (p, c) := by
  induction h generalizing rounds line with
  | done =>
      obtain ⟨rounds, rfl⟩ := Nat.exists_eq_succ_of_ne_zero (Nat.ne_zero_of_lt hrounds)
      exact ⟨_, rfl⟩
  | @line ts us ss p line' hall _ ih =>
      rw [List.length_append, List.length_cons] at hrounds
      obtain ⟨rounds, rfl⟩ := Nat.exists_eq_succ_of_ne_zero (show rounds ≠ 0 by omega)
      obtain ⟨c, hmore⟩ := @ih rounds (by omega) line'
      have hline := statementLine_reads hall line line' us
      obtain ⟨t, vs, rfl, hin⟩ := spellsAll_opens hall
      refine ⟨c, ?_⟩
      unfold program
      split
      · exact absurd ‹_› hin.1
      · exact absurd ‹_› hin.2
      · rw [hline]
        simp only [Bind.bind, Except.bind, hmore]

end Reader

/-- The program that tokens spell is the one that is read. -/
theorem Program.ofTokens_of_spells {ts : List Token} {p : Program} (h : Grammar.SpellsProgram ts p) :
    ofTokens ts = .ok p := by
  obtain ⟨c, hread⟩ := Reader.program_reads h (Nat.le_refl _) 1
  rw [ofTokens, hread]

/-- The tokens of a source spell a program exactly if they are read as that program. -/
theorem Program.ofTokens_eq_ok {source : String} {ts : List Token} {p : Program} (hts : tokenize source = .ok ts) :
    ofTokens ts = .ok p ↔ Grammar.SpellsProgram ts p :=
  ⟨ofTokens_spells hts, ofTokens_of_spells⟩

/-- A source is compiled exactly if its tokens spell a program, and as that program; every other source is a syntax
error. -/
theorem compile_accepts (mode : CompileMode) (file source : String) :
    (∀ code, compile mode file source = .ok code ↔
      ∃ ts p, tokenize source = .ok ts ∧ Grammar.SpellsProgram ts p ∧ p.compile mode file = code) ∧
    ((∃ ts p, tokenize source = .ok ts ∧ Grammar.SpellsProgram ts p) ∨
      ∃ message line, compile mode file source = .error (syntaxError message file line)) := by
  constructor
  · intro code
    rw [compile_eq_ok]
    refine exists_congr fun ts => exists_congr fun p => and_congr_right fun hts => ?_
    rw [Program.ofTokens_eq_ok hts]
  · cases hts : tokenize source with
    | error e => exact .inr ⟨e.fault.message, e.line, by rw [compile, hts]⟩
    | ok ts =>
        cases hp : Program.ofTokens ts with
        | error line => exact .inr ⟨"invalid syntax", line, by rw [compile, hts]; dsimp only; rw [hp]⟩
        | ok p => exact .inl ⟨ts, p, rfl, Program.ofTokens_spells hts hp⟩

end Launcher.Script
