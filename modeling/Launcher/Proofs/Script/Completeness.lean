import Launcher.Proofs.Script.Reading

/-!
# Expressions that are spelled are read

Whatever tokens spell an expression of a level, the reader of that level takes all of them and gives the expression,
unless the token behind them would go on with it. So no tokens spell two expressions.
-/

namespace Launcher.Script

namespace Grammar

/-! ## How an expression begins -/

/-- The levels whose expressions can begin with the word `not`. -/
def negatedLevels : List Level := [.disjunction, .conjunction, .negation]

/-- The levels whose expressions can begin with a sign. -/
def signedLevels : List Level := negatedLevels ++ [.comparison, .sum, .product, .sign]

/-- An expression of the level can begin with the lexeme. -/
inductive Begins (level : Level) : Lexeme → Prop where
  | int (n : Nat) : Begins level (.int n)
  | float (x : Double) : Begins level (.float x)
  | str (s : String) : Begins level (.str s)
  | openParen : Begins level (.mark .openParen)
  | openBracket : Begins level (.mark .openBracket)
  | word {word : String} {c : Const} : IsConst word c → Begins level (.name word)
  | name {id : String} : IsName id → Begins level (.name id)
  | not : level ∈ negatedLevels → Begins level (.name "not")
  | sign {m : Mark} : m = .minus ∨ m = .plus → level ∈ signedLevels → Begins level (.mark m)

theorem mem_of_isConst {word : String} {c : Const} (h : IsConst word c) : word ∈ ["None", "True", "False"] := by
  cases h <;> decide

theorem Begins.of_inner {level : Level} {l : Lexeme} (h : Begins level.inner l) : Begins level l := by
  cases h with
  | int n => exact .int n
  | float x => exact .float x
  | str s => exact .str s
  | openParen => exact .openParen
  | openBracket => exact .openBracket
  | word h => exact .word h
  | name h => exact .name h
  | not h => exact .not (by revert h; cases level <;> decide)
  | sign hm h => exact .sign hm (by revert h; cases level <;> decide)

/-- The first of the tokens can begin an expression of the level. -/
def Opens (level : Level) (ts : List Token) : Prop := ∃ t us, ts = t :: us ∧ Begins level t.lexeme

theorem Opens.of_inner {level : Level} {ts : List Token} : Opens level.inner ts → Opens level ts
  | ⟨t, us, hts, h⟩ => ⟨t, us, hts, h.of_inner⟩

theorem Opens.append {level : Level} {ts : List Token} (us : List Token) : Opens level ts → Opens level (ts ++ us)
  | ⟨t, vs, hts, h⟩ => ⟨t, vs ++ us, congrArg (· ++ us) hts, h⟩

theorem opens_str {level : Level} {ts : List Token} {ss : List String} (hts : ts ≠ [])
    (h : ts.map Token.lexeme = ss.map Lexeme.str) : Opens level ts := by
  cases ts with
  | nil => exact absurd rfl hts
  | cons t ts =>
      cases ss with
      | nil => cases h
      | cons s ss => exact ⟨t, ts, rfl, (List.cons.inj h).1 ▸ .str s⟩

theorem Derives.opens {level : Level} {ts : List Token} {e : Expr} : Derives level ts e → Opens level ts
  | .inner h => h.opens.of_inner
  | .joined h _ _ => h.opens.append _
  | .compare h _ _ => @Opens.of_inner .comparison _ (h.opens.append _)
  | .call h _ | .subscript h _ => (h.opens.append _).append _
  | .attr h _ => h.opens.append _
  | .not _ => ⟨_, _, rfl, .not (by decide)⟩
  | .minus _ => ⟨_, _, rfl, .sign (.inl rfl) (by decide)⟩
  | .plus _ => ⟨_, _, rfl, .sign (.inr rfl) (by decide)⟩
  | .int => ⟨_, _, rfl, .int _⟩
  | .float => ⟨_, _, rfl, .float _⟩
  | .str hts h => opens_str hts h
  | .word h => ⟨_, _, rfl, .word h⟩
  | .name h => ⟨_, _, rfl, .name h⟩
  | .parens _ => ⟨_, _, rfl, .openParen⟩
  | .list _ => ⟨_, _, rfl, .openBracket⟩

/-! ## What goes on with an expression -/

/-- How far inside a level is. -/
def Level.depth : Level → Nat
  | disjunction => 0
  | conjunction => 1
  | negation => 2
  | comparison => 3
  | sum => 4
  | product => 5
  | sign => 6
  | primary => 7
  | atom => 8

theorem Level.depth_le_inner (level : Level) : level.depth ≤ level.inner.depth := by
  cases level <;> decide

/-- The lexeme behind an expression of the level goes on with none of the expressions in it. -/
structure Stops (level : Level) (l : Lexeme) : Prop where
  or : level.depth ≤ Level.depth .disjunction → l ≠ .name "or"
  and : level.depth ≤ Level.depth .conjunction → l ≠ .name "and"
  comparison : level.depth ≤ Level.depth .comparison → Reader.comparison? l = none
  sum : level.depth ≤ Level.depth .sum → Reader.termOp? l = none
  product : level.depth ≤ Level.depth .product → Reader.factorOp? l = none
  primary : level.depth ≤ Level.depth .primary →
    l ≠ .mark .openParen ∧ l ≠ .mark .dot ∧ l ≠ .mark .openBracket
  str : ∀ s, l ≠ .str s

theorem Stops.inner {level : Level} {l : Lexeme} (h : Stops level l) : Stops level.inner l :=
  have hle {n : Nat} : level.inner.depth ≤ n → level.depth ≤ n := Nat.le_trans level.depth_le_inner
  ⟨h.or ∘ hle, h.and ∘ hle, h.comparison ∘ hle, h.sum ∘ hle, h.product ∘ hle, h.primary ∘ hle, h.str⟩

/-- The lexemes that come behind a whole expression. -/
def closers : List Lexeme :=
  [.mark .closeParen, .mark .closeBracket, .mark .comma, .mark .semicolon, .newline, .endOfSource]

theorem stops_of_closer {level : Level} {l : Lexeme} (h : l ∈ closers) : Stops level l := by
  simp only [closers, List.mem_cons, List.not_mem_nil, or_false] at h
  rcases h with rfl | rfl | rfl | rfl | rfl | rfl <;> constructor <;> intros <;> first | rfl | simp

theorem not_begins_of_closer {level : Level} {l : Lexeme} (h : l ∈ closers) : ¬Begins level l := by
  intro hb
  cases hb with
  | sign hm _ => rcases hm with rfl | rfl <;> simp [closers] at h
  | _ => simp [closers] at h

end Grammar

namespace Reader

open Grammar

/-! ## Readers by level -/

/-- The reader of the expressions of a level, in which brackets nest at most `depth` deep. -/
def ofLevel (depth : Nat) : Level → Reader Expr
  | .disjunction => disjunction (expressionWithin depth)
  | .conjunction => conjunction (expressionWithin depth)
  | .negation => fun c => negated (compared (expressionWithin depth)) c.rest.length c
  | .comparison => compared (expressionWithin depth)
  | .sum => sum (expressionWithin depth)
  | .product => leftJoined (fun c => signed (primary (expressionWithin depth)) c.rest.length c)
      fun l => (factorOp? l).map binaryNode
  | .sign => fun c => signed (primary (expressionWithin depth)) c.rest.length c
  | .primary => primary (expressionWithin depth)
  | .atom => atom (expressionWithin depth)

/-- The operators of a level that group to the left. -/
def joiner? : Level → Lexeme → Option (Nat → Nat → Expr → Expr → Expr)
  | .disjunction => wordNode "or" .or
  | .conjunction => wordNode "and" .and
  | .sum => fun l => (termOp? l).map binaryNode
  | .product => fun l => (factorOp? l).map binaryNode
  | _ => fun _ => none

/-- The levels at which an expression is read from its first part on. -/
def growingLevels : List Level := [.disjunction, .conjunction, .sum, .product, .primary]

/-- Go on with an expression of a level. -/
def grow (depth : Nat) : Level → (rounds : Nat) → Expr → Reader Expr
  | .primary => suffixes (expressionWithin depth)
  | level => leftChain (ofLevel depth level.inner) (joiner? level)

theorem ofLevel_eq (depth : Nat) {level : Level} (h : level ∈ growingLevels) (c : Cursor) :
    ofLevel depth level c =
      (ofLevel depth level.inner c >>= fun (e, d) => grow depth level d.rest.length e d) := by
  revert h
  cases level <;> intro hl <;> first | rfl | exact absurd hl (by decide)

theorem joiner?_eq_none {level : Level} {l : Lexeme} (h : Stops level l) : joiner? level l = none := by
  cases level with
  | disjunction => simp [joiner?, wordNode, h.or]
  | conjunction => simp [joiner?, wordNode, h.and]
  | sum => simp [joiner?, h.sum]
  | product => simp [joiner?, h.product]
  | _ => rfl

theorem leftChain_stop {operand : Reader Expr} {op? : Lexeme → Option (Nat → Nat → Expr → Expr → Expr)}
    {c : Cursor} (h : op? c.peek = none) (rounds : Nat) (e : Expr) :
    leftChain operand op? rounds e c = .ok (e, c) := by
  cases rounds <;> simp [leftChain, h]

theorem suffixes_stop {expression : Reader Expr} {c : Cursor} (h : Stops .primary c.peek) (rounds : Nat)
    (e : Expr) : suffixes expression rounds e c = .ok (e, c) := by
  obtain ⟨hcall, hattr, hindex⟩ := h.primary (Nat.le_refl _)
  cases rounds with
  | zero => rfl
  | succ rounds =>
      unfold suffixes
      split
      · exact absurd ‹_› hcall
      · exact absurd ‹_› hattr
      · exact absurd ‹_› hindex
      · rfl

/-- The lexeme in front. Behind the last token the source has ended. -/
def front (ts : List Token) : Lexeme := Cursor.peek ⟨0, ts⟩

theorem grow_stop {level : Level} {line : Nat} {rest : List Token} (h : Stops level (front rest))
    (depth rounds : Nat) (e : Expr) : grow depth level rounds e ⟨line, rest⟩ = .ok (e, ⟨line, rest⟩) := by
  cases level with
  | primary => exact suffixes_stop (c := ⟨line, rest⟩) h rounds e
  | _ => exact leftChain_stop (c := ⟨line, rest⟩) (joiner?_eq_none h) rounds e

theorem termOp?_of_text {m : Mark} {op : BinaryOp} (hop : op ∈ [BinaryOp.add, .sub]) (h : m.text = op.symbol) :
    termOp? (.mark m) = some op ∧ Stops .product (.mark m) := by
  simp only [List.mem_cons, List.not_mem_nil, or_false] at hop
  rcases hop with rfl | rfl <;> cases m <;> simp [Mark.text, BinaryOp.symbol] at h <;>
    exact ⟨rfl, by constructor <;> simp [Level.depth, factorOp?]⟩

theorem factorOp?_of_text {m : Mark} {op : BinaryOp} (hop : op ∈ [BinaryOp.mul, .div, .floorDiv, .mod])
    (h : m.text = op.symbol) : factorOp? (.mark m) = some op ∧ Stops .sign (.mark m) := by
  simp only [List.mem_cons, List.not_mem_nil, or_false] at hop
  rcases hop with rfl | rfl | rfl | rfl <;> cases m <;> simp [Mark.text, BinaryOp.symbol] at h <;>
    exact ⟨rfl, by constructor <;> simp [Level.depth]⟩

theorem comparison?_of_text {m : Mark} {op : Comparison} (h : m.text = op.symbol) :
    comparison? (.mark m) = some op ∧ Stops .sum (.mark m) := by
  cases op <;> cases m <;> simp [Mark.text, Comparison.symbol] at h <;>
    exact ⟨rfl, by constructor <;> simp [Level.depth, termOp?, factorOp?]⟩

/-- An operator ends its left operand and is recognized. -/
theorem joiner?_of_joins {level : Level} {t : Token} {last : Nat} {a b e : Expr} (h : Joins level t last a b e) :
    Stops level.inner t.lexeme ∧ ∃ make, joiner? level t.lexeme = some make ∧ make t.line last a b = e := by
  cases h with
  | or | and =>
      refine ⟨?_, _, rfl, rfl⟩
      constructor <;> simp [Level.inner, Level.depth, comparison?, termOp?, factorOp?]
  | sum hop hm =>
      obtain ⟨hsome, hstops⟩ := termOp?_of_text hop hm
      exact ⟨hstops, _, by simp only [joiner?, hsome]; rfl, rfl⟩
  | product hop hm =>
      obtain ⟨hsome, hstops⟩ := factorOp?_of_text hop hm
      exact ⟨hstops, _, by simp only [joiner?, hsome]; rfl, rfl⟩

/-! ## Reading what is spelled -/

/-- The reader of the level takes the tokens, wherever they stand and do not go on, and gives the expression. -/
def Reads (depth : Nat) (level : Level) (ts : List Token) (e : Expr) : Prop :=
  ∀ line rest, Stops level (front rest) →
    ofLevel depth level ⟨line, ts ++ rest⟩ = .ok (e, ⟨lastLine ts, rest⟩)

/-- From a first part on, the reader of the level comes to the expression, and may go on. -/
def GrowsTo (depth : Nat) (level : Level) (ts : List Token) (e : Expr) : Prop :=
  ∀ line rest, Stops level.inner (front rest) →
    ∃ first d n, ofLevel depth level.inner ⟨line, ts ++ rest⟩ = .ok (first, d) ∧
      n + rest.length ≤ d.rest.length ∧
      ∀ rounds, grow depth level (n + rounds) first d = grow depth level rounds e ⟨lastLine ts, rest⟩

section

variable {depth : Nat} {level : Level} {ts us : List Token} {e a b : Expr}

theorem GrowsTo.reads (h : GrowsTo depth level ts e) (hl : level ∈ growingLevels) : Reads depth level ts e := by
  intro line rest hrest
  obtain ⟨first, d, n, hfirst, hn, hgrow⟩ := h line rest hrest.inner
  obtain ⟨k, hk⟩ := Nat.exists_eq_add_of_le (Nat.le_trans (Nat.le_add_right n _) hn)
  rw [ofLevel_eq depth hl, hfirst]
  show grow depth level d.rest.length first d = _
  rw [hk, hgrow, grow_stop hrest]

theorem Reads.growsTo (h : Reads depth level.inner ts e) : GrowsTo depth level ts e := by
  intro line rest hrest
  exact ⟨e, ⟨lastLine ts, rest⟩, 0, h line rest hrest, by simp, fun rounds => by rw [Nat.zero_add]⟩

theorem lastLine_cons {t : Token} (hts : ts ≠ []) : lastLine (t :: ts) = lastLine ts :=
  endLine_of_ne_nil t.line hts

theorem lastLine_append (hus : us ≠ []) : lastLine (ts ++ us) = lastLine us := by
  rw [lastLine, endLine_append, endLine_of_ne_nil _ hus]

/-- One more round. -/
theorem GrowsTo.step (h : GrowsTo depth level ts a) {t : Token} (hstop : Stops level.inner t.lexeme)
    (hstep : ∀ line rest rounds, Stops level.inner (front rest) →
      grow depth level (rounds + 1) a ⟨line, t :: us ++ rest⟩ =
        grow depth level rounds e ⟨lastLine (t :: us), rest⟩) :
    GrowsTo depth level (ts ++ t :: us) e := by
  intro line rest hrest
  obtain ⟨first, d, n, hfirst, hn, hgrow⟩ := h line (t :: us ++ rest) hstop
  refine ⟨first, d, n + 1, by rw [List.append_assoc, hfirst], ?_, fun rounds => ?_⟩
  · rw [List.length_append, List.length_cons] at hn; omega
  · rw [Nat.add_assoc, Nat.add_comm 1, hgrow, hstep _ rest _ hrest, lastLine_append (by simp)]

theorem GrowsTo.join {t : Token} (ha : GrowsTo depth level ts a) (hb : Reads depth level.inner us b)
    (hus : us ≠ []) (hj : Joins level t (lastLine us) a b e) : GrowsTo depth level (ts ++ t :: us) e := by
  obtain ⟨hstop, make, hmake, hnode⟩ := joiner?_of_joins hj
  have hgrow : grow depth level = leftChain (ofLevel depth level.inner) (joiner? level) := by
    cases hj <;> rfl
  refine ha.step hstop fun line rest rounds hrest => ?_
  have hline : lastLine (t :: us) = lastLine us := lastLine_cons hus
  have hright := hb t.line rest hrest
  rw [hgrow, leftChain]
  simp only [List.cons_append, Cursor.peek, Cursor.skip, hmake, hright]
  show leftChain _ _ rounds (make t.line (lastLine us) a b) _ = _
  rw [hnode, hline]

/-! ### Levels with a reader of their own -/

theorem front_begins (h : Opens level ts) (rest : List Token) : Begins level (front (ts ++ rest)) := by
  obtain ⟨t, us, rfl, hb⟩ := h
  exact hb

theorem negated_of_begins {operand : Reader Expr} {c : Cursor} (h : Begins .comparison c.peek) (rounds : Nat) :
    negated operand rounds c = operand c := by
  have hnot : c.word? "not" = none := by
    rw [Cursor.word?, if_neg]
    intro hpeek
    rw [hpeek] at h
    cases h with
    | word h => exact absurd (mem_of_isConst h) (by decide)
    | name h => exact h (by decide)
    | not h => exact absurd h (by decide)
  cases rounds <;> simp [negated, hnot]

theorem signed_of_begins {operand : Reader Expr} {c : Cursor} (h : Begins .primary c.peek) (rounds : Nat) :
    signed operand rounds c = operand c := by
  have hsign : ∀ m, m = Mark.minus ∨ m = .plus → c.peek ≠ .mark m := by
    rintro m hm hpeek
    rw [hpeek] at h
    cases h with
    | openParen | openBracket => simp at hm
    | sign _ h => exact absurd h (by decide)
  cases rounds with
  | zero => rfl
  | succ rounds =>
      unfold signed
      split
      · exact absurd ‹_› (hsign _ (.inl rfl))
      · exact absurd ‹_› (hsign _ (.inr rfl))
      · rfl

/-- An expression of the tighter level is read as one of the looser level. -/
theorem Reads.inner (h : Reads depth level.inner ts e) (ho : Opens level.inner ts) : Reads depth level ts e := by
  cases level with
  | disjunction | conjunction | sum | product | primary => exact h.growsTo.reads (by decide)
  | negation =>
      intro line rest hrest
      have hbegins : Begins .comparison (Cursor.peek ⟨line, ts ++ rest⟩) := front_begins ho rest
      simp only [ofLevel, negated_of_begins hbegins]
      exact h line rest hrest.inner
  | comparison =>
      intro line rest hrest
      have hleft : sum (expressionWithin depth) ⟨line, ts ++ rest⟩ = _ := h line rest hrest.inner
      have hnone : comparison? (Cursor.peek ⟨lastLine ts, rest⟩) = none := hrest.comparison (Nat.le_refl _)
      simp only [ofLevel, compared, hleft, Bind.bind, Except.bind, hnone]
  | sign =>
      intro line rest hrest
      have hbegins : Begins .primary (Cursor.peek ⟨line, ts ++ rest⟩) := front_begins ho rest
      simp only [ofLevel, signed_of_begins hbegins]
      exact h line rest hrest.inner
  | atom => exact h

theorem Reads.not {line : Nat} (h : Reads depth .negation ts e) (hts : ts ≠ []) :
    Reads depth .negation (⟨.name "not", line⟩ :: ts) (.not (lastLine ts) e) := by
  intro start rest hrest
  have hinner : negated _ (ts ++ rest).length ⟨line, ts ++ rest⟩ = _ := h line rest hrest
  rw [lastLine_cons hts]
  simp only [ofLevel, List.cons_append, List.length_cons, negated, Cursor.word?, Cursor.peek, Cursor.skip,
    if_true, hinner, Bind.bind, Except.bind]

theorem Reads.minus {line : Nat} (h : Reads depth .sign ts e) (hts : ts ≠ []) :
    Reads depth .sign (⟨.mark .minus, line⟩ :: ts) (.negate (lastLine ts) e) := by
  intro start rest hrest
  have hinner : signed _ (ts ++ rest).length ⟨line, ts ++ rest⟩ = _ := h line rest hrest
  rw [lastLine_cons hts]
  simp only [ofLevel, List.cons_append, List.length_cons, signed, Cursor.peek, Cursor.skip, hinner, Bind.bind,
    Except.bind]

theorem Reads.plus {line : Nat} (h : Reads depth .sign ts e) (hts : ts ≠ []) :
    Reads depth .sign (⟨.mark .plus, line⟩ :: ts) e := by
  intro start rest hrest
  rw [lastLine_cons hts]
  exact h line rest hrest

theorem Reads.compare {m : Mark} {op : Comparison} {line : Nat} (ha : Reads depth .sum ts a)
    (hm : m.text = op.symbol) (hb : Reads depth .sum us b) (hus : us ≠ []) :
    Reads depth .comparison (ts ++ ⟨.mark m, line⟩ :: us) (.compare (lastLine us) op a b) := by
  obtain ⟨hop, hstop⟩ := comparison?_of_text hm
  intro start rest hrest
  have hleft : sum (expressionWithin depth) ⟨start, ts ++ ⟨.mark m, line⟩ :: (us ++ rest)⟩ = _ :=
    ha start (⟨.mark m, line⟩ :: (us ++ rest)) hstop
  have hright : sum (expressionWithin depth) ⟨line, us ++ rest⟩ = _ := hb line rest hrest.inner
  rw [lastLine_append (by simp), lastLine_cons hus, List.append_assoc, List.cons_append]
  simp only [ofLevel, compared, hleft, Bind.bind, Except.bind, Cursor.peek, hop, Cursor.skip, hright]

/-! ### Atoms and what follows them -/

theorem moreStrings_eq {ss : List String} (rounds line : Nat) {rest : List Token}
    (hts : ts.map Token.lexeme = ss.map Lexeme.str) (hrounds : ts.length ≤ rounds)
    (hrest : ∀ s, front rest ≠ .str s) :
    moreStrings rounds ⟨line, ts ++ rest⟩ = (String.join ss, ⟨endLine line ts, rest⟩) := by
  induction ts generalizing ss rounds line with
  | nil =>
      obtain rfl : [] = ss := by simpa using hts
      rw [List.nil_append, String.join_nil]
      cases rounds with
      | zero => rfl
      | succ rounds =>
          unfold moreStrings
          split
          · exact absurd ‹_› (hrest _)
          · rfl
  | cons t ts ih =>
      cases ss with
      | nil => cases hts
      | cons s ss =>
          obtain ⟨ht, hts⟩ := List.cons.inj hts
          cases rounds with
          | zero => cases hrounds
          | succ rounds =>
              have hmore := ih rounds t.line hts (Nat.le_of_succ_le_succ hrounds)
              simp only [moreStrings, List.cons_append, Cursor.peek, Cursor.skip, ht, hmore, String.join_cons]
              rfl

theorem reads_str {ss : List String} (hne : ts ≠ []) (hts : ts.map Token.lexeme = ss.map Lexeme.str) :
    Reads depth .atom ts (.const (lastLine ts) (.str (String.join ss))) := by
  intro line rest hrest
  cases ts with
  | nil => exact absurd rfl hne
  | cons t ts =>
      cases ss with
      | nil => cases hts
      | cons s ss =>
          obtain ⟨ht, hts⟩ := List.cons.inj hts
          have hmore := moreStrings_eq (ts ++ rest).length t.line hts (by simp) hrest.str
          simp only [ofLevel, atom, List.cons_append, Cursor.peek, Cursor.skip, ht, hmore, String.join_cons]
          rfl

theorem reads_int {n line : Nat} : Reads depth .atom [⟨.int n, line⟩] (.const line (.int (Int64.ofNat n))) :=
  fun _ _ _ => rfl

theorem reads_float {x : Double} {line : Nat} : Reads depth .atom [⟨.float x, line⟩] (.const line (.float x)) :=
  fun _ _ _ => rfl

theorem reads_word {word : String} {c : Const} {line : Nat} (h : IsConst word c) :
    Reads depth .atom [⟨.name word, line⟩] (.const line c) := by
  intro _ _ _
  cases h <;> rfl

theorem isKeyword_of_isName {id : String} (h : IsName id) : isKeyword id = false := by
  simpa [isKeyword, IsName] using h

theorem reads_name {id : String} {line : Nat} (h : IsName id) :
    Reads depth .atom [⟨.name id, line⟩] (.name line id) := by
  intro start rest _
  have hkeyword := isKeyword_of_isName h
  have hword : ∀ word ∈ keywords, id ≠ word := fun _ hw heq => h (heq ▸ hw)
  have hnone := hword "None" (by decide)
  have htrue := hword "True" (by decide)
  have hfalse := hword "False" (by decide)
  simp only [ofLevel, atom, List.singleton_append, Cursor.peek, Cursor.skip, hkeyword]
  rfl

/-! ### Brackets -/

/-- The reader of lists takes the tokens and the mark at the end, and gives the expressions. -/
def ReadsItems (depth : Nat) (ts : List Token) (es : List Expr) : Prop :=
  ∀ close ∈ [Mark.closeParen, .closeBracket], ∀ rounds line line' rest, ts.length < rounds →
    items (expressionWithin depth) close rounds ⟨line, ts ++ ⟨.mark close, line'⟩ :: rest⟩ =
      .ok (es, ⟨line', rest⟩)

theorem mark?_front {m : Mark} {line line' : Nat} {rest : List Token} :
    Cursor.mark? m ⟨line, ⟨.mark m, line'⟩ :: rest⟩ = some ⟨line', rest⟩ := by
  simp [Cursor.mark?, Cursor.peek, Cursor.skip]

theorem expect_front {m : Mark} {line line' : Nat} {rest : List Token} :
    expect m ⟨line, ⟨.mark m, line'⟩ :: rest⟩ = .ok ((), ⟨line', rest⟩) := by
  rw [expect, mark?_front]

theorem closer_of_close {close : Mark} (h : close ∈ [Mark.closeParen, .closeBracket]) :
    Lexeme.mark close ∈ closers := by
  revert h; cases close <;> decide

/-- An expression does not begin with the mark that closes the brackets around it. -/
theorem mark?_of_opens {close : Mark} (h : Opens level ts) (hclose : Lexeme.mark close ∈ closers) (line : Nat)
    (rest : List Token) : Cursor.mark? close ⟨line, ts ++ rest⟩ = none := by
  have hbegins : Begins level (Cursor.peek ⟨line, ts ++ rest⟩) := front_begins h rest
  rw [Cursor.mark?, if_neg]
  intro hpeek
  rw [hpeek] at hbegins
  exact not_begins_of_closer hclose hbegins

/-- An expression in brackets. -/
theorem Reads.within (h : Reads depth .disjunction ts e) (line : Nat) (t : Token) (rest : List Token)
    (ht : t.lexeme ∈ closers) :
    expressionWithin (depth + 1) ⟨line, ts ++ t :: rest⟩ = .ok (e, ⟨lastLine ts, t :: rest⟩) :=
  h line (t :: rest) (stops_of_closer ht)

theorem readsItems_nil : ReadsItems (depth + 1) [] [] := by
  intro close hclose rounds line line' rest hrounds
  obtain ⟨rounds, rfl⟩ := Nat.exists_eq_succ_of_ne_zero (Nat.ne_zero_of_lt hrounds)
  rw [items, List.nil_append, mark?_front]

theorem Reads.items_one (h : Reads depth .disjunction ts e) (ho : Opens .disjunction ts) :
    ReadsItems (depth + 1) ts [e] := by
  intro close hclose rounds line line' rest hrounds
  obtain ⟨rounds, rfl⟩ := Nat.exists_eq_succ_of_ne_zero (Nat.ne_zero_of_lt hrounds)
  have hcloser := closer_of_close hclose
  have hfirst := h.within line ⟨.mark close, line'⟩ rest hcloser
  have hcomma : Cursor.mark? .comma ⟨lastLine ts, ⟨.mark close, line'⟩ :: rest⟩ = none := by
    rw [Cursor.mark?, if_neg]
    rintro hpeek
    cases hpeek
    simp at hclose
  rw [items, mark?_of_opens ho hcloser, hfirst]
  simp only [Bind.bind, Except.bind, hcomma, expect_front]

theorem Reads.items_cons {es : List Expr} {comma : Nat} (h : Reads depth .disjunction ts e)
    (ho : Opens .disjunction ts) (hes : ReadsItems (depth + 1) us es) :
    ReadsItems (depth + 1) (ts ++ ⟨.mark .comma, comma⟩ :: us) (e :: es) := by
  intro close hclose rounds line line' rest hrounds
  rw [List.length_append, List.length_cons] at hrounds
  obtain ⟨rounds, rfl⟩ := Nat.exists_eq_succ_of_ne_zero (Nat.ne_zero_of_lt hrounds)
  have hcloser := closer_of_close hclose
  have hfirst := h.within line ⟨.mark .comma, comma⟩ (us ++ ⟨.mark close, line'⟩ :: rest) (by simp [closers])
  have hmore := hes close hclose rounds comma line' rest (by omega)
  rw [List.append_assoc, List.cons_append, items, mark?_of_opens ho hcloser, hfirst]
  simp only [Bind.bind, Except.bind, mark?_front, hmore]

theorem lastLine_concat (ts : List Token) (t : Token) : lastLine (ts ++ [t]) = t.line := by
  rw [lastLine_append (by simp)]; rfl

theorem Reads.parens {line line' : Nat} (h : Reads depth .disjunction ts e) :
    Reads (depth + 1) .atom (⟨.mark .openParen, line⟩ :: ts ++ [⟨.mark .closeParen, line'⟩]) e := by
  intro start rest _
  have hinner := h.within line ⟨.mark .closeParen, line'⟩ rest (by simp [closers])
  rw [lastLine_concat, List.append_assoc, List.cons_append, List.singleton_append]
  simp only [ofLevel, atom, Cursor.peek, Cursor.skip, hinner, Bind.bind, Except.bind, expect_front]

theorem ReadsItems.list {es : List Expr} {line line' : Nat} (h : ReadsItems depth ts es) :
    Reads depth .atom (⟨.mark .openBracket, line⟩ :: ts ++ [⟨.mark .closeBracket, line'⟩]) (.list line' es) := by
  intro start rest _
  have hinner := fun rounds => h .closeBracket (by decide) rounds line line' rest
  rw [lastLine_concat, List.append_assoc, List.cons_append, List.singleton_append]
  simp only [ofLevel, atom, Cursor.peek, Cursor.skip]
  rw [hinner _ (by rw [List.length_append, List.length_cons]; omega)]
  rfl

theorem GrowsTo.call {es : List Expr} {line line' : Nat} (h : GrowsTo depth .primary ts e)
    (hes : ReadsItems depth us es) :
    GrowsTo depth .primary (ts ++ ⟨.mark .openParen, line⟩ :: us ++ [⟨.mark .closeParen, line'⟩])
      (.call line' e es) := by
  rw [List.append_assoc, List.cons_append]
  refine h.step (by constructor <;> simp [Level.inner, Level.depth]) fun start rest rounds hrest => ?_
  have hinner := fun rounds => hes .closeParen (by decide) rounds line line' rest
  rw [← List.cons_append, lastLine_concat, List.append_assoc, List.cons_append, List.singleton_append]
  simp only [grow, suffixes, Cursor.peek, Cursor.skip]
  rw [hinner _ (by simp only [List.length_append, List.length_cons]; omega)]
  rfl

theorem GrowsTo.attr {id : String} {line line' : Nat} (h : GrowsTo depth .primary ts e) (hid : IsName id) :
    GrowsTo depth .primary (ts ++ [⟨.mark .dot, line⟩, ⟨.name id, line'⟩]) (.attr line' e id) := by
  refine h.step (by constructor <;> simp [Level.inner, Level.depth]) fun start rest rounds hrest => ?_
  have hkeyword := isKeyword_of_isName hid
  simp only [grow, suffixes, name, List.cons_append, List.nil_append, Cursor.peek, Cursor.skip, hkeyword,
    Bool.false_eq_true, if_false, Bind.bind, Except.bind]
  rfl

theorem GrowsTo.subscript {line line' : Nat} (h : GrowsTo (depth + 1) .primary ts a)
    (hb : Reads depth .disjunction us b) :
    GrowsTo (depth + 1) .primary (ts ++ ⟨.mark .openBracket, line⟩ :: us ++ [⟨.mark .closeBracket, line'⟩])
      (.subscript line' a b) := by
  rw [List.append_assoc, List.cons_append]
  refine h.step (by constructor <;> simp [Level.inner, Level.depth]) fun start rest rounds hrest => ?_
  have hinner := hb.within line ⟨.mark .closeBracket, line'⟩ rest (by simp [closers])
  rw [← List.cons_append, lastLine_concat, List.append_assoc, List.cons_append, List.singleton_append]
  simp only [grow, suffixes, Cursor.peek, Cursor.skip, hinner, Bind.bind, Except.bind, expect_front]

end

/-! ### All levels -/

/-- How the reader of a level comes to an expression. -/
structure ReadsBoth (depth : Nat) (level : Level) (ts : List Token) (e : Expr) : Prop where
  reads : Reads depth level ts e
  growsTo : level ∈ growingLevels → GrowsTo depth level ts e

theorem GrowsTo.both {depth : Nat} {level : Level} {ts : List Token} {e : Expr} (h : GrowsTo depth level ts e)
    (hl : level ∈ growingLevels) : ReadsBoth depth level ts e :=
  ⟨h.reads hl, fun _ => h⟩

theorem Reads.both {depth : Nat} {level : Level} {ts : List Token} {e : Expr} (h : Reads depth level ts e)
    (hl : level ∉ growingLevels) : ReadsBoth depth level ts e :=
  ⟨h, fun hl' => absurd hl' hl⟩

mutual

/-- What spells an expression of a level is read as that expression. -/
theorem reads_of_derives {level : Level} {ts : List Token} {e : Expr} (depth : Nat) (hlen : ts.length ≤ depth) :
    Derives level ts e → ReadsBoth depth level ts e
  | .inner h =>
      have hread := (reads_of_derives depth hlen h).reads
      ⟨hread.inner h.opens, fun _ => hread.growsTo⟩
  | .joined ha hb hj => by
      rw [List.length_append, List.length_cons] at hlen
      have hl : level ∈ growingLevels := by cases hj <;> decide
      have hleft := (reads_of_derives depth (by omega) ha).growsTo hl
      exact (hleft.join (reads_of_derives depth (by omega) hb).reads hb.ne_nil hj).both hl
  | .not h => ((reads_of_derives depth (Nat.le_of_succ_le hlen) h).reads.not h.ne_nil).both (by decide)
  | .minus h => ((reads_of_derives depth (Nat.le_of_succ_le hlen) h).reads.minus h.ne_nil).both (by decide)
  | .plus h => ((reads_of_derives depth (Nat.le_of_succ_le hlen) h).reads.plus h.ne_nil).both (by decide)
  | .compare ha hm hb => by
      rw [List.length_append, List.length_cons] at hlen
      have hleft := (reads_of_derives depth (by omega) ha).reads
      exact (hleft.compare hm (reads_of_derives depth (by omega) hb).reads hb.ne_nil).both (by decide)
  | .call h hes => by
      simp only [List.length_append, List.length_cons, List.length_nil] at hlen
      have hcallee := (reads_of_derives depth (by omega) h).growsTo (by decide)
      exact (hcallee.call (reads_of_items depth (by omega) hes)).both (by decide)
  | .attr h hid => by
      rw [List.length_append] at hlen
      have hobject := (reads_of_derives depth (by omega) h).growsTo (by decide)
      exact (hobject.attr hid).both (by decide)
  | .subscript ha hb => by
      simp only [List.length_append, List.length_cons, List.length_nil] at hlen
      obtain ⟨depth, rfl⟩ := Nat.exists_eq_succ_of_ne_zero (show depth ≠ 0 by omega)
      have hobject := (reads_of_derives (depth + 1) (by omega) ha).growsTo (by decide)
      exact (hobject.subscript (reads_of_derives depth (by omega) hb).reads).both (by decide)
  | .int => reads_int.both (by decide)
  | .float => reads_float.both (by decide)
  | .str hts h => (reads_str hts h).both (by decide)
  | .word h => (reads_word h).both (by decide)
  | .name h => (reads_name h).both (by decide)
  | .parens h => by
      simp only [List.length_append, List.length_cons, List.length_nil] at hlen
      obtain ⟨depth, rfl⟩ := Nat.exists_eq_succ_of_ne_zero (show depth ≠ 0 by omega)
      exact (reads_of_derives depth (by omega) h).reads.parens.both (by decide)
  | .list hes => by
      simp only [List.length_append, List.length_cons, List.length_nil] at hlen
      exact (reads_of_items depth (by omega) hes).list.both (by decide)

theorem reads_of_items {ts : List Token} {es : List Expr} (depth : Nat) (hlen : ts.length < depth) :
    Items ts es → ReadsItems depth ts es := by
  intro h
  cases depth with
  | zero => cases hlen
  | succ depth =>
      match h with
      | .nil => exact readsItems_nil
      | .one h => exact (reads_of_derives depth (Nat.le_of_lt_succ hlen) h).reads.items_one h.opens
      | .cons h hes =>
          rw [List.length_append, List.length_cons] at hlen
          have htail := reads_of_items (depth + 1) (by omega) hes
          exact (reads_of_derives depth (by omega) h).reads.items_cons h.opens htail

end

/-- The tokens of an expression are read as that expression where nothing goes on with it. -/
theorem expression_of_derives {ts : List Token} {e : Expr} (h : Derives .disjunction ts e) (line : Nat)
    (rest : List Token) (hrest : front rest ∈ closers) :
    expression ⟨line, ts ++ rest⟩ = .ok (e, ⟨lastLine ts, rest⟩) :=
  (reads_of_derives _ (by simp) h).reads line rest (stops_of_closer hrest)

end Reader

end Launcher.Script
