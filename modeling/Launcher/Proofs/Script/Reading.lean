import Launcher.Proofs.Action
import Launcher.Proofs.Script.Grammar
import Launcher.Proofs.Script.Lines
import Launcher.Script.Tree.Reading

/-!
# What readers read

A reader that gives a tree has taken tokens that spell it, and has come to the line of the last of them.
-/

namespace Launcher.Script

open Grammar

/-! ## Tokens between two cursors -/

/-- One cursor is behind the given tokens of a line at the other. -/
structure Cursor.Takes (c : Cursor) (ts : List Token) (c' : Cursor) : Prop where
  rest : c.rest = ts ++ c'.rest
  line : c'.line = endLine c.line ts
  inline : ∀ t ∈ ts, t.lexeme.Inline

namespace Cursor

variable {a b c c' : Cursor} {ts us : List Token}

theorem Takes.nil (c : Cursor) : c.Takes [] c := ⟨rfl, rfl, nofun⟩

theorem Takes.trans (h : a.Takes ts b) (h' : b.Takes us c) : a.Takes (ts ++ us) c where
  rest := by rw [h.rest, h'.rest, List.append_assoc]
  line := by rw [h'.line, h.line, endLine_append]
  inline := List.forall_mem_append.mpr ⟨h.inline, h'.inline⟩

theorem Takes.line_eq (h : c.Takes ts c') (hts : ts ≠ []) : c'.line = lastLine ts :=
  h.line.trans (endLine_of_ne_nil c.line hts)

theorem rest_of_peek {l : Lexeme} (h : c.peek = l) (hl : l ≠ .endOfSource) :
    c.rest = ⟨l, c.skip.line⟩ :: c.skip.rest := by
  unfold peek at h
  unfold skip
  split at h
  · rename_i t ts hrest
    rw [hrest, ← h]
  · exact absurd h.symm hl

theorem takes_skip {l : Lexeme} (h : c.peek = l) (hl : l.Inline) : c.Takes [⟨l, c.skip.line⟩] c.skip where
  rest := rest_of_peek h hl.2
  line := rfl
  inline := by simpa using hl

theorem takes_mark {m : Mark} (h : c.mark? m = some c') : c.Takes [⟨.mark m, c'.line⟩] c' := by
  unfold mark? at h
  split at h
  · cases h; exact takes_skip ‹_› (Lexeme.inline_mark m)
  · cases h

theorem takes_word {word : String} (h : c.word? word = some c') : c.Takes [⟨.name word, c'.line⟩] c' := by
  unfold word? at h
  split at h
  · cases h; exact takes_skip ‹_› (Lexeme.inline_name word)
  · cases h

end Cursor

namespace Reader

variable {α : Type} {c c' : Cursor}

/-- What the reader gives is spelled, in the given sense, by the tokens that it takes. -/
def Sound (r : Reader α) (P : List Token → α → Prop) : Prop :=
  ∀ {c c' : Cursor} {a : α}, r c = .ok (a, c') → ∃ ts, c.Takes ts c' ∧ P ts a

theorem isName_of_isKeyword {id : String} (h : ¬isKeyword id = true) : IsName id := by
  simpa [isKeyword, IsName] using h

theorem name_eq_ok {id : String} (h : name c = .ok (id, c')) :
    c.peek = .name id ∧ IsName id ∧ c' = c.skip := by
  unfold name at h
  split at h
  · split at h
    · cases h
    · cases h; exact ⟨‹_›, isName_of_isKeyword ‹_›, rfl⟩
  · cases h

theorem takes_name {id : String} (h : name c = .ok (id, c')) :
    IsName id ∧ c.Takes [⟨.name id, c'.line⟩] c' := by
  obtain ⟨hpeek, hname, rfl⟩ := name_eq_ok h
  exact ⟨hname, Cursor.takes_skip hpeek (Lexeme.inline_name id)⟩

theorem takes_expect {m : Mark} {u : Unit} (h : expect m c = .ok (u, c')) :
    c.Takes [⟨.mark m, c'.line⟩] c' := by
  unfold expect at h
  split at h
  · cases h; exact Cursor.takes_mark ‹_›
  · cases h

/-! ## Operators -/

/-- The lexemes that are recognized as operators join expressions of the level in the nodes that are made. -/
def Recognizes (level : Level) (op? : Lexeme → Option (Nat → Nat → Expr → Expr → Expr)) : Prop :=
  ∀ {l : Lexeme} {make : Nat → Nat → Expr → Expr → Expr}, op? l = some make →
    l.Inline ∧ ∀ line last a b, Joins level ⟨l, line⟩ last a b (make line last a b)

theorem leftChain_sound {level : Level} {operand : Reader Expr}
    {op? : Lexeme → Option (Nat → Nat → Expr → Expr → Expr)}
    (ho : Sound operand (Derives level.inner))
    (hop : Recognizes level op?)
    {rounds : Nat} {left e : Expr} {start : Cursor} {ts : List Token}
    (hts : start.Takes ts c) (hd : Derives level ts left)
    (h : leftChain operand op? rounds left c = .ok (e, c')) :
    ∃ us, start.Takes us c' ∧ Derives level us e := by
  induction rounds generalizing left c ts with
  | zero => cases h; exact ⟨ts, hts, hd⟩
  | succ rounds ih =>
      unfold leftChain at h
      split at h
      · cases h; exact ⟨ts, hts, hd⟩
      · rename_i make hmake
        obtain ⟨⟨right, d⟩, hright, h⟩ := except_bind_eq_ok.mp h
        obtain ⟨us, hus, hd'⟩ := ho hright
        obtain ⟨hin, hjoins⟩ := hop hmake
        have htake := (hts.trans (Cursor.takes_skip rfl hin)).trans hus
        rw [List.append_assoc, List.singleton_append] at htake
        have hline := hus.line_eq hd'.ne_nil
        exact ih htake (.joined hd hd' (hline ▸ hjoins _ _ _ _)) h

theorem leftJoined_sound {level : Level} {operand : Reader Expr}
    {op? : Lexeme → Option (Nat → Nat → Expr → Expr → Expr)}
    (ho : Sound operand (Derives level.inner))
    (hop : Recognizes level op?) :
    Sound (leftJoined operand op?) (Derives level) := by
  intro c c' e h
  obtain ⟨⟨first, d⟩, hfirst, h⟩ := except_bind_eq_ok.mp h
  obtain ⟨ts, hts, hd⟩ := ho hfirst
  exact leftChain_sound ho hop hts (.inner hd) h

/-- What ends with a mark is behind the mark's line. -/
theorem items_sound {expression : Reader Expr} {close : Mark} (he : Sound expression (Derives .disjunction))
    {rounds : Nat} {es : List Expr} (h : items expression close rounds c = .ok (es, c')) :
    ∃ ts, c.Takes (ts ++ [⟨.mark close, c'.line⟩]) c' ∧ Items ts es := by
  induction rounds generalizing c es with
  | zero => cases h
  | succ rounds ih =>
      unfold items at h
      split at h
      · rename_i d hclose
        cases h; exact ⟨[], Cursor.takes_mark hclose, .nil⟩
      · obtain ⟨⟨e, d⟩, hfirst, h⟩ := except_bind_eq_ok.mp h
        obtain ⟨ts, hts, hd⟩ := he hfirst
        dsimp only at h
        split at h
        · rename_i d' hcomma
          obtain ⟨⟨more, d''⟩, hmore, h⟩ := except_bind_eq_ok.mp h
          cases h
          obtain ⟨us, hus, hitems⟩ := ih hmore
          have htake := hts.trans ((Cursor.takes_mark hcomma).trans hus)
          rw [List.singleton_append, ← List.cons_append, ← List.append_assoc] at htake
          exact ⟨_, htake, .cons hd hitems⟩
        · obtain ⟨⟨_, d'⟩, hclose, h⟩ := except_bind_eq_ok.mp h
          cases h
          exact ⟨ts, hts.trans (takes_expect hclose), .one hd⟩

theorem moreStrings_takes {rounds : Nat} {s : String}
    (h : moreStrings rounds c = (s, c')) :
    ∃ ts ss, c.Takes ts c' ∧ ts.map Token.lexeme = ss.map Lexeme.str ∧ s = String.join ss := by
  induction rounds generalizing c s with
  | zero => cases h; exact ⟨[], [], .nil _, rfl, String.join_nil.symm⟩
  | succ rounds ih =>
      unfold moreStrings at h
      split at h
      · rename_i first hfirst
        rcases hmore : moreStrings rounds c.skip with ⟨more, d⟩
        rw [hmore] at h
        cases h
        obtain ⟨ts, ss, hts, hlex, rfl⟩ := ih hmore
        refine ⟨_, first :: ss, (Cursor.takes_skip hfirst (Lexeme.inline_str first)).trans hts, ?_, ?_⟩
        · rw [List.singleton_append, List.map_cons, List.map_cons, hlex]
        · rw [String.join_cons]
      · cases h; exact ⟨[], [], .nil _, rfl, String.join_nil.symm⟩

theorem atom_sound {expression : Reader Expr} (he : Sound expression (Derives .disjunction)) :
    Sound (atom expression) (Derives .atom) := by
  intro c c' e h
  have htake : ∀ {l}, c.peek = l → l.Inline → c.Takes [⟨l, c.skip.line⟩] c.skip := Cursor.takes_skip
  unfold atom at h
  dsimp only at h
  split at h
  · cases h; exact ⟨_, htake ‹_› (Lexeme.inline_int _), .int⟩
  · cases h; exact ⟨_, htake ‹_› (Lexeme.inline_float _), .float⟩
  · rename_i s hs
    rcases hmore : moreStrings c.skip.rest.length c.skip with ⟨more, d⟩
    rw [hmore] at h
    cases h
    obtain ⟨ts, ss, hts, hlex, rfl⟩ := moreStrings_takes hmore
    have hall := (htake hs (Lexeme.inline_str s)).trans hts
    rw [← String.join_cons, hall.line_eq (by simp)]
    refine ⟨_, hall, .str (by simp) ?_⟩
    rw [List.singleton_append, List.map_cons, List.map_cons, hlex]
  · cases h; exact ⟨_, htake ‹_› (Lexeme.inline_name _), .word .none⟩
  · cases h; exact ⟨_, htake ‹_› (Lexeme.inline_name _), .word .true⟩
  · cases h; exact ⟨_, htake ‹_› (Lexeme.inline_name _), .word .false⟩
  · split at h
    · cases h
    · cases h; exact ⟨_, htake ‹_› (Lexeme.inline_name _), .name (isName_of_isKeyword ‹_›)⟩
  · rename_i hopen
    obtain ⟨⟨e', d⟩, hinner, h⟩ := except_bind_eq_ok.mp h
    obtain ⟨⟨_, d'⟩, hclose, h⟩ := except_bind_eq_ok.mp h
    cases h
    obtain ⟨ts, hts, hd⟩ := he hinner
    exact ⟨_, ((htake hopen (Lexeme.inline_mark _)).trans hts).trans (takes_expect hclose), .parens hd⟩
  · rename_i hopen
    obtain ⟨⟨es, d⟩, hitems, h⟩ := except_bind_eq_ok.mp h
    cases h
    obtain ⟨ts, hts, hd⟩ := items_sound he hitems
    have hall := (htake hopen (Lexeme.inline_mark _)).trans hts
    rw [← List.append_assoc] at hall
    exact ⟨_, hall, .list hd⟩
  · cases h
  · cases h
  · cases h

theorem suffixes_sound {expression : Reader Expr} (he : Sound expression (Derives .disjunction))
    {rounds : Nat} {e e' : Expr} {start : Cursor} {ts : List Token}
    (hts : start.Takes ts c) (hd : Derives .primary ts e)
    (h : suffixes expression rounds e c = .ok (e', c')) :
    ∃ us, start.Takes us c' ∧ Derives .primary us e' := by
  induction rounds generalizing e c ts with
  | zero => cases h; exact ⟨ts, hts, hd⟩
  | succ rounds ih =>
      unfold suffixes at h
      split at h
      · rename_i hopen
        obtain ⟨⟨args, d⟩, hargs, h⟩ := except_bind_eq_ok.mp h
        obtain ⟨us, hus, hitems⟩ := items_sound he hargs
        have hall := hts.trans ((Cursor.takes_skip hopen (Lexeme.inline_mark _)).trans hus)
        rw [List.singleton_append, ← List.cons_append, ← List.append_assoc] at hall
        exact ih hall (.call hd hitems) h
      · rename_i hdot
        obtain ⟨⟨id, d⟩, hid, h⟩ := except_bind_eq_ok.mp h
        obtain ⟨hname, hus⟩ := takes_name hid
        have hall := hts.trans ((Cursor.takes_skip hdot (Lexeme.inline_mark _)).trans hus)
        exact ih hall (.attr hd hname) h
      · rename_i hopen
        obtain ⟨⟨index, d⟩, hindex, h⟩ := except_bind_eq_ok.mp h
        obtain ⟨⟨_, d'⟩, hclose, h⟩ := except_bind_eq_ok.mp h
        obtain ⟨us, hus, hd'⟩ := he hindex
        have hall := (hts.trans ((Cursor.takes_skip hopen (Lexeme.inline_mark _)).trans hus)).trans
          (takes_expect hclose)
        exact ih hall (.subscript hd hd') h
      · cases h; exact ⟨ts, hts, hd⟩

theorem primary_sound {expression : Reader Expr} (he : Sound expression (Derives .disjunction)) :
    Sound (primary expression) (Derives .primary) := by
  intro c c' e h
  obtain ⟨⟨first, d⟩, hfirst, h⟩ := except_bind_eq_ok.mp h
  obtain ⟨ts, hts, hd⟩ := atom_sound he hfirst
  exact suffixes_sound he hts (.inner hd) h

theorem signed_sound {operand : Reader Expr} (ho : Sound operand (Derives .primary)) (rounds : Nat) :
    Sound (signed operand rounds) (Derives .sign) := by
  intro c c' e h
  induction rounds generalizing c e with
  | zero =>
      obtain ⟨ts, hts, hd⟩ := ho h
      exact ⟨ts, hts, .inner hd⟩
  | succ rounds ih =>
      unfold signed at h
      split at h
      · rename_i hminus
        obtain ⟨⟨e', d⟩, hinner, h⟩ := except_bind_eq_ok.mp h
        cases h
        obtain ⟨ts, hts, hd⟩ := ih hinner
        rw [hts.line_eq hd.ne_nil]
        exact ⟨_, (Cursor.takes_skip hminus (Lexeme.inline_mark _)).trans hts, .minus hd⟩
      · rename_i hplus
        obtain ⟨ts, hts, hd⟩ := ih h
        exact ⟨_, (Cursor.takes_skip hplus (Lexeme.inline_mark _)).trans hts, .plus hd⟩
      · obtain ⟨ts, hts, hd⟩ := ho h
        exact ⟨ts, hts, .inner hd⟩

theorem factorOp?_recognizes : Recognizes .product fun l => (factorOp? l).map binaryNode := by
  intro l make h
  obtain ⟨op, hop, rfl⟩ := Option.map_eq_some_iff.mp h
  unfold factorOp? at hop
  split at hop <;> cases hop <;>
    exact ⟨Lexeme.inline_mark _, fun _ _ _ _ => .product (by simp) rfl⟩

theorem termOp?_recognizes : Recognizes .sum fun l => (termOp? l).map binaryNode := by
  intro l make h
  obtain ⟨op, hop, rfl⟩ := Option.map_eq_some_iff.mp h
  unfold termOp? at hop
  split at hop <;> cases hop <;> exact ⟨Lexeme.inline_mark _, fun _ _ _ _ => .sum (by simp) rfl⟩

theorem sum_sound {expression : Reader Expr} (he : Sound expression (Derives .disjunction)) :
    Sound (sum expression) (Derives .sum) :=
  @leftJoined_sound .sum _ _
    (@leftJoined_sound .product _ _ (fun h => signed_sound (primary_sound he) _ h) factorOp?_recognizes)
    termOp?_recognizes

theorem comparison?_text {l : Lexeme} {op : Comparison} (h : comparison? l = some op) :
    ∃ m, l = .mark m ∧ m.text = op.symbol := by
  unfold comparison? at h
  split at h <;> cases h <;> exact ⟨_, rfl, rfl⟩

theorem compared_sound {expression : Reader Expr} (he : Sound expression (Derives .disjunction)) :
    Sound (compared expression) (Derives .comparison) := by
  intro c c' e h
  obtain ⟨⟨left, d⟩, hleft, h⟩ := except_bind_eq_ok.mp h
  obtain ⟨ts, hts, hd⟩ := sum_sound he hleft
  dsimp only at h
  split at h
  · cases h; exact ⟨ts, hts, .inner hd⟩
  · rename_i op hop
    obtain ⟨m, hm, htext⟩ := comparison?_text hop
    obtain ⟨⟨right, d'⟩, hright, h⟩ := except_bind_eq_ok.mp h
    cases h
    obtain ⟨us, hus, hd'⟩ := sum_sound he hright
    rw [hus.line_eq hd'.ne_nil]
    exact ⟨_, hts.trans ((Cursor.takes_skip hm (Lexeme.inline_mark m)).trans hus), .compare hd htext hd'⟩

theorem negated_sound {operand : Reader Expr} (ho : Sound operand (Derives .comparison)) (rounds : Nat) :
    Sound (negated operand rounds) (Derives .negation) := by
  intro c c' e h
  induction rounds generalizing c e with
  | zero =>
      obtain ⟨ts, hts, hd⟩ := ho h
      exact ⟨ts, hts, .inner hd⟩
  | succ rounds ih =>
      unfold negated at h
      split at h
      · obtain ⟨ts, hts, hd⟩ := ho h
        exact ⟨ts, hts, .inner hd⟩
      · rename_i d hnot
        obtain ⟨⟨e', d'⟩, hinner, h⟩ := except_bind_eq_ok.mp h
        cases h
        obtain ⟨ts, hts, hd⟩ := ih hinner
        rw [hts.line_eq hd.ne_nil]
        exact ⟨_, (Cursor.takes_word hnot).trans hts, .not hd⟩

theorem wordNode_eq_some {word : String} {node : Nat → Expr → Expr → Expr} {l : Lexeme}
    {make : Nat → Nat → Expr → Expr → Expr} (h : wordNode word node l = some make) :
    l = .name word ∧ make = fun line _ left right => node line left right := by
  unfold wordNode at h
  split at h
  · cases h; exact ⟨‹_›, rfl⟩
  · cases h

theorem conjunction_sound {expression : Reader Expr} (he : Sound expression (Derives .disjunction)) :
    Sound (conjunction expression) (Derives .conjunction) := by
  refine leftJoined_sound (fun h => negated_sound (compared_sound he) _ h) fun hmake => ?_
  obtain ⟨rfl, rfl⟩ := wordNode_eq_some hmake
  exact ⟨Lexeme.inline_name _, fun _ _ _ _ => .and⟩

theorem disjunction_sound {expression : Reader Expr} (he : Sound expression (Derives .disjunction)) :
    Sound (disjunction expression) (Derives .disjunction) := by
  refine leftJoined_sound (conjunction_sound he) fun hmake => ?_
  obtain ⟨rfl, rfl⟩ := wordNode_eq_some hmake
  exact ⟨Lexeme.inline_name _, fun _ _ _ _ => .or⟩

theorem expressionWithin_sound (depth : Nat) : Sound (expressionWithin depth) (Derives .disjunction) := by
  induction depth with
  | zero => intro c c' e h; cases h
  | succ depth ih => exact disjunction_sound ih

theorem expression_sound : Sound expression (Derives .disjunction) := expressionWithin_sound _

/-! ## Statements -/

theorem moreComponents_sound {rounds : Nat} {dotted dotted' : String} {start : Cursor} {ts : List Token}
    (hts : start.Takes ts c) (hd : Dotted ts dotted)
    (h : moreComponents rounds dotted c = .ok (dotted', c')) :
    ∃ us, start.Takes us c' ∧ Dotted us dotted' := by
  induction rounds generalizing dotted c ts with
  | zero => cases h; exact ⟨ts, hts, hd⟩
  | succ rounds ih =>
      unfold moreComponents at h
      split at h
      · cases h; exact ⟨ts, hts, hd⟩
      · rename_i d hdot
        obtain ⟨⟨id, d'⟩, hid, h⟩ := except_bind_eq_ok.mp h
        obtain ⟨hname, hus⟩ := takes_name hid
        exact ih (hts.trans ((Cursor.takes_mark hdot).trans hus)) (.more hd hname) h

theorem dottedNames_sound (rounds : Nat) : Sound (dottedNames rounds) DottedNames := by
  intro c c' names h
  induction rounds generalizing c names with
  | zero => cases h
  | succ rounds ih =>
      unfold dottedNames at h
      obtain ⟨⟨first, d⟩, hfirst, h⟩ := except_bind_eq_ok.mp h
      obtain ⟨⟨dotted, d'⟩, hmore, h⟩ := except_bind_eq_ok.mp h
      obtain ⟨hname, hone⟩ := takes_name hfirst
      obtain ⟨ts, hts, hd⟩ := moreComponents_sound hone (.one hname) hmore
      dsimp only at h
      rw [hts.line_eq hd.ne_nil] at h
      split at h
      · cases h; exact ⟨ts, hts, .last hd⟩
      · rename_i next hcomma
        obtain ⟨⟨more, d''⟩, hrest, h⟩ := except_bind_eq_ok.mp h
        cases h
        obtain ⟨us, hus, hds⟩ := ih hrest
        exact ⟨_, hts.trans ((Cursor.takes_mark hcomma).trans hus), .more hd hds⟩

theorem assertion_sound {start : Cursor} {s : Statement} {line : Nat}
    (hstart : start.Takes [⟨.name "assert", line⟩] c) (h : assertion c = .ok (s, c')) :
    ∃ ts, start.Takes ts c' ∧ Spells ts s := by
  obtain ⟨⟨test, d⟩, htest, h⟩ := except_bind_eq_ok.mp h
  obtain ⟨ts, hts, hd⟩ := expression_sound htest
  dsimp only at h
  rw [hts.line_eq hd.ne_nil] at h
  split at h
  · cases h; exact ⟨_, hstart.trans hts, .assert hd⟩
  · rename_i next hcomma
    obtain ⟨⟨message, d'⟩, hmessage, h⟩ := except_bind_eq_ok.mp h
    cases h
    obtain ⟨us, hus, hd'⟩ := expression_sound hmessage
    rw [hus.line_eq hd'.ne_nil]
    exact ⟨_, (hstart.trans hts).trans ((Cursor.takes_mark hcomma).trans hus), .assertMessage hd hd'⟩

theorem raising_sound {start : Cursor} {s : Statement}
    (hstart : start.Takes [⟨.name "raise", c.line⟩] c) (h : raising c = .ok (s, c')) :
    ∃ ts, start.Takes ts c' ∧ Spells ts s := by
  unfold raising at h
  dsimp only at h
  split at h
  · cases h; exact ⟨_, hstart, .reraise⟩
  · cases h; exact ⟨_, hstart, .reraise⟩
  · cases h; exact ⟨_, hstart, .reraise⟩
  · obtain ⟨⟨kind, d⟩, hkind, h⟩ := except_bind_eq_ok.mp h
    obtain ⟨hname, hts⟩ := takes_name hkind
    dsimp only at h
    split at h
    · cases h; exact ⟨_, hstart.trans hts, .raise hname⟩
    · rename_i next hopen
      have hall := (hstart.trans hts).trans (Cursor.takes_mark hopen)
      split at h
      · rename_i d' hclose
        cases h; exact ⟨_, hall.trans (Cursor.takes_mark hclose), .raiseEmpty hname⟩
      · obtain ⟨⟨message, d'⟩, hmessage, h⟩ := except_bind_eq_ok.mp h
        obtain ⟨⟨_, d''⟩, hclose, h⟩ := except_bind_eq_ok.mp h
        cases h
        obtain ⟨us, hus, hd⟩ := expression_sound hmessage
        exact ⟨_, (hall.trans hus).trans (takes_expect hclose), .raiseMessage hname hd⟩

theorem simpleStatement_sound : Sound simpleStatement Spells := by
  intro c c' s h
  have htake : ∀ {word}, c.peek = .name word → c.Takes [⟨.name word, c.skip.line⟩] c.skip :=
    fun hw => Cursor.takes_skip hw (Lexeme.inline_name _)
  unfold simpleStatement at h
  dsimp only at h
  split at h
  · rename_i hword
    obtain ⟨⟨names, d⟩, hnames, h⟩ := except_bind_eq_ok.mp h
    cases h
    obtain ⟨ts, hts, hd⟩ := dottedNames_sound _ hnames
    exact ⟨_, (htake hword).trans hts, .imports hd⟩
  · rename_i hword
    exact assertion_sound (htake hword) h
  · rename_i hword
    exact raising_sound (htake hword) h
  · rename_i hword
    cases h; exact ⟨_, htake hword, .pass⟩
  · rename_i hequal
    obtain ⟨⟨id, d⟩, hid, h⟩ := except_bind_eq_ok.mp h
    obtain ⟨hpeek, hname, rfl⟩ := name_eq_ok hid
    obtain ⟨⟨value, d⟩, hvalue, h⟩ := except_bind_eq_ok.mp h
    cases h
    obtain ⟨ts, hts, hd⟩ := expression_sound hvalue
    rw [hts.line_eq hd.ne_nil]
    have hmark := Cursor.takes_skip hequal (Lexeme.inline_mark _)
    exact ⟨_, ((htake hpeek).trans hmark).trans hts, .assign hname hd⟩
  · obtain ⟨⟨e, d⟩, he, h⟩ := except_bind_eq_ok.mp h
    cases h
    obtain ⟨ts, hts, hd⟩ := expression_sound he
    rw [hts.line_eq hd.ne_nil]
    exact ⟨ts, hts, .expression hd⟩

/-- What comes at the end of a line of statements. -/
def AtBreak (c : Cursor) : Prop := c.peek = .newline ∨ c.peek = .endOfSource

theorem moreStatements_sound {rounds : Nat} {s : Statement} {ss : List Statement} {start : Cursor}
    {ts : List Token} (hts : start.Takes ts c) (hs : Spells ts s)
    (h : moreStatements rounds c = .ok (ss, c')) :
    ∃ us, start.Takes us c' ∧ SpellsAll us (s :: ss) := by
  induction rounds generalizing c s ss start ts with
  | zero => cases h; exact ⟨ts, hts, .last hs⟩
  | succ rounds ih =>
      unfold moreStatements at h
      split at h
      · cases h; exact ⟨ts, hts, .last hs⟩
      · rename_i d hsemicolon
        have hmark := Cursor.takes_mark hsemicolon
        split at h
        · cases h; exact ⟨_, hts.trans hmark, .closed hs⟩
        · cases h; exact ⟨_, hts.trans hmark, .closed hs⟩
        · obtain ⟨⟨s', d'⟩, hs', h⟩ := except_bind_eq_ok.mp h
          obtain ⟨⟨more, d''⟩, hmore, h⟩ := except_bind_eq_ok.mp h
          cases h
          obtain ⟨us, hus, hspells⟩ := simpleStatement_sound hs'
          obtain ⟨vs, hvs, hall⟩ := ih hus hspells hmore
          exact ⟨_, hts.trans (hmark.trans hvs), .more hs hall⟩

/-- A line of statements is followed by the end of the line. -/
theorem statementLine_sound {ss : List Statement} (h : statementLine c = .ok (ss, c')) :
    ∃ ts d, c.Takes ts d ∧ SpellsAll ts ss ∧ AtBreak d ∧ c' = d.skip := by
  obtain ⟨⟨s, d⟩, hs, h⟩ := except_bind_eq_ok.mp h
  obtain ⟨⟨more, d'⟩, hmore, h⟩ := except_bind_eq_ok.mp h
  obtain ⟨us, hus, hspells⟩ := simpleStatement_sound hs
  obtain ⟨ts, hts, hall⟩ := moreStatements_sound hus hspells hmore
  dsimp only at h
  split at h
  · cases h; exact ⟨ts, d', hts, hall, .inl ‹_›, rfl⟩
  · cases h; exact ⟨ts, d', hts, hall, .inr ‹_›, rfl⟩
  · cases h

/-- Behind the statements of a line comes its end, and after that the lines that follow. -/
theorem lined_of_takes {ts : List Token} {d : Cursor} (hlined : Lined true c.rest) (hc : ¬AtBreak c)
    (hts : c.Takes ts d) (hd : AtBreak d) :
    ∃ line, d.rest = ⟨.newline, line⟩ :: d.skip.rest ∧ Lined true d.skip.rest := by
  have hne : ts ≠ [] := by
    rintro rfl
    have hrest : c.rest = d.rest := hts.rest
    rw [AtBreak, Cursor.peek, hrest] at hc
    exact hc hd
  rw [hts.rest] at hlined
  have hline := hlined.rest hne hts.inline
  unfold AtBreak Cursor.peek at hd
  unfold Cursor.skip
  generalize d.rest = us at hline hd
  cases hline with
  | token hin _ => exact absurd hd (by simpa [Lexeme.Inline] using hin)
  | newline h => exact ⟨_, rfl, h⟩

theorem program_sound {rounds : Nat} {p : Program} (hlined : Lined true c.rest)
    (hrounds : c.rest.length ≤ rounds) (h : program rounds c = .ok (p, c')) : SpellsProgram c.rest p := by
  induction rounds generalizing c p with
  | zero =>
      rw [List.length_eq_zero_iff.mp (Nat.le_zero.mp hrounds)] at hlined
      cases hlined
  | succ rounds ih =>
      unfold program at h
      split at h
      · rename_i hpeek
        have hrest := Cursor.rest_of_peek hpeek nofun
        rw [hrest] at hlined
        cases hlined with
        | token hin _ => exact absurd rfl hin.1
      · rename_i hpeek
        obtain rfl : [] = p := congrArg Prod.fst (Except.ok.inj h)
        unfold Cursor.peek at hpeek
        generalize c.rest = us at hlined hpeek
        cases hlined with
        | done => exact .done
        | token hin _ => exact absurd hpeek hin.2
      · rename_i hnewline hend
        obtain ⟨⟨ss, d⟩, hss, h⟩ := except_bind_eq_ok.mp h
        obtain ⟨⟨more, d'⟩, hmore, h⟩ := except_bind_eq_ok.mp h
        cases h
        obtain ⟨ts, d, hts, hall, hd, rfl⟩ := statementLine_sound hss
        obtain ⟨line, hrest, hlined'⟩ := lined_of_takes hlined (not_or.mpr ⟨hnewline, hend⟩) hts hd
        have hlen : d.skip.rest.length ≤ rounds := by
          rw [hts.rest, hrest, List.length_append, List.length_cons] at hrounds; omega
        rw [hts.rest, hrest]
        exact .line hall (ih hlined' hlen hmore)

end Reader

/-- The tokens of a source that are read as a program spell it. -/
theorem Program.ofTokens_spells {source : String} {ts : List Token} {p : Program}
    (hts : tokenize source = .ok ts) (h : ofTokens ts = .ok p) : SpellsProgram ts p := by
  unfold ofTokens at h
  split at h
  · rename_i hp
    cases h
    exact Reader.program_sound (c := ⟨1, ts⟩) (tokenize_lined hts) (Nat.le_refl _) hp
  · cases h

end Launcher.Script
