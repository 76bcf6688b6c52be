import Launcher.Proofs.Script.Acceptance
import Launcher.Proofs.Script.Evaluation
import Launcher.Proofs.Script.Scanning

/-!
# Texts of values

The text of a value is a source: its tokens spell an expression, and what that expression has for its value is the
value that was written.
-/

namespace Launcher.Script

/-- Values whose text stands for them. The least integer has none: its sign is an operator, and the integer behind
it is too large. -/
inductive Value.Printable : Value → Prop where
  | none : Printable .none
  | bool (b : Bool) : Printable (.bool b)
  | int {i : Int64} : i ≠ Int64.minValue → Printable (.int i)
  | str (s : String) : Printable (.str s)
  | list {items : List Value} : (∀ v ∈ items, v.Printable) → Printable (.list items)

open Grammar

namespace Scan

/-! ## Texts and their lexemes -/

/-- In front of a text that may come next, the characters are scanned as these lexemes, all on one line. Each step
takes a character at least. -/
def Writes (next : List Char → Prop) (cs : List Char) (ls : List Lexeme) : Prop :=
  ∃ k ≤ cs.length, ∀ line depth fresh steps rest, next rest →
    tokens line depth fresh (steps + k) (cs ++ rest) =
      (tokens line (ls.foldl depthAfter depth) (fresh && ls.isEmpty) steps rest).map (onLine line ls ++ ·)

variable {next : List Char → Prop} {cs ds : List Char} {ls ms : List Lexeme}

theorem map_nil_append (x : Except ScanError (List Token)) : x.map (fun ts => ts) = x := by
  cases x <;> rfl

theorem Writes.nil : Writes next [] [] :=
  ⟨0, Nat.le_refl _, fun line depth fresh steps rest _ => by simp [map_nil_append]⟩

theorem Writes.one {c : Char} {l : Lexeme}
    (h : ∀ rest, next rest → piece c (cs ++ rest) = .ok (.lexeme l, 0, rest)) : Writes next (c :: cs) [l] :=
  ⟨1, by simp, fun line depth fresh steps rest hrest => by
    rw [List.cons_append, tokens_lexeme (h rest hrest)]
    simp⟩

/-- A blank, whatever comes next. -/
theorem Writes.gap : Writes (fun _ => True) [' '] [] :=
  ⟨1, Nat.le_refl _, fun line depth fresh steps rest _ => by
    rw [List.singleton_append, tokens_gap (by rfl)]
    simp [map_nil_append]⟩

/-- A sign of one character that begins no longer sign, whatever comes next. -/
theorem Writes.mark {c : Char} {m : Mark} (h : ∀ rest, piece c rest = .ok (.lexeme (.mark m), 0, rest)) :
    Writes (fun _ => True) [c] [.mark m] := .one fun rest _ => h rest

theorem Writes.append {next' : List Char → Prop} (hcs : Writes next cs ls) (hds : Writes next' ds ms)
    (hnext : ∀ rest, next' rest → next (ds ++ rest)) : Writes next' (cs ++ ds) (ls ++ ms) := by
  obtain ⟨k, hk, hcs⟩ := hcs
  obtain ⟨l, hl, hds⟩ := hds
  refine ⟨l + k, by rw [List.length_append]; omega, fun line depth fresh steps rest hrest => ?_⟩
  have hempty : (fresh && ls.isEmpty && ms.isEmpty) = (fresh && (ls ++ ms).isEmpty) := by
    cases ls <;> simp
  rw [List.append_assoc, ← Nat.add_assoc, hcs _ _ _ _ _ (hnext rest hrest), hds _ _ _ _ _ hrest, hempty,
    ← List.foldl_append, onLine_append]
  cases tokens line ((ls ++ ms).foldl depthAfter depth) (fresh && (ls ++ ms).isEmpty) steps rest with
  | error e => rfl
  | ok ts => exact congrArg Except.ok (List.append_assoc ..).symm

theorem Writes.mono {next' : List Char → Prop} (h : Writes next cs ls) (hnext : ∀ rest, next' rest → next rest) :
    Writes next' cs ls := by
  obtain ⟨k, hk, htokens⟩ := h
  exact ⟨k, hk, fun line depth fresh steps rest hrest => htokens line depth fresh steps rest (hnext rest hrest)⟩

/-- A source that is one text of lexemes has a line of their tokens. -/
theorem tokenize_of_writes {source : String} (h : Writes Ends source.toList ls) (hls : ls ≠ []) :
    tokenize source = .ok (onLine 1 ls ++ [⟨.newline, 1⟩, ⟨.endOfSource, 1⟩]) := by
  obtain ⟨k, hk, htokens⟩ := h
  have hall := htokens 1 0 true (source.toList.length - k) [] ends_nil
  rw [Nat.sub_add_cancel hk, List.append_nil, tokens_nil] at hall
  rw [tokenize, hall, List.isEmpty_eq_false_iff.mpr hls]
  rfl

end Scan

/-! ## Values and their expressions -/

open Scan (Writes onLine Ends)

theorem Grammar.Derives.of_sign {ts : List Token} {e : Expr} (h : Derives .sign ts e) :
    Derives .disjunction ts e :=
  .inner (.inner (.inner (.inner (.inner (.inner h)))))

theorem Grammar.Derives.of_atom {ts : List Token} {e : Expr} (h : Derives .atom ts e) : Derives .sign ts e :=
  .inner (.inner h)

/-- The text of the value is scanned as lexemes that spell an expression, on whichever line, and the expression has
that value without an error and without a change to the machine. -/
structure Value.Spelled (v : Value) (ls : List Lexeme) : Prop where
  writes : Writes Ends v.repr.toList ls
  spells : ∀ line, ∃ e, Derives .disjunction (onLine line ls) e ∧ ∀ scene, e.eval scene = Action.pure v

/-- The same of values with commas between them. -/
structure Value.SpelledAll (vs : List Value) (ls : List Lexeme) : Prop where
  writes : Writes Ends ([',', ' '].intercalate (vs.map fun v => v.repr.toList)) ls
  spells : ∀ line, ∃ es, Items (onLine line ls) es ∧ ∀ scene, Expr.evalAll scene es = Action.pure vs

namespace Value

theorem spelled_word {v : Value} {c : Char} {cs : List Char} {k : Const} (hv : ofConst k = v)
    (htext : v.repr.toList = c :: cs) (hword : IsConst (String.ofList (c :: cs)) k)
    (hc : Scan.isNameStart c) (hcs : cs.all Scan.isNamePart = true) :
    v.Spelled [.name (String.ofList (c :: cs))] where
  writes := htext ▸ .one fun _ hrest => Scan.piece_word hc (List.all_eq_true.mp hcs) hrest
  spells line := ⟨.const line k, .of_sign (.of_atom (.word hword)), fun _ => hv ▸ rfl⟩

theorem spelled_none : Value.none.Spelled [.name "None"] :=
  spelled_word (k := .none) rfl (by rw [repr]; rfl) .none (by decide) (by decide)

theorem spelled_true : (bool true).Spelled [.name "True"] :=
  spelled_word (k := .bool true) rfl (by rw [repr]; rfl) .true (by decide) (by decide)

theorem spelled_false : (bool false).Spelled [.name "False"] :=
  spelled_word (k := .bool false) rfl (by rw [repr]; rfl) .false (by decide) (by decide)

theorem spelled_str (s : String) : (str s).Spelled [.str s] where
  writes := by
    rw [repr, quoted, String.toList_ofList, List.cons_append]
    refine .one fun rest _ => ?_
    rw [List.append_assoc, List.singleton_append, Scan.piece_quoted, String.ofList_toList]
  spells line := by
    have hstr : Derives .atom [⟨.str s, line⟩] (.const line (.str (String.join [s]))) :=
      .str (List.cons_ne_nil _ _) rfl
    refine ⟨_, .of_sign (.of_atom hstr), fun _ => ?_⟩
    rw [Expr.eval, String.join_cons, String.join_nil, String.append_empty, ofConst]

theorem writes_digits {n : Nat} (hn : n < 2 ^ 63) : Writes Ends (Decimal.digitsOf n) [.int n] := by
  obtain ⟨c, cs, hcs, _⟩ := Scan.piece_digitsOf hn Scan.ends_nil
  rw [hcs]
  refine .one fun rest hrest => ?_
  obtain ⟨c', cs', hcs', hpiece⟩ := Scan.piece_digitsOf hn hrest
  obtain ⟨rfl, rfl⟩ := List.cons.inj (hcs.symm.trans hcs')
  exact hpiece

theorem spelled_nat {n : Nat} (hn : n < 2 ^ 63) : (int (Int64.ofNat n)).Spelled [.int n] where
  writes := by
    have htext : (int (Int64.ofNat n)).repr.toList = Decimal.digitsOf n := by
      rw [repr, Int64.toInt_ofNat_of_lt hn]
      exact Nat.toList_repr
    exact htext ▸ writes_digits hn
  spells line := ⟨.const line (.int (Int64.ofNat n)), .of_sign (.of_atom .int), fun _ => rfl⟩

/-- The sign of an integer below zero is an operator on the integer without it. -/
theorem spelled_minus {n : Nat} (hn : n + 1 < 2 ^ 63) :
    (int (Int64.ofInt (Int.negSucc n))).Spelled [.mark .minus, .int (n + 1)] where
  writes := by
    have htext : (int (Int64.ofInt (Int.negSucc n))).repr.toList = ['-'] ++ Decimal.digitsOf (n + 1) := by
      rw [repr, Int64.toInt_ofInt_of_le (by omega) (by omega)]
      exact (String.toList_append (s := "-")).trans (congrArg _ Nat.toList_repr)
    exact htext ▸ (Writes.mark fun _ => rfl).append (writes_digits hn) fun _ _ => trivial
  spells line := by
    let operand : Expr := .const line (.int (Int64.ofNat (n + 1)))
    refine ⟨.negate line operand, .of_sign (.minus (.of_atom .int)), fun _ => ?_⟩
    have hnegate : (int (Int64.ofNat (n + 1))).negate = .ok (int (Int64.ofInt (Int.negSucc n))) := by
      rw [negate, Int64.toInt_ofNat_of_lt hn, ofInt, Int64.toInt_minValue, Int64.toInt_maxValue, if_pos (by omega)]
      rfl
    rw [Expr.eval, Expr.eval, ofConst]
    show Scene.operation _ _ (int (Int64.ofNat (n + 1))).negate = _
    rw [hnegate]
    rfl

theorem spelled_int {i : Int64} (hi : i ≠ Int64.minValue) : ∃ ls, (int i).Spelled ls := by
  have hlow := i.le_toInt
  have hhigh := i.toInt_lt
  have hmin : i.toInt ≠ -2 ^ 63 := fun h => hi (Int64.toInt_inj.mp (h.trans Int64.toInt_minValue.symm))
  rw [← Int64.ofInt_toInt i]
  rcases h : i.toInt with n | n
  · have hn : (n : Int) < 2 ^ 63 := by rwa [h] at hhigh
    exact ⟨_, spelled_nat (by omega)⟩
  · exact ⟨_, spelled_minus (by omega)⟩

/-- A comma and a blank go between the texts of values. -/
theorem writes_comma {cs : List Char} {ls : List Lexeme} (h : Writes Ends cs ls) :
    Writes Ends ([',', ' '] ++ cs) (.mark .comma :: ls) := by
  have hcomma : Writes (fun _ => True) [','] [.mark .comma] := .mark fun _ => rfl
  exact hcomma.append (Writes.gap.append h fun _ _ => trivial) fun _ _ => trivial

theorem spelledAll : (vs : List Value) → (∀ v ∈ vs, ∃ ls, v.Spelled ls) → ∃ ls, SpelledAll vs ls
  | [], _ => ⟨[], .nil, fun _ => ⟨[], .nil, fun _ => rfl⟩⟩
  | [v], h => by
      obtain ⟨ls, hv⟩ := h v List.mem_cons_self
      refine ⟨ls, by simpa using hv.writes, fun line => ?_⟩
      obtain ⟨e, he, heval⟩ := hv.spells line
      refine ⟨[e], .one he, fun scene => ?_⟩
      rw [Expr.evalAll, heval]
      rfl
  | v :: w :: vs, h => by
      obtain ⟨⟨ls, hv⟩, hvs⟩ := List.forall_mem_cons.mp h
      obtain ⟨ms, hvs⟩ := spelledAll (w :: vs) hvs
      refine ⟨ls ++ .mark .comma :: ms, ?_, fun line => ?_⟩
      · rw [List.map_cons, List.map_cons, List.intercalate_cons_cons, List.append_assoc]
        exact hv.writes.append (writes_comma hvs.writes) fun _ _ => Scan.ends_comma _
      · obtain ⟨e, he, heval⟩ := hv.spells line
        obtain ⟨es, hes, hevals⟩ := hvs.spells line
        refine ⟨e :: es, ?_, fun scene => ?_⟩
        · rw [Scan.onLine_append, Scan.onLine_cons]
          exact .cons he hes
        · rw [Expr.evalAll, heval, hevals]
          rfl

theorem spelled_list {vs : List Value} {ls : List Lexeme} (h : SpelledAll vs ls) :
    (list vs).Spelled ([.mark .openBracket] ++ ls ++ [.mark .closeBracket]) where
  writes := by
    have htext : (list vs).repr.toList =
        ['['] ++ [',', ' '].intercalate (vs.map fun v => v.repr.toList) ++ [']'] := by
      simp [repr, String.toList_intercalate, Function.comp_def]
    rw [htext]
    have hopen : Writes (fun _ => True) ['['] [.mark .openBracket] := .mark fun _ => rfl
    have hclose : Writes (fun _ => True) [']'] [.mark .closeBracket] := .mark fun _ => rfl
    have hitems := hopen.append h.writes fun _ _ => trivial
    exact (hitems.append hclose fun rest _ => Scan.ends_bracket rest).mono fun _ _ => trivial
  spells line := by
    obtain ⟨es, hes, hevals⟩ := h.spells line
    refine ⟨.list line es, .of_sign (.of_atom ?_), fun scene => ?_⟩
    · rw [Scan.onLine_append, Scan.onLine_append]
      exact .list hes
    · rw [Expr.eval, hevals]
      rfl

/-- The text of a value spells it. -/
theorem Printable.spelled {v : Value} (h : v.Printable) : ∃ ls, v.Spelled ls := by
  induction h with
  | none => exact ⟨_, spelled_none⟩
  | bool b =>
      cases b with
      | true => exact ⟨_, spelled_true⟩
      | false => exact ⟨_, spelled_false⟩
  | int hi => exact spelled_int hi
  | str s => exact ⟨_, spelled_str s⟩
  | @list vs _ ih =>
      obtain ⟨ls, hvs⟩ := spelledAll vs ih
      exact ⟨_, spelled_list hvs⟩

end Value

/-! ## Compilation of texts of values -/

/-- The tokens of a source of one expression. -/
def lineTokens (ls : List Lexeme) : List Token := onLine 1 ls ++ [⟨.newline, 1⟩, ⟨.endOfSource, 1⟩]

theorem Value.Spelled.tokenize_eq {v : Value} {ls : List Lexeme} (h : v.Spelled ls) :
    tokenize v.repr = .ok (lineTokens ls) := by
  refine Scan.tokenize_of_writes h.writes ?_
  rintro rfl
  obtain ⟨e, he, _⟩ := h.spells 1
  exact he.ne_nil rfl

theorem spellsProgram_line {ls : List Lexeme} {e : Expr} (h : Derives .disjunction (onLine 1 ls) e) :
    SpellsProgram (lineTokens ls) [.expression (lastLine (onLine 1 ls)) e] :=
  .line (.last (.expression h)) .done

/-- The text of a value is compiled, and before it is dropped or printed the value is on the stack, above what was
there, with the machine as it was. -/
theorem compile_repr {v : Value} (h : v.Printable) (mode : CompileMode) (file : String) :
    ∃ code push line, compile mode file v.repr = .ok code ∧
      code.body = push ++ [⟨if mode.echo then .printExpr else .pop, line⟩] ∧
      ∀ env module stack, Exec.Leads env code module 0 stack (Action.pure v) push.length fun v => v :: stack := by
  obtain ⟨ls, hv⟩ := h.spelled
  obtain ⟨e, he, heval⟩ := hv.spells 1
  let line := lastLine (onLine 1 ls)
  let code := Program.compile mode file [.expression line e]
  let push := e.code code.pools 0
  have hbody : code.body = push ++ [⟨if mode.echo then .printExpr else .pop, line⟩] := List.append_nil _
  refine ⟨code, push, line, ?_, hbody, fun env module stack => ?_⟩
  · exact compile_eq_ok.mpr ⟨_, _, hv.tokenize_eq, Program.ofTokens_of_spells (spellsProgram_line he), rfl⟩
  · have hat : code.At 0 push := (hbody ▸ Code.At.all code).left
    have hleads := Exec.code_leads env module stack e hat (Pools.hold_ofProgram _ List.mem_cons_self)
    rwa [heval, Nat.zero_add] at hleads

/-- A list of a text with every kind of character, an integer below zero and a list. -/
theorem compile_repr_nested :
    let v : Value := .list [.str "it's \\ \" \n\t\r\x00 é", .int (-7), .list [.bool true, .none, .list []]]
    v.Printable ∧ ∃ code push line, compile {} "m.py" v.repr = .ok code ∧
      code.body = push ++ [⟨.pop, line⟩] ∧
      ∀ env module stack, Exec.Leads env code module 0 stack (Action.pure v) push.length fun v => v :: stack := by
  intro v
  have hinner : (Value.list [.bool true, .none, .list []]).Printable :=
    .list (by simp [Value.Printable.bool, Value.Printable.none, Value.Printable.list])
  have h : v.Printable := .list (by simp [Value.Printable.str, hinner, Value.Printable.int])
  exact ⟨h, compile_repr h {} "m.py"⟩

end Launcher.Script
