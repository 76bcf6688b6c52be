import Launcher.Proofs.Script.Acceptance
import Launcher.Proofs.Script.Seams

/-!
# Programs on other lines

A program does not depend on the lines its tokens are on: tokens on other lines spell the same program with its nodes on
those lines. All brackets in it are closed at its end, and the lines of another program may follow.
-/

namespace Launcher.Script

/-! ## Trees on other lines -/

namespace Expr

mutual

def mapLines (f : Nat → Nat) : Expr → Expr
  | .const line c => .const (f line) c
  | .name line id => .name (f line) id
  | .list line es => .list (f line) (mapLinesAll f es)
  | .call line e es => .call (f line) (mapLines f e) (mapLinesAll f es)
  | .attr line e id => .attr (f line) (mapLines f e) id
  | .subscript line a b => .subscript (f line) (mapLines f a) (mapLines f b)
  | .negate line e => .negate (f line) (mapLines f e)
  | .binary line op a b => .binary (f line) op (mapLines f a) (mapLines f b)
  | .compare line op a b => .compare (f line) op (mapLines f a) (mapLines f b)
  | .not line e => .not (f line) (mapLines f e)
  | .and line a b => .and (f line) (mapLines f a) (mapLines f b)
  | .or line a b => .or (f line) (mapLines f a) (mapLines f b)

def mapLinesAll (f : Nat → Nat) : List Expr → List Expr
  | [] => []
  | e :: es => mapLines f e :: mapLinesAll f es

end

end Expr

def Statement.mapLines (f : Nat → Nat) : Statement → Statement
  | .imports names => .imports (names.map (Prod.map f id))
  | .assert testLine test line message =>
    .assert (f testLine) (test.mapLines f) (f line) (message.map (Expr.mapLines f))
  | .raise kindLine kind line message => .raise (f kindLine) kind (f line) (message.map (Expr.mapLines f))
  | .pass => .pass
  | .assign line id e => .assign (f line) id (e.mapLines f)
  | .expression line e => .expression (f line) (e.mapLines f)

namespace Grammar

variable {f : Nat → Nat}

theorem endLine_mapLine (f : Nat → Nat) (line : Nat) (ts : List Token) :
    endLine (f line) (ts.map (Token.mapLine f)) = f (endLine line ts) := by
  induction ts generalizing line with
  | nil => rfl
  | cons t ts ih => exact ih t.line

theorem lastLine_mapLine (f : Nat → Nat) {ts : List Token} (h : ts ≠ []) :
    lastLine (ts.map (Token.mapLine f)) = f (lastLine ts) := by
  cases ts with
  | nil => exact absurd rfl h
  | cons t ts => exact endLine_mapLine f t.line ts

theorem Joins.mapLines {level : Level} {t : Token} {last : Nat} {a b e : Expr} (h : Joins level t last a b e) :
    Joins level (t.mapLine f) (f last) (a.mapLines f) (b.mapLines f) (e.mapLines f) := by
  cases h with
  | or => exact .or
  | and => exact .and
  | sum hop hm => exact .sum hop hm
  | product hop hm => exact .product hop hm

theorem map_lexeme_mapLine (ts : List Token) : (ts.map (Token.mapLine f)).map Token.lexeme = ts.map Token.lexeme := by
  rw [List.map_map]
  rfl

mutual

theorem Derives.mapLines {level : Level} {ts : List Token} {e : Expr} :
    Derives level ts e → Derives level (ts.map (Token.mapLine f)) (e.mapLines f)
  | .inner h => .inner h.mapLines
  | .joined ha hb hj => by
      rw [List.map_append]
      exact .joined ha.mapLines hb.mapLines (lastLine_mapLine f hb.ne_nil ▸ hj.mapLines)
  | .not h => by
      rw [Expr.mapLines, ← lastLine_mapLine f h.ne_nil]
      exact .not h.mapLines
  | .compare ha hm hb => by
      rw [Expr.mapLines, ← lastLine_mapLine f hb.ne_nil, List.map_append]
      exact .compare ha.mapLines hm hb.mapLines
  | .minus h => by
      rw [Expr.mapLines, ← lastLine_mapLine f h.ne_nil]
      exact .minus h.mapLines
  | .plus h => .plus h.mapLines
  | .call h hes => by
      rw [Expr.mapLines, List.map_append, List.map_append]
      exact .call h.mapLines hes.mapLines
  | .attr h hid => by
      rw [Expr.mapLines, List.map_append]
      exact .attr h.mapLines hid
  | .subscript ha hb => by
      rw [Expr.mapLines, List.map_append, List.map_append]
      exact .subscript ha.mapLines hb.mapLines
  | .int => by
      rw [Expr.mapLines]
      exact .int
  | .float => by
      rw [Expr.mapLines]
      exact .float
  | .str hts h => by
      rw [Expr.mapLines, ← lastLine_mapLine f hts]
      exact .str (by simpa using hts) ((map_lexeme_mapLine _).trans h)
  | .word h => by
      rw [Expr.mapLines]
      exact .word h
  | .name h => by
      rw [Expr.mapLines]
      exact .name h
  | .parens h => by
      rw [List.map_append]
      exact .parens h.mapLines
  | .list hes => by
      rw [Expr.mapLines, List.map_append]
      exact .list hes.mapLines

theorem Items.mapLines {ts : List Token} {es : List Expr} :
    Items ts es → Items (ts.map (Token.mapLine f)) (Expr.mapLinesAll f es)
  | .nil => by
      rw [Expr.mapLinesAll]
      exact .nil
  | .one h => by
      rw [Expr.mapLinesAll, Expr.mapLinesAll]
      exact .one h.mapLines
  | .cons h hes => by
      rw [Expr.mapLinesAll, List.map_append]
      exact .cons h.mapLines hes.mapLines

end

theorem Dotted.mapLines {ts : List Token} {dotted : String} (h : Dotted ts dotted) :
    Dotted (ts.map (Token.mapLine f)) dotted := by
  induction h with
  | one hid => exact .one hid
  | more _ hid ih =>
      rw [List.map_append]
      exact .more ih hid

theorem DottedNames.mapLines {ts : List Token} {names : List (Nat × String)} (h : DottedNames ts names) :
    DottedNames (ts.map (Token.mapLine f)) (names.map (Prod.map f id)) := by
  induction h with
  | last h =>
      have hlast := DottedNames.last (h.mapLines (f := f))
      rwa [lastLine_mapLine f h.ne_nil] at hlast
  | @more ts us dotted names line h _ ih =>
      rw [List.map_append, List.map_cons, List.map_cons, Prod.map_apply, ← lastLine_mapLine f h.ne_nil]
      exact .more h.mapLines ih

theorem Spells.mapLines {ts : List Token} {s : Statement} (h : Spells ts s) :
    Spells (ts.map (Token.mapLine f)) (s.mapLines f) := by
  cases h with
  | imports h => exact .imports h.mapLines
  | assert h =>
      rw [Statement.mapLines, ← lastLine_mapLine f h.ne_nil]
      exact .assert h.mapLines
  | assertMessage ha hb =>
      rw [Statement.mapLines, ← lastLine_mapLine f ha.ne_nil, ← lastLine_mapLine f hb.ne_nil, List.map_append]
      exact .assertMessage ha.mapLines hb.mapLines
  | reraise =>
      rw [Statement.mapLines, Option.map_some, Expr.mapLines]
      exact .reraise
  | raise hkind => exact .raise hkind
  | raiseEmpty hkind => exact .raiseEmpty hkind
  | raiseMessage hkind h =>
      rw [List.map_append]
      exact .raiseMessage hkind h.mapLines
  | pass => exact .pass
  | assign hid h =>
      rw [Statement.mapLines, ← lastLine_mapLine f h.ne_nil]
      exact .assign hid h.mapLines
  | expression h =>
      rw [Statement.mapLines, ← lastLine_mapLine f h.ne_nil]
      exact .expression h.mapLines

theorem SpellsAll.mapLines {ts : List Token} {ss : List Statement} (h : SpellsAll ts ss) :
    SpellsAll (ts.map (Token.mapLine f)) (ss.map (Statement.mapLines f)) := by
  induction h with
  | last h => exact .last h.mapLines
  | closed h =>
      rw [List.map_append]
      exact .closed h.mapLines
  | more h _ ih =>
      rw [List.map_append]
      exact .more h.mapLines ih

/-- The same program on other lines. -/
theorem SpellsProgram.mapLines {ts : List Token} {p : Program} (h : SpellsProgram ts p) :
    SpellsProgram (ts.map (Token.mapLine f)) (p.map (Statement.mapLines f)) := by
  induction h with
  | done => exact .done
  | line hss _ ih =>
      rw [List.map_append, List.map_append]
      exact .line hss.mapLines ih

/-! ## Brackets -/

open Scan (bracketsAfter bracketsAfter_append bracketsAfter_cons bracketsAfter_concat)

theorem depthAfter_operator {m : Mark} (h : m.text ∉ ["(", "[", ")", "]"]) (depth : Nat) :
    Scan.depthAfter depth (.mark m) = depth := by
  cases m <;> first
    | rfl
    | exact absurd (by decide) h

theorem Joins.balanced {level : Level} {t : Token} {last : Nat} {a b e : Expr} (h : Joins level t last a b e)
    (depth : Nat) : Scan.depthAfter depth t.lexeme = depth := by
  have hop : ∀ op : BinaryOp, op.symbol ∉ ["(", "[", ")", "]"] := by rintro ⟨⟩ <;> decide
  cases h with
  | or | and => rfl
  | sum _ hm | product _ hm => exact depthAfter_operator (hm ▸ hop _) depth

theorem comparison_balanced {m : Mark} {op : Comparison} (h : m.text = op.symbol) (depth : Nat) :
    Scan.depthAfter depth (.mark m) = depth :=
  depthAfter_operator (by rw [h]; cases op <;> decide) depth

theorem strings_balanced {ts : List Token} {ss : List String} (h : ts.map Token.lexeme = ss.map Lexeme.str)
    (depth : Nat) : bracketsAfter depth ts = depth := by
  induction ts generalizing ss with
  | nil => rfl
  | cons t ts ih =>
      cases ss with
      | nil => cases h
      | cons s ss =>
          obtain ⟨ht, hts⟩ := List.cons.inj h
          rw [bracketsAfter_cons, ht]
          exact ih hts

mutual

theorem Derives.balanced {level : Level} {ts : List Token} {e : Expr} (depth : Nat) :
    Derives level ts e → bracketsAfter depth ts = depth
  | .inner h => h.balanced depth
  | .joined ha hb hj => by
      rw [bracketsAfter_append, bracketsAfter_cons, ha.balanced, hj.balanced, hb.balanced]
  | .not h => h.balanced depth
  | .compare ha hm hb => by
      rw [bracketsAfter_append, bracketsAfter_cons, ha.balanced, comparison_balanced hm, hb.balanced]
  | .minus h => h.balanced depth
  | .plus h => h.balanced depth
  | .call h hes => by
      rw [bracketsAfter_concat, bracketsAfter_append, bracketsAfter_cons, h.balanced, hes.balanced]
      rfl
  | .attr h _ => by
      rw [bracketsAfter_append, h.balanced]
      rfl
  | .subscript ha hb => by
      rw [bracketsAfter_concat, bracketsAfter_append, bracketsAfter_cons, ha.balanced, hb.balanced]
      rfl
  | .int => rfl
  | .float => rfl
  | .str _ h => strings_balanced h depth
  | .word _ => rfl
  | .name _ => rfl
  | .parens h => by
      rw [bracketsAfter_concat, bracketsAfter_cons, h.balanced]
      rfl
  | .list hes => by
      rw [bracketsAfter_concat, bracketsAfter_cons, hes.balanced]
      rfl

theorem Items.balanced {ts : List Token} {es : List Expr} (depth : Nat) :
    Items ts es → bracketsAfter depth ts = depth
  | .nil => rfl
  | .one h => h.balanced depth
  | .cons h hes => by
      rw [bracketsAfter_append, bracketsAfter_cons, h.balanced]
      exact hes.balanced depth

end

theorem Dotted.balanced {ts : List Token} {dotted : String} (h : Dotted ts dotted) (depth : Nat) :
    bracketsAfter depth ts = depth := by
  induction h with
  | one => rfl
  | more _ _ ih =>
      rw [bracketsAfter_append, ih]
      rfl

theorem DottedNames.balanced {ts : List Token} {names : List (Nat × String)} (h : DottedNames ts names) (depth : Nat) :
    bracketsAfter depth ts = depth := by
  induction h with
  | last h => exact h.balanced depth
  | more h _ ih =>
      rw [bracketsAfter_append, bracketsAfter_cons, h.balanced]
      exact ih

theorem Spells.balanced {ts : List Token} {s : Statement} (h : Spells ts s) (depth : Nat) :
    bracketsAfter depth ts = depth := by
  cases h with
  | imports h => exact h.balanced depth
  | assert h => exact h.balanced depth
  | assertMessage ha hb =>
      rw [bracketsAfter_append, bracketsAfter_cons, bracketsAfter_cons, ha.balanced, hb.balanced]
      rfl
  | reraise | raise | raiseEmpty | pass => rfl
  | raiseMessage _ h =>
      rw [bracketsAfter_concat, bracketsAfter_cons, bracketsAfter_cons, bracketsAfter_cons, h.balanced]
      rfl
  | assign _ h => exact h.balanced depth
  | expression h => exact h.balanced depth

theorem SpellsAll.balanced {ts : List Token} {ss : List Statement} (h : SpellsAll ts ss) (depth : Nat) :
    bracketsAfter depth ts = depth := by
  induction h with
  | last h => exact h.balanced depth
  | closed h =>
      rw [bracketsAfter_append, h.balanced]
      rfl
  | more h _ ih =>
      rw [bracketsAfter_append, bracketsAfter_cons, h.balanced]
      exact ih

/-- All brackets of a program are closed at its end. -/
theorem SpellsProgram.balanced {ts : List Token} {p : Program} (h : SpellsProgram ts p) (depth : Nat) :
    bracketsAfter depth ts = depth := by
  induction h with
  | done => rfl
  | line hss _ ih =>
      rw [bracketsAfter_append, bracketsAfter_cons, hss.balanced]
      exact ih

/-! ## Programs after one another -/

theorem SpellsProgram.ne_nil {ts : List Token} {p : Program} (h : SpellsProgram ts p) : ts ≠ [] := by
  cases h <;> simp

/-- The lines of another program in place of the end of a source. -/
theorem SpellsProgram.append {ts us : List Token} {p q : Program} (hp : SpellsProgram ts p)
    (hq : SpellsProgram us q) : SpellsProgram (ts.dropLast ++ us) (p ++ q) := by
  induction hp with
  | done => exact hq
  | line hss hp ih =>
      rw [List.dropLast_append_of_ne_nil (by simp), List.dropLast_cons_of_ne_nil hp.ne_nil, List.append_assoc,
        List.append_assoc]
      exact .line hss ih

end Grammar

end Launcher.Script
