import Launcher.Proofs.Script.Lines
import Launcher.Proofs.Script.Seams

/-!
# The normal form of tokens

The tokens of a source text are lines, one after the other, with a `newline` token at the end of each, and then the
end of the source. No line ends between a bracket and the one that closes it. The tokens are lexemes of the pieces that
the text is cut into, on the lines on which these pieces begin; but for the end of the source, only the last `newline`
can have no character in the text.
-/

namespace Launcher.Script

/-! ## Lines -/

/-- Something that stands in a line, and then a newline. -/
def IsLine (ts : List Token) : Prop :=
  ∃ front line, ts = front ++ [⟨.newline, line⟩] ∧ front ≠ [] ∧ ∀ t ∈ front, t.lexeme.Inline

/-- Whole lines and the end of the source. -/
def AreLines (ts : List Token) : Prop :=
  ∃ (lines : List (List Token)) (last : Nat), ts = lines.flatten ++ [⟨.endOfSource, last⟩] ∧ ∀ l ∈ lines, IsLine l

theorem AreLines.cons {l ts : List Token} (hl : IsLine l) (h : AreLines ts) : AreLines (l ++ ts) := by
  obtain ⟨lines, last, rfl, hlines⟩ := h
  exact ⟨l :: lines, last, by rw [List.flatten_cons, List.append_assoc], List.forall_mem_cons.mpr ⟨hl, hlines⟩⟩

/-- In the middle of a line its rest comes first. -/
theorem Lined.areLines {fresh : Bool} {ts : List Token} (h : Lined fresh ts) :
    if fresh then AreLines ts
    else ∃ front line rest,
      ts = front ++ ⟨.newline, line⟩ :: rest ∧ (∀ t ∈ front, t.lexeme.Inline) ∧ AreLines rest := by
  induction h with
  | @done line => exact ⟨[], line, rfl, nofun⟩
  | @token fresh t ts ht _ ih =>
      obtain ⟨front, line, rest, rfl, hfront, hrest⟩ := ih
      have hline : ∀ u ∈ t :: front, u.lexeme.Inline := List.forall_mem_cons.mpr ⟨ht, hfront⟩
      cases fresh with
      | true =>
          have hcons := hrest.cons ⟨t :: front, line, rfl, by simp, hline⟩
          simpa using hcons
      | false => exact ⟨t :: front, line, rest, rfl, hline, hrest⟩
  | @newline line ts _ ih => exact ⟨[], line, ts, rfl, nofun, ih⟩

/-! ## Brackets -/

def Lexeme.opens : Lexeme → Bool
  | .mark m => m.isOpen
  | _ => false

def Lexeme.closes : Lexeme → Bool
  | .mark m => m.isClose
  | _ => false

theorem Lexeme.closes_of_opens {l : Lexeme} (h : l.opens = true) : l.closes = false := by
  cases l with
  | mark m => cases m <;> first | rfl | cases h
  | _ => rfl

/-- How many brackets open, of either kind. -/
def openings (ts : List Token) : Nat := ts.countP (·.lexeme.opens)

/-- How many brackets close, of either kind. -/
def closings (ts : List Token) : Nat := ts.countP (·.lexeme.closes)

/-- Each bracket that opens is closed, and none closes what was opened before. -/
structure Balanced (ts : List Token) : Prop where
  front : ∀ us, us <+: ts → closings us ≤ openings us
  whole : closings ts = openings ts

/-- No line ends between a bracket and the one that closes it. -/
def FoldsBrackets (ts : List Token) : Prop :=
  ∀ before opener inside closer after, ts = before ++ opener :: inside ++ closer :: after →
    opener.lexeme.opens = true → closer.lexeme.closes = true → Balanced inside → ∀ t ∈ inside, t.lexeme ≠ .newline

namespace Scan

theorem le_depthAfter (depth : Nat) (l : Lexeme) :
    depth + l.opens.toNat ≤ depthAfter depth l + l.closes.toNat := by
  cases l with
  | mark m =>
      cases hopen : m.isOpen with
      | true => simp [depthAfter, Lexeme.opens, hopen]
      | false =>
          cases hclose : m.isClose with
          | true =>
              simp [depthAfter, Lexeme.opens, Lexeme.closes, hopen, hclose]
              omega
          | false => simp [depthAfter, Lexeme.opens, Lexeme.closes, hopen, hclose]
  | _ => exact Nat.le_refl _

theorem openings_cons (t : Token) (ts : List Token) : openings (t :: ts) = openings ts + t.lexeme.opens.toNat := by
  rw [openings, List.countP_cons]
  cases t.lexeme.opens <;> rfl

theorem closings_cons (t : Token) (ts : List Token) : closings (t :: ts) = closings ts + t.lexeme.closes.toNat := by
  rw [closings, List.countP_cons]
  cases t.lexeme.closes <;> rfl

/-- Each bracket that closes takes off one at most. -/
theorem le_bracketsAfter (depth : Nat) (ts : List Token) :
    depth + openings ts ≤ bracketsAfter depth ts + closings ts := by
  induction ts generalizing depth with
  | nil => exact Nat.le_refl _
  | cons t ts ih =>
      have hstep := le_depthAfter depth t.lexeme
      have hrest := ih (depthAfter depth t.lexeme)
      rw [bracketsAfter_cons, openings_cons, closings_cons]
      omega

/-- A line ends where no bracket is open, or at the end of the source. -/
theorem Scans.depth_of_newline {line depth n : Nat} {fresh : Bool} {cs : List Char} {ts us vs : List Token}
    (h : Scans line depth fresh cs ts) (hts : ts = us ++ ⟨.newline, n⟩ :: vs) :
    bracketsAfter depth us = 0 ∨ ∃ last, vs = [⟨.endOfSource, last⟩] := by
  induction h generalizing us with
  | @done line depth fresh =>
      cases fresh with
      | true =>
          cases us with
          | nil => cases hts
          | cons t us => simp at hts
      | false =>
          cases us with
          | nil => exact .inr ⟨line, (List.cons.inj hts).2.symm⟩
          | cons t us =>
              have hend : [⟨.endOfSource, line⟩] = us ++ ⟨.newline, n⟩ :: vs := (List.cons.inj hts).2
              cases us with
              | nil => cases hend
              | cons t us => simp at hend
  | gap _ _ ih | folded _ _ _ ih => exact ih hts
  | newline _ _ ih =>
      cases us with
      | nil => exact .inl rfl
      | cons t us =>
          obtain ⟨rfl, hrest⟩ := List.cons.inj hts
          have hdepth := ih hrest
          exact hdepth
  | lexeme hp _ ih =>
      cases us with
      | nil => exact absurd (congrArg Token.lexeme (List.cons.inj hts).1) (piece_inline hp).1
      | cons t us =>
          obtain ⟨rfl, hrest⟩ := List.cons.inj hts
          have hdepth := ih hrest
          exact hdepth

theorem Scans.foldsBrackets {line : Nat} {fresh : Bool} {cs : List Char} {ts : List Token}
    (h : Scans line 0 fresh cs ts) : FoldsBrackets ts := by
  rintro before opener inside closer after rfl hopens hcloses hbalanced ⟨_, n⟩ ht rfl
  obtain ⟨front, back, rfl⟩ := List.append_of_mem ht
  have hsplit : before ++ opener :: (front ++ ⟨.newline, n⟩ :: back) ++ closer :: after =
      (before ++ opener :: front) ++ ⟨.newline, n⟩ :: (back ++ closer :: after) := by simp
  rcases h.depth_of_newline hsplit with hdepth | ⟨last, hend⟩
  · have hfront : closings front ≤ openings front := hbalanced.front front (List.prefix_append _ _)
    have hopener : opener.lexeme.closes = false := Lexeme.closes_of_opens hopens
    have hle := le_bracketsAfter (bracketsAfter 0 before) (opener :: front)
    rw [← bracketsAfter_append, hdepth, openings_cons, closings_cons, hopens, hopener] at hle
    simp at hle
    omega
  · cases back with
    | nil =>
        obtain ⟨rfl, -⟩ := List.cons.inj hend
        cases hcloses
    | cons t back => simp at hend

end Scan

/-! ## Places -/

/-- A piece of a text, with the characters that it takes up. -/
structure Cut where
  text : List Char
  piece : Scan.Piece

/-- What token a piece could be. -/
def Scan.Piece.lexeme? : Scan.Piece → Option Lexeme
  | .gap => none
  | .newline => some .newline
  | .lexeme l => some l

/-- The text is cut into these pieces, each as long as it can be at its place. -/
inductive CutInto : List Char → List Cut → Prop where
  | nil : CutInto [] []
  | cons {c : Char} {cs rest text : List Char} {p : Scan.Piece} {crossed : Nat} {cuts : List Cut} :
      Scan.piece c cs = .ok (p, crossed, rest) → text ++ rest = c :: cs → CutInto rest cuts →
      CutInto (c :: cs) (⟨text, p⟩ :: cuts)

/-- The tokens that pieces could be which stand behind the text `before`. A token is on the line on which its first
character is. -/
def tokensBehind (before : List Char) : List Cut → List Token
  | [] => []
  | cut :: cuts =>
    (cut.piece.lexeme?.map fun l => ⟨l, before.count '\n' + 1⟩).toList ++ tokensBehind (before ++ cut.text) cuts

/-- The end of the source on its last line, with the end of that line if it has none of its own. -/
inductive IsEnd (last : Nat) : List Token → Prop where
  | whole : IsEnd last [⟨.endOfSource, last⟩]
  | broken : IsEnd last [⟨.newline, last⟩, ⟨.endOfSource, last⟩]

/-- The tokens other than ends of lines. -/
def withoutNewlines (ts : List Token) : List Token := ts.filter (·.lexeme != .newline)

theorem withoutNewlines_cons (t : Token) (ts : List Token) :
    withoutNewlines (t :: ts) = if t.lexeme != .newline then t :: withoutNewlines ts else withoutNewlines ts :=
  List.filter_cons

/-- Up to the end of the source, the tokens of a text behind `before` are those that its pieces could be, without some
of the ends of lines. -/
def PlacedBehind (before cs : List Char) (ts : List Token) : Prop :=
  ∃ cuts own ending, CutInto cs cuts ∧ ts = own ++ ending ∧ IsEnd ((before ++ cs).count '\n' + 1) ending ∧
    own.Sublist (tokensBehind before cuts) ∧ withoutNewlines own = withoutNewlines (tokensBehind before cuts)

namespace PlacedBehind

variable {c : Char} {cs rest before text : List Char} {p : Scan.Piece} {crossed : Nat} {ts : List Token}

/-- A piece that no token comes of. -/
theorem skip (hp : Scan.piece c cs = .ok (p, crossed, rest)) (htext : text ++ rest = c :: cs)
    (hskipped : p.lexeme? = none ∨ p.lexeme? = some .newline) (h : PlacedBehind (before ++ text) rest ts) :
    PlacedBehind before (c :: cs) ts := by
  obtain ⟨cuts, own, ending, hcuts, rfl, hend, hsub, hothers⟩ := h
  rw [List.append_assoc, htext] at hend
  refine ⟨⟨text, p⟩ :: cuts, own, ending, .cons hp htext hcuts, rfl, hend, ?_, ?_⟩
  · exact hsub.trans (List.sublist_append_right _ _)
  · rw [tokensBehind, hothers]
    rcases hskipped with hnone | hnewline
    · rw [hnone]
      rfl
    · rw [hnewline]
      rfl

theorem token {l : Lexeme} (hp : Scan.piece c cs = .ok (p, crossed, rest)) (htext : text ++ rest = c :: cs)
    (hl : p.lexeme? = some l) (h : PlacedBehind (before ++ text) rest ts) :
    PlacedBehind before (c :: cs) (⟨l, before.count '\n' + 1⟩ :: ts) := by
  obtain ⟨cuts, own, ending, hcuts, rfl, hend, hsub, hothers⟩ := h
  rw [List.append_assoc, htext] at hend
  have htokens : tokensBehind before (⟨text, p⟩ :: cuts) =
      ⟨l, before.count '\n' + 1⟩ :: tokensBehind (before ++ text) cuts := by
    rw [tokensBehind, hl]
    rfl
  refine ⟨⟨text, p⟩ :: cuts, _ :: own, ending, .cons hp htext hcuts, rfl, hend, ?_, ?_⟩
  · rw [htokens]
    exact hsub.cons_cons _
  · rw [htokens, withoutNewlines_cons, withoutNewlines_cons, hothers]

end PlacedBehind

namespace Scan

theorem piece_text {c : Char} {cs rest : List Char} {p : Piece} {crossed : Nat}
    (h : piece c cs = .ok (p, crossed, rest)) : ∃ text, text ++ rest = c :: cs ∧ text.count '\n' = crossed := by
  obtain ⟨⟨front, hfront⟩, hcount⟩ := piece_passes h
  refine ⟨c :: front, by rw [List.cons_append, hfront], ?_⟩
  rw [← hfront, ← List.cons_append, List.count_append] at hcount
  exact Nat.add_right_cancel hcount

theorem count_behind {before text : List Char} {line crossed : Nat} (hline : line = before.count '\n' + 1)
    (htext : text.count '\n' = crossed) : line + crossed = (before ++ text).count '\n' + 1 := by
  rw [List.count_append, htext, hline]
  omega

theorem Scans.placed {line depth : Nat} {fresh : Bool} {cs before : List Char} {ts : List Token}
    (h : Scans line depth fresh cs ts) (hline : line = before.count '\n' + 1) : PlacedBehind before cs ts := by
  induction h generalizing before with
  | @done line depth fresh =>
      refine ⟨[], [], _, .nil, rfl, ?_, .slnil, rfl⟩
      rw [List.append_nil, ← hline]
      cases fresh with
      | true => exact .whole
      | false => exact .broken
  | gap hp _ ih =>
      obtain ⟨text, htext, hcrossed⟩ := piece_text hp
      exact (ih (count_behind hline hcrossed)).skip hp htext (.inl rfl)
  | newline hp _ ih =>
      obtain ⟨text, htext, hcrossed⟩ := piece_text hp
      have hrest := ih (count_behind hline hcrossed)
      exact hline ▸ hrest.token hp htext rfl
  | folded hp _ _ ih =>
      obtain ⟨text, htext, hcrossed⟩ := piece_text hp
      exact (ih (count_behind hline hcrossed)).skip hp htext (.inr rfl)
  | lexeme hp _ ih =>
      obtain ⟨text, htext, hcrossed⟩ := piece_text hp
      have hrest := ih (count_behind hline hcrossed)
      exact hline ▸ hrest.token hp htext rfl

/-! ## Lines in order -/

theorem Scans.ordered {line depth : Nat} {fresh : Bool} {cs : List Char} {ts : List Token}
    (h : Scans line depth fresh cs ts) :
    (∀ t ∈ ts, line ≤ t.line) ∧ ts.Pairwise fun t u => t.line ≤ u.line := by
  induction h with
  | @done line depth fresh => cases fresh <;> simp
  | gap _ _ ih | folded _ _ _ ih =>
      exact ⟨fun t ht => Nat.le_trans (Nat.le_add_right _ _) (ih.1 t ht), ih.2⟩
  | newline _ _ ih | lexeme _ _ ih =>
      have hlater := fun t ht => Nat.le_trans (Nat.le_add_right _ _) (ih.1 t ht)
      exact ⟨List.forall_mem_cons.mpr ⟨Nat.le_refl _, hlater⟩, List.pairwise_cons.mpr ⟨hlater, ih.2⟩⟩

end Scan

/-! ## The tokens of a source text -/

/-- What holds of the tokens of every text that has tokens. -/
structure NormalForm (source : List Char) (ts : List Token) : Prop where
  lines : AreLines ts
  brackets : FoldsBrackets ts
  places : PlacedBehind [] source ts
  ordered : ts.Pairwise fun t u => t.line ≤ u.line
  fit : LinesFit source (ts.map Token.line)

theorem tokenize_normalForm {source : String} {ts : List Token} (h : tokenize source = .ok ts) :
    NormalForm source.toList ts := by
  have hscans := tokenize_eq_ok.mp h
  exact ⟨(tokenize_lined h).areLines, hscans.foldsBrackets, hscans.placed rfl, hscans.ordered.2, tokenize_linesFit h⟩

/-- A comment, a line that goes on in brackets, an empty line, a string over two lines and no newline at the end. -/
def foldedSource : String := "f(1, # a\n2)\n\n'a\\\nb' x"

def foldedTokens : List Token :=
  [⟨.name "f", 1⟩, ⟨.mark .openParen, 1⟩, ⟨.int 1, 1⟩, ⟨.mark .comma, 1⟩, ⟨.int 2, 2⟩, ⟨.mark .closeParen, 2⟩,
    ⟨.newline, 2⟩, ⟨.str "ab", 4⟩, ⟨.name "x", 5⟩, ⟨.newline, 5⟩, ⟨.endOfSource, 5⟩]

theorem tokenize_foldedSource : tokenize foldedSource = .ok foldedTokens := by cbv

theorem tokenize_normalForm_folded :
    tokenize foldedSource = .ok foldedTokens ∧ NormalForm foldedSource.toList foldedTokens :=
  ⟨tokenize_foldedSource, tokenize_normalForm tokenize_foldedSource⟩

end Launcher.Script
