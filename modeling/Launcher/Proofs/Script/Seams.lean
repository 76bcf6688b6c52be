import Launcher.Proofs.Script.Pieces

/-!
# Texts joined by a newline

No token but a string goes over a newline, and a string only behind a backslash. So a newline and more text behind a
text change nothing in how the text is scanned, and if all of its brackets are closed by then, the tokens of the text
behind follow as they would from its beginning, on later lines.
-/

namespace Launcher.Script

namespace Scan

/-! ## A newline and more text behind -/

section

variable {p : Char → Bool} (hp : p '\n' = false) (cs more : List Char)

include hp

theorem takeWhile_seam : (cs ++ '\n' :: more).takeWhile p = cs.takeWhile p := by
  induction cs with
  | nil => rw [List.nil_append, List.takeWhile_cons_of_neg (by rw [hp]; nofun)]; rfl
  | cons c cs ih => rw [List.cons_append, List.takeWhile_cons, List.takeWhile_cons, ih]

theorem dropWhile_seam : (cs ++ '\n' :: more).dropWhile p = cs.dropWhile p ++ '\n' :: more := by
  induction cs with
  | nil => rw [List.nil_append, List.dropWhile_cons_of_neg (by rw [hp]; nofun)]; rfl
  | cons c cs ih =>
      rw [List.cons_append, List.dropWhile_cons, List.dropWhile_cons, ih]
      split
      · rfl
      · rfl

end

section

variable (cs more : List Char)

theorem moreDigits_seam :
    moreDigits isDigit (cs ++ '\n' :: more) = (moreDigits isDigit cs).map id (· ++ '\n' :: more) := by
  have hnewline : isDigit '\n' = false := rfl
  have hunderscore : isDigit '_' = false := rfl
  fun_induction moreDigits isDigit cs with
  | case1 d cs hd ds rest hds ih => simp [moreDigits, hd, ih, hds]
  | case2 d cs hd => simp [moreDigits, hd]
  | case3 c cs hne hc ds rest hds ih =>
      have hc' : c ≠ '_' := by
        rintro rfl
        cases hc
      rw [List.cons_append, moreDigits]
      · simp [hc, ih, hds]
      · rintro _ _ rfl
        exact absurd rfl hc'
  | case4 c cs hne hc =>
      by_cases hc' : c = '_'
      · subst hc'
        cases cs with
        | nil => simp [moreDigits, hnewline]
        | cons d cs => exact (hne d cs rfl rfl).elim
      · rw [List.cons_append, moreDigits]
        · simp [hc]
        · rintro _ _ rfl
          exact absurd rfl hc'
  | case5 => simp [moreDigits, hnewline]

theorem digitGroups_seam :
    digitGroups isDigit (cs ++ '\n' :: more) = (digitGroups isDigit cs).map id (· ++ '\n' :: more) := by
  cases cs with
  | nil => rfl
  | cons c cs =>
      rw [List.cons_append, digitGroups, digitGroups]
      split
      · rw [moreDigits_seam]; rfl
      · rfl

/-- The digits of an exponent, behind its sign. -/
def exponentDigits (negative : Bool) (cs : List Char) : Option (Int × List Char) :=
  match cs.takeWhile isDigit with
  | [] => none
  | ds => some (if negative then -(Decimal.valueOf ds : Int) else Decimal.valueOf ds, cs.dropWhile isDigit)

theorem exponentDigits_seam (negative : Bool) :
    exponentDigits negative (cs ++ '\n' :: more) =
      (exponentDigits negative cs).map (Prod.map id (· ++ '\n' :: more)) := by
  rw [exponentDigits, exponentDigits, takeWhile_seam rfl, dropWhile_seam rfl]
  split
  · rfl
  · rfl

theorem exponent?_of_ne {c : Char} (hc : ¬(c == 'e' || c == 'E')) (r : List Char) : exponent? (c :: r) = none := by
  unfold exponent?
  dsimp only
  split
  case h_4 => rfl
  all_goals
    rename_i h
    rw [(List.cons.inj h).1] at hc
    rw [if_neg hc]

theorem exponent?_unsigned {c : Char} (hc : c == 'e' || c == 'E') {r : List Char} (hminus : r.head? ≠ some '-')
    (hplus : r.head? ≠ some '+') : exponent? (c :: r) = exponentDigits false r := by
  unfold exponent?
  dsimp only
  split
  · rename_i h
    rw [(List.cons.inj h).2] at hminus
    exact absurd rfl hminus
  · rename_i h
    rw [(List.cons.inj h).2] at hplus
    exact absurd rfl hplus
  · rename_i h
    obtain ⟨rfl, rfl⟩ := List.cons.inj h
    rw [if_pos hc]
    rfl
  · rename_i h
    cases h

theorem head?_seam {d : Char} (hd : '\n' ≠ d) (cs more : List Char) :
    (cs ++ '\n' :: more).head? = some d ↔ cs.head? = some d := by
  cases cs with
  | nil => simp [hd]
  | cons c cs => rfl

theorem exponent?_seam :
    exponent? (cs ++ '\n' :: more) = (exponent? cs).map (Prod.map id (· ++ '\n' :: more)) := by
  cases cs with
  | nil => exact exponent?_of_ne (by decide) more
  | cons c cs =>
      rw [List.cons_append]
      by_cases hc : c == 'e' || c == 'E'
      · by_cases hminus : cs.head? = some '-'
        · obtain ⟨cs, rfl⟩ := List.head?_eq_some_iff.mp hminus
          have hsigned : ∀ r, exponent? (c :: '-' :: r) = exponentDigits true r := fun r => if_pos hc
          rw [List.cons_append, hsigned, hsigned, exponentDigits_seam]
        by_cases hplus : cs.head? = some '+'
        · obtain ⟨cs, rfl⟩ := List.head?_eq_some_iff.mp hplus
          have hsigned : ∀ r, exponent? (c :: '+' :: r) = exponentDigits false r := fun r => if_pos hc
          rw [List.cons_append, hsigned, hsigned, exponentDigits_seam]
        have hminus' := mt (head?_seam (by decide) cs more).mp hminus
        have hplus' := mt (head?_seam (by decide) cs more).mp hplus
        rw [exponent?_unsigned hc hminus' hplus', exponent?_unsigned hc hminus hplus, exponentDigits_seam]
      · rw [exponent?_of_ne hc, exponent?_of_ne hc]
        rfl

theorem fraction_seam (digits : List Char) (places : Nat) :
    fraction digits places (cs ++ '\n' :: more) = (fraction digits places cs).map id (· ++ '\n' :: more) := by
  rw [fraction, fraction, exponent?_seam]
  cases exponent? cs with
  | none => rfl
  | some r => rfl

theorem number_of_point {whole after : List Char} (h : digitGroups isDigit cs = (whole, '.' :: after)) :
    number cs = .ok (fraction (whole ++ (digitGroups isDigit after).1) (digitGroups isDigit after).1.length
      (digitGroups isDigit after).2) := by
  rw [number, h]
  rfl

theorem number_of_whole {whole rest : List Char} (h : digitGroups isDigit cs = (whole, rest))
    (hrest : rest.head? ≠ some '.') :
    number cs =
      match exponent? rest with
      | some (e, rest) => .ok (float whole 0 e, rest)
      | none =>
        if Decimal.valueOf whole < 1 <<< 63 then .ok (.int (Decimal.valueOf whole), rest)
        else .error .integerTooLarge := by
  rw [number, h]
  dsimp only
  split
  · exact absurd rfl hrest
  · rfl

theorem number_seam : number (cs ++ '\n' :: more) = (number cs).map (Prod.map id (· ++ '\n' :: more)) := by
  obtain ⟨whole, rest, hwhole⟩ : ∃ whole rest, digitGroups isDigit cs = (whole, rest) := ⟨_, _, rfl⟩
  have hseam : digitGroups isDigit (cs ++ '\n' :: more) = (whole, rest ++ '\n' :: more) := by
    rw [digitGroups_seam, hwhole]
    rfl
  by_cases hpoint : rest.head? = some '.'
  · obtain ⟨after, rfl⟩ := List.head?_eq_some_iff.mp hpoint
    rw [List.cons_append] at hseam
    rw [number_of_point cs hwhole, number_of_point _ hseam, digitGroups_seam]
    exact congrArg Except.ok (fraction_seam ..)
  · have hpoint' := mt (head?_seam (by decide) rest more).mp hpoint
    rw [number_of_whole cs hwhole hpoint, number_of_whole _ hseam hpoint', exponent?_seam]
    cases exponent? rest with
    | some r => rfl
    | none =>
        dsimp only [Option.map_none]
        by_cases hsmall : Decimal.valueOf whole < 1 <<< 63
        · rw [if_pos hsmall, if_pos hsmall]
          rfl
        · rw [if_neg hsmall, if_neg hsmall]
          rfl

end

theorem stringBody_seam {quote : Char} (hquote : quote ≠ '\\') {cs value rest : List Char} {crossed : Nat}
    (h : stringBody quote cs = some (value, crossed, rest)) (more : List Char) :
    stringBody quote (cs ++ '\n' :: more) = some (value, crossed, rest ++ '\n' :: more) := by
  fun_induction stringBody quote cs generalizing value crossed rest with
  | case1 => cases h
  | case2 c cs ih =>
      simp only [Option.bind_eq_bind, Option.bind_eq_some_iff, Option.some.injEq, Prod.mk.injEq] at h
      obtain ⟨⟨value', crossed', rest'⟩, hbody, rfl, rfl, rfl⟩ := h
      rw [List.cons_append, List.cons_append, stringBody, ih hbody]
      rfl
  | case3 cs =>
      cases h
      rw [List.cons_append, stringBody, if_pos rfl]
      exact fun _ _ heq _ => hquote heq
  | case4 => cases h
  | case5 c cs _ hne hc ih =>
      simp only [Option.bind_eq_bind, Option.bind_eq_some_iff] at h
      obtain ⟨⟨value', crossed', rest'⟩, hbody, h⟩ := h
      cases h
      rw [List.cons_append, stringBody, if_neg hne, if_neg hc, ih hbody]
      · rfl
      · exact fun _ _ heq _ => hc (.inr heq)

theorem ne_cons_seam {d : Char} (hd : '\n' ≠ d) {cs : List Char} (h : ∀ r, cs = d :: r → False) (more : List Char) :
    ∀ r, cs ++ '\n' :: more = d :: r → False := by
  intro r heq
  obtain ⟨r', hr'⟩ := List.head?_eq_some_iff.mp ((head?_seam hd cs more).mp (congrArg List.head? heq))
  exact h r' hr'

theorem mark?_seam {cs rest : List Char} {m : Mark} (h : mark? cs = some (m, rest)) (more : List Char) :
    mark? (cs ++ '\n' :: more) = some (m, rest ++ '\n' :: more) := by
  unfold mark? at h
  split at h <;> cases h
  all_goals first
    | rfl
    | rw [List.cons_append, mark?]
      exact ne_cons_seam (by decide) ‹_› more

/-- A piece at the front of a text is there as well when a newline and more text are behind. -/
theorem piece_seam {c : Char} {cs rest : List Char} {p : Piece} {crossed : Nat}
    (h : piece c cs = .ok (p, crossed, rest)) (more : List Char) :
    piece c (cs ++ '\n' :: more) = .ok (p, crossed, rest ++ '\n' :: more) := by
  have hpoint : (cs ++ '\n' :: more).head?.any isDigit = cs.head?.any isDigit := by cases cs <;> rfl
  rw [piece_eq_ok] at h ⊢
  cases h with
  | blank hc => exact .blank hc
  | comment hc =>
      have hcomment := @PieceAt.comment c (cs ++ '\n' :: more) hc
      rwa [dropWhile_seam rfl] at hcomment
  | newline hc => exact .newline hc
  | joined hc hcs => exact .joined hc (hcs.imp (congrArg (· ++ _)) (congrArg (· ++ _)))
  | word hc =>
      have hword := @PieceAt.word c (cs ++ '\n' :: more) hc
      rwa [takeWhile_seam rfl, dropWhile_seam rfl] at hword
  | number hc hnumber =>
      refine .number hc ?_
      rw [← List.cons_append, number_seam, hnumber]
      rfl
  | point hc hdigit hfraction =>
      refine .point hc (hpoint.trans hdigit) ?_
      rw [takeWhile_seam rfl, dropWhile_seam rfl, fraction_seam, hfraction]
      rfl
  | string hc hbody =>
      exact .string hc (stringBody_seam (by rcases hc with rfl | rfl <;> decide) hbody more)
  | mark hother hmark => exact .mark (by rwa [hpoint]) (mark?_seam hmark more)

end Scan

/-! ## Tokens of a text -/

/-- The token on another line. -/
def Token.mapLine (f : Nat → Nat) (t : Token) : Token := { t with line := f t.line }

namespace Scan

/-- The tokens of a text that is further down. -/
theorem Scans.later {line depth : Nat} {fresh : Bool} {cs : List Char} {ts : List Token} (k : Nat)
    (h : Scans line depth fresh cs ts) : Scans (line + k) depth fresh cs (ts.map (Token.mapLine (· + k))) := by
  induction h with
  | @done line depth fresh =>
      cases fresh
      · exact .done
      · exact .done
  | gap hp _ ih => exact .gap hp (Nat.add_right_comm .. ▸ ih)
  | newline hp _ ih => exact .newline hp (Nat.add_right_comm .. ▸ ih)
  | folded hp hn _ ih => exact .folded hp hn (Nat.add_right_comm .. ▸ ih)
  | lexeme hp _ ih => exact .lexeme hp (Nat.add_right_comm .. ▸ ih)

/-- How many brackets are open after tokens. -/
def bracketsAfter (depth : Nat) (ts : List Token) : Nat := ts.foldl (fun d t => depthAfter d t.lexeme) depth

theorem bracketsAfter_append (depth : Nat) (ts us : List Token) :
    bracketsAfter depth (ts ++ us) = bracketsAfter (bracketsAfter depth ts) us :=
  List.foldl_append

theorem bracketsAfter_cons (depth : Nat) (t : Token) (ts : List Token) :
    bracketsAfter depth (t :: ts) = bracketsAfter (depthAfter depth t.lexeme) ts := rfl

theorem bracketsAfter_concat (depth : Nat) (ts : List Token) (t : Token) :
    bracketsAfter depth (ts ++ [t]) = depthAfter (bracketsAfter depth ts) t.lexeme :=
  bracketsAfter_append depth ts [t]

/-- The line below the last line of a text, counted from a piece on. -/
theorem lineBelow {c : Char} {cs rest : List Char} {p : Piece} {crossed : Nat}
    (h : piece c cs = .ok (p, crossed, rest)) (line : Nat) :
    line + ((c :: cs).count '\n' + 1) = line + crossed + (rest.count '\n' + 1) := by
  rw [(piece_passes h).2]
  omega

theorem Scans.ne_nil {line depth : Nat} {fresh : Bool} {cs : List Char} {ts : List Token}
    (h : Scans line depth fresh cs ts) : ts ≠ [] := by
  induction h with
  | done => simp
  | newline | lexeme => simp
  | gap _ _ ih | folded _ _ _ ih => exact ih

/-- If all brackets are closed at the end of a text, then a newline and another text are scanned behind it as if the
other text were on its own, apart from the lines. -/
theorem Scans.join {line depth : Nat} {fresh : Bool} {cs more : List Char} {ts us : List Token}
    (h : Scans line depth fresh cs ts) (hclosed : bracketsAfter depth ts = 0)
    (hmore : Scans (line + (cs.count '\n' + 1)) 0 true more us) :
    Scans line depth fresh (cs ++ '\n' :: more) (ts.dropLast ++ us) := by
  have hnewline : ∀ cs, piece '\n' cs = .ok (.newline, 1, cs) := fun cs => rfl
  induction h with
  | @done line depth fresh =>
      obtain rfl : depth = 0 := by cases fresh <;> exact hclosed
      cases fresh with
      | true => exact .folded (hnewline more) (by simp) hmore
      | false => exact .newline (hnewline more) hmore
  | @gap line _ _ _ _ _ _ _ hp _ ih => exact .gap (piece_seam hp more) (ih hclosed (lineBelow hp line ▸ hmore))
  | @newline line _ _ _ _ _ hp hts ih =>
      rw [List.dropLast_cons_of_ne_nil hts.ne_nil]
      exact .newline (piece_seam hp more) (ih hclosed (lineBelow hp line ▸ hmore))
  | @folded line _ _ _ _ _ _ _ hp hn _ ih =>
      exact .folded (piece_seam hp more) hn (ih hclosed (lineBelow hp line ▸ hmore))
  | @lexeme line _ _ _ _ _ _ _ _ hp hts ih =>
      rw [List.dropLast_cons_of_ne_nil hts.ne_nil]
      exact .lexeme (piece_seam hp more) (ih hclosed (lineBelow hp line ▸ hmore))

end Scan

/-- The tokens of two texts with a newline between them. -/
theorem tokenize_join {s t : String} {ts us : List Token} (hs : tokenize s = .ok ts)
    (hclosed : Scan.bracketsAfter 0 ts = 0) (ht : tokenize t = .ok us) :
    tokenize (s ++ "\n" ++ t) = .ok (ts.dropLast ++ us.map (Token.mapLine (· + (s.toList.count '\n' + 1)))) := by
  have hfirst := tokenize_eq_ok.mp hs
  have hsecond := (tokenize_eq_ok.mp ht).later (s.toList.count '\n' + 1)
  have hlist : (s ++ "\n" ++ t).toList = s.toList ++ '\n' :: t.toList := by simp
  rw [tokenize_eq_ok, hlist]
  exact hfirst.join hclosed hsecond

end Launcher.Script
