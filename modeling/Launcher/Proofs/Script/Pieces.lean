import Launcher.Proofs.Action
import Launcher.Script.Token.Scan

/-!
# The pieces of a text

What stands at the front of a text is told by its first character, but for a point, which belongs to a number if a
digit is behind it and is a mark else. A piece takes that character off at least, so the tokens of a text come of its
pieces one after the other, in any number of steps that its length allows.
-/

namespace Launcher.Script

namespace Scan

/-! ## First characters -/

/-- A character of a kind is no blank, and begins no comment and no joined line, if those characters are not of it. -/
theorem piece_of_kind {p : Char → Bool} {c : Char} (hc : p c)
    (hp : [' ', '\t', '\r', '\x0c', '#', '\n', '\\'].all (!p ·) = true) :
    isGap c = false ∧ c ≠ '#' ∧ c ≠ '\n' ∧ c ≠ '\\' := by
  have hne : ∀ d ∈ [' ', '\t', '\r', '\x0c', '#', '\n', '\\'], c ≠ d := by
    rintro d hd rfl
    have hnot : (!p c) = true := List.all_eq_true.mp hp c hd
    rw [hc] at hnot
    cases hnot
  simp only [List.forall_mem_cons] at hne
  obtain ⟨h₁, h₂, h₃, h₄, hcomment, hnewline, hbackslash, _⟩ := hne
  exact ⟨by simp [isGap, h₁, h₂, h₃, h₄], hcomment, hnewline, hbackslash⟩

theorem not_isNameStart_of_isDigit {c : Char} (h : isDigit c) : isNameStart c = false := by
  have hc : 48 ≤ c.toNat ∧ c.toNat ≤ 57 := by
    simpa [isDigit, Char.le_def, UInt32.le_iff_toNat_le] using h
  have hunderscore : c ≠ '_' := by
    rintro rfl
    cases h
  simp [isNameStart, Char.le_def, UInt32.le_iff_toNat_le, hunderscore]
  omega

/-- A character that begins a mark. -/
def isMarkStart (c : Char) : Bool :=
  ['+', '-', '*', '/', '%', ',', '.', '=', '!', '<', '>', ';', '(', '[', ')', ']'].contains c

/-- A mark is one such character or two. -/
theorem mark?_front {c : Char} {cs rest : List Char} {m : Mark} (h : mark? (c :: cs) = some (m, rest)) :
    isMarkStart c = true ∧ (cs = rest ∨ ∃ d, isMarkStart d = true ∧ cs = d :: rest) := by
  generalize hcs : c :: cs = ds at h
  unfold mark? at h
  split at h <;> cases h <;> cases hcs
  all_goals first
    | exact ⟨rfl, .inl rfl⟩
    | exact ⟨rfl, .inr ⟨_, rfl, rfl⟩⟩

/-- A character that begins a mark begins neither a word nor a number nor a string. -/
theorem not_others_of_isMarkStart {c : Char} (h : isMarkStart c = true) :
    isNameStart c = false ∧ isDigit c = false ∧ ¬(c = '"' ∨ c = '\'') := by
  have hall : ['+', '-', '*', '/', '%', ',', '.', '=', '!', '<', '>', ';', '(', '[', ')', ']'].all
      (fun d => !isNameStart d && !isDigit d && d != '"' && d != '\'') = true := by decide
  have hc := List.all_eq_true.mp hall c (List.contains_iff_mem.mp h)
  simp only [Bool.and_eq_true, Bool.not_eq_true', bne_iff_ne] at hc
  obtain ⟨⟨⟨hname, hdigit⟩, hdouble⟩, hsingle⟩ := hc
  exact ⟨hname, hdigit, not_or.mpr ⟨hdouble, hsingle⟩⟩

/-! ## Pieces -/

/-- The piece at the front of the text `c :: cs`, the newlines inside it, and what follows it. -/
inductive PieceAt (c : Char) (cs : List Char) : Piece → Nat → List Char → Prop where
  | blank : isGap c = true → PieceAt c cs .gap 0 cs
  | comment : c = '#' → PieceAt c cs .gap 0 (cs.dropWhile (· ≠ '\n'))
  | newline : c = '\n' → PieceAt c cs .newline 1 cs
  | joined {rest : List Char} : c = '\\' → cs = '\n' :: rest ∨ cs = '\r' :: '\n' :: rest → PieceAt c cs .gap 1 rest
  | word : isNameStart c = true →
      PieceAt c cs (.lexeme (.name (String.ofList (c :: cs.takeWhile isNamePart)))) 0 (cs.dropWhile isNamePart)
  | number {l : Lexeme} {rest : List Char} : isDigit c = true → number (c :: cs) = .ok (l, rest) →
      PieceAt c cs (.lexeme l) 0 rest
  | point {l : Lexeme} {rest : List Char} : c = '.' → cs.head?.any isDigit = true →
      fraction (cs.takeWhile isDigit) (cs.takeWhile isDigit).length (cs.dropWhile isDigit) = (l, rest) →
      PieceAt c cs (.lexeme l) 0 rest
  | string {value rest : List Char} {crossed : Nat} : c = '"' ∨ c = '\'' →
      stringBody c cs = some (value, crossed, rest) →
      PieceAt c cs (.lexeme (.str (String.ofList value))) crossed rest
  | mark {m : Mark} {rest : List Char} : ¬(c = '.' ∧ cs.head?.any isDigit = true) →
      mark? (c :: cs) = some (m, rest) → PieceAt c cs (.lexeme (.mark m)) 0 rest

theorem piece_eq_ok {c : Char} {cs rest : List Char} {p : Piece} {crossed : Nat} :
    piece c cs = .ok (p, crossed, rest) ↔ PieceAt c cs p crossed rest := by
  constructor
  · intro h
    unfold piece at h
    split at h
    · cases h
      exact .blank ‹_›
    split at h
    · cases h
      exact .comment ‹_›
    split at h
    · cases h
      exact .newline ‹_›
    split at h
    · split at h <;> cases h
      · exact .joined ‹_› (.inl rfl)
      · exact .joined ‹_› (.inr rfl)
    split at h
    · cases h
      exact .word ‹_›
    split at h
    · cases hnumber : number (c :: cs) with
      | error e =>
          rw [hnumber] at h
          cases h
      | ok r =>
          rw [hnumber] at h
          cases h
          exact .number ‹_› hnumber
    split at h
    · rename_i hpoint
      cases h
      exact .point hpoint.1 hpoint.2 rfl
    split at h
    · split at h
      · cases h
        exact .string ‹_› ‹_›
      · cases h
    · split at h
      · cases h
        exact .mark ‹_› ‹_›
      · cases h
  · intro h
    cases h with
    | blank hc =>
        simp only [piece, hc]
        rfl
    | comment hc =>
        subst hc
        rfl
    | newline hc =>
        subst hc
        rfl
    | joined hc hcs =>
        subst hc
        rcases hcs with rfl | rfl <;> rfl
    | word hc =>
        obtain ⟨hgap, hcomment, hnewline, hbackslash⟩ := piece_of_kind hc (by decide)
        simp only [piece, hgap, hcomment, hnewline, hbackslash, hc]
        rfl
    | number hc hnumber =>
        obtain ⟨hgap, hcomment, hnewline, hbackslash⟩ := piece_of_kind hc (by decide)
        simp only [piece, hgap, hcomment, hnewline, hbackslash, not_isNameStart_of_isDigit hc, hc, hnumber]
        rfl
    | point hc hdigit hfraction =>
        subst hc
        have hgap : isGap '.' = false := rfl
        have hname : isNameStart '.' = false := rfl
        have hnumber : isDigit '.' = false := rfl
        simp [piece, hgap, hname, hnumber, hdigit, hfraction]
    | string hc hbody =>
        have hgap : isGap c = false := by rcases hc with rfl | rfl <;> rfl
        have hname : isNameStart c = false := by rcases hc with rfl | rfl <;> rfl
        have hnumber : isDigit c = false := by rcases hc with rfl | rfl <;> rfl
        have hne : c ≠ '#' ∧ c ≠ '\n' ∧ c ≠ '\\' ∧ c ≠ '.' := by rcases hc with rfl | rfl <;> decide
        simp [piece, hgap, hname, hnumber, hne, hc, hbody]
    | mark hpoint hmark =>
        have hc := (mark?_front hmark).1
        obtain ⟨hgap, hcomment, hnewline, hbackslash⟩ := piece_of_kind hc (by decide)
        obtain ⟨hname, hnumber, hquote⟩ := not_others_of_isMarkStart hc
        simp [piece, hgap, hcomment, hnewline, hbackslash, hname, hnumber, hpoint, hquote, hmark]

/-! ## What is passed over -/

/-- `rest` is what remains of `cs` after `crossed` newlines and other characters. -/
structure Passes (cs : List Char) (crossed : Nat) (rest : List Char) : Prop where
  suffix : rest <:+ cs
  count : cs.count '\n' = crossed + rest.count '\n'

namespace Passes

variable {cs mid rest : List Char} {k l : Nat}

theorem refl (cs : List Char) : Passes cs 0 cs := ⟨List.suffix_refl cs, (Nat.zero_add _).symm⟩

theorem cons {c : Char} (hc : c ≠ '\n') (h : Passes cs k rest) : Passes (c :: cs) k rest :=
  ⟨h.suffix.trans (List.suffix_cons c cs), by rw [List.count_cons_of_ne hc, h.count]⟩

theorem newline (h : Passes cs k rest) : Passes ('\n' :: cs) (k + 1) rest :=
  ⟨h.suffix.trans (List.suffix_cons _ cs), by rw [List.count_cons_self, h.count]; omega⟩

theorem trans (h : Passes cs k mid) (h' : Passes mid l rest) : Passes cs (k + l) rest :=
  ⟨h'.suffix.trans h.suffix, by rw [h.count, h'.count]; omega⟩

theorem behind {c : Char} (hc : c ≠ '\n') (h : Passes cs k rest) :
    rest <:+ cs ∧ (c :: cs).count '\n' = k + rest.count '\n' :=
  ⟨h.suffix, (h.cons hc).count⟩

end Passes

section

variable {p : Char → Bool}

theorem ne_newline (hp : p '\n' = false) {c : Char} (hc : p c) : c ≠ '\n' := by
  rintro rfl
  rw [hp] at hc
  cases hc

theorem passes_dropWhile (hp : p '\n' = false) (cs : List Char) : Passes cs 0 (cs.dropWhile p) := by
  induction cs with
  | nil => exact .refl []
  | cons c cs ih =>
      rw [List.dropWhile_cons]
      split
      · exact ih.cons (ne_newline hp ‹_›)
      · exact .refl _

theorem passes_moreDigits (hp : p '\n' = false) (cs : List Char) : Passes cs 0 (moreDigits p cs).2 := by
  fun_induction moreDigits p cs with
  | case1 d cs hd ds rest hds ih =>
      rw [hds] at ih
      exact .cons (by decide) (ih.cons (ne_newline hp hd))
  | case3 c cs _ hc ds rest hds ih =>
      rw [hds] at ih
      exact ih.cons (ne_newline hp hc)
  | case2 | case4 | case5 => exact .refl _

theorem passes_digitGroups (hp : p '\n' = false) (cs : List Char) : Passes cs 0 (digitGroups p cs).2 := by
  cases cs with
  | nil => exact .refl []
  | cons c cs =>
      rw [digitGroups]
      split
      · exact (passes_moreDigits hp cs).cons (ne_newline hp ‹_›)
      · exact .refl _

end

theorem exponent?_passes {cs rest : List Char} {e : Int} (h : exponent? cs = some (e, rest)) : Passes cs 0 rest := by
  have hletter : ∀ c : Char, (c == 'e' || c == 'E') = true → c ≠ '\n' := by
    rintro _ hc rfl
    cases hc
  unfold exponent? at h
  dsimp only at h
  split at h
  case h_4 => cases h
  all_goals
    rw [Option.ite_none_right_eq_some] at h
    obtain ⟨hc, h⟩ := h
    refine .cons (hletter _ hc) ?_
    split at h
    · cases h
    · cases h
      first
        | exact .cons (by decide) (passes_dropWhile rfl _)
        | exact passes_dropWhile rfl _

theorem passes_fraction (digits : List Char) (places : Nat) (cs : List Char) :
    Passes cs 0 (fraction digits places cs).2 := by
  unfold fraction
  split
  · exact exponent?_passes ‹_›
  · exact .refl cs

theorem number_passes {c : Char} {cs rest : List Char} {l : Lexeme} (hc : isDigit c)
    (h : number (c :: cs) = .ok (l, rest)) : Passes cs 0 rest := by
  have hwhole := passes_moreDigits (p := isDigit) rfl cs
  have hgroups : digitGroups isDigit (c :: cs) = (c :: (moreDigits isDigit cs).1, (moreDigits isDigit cs).2) := by
    rw [digitGroups, if_pos hc]
  rw [number, hgroups] at h
  dsimp only at h
  split at h
  · rename_i after hafter
    rw [hafter] at hwhole
    have hplaces := passes_digitGroups (p := isDigit) rfl after
    have hfraction := passes_fraction (c :: (moreDigits isDigit cs).1 ++ (digitGroups isDigit after).1)
      (digitGroups isDigit after).1.length (digitGroups isDigit after).2
    rw [Except.ok.inj h] at hfraction
    exact hwhole.trans (.cons (by decide) (hplaces.trans hfraction))
  · split at h
    · cases h
      exact hwhole.trans (exponent?_passes ‹_›)
    · split at h
      · cases h
        exact hwhole
      · cases h

theorem stringBody_passes {quote : Char} (hquote : quote ≠ '\n') {cs value rest : List Char} {crossed : Nat}
    (h : stringBody quote cs = some (value, crossed, rest)) : Passes cs crossed rest := by
  fun_induction stringBody quote cs generalizing value crossed rest with
  | case1 => cases h
  | case2 c cs ih =>
      simp only [Option.bind_eq_bind, Option.bind_eq_some_iff, Option.some.injEq, Prod.mk.injEq] at h
      obtain ⟨⟨value', crossed', rest'⟩, hbody, rfl, rfl, rfl⟩ := h
      have hpasses := ih hbody
      dsimp only
      split
      · rename_i hc
        subst hc
        exact .cons (by decide) hpasses.newline
      · exact .cons (by decide) (hpasses.cons ‹_›)
  | case3 cs =>
      cases h
      exact .cons hquote (.refl _)
  | case4 => cases h
  | case5 c cs _ _ hc ih =>
      simp only [Option.bind_eq_bind, Option.bind_eq_some_iff] at h
      obtain ⟨⟨value', crossed', rest'⟩, hbody, h⟩ := h
      cases h
      exact (ih hbody).cons fun heq => hc (.inl heq)

theorem mark?_passes {c : Char} {cs rest : List Char} {m : Mark} (h : mark? (c :: cs) = some (m, rest)) :
    Passes cs 0 rest := by
  obtain ⟨-, rfl | ⟨d, hd, rfl⟩⟩ := mark?_front h
  · exact .refl _
  · exact .cons (ne_newline (p := isMarkStart) rfl hd) (.refl _)

/-- A piece takes a character off the text at least, and the newlines in it are those of what it takes off. -/
theorem piece_passes {c : Char} {cs rest : List Char} {p : Piece} {crossed : Nat}
    (h : piece c cs = .ok (p, crossed, rest)) :
    rest <:+ cs ∧ (c :: cs).count '\n' = crossed + rest.count '\n' := by
  cases piece_eq_ok.mp h with
  | blank hc => exact (Passes.refl _).behind (ne_newline (p := isGap) rfl hc)
  | comment hc =>
      subst hc
      exact (passes_dropWhile rfl _).behind (by decide)
  | newline hc =>
      subst hc
      exact ⟨List.suffix_refl _, (Passes.refl _).newline.count⟩
  | joined hc hcs =>
      subst hc
      rcases hcs with rfl | rfl
      · exact (Passes.refl _).newline.behind (by decide)
      · exact ((Passes.refl _).newline.cons (by decide)).behind (by decide)
  | word hc => exact (passes_dropWhile rfl _).behind (ne_newline (p := isNameStart) rfl hc)
  | number hc hnumber => exact (number_passes hc hnumber).behind (ne_newline (p := isDigit) rfl hc)
  | point hc _ hfraction =>
      subst hc
      have hpasses := passes_fraction (cs.takeWhile isDigit) (cs.takeWhile isDigit).length (cs.dropWhile isDigit)
      rw [hfraction] at hpasses
      exact ((passes_dropWhile rfl cs).trans hpasses).behind (by decide)
  | string hc hbody =>
      have hquote : c ≠ '\n' := by rcases hc with rfl | rfl <;> decide
      exact (stringBody_passes hquote hbody).behind hquote
  | mark _ hmark => exact (mark?_passes hmark).behind (ne_newline (p := isMarkStart) rfl (mark?_front hmark).1)

/-! ## Tokens -/

/-- The tokens `ts` are those of the text `cs` from line `line` on, with `depth` brackets open and, if `fresh`, no
token on that line yet. -/
inductive Scans : (line depth : Nat) → (fresh : Bool) → List Char → List Token → Prop where
  | done {line depth : Nat} {fresh : Bool} :
      Scans line depth fresh [] ((if fresh then [] else [⟨.newline, line⟩]) ++ [⟨.endOfSource, line⟩])
  | gap {line depth crossed : Nat} {fresh : Bool} {c : Char} {cs rest : List Char} {ts : List Token} :
      piece c cs = .ok (.gap, crossed, rest) → Scans (line + crossed) depth fresh rest ts →
      Scans line depth fresh (c :: cs) ts
  | newline {line crossed : Nat} {c : Char} {cs rest : List Char} {ts : List Token} :
      piece c cs = .ok (.newline, crossed, rest) → Scans (line + crossed) 0 true rest ts →
      Scans line 0 false (c :: cs) (⟨.newline, line⟩ :: ts)
  | folded {line depth crossed : Nat} {fresh : Bool} {c : Char} {cs rest : List Char} {ts : List Token} :
      piece c cs = .ok (.newline, crossed, rest) → ¬(depth = 0 ∧ !fresh) →
      Scans (line + crossed) depth fresh rest ts → Scans line depth fresh (c :: cs) ts
  | lexeme {line depth crossed : Nat} {fresh : Bool} {c : Char} {cs rest : List Char} {l : Lexeme} {ts : List Token} :
      piece c cs = .ok (.lexeme l, crossed, rest) → Scans (line + crossed) (depthAfter depth l) false rest ts →
      Scans line depth fresh (c :: cs) (⟨l, line⟩ :: ts)

theorem piece_length_le {c : Char} {cs rest : List Char} {p : Piece} {crossed steps : Nat}
    (h : piece c cs = .ok (p, crossed, rest)) (hsteps : (c :: cs).length ≤ steps + 1) : rest.length ≤ steps :=
  Nat.le_trans (piece_passes h).1.length_le (Nat.le_of_succ_le_succ hsteps)

theorem scans_of_tokens {line depth steps : Nat} {fresh : Bool} {cs : List Char} {ts : List Token}
    (hsteps : cs.length ≤ steps) (h : tokens line depth fresh steps cs = .ok ts) :
    Scans line depth fresh cs ts := by
  induction steps generalizing line depth fresh cs ts with
  | zero =>
      obtain rfl := List.length_eq_zero_iff.mp (Nat.le_zero.mp hsteps)
      cases h
      exact .done
  | succ steps ih =>
      cases cs with
      | nil =>
          cases h
          exact .done
      | cons c cs =>
          rw [tokens] at h
          split at h
          · cases h
          · rename_i hp
            exact .gap hp (ih (piece_length_le hp hsteps) h)
          · rename_i hp
            split at h
            · rename_i hends
              obtain ⟨rfl, hfresh⟩ := hends
              obtain rfl : fresh = false := by simpa using hfresh
              obtain ⟨ts', hts, h⟩ := except_bind_eq_ok.mp h
              cases h
              exact .newline hp (ih (piece_length_le hp hsteps) hts)
            · exact .folded hp ‹_› (ih (piece_length_le hp hsteps) h)
          · rename_i hp
            obtain ⟨ts', hts, h⟩ := except_bind_eq_ok.mp h
            cases h
            exact .lexeme hp (ih (piece_length_le hp hsteps) hts)

theorem Scans.tokens {line depth : Nat} {fresh : Bool} {cs : List Char} {ts : List Token}
    (h : Scans line depth fresh cs ts) {steps : Nat} (hsteps : cs.length ≤ steps) :
    tokens line depth fresh steps cs = .ok ts := by
  induction h generalizing steps with
  | done => cases steps <;> rfl
  | gap hp _ ih =>
      obtain ⟨steps, rfl⟩ := Nat.exists_eq_succ_of_ne_zero (Nat.ne_zero_of_lt hsteps)
      rw [Scan.tokens, hp]
      exact ih (piece_length_le hp hsteps)
  | newline hp _ ih =>
      obtain ⟨steps, rfl⟩ := Nat.exists_eq_succ_of_ne_zero (Nat.ne_zero_of_lt hsteps)
      rw [Scan.tokens, hp]
      dsimp only
      rw [if_pos ⟨rfl, rfl⟩, ih (piece_length_le hp hsteps)]
      rfl
  | folded hp hn _ ih =>
      obtain ⟨steps, rfl⟩ := Nat.exists_eq_succ_of_ne_zero (Nat.ne_zero_of_lt hsteps)
      rw [Scan.tokens, hp]
      dsimp only
      rw [if_neg hn]
      exact ih (piece_length_le hp hsteps)
  | lexeme hp _ ih =>
      obtain ⟨steps, rfl⟩ := Nat.exists_eq_succ_of_ne_zero (Nat.ne_zero_of_lt hsteps)
      rw [Scan.tokens, hp]
      dsimp only
      rw [ih (piece_length_le hp hsteps)]
      rfl

end Scan

theorem tokenize_eq_ok {source : String} {ts : List Token} :
    tokenize source = .ok ts ↔ Scan.Scans 1 0 true source.toList ts :=
  ⟨Scan.scans_of_tokens (Nat.le_refl _), fun h => h.tokens (Nat.le_refl _)⟩

end Launcher.Script
