import Launcher.Proofs.Number.Digits
import Launcher.Proofs.Script.Grammar
import Launcher.Proofs.Script.Pieces
import Launcher.Script.Value
import Mathlib.Algebra.Group.Nat.Defs

/-!
# Texts that are scanned as one lexeme

Words, digits and quoted strings are scanned as what they were written for, whatever follows, as long as what follows
does not go on with them.
-/

namespace Launcher.Script.Scan

/-- A text in front of which a word and a number are at their end. -/
def Ends (rest : List Char) : Prop := ∀ c ∈ rest.head?, c = ',' ∨ c = ']'

theorem ends_nil : Ends [] := nofun

theorem ends_comma (rest : List Char) : Ends (',' :: rest) := by simp [Ends]

theorem ends_bracket (rest : List Char) : Ends (']' :: rest) := by simp [Ends]

/-- Lexemes as tokens of one line. -/
def onLine (line : Nat) (ls : List Lexeme) : List Token := ls.map fun l => ⟨l, line⟩

@[simp] theorem onLine_nil (line : Nat) : onLine line [] = [] := rfl

@[simp] theorem onLine_cons (line : Nat) (l : Lexeme) (ls : List Lexeme) :
    onLine line (l :: ls) = ⟨l, line⟩ :: onLine line ls := rfl

@[simp] theorem onLine_append (line : Nat) (ls ms : List Lexeme) :
    onLine line (ls ++ ms) = onLine line ls ++ onLine line ms := List.map_append

theorem tokens_nil (line depth : Nat) (fresh : Bool) (steps : Nat) :
    tokens line depth fresh steps [] =
      .ok ((if fresh then [] else [⟨.newline, line⟩]) ++ [⟨.endOfSource, line⟩]) := by
  cases steps <;> rfl

theorem tokens_lexeme {c : Char} {cs rest : List Char} {l : Lexeme} (h : piece c cs = .ok (.lexeme l, 0, rest))
    (line depth : Nat) (fresh : Bool) (steps : Nat) :
    tokens line depth fresh (steps + 1) (c :: cs) =
      (tokens line (depthAfter depth l) false steps rest).map (⟨l, line⟩ :: ·) := by
  rw [tokens, h]
  simp only [Nat.add_zero]
  cases tokens line (depthAfter depth l) false steps rest <;> rfl

theorem tokens_gap {c : Char} {cs rest : List Char} (h : piece c cs = .ok (.gap, 0, rest))
    (line depth : Nat) (fresh : Bool) (steps : Nat) :
    tokens line depth fresh (steps + 1) (c :: cs) = tokens line depth fresh steps rest := by
  rw [tokens, h]
  rfl

/-! ## Runs of characters of one kind -/

theorem takeWhile_ends {p : Char → Bool} {cs rest : List Char} (hcs : ∀ c ∈ cs, p c) (hcomma : p ',' = false)
    (hbracket : p ']' = false) (hrest : Ends rest) :
    (cs ++ rest).takeWhile p = cs ∧ (cs ++ rest).dropWhile p = rest := by
  rw [List.takeWhile_append_of_pos hcs, List.dropWhile_append_of_pos hcs]
  cases rest with
  | nil => exact ⟨List.append_nil cs, rfl⟩
  | cons c rest =>
      rcases hrest c rfl with rfl | rfl
      · simp [hcomma]
      · simp [hbracket]

/-- A word is scanned as a name. -/
theorem piece_word {c : Char} {cs rest : List Char} (hc : isNameStart c) (hcs : ∀ d ∈ cs, isNamePart d)
    (hrest : Ends rest) : piece c (cs ++ rest) = .ok (.lexeme (.name (String.ofList (c :: cs))), 0, rest) := by
  obtain ⟨htake, hdrop⟩ := takeWhile_ends hcs rfl rfl hrest
  have hword := piece_eq_ok.mpr (@PieceAt.word c (cs ++ rest) hc)
  rwa [htake, hdrop] at hword

/-! ## Numbers -/

theorem moreDigits_ends {ds rest : List Char} (hds : ∀ c ∈ ds, isDigit c) (hrest : Ends rest) :
    moreDigits isDigit (ds ++ rest) = (ds, rest) := by
  induction ds with
  | nil =>
      cases rest with
      | nil => rfl
      | cons c rest =>
          rcases hrest c rfl with rfl | rfl
          · rfl
          · rfl
  | cons d ds ih =>
      obtain ⟨hd, hds⟩ := List.forall_mem_cons.mp hds
      have hne : d ≠ '_' := by
        rintro rfl
        cases hd
      rw [List.cons_append, moreDigits]
      · simp only [hd, if_true, ih hds]
      · rintro _ _ rfl _
        exact hne rfl

theorem digitGroups_ends {ds rest : List Char} (hne : ds ≠ []) (hds : ∀ c ∈ ds, isDigit c) (hrest : Ends rest) :
    digitGroups isDigit (ds ++ rest) = (ds, rest) := by
  cases ds with
  | nil => exact absurd rfl hne
  | cons d ds =>
      obtain ⟨hd, hds⟩ := List.forall_mem_cons.mp hds
      simp only [List.cons_append, digitGroups, hd, if_true, moreDigits_ends hds hrest]

theorem isDigit_of_mem_digitsOf {n : Nat} {c : Char} (h : c ∈ Decimal.digitsOf n) : isDigit c := by
  simpa [Char.isDigit, isDigit, Char.le_def] using Decimal.isDigit_of_mem h

theorem exponent?_ends {rest : List Char} (h : Ends rest) : exponent? rest = none := by
  cases rest with
  | nil => rfl
  | cons c rest =>
      have hc : c ≠ 'e' ∧ c ≠ 'E' := by rcases h c rfl with rfl | rfl <;> decide
      unfold exponent?
      dsimp only
      split <;> simp_all

theorem number_digitsOf {n : Nat} (hn : n < 2 ^ 63) {rest : List Char} (hrest : Ends rest) :
    number (Decimal.digitsOf n ++ rest) = .ok (.int n, rest) := by
  have hdigits : digitGroups isDigit (Decimal.digitsOf n ++ rest) = (Decimal.digitsOf n, rest) :=
    digitGroups_ends Nat.toDigits_ne_nil (fun c hc => isDigit_of_mem_digitsOf hc) hrest
  have hsmall : n < 1 <<< 63 := hn
  rw [number, hdigits]
  dsimp only
  split
  · rcases hrest '.' rfl with h | h <;> cases h
  · rw [exponent?_ends hrest]
    dsimp only
    rw [Decimal.valueOf_digitsOf, if_pos hsmall]

/-- Digits are scanned as the number that they spell. -/
theorem piece_digitsOf {n : Nat} (hn : n < 2 ^ 63) {rest : List Char} (hrest : Ends rest) :
    ∃ c cs, Decimal.digitsOf n = c :: cs ∧ piece c (cs ++ rest) = .ok (.lexeme (.int n), 0, rest) := by
  obtain ⟨c, cs, hcs⟩ : ∃ c cs, Decimal.digitsOf n = c :: cs := List.exists_cons_of_ne_nil Nat.toDigits_ne_nil
  have hc : isDigit c := isDigit_of_mem_digitsOf (hcs ▸ List.mem_cons_self)
  have hnumber := number_digitsOf hn hrest
  rw [hcs, List.cons_append] at hnumber
  exact ⟨c, cs, hcs, piece_eq_ok.mpr (.number hc hnumber)⟩

/-! ## Strings -/

theorem stringBody_backslash {c : Char} (hc : c ≠ '\n') (cs : List Char) :
    stringBody '\'' ('\\' :: c :: cs) =
      (stringBody '\'' cs).map fun (value, crossed, rest) => (escaped c ++ value, crossed, rest) := by
  rw [stringBody]
  simp only [if_neg hc]
  cases stringBody '\'' cs <;> rfl

theorem stringBody_escape (c : Char) (cs : List Char) :
    stringBody '\'' (Value.escape c ++ cs) =
      (stringBody '\'' cs).map fun (value, crossed, rest) => (c :: value, crossed, rest) := by
  unfold Value.escape
  split
  · exact stringBody_backslash (by decide) cs
  · exact stringBody_backslash (by decide) cs
  · exact stringBody_backslash (by decide) cs
  · exact stringBody_backslash (by decide) cs
  · rename_i hbackslash hquote hnewline _
    rw [List.singleton_append, stringBody]
    · rw [if_neg hquote, if_neg (not_or.mpr ⟨hnewline, hbackslash⟩)]
      cases stringBody '\'' cs <;> rfl
    · exact fun _ _ h _ => hbackslash h

theorem stringBody_escaped (s rest : List Char) :
    stringBody '\'' (s.flatMap Value.escape ++ '\'' :: rest) = some (s, 0, rest) := by
  induction s with
  | nil => simp [stringBody]
  | cons c s ih => rw [List.flatMap_cons, List.append_assoc, stringBody_escape, ih]; rfl

/-- A text in single quotes is scanned as the string that it quotes. -/
theorem piece_quoted (s rest : List Char) :
    piece '\'' (s.flatMap Value.escape ++ '\'' :: rest) = .ok (.lexeme (.str (String.ofList s)), 0, rest) :=
  piece_eq_ok.mpr (.string (.inr rfl) (stringBody_escaped s rest))

end Launcher.Script.Scan
