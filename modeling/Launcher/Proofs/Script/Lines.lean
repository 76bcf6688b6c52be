import Mathlib.Algebra.Group.Nat.Defs
import Launcher.Proofs.Action
import Launcher.Proofs.Script.Pieces

/-!
# Lines of tokens

The tokens of a source text are a list of lines, each with something on it and with a `newline` token at its end,
and then the end of the source. No token is on a line that the text does not have.
-/

namespace Launcher.Script

/-- A lexeme that stands inside a line. -/
def Lexeme.Inline (l : Lexeme) : Prop := l ≠ .newline ∧ l ≠ .endOfSource

namespace Lexeme

theorem inline_int (n : Nat) : (int n).Inline := ⟨nofun, nofun⟩

theorem inline_float (x : Double) : (float x).Inline := ⟨nofun, nofun⟩

theorem inline_str (s : String) : (str s).Inline := ⟨nofun, nofun⟩

theorem inline_name (s : String) : (name s).Inline := ⟨nofun, nofun⟩

theorem inline_mark (m : Mark) : (mark m).Inline := ⟨nofun, nofun⟩

end Lexeme

/-- Lines of tokens up to the end of the source. The flag says that a line begins; else the rest of a line comes
first. -/
inductive Lined : Bool → List Token → Prop where
  | done {line : Nat} : Lined true [⟨.endOfSource, line⟩]
  | token {fresh : Bool} {t : Token} {ts : List Token} : t.lexeme.Inline → Lined false ts →
      Lined fresh (t :: ts)
  | newline {line : Nat} {ts : List Token} : Lined true ts → Lined false (⟨.newline, line⟩ :: ts)

theorem Lined.tail {fresh : Bool} {t : Token} {ts : List Token} (ht : t.lexeme.Inline)
    (h : Lined fresh (t :: ts)) : Lined false ts := by
  cases h with
  | done => exact absurd rfl ht.2
  | token _ h => exact h
  | newline _ => exact absurd rfl ht.1

/-- What follows some tokens of a line is the rest of the line. -/
theorem Lined.rest {fresh : Bool} {ts us : List Token} (hts : ts ≠ []) (hin : ∀ t ∈ ts, t.lexeme.Inline)
    (h : Lined fresh (ts ++ us)) : Lined false us := by
  induction ts generalizing fresh with
  | nil => exact absurd rfl hts
  | cons t ts ih =>
      obtain ⟨ht, hin⟩ := List.forall_mem_cons.mp hin
      cases ts with
      | nil => exact h.tail ht
      | cons t' ts => exact ih (by simp) hin (h.tail ht)

/-! ## The tokens of a text -/

namespace Scan

theorem fraction_inline (digits : List Char) (places : Nat) (rest : List Char) :
    (fraction digits places rest).1.Inline := by
  unfold fraction
  split <;> exact Lexeme.inline_float _

theorem number_inline {cs rest : List Char} {l : Lexeme} (h : number cs = .ok (l, rest)) : l.Inline := by
  unfold number at h
  dsimp only at h
  split at h
  · obtain rfl := congrArg Prod.fst (Except.ok.inj h)
    exact fraction_inline ..
  · split at h
    · cases h; exact Lexeme.inline_float _
    · split at h
      · cases h; exact Lexeme.inline_int _
      · cases h

theorem piece_inline {c : Char} {cs rest : List Char} {l : Lexeme} {crossed : Nat}
    (h : piece c cs = .ok (.lexeme l, crossed, rest)) : l.Inline := by
  cases piece_eq_ok.mp h with
  | word _ => exact Lexeme.inline_name _
  | number _ hnumber => exact number_inline hnumber
  | point _ _ hfraction =>
      have hinline := fraction_inline (cs.takeWhile isDigit) (cs.takeWhile isDigit).length (cs.dropWhile isDigit)
      rwa [hfraction] at hinline
  | string _ _ => exact Lexeme.inline_str _
  | mark _ _ => exact Lexeme.inline_mark _

theorem end_lined (fresh : Bool) (line : Nat) :
    Lined fresh ((if fresh then [] else [⟨.newline, line⟩]) ++ [⟨.endOfSource, line⟩]) := by
  cases fresh
  · exact .newline .done
  · exact .done

theorem Scans.lined {line depth : Nat} {fresh : Bool} {cs : List Char} {ts : List Token}
    (h : Scans line depth fresh cs ts) : Lined fresh ts := by
  induction h with
  | done => exact end_lined ..
  | gap _ _ ih | folded _ _ _ ih => exact ih
  | newline _ _ ih => exact .newline ih
  | lexeme hp _ ih => exact .token (piece_inline hp) ih

end Scan

/-- The tokens of a source text are lines. -/
theorem tokenize_lined {source : String} {ts : List Token} (h : tokenize source = .ok ts) : Lined true ts :=
  (tokenize_eq_ok.mp h).lined

/-! ## Numbers of lines -/

/-- The lines are ones that the source has, and a word of 32 bits holds them unless it has more than that many. -/
structure LinesFit (source : List Char) (lines : List Nat) : Prop where
  le : ∀ line ∈ lines, line ≤ source.count '\n' + 1
  lt : source.count '\n' + 1 < 2 ^ 32 → ∀ line ∈ lines, line < 2 ^ 32

theorem LinesFit.of_le {source : List Char} {lines : List Nat} (h : ∀ line ∈ lines, line ≤ source.count '\n' + 1) :
    LinesFit source lines :=
  ⟨h, fun hlt line hline => Nat.lt_of_le_of_lt (h line hline) hlt⟩

theorem Scan.Scans.line_le {line depth : Nat} {fresh : Bool} {cs : List Char} {ts : List Token}
    (h : Scans line depth fresh cs ts) : ∀ t ∈ ts, t.line ≤ line + cs.count '\n' := by
  induction h with
  | @done line depth fresh => cases fresh <;> simp
  | gap hp _ ih | folded hp _ _ ih =>
      rw [(piece_passes hp).2, ← Nat.add_assoc]
      exact ih
  | newline hp _ ih | lexeme hp _ ih =>
      rw [(piece_passes hp).2, ← Nat.add_assoc]
      exact List.forall_mem_cons.mpr ⟨by dsimp only; omega, ih⟩

theorem tokenize_linesFit {source : String} {ts : List Token} (h : tokenize source = .ok ts) :
    LinesFit source.toList (ts.map Token.line) :=
  .of_le (List.forall_mem_map.mpr fun t ht => Nat.add_comm 1 _ ▸ (tokenize_eq_ok.mp h).line_le t ht)

end Launcher.Script
