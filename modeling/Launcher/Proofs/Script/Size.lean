import Launcher.Proofs.Script.Acceptance
import Mathlib.Algebra.Ring.Nat
import Mathlib.Data.String.Basic

/-!
# How large code can get

A compiled source has no more instructions, constants and names than the source has bytes, apart from one: each
instruction is owed to a token, and the last statement may do without the newline that another one would need. Lines
and texts are bounded by the source in the same way.
-/

namespace Launcher.Script

open String (utf8Len utf8Len_cons utf8Len_append utf8Len_nil)

/-! ## Tokens -/

/-- How many bytes a lexeme takes up in a source, at least. -/
def Lexeme.weight : Lexeme → Nat
  | .int _ | .float _ | .mark _ | .newline => 1
  | .str s => s.utf8ByteSize + 1
  | .name s => max 1 s.utf8ByteSize
  | .endOfSource => 0

def weight (ts : List Token) : Nat := (ts.map fun t => t.lexeme.weight).sum

@[simp] theorem Lexeme.weight_mark (m : Mark) : (Lexeme.mark m).weight = 1 := rfl

theorem Lexeme.one_le_weight {l : Lexeme} (h : l ≠ .endOfSource) : 1 ≤ l.weight := by
  cases l with
  | endOfSource => exact absurd rfl h
  | str s => exact Nat.le_add_left ..
  | name s => exact Nat.le_max_left ..
  | _ => exact Nat.le_refl 1

@[simp] theorem weight_nil : weight [] = 0 := rfl

@[simp] theorem weight_cons (t : Token) (ts : List Token) : weight (t :: ts) = t.lexeme.weight + weight ts := rfl

@[simp] theorem weight_append (ts us : List Token) : weight (ts ++ us) = weight ts + weight us := by
  simp [weight]

namespace Scan

theorem utf8Len_dropWhile_le (p : Char → Bool) (cs : List Char) : utf8Len (cs.dropWhile p) ≤ utf8Len cs := by
  have h := utf8Len_append (cs.takeWhile p) (cs.dropWhile p)
  rw [List.takeWhile_append_dropWhile] at h
  omega

theorem moreDigits_le (p : Char → Bool) (cs : List Char) : utf8Len (moreDigits p cs).2 ≤ utf8Len cs := by
  fun_induction moreDigits p cs with
  | case1 d cs hd ds rest hds ih => simp only [utf8Len_cons, hds] at ih ⊢; omega
  | case3 c cs _ hd ds rest hds ih => simp only [utf8Len_cons, hds] at ih ⊢; omega
  | case2 | case4 | case5 => exact Nat.le_refl _

theorem digitGroups_lt {p : Char → Bool} {c : Char} (h : p c) (cs : List Char) :
    utf8Len (digitGroups p (c :: cs)).2 + 1 ≤ utf8Len (c :: cs) := by
  have hmore := moreDigits_le p cs
  have hc := c.utf8Size_pos
  simp only [digitGroups, h, if_true, utf8Len_cons]
  omega

theorem digitGroups_le (p : Char → Bool) (cs : List Char) : utf8Len (digitGroups p cs).2 ≤ utf8Len cs := by
  cases cs with
  | nil => exact Nat.le_refl _
  | cons c cs =>
      by_cases h : p c
      · exact Nat.le_of_succ_le (digitGroups_lt h cs)
      · simp [digitGroups, h]

theorem exponent?_le {cs rest : List Char} {e : Int} (h : exponent? cs = some (e, rest)) :
    utf8Len rest ≤ utf8Len cs := by
  have hdrop : ∃ cs', rest = cs'.dropWhile isDigit ∧ utf8Len cs' ≤ utf8Len cs := by
    unfold exponent? at h
    dsimp only at h
    split at h
    case h_4 => cases h
    all_goals
      rw [Option.ite_none_right_eq_some] at h
      obtain ⟨_, h⟩ := h
      split at h
      · cases h
      · cases h
        exact ⟨_, rfl, by simp only [utf8Len_cons]; omega⟩
  obtain ⟨cs', rfl, hle⟩ := hdrop
  exact Nat.le_trans (utf8Len_dropWhile_le ..) hle

theorem fraction_le (digits : List Char) (places : Nat) (cs : List Char) :
    (fraction digits places cs).1.weight + utf8Len (fraction digits places cs).2 ≤ 1 + utf8Len cs := by
  unfold fraction
  split
  · exact Nat.add_le_add_left (exponent?_le ‹_›) 1
  · exact Nat.le_refl _

theorem number_le {c : Char} {cs rest : List Char} {l : Lexeme} (hc : isDigit c)
    (h : number (c :: cs) = .ok (l, rest)) : l.weight + utf8Len rest ≤ utf8Len (c :: cs) := by
  have hlt := digitGroups_lt hc cs
  unfold number at h
  dsimp only at h
  split at h
  · rename_i after hafter
    have hplaces := digitGroups_le isDigit after
    have hfraction := fraction_le ((digitGroups isDigit (c :: cs)).1 ++ (digitGroups isDigit after).1)
      (digitGroups isDigit after).1.length (digitGroups isDigit after).2
    rw [Except.ok.inj h] at hfraction
    dsimp only at hfraction
    rw [hafter, utf8Len_cons] at hlt
    have hpoint := Char.utf8Size_pos '.'
    omega
  · split at h
    · rename_i he
      cases h
      have := exponent?_le he
      show 1 + _ ≤ _
      omega
    · split at h
      · cases h
        show 1 + _ ≤ _
        omega
      · cases h

theorem escaped_le (c : Char) :
    utf8Len (escaped c) + (if c = '\n' then 1 else 0) ≤ Char.utf8Size '\\' + c.utf8Size := by
  unfold escaped
  split
  case h_9 hnewline =>
    rw [if_neg hnewline, utf8Len_cons, utf8Len_cons, utf8Len_nil]
    omega
  all_goals decide

theorem stringBody_le {quote : Char} {cs value rest : List Char} {crossed : Nat}
    (h : stringBody quote cs = some (value, crossed, rest)) :
    utf8Len value + crossed + utf8Len rest + 1 ≤ utf8Len cs := by
  fun_induction stringBody quote cs generalizing value crossed rest with
  | case1 => cases h
  | case2 c cs ih =>
      simp only [Option.bind_eq_bind, Option.bind_eq_some_iff, Option.some.injEq, Prod.mk.injEq] at h
      obtain ⟨⟨value', crossed', rest'⟩, hbody, rfl, rfl, rfl⟩ := h
      have hle := ih hbody
      have hc := escaped_le c
      have hcrossed : (if c = '\n' then crossed' + 1 else crossed') = crossed' + if c = '\n' then 1 else 0 := by
        split <;> rfl
      dsimp only
      rw [hcrossed, utf8Len_append, utf8Len_cons, utf8Len_cons]
      omega
  | case3 cs =>
      cases h
      have hquote := quote.utf8Size_pos
      simp only [utf8Len_cons, utf8Len_nil]
      omega
  | case4 => cases h
  | case5 c cs _ _ _ ih =>
      simp only [Option.bind_eq_bind, Option.bind_eq_some_iff] at h
      obtain ⟨⟨value', crossed', rest'⟩, hbody, h⟩ := h
      cases h
      have hle := ih hbody
      simp only [utf8Len_cons]
      omega

theorem mark?_le {c : Char} {cs rest : List Char} {m : Mark} (h : mark? (c :: cs) = some (m, rest)) :
    1 + utf8Len rest ≤ utf8Len (c :: cs) := by
  have hc := c.utf8Size_pos
  obtain ⟨-, rfl | ⟨d, -, rfl⟩⟩ := mark?_front h <;> simp only [utf8Len_cons] <;> omega

/-! ## Pieces -/

/-- How many bytes a piece takes up, at least. -/
def Piece.weight : Piece → Nat
  | .gap => 0
  | .newline => 1
  | .lexeme l => l.weight

/-- A piece is no longer than what is taken off for it, and there are as many bytes as newlines in that. -/
theorem piece_le {c : Char} {cs rest : List Char} {p : Piece} {crossed : Nat}
    (h : piece c cs = .ok (p, crossed, rest)) :
    p.weight + utf8Len rest ≤ utf8Len (c :: cs) ∧ crossed + utf8Len rest ≤ utf8Len (c :: cs) := by
  have hc := c.utf8Size_pos
  cases piece_eq_ok.mp h with
  | blank _ | newline _ =>
      simp only [Piece.weight, utf8Len_cons]
      omega
  | comment _ =>
      have hdrop := utf8Len_dropWhile_le (· ≠ '\n') cs
      simp only [Piece.weight, utf8Len_cons]
      omega
  | joined _ hcs => rcases hcs with rfl | rfl <;> simp only [Piece.weight, utf8Len_cons] <;> omega
  | word _ =>
      have hword := utf8Len_append (cs.takeWhile isNamePart) (cs.dropWhile isNamePart)
      rw [List.takeWhile_append_dropWhile] at hword
      simp only [Piece.weight, Lexeme.weight, String.utf8ByteSize_ofList, utf8Len_cons]
      omega
  | number hdigit hnumber =>
      have hle := number_le hdigit hnumber
      simp only [Piece.weight]
      omega
  | point _ _ hfraction =>
      have hdrop := utf8Len_dropWhile_le isDigit cs
      have hle := fraction_le (cs.takeWhile isDigit) (cs.takeWhile isDigit).length (cs.dropWhile isDigit)
      rw [hfraction] at hle
      dsimp only at hle
      simp only [Piece.weight, utf8Len_cons]
      omega
  | string _ hbody =>
      have hle := stringBody_le hbody
      simp only [Piece.weight, Lexeme.weight, String.utf8ByteSize_ofList, utf8Len_cons]
      omega
  | mark _ hmark =>
      have hle := mark?_le hmark
      simp only [Piece.weight, Lexeme.weight]
      omega

/-- The tokens of a text take up no more than the text and one newline at its end. -/
theorem Scans.weight_le {line depth : Nat} {fresh : Bool} {cs : List Char} {ts : List Token}
    (h : Scans line depth fresh cs ts) : weight ts ≤ utf8Len cs + 1 ∧ ∀ t ∈ ts, t.line ≤ line + utf8Len cs := by
  induction h with
  | @done line depth fresh => cases fresh <;> simp [Lexeme.weight]
  | gap hp _ ih | folded hp _ _ ih =>
      have hle := piece_le hp
      exact ⟨by omega, fun t ht => Nat.le_trans (ih.2 t ht) (by omega)⟩
  | newline hp _ ih | lexeme hp _ ih =>
      have hle := piece_le hp
      refine ⟨?_, List.forall_mem_cons.mpr ⟨Nat.le_add_right .., fun t ht => Nat.le_trans (ih.2 t ht) (by omega)⟩⟩
      have hnewline : Lexeme.newline.weight = 1 := rfl
      rw [Piece.weight] at hle
      rw [weight_cons]
      dsimp only
      omega

end Scan

/-- The tokens of a source take up no more than its bytes and one newline at its end. -/
theorem tokenize_le {source : String} {ts : List Token} (h : tokenize source = .ok ts) :
    weight ts ≤ source.utf8ByteSize + 1 ∧ ∀ t ∈ ts, t.line ≤ source.utf8ByteSize + 1 := by
  have hsize : utf8Len source.toList = source.utf8ByteSize := by
    rw [← String.utf8ByteSize_ofList, String.ofList_toList]
  obtain ⟨hweight, hlines⟩ := (tokenize_eq_ok.mp h).weight_le
  rw [hsize] at hweight hlines
  exact ⟨hweight, fun t ht => Nat.add_comm 1 _ ▸ hlines t ht⟩

/-! ## Instructions -/

open Grammar

namespace Expr

mutual

/-- Each constant and each name of an expression has an instruction. -/
theorem pools_le (pools : Pools) (pos : Nat) :
    (e : Expr) → e.consts.length + e.names.length ≤ (e.code pools pos).length
  | .const _ _ => Nat.le_refl _
  | .name _ _ => Nat.le_refl _
  | .list _ es => by
      have hes := poolsAll_le pools pos es
      simp only [consts, names, code, List.length_append, List.length_cons, List.length_nil]
      omega
  | .call _ e es => by
      have he := pools_le pools pos e
      have hes := poolsAll_le pools (pos + (e.code pools pos).length) es
      simp only [consts, names, code, List.length_append, List.length_cons, List.length_nil]
      omega
  | .attr _ e _ => by
      have he := pools_le pools pos e
      simp only [consts, names, code, List.length_append, List.length_cons, List.length_nil]
      omega
  | .negate _ e | .not _ e => Nat.le_trans (pools_le pools pos e) (by simp [code])
  | .subscript _ a b | .binary _ _ a b | .compare _ _ a b => by
      have ha := pools_le pools pos a
      have hb := pools_le pools (pos + (a.code pools pos).length) b
      simp only [consts, names, code, List.length_append, List.length_cons, List.length_nil]
      omega
  | .and _ a b | .or _ a b => by
      have ha := pools_le pools pos a
      have hb := pools_le pools (pos + (a.code pools pos).length + 1) b
      simp only [consts, names, code, List.length_append, List.length_cons]
      omega

theorem poolsAll_le (pools : Pools) (pos : Nat) :
    (es : List Expr) → (constsAll es).length + (namesAll es).length ≤ (codeAll pools pos es).length
  | [] => Nat.le_refl _
  | e :: es => by
      have he := pools_le pools pos e
      have hes := poolsAll_le pools (pos + (e.code pools pos).length) es
      simp only [constsAll, namesAll, codeAll, List.length_append]
      omega

end

end Expr

namespace Grammar

theorem one_le_name (id : String) : 1 ≤ (Lexeme.name id).weight := Lexeme.one_le_weight nofun

/-- An operator has one instruction of its own. -/
theorem Joins.code_length {level : Level} {t : Token} {last : Nat} {a b e : Expr} (h : Joins level t last a b e)
    (pools : Pools) (pos : Nat) : ∃ pos', (e.code pools pos).length =
      (a.code pools pos).length + 1 + (b.code pools pos').length := by
  cases h with
  | or | and =>
      refine ⟨pos + (a.code pools pos).length + 1, ?_⟩
      simp only [Expr.code, List.length_append, List.length_cons]
      omega
  | sum | product =>
      refine ⟨pos + (a.code pools pos).length, ?_⟩
      simp only [Expr.code, List.length_append, List.length_cons, List.length_nil]
      omega

theorem Joins.one_le_weight {level : Level} {t : Token} {last : Nat} {a b e : Expr} (h : Joins level t last a b e) :
    1 ≤ t.lexeme.weight := by
  cases h with
  | or | and | sum | product => exact Lexeme.one_le_weight nofun

mutual

/-- Each instruction of an expression has a token. -/
theorem Derives.code_le {level : Level} {ts : List Token} {e : Expr} (pools : Pools) (pos : Nat) :
    Derives level ts e → (e.code pools pos).length ≤ weight ts
  | .inner h => h.code_le pools pos
  | .joined ha hb hj => by
      obtain ⟨pos', hlen⟩ := hj.code_length pools pos
      have ha := ha.code_le pools pos
      have hb := hb.code_le pools pos'
      have ht := hj.one_le_weight
      rw [hlen, weight_append, weight_cons]
      omega
  | .not h => by
      have h := h.code_le pools pos
      have hnot := one_le_name "not"
      simp only [Expr.code, List.length_append, List.length_cons, List.length_nil, weight_cons]
      omega
  | .minus h => by
      have h := h.code_le pools pos
      simp only [Expr.code, List.length_append, List.length_cons, List.length_nil, weight_cons, Lexeme.weight_mark]
      omega
  | .plus h => Nat.le_trans (h.code_le pools pos) (Nat.le_add_left ..)
  | .compare (a := a) ha _ hb => by
      have ha := ha.code_le pools pos
      have hb := hb.code_le pools (pos + (a.code pools pos).length)
      simp only [Expr.code, List.length_append, List.length_cons, List.length_nil, weight_append, weight_cons,
        Lexeme.weight_mark]
      omega
  | .call (e := e) h hes => by
      have h := h.code_le pools pos
      have hes := hes.code_le pools (pos + (e.code pools pos).length)
      simp only [Expr.code, List.length_append, List.length_cons, List.length_nil, weight_append, weight_cons,
        Lexeme.weight_mark]
      omega
  | .attr h _ => by
      have h := h.code_le pools pos
      simp only [Expr.code, List.length_append, List.length_cons, List.length_nil, weight_append, weight_cons,
        Lexeme.weight_mark]
      omega
  | .subscript (a := a) ha hb => by
      have ha := ha.code_le pools pos
      have hb := hb.code_le pools (pos + (a.code pools pos).length)
      simp only [Expr.code, List.length_append, List.length_cons, List.length_nil, weight_append, weight_cons,
        Lexeme.weight_mark]
      omega
  | .int | .float => Nat.le_refl _
  | .word _ | .name _ => one_le_name _
  | .str hne h => by
      obtain ⟨t, us, rfl⟩ := List.exists_cons_of_ne_nil hne
      obtain ⟨s, ss, rfl, ht, _⟩ := List.map_eq_cons_iff.mp h.symm
      exact Nat.le_trans (Lexeme.one_le_weight (ht ▸ nofun)) (Nat.le_add_right ..)
  | .parens h => by
      have h := h.code_le pools pos
      simp only [weight_append, weight_cons]
      omega
  | .list hes => by
      have hes := hes.code_le pools pos
      simp only [Expr.code, List.length_append, List.length_cons, List.length_nil, weight_append, weight_cons,
        Lexeme.weight_mark]
      omega

theorem Items.code_le {ts : List Token} {es : List Expr} (pools : Pools) (pos : Nat) :
    Items ts es → (Expr.codeAll pools pos es).length ≤ weight ts
  | .nil => Nat.le_refl _
  | .one h => by
      rw [Expr.codeAll, Expr.codeAll, List.append_nil]
      exact h.code_le pools pos
  | .cons (e := e) h hes => by
      have h := h.code_le pools pos
      have hes := hes.code_le pools (pos + (e.code pools pos).length)
      simp only [Expr.codeAll, List.length_append, weight_append, weight_cons]
      omega

end

end Grammar

/-! ## Lines and texts -/

/-- The lines of steps and the texts of constants and names are bounded. -/
structure Small (line size : Nat) (steps : List Step) (consts : List Const) (names : List String) : Prop where
  lines : ∀ s ∈ steps, s.line ≤ line
  texts : ∀ t, .str t ∈ consts → t.utf8ByteSize ≤ size
  names : ∀ id ∈ names, id.utf8ByteSize ≤ size

namespace Small

variable {line size : Nat} {xs ys : List Step} {cs ds : List Const} {ns ms : List String}

theorem nil : Small line size [] [] [] := ⟨nofun, nofun, nofun⟩

theorem append (hx : Small line size xs cs ns) (hy : Small line size ys ds ms) :
    Small line size (xs ++ ys) (cs ++ ds) (ns ++ ms) where
  lines := List.forall_mem_append.mpr ⟨hx.lines, hy.lines⟩
  texts t h := (List.mem_append.mp h).elim (hx.texts t) (hy.texts t)
  names := List.forall_mem_append.mpr ⟨hx.names, hy.names⟩

/-- In front of the others comes an instruction that refers to no constant and no name. -/
theorem cons {s : Step} (h : s.line ≤ line) (hx : Small line size xs cs ns) : Small line size (s :: xs) cs ns :=
  ⟨List.forall_mem_cons.mpr ⟨h, hx.lines⟩, hx.texts, hx.names⟩

/-- Such an instruction comes last. -/
theorem concat {s : Step} (hx : Small line size xs cs ns) (h : s.line ≤ line) : Small line size (xs ++ [s]) cs ns :=
  ⟨List.forall_mem_append.mpr ⟨hx.lines, List.forall_mem_singleton.mpr h⟩, hx.texts, hx.names⟩

/-- An instruction that refers to a name comes last. -/
theorem concatName {s : Step} {id : String} (hx : Small line size xs cs ns) (h : s.line ≤ line)
    (hid : id.utf8ByteSize ≤ size) : Small line size (xs ++ [s]) cs (ns ++ [id]) :=
  ⟨(hx.concat h).lines, hx.texts, List.forall_mem_append.mpr ⟨hx.names, List.forall_mem_singleton.mpr hid⟩⟩

theorem const {s : Step} {c : Const} (h : s.line ≤ line) (hc : ∀ t, c = .str t → t.utf8ByteSize ≤ size) :
    Small line size [s] [c] [] :=
  ⟨List.forall_mem_singleton.mpr h, fun t ht => hc t (List.mem_singleton.mp ht).symm, nofun⟩

theorem name {s : Step} {id : String} (h : s.line ≤ line) (hid : id.utf8ByteSize ≤ size) :
    Small line size [s] [] [id] :=
  ⟨List.forall_mem_singleton.mpr h, nofun, List.forall_mem_singleton.mpr hid⟩

end Small

namespace Grammar

theorem lastLine_le {ts : List Token} {line : Nat} (h : ∀ t ∈ ts, t.line ≤ line) : lastLine ts ≤ line := by
  rcases List.eq_nil_or_concat ts with rfl | ⟨us, t, rfl⟩
  · exact Nat.zero_le _
  · rw [List.concat_eq_append, Reader.lastLine_concat]
    exact h t (by simp)

/-- Tokens on lines up to `line` that take up no more than `size`. -/
structure Within (line size : Nat) (ts : List Token) : Prop where
  lines : ∀ t ∈ ts, t.line ≤ line
  weight : weight ts ≤ size

namespace Within

variable {line size : Nat} {t : Token} {ts us : List Token}

theorem left (h : Within line size (ts ++ us)) : Within line size ts where
  lines := (List.forall_mem_append.mp h.lines).1
  weight := by have := h.weight; rw [weight_append] at this; omega

theorem right (h : Within line size (ts ++ us)) : Within line size us where
  lines := (List.forall_mem_append.mp h.lines).2
  weight := by have := h.weight; rw [weight_append] at this; omega

theorem head (h : Within line size (t :: ts)) : t.line ≤ line := h.lines t List.mem_cons_self

theorem tail (h : Within line size (t :: ts)) : Within line size ts := @right line size [t] ts h

theorem last (h : Within line size ts) : lastLine ts ≤ line := lastLine_le h.lines

theorem name {id : String} {l : Nat} (h : Within line size (⟨.name id, l⟩ :: ts)) : id.utf8ByteSize ≤ size := by
  have hid : id.utf8ByteSize ≤ (Lexeme.name id).weight := Nat.le_max_right ..
  have hw := h.weight
  simp only [weight_cons] at hw
  omega

theorem sub (h : Within line size (t :: ts ++ us)) : Within line size ts := h.left.tail

end Within

theorem Joins.small {level : Level} {t : Token} {last line size : Nat} {a b e : Expr} (h : Joins level t last a b e)
    (ht : t.line ≤ line) (hlast : last ≤ line)
    (ha : ∀ pools pos, Small line size (a.code pools pos) a.consts a.names)
    (hb : ∀ pools pos, Small line size (b.code pools pos) b.consts b.names) (pools : Pools) (pos : Nat) :
    Small line size (e.code pools pos) e.consts e.names := by
  cases h with
  | or | and => exact (ha pools pos).append ((hb pools _).cons ht)
  | sum | product => exact ((ha pools pos).append (hb pools _)).concat hlast

theorem join_le {ts : List Token} {ss : List String} (h : ts.map Token.lexeme = ss.map Lexeme.str) :
    (String.join ss).utf8ByteSize ≤ weight ts := by
  induction ss generalizing ts with
  | nil => exact Nat.zero_le _
  | cons s ss ih =>
      obtain ⟨t, us, rfl, ht, hus⟩ := List.map_eq_cons_iff.mp h
      have hle := ih hus
      rw [String.join_cons, String.utf8ByteSize_append, weight_cons, ht, Lexeme.weight]
      omega

theorem not_str_of_isConst {word t : String} {c : Const} (h : IsConst word c) : c ≠ .str t := by
  cases h <;> nofun

mutual

/-- The lines of an expression are those of its tokens, and its texts have their bytes. -/
theorem Derives.small {level : Level} {ts : List Token} {e : Expr} {line size : Nat} (pools : Pools) (pos : Nat)
    (h : Within line size ts) : Derives level ts e → Small line size (e.code pools pos) e.consts e.names
  | .inner hd => hd.small pools pos h
  | .joined ha hb hj =>
      hj.small h.right.head h.right.tail.last (fun pools pos => ha.small pools pos h.left)
        (fun pools pos => hb.small pools pos h.right.tail) pools pos
  | .not hd | .minus hd => (hd.small pools pos h.tail).concat h.tail.last
  | .plus hd => hd.small pools pos h.tail
  | .compare ha _ hb =>
      ((ha.small pools pos h.left).append (hb.small pools _ h.right.tail)).concat h.right.tail.last
  | .call hd hes =>
      ((hd.small pools pos h.left.left).append (hes.small pools _ h.left.right.tail)).concat h.right.head
  | .attr hd _ => (hd.small pools pos h.left).concatName h.right.tail.head h.right.tail.name
  | .subscript ha hb =>
      ((ha.small pools pos h.left.left).append (hb.small pools _ h.left.right.tail)).concat h.right.head
  | .int | .float => .const h.head nofun
  | .word hw => .const h.head fun _ ht => absurd ht (not_str_of_isConst hw)
  | .name _ => .name h.head h.name
  | .str _ hs => .const h.last fun t ht => by
      cases ht
      exact Nat.le_trans (join_le hs) h.weight
  | .parens hd => hd.small pools pos h.sub
  | .list hes => (hes.small pools pos h.sub).concat h.right.head

theorem Items.small {ts : List Token} {es : List Expr} {line size : Nat} (pools : Pools) (pos : Nat)
    (h : Within line size ts) : Items ts es →
      Small line size (Expr.codeAll pools pos es) (Expr.constsAll es) (Expr.namesAll es)
  | .nil => .nil
  | .one hd => (hd.small pools pos h).append .nil
  | .cons hd hes => (hd.small pools pos h.left).append (hes.small pools _ h.right.tail)

end

end Grammar

/-! ## Statements and programs -/

namespace Statement

theorem message_pools_le (pools : Pools) (pos line : Nat) (message : Option Expr) :
    (messageConsts message).length + (messageNames message).length ≤
      (messageCode pools pos line message).length := by
  cases message with
  | none => exact Nat.le_refl _
  | some e => exact e.pools_le pools pos

/-- Each constant and each name of a statement has an instruction, if assertions are not left out. -/
theorem pools_le (pools : Pools) (pos : Nat) (s : Statement) :
    s.consts.length + s.names.length ≤ (s.code {} pools pos).length := by
  cases s with
  | imports dotted => simp [consts, names, code]
  | pass => exact Nat.le_refl _
  | assert testLine test line message =>
      have htest := test.pools_le pools pos
      have hmessage := message_pools_le pools (pos + (test.code pools pos).length + 1) line message
      simp only [consts, names, code, Bool.false_eq_true, if_false, List.length_append, List.length_cons,
        List.length_nil]
      omega
  | raise kindLine kind line message =>
      have hmessage := message_pools_le pools (pos + 1) line message
      simp only [consts, names, code, List.length_append, List.length_cons, List.length_nil]
      omega
  | assign line id e =>
      have he := e.pools_le pools pos
      simp only [consts, names, code, List.length_append, List.length_cons, List.length_nil]
      omega
  | expression line e => exact Nat.le_trans (e.pools_le pools pos) (by simp [code])

end Statement

theorem Program.pools_le (pools : Pools) (pos : Nat) (p : Program) :
    (p.flatMap Statement.consts).length + (p.flatMap Statement.names).length ≤ (code {} pools pos p).length := by
  induction p generalizing pos with
  | nil => exact Nat.le_refl _
  | cons s p ih =>
      have hs := s.pools_le pools pos
      have hp := ih (pos + (s.code {} pools pos).length)
      simp only [List.flatMap_cons, List.length_append, code]
      omega

theorem Program.code_append (mode : CompileMode) (pools : Pools) (pos : Nat) (p q : Program) :
    code mode pools pos (p ++ q) =
      code mode pools pos p ++ code mode pools (pos + (code mode pools pos p).length) q := by
  induction p generalizing pos with
  | nil => rfl
  | cons s p ih => simp only [List.cons_append, code, ih, List.length_append, List.append_assoc, Nat.add_assoc]

namespace Grammar

theorem Dotted.one_le {ts : List Token} {dotted : String} (h : Dotted ts dotted) : 1 ≤ weight ts := by
  cases h with
  | one => exact one_le_name _
  | more => simp only [weight_append, weight_cons, Lexeme.weight_mark]; omega

theorem DottedNames.length_le {ts : List Token} {names : List (Nat × String)} (h : DottedNames ts names) :
    names.length ≤ weight ts := by
  induction h with
  | last h => exact h.one_le
  | more h _ ih =>
      have hone := h.one_le
      simp only [List.length_cons, weight_append, weight_cons, Lexeme.weight_mark]
      omega

/-- The newline or semicolon behind a statement may have an instruction as well. -/
theorem Spells.code_le {ts : List Token} {s : Statement} (h : Spells ts s) (mode : CompileMode) (pools : Pools)
    (pos : Nat) : (s.code mode pools pos).length ≤ weight ts + 1 := by
  have hassert : (Lexeme.name "assert").weight = 6 := rfl
  have hraise : (Lexeme.name "raise").weight = 5 := rfl
  cases h with
  | imports h =>
      have hlen := h.length_le
      simp only [Statement.code, List.length_map, weight_cons]
      omega
  | assert h =>
      have h := h.code_le pools pos
      rw [Statement.code]
      split
      · exact Nat.zero_le _
      · simp only [Statement.messageCode, List.length_append, List.length_cons, List.length_nil, weight_cons, hassert]
        omega
  | assertMessage ha hb =>
      rename_i test _ _ _
      have ha := ha.code_le pools pos
      have hb := hb.code_le pools (pos + (test.code pools pos).length + 1)
      rw [Statement.code]
      split
      · exact Nat.zero_le _
      · simp only [Statement.messageCode, List.length_append, List.length_cons, List.length_nil, weight_append,
          weight_cons, hassert]
        omega
  | reraise | raise _ | raiseEmpty _ =>
      simp only [Statement.code, Statement.messageCode, Expr.code, List.length_append, List.length_cons,
        List.length_nil, weight_cons, hraise]
      omega
  | raiseMessage _ h =>
      have h := h.code_le pools (pos + 1)
      simp only [Statement.code, Statement.messageCode, List.length_append, List.length_cons, List.length_nil,
        weight_append, weight_cons, hraise]
      omega
  | pass => exact Nat.zero_le _
  | assign _ h =>
      have h := h.code_le pools pos
      simp only [Statement.code, List.length_append, List.length_cons, List.length_nil, weight_cons]
      omega
  | expression h =>
      have h := h.code_le pools pos
      simp only [Statement.code, List.length_append, List.length_cons, List.length_nil]
      omega

theorem SpellsAll.code_le {ts : List Token} {ss : List Statement} (h : SpellsAll ts ss) (mode : CompileMode)
    (pools : Pools) (pos : Nat) : (Program.code mode pools pos ss).length ≤ weight ts + 1 := by
  induction h generalizing pos with
  | last h =>
      rw [Program.code, Program.code, List.append_nil]
      exact h.code_le mode pools pos
  | closed h =>
      have h := h.code_le mode pools pos
      rw [Program.code, Program.code, List.append_nil, weight_append]
      omega
  | @more ts us s ss line h _ ih =>
      have h := h.code_le mode pools pos
      have hss := ih (pos + (s.code mode pools pos).length)
      rw [Program.code, List.length_append, weight_append, weight_cons, Lexeme.weight_mark]
      omega

/-- Compiled code has no more instructions than the tokens have bytes. -/
theorem SpellsProgram.code_le {ts : List Token} {p : Program} (h : SpellsProgram ts p) (mode : CompileMode)
    (pools : Pools) (pos : Nat) : (Program.code mode pools pos p).length ≤ weight ts := by
  induction h generalizing pos with
  | done => exact Nat.zero_le _
  | @line ts us ss p line h _ ih =>
      have h := h.code_le mode pools pos
      have hp := ih (pos + (Program.code mode pools pos ss).length)
      rw [Program.code_append, List.length_append, weight_append, weight_cons, Lexeme.weight]
      omega

theorem Dotted.size_le {ts : List Token} {dotted : String} (h : Dotted ts dotted) :
    dotted.utf8ByteSize ≤ weight ts := by
  induction h with
  | one => exact Nat.le_max_right ..
  | @more _ _ id _ _ _ _ ih =>
      have hid : id.utf8ByteSize ≤ (Lexeme.name id).weight := Nat.le_max_right ..
      have hdot : ".".utf8ByteSize = 1 := rfl
      simp only [String.utf8ByteSize_append, weight_append, weight_cons, Lexeme.weight_mark, weight_nil]
      omega

section

variable {line size : Nat} {ts : List Token}

theorem DottedNames.small {names : List (Nat × String)} (h : DottedNames ts names) (hts : Within line size ts) :
    ∀ n ∈ names, n.1 ≤ line ∧ n.2.utf8ByteSize ≤ size := by
  induction h with
  | last h => exact List.forall_mem_singleton.mpr ⟨hts.last, Nat.le_trans h.size_le hts.weight⟩
  | more h _ ih =>
      have hfirst := hts.left
      exact List.forall_mem_cons.mpr
        ⟨⟨hfirst.last, Nat.le_trans h.size_le hfirst.weight⟩, ih hts.right.tail⟩

/-- The code of a statement is small, wherever it is. -/
def StatementSmall (line size : Nat) (s : Statement) : Prop :=
  ∀ mode pools pos, Small line size (s.code mode pools pos) s.consts s.names

/-- The code of a message on a line is small. -/
def MessageSmall (line size messageLine : Nat) (message : Option Expr) : Prop :=
  ∀ pools pos, Small line size (Statement.messageCode pools pos messageLine message)
    (Statement.messageConsts message) (Statement.messageNames message)

variable {l : Nat} {e : Expr} {message : Option Expr}

theorem messageSmall_none (h : l ≤ line) : MessageSmall line size l none :=
  fun _ _ => .const h nofun

theorem messageSmall_some (h : Derives .disjunction ts e) (hts : Within line size ts) :
    MessageSmall line size l (some e) :=
  fun pools pos => h.small pools pos hts

theorem assert_small (htest : Derives .disjunction ts e) (hts : Within line size ts)
    (hmessage : MessageSmall line size l message) (hl : l ≤ line) :
    StatementSmall line size (.assert (lastLine ts) e l message) := by
  intro mode pools pos
  have hcheck := htest.small pools pos hts
  have hcomplaint := hmessage pools (pos + (e.code pools pos).length + 1)
  rw [Statement.code]
  split
  · have hall := hcheck.append hcomplaint
    exact ⟨List.forall_mem_nil _, hall.texts, hall.names⟩
  · exact (hcheck.append (hcomplaint.cons hts.last)).concat hl

theorem raise_small {kindLine : Nat} {kind : String} (hkindLine : kindLine ≤ line)
    (hkind : kind.utf8ByteSize ≤ size) (hmessage : MessageSmall line size l message) (hl : l ≤ line) :
    StatementSmall line size (.raise kindLine kind l message) := by
  intro mode pools pos
  have hfirst : Small line size [pools.loadConst kindLine (.str kind)] [.str kind] [] :=
    .const hkindLine fun t ht => by
      cases ht
      exact hkind
  exact (hfirst.append (hmessage pools (pos + 1))).concat hl

/-- The complaint of a `raise` without a class is in no source. -/
theorem reraise_small (hl : l ≤ line) (hsize : 30 ≤ size) :
    StatementSmall line size
      (.raise l "RuntimeError" l (some (.const l (.str "No active exception to reraise")))) := by
  have hmessage : MessageSmall line size l (some (.const l (.str "No active exception to reraise"))) :=
    fun _ _ => .const hl fun t ht => by
      cases ht
      exact hsize
  exact raise_small hl (Nat.le_trans (by decide) hsize) hmessage hl

/-- The lines of a statement are those of its tokens, and its texts have their bytes. -/
theorem Spells.small {s : Statement} (h : Spells ts s) (hts : Within line size ts) (hsize : 30 ≤ size) :
    StatementSmall line size s := by
  cases h with
  | imports h =>
      have hsmall := h.small hts.tail
      intro mode pools pos
      refine ⟨?_, nofun, ?_⟩
      · exact List.forall_mem_map.mpr fun n hn => (hsmall n hn).1
      · exact List.forall_mem_map.mpr fun n hn => (hsmall n hn).2
  | assert h => exact assert_small h hts.tail (messageSmall_none hts.tail.last) hts.tail.last
  | assertMessage ha hb =>
      exact assert_small ha hts.sub (messageSmall_some hb hts.right.tail) hts.right.tail.last
  | reraise => exact reraise_small hts.head hsize
  | raise _ => exact raise_small hts.tail.head hts.tail.name (messageSmall_none hts.tail.head) hts.tail.head
  | raiseEmpty _ =>
      have hend := hts.tail.tail.tail.head
      exact raise_small hts.tail.head hts.tail.name (messageSmall_none hend) hend
  | raiseMessage _ h =>
      exact raise_small hts.tail.head hts.tail.name (messageSmall_some h hts.left.tail.tail.tail) hts.right.head
  | pass => exact fun _ _ _ => .nil
  | assign _ h =>
      exact fun _ pools pos => (h.small pools pos hts.tail.tail).concatName hts.tail.tail.last hts.name
  | expression h => exact fun _ pools pos => (h.small pools pos hts).concat hts.last

theorem SpellsAll.small {ss : List Statement} (h : SpellsAll ts ss) (hts : Within line size ts)
    (hsize : 30 ≤ size) : ∀ s ∈ ss, StatementSmall line size s := by
  induction h with
  | last h => exact List.forall_mem_singleton.mpr (h.small hts hsize)
  | closed h => exact List.forall_mem_singleton.mpr (h.small hts.left hsize)
  | more h _ ih => exact List.forall_mem_cons.mpr ⟨h.small hts.left hsize, ih hts.right.tail⟩

theorem SpellsProgram.small {p : Program} (h : SpellsProgram ts p) (hts : Within line size ts)
    (hsize : 30 ≤ size) : ∀ s ∈ p, StatementSmall line size s := by
  induction h with
  | done => nofun
  | line h _ ih => exact List.forall_mem_append.mpr ⟨h.small hts.left hsize, ih hts.right.tail⟩

end

end Grammar

theorem Program.code_small {line size : Nat} {p : Program} (h : ∀ s ∈ p, Grammar.StatementSmall line size s)
    (mode : CompileMode) (pools : Pools) (pos : Nat) :
    Small line size (code mode pools pos p) (p.flatMap Statement.consts) (p.flatMap Statement.names) := by
  induction p generalizing pos with
  | nil => exact .nil
  | cons s p ih =>
      obtain ⟨hs, hp⟩ := List.forall_mem_cons.mp h
      exact (hs mode pools pos).append (ih hp _)

/-! ## Code objects -/

theorem length_internAll_le {α : Type} [DecidableEq α] (pool as : List α) :
    (internAll pool as).length ≤ pool.length + as.length := by
  induction as generalizing pool with
  | nil => exact Nat.le_refl _
  | cons a as ih =>
      have hle := ih (intern pool a).2
      have ha : (intern pool a).2.length ≤ pool.length + 1 := by
        unfold intern
        split <;> simp
      rw [List.length_cons]
      show (internAll (intern pool a).2 as).length ≤ _
      omega

/-- How large the code of a source is. -/
structure Code.Bounded (code : Code) (bound : Nat) : Prop where
  body : code.body.length ≤ bound
  pools : code.consts.length + code.names.length ≤ bound
  small : Small bound (max 30 bound) code.body code.consts code.names

/-- Code has no more instructions, no more constants and names and no larger lines and texts than its source has
bytes and a newline. -/
theorem compile_bounded {mode : CompileMode} {file source : String} {code : Code}
    (h : compile mode file source = .ok code) : code.Bounded (source.utf8ByteSize + 1) := by
  obtain ⟨ts, p, hts, hp, rfl⟩ := compile_eq_ok.mp h
  have hp := Program.ofTokens_spells hts hp
  obtain ⟨hweight, hlines⟩ := tokenize_le hts
  let pools := Pools.ofProgram p
  have hwithin : Grammar.Within (source.utf8ByteSize + 1) (max 30 (source.utf8ByteSize + 1)) ts :=
    ⟨hlines, Nat.le_trans hweight (Nat.le_max_right ..)⟩
  have hsmall := Program.code_small (hp.small hwithin (Nat.le_max_left ..)) mode pools 0
  refine ⟨Nat.le_trans (hp.code_le mode pools 0) hweight, ?_, hsmall.lines, ?_, ?_⟩
  · have hconsts := length_internAll_le [] (p.flatMap Statement.consts)
    have hnames := length_internAll_le [] (p.flatMap Statement.names)
    have hcode := p.pools_le pools 0
    have hlen := hp.code_le {} pools 0
    simp only [List.length_nil, Nat.zero_add] at hconsts hnames
    simp only [Program.compile, Pools.ofProgram]
    omega
  · intro t ht
    exact hsmall.texts t (by simpa using mem_internAll.mp ht)
  · intro id hid
    exact hsmall.names id (by simpa using mem_internAll.mp hid)

end Launcher.Script
