import Launcher.Proofs.Script.Operands

/-!
# Pools of a program

The pools of a program hold all of its constants and names, so that emitted instructions refer to what is there.
-/

namespace Launcher.Script

/-! ## Interning -/

section

variable {α : Type} [DecidableEq α]

theorem mem_intern {pool : List α} {a b : α} : b ∈ (intern pool a).2 ↔ b ∈ pool ∨ b = a := by
  unfold intern
  split
  · rename_i i h
    have ha : a ∈ pool := by
      rw [← Decidable.not_not (p := a ∈ pool), ← List.idxOf?_eq_none_iff, h]
      simp
    exact ⟨Or.inl, fun hb => hb.elim id fun e => e ▸ ha⟩
  · simp

theorem mem_internAll {as pool : List α} {b : α} : b ∈ internAll pool as ↔ b ∈ pool ∨ b ∈ as := by
  induction as generalizing pool with
  | nil => simp [internAll]
  | cons a as ih =>
      have hstep : internAll pool (a :: as) = internAll (intern pool a).2 as := rfl
      rw [hstep, ih, mem_intern, List.mem_cons, or_assoc]

end

/-! ## What a program refers to -/

/-- Both pools have all of the given constants and names. -/
structure Pools.Hold (pools : Pools) (consts : List Const) (names : List String) : Prop where
  consts : ∀ c ∈ consts, c ∈ pools.consts
  names : ∀ n ∈ names, n ∈ pools.names

namespace Pools

variable {pools : Pools} {cs ds : List Const} {ns ms : List String}

theorem Hold.mono (h : pools.Hold ds ms) (hc : cs ⊆ ds) (hn : ns ⊆ ms) : pools.Hold cs ns :=
  ⟨fun c hcs => h.consts c (hc hcs), fun n hns => h.names n (hn hns)⟩

theorem Hold.left (h : pools.Hold (cs ++ ds) (ns ++ ms)) : pools.Hold cs ns :=
  h.mono (List.subset_append_left ..) (List.subset_append_left ..)

theorem Hold.right (h : pools.Hold (cs ++ ds) (ns ++ ms)) : pools.Hold ds ms :=
  h.mono (List.subset_append_right ..) (List.subset_append_right ..)

theorem hold_ofProgram (p : Program) {s : Statement} (hs : s ∈ p) :
    (ofProgram p).Hold s.consts s.names :=
  ⟨fun _ hc => mem_internAll.mpr (Or.inr (List.mem_flatMap.mpr ⟨s, hs, hc⟩)),
    fun _ hn => mem_internAll.mpr (Or.inr (List.mem_flatMap.mpr ⟨s, hs, hn⟩))⟩

/-- An instruction that looks nothing up. -/
theorem defines_of_none {i : Instr} (hc : i.const? = none) (hn : i.name? = none) : pools.Defines i :=
  ⟨fun k h => by simp [hc] at h, fun k h => by simp [hn] at h⟩

theorem defines_loadConst {c : Const} (h : c ∈ pools.consts) (line : Nat) :
    pools.Defines (pools.loadConst line c).instr := by
  refine ⟨fun k hk => ?_, fun k hk => by cases hk⟩
  cases hk; exact List.idxOf_lt_length_of_mem h

theorem defines_name {i : Instr} {n : String} (h : n ∈ pools.names) (hc : i.const? = none)
    (hn : i.name? = some (pools.name n)) : pools.Defines i := by
  refine ⟨fun k hk => by simp [hc] at hk, fun k hk => ?_⟩
  rw [hn] at hk
  cases hk; exact List.idxOf_lt_length_of_mem h

/-- The pools have all that the instructions look up. -/
def DefineAll (pools : Pools) (steps : List Step) : Prop := ∀ s ∈ steps, pools.Defines s.instr

theorem DefineAll.append {xs ys : List Step} (hx : pools.DefineAll xs) (hy : pools.DefineAll ys) :
    pools.DefineAll (xs ++ ys) :=
  List.forall_mem_append.mpr ⟨hx, hy⟩

theorem DefineAll.cons {s : Step} {xs : List Step} (hs : pools.Defines s.instr)
    (hx : pools.DefineAll xs) : pools.DefineAll (s :: xs) :=
  List.forall_mem_cons.mpr ⟨hs, hx⟩

theorem DefineAll.nil : pools.DefineAll [] := by intro s hs; cases hs

theorem DefineAll.single {s : Step} (hs : pools.Defines s.instr) : pools.DefineAll [s] := nil.cons hs

end Pools

/-! ## Emitted code -/

namespace Expr

variable {pools : Pools}

mutual

theorem code_defined (pos : Nat) :
    (e : Expr) → pools.Hold e.consts e.names → pools.DefineAll (e.code pools pos)
  | .const line c, h => .single (Pools.defines_loadConst (h.consts c (by simp [consts])) line)
  | .name _ id, h => .single (Pools.defines_name (h.names id (by simp [names])) rfl rfl)
  | .list _ es, h => by
      rw [code]
      exact (codeAll_defined pos es h).append (.single (Pools.defines_of_none rfl rfl))
  | .call _ e es, h => by
      rw [code]
      exact ((code_defined pos e h.left).append (codeAll_defined _ es h.right)).append
        (.single (Pools.defines_of_none rfl rfl))
  | .attr _ e id, h => by
      rw [code]
      have he : pools.Hold e.consts e.names := h.mono (by simp [consts]) (by simp [names])
      exact (code_defined pos e he).append
        (.single (Pools.defines_name (h.names id (by simp [names])) rfl rfl))
  | .negate _ e, h | .not _ e, h => by
      rw [code]
      exact (code_defined pos e h).append (.single (Pools.defines_of_none rfl rfl))
  | .subscript _ a b, h | .binary _ _ a b, h | .compare _ _ a b, h => by
      rw [code]
      exact ((code_defined pos a h.left).append (code_defined _ b h.right)).append
        (.single (Pools.defines_of_none rfl rfl))
  | .and _ a b, h | .or _ a b, h => by
      rw [code]
      exact (code_defined pos a h.left).append
        (.cons (Pools.defines_of_none rfl rfl) (code_defined _ b h.right))

theorem codeAll_defined (pos : Nat) :
    (es : List Expr) → pools.Hold (constsAll es) (namesAll es) →
      pools.DefineAll (codeAll pools pos es)
  | [], _ => .nil
  | e :: es, h => by
      rw [codeAll]
      exact (code_defined pos e h.left).append (codeAll_defined _ es h.right)

end

end Expr

section

variable {pools : Pools} {mode : CompileMode}

theorem Statement.messageCode_defined (pos line : Nat) (message : Option Expr)
    (h : pools.Hold (messageConsts message) (messageNames message)) :
    pools.DefineAll (messageCode pools pos line message) := by
  cases message with
  | none => exact .single (Pools.defines_loadConst (h.consts .none (by simp [messageConsts])) line)
  | some e => exact e.code_defined pos h

theorem Statement.code_defined (pos : Nat) (s : Statement) (h : pools.Hold s.consts s.names) :
    pools.DefineAll (s.code mode pools pos) := by
  cases s with
  | imports dotted =>
      intro step hstep
      obtain ⟨⟨line, id⟩, hd, rfl⟩ := List.mem_map.mp hstep
      exact Pools.defines_name (h.names id (List.mem_map_of_mem hd)) rfl rfl
  | pass => exact .nil
  | assert testLine test line message =>
      rw [code]
      split
      · exact .nil
      · exact ((test.code_defined pos h.left).append (.cons (Pools.defines_of_none rfl rfl)
          (messageCode_defined _ line message h.right))).append (.single (Pools.defines_of_none rfl rfl))
  | raise kindLine kind line message =>
      rw [code]
      have hm := h.mono (List.subset_cons_self ..) (List.Subset.refl _)
      exact .append (.cons (Pools.defines_loadConst (h.consts _ List.mem_cons_self) kindLine)
        (messageCode_defined _ line message hm)) (.single (Pools.defines_of_none rfl rfl))
  | assign line id e =>
      have he : pools.Hold e.consts e.names := h.mono (by simp [consts]) (by simp [names])
      exact (e.code_defined pos he).append
        (.single (Pools.defines_name (h.names id (by simp [names])) rfl rfl))
  | expression line e =>
      refine (e.code_defined pos h).append (.single ?_)
      cases mode.echo
      · exact Pools.defines_of_none rfl rfl
      · exact Pools.defines_of_none rfl rfl

theorem Program.code_defined (pos : Nat) (p : Program) (h : ∀ s ∈ p, pools.Hold s.consts s.names) :
    pools.DefineAll (code mode pools pos p) := by
  induction p generalizing pos with
  | nil => exact .nil
  | cons s p ih =>
      exact (s.code_defined pos (h s List.mem_cons_self)).append
        (ih _ fun t ht => h t (List.mem_cons_of_mem s ht))

end

end Launcher.Script
