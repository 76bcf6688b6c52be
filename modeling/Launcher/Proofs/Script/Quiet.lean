import Launcher.Proofs.Script.Pools

/-!
# Programs that cannot tell where their module is

A program without imports that does not read the variable with the file of its module is compiled to code that does
neither of the two.
-/

namespace Launcher.Script

/-- The variable with the file of a module. -/
def fileVariable : String := "__file__"

/-! ## Quiet programs and quiet code -/

/-- The names whose values a statement reads. -/
def Statement.reads : Statement → List String
  | .imports _ | .pass => []
  | .assert _ test _ message => test.names ++ messageNames message
  | .raise _ _ _ message => messageNames message
  | .assign _ _ e | .expression _ e => e.names

/-- The statement is no import and does not read the file of its module. It may assign to that variable. -/
structure Statement.Quiet (s : Statement) : Prop where
  imports : ∀ names, s ≠ .imports names
  reads : fileVariable ∉ s.reads

def Program.Quiet (p : Program) : Prop := ∀ s ∈ p, s.Quiet

def Instr.Quiet (names : List String) : Instr → Prop
  | importName _ => False
  | loadName i | loadAttr i => names[i]? ≠ some fileVariable
  | _ => True

def Code.Quiet (code : Code) : Prop := ∀ s ∈ code.body, s.instr.Quiet code.names

namespace Pools

variable {pools : Pools} {ids others : List String}

/-- The names are in the pool, and none is that of the variable with the file. -/
def Reads (pools : Pools) (ids : List String) : Prop := ∀ id ∈ ids, id ∈ pools.names ∧ id ≠ fileVariable

theorem Reads.left (h : pools.Reads (ids ++ others)) : pools.Reads ids := fun id hid =>
  h id (List.mem_append_left others hid)

theorem Reads.right (h : pools.Reads (ids ++ others)) : pools.Reads others := fun id hid =>
  h id (List.mem_append_right ids hid)

theorem getElem?_name {id : String} (h : id ∈ pools.names) : pools.names[pools.name id]? = some id :=
  List.getElem?_eq_some_iff.mpr ⟨List.idxOf_lt_length_of_mem h, List.getElem_idxOf _⟩

theorem Reads.not_file {id : String} (h : pools.Reads ids) (hid : id ∈ ids) :
    pools.names[pools.name id]? ≠ some fileVariable := by
  rw [getElem?_name (h id hid).1]
  exact fun heq => (h id hid).2 (Option.some.inj heq)

/-- The steps are quiet with these names. -/
def Quiets (pools : Pools) (xs : List Step) : Prop := ∀ s ∈ xs, s.instr.Quiet pools.names

theorem Quiets.append {xs ys : List Step} (hx : pools.Quiets xs) (hy : pools.Quiets ys) : pools.Quiets (xs ++ ys) :=
  List.forall_mem_append.mpr ⟨hx, hy⟩

theorem Quiets.cons {s : Step} {xs : List Step} (hs : s.instr.Quiet pools.names) (hx : pools.Quiets xs) :
    pools.Quiets (s :: xs) :=
  List.forall_mem_cons.mpr ⟨hs, hx⟩

theorem Quiets.nil : pools.Quiets [] := nofun

theorem Quiets.single {s : Step} (hs : s.instr.Quiet pools.names) : pools.Quiets [s] := nil.cons hs

end Pools

/-! ## Compilation -/

namespace Expr

variable {pools : Pools}

mutual

theorem code_quiet (pos : Nat) : (e : Expr) → pools.Reads e.names → pools.Quiets (e.code pools pos)
  | .const _ _, _ => .single trivial
  | .name _ id, h => .single (h.not_file (by simp [names]))
  | .list _ es, h => by
      rw [code]
      exact (codeAll_quiet pos es h).append (.single trivial)
  | .call _ e es, h => by
      rw [code]
      exact ((code_quiet pos e h.left).append (codeAll_quiet _ es h.right)).append (.single trivial)
  | .attr _ e id, h => by
      rw [code]
      exact (code_quiet pos e h.left).append (.single (h.not_file (by simp [names])))
  | .negate _ e, h | .not _ e, h => by
      rw [code]
      exact (code_quiet pos e h).append (.single trivial)
  | .subscript _ a b, h | .binary _ _ a b, h | .compare _ _ a b, h => by
      rw [code]
      exact ((code_quiet pos a h.left).append (code_quiet _ b h.right)).append (.single trivial)
  | .and _ a b, h | .or _ a b, h => by
      rw [code]
      exact (code_quiet pos a h.left).append (.cons trivial (code_quiet _ b h.right))

theorem codeAll_quiet (pos : Nat) : (es : List Expr) → pools.Reads (namesAll es) → pools.Quiets (codeAll pools pos es)
  | [], _ => .nil
  | e :: es, h => by
      rw [codeAll]
      exact (code_quiet pos e h.left).append (codeAll_quiet _ es h.right)

end

end Expr

section

variable {pools : Pools} {mode : CompileMode}

theorem Statement.messageCode_quiet (pos line : Nat) (message : Option Expr)
    (h : pools.Reads (messageNames message)) : pools.Quiets (messageCode pools pos line message) := by
  cases message with
  | none => exact .single trivial
  | some e => exact e.code_quiet pos h

theorem Statement.code_quiet (pos : Nat) (s : Statement) (himports : ∀ names, s ≠ .imports names)
    (h : pools.Reads s.reads) : pools.Quiets (s.code mode pools pos) := by
  cases s with
  | imports dotted => exact absurd rfl (himports dotted)
  | pass => exact .nil
  | assert testLine test line message =>
      rw [code]
      split
      · exact .nil
      · refine ((test.code_quiet pos h.left).append (.cons ?_ (messageCode_quiet _ line message h.right))).append
          (.single trivial)
        trivial
  | raise kindLine kind line message =>
      have hkind : (pools.loadConst kindLine (.str kind)).instr.Quiet pools.names := trivial
      exact .append (.cons hkind (messageCode_quiet _ line message h)) (.single trivial)
  | assign line id e => exact (e.code_quiet pos h).append (.single trivial)
  | expression line e =>
      refine (e.code_quiet pos h).append (.single ?_)
      cases mode.echo <;> trivial

theorem Statement.reads_subset (s : Statement) : s.reads ⊆ s.names := by
  cases s with
  | assign line id e => exact List.subset_append_left ..
  | imports _ => exact List.nil_subset _
  | _ => exact List.Subset.refl _

theorem Program.code_quiet (pos : Nat) (p : Program)
    (h : ∀ s ∈ p, (∀ names, s ≠ .imports names) ∧ pools.Reads s.reads) : pools.Quiets (code mode pools pos p) := by
  induction p generalizing pos with
  | nil => exact .nil
  | cons s p ih =>
      obtain ⟨himports, hreads⟩ := h s List.mem_cons_self
      exact (s.code_quiet pos himports hreads).append (ih _ fun t ht => h t (List.mem_cons_of_mem s ht))

theorem Program.compile_quiet (mode : CompileMode) (file : String) {p : Program} (h : p.Quiet) :
    (p.compile mode file).Quiet := by
  refine p.code_quiet 0 fun s hs => ⟨(h s hs).imports, fun id hid => ⟨?_, ?_⟩⟩
  · exact (Pools.hold_ofProgram p hs).names id (s.reads_subset hid)
  · rintro rfl
    exact (h s hs).reads hid

end

end Launcher.Script
