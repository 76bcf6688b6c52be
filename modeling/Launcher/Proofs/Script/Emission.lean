import Launcher.Proofs.Script.Joining
import Launcher.Proofs.Script.PoolGrowth

/-!
# Code that is emitted in one pass

A single pass over a program emits the instructions as it comes to them: a constant or a name goes to its pool just
then, where a jump goes is filled in when the place is reached, and an assertion that is left out is taken off the end
again, but stays in the pools. The code that comes of this is the code of the program for the pools of all of it, and
the pools are those of a code object to which the constants and names were added one after the other.
-/

namespace Launcher.Script

/-! ## Emission -/

/-- The instruction with another place to go to, if it is a jump. -/
def Instr.goingTo (target : Nat) : Instr → Instr
  | .jumpIfTrue _ => .jumpIfTrue target
  | .jumpIfFalseOrPop _ => .jumpIfFalseOrPop target
  | .jumpIfTrueOrPop _ => .jumpIfTrueOrPop target
  | i => i

namespace Code

/-- Put an instruction at the end. -/
def emit (code : Code) (line : Nat) (instr : Instr) : Code := { code with body := code.body ++ [⟨instr, line⟩] }

/-- Add a constant and put an instruction at the end that pushes it. -/
def emitConst (code : Code) (line : Nat) (c : Const) : Code :=
  let (i, code) := code.addConst c
  code.emit line (.loadConst i)

/-- Add a name and put an instruction at the end that refers to it. -/
def emitName (code : Code) (line : Nat) (instr : Nat → Instr) (id : String) : Code :=
  let (i, code) := code.addName id
  code.emit line (instr i)

/-- Let the jump at a position go to the end. -/
def patch (code : Code) (position : Nat) : Code :=
  { code with body := code.body.modify position fun s => { s with instr := s.instr.goingTo code.body.length } }

/-- Keep only the first instructions. The pools stay as they are. -/
def truncate (code : Code) (size : Nat) : Code := { code with body := code.body.take size }

end Code

namespace Expr

mutual

/-- Emit instructions that push the value of an expression. -/
def emit (code : Code) : Expr → Code
  | .const line c => code.emitConst line c
  | .name line id => code.emitName line .loadName id
  | .list line es => (emitAll code es).emit line (.buildList es.length)
  | .call line e es => (emitAll (emit code e) es).emit line (.call es.length)
  | .attr line e id => (emit code e).emitName line .loadAttr id
  | .subscript line a b => (emit (emit code a) b).emit line .subscript
  | .negate line e => (emit code e).emit line .negate
  | .binary line op a b => (emit (emit code a) b).emit line (.binary op)
  | .compare line op a b => (emit (emit code a) b).emit line (.compare op)
  | .not line e => (emit code e).emit line .not
  | .and line a b =>
    let left := emit code a
    (emit (left.emit line (.jumpIfFalseOrPop 0)) b).patch left.body.length
  | .or line a b =>
    let left := emit code a
    (emit (left.emit line (.jumpIfTrueOrPop 0)) b).patch left.body.length

/-- Emit instructions that push the values of expressions, the last on top. -/
def emitAll (code : Code) : List Expr → Code
  | [] => code
  | e :: es => emitAll (emit code e) es

end

end Expr

namespace Statement

/-- Emit instructions that push the message of an error. -/
def emitMessage (code : Code) (line : Nat) : Option Expr → Code
  | some e => e.emit code
  | none => code.emitConst line .none

/-- Emit instructions that carry out a statement. -/
def emit (mode : CompileMode) (code : Code) : Statement → Code
  | .imports dotted => dotted.foldl (fun code (line, id) => code.emitName line .importName id) code
  | .assert testLine test line message =>
    let tested := test.emit code
    let complaint := emitMessage (tested.emit testLine (.jumpIfTrue 0)) line message
    let whole := (complaint.emit line .assertFail).patch tested.body.length
    if mode.dropAsserts then whole.truncate code.body.length else whole
  | .raise kindLine kind line message =>
    (emitMessage (code.emitConst kindLine (.str kind)) line message).emit line .raise
  | .pass => code
  | .assign line id e => (e.emit code).emitName line .storeName id
  | .expression line e => (e.emit code).emit line (if mode.echo then .printExpr else .pop)

end Statement

/-- Emit instructions that carry out statements one after the other. -/
def Program.emit (mode : CompileMode) (code : Code) (p : Program) : Code := p.foldl (Statement.emit mode) code

/-! ## What is emitted -/

/-- The code object `result` is `code` with the constants and names added to the pools and instructions behind its own.
They are the steps for all pools that the pools grow to, from the end of `code` on. -/
structure Emits (code result : Code) (cs : List Const) (ns : List String) (steps : Pools → Nat → List Step) : Prop where
  file : result.file = code.file
  consts : result.consts = internAll code.consts cs
  names : result.names = internAll code.names ns
  body : ∀ last : Code, result.Grows last → result.body = code.body ++ steps last.pools code.body.length

section

variable {α : Type} [DecidableEq α] {pool later : List α} {a : α}

/-- The position that an entry was given is its position in whatever the pool grows to. -/
theorem intern_eq_idxOf (h : (intern pool a).2 <+: later) : (intern pool a).1 = later.idxOf a := by
  obtain ⟨more, rfl⟩ := h
  rw [List.idxOf_append_of_mem (mem_intern.mpr (.inr rfl))]
  unfold intern
  split
  · rename_i i hi
    rw [List.idxOf_eq_getD_idxOf?, hi]
    rfl
  · rename_i hnone
    rw [List.idxOf_append_of_notMem (List.idxOf?_eq_none_iff.mp hnone)]
    simp

end

namespace Emits

variable {code mid left right result : Code} {cs ds : List Const} {ns ms : List String}
  {f g : Pools → Nat → List Step} {line : Nat}

theorem grows (h : Emits code result cs ns f) : code.Grows result :=
  ⟨h.consts ▸ prefix_internAll _ _, h.names ▸ prefix_internAll _ _⟩

theorem none (code : Code) : Emits code code [] [] fun _ _ => [] :=
  ⟨rfl, rfl, rfl, fun _ _ => (List.append_nil _).symm⟩

theorem append (hx : Emits code mid cs ns f) (hy : Emits mid result ds ms g) :
    Emits code result (cs ++ ds) (ns ++ ms) fun pools pos => f pools pos ++ g pools (pos + (f pools pos).length) where
  file := hy.file.trans hx.file
  consts := by rw [hy.consts, hx.consts, internAll_append]
  names := by rw [hy.names, hx.names, internAll_append]
  body last hlast := by
    rw [hy.body last hlast, hx.body last (hy.grows.trans hlast), List.length_append, List.append_assoc]

/-- An instruction that refers to no pool. -/
theorem emit (code : Code) (line : Nat) (instr : Instr) :
    Emits code (code.emit line instr) [] [] fun _ _ => [⟨instr, line⟩] :=
  ⟨rfl, rfl, rfl, fun _ _ => rfl⟩

theorem concat (h : Emits code mid cs ns f) (line : Nat) (instr : Instr) :
    Emits code (mid.emit line instr) cs ns fun pools pos => f pools pos ++ [⟨instr, line⟩] := by
  have hemits := h.append (emit mid line instr)
  rwa [List.append_nil, List.append_nil] at hemits

theorem const (code : Code) (line : Nat) (c : Const) :
    Emits code (code.emitConst line c) [c] [] fun pools _ => [pools.loadConst line c] where
  file := rfl
  consts := rfl
  names := rfl
  body last hlast := by
    have hindex : (intern code.consts c).1 = last.consts.idxOf c := intern_eq_idxOf hlast.consts
    show code.body ++ [⟨.loadConst (intern code.consts c).1, line⟩] = _
    rw [hindex]
    rfl

/-- A name is added, and the instruction that refers to it comes last. -/
theorem concatName (h : Emits code mid cs ns f) (line : Nat) (instr : Nat → Instr) (id : String) :
    Emits code (mid.emitName line instr id) cs (ns ++ [id]) fun pools pos =>
      f pools pos ++ [⟨instr (pools.name id), line⟩] := by
  have hname : Emits mid (mid.emitName line instr id) [] [id] fun pools _ => [⟨instr (pools.name id), line⟩] := by
    refine ⟨rfl, rfl, rfl, fun last hlast => ?_⟩
    have hindex : (intern mid.names id).1 = last.names.idxOf id := intern_eq_idxOf hlast.names
    show mid.body ++ [⟨instr (intern mid.names id).1, line⟩] = _
    rw [hindex]
    rfl
  have hemits := h.append hname
  rwa [List.append_nil] at hemits

/-- A jump behind `left` goes behind what is emitted after it. -/
theorem patch {instr : Instr} (hx : Emits code left cs ns f) (hy : Emits (left.emit line instr) right ds ms g) :
    Emits code (right.patch left.body.length) (cs ++ ds) (ns ++ ms) fun pools pos =>
      let before := f pools pos
      let after := g pools (pos + before.length + 1)
      before ++ ⟨instr.goingTo (pos + before.length + 1 + after.length), line⟩ :: after where
  file := hy.file.trans hx.file
  consts := ((hx.concat line instr).append hy).consts
  names := ((hx.concat line instr).append hy).names
  body last hlast := by
    have hgrows : right.Grows last := ⟨hlast.consts, hlast.names⟩
    have hleft : left.body = code.body ++ f last.pools code.body.length :=
      hx.body last (((emit left line instr).append hy).grows.trans hgrows)
    have hsize : left.body.length = code.body.length + (f last.pools code.body.length).length := by
      rw [hleft, List.length_append]
    have hright : right.body = left.body ++ ⟨instr, line⟩ :: g last.pools (left.body.length + 1) := by
      rw [hy.body last hgrows, Code.emit, List.length_append, List.append_assoc]
      rfl
    have htarget (n : Nat) : left.body.length + (n + 1) = left.body.length + 1 + n := by omega
    show right.body.modify left.body.length _ = _
    rw [hright, List.modify_eq_take_drop, List.take_left, List.drop_left, List.modifyHead_cons, List.length_append,
      List.length_cons, htarget, hsize, hleft, List.append_assoc]

/-- What was emitted is taken off again, but the pools have grown. -/
theorem truncate (h : Emits code result cs ns f) :
    Emits code (result.truncate code.body.length) cs ns fun _ _ => [] where
  file := h.file
  consts := h.consts
  names := h.names
  body _ _ := by
    rw [Code.truncate, h.body result (.refl result), List.take_left, List.append_nil]

theorem congr (h : Emits code result cs ns f) (hcs : cs = ds) (hns : ns = ms) (hf : f = g) :
    Emits code result ds ms g := by
  subst hcs hns hf
  exact h

end Emits

namespace Expr

mutual

theorem emits (code : Code) : (e : Expr) → Emits code (e.emit code) e.consts e.names fun pools pos => e.code pools pos
  | .const line c => .const code line c
  | .name line id => (Emits.none code).concatName line .loadName id
  | .list line es => (emitsAll code es).concat line (.buildList es.length)
  | .call line e es => ((emits code e).append (emitsAll (e.emit code) es)).concat line (.call es.length)
  | .attr line e id => (emits code e).concatName line .loadAttr id
  | .subscript line a b => ((emits code a).append (emits (a.emit code) b)).concat line .subscript
  | .negate line e => (emits code e).concat line .negate
  | .binary line op a b => ((emits code a).append (emits (a.emit code) b)).concat line (.binary op)
  | .compare line op a b => ((emits code a).append (emits (a.emit code) b)).concat line (.compare op)
  | .not line e => (emits code e).concat line .not
  | .and line a b => (emits code a).patch (emits ((a.emit code).emit line (.jumpIfFalseOrPop 0)) b)
  | .or line a b => (emits code a).patch (emits ((a.emit code).emit line (.jumpIfTrueOrPop 0)) b)

theorem emitsAll (code : Code) : (es : List Expr) →
    Emits code (emitAll code es) (constsAll es) (namesAll es) fun pools pos => codeAll pools pos es
  | [] => .none code
  | e :: es => (emits code e).append (emitsAll (e.emit code) es)

end

end Expr

namespace Statement

theorem emits_message (code : Code) (line : Nat) (message : Option Expr) :
    Emits code (emitMessage code line message) (messageConsts message) (messageNames message) fun pools pos =>
      messageCode pools pos line message := by
  cases message with
  | none => exact .const code line .none
  | some e => exact e.emits code

theorem emits_imports (code : Code) (dotted : List (Nat × String)) (mode : CompileMode) :
    Emits code (emit mode code (.imports dotted)) [] (dotted.map Prod.snd) fun pools _ =>
      dotted.map fun (line, id) => ⟨.importName (pools.name id), line⟩ := by
  induction dotted generalizing code with
  | nil => exact .none code
  | cons d dotted ih => exact ((Emits.none code).concatName d.1 .importName d.2).append (ih _)

theorem emits (mode : CompileMode) (code : Code) (s : Statement) :
    Emits code (s.emit mode code) s.consts s.names fun pools pos => s.code mode pools pos := by
  cases s with
  | imports dotted => exact emits_imports code dotted mode
  | assert testLine test line message =>
      have hwhole := (test.emits code).patch ((emits_message ((test.emit code).emit testLine (.jumpIfTrue 0)) line
        message).concat line .assertFail)
      obtain ⟨dropAsserts, echo⟩ := mode
      cases dropAsserts with
      | true => exact hwhole.truncate
      | false =>
          refine hwhole.congr rfl rfl (funext fun pools => funext fun pos => ?_)
          simp [Statement.code, Instr.goingTo, Nat.add_assoc]
  | raise kindLine kind line message =>
      exact ((Emits.const code kindLine (.str kind)).append (emits_message _ line message)).concat line .raise
  | pass => exact .none code
  | assign line id e => exact (e.emits code).concatName line .storeName id
  | expression line e => exact (e.emits code).concat line _

end Statement

namespace Program

theorem emits (mode : CompileMode) (code : Code) (p : Program) :
    Emits code (p.emit mode code) (p.flatMap Statement.consts) (p.flatMap Statement.names) fun pools pos =>
      p.code mode pools pos := by
  induction p generalizing code with
  | nil => exact .none code
  | cons s p ih => exact (s.emits mode code).append (ih (s.emit mode code))

/-- The single pass makes the code of the program. -/
theorem emit_eq_compile (mode : CompileMode) (file : String) (p : Program) :
    p.emit mode { file } = p.compile mode file := by
  have h := p.emits mode { file }
  generalize p.emit mode { file } = result at h ⊢
  obtain ⟨file', consts, names, body⟩ := result
  have hpools : Pools.mk consts names = Pools.ofProgram p := congrArg₂ Pools.mk h.consts h.names
  have hbody : body = p.code mode (Pools.ofProgram p) 0 := hpools ▸ h.body _ (.refl _)
  obtain rfl : file' = file := h.file
  rw [compile, hbody, ← hpools]

end Program

/-! ## Pools as they grow -/

/-- The constant that is added, if it is one. -/
def Entry.const? : Entry → Option Const
  | .const c => some c
  | .name _ => none

/-- The name that is added, if it is one. -/
def Entry.name? : Entry → Option String
  | .const _ => none
  | .name s => some s

theorem Code.addAll_eq (code : Code) (es : List Entry) :
    code.addAll es = { code with
      consts := internAll code.consts (es.filterMap Entry.const?)
      names := internAll code.names (es.filterMap Entry.name?) } := by
  induction es generalizing code with
  | nil => rfl
  | cons e es ih =>
      have hstep : code.addAll (e :: es) = (code.add e).2.addAll es := rfl
      rw [hstep, ih]
      cases e with
      | const c => rfl
      | name s => rfl

/-- What a program refers to, statement by statement. -/
def Program.entries (p : Program) : List Entry := p.flatMap fun s => s.consts.map .const ++ s.names.map .name

/-- The code of a program has the pools of a code object to which all that the program refers to was added. -/
theorem Program.compile_addAll (mode : CompileMode) (file : String) (p : Program) :
    p.compile mode file = { Code.addAll { file } p.entries with body := p.code mode (Pools.ofProgram p) 0 } := by
  have hconsts : p.entries.filterMap Entry.const? = p.flatMap Statement.consts := by
    simp [entries, List.filterMap_flatMap, Entry.const?, List.filterMap_map, Function.comp_def]
  have hnames : p.entries.filterMap Entry.name? = p.flatMap Statement.names := by
    simp [entries, List.filterMap_flatMap, Entry.name?, List.filterMap_map, Function.comp_def]
  rw [Code.addAll_eq, hconsts, hnames]
  rfl

/-- No pool of a program has an entry twice. -/
theorem Program.compile_distinct (mode : CompileMode) (file : String) (p : Program) :
    (p.compile mode file).Distinct := by
  have hadded : (Code.addAll { file } p.entries).Distinct := (Code.distinct_of_new file).addAll p.entries
  rw [compile_addAll]
  exact ⟨hadded.consts, hadded.names⟩

end Launcher.Script
