import Launcher.Proofs.Action
import Launcher.Script.Machine.Exec

/-!
# Operands of instructions

How many operands an instruction takes off the stack and puts there, where control goes on after it, and
what it looks up in the pools. A step that goes on leaves exactly the operands that are said here. A step that
finds what it needs raises a complaint about missing operands or bad code only where a value of the program, a
function that is called or a module that is imported makes it.
-/

namespace Launcher.Script

/-! ## What an instruction needs and leaves -/

namespace Instr

/-- How many operands are taken off the stack, also by an instruction that may put one back. -/
def pops : Instr → Nat
  | loadConst _ | loadName _ | importName _ => 0
  | storeName _ | loadAttr _ | negate | not | pop | printExpr | assertFail => 1
  | jumpIfTrue _ | jumpIfFalseOrPop _ | jumpIfTrueOrPop _ => 1
  | binary _ | compare _ | subscript | raise => 2
  | call n => n + 1
  | buildList n => n

/-- How many operands are put on the stack on the way to the next instruction. -/
def pushes : Instr → Nat
  | loadConst _ | loadName _ | loadAttr _ | negate | not | binary _ | compare _ | subscript => 1
  | call _ | buildList _ => 1
  | _ => 0

/-- The number of operands on the way to the next instruction, of `depth` before. -/
def fallDepth (depth : Nat) (i : Instr) : Nat := depth - i.pops + i.pushes

/-- The number of operands where a jump leads, of `depth` before. -/
def jumpDepth (depth : Nat) : Instr → Nat
  | jumpIfTrue _ => depth - 1
  | _ => depth

/-- Where control can go from an instruction at `pos`, and how many operands there are then. -/
def successors (pos depth : Nat) (i : Instr) : List (Nat × Nat) :=
  (pos + 1, i.fallDepth depth) :: i.target?.toList.map fun t => (t, i.jumpDepth depth)

/-- The place in the pool of constants that is looked up. -/
def const? : Instr → Option Nat
  | loadConst i => some i
  | _ => Option.none

/-- The place in the pool of names that is looked up. -/
def name? : Instr → Option Nat
  | loadName i | storeName i | loadAttr i | importName i => some i
  | _ => Option.none

end Instr

/-- Both pools have what the instruction looks up. -/
structure Pools.Defines (pools : Pools) (i : Instr) : Prop where
  const : ∀ k, i.const? = some k → k < pools.consts.length
  name : ∀ k, i.name? = some k → k < pools.names.length

def Code.pools (code : Code) : Pools := ⟨code.consts, code.names⟩

namespace Exec

variable {env : Surroundings} {run : Runner} {code : Code} {module : String} {s : Step}
  {stack : List Value} {m m' : Machine} {next : Next}

/-! ## Taking operands and looking up -/

theorem pop_eq_ok {v : Value} {rest : List Value} : pop stack = .ok (v, rest) ↔ stack = v :: rest := by
  cases stack <;> simp [pop]

theorem popMany_eq_ok {n : Nat} {vs rest : List Value} :
    popMany n stack = .ok (vs, rest) ↔
      n ≤ stack.length ∧ (stack.take n).reverse = vs ∧ stack.drop n = rest := by
  unfold popMany; split <;> simp [*]

theorem ofExcept_eq_ok {α : Type} {x : Except TargetError α} {a : α} :
    Run.ofExcept x m = (.ok a, m') ↔ x = .ok a ∧ m = m' := by
  cases x <;> simp [Run.ofExcept, Run.raise]

theorem ofExcept_eq_raised {α : Type} {x : Except TargetError α} {e : TargetError} :
    Run.ofExcept x m = (.error (.raised e), m') ↔ x = .error e ∧ m = m' := by
  cases x <;> simp [Run.ofExcept, Run.raise]

/-- The streams fail with an error of their own kind. -/
theorem transfer_eq_raised {α : Type} {x : Streams.Transfer α} {e : TargetError}
    (h : Run.transfer x m = (.error (.raised e), m')) : ∃ message, e = Run.streamError message := by
  rcases hx : x m.channels.streams with ⟨message | a, streams⟩
  all_goals
    rw [Run.transfer, hx] at h
    cases h
  exact ⟨message, rfl⟩

/-! ## Instructions on their operands -/

/-- Go on with the value of a computation on the stack. -/
def pushing (stack : List Value) (x : Run Value) : Run Next :=
  x >>= fun v => Action.pure { stack := v :: stack }

/-- Call a value. -/
def apply (site : CallSite) (callee : Value) (args : List Value) : Run Value :=
  match callee with
  | .builtin f => Call.call site f args
  | v => Run.raise (Call.typeError ("'" ++ v.typeName ++ "' object is not callable"))

/-- The value of a name, in the machine as it is. -/
def readName (env : Surroundings) (module name : String) : Run Value :=
  Action.get >>= fun m => Run.ofExcept (loadName env module name m)

/-- The attribute of a value, in the machine as it is. -/
def readAttr (v : Value) (name : String) : Run Value :=
  Action.get >>= fun m => Run.ofExcept (loadAttr v name m)

/-- Print what an expression gives, unless that is nothing. -/
def echo (v : Value) : Run Unit := if v.isNone then Action.pure () else Run.out v.repr

theorem pushing_eq_error {x : Run Value} {h : Halt} :
    pushing stack x m = (.error h, m') ↔ x m = (.error h, m') := by
  simp [pushing]

variable {line k n : Nat} {name : String} {v a b : Value}

theorem constAt_of_some {c : Const} (h : code.consts[k]? = some c) : constAt code k = .ok c := by
  rw [constAt, h]

theorem nameAt_of_some (h : code.names[k]? = some name) : nameAt code k = .ok name := by
  rw [nameAt, h]

theorem popMany_append (vs rest : List Value) :
    popMany vs.length (vs.reverse ++ rest) = .ok (vs, rest) := by
  have hlen : vs.reverse.length = vs.length := List.length_reverse
  rw [popMany_eq_ok, ← hlen, List.take_left, List.drop_left, List.reverse_reverse]
  simp

theorem step_loadConst {c : Const} (h : code.consts[k]? = some c) :
    step env run code module ⟨.loadConst k, line⟩ stack =
      pushing stack (Action.pure (Value.ofConst c)) := by
  simp only [step, constAt_of_some h]; rfl

theorem step_loadName (h : code.names[k]? = some name) :
    step env run code module ⟨.loadName k, line⟩ stack =
      pushing stack (readName env module name) := by
  simp only [step, nameAt_of_some h]; rfl

theorem step_storeName (h : code.names[k]? = some name) :
    step env run code module ⟨.storeName k, line⟩ (v :: stack) m =
      (.ok { stack }, m.bind module name v) := by
  simp only [step, nameAt_of_some h]; rfl

theorem step_loadAttr (h : code.names[k]? = some name) :
    step env run code module ⟨.loadAttr k, line⟩ (v :: stack) = pushing stack (readAttr v name) := by
  simp only [step, nameAt_of_some h]; rfl

theorem step_binary {op : BinaryOp} :
    step env run code module ⟨.binary op, line⟩ (b :: a :: stack) =
      pushing stack (Run.ofExcept ((Value.binary op a b).mapError OperandError.toTarget)) := rfl

theorem step_compare {op : Comparison} :
    step env run code module ⟨.compare op, line⟩ (b :: a :: stack) =
      pushing stack (Run.ofExcept ((Value.compare op a b).mapError OperandError.toTarget)) := rfl

theorem step_negate :
    step env run code module ⟨.negate, line⟩ (a :: stack) =
      pushing stack (Run.ofExcept (a.negate.mapError OperandError.toTarget)) := rfl

theorem step_not :
    step env run code module ⟨.not, line⟩ (a :: stack) =
      pushing stack (Action.pure (.bool !a.truthy)) := rfl

theorem step_call (args : List Value) :
    step env run code module ⟨.call args.length, line⟩ (args.reverse ++ v :: stack) =
      pushing stack (apply ⟨code.file, line, module⟩ v args) := by
  funext m
  simp only [step, popMany_append]
  cases v <;> rfl

theorem step_subscript :
    step env run code module ⟨.subscript, line⟩ (b :: a :: stack) =
      pushing stack (Run.ofExcept ((a.subscript b).mapError OperandError.toTarget)) := rfl

theorem step_buildList (items : List Value) :
    step env run code module ⟨.buildList items.length, line⟩ (items.reverse ++ stack) =
      pushing stack (Action.pure (.list items)) := by
  simp only [step, popMany_append]; rfl

theorem step_importName (h : code.names[k]? = some name) :
    step env run code module ⟨.importName k, line⟩ stack =
      importAll env run (throughNames name) >>= fun _ =>
        let top := (name.splitOn ".").headD name
        Action.modify (Machine.bind module top (.module top)) >>= fun _ => Action.pure { stack } := by
  simp only [step, nameAt_of_some h]; rfl

theorem step_printExpr :
    step env run code module ⟨.printExpr, line⟩ (v :: stack) = echo v >>= fun _ => Action.pure { stack } := by
  cases v <;> rfl

theorem step_jumpIfFalseOrPop :
    step env run code module ⟨.jumpIfFalseOrPop k, line⟩ (v :: stack) m =
      (.ok (if v.truthy then { stack } else { stack := v :: stack, jump := some k }), m) := rfl

theorem step_jumpIfTrueOrPop :
    step env run code module ⟨.jumpIfTrueOrPop k, line⟩ (v :: stack) m =
      (.ok (if v.truthy then { stack := v :: stack, jump := some k } else { stack }), m) := rfl

/-! ## What a step leaves -/

theorem falls_to_successor {i : Instr} {pos depth : Nat} {left : List Value}
    (h : left.length = i.fallDepth depth) :
    ((none : Option Nat).getD (pos + 1), left.length) ∈ i.successors pos depth := by
  rw [h]; exact List.mem_cons_self

theorem jumps_to_successor {i : Instr} {pos depth t : Nat} {left : List Value}
    (ht : i.target? = some t) (h : left.length = i.jumpDepth depth) :
    ((some t).getD (pos + 1), left.length) ∈ i.successors pos depth := by
  rw [h, Instr.successors, ht]
  exact List.mem_cons_of_mem _ List.mem_cons_self

/-- A step that goes on has found its operands, and leads to a successor of its instruction with as many
operands as are said there. -/
theorem step_successor (h : step env run code module s stack m = (.ok next, m')) (pos : Nat) :
    s.instr.pops ≤ stack.length ∧
      (next.jump.getD (pos + 1), next.stack.length) ∈ s.instr.successors pos stack.length := by
  obtain ⟨i, line⟩ := s
  cases i <;>
    simp only [step, Action.bind_eq_ok, Prod.exists, ofExcept_eq_ok, pop_eq_ok, popMany_eq_ok,
      Action.get_apply, Action.modify_apply, Action.pure_apply] at h
  case loadConst =>
    obtain ⟨_, _, _, h⟩ := h
    cases h; exact ⟨Nat.zero_le _, falls_to_successor rfl⟩
  case loadName =>
    obtain ⟨_, _, _, _, _, _, _, _, _, h⟩ := h
    cases h; exact ⟨Nat.zero_le _, falls_to_successor rfl⟩
  case storeName =>
    obtain ⟨_, _, _, ⟨rfl, _⟩, _, _, _, _, _, _, h⟩ := h
    cases h; exact ⟨Nat.le_add_left .., falls_to_successor rfl⟩
  case loadAttr =>
    obtain ⟨_, _, _, ⟨rfl, _⟩, _, _, _, _, _, _, _, _, _, h⟩ := h
    cases h; exact ⟨Nat.le_add_left .., falls_to_successor rfl⟩
  case binary | compare | subscript =>
    obtain ⟨_, _, _, ⟨rfl, _⟩, _, _, _, ⟨rfl, _⟩, _, _, _, h⟩ := h
    cases h; exact ⟨Nat.le_add_left .., falls_to_successor rfl⟩
  case negate =>
    obtain ⟨_, _, _, ⟨rfl, _⟩, _, _, _, h⟩ := h
    cases h; exact ⟨Nat.le_add_left .., falls_to_successor rfl⟩
  case not | pop =>
    obtain ⟨_, _, _, ⟨rfl, _⟩, h⟩ := h
    cases h; exact ⟨Nat.le_add_left .., falls_to_successor rfl⟩
  case call n =>
    obtain ⟨args, _, _, ⟨⟨hn, _, hd⟩, _⟩, callee, rest, _, ⟨rfl, _⟩, h⟩ := h
    have hlen : stack.length - n = rest.length + 1 := by
      rw [← List.length_drop, hd, List.length_cons]
    have hpops : n + 1 ≤ stack.length := by omega
    refine ⟨hpops, ?_⟩
    cases callee with
    | builtin f =>
        simp only [Action.bind_eq_ok, Action.pure_apply] at h
        obtain ⟨v, _, _, h⟩ := h
        cases h; apply falls_to_successor
        simp only [Instr.fallDepth, Instr.pops, Instr.pushes, List.length_cons]; omega
    | _ => simp [Run.raise] at h
  case buildList n =>
    obtain ⟨items, _, _, ⟨⟨hn, _, rfl⟩, _⟩, h⟩ := h
    cases h; refine ⟨hn, falls_to_successor ?_⟩
    simp [Instr.fallDepth, Instr.pops, Instr.pushes]
  case importName =>
    obtain ⟨_, _, _, _, _, _, _, _, _, h⟩ := h
    cases h; exact ⟨Nat.zero_le _, falls_to_successor rfl⟩
  case printExpr =>
    obtain ⟨v, rest, _, ⟨rfl, _⟩, h⟩ := h
    have hleft : next = { stack := rest } := by
      split at h
      · simp only [Action.bind_eq_ok, Action.pure_apply] at h
        obtain ⟨_, _, _, h⟩ := h
        cases h; rfl
      · cases h; rfl
    subst hleft; exact ⟨Nat.le_add_left .., falls_to_successor rfl⟩
  case jumpIfTrue t =>
    obtain ⟨v, rest, _, ⟨rfl, _⟩, h⟩ := h
    cases h; refine ⟨Nat.le_add_left .., ?_⟩
    cases v.truthy
    · exact falls_to_successor rfl
    · exact jumps_to_successor rfl rfl
  case jumpIfFalseOrPop t =>
    obtain ⟨v, rest, _, ⟨rfl, _⟩, h⟩ := h
    cases h; refine ⟨Nat.le_add_left .., ?_⟩
    cases v.truthy
    · exact jumps_to_successor rfl rfl
    · exact falls_to_successor rfl
  case jumpIfTrueOrPop t =>
    obtain ⟨v, rest, _, ⟨rfl, _⟩, h⟩ := h
    cases h; refine ⟨Nat.le_add_left .., ?_⟩
    cases v.truthy
    · exact falls_to_successor rfl
    · exact jumps_to_successor rfl rfl
  case raise =>
    obtain ⟨_, _, _, _, _, _, _, _, h⟩ := h
    cases h
  case assertFail =>
    obtain ⟨_, _, _, _, h⟩ := h
    cases h

/-! ## What a step complains about -/

/-- The complaint that operands are missing, or that code refers to what is not there. -/
def Fault (e : TargetError) : Prop := e = underflow ∨ e = Code.badData

/-- The ways in which an error comes from outside of the code that runs: in the words of a `raise`, out of a
function that is called, out of a module that is imported. -/
inductive Voiced (env : Surroundings) (run : Runner) (code : Code) (module : String) (s : Step)
    (m : Machine) : List Value → TargetError → Prop where
  | raise {message kind : Value} {rest : List Value} : s.instr = .raise →
      Voiced env run code module s m (message :: kind :: rest)
        ⟨kind.text, if message.isNone then "" else message.text, []⟩
  | call {args rest : List Value} {f : Builtin} {e : TargetError} {m' : Machine} :
      s.instr = .call args.length →
      Call.call ⟨code.file, s.line, module⟩ f args m = (.error (.raised e), m') →
      Voiced env run code module s m (args.reverse ++ .builtin f :: rest) e
  | imports {k : Nat} {dotted : String} {stack : List Value} {e : TargetError} {m' : Machine} :
      s.instr = .importName k → code.names[k]? = some dotted →
      importAll env run (throughNames dotted) m = (.error (.raised e), m') →
      Voiced env run code module s m stack e

theorem not_fault_of_kind {e : TargetError} (hu : e.kind ≠ "SystemError") (hb : e.kind ≠ "ValueError") :
    ¬Fault e := by
  rintro (rfl | rfl)
  · exact hu rfl
  · exact hb rfl

theorem OperandError.not_fault (o : OperandError) : ¬Fault o.toTarget := by
  apply not_fault_of_kind <;> cases o <;> simp [OperandError.toTarget]

theorem loadName_not_fault {name : String} {e : TargetError}
    (h : loadName env module name m = .error e) : ¬Fault e := by
  unfold loadName at h
  split at h
  · cases h
  · split at h
    · cases h
    · split at h
      · cases h
      · cases h; apply not_fault_of_kind <;> simp

theorem loadAttr_not_fault {v : Value} {name : String} {e : TargetError}
    (h : loadAttr v name m = .error e) : ¬Fault e := by
  unfold loadAttr at h
  split at h
  · split at h
    · cases h
    · cases h; apply not_fault_of_kind <;> simp
  · cases h; apply not_fault_of_kind <;> simp

theorem mapError_not_fault {α : Type} {x : Except OperandError α} {e : TargetError}
    (h : Run.ofExcept (x.mapError OperandError.toTarget) m = (.error (.raised e), m')) : ¬Fault e := by
  rw [ofExcept_eq_raised] at h
  cases x with
  | ok a => cases h.1
  | error o => cases h.1; exact OperandError.not_fault o

theorem echo_not_fault {e : TargetError} (h : echo v m = (.error (.raised e), m')) : ¬Fault e := by
  unfold echo at h
  split at h
  · cases h
  · obtain ⟨message, rfl⟩ := transfer_eq_raised h
    exact not_fault_of_kind (by simp [Run.streamError]) (by simp [Run.streamError])

/-- The `n` values on top of a stack of so many, the topmost last. -/
theorem top_values {n : Nat} (h : n ≤ stack.length) :
    ∃ vs rest : List Value, vs.length = n ∧ stack = vs.reverse ++ rest :=
  ⟨(stack.take n).reverse, stack.drop n, by simp [h], by simp⟩

theorem top_value (h : 1 ≤ stack.length) : ∃ v rest, stack = v :: rest :=
  List.exists_cons_of_length_pos h

theorem top_pair (h : 2 ≤ stack.length) : ∃ b a rest, stack = b :: a :: rest := by
  obtain ⟨b, stack, rfl⟩ := top_value (Nat.le_of_succ_le h)
  obtain ⟨a, rest, rfl⟩ := top_value (Nat.le_of_succ_le_succ h)
  exact ⟨b, a, rest, rfl⟩

theorem apply_voiced {args rest : List Value} {e : TargetError}
    (h : apply ⟨code.file, line, module⟩ v args m = (.error (.raised e), m')) (hf : Fault e) :
    Voiced env run code module ⟨.call args.length, line⟩ m (args.reverse ++ v :: rest) e := by
  cases v with
  | builtin f => exact .call rfl h
  | _ =>
      cases h
      exact absurd hf (not_fault_of_kind (by simp [Call.typeError]) (by simp [Call.typeError]))

/-- A step that finds its operands and all that it looks up complains of neither, unless the complaint comes
from outside of the code. -/
theorem step_fault (hs : s.instr.pops ≤ stack.length) (hd : code.pools.Defines s.instr) {e : TargetError}
    (h : step env run code module s stack m = (.error (.raised e), m')) (hf : Fault e) :
    Voiced env run code module s m stack e := by
  obtain ⟨i, line⟩ := s
  have hconst : ∀ k, i.const? = some k → ∃ c, code.consts[k]? = some c := fun k hk =>
    ⟨_, List.getElem?_eq_getElem (hd.const k hk)⟩
  have hname : ∀ k, i.name? = some k → ∃ name, code.names[k]? = some name := fun k hk =>
    ⟨_, List.getElem?_eq_getElem (hd.name k hk)⟩
  cases i with
  | loadConst k =>
      obtain ⟨c, hc⟩ := hconst k rfl
      rw [step_loadConst hc] at h
      cases h
  | loadName k =>
      obtain ⟨name, hn⟩ := hname k rfl
      rw [step_loadName hn, pushing_eq_error] at h
      exact absurd hf (loadName_not_fault (ofExcept_eq_raised.mp h).1)
  | storeName k =>
      obtain ⟨name, hn⟩ := hname k rfl
      obtain ⟨v, rest, rfl⟩ := top_value hs
      rw [step_storeName hn] at h
      cases h
  | loadAttr k =>
      obtain ⟨name, hn⟩ := hname k rfl
      obtain ⟨v, rest, rfl⟩ := top_value hs
      rw [step_loadAttr hn, pushing_eq_error] at h
      exact absurd hf (loadAttr_not_fault (ofExcept_eq_raised.mp h).1)
  | binary | compare | subscript =>
      obtain ⟨b, a, rest, rfl⟩ := top_pair hs
      exact absurd hf (mapError_not_fault (pushing_eq_error.mp h))
  | negate =>
      obtain ⟨a, rest, rfl⟩ := top_value hs
      exact absurd hf (mapError_not_fault (pushing_eq_error.mp h))
  | not | pop | jumpIfTrue | jumpIfFalseOrPop | jumpIfTrueOrPop =>
      obtain ⟨v, rest, rfl⟩ := top_value hs
      cases h
  | call n =>
      obtain ⟨args, rest, rfl, rfl⟩ := top_values (Nat.le_of_succ_le hs)
      have hrest : 1 ≤ rest.length := by
        simp only [Instr.pops, List.length_append, List.length_reverse] at hs; omega
      obtain ⟨callee, rest, rfl⟩ := top_value hrest
      rw [step_call, pushing_eq_error] at h
      exact apply_voiced h hf
  | buildList n =>
      obtain ⟨items, rest, rfl, rfl⟩ := top_values hs
      rw [step_buildList] at h
      cases h
  | importName k =>
      obtain ⟨dotted, hn⟩ := hname k rfl
      simp only [step_importName hn, Action.bind_eq_error] at h
      obtain h | ⟨_, _, _, h | ⟨_, _, _, h⟩⟩ := h
      · exact .imports rfl hn h
      · cases h
      · cases h
  | printExpr =>
      obtain ⟨v, rest, rfl⟩ := top_value hs
      rw [step_printExpr, Action.bind_eq_error] at h
      obtain h | ⟨_, _, _, h⟩ := h
      · exact absurd hf (echo_not_fault h)
      · cases h
  | raise =>
      obtain ⟨message, kind, rest, rfl⟩ := top_pair hs
      cases h
      exact .raise rfl
  | assertFail =>
      obtain ⟨message, rest, rfl⟩ := top_value hs
      cases h
      exact absurd hf (not_fault_of_kind (by simp) (by simp))

end Exec

end Launcher.Script
