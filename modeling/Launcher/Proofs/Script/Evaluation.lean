import Launcher.Proofs.Script.Path
import Launcher.Proofs.Script.Pools

/-!
# Evaluation of expressions

An evaluator follows an expression as it stands, its operands from left to right. The code of the expression does
what the evaluator does, whatever is on the stack and in the machine, and puts the value on top of the stack.
-/

namespace Launcher.Script

open Exec (inFrame step runFrom)

/-! ## The evaluator -/

/-- A computation that belongs to a line of a file, which an error out of it names. -/
def Exec.framed {α : Type} (file : String) (line : Nat) (x : Run α) : Run α := fun m =>
  match x m with
  | (.ok a, m) => (.ok a, m)
  | (.error h, m) => (.error (inFrame file line h), m)

/-- What the value of an expression depends on besides the machine. -/
structure Scene where
  env : Surroundings
  file : String
  module : String

/-- An operation on values that belongs to a line. -/
def Scene.operation (scene : Scene) (line : Nat) (x : Except OperandError Value) : Run Value :=
  Exec.framed scene.file line (Run.ofExcept (x.mapError OperandError.toTarget))

namespace Expr

mutual

/-- The value of an expression. Where the left operand of `and` or `or` decides, it is the value, and the right
one is left alone. -/
def eval (scene : Scene) : Expr → Run Value
  | .const _ c => Action.pure (Value.ofConst c)
  | .name line id => Exec.framed scene.file line (Exec.readName scene.env scene.module id)
  | .list _ es => do
    let items ← evalAll scene es
    Action.pure (.list items)
  | .call line e es => do
    let callee ← eval scene e
    let args ← evalAll scene es
    Exec.framed scene.file line (Exec.apply ⟨scene.file, line, scene.module⟩ callee args)
  | .attr line e id => do
    let object ← eval scene e
    Exec.framed scene.file line (Exec.readAttr object id)
  | .subscript line a b => do
    let object ← eval scene a
    let index ← eval scene b
    scene.operation line (object.subscript index)
  | .negate line e => do
    let v ← eval scene e
    scene.operation line v.negate
  | .binary line op a b => do
    let left ← eval scene a
    let right ← eval scene b
    scene.operation line (Value.binary op left right)
  | .compare line op a b => do
    let left ← eval scene a
    let right ← eval scene b
    scene.operation line (Value.compare op left right)
  | .not _ e => do
    let v ← eval scene e
    Action.pure (.bool !v.truthy)
  | .and _ a b => do
    let left ← eval scene a
    if left.truthy then eval scene b else Action.pure left
  | .or _ a b => do
    let left ← eval scene a
    if left.truthy then Action.pure left else eval scene b

/-- The values of expressions, the first one first. -/
def evalAll (scene : Scene) : List Expr → Run (List Value)
  | [] => Action.pure []
  | e :: es => do
    let v ← eval scene e
    let vs ← evalAll scene es
    Action.pure (v :: vs)

end

end Expr

/-! ## Places in a code object -/

/-- The code object has the given steps from a position on. -/
def Code.At (code : Code) (pos : Nat) (steps : List Step) : Prop :=
  ∀ i s, steps[i]? = some s → code.body[pos + i]? = some s

namespace Code.At

variable {code : Code} {pos : Nat} {s : Step} {xs ys : List Step}

theorem left (h : code.At pos (xs ++ ys)) : code.At pos xs := by
  intro i s hs
  have hi : i < xs.length := (List.getElem?_eq_some_iff.mp hs).1
  exact h i s (by rwa [List.getElem?_append_left hi])

theorem right (h : code.At pos (xs ++ ys)) : code.At (pos + xs.length) ys := by
  intro i s hs
  rw [Nat.add_assoc]
  exact h _ s (by rwa [List.getElem?_append_right (Nat.le_add_right ..), Nat.add_sub_cancel_left])

theorem head (h : code.At pos (s :: xs)) : code.body[pos]? = some s := h 0 s rfl

theorem tail (h : code.At pos (s :: xs)) : code.At (pos + 1) xs := @right code pos [s] xs h

theorem all (code : Code) : code.At 0 code.body := by
  intro i s hs
  rwa [Nat.zero_add]

end Code.At

namespace Exec

variable {env : Surroundings} {code : Code} {module : String} {α β : Type}

/-! ## From one place to another -/

/-- The computation may end with this result. -/
def Yields (x : Run α) (a : α) : Prop := ∃ m m', x m = (.ok a, m')

/-- Execution from `pos` on does what `x` does and goes on at `pos'` with the stack that belongs to its result.
The steps on the way are counted, at most one for each position. -/
def Leads (env : Surroundings) (code : Code) (module : String) (pos : Nat) (stack : List Value) (x : Run α)
    (pos' : Nat) (left : α → List Value) : Prop :=
  ∀ m, ∃ k, pos + k ≤ pos' ∧ ∀ fuel, runFrom env (fuel + k) code module pos stack m =
    (x >>= fun a => runFrom env fuel code module pos' (left a)) m

namespace Leads

variable {pos middle pos' : Nat} {stack rest : List Value} {x : Run α} {f : α → Run β}
  {left : α → List Value} {left' : β → List Value}

theorem here {a : α} (h : left a = stack) : Leads env code module pos stack (Action.pure a) pos left :=
  fun _ => ⟨0, Nat.le_refl _, fun _ => h ▸ rfl⟩

theorem bind (hle : middle ≤ pos') (hx : Leads env code module pos stack x middle left)
    (hf : ∀ a, Yields x a → Leads env code module middle (left a) (f a) pos' left') :
    Leads env code module pos stack (x >>= f) pos' left' := by
  intro m
  obtain ⟨k, hk, hrun⟩ := hx m
  rcases h : x m with ⟨e | a, m'⟩
  · refine ⟨k, Nat.le_trans hk hle, fun fuel => ?_⟩
    rw [hrun, Action.bind_of_error h, Action.bind_of_error (Action.bind_of_error h)]
  · obtain ⟨l, hl, hrun'⟩ := hf a ⟨m, m', h⟩ m'
    refine ⟨l + k, by omega, fun fuel => ?_⟩
    rw [← Nat.add_assoc, hrun, Action.bind_of_ok h, hrun', Action.bind_assoc, Action.bind_of_ok h]

/-- The result is passed on in another form. -/
theorem map {g : α → β} (hx : Leads env code module pos stack x pos' fun a => left' (g a)) :
    Leads env code module pos stack (x >>= fun a => Action.pure (g a)) pos' left' :=
  hx.bind (Nat.le_refl _) fun _ _ => here rfl

/-- An instruction that only moves operands and the position. -/
theorem move {s : Step} {next : Next} (hs : code.body[pos]? = some s)
    (hstep : ∀ run m, step env run code module s stack m = (.ok next, m))
    (hlt : pos < next.jump.getD (pos + 1))
    (h : Leads env code module (next.jump.getD (pos + 1)) next.stack x pos' left) :
    Leads env code module pos stack x pos' left := by
  intro m
  obtain ⟨k, hk, hrun⟩ := h m
  refine ⟨k + 1, by omega, fun fuel => ?_⟩
  rw [← Nat.add_assoc, run_of_ok hs (hstep _ m), hrun]

/-- An instruction that puts the result of an operation on the stack. -/
theorem push {s : Step} {y : Run Value} (hs : code.body[pos]? = some s)
    (hstep : ∀ run, step env run code module s stack = pushing rest y) :
    Leads env code module pos stack (framed code.file s.line y) (pos + 1) fun v => v :: rest := by
  intro m
  refine ⟨1, Nat.le_refl _, fun fuel => ?_⟩
  rw [run_of_some hs, hstep]
  rcases h : y m with ⟨e | v, m'⟩
  · rw [pushing, Action.bind_of_error h, Action.bind_of_error (by rw [framed, h])]
    rfl
  · rw [pushing, Action.bind_of_ok h, Action.bind_of_ok (by rw [framed, h])]
    rfl

/-- An operation on one operand. -/
theorem unary {xs : List Step} {s : Step} {x : Run Value} {y : Value → Run Value}
    (h : code.At pos (xs ++ [s]))
    (hx : Leads env code module pos stack x (pos + xs.length) fun v => v :: stack)
    (hstep : ∀ run v, step env run code module s (v :: stack) = pushing stack (y v)) :
    Leads env code module pos stack (x >>= fun v => framed code.file s.line (y v))
      (pos + (xs ++ [s]).length) fun v => v :: stack := by
  rw [List.length_append, ← Nat.add_assoc]
  exact hx.bind (Nat.le_add_right ..) fun v _ => push h.right.head fun run => hstep run v

/-- An operation on two operands. -/
theorem binary {xs ys : List Step} {s : Step} {x y : Run Value} {z : Value → Value → Run Value}
    (h : code.At pos (xs ++ ys ++ [s]))
    (hx : Leads env code module pos stack x (pos + xs.length) fun v => v :: stack)
    (hy : ∀ v, Leads env code module (pos + xs.length) (v :: stack) y (pos + xs.length + ys.length)
      fun w => w :: v :: stack)
    (hstep : ∀ run v w, step env run code module s (w :: v :: stack) = pushing stack (z v w)) :
    Leads env code module pos stack (x >>= fun v => y >>= fun w => framed code.file s.line (z v w))
      (pos + (xs ++ ys ++ [s]).length) fun v => v :: stack := by
  have hs := h.right.head
  rw [List.length_append, ← Nat.add_assoc] at hs
  rw [List.length_append, List.length_append, ← Nat.add_assoc, ← Nat.add_assoc]
  refine hx.bind (by omega) fun v _ => ?_
  exact (hy v).bind (Nat.le_add_right ..) fun w _ => push hs fun run => hstep run v w

/-- Two operands of which the second is left alone where the first decides. -/
theorem shortcut {xs ys : List Step} {i : Instr} {line : Nat} {x y : Run Value} {decides : Value → Bool}
    (h : code.At pos (xs ++ ⟨i, line⟩ :: ys))
    (hx : Leads env code module pos stack x (pos + xs.length) fun v => v :: stack)
    (hy : Leads env code module (pos + xs.length + 1) stack y (pos + xs.length + 1 + ys.length)
      fun v => v :: stack)
    (hstep : ∀ run v m, step env run code module ⟨i, line⟩ (v :: stack) m =
      (.ok (if decides v then { stack := v :: stack, jump := some (pos + xs.length + 1 + ys.length) }
        else { stack }), m)) :
    Leads env code module pos stack (x >>= fun v => if decides v then Action.pure v else y)
      (pos + (xs ++ ⟨i, line⟩ :: ys).length) fun v => v :: stack := by
  have hend : pos + (xs ++ ⟨i, line⟩ :: ys).length = pos + xs.length + 1 + ys.length := by
    rw [List.length_append, List.length_cons]; omega
  rw [hend]
  refine hx.bind (by omega) fun v _ => ?_
  refine move h.right.head (fun run m => hstep run v m) ?_ ?_
  · cases decides v
    · exact Nat.lt_succ_self _
    · simp only [if_true, Option.getD_some]; omega
  · cases decides v
    · exact hy
    · exact here rfl

end Leads

/-! ## The code of an expression -/

theorem const_at {c : Const} (h : c ∈ code.pools.consts) :
    code.consts[code.pools.consts.idxOf c]? = some c :=
  List.getElem?_eq_some_iff.mpr ⟨List.idxOf_lt_length_of_mem h, List.getElem_idxOf _⟩

theorem name_at {id : String} (h : id ∈ code.pools.names) : code.names[code.pools.name id]? = some id :=
  List.getElem?_eq_some_iff.mpr ⟨List.idxOf_lt_length_of_mem h, List.getElem_idxOf _⟩

theorem evalAll_length (scene : Scene) : (es : List Expr) → {vs : List Value} →
    Yields (Expr.evalAll scene es) vs → vs.length = es.length
  | [], _, ⟨_, _, h⟩ => by cases h; rfl
  | e :: es, vs, ⟨m, m', h⟩ => by
      simp only [Expr.evalAll, Action.bind_eq_ok, Action.pure_apply] at h
      obtain ⟨_, m₁, _, vs', m₂, hvs, h⟩ := h
      have hlen := evalAll_length scene es ⟨m₁, m₂, hvs⟩
      cases h
      rw [List.length_cons, List.length_cons, hlen]

mutual

/-- The code of an expression does what the evaluator does, and pushes the value. -/
theorem code_leads (env : Surroundings) (module : String) {code : Code} {pos : Nat} (stack : List Value) :
    (e : Expr) → code.At pos (e.code code.pools pos) → code.pools.Hold e.consts e.names →
      Leads env code module pos stack (e.eval ⟨env, code.file, module⟩)
        (pos + (e.code code.pools pos).length) fun v => v :: stack
  | .const line c, h, hp =>
      .push h.head fun run => step_loadConst (const_at (hp.consts c List.mem_cons_self))
  | .name line id, h, hp => by
      rw [Expr.eval]
      exact .push h.head fun run => step_loadName (name_at (hp.names id List.mem_cons_self))
  | .list line es, h, hp => by
      rw [Expr.code] at h ⊢
      rw [Expr.eval, List.length_append, ← Nat.add_assoc]
      refine (codeAll_leads env module stack es h.left hp).bind (Nat.le_add_right ..) fun items hi => ?_
      refine .push (y := Action.pure (.list items)) h.right.head fun run => ?_
      rw [← evalAll_length _ es hi, step_buildList]
  | .call line e es, h, hp => by
      rw [Expr.code] at h ⊢
      rw [Expr.eval, List.length_append, List.length_append, ← Nat.add_assoc, ← Nat.add_assoc]
      refine (code_leads env module stack e h.left.left hp.left).bind (by omega) fun callee _ => ?_
      refine (codeAll_leads env module _ es h.left.right hp.right).bind (Nat.le_add_right ..)
        fun args ha => ?_
      have hs := h.right.head
      rw [List.length_append, ← Nat.add_assoc] at hs
      refine .push hs fun run => ?_
      rw [← evalAll_length _ es ha, step_call]
  | .attr line e id, h, hp => by
      have he : code.pools.Hold e.consts e.names :=
        hp.mono (by simp [Expr.consts]) (by simp [Expr.names])
      have hid := name_at (hp.names id (by simp [Expr.names]))
      rw [Expr.code] at h ⊢
      exact .unary h (code_leads env module stack e h.left he) fun run v => step_loadAttr hid
  | .negate line e, h, hp => by
      rw [Expr.code] at h ⊢
      exact .unary h (code_leads env module stack e h.left hp) fun run v => step_negate
  | .not line e, h, hp => by
      rw [Expr.code] at h ⊢
      exact .unary h (code_leads env module stack e h.left hp) fun run v => step_not
  | .subscript line a b, h, hp => by
      rw [Expr.code] at h ⊢
      exact .binary h (code_leads env module stack a h.left.left hp.left)
        (fun v => code_leads env module _ b h.left.right hp.right) fun run v w => step_subscript
  | .binary line op a b, h, hp => by
      rw [Expr.code] at h ⊢
      exact .binary h (code_leads env module stack a h.left.left hp.left)
        (fun v => code_leads env module _ b h.left.right hp.right) fun run v w => step_binary
  | .compare line op a b, h, hp => by
      rw [Expr.code] at h ⊢
      exact .binary h (code_leads env module stack a h.left.left hp.left)
        (fun v => code_leads env module _ b h.left.right hp.right) fun run v w => step_compare
  | .and line a b, h, hp => by
      have hif : ∀ v : Value, (if v.truthy then b.eval ⟨env, code.file, module⟩ else Action.pure v) =
          if !v.truthy then Action.pure v else b.eval ⟨env, code.file, module⟩ := by
        intro v
        cases v.truthy <;> rfl
      rw [Expr.code] at h ⊢
      simp only [Expr.eval, hif]
      refine .shortcut h (code_leads env module stack a h.left hp.left)
        (code_leads env module stack b h.right.tail hp.right) fun run v m => ?_
      rw [step_jumpIfFalseOrPop]
      cases v.truthy <;> rfl
  | .or line a b, h, hp => by
      rw [Expr.code] at h ⊢
      exact .shortcut h (code_leads env module stack a h.left hp.left)
        (code_leads env module stack b h.right.tail hp.right) fun run v m => step_jumpIfTrueOrPop

theorem codeAll_leads (env : Surroundings) (module : String) {code : Code} {pos : Nat} (stack : List Value) :
    (es : List Expr) → code.At pos (Expr.codeAll code.pools pos es) →
      code.pools.Hold (Expr.constsAll es) (Expr.namesAll es) →
      Leads env code module pos stack (Expr.evalAll ⟨env, code.file, module⟩ es)
        (pos + (Expr.codeAll code.pools pos es).length) fun vs => vs.reverse ++ stack
  | [], _, _ => .here rfl
  | e :: es, h, hp => by
      rw [Expr.codeAll] at h ⊢
      rw [Expr.evalAll, List.length_append, ← Nat.add_assoc]
      refine (code_leads env module stack e h.left hp.left).bind (Nat.le_add_right ..) fun v _ => .map ?_
      simp only [List.reverse_cons, List.append_assoc, List.singleton_append]
      exact codeAll_leads env module (v :: stack) es h.right hp.right

end

end Exec

end Launcher.Script
