import Launcher.Action

/-!
# Laws of computations that may fail

A computation made of two parts fails in the first, or gives what the second gives on the result, and on the
state, that the first leaves. The monad laws hold.
-/

namespace Launcher

/-! ## Without a state -/

theorem except_bind_eq_ok {ε α β : Type} {x : Except ε α} {f : α → Except ε β} {b : β} :
    (x >>= f) = .ok b ↔ ∃ a, x = .ok a ∧ f a = .ok b := by
  cases x with
  | error e => exact ⟨nofun, nofun⟩
  | ok a => exact ⟨fun h => ⟨a, rfl, h⟩, fun ⟨_, rfl, h⟩ => h⟩

/-! ## On a state -/

namespace Action

variable {ε σ α β : Type}

/-! ### The primitives -/

@[simp] theorem pure_apply (a : α) (s : σ) : (Action.pure a : Action ε σ α) s = (.ok a, s) := rfl

@[simp] theorem monadPure_apply (a : α) (s : σ) : (Pure.pure a : Action ε σ α) s = (.ok a, s) := rfl

@[simp] theorem fail_apply (e : ε) (s : σ) : (fail e : Action ε σ α) s = (.error e, s) := rfl

@[simp] theorem get_apply (s : σ) : (get : Action ε σ σ) s = (.ok s, s) := rfl

@[simp] theorem modify_apply (f : σ → σ) (s : σ) : (modify f : Action ε σ Unit) s = (.ok (), f s) := rfl

/-! ### Sequencing -/

theorem bind_of_ok {x : Action ε σ α} {f : α → Action ε σ β} {s t : σ} {a : α}
    (h : x s = (.ok a, t)) : (x >>= f) s = f a t := by
  simp only [Bind.bind, Action.bind, h]

theorem bind_of_error {x : Action ε σ α} {f : α → Action ε σ β} {s t : σ} {e : ε}
    (h : x s = (.error e, t)) : (x >>= f) s = (.error e, t) := by
  simp only [Bind.bind, Action.bind, h]

@[simp] theorem bind_eq_ok {x : Action ε σ α} {f : α → Action ε σ β} {s u : σ} {b : β} :
    (x >>= f) s = (.ok b, u) ↔ ∃ a t, x s = (.ok a, t) ∧ f a t = (.ok b, u) := by
  rcases hx : x s with ⟨e | a, t⟩
  · simp [bind_of_error hx]
  · simp [bind_of_ok hx, and_assoc]

@[simp] theorem bind_eq_error {x : Action ε σ α} {f : α → Action ε σ β} {s u : σ} {e : ε} :
    (x >>= f) s = (.error e, u) ↔
      x s = (.error e, u) ∨ ∃ a t, x s = (.ok a, t) ∧ f a t = (.error e, u) := by
  rcases hx : x s with ⟨e' | a, t⟩
  · simp [bind_of_error hx]
  · simp [bind_of_ok hx, and_assoc]

/-! ### The monad laws -/

theorem bind_pure_id (x : Action ε σ α) : (x >>= fun a => Action.pure a) = x := by
  funext s
  rcases hx : x s with ⟨e | a, t⟩
  · exact bind_of_error hx
  · exact bind_of_ok hx

theorem bind_assoc {γ : Type} (x : Action ε σ α) (f : α → Action ε σ β) (g : β → Action ε σ γ) :
    x >>= f >>= g = x >>= fun a => f a >>= g := by
  funext s
  rcases hx : x s with ⟨e | a, t⟩
  · rw [bind_of_error hx, bind_of_error (bind_of_error hx)]
  · rw [bind_of_ok hx]
    simp only [Bind.bind, Action.bind, hx]

instance : LawfulMonad (Action ε σ) :=
  LawfulMonad.mk' _ (fun x => bind_pure_id x) (fun _ _ => rfl) bind_assoc

/-! ### Conditions on states -/

/-- From where `P` holds the computation comes to where `P` holds, or fails where `Q` does. -/
def Keeps (P Q : σ → Prop) (x : Action ε σ α) : Prop :=
  ∀ s, P s → match x s with
    | (.ok _, t) => P t
    | (.error _, t) => Q t

namespace Keeps

variable {P Q : σ → Prop} {x : Action ε σ α}

theorem of_ok (h : Keeps P Q x) {s t : σ} {a : α} (hs : P s) (hx : x s = (.ok a, t)) : P t := by
  have hkeeps := h s hs
  rwa [hx] at hkeeps

theorem of_error (h : Keeps P Q x) {s t : σ} {e : ε} (hs : P s) (hx : x s = (.error e, t)) : Q t := by
  have hkeeps := h s hs
  rwa [hx] at hkeeps

theorem pure (a : α) : Keeps P Q (Action.pure a : Action ε σ α) := fun _ hs => hs

theorem fail (hfail : ∀ s, P s → Q s) (e : ε) : Keeps P Q (Action.fail e : Action ε σ α) := hfail

theorem modify {f : σ → σ} (hf : ∀ s, P s → P (f s)) : Keeps P Q (Action.modify f : Action ε σ Unit) := hf

theorem bind {f : α → Action ε σ β} (hx : Keeps P Q x) (hf : ∀ a, Keeps P Q (f a)) : Keeps P Q (x >>= f) := by
  intro s hs
  rcases h : x s with ⟨e | a, t⟩
  · rw [bind_of_error h]
    exact hx.of_error hs h
  · rw [bind_of_ok h]
    exact hf a t (hx.of_ok hs h)

theorem read {f : σ → Action ε σ α} (hf : ∀ s, P s → Keeps P Q (f s)) : Keeps P Q (Action.get >>= f) :=
  fun s hs => hf s hs s hs

theorem forM {γ : Type} {f : γ → Action ε σ Unit} (hf : ∀ c, Keeps P Q (f c)) (cs : List γ) :
    Keeps P Q (cs.forM f) := by
  induction cs with
  | nil => exact pure ()
  | cons c cs ih => exact (hf c).bind fun _ => ih

end Keeps

/-! ### Relations between states -/

/-- The relation leads from the state before to the state after, also when the computation fails. -/
def Moves (R : σ → σ → Prop) (x : Action ε σ α) : Prop := ∀ s, R s (x s).2

namespace Moves

variable {R : σ → σ → Prop} {x : Action ε σ α}

theorem of_eq (h : Moves R x) {s t : σ} {r : Except ε α} (hx : x s = (r, t)) : R s t := by
  have hs := h s
  rwa [hx] at hs

theorem bind (htrans : ∀ s t u, R s t → R t u → R s u) {f : α → Action ε σ β} (hx : Moves R x)
    (hf : ∀ a, Moves R (f a)) : Moves R (x >>= f) := by
  intro s
  rcases h : x s with ⟨e | a, t⟩
  · rw [bind_of_error h]
    exact hx.of_eq h
  · rw [bind_of_ok h]
    exact htrans _ _ _ (hx.of_eq h) (hf a t)

theorem read {f : σ → Action ε σ α} (h : ∀ s, R s (f s s).2) : Moves R (Action.get >>= f) := h

end Moves

end Action

end Launcher
