import Launcher.Proofs.Script.Nesting
import Launcher.Search.Finder
import Launcher.Script.Session

/-!
# Sessions

A host keeps its machine from one task to the next. What a host is asked to do makes it start executions, one for a
main program and one for each line that it reads, and apart from these it only talks to the user and enters the main
module. So a relation that leads through that, and through the executions, leads through the session.
-/

namespace Launcher.Script.Session

open Launcher.Action (Moves)
open Exec

/-- What a host can be asked to do. -/
inductive Task where
  | runMain (code : Bytes) (file : String)
  | interact (banner : String)

/-- A task for a host that has `fuel` steps for it, and what is lent to the host with it. -/
structure Visit where
  task : Task
  fuel : Nat
  argv : List String
  flags : Flags
  channels : Channels

namespace Visit

variable (f : Finder) (fs : FileSystem)

def surroundings (v : Visit) : Surroundings := ⟨f.find fs, v.argv, v.flags⟩

def run (v : Visit) (m : Machine) : Ending × Machine × Channels :=
  match v.task with
  | .runMain code file => (host v.fuel).runMain code file (v.surroundings f fs) m v.channels
  | .interact banner => (host v.fuel).interact banner (v.surroundings f fs) m v.channels

/-- The machines on which the interactive mode asks for a line, from the given one on. -/
inductive Asks (env : Surroundings) (fuel : Nat) (first : Machine) : Machine → Prop where
  | first : Asks env fuel first first
  | blank {m m' : Machine} {line : String} : Asks env fuel first m → ask m = (.ok (.line line), m') →
      (trim line).isEmpty = true → Asks env fuel first m'
  | next {m m' m'' : Machine} {line : String} : Asks env fuel first m → ask m = (.ok (.line line), m') →
      (trim line).isEmpty = false → round env fuel line m' = (.ok (), m'') → Asks env fuel first m''

/-- The executions that a host starts for a task on a machine. -/
inductive Starts (v : Visit) (m : Machine) : Moment → Prop where
  | main {bytes : Bytes} {file : String} {code : Code} : v.task = .runMain bytes file → Code.ofBytes bytes = .ok code →
      Starts v m (.start code mainModule v.fuel
        ((Machine.enter mainModule file { m with channels := v.channels }).enter mainModule code.file))
  | line {banner line : String} {first x y : Machine} {code : Code} : v.task = .interact banner →
      greet banner { m with channels := v.channels } = (.ok (), first) → Asks (v.surroundings f fs) v.fuel first x →
      ask x = (.ok (.line line), y) → (trim line).isEmpty = false →
      compile { dropAsserts := 0 < v.flags.optimize, echo := true } interactiveFile line = .ok code →
      Starts v m (.start code mainModule v.fuel (y.enter mainModule code.file))

end Visit

/-- The machine after some visits, one after the other, to a fresh one. -/
def after (f : Finder) (fs : FileSystem) (visits : List Visit) : Machine :=
  visits.foldl (fun m v => (v.run f fs m).2.1) {}

theorem after_concat (f : Finder) (fs : FileSystem) (visits : List Visit) (v : Visit) :
    after f fs (visits ++ [v]) = (v.run f fs (after f fs visits)).2.1 := by
  simp only [after, List.foldl_append, List.foldl_cons, List.foldl_nil]

/-- The code of a module that imports others. -/
def importsOf (file : String) (names : List String) : Code :=
  ⟨file, [], names, (List.range names.length).map fun k => ⟨.importName k, k + 1⟩⟩

/-! ## Relations that lead through a session -/

/-- The relation allows what a host does to its machine between the executions. -/
structure Spans (R : Machine → Machine → Prop) : Prop where
  permits : Machine.Permits R mainModule
  enters : ∀ (m : Machine) (file : String), R m (m.enter mainModule file)

namespace Spans

variable {R : Machine → Machine → Prop} {env : Surroundings} {fuel : Nat} {m m' first : Machine}

theorem trans (hR : Spans R) {m m' m'' : Machine} (h : R m m') (h' : R m' m'') : R m m'' := hR.permits.trans h h'

theorem refl (hR : Spans R) (m : Machine) : R m m := hR.permits.aside rfl rfl rfl

theorem ask (hR : Spans R) {line : Streams.Line} (h : ask m = (.ok line, m')) : R m m' := by
  have hasked : m' = (Session.ask m).2 := by rw [h]
  exact hasked ▸ hR.permits.aside rfl rfl rfl

theorem reporting (hR : Spans R) {x : Run Unit} (hx : R m (x m).2) : R m (reporting x m).2 := by
  unfold Session.reporting
  split
  · rename_i hresult
    rw [hresult] at hx
    exact hR.trans hx (hR.permits.transfer _ _)
  · exact hx

theorem round (hR : Spans R) {line : String} (hline : R m (runLine env fuel line m).2) :
    R m (round env fuel line m).2 := by
  have hreported := hR.reporting hline
  unfold Session.round
  rcases hx : Session.reporting (Session.runLine env fuel line) m with ⟨e | _, x⟩ <;> rw [hx] at hreported
  · rw [Action.bind_of_error hx]
    exact hreported
  · rw [Action.bind_of_ok hx]
    exact hR.trans hreported (hR.permits.transfer _ x)

theorem greet (hR : Spans R) (banner : String) (m : Machine) : R m (greet banner m).2 := by
  have henter : Moves R (Action.modify (Machine.enter mainModule interactiveFile) : Run Unit) :=
    fun m => hR.enters m interactiveFile
  unfold Session.greet
  split
  · exact hR.permits.andThen (hR.permits.transfer _) (fun _ => henter) m
  · exact henter m

theorem runLine (hR : Spans R) {line : String}
    (hrun : ∀ code, compile { dropAsserts := 0 < env.flags.optimize, echo := true } interactiveFile line = .ok code →
      R (m.enter mainModule code.file) (nested env fuel code mainModule (m.enter mainModule code.file)).2) :
    R m (runLine env fuel line m).2 := by
  cases hcode : compile { dropAsserts := 0 < env.flags.optimize, echo := true } interactiveFile line with
  | error e =>
      simp only [Session.runLine, hcode]
      exact hR.refl m
  | ok code =>
      simp only [Session.runLine, hcode]
      exact hR.trans (hR.enters m code.file) (hrun code hcode)

theorem runMain (hR : Spans R) {bytes : Bytes} {file : String}
    (hrun : ∀ code, Code.ofBytes bytes = .ok code →
      R ((m.enter mainModule file).enter mainModule code.file)
        (nested env fuel code mainModule ((m.enter mainModule file).enter mainModule code.file)).2) :
    R m (runMain env fuel bytes file m).2 := by
  cases hcode : Code.ofBytes bytes with
  | error e =>
      simp only [Session.runMain, hcode]
      exact hR.refl m
  | ok code =>
      simp only [Session.runMain, hcode]
      exact hR.trans (hR.enters m file) (hR.trans (hR.enters _ code.file) (hrun code hcode))

theorem loop (hR : Spans R)
    (hline : ∀ x y line, Visit.Asks env fuel first x → Session.ask x = (.ok (.line line), y) →
      (trim line).isEmpty = false → R y (Session.runLine env fuel line y).2)
    (hasks : Visit.Asks env fuel first m) (rounds : Nat) : R m (loop env fuel rounds m).2 := by
  induction rounds generalizing m with
  | zero => exact hR.refl m
  | succ rounds ih =>
      rw [Session.loop]
      rcases hask : Session.ask m with ⟨e | asked, y⟩
      · cases hask
      rw [Action.bind_of_ok hask]
      refine hR.trans (hR.ask hask) ?_
      cases asked with
      | endOfInput => exact hR.permits.aside rfl rfl rfl
      | failed message => exact hR.refl y
      | line line =>
          dsimp only
          cases hblank : (trim line).isEmpty with
          | true => exact ih (.blank hasks hask hblank)
          | false =>
              have hround := hR.round (hline m y line hasks hask hblank)
              rw [if_neg Bool.false_ne_true]
              rcases hx : Session.round env fuel line y with ⟨e | _, x⟩ <;> rw [hx] at hround
              · rw [Action.bind_of_error hx]
                exact hround
              · rw [Action.bind_of_ok hx]
                exact hR.trans hround (ih (.next hasks hask hblank hx))

theorem asks (hR : Spans R)
    (hline : ∀ x y line, Visit.Asks env fuel first x → Session.ask x = (.ok (.line line), y) →
      (trim line).isEmpty = false → R y (Session.runLine env fuel line y).2)
    (h : Visit.Asks env fuel first m) : R first m := by
  induction h with
  | first => exact hR.refl first
  | blank _ hask _ ih => exact hR.trans ih (hR.ask hask)
  | @next _ y _ _ hasks hask hblank hx ih =>
      have hround := hR.round (hline _ _ _ hasks hask hblank)
      rw [hx] at hround
      exact hR.trans (hR.trans ih (hR.ask hask)) hround

variable {f : Finder} {fs : FileSystem}

/-- A relation that leads through all executions of a visit leads through the visit. -/
theorem visit (hR : Spans R) (v : Visit)
    (hstarts : ∀ a, v.Starts f fs m a →
      R a.config.machine (a.config.run (v.surroundings f fs) a.code a.module).2) :
    R m (v.run f fs m).2.1 := by
  have hlent : R m { m with channels := v.channels } := hR.permits.aside rfl rfl rfl
  refine hR.trans hlent ?_
  cases htask : v.task with
  | runMain bytes file =>
      simp only [Visit.run, htask]
      exact hR.runMain fun code hcode => hstarts _ (.main htask hcode)
  | interact banner =>
      simp only [Visit.run, htask]
      show R _ (Session.interact (v.surroundings f fs) v.fuel banner { m with channels := v.channels }).2
      have hgreeted := hR.greet banner { m with channels := v.channels }
      unfold Session.interact
      rcases hgreet : Session.greet banner { m with channels := v.channels } with ⟨e | _, first⟩ <;>
        rw [hgreet] at hgreeted
      · rw [Action.bind_of_error hgreet]
        exact hgreeted
      · rw [Action.bind_of_ok hgreet]
        refine hR.trans hgreeted (hR.loop ?_ .first _)
        intro x y line hasks hask hblank
        exact hR.runLine fun code hcode => hstarts _ (.line htask hgreet hasks hask hblank hcode)

end Spans

/-! ## Relations that lead through all executions of the main module -/

section

variable {R : Machine → Machine → Prop} {f : Finder} {fs : FileSystem} {v : Visit} {m : Machine} {a : Moment}

theorem Visit.moves (hR : Spans R) (v : Visit)
    (hrun : ∀ code, Moves R (nested (v.surroundings f fs) v.fuel code mainModule)) (m : Machine) :
    R m (v.run f fs m).2.1 := by
  refine hR.visit v fun a ha => ?_
  cases ha <;> exact hrun _ _

theorem after_moves (hR : Spans R) (hrun : ∀ (v : Visit) (m : Machine), R m (v.run f fs m).2.1)
    (visits : List Visit) : R {} (after f fs visits) := by
  have hvisits : ∀ m, R m (visits.foldl (fun m v => (v.run f fs m).2.1) m) := by
    induction visits with
    | nil => exact hR.refl
    | cons v visits ih => exact fun m => hR.trans (hrun v m) (ih _)
  exact hvisits {}

theorem Visit.Starts.moves (hR : Spans R)
    (hrun : ∀ code, Moves R (nested (v.surroundings f fs) v.fuel code mainModule)) (h : v.Starts f fs m a) :
    R m a.config.machine := by
  have hlent : R m { m with channels := v.channels } := hR.permits.aside rfl rfl rfl
  cases h with
  | main _ _ => exact hR.trans hlent (hR.trans (hR.enters _ _) (hR.enters _ _))
  | @line banner _ first x y _ _ hgreet hasks hask _ _ =>
      have hline : ∀ line y, R y (runLine (v.surroundings f fs) v.fuel line y).2 :=
        fun line y => hR.runLine fun code _ => hrun code _
      have hgreeted := hR.greet banner { m with channels := v.channels }
      rw [hgreet] at hgreeted
      have hprompted := hR.asks (fun _ y line _ _ _ => hline line y) hasks
      have hasked := hR.trans (hR.trans hgreeted hprompted) (hR.ask hask)
      exact hR.trans hlent (hR.trans hasked (hR.enters _ _))

end

end Launcher.Script.Session
