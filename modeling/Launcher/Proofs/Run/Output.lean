import Launcher.Proofs.Run.Calls
import Launcher.Proofs.Streams
import Launcher.Proofs.Text

/-!
# What a run writes

Standard output is for the target. Between the turns of the host a run writes nothing to it: all that the launcher says
itself, help and complaints, warnings and diagnostics, goes to standard error. Only the version, where it is asked for,
goes to standard output. What standard output holds back is not lost, whether or not it stops holding bytes back on the
way. So it is also where the outputs fail: then they have less of what is written to them, and nothing else.
-/

namespace Launcher

open Launcher.Action (Moves)

variable {σ τ α β : Type}

/-! ## Remarks and turns -/

/-- What the launcher says in a run. -/
inductive Remark where
  | help
  | warning (text : String)
  | notice (line : String)
  | settings (c : Context)
  | traceback (e : TargetError)
  | failure (e : BootstrapError)

/-- The text of a remark, for an executable of that name. -/
def Remark.text (config : Config) (program : String) : Remark → String
  | help => Usage.help config
  | warning text => program ++ " warning: " ++ text ++ "\n"
  | notice line => program ++ ": " ++ line ++ "\n"
  | settings c => Usage.debugInfo c config
  | traceback e => e.report
  | failure e => Dispatcher.report config program e

/-- What standard error takes of a remark when it goes so. -/
def Remark.taken (config : Config) (program : String) (r : Remark) (fault : Option OutputFault) : Bytes :=
  Streams.taken fault (Bytes.ofString (r.text config program))

/-- What a host is asked for. -/
inductive Request where
  | runMain (t : LoadedTarget)
  | interact (banner : String)

/-- A turn of a host: what it is asked for, and what it has for it. -/
structure Turn (σ : Type) where
  request : Request
  around : Surroundings
  host : σ
  channels : Channels

namespace Host

def take (h : Host σ) (t : Turn σ) : Ending × σ × Channels :=
  match t.request with
  | .runMain target => h.runMain target.code target.file t.around t.host t.channels
  | .interact banner => h.interact banner t.around t.host t.channels

/-- What the outputs take from the host in a turn, behind what they took before. -/
structure Writes (h : Host σ) (t : Turn σ) (out err : Bytes) : Prop where
  out : (h.take t).2.2.streams.stdout = t.channels.streams.stdout ++ out
  err : (h.take t).2.2.streams.stderr = t.channels.streams.stderr ++ err

end Host

/-- The call that a host gets with a turn. -/
def Turn.call (h : Host σ) (t : Turn σ) : Call :=
  match t.request with
  | .runMain target => .runMain target (h.take t).1
  | .interact _ => .interact (h.take t).1

/-- Something that has to do with the output of a run: a remark, with how it goes to write it, or a turn of the host. -/
inductive Event (σ : Type) where
  | remark (r : Remark) (fault : Option OutputFault)
  | turn (t : Turn σ)

/-- The events are the remarks, one after the other. -/
inductive Says : List Remark → List (Event σ) → Prop where
  | nothing : Says [] []
  | remark {remarks : List Remark} {events : List (Event σ)} (r : Remark) (fault : Option OutputFault) :
      Says remarks events → Says (r :: remarks) (.remark r fault :: events)

theorem Says.append {remarks more : List Remark} {events others : List (Event σ)} (h : Says remarks events)
    (h' : Says more others) : Says (remarks ++ more) (events ++ others) := by
  induction h with
  | nothing => exact h'
  | remark r fault _ ih => exact .remark r fault ih

namespace RunState

variable (s : RunState σ τ)

/-- The turn that a host is given in a run. -/
def turn (request : Request) (around : Surroundings) : Turn σ :=
  ⟨request, around, s.host, ⟨s.context.filters, s.streams⟩⟩

/-- A run after a turn of the host. -/
def afterTurn (r : Ending × σ × Channels) : RunState σ τ :=
  { s with host := r.2.1, streams := r.2.2.streams, context := { s.context with filters := r.2.2.filters } }

/-- A run after a remark. -/
def afterRemark (config : Config) (r : Remark) : RunState σ τ :=
  { s with streams := s.streams.tell (r.text config s.context.programName) }

end RunState

namespace Dispatcher

/-- Nothing is written, and the host is not asked. -/
structure Silent (s t : RunState σ τ) : Prop where
  host : t.host = s.host
  stdout : t.streams.stdout = s.streams.stdout
  stderr : t.streams.stderr = s.streams.stderr
  program : t.context.programName = s.context.programName

/-- From one state of a run to another there are these events, one after the other. -/
inductive Tells (d : Dispatcher σ τ) : RunState σ τ → List (Event σ) → RunState σ τ → Prop where
  | nothing (s : RunState σ τ) : Tells d s [] s
  | silent {s t u : RunState σ τ} {events : List (Event σ)} : Silent s t → Tells d t events u → Tells d s events u
  | remark {s u : RunState σ τ} {events : List (Event σ)} (r : Remark) :
      Tells d (s.afterRemark d.config r) events u → Tells d s (.remark r s.streams.errFault? :: events) u
  | turn {s u : RunState σ τ} {events : List (Event σ)} (request : Request) (around : Surroundings) :
      Tells d (s.afterTurn (d.host.take (s.turn request around))) events u →
      Tells d s (.turn (s.turn request around) :: events) u

/-- What the two outputs take in some events. -/
inductive Written (d : Dispatcher σ τ) (program : String) : List (Event σ) → List Bytes → List Bytes → Prop where
  | nothing : Written d program [] [] []
  | remark {events : List (Event σ)} {outs errs : List Bytes} (r : Remark) (fault : Option OutputFault) :
      Written d program events outs errs →
      Written d program (.remark r fault :: events) outs (r.taken d.config program fault :: errs)
  | turn {events : List (Event σ)} {outs errs : List Bytes} {t : Turn σ} {out err : Bytes} :
      d.host.Writes t out err → Written d program events outs errs →
      Written d program (.turn t :: events) (out :: outs) (err :: errs)

/-- There are some events from the one state to the other. -/
def Told (d : Dispatcher σ τ) (s t : RunState σ τ) : Prop := ∃ events, d.Tells s events t

variable {d : Dispatcher σ τ} {s t u : RunState σ τ} {events more : List (Event σ)}

theorem Tells.append (h : d.Tells s events t) (h' : d.Tells t more u) : d.Tells s (events ++ more) u := by
  induction h with
  | nothing s => exact h'
  | silent hsilent _ ih => exact .silent hsilent (ih h')
  | remark r _ ih => exact .remark r (ih h')
  | turn request around _ ih => exact .turn request around (ih h')

theorem Silent.tells (h : Silent s t) : d.Tells s [] t := .silent h (.nothing t)

/-- What the outputs have taken at the end is what they had before and, of each, what it took in the events in order. -/
theorem Tells.written (h : d.Tells s events t) {outs errs : List Bytes}
    (hwritten : d.Written s.context.programName events outs errs) :
    t.streams.stdout = s.streams.stdout ++ outs.flatten ∧ t.streams.stderr = s.streams.stderr ++ errs.flatten := by
  induction h generalizing outs errs with
  | nothing s =>
      cases hwritten
      simp only [List.flatten_nil, List.append_nil, and_self]
  | silent hsilent _ ih =>
      rw [← hsilent.program] at hwritten
      rw [← hsilent.stdout, ← hsilent.stderr]
      exact ih hwritten
  | @remark s _ _ r _ ih =>
      cases hwritten with
      | remark _ _ hrest =>
          obtain ⟨hout, herr⟩ := ih hrest
          refine ⟨hout.trans (congrArg (· ++ _) (s.streams.stdout_tell _)), ?_⟩
          rw [herr, List.flatten_cons, ← List.append_assoc]
          exact congrArg (· ++ _) (s.streams.stderr_tell _)
  | turn request around _ ih =>
      cases hwritten with
      | turn hwrites hrest =>
          obtain ⟨hout, herr⟩ := ih hrest
          rw [hout, herr, List.flatten_cons, List.flatten_cons, ← List.append_assoc, ← List.append_assoc]
          exact ⟨congrArg (· ++ _) hwrites.out, congrArg (· ++ _) hwrites.err⟩

namespace Told

variable {x : Boot σ τ α}

theorem of_silent (h : Silent s t) : d.Told s t := ⟨[], h.tells⟩

theorem refl (s : RunState σ τ) : d.Told s s := ⟨[], .nothing s⟩

theorem trans (h : d.Told s t) (h' : d.Told t u) : d.Told s u := by
  obtain ⟨events, h⟩ := h
  obtain ⟨more, h'⟩ := h'
  exact ⟨events ++ more, h.append h'⟩

theorem pure (a : α) : Moves d.Told (Action.pure a : Boot σ τ α) := refl

theorem fail (e : BootstrapError) : Moves d.Told (Action.fail e : Boot σ τ α) := refl

theorem ofExcept (r : Except BootstrapError α) : Moves d.Told (Action.ofExcept r : Boot σ τ α) := by
  cases r with
  | ok a => exact pure a
  | error e => exact fail e

theorem modify {f : RunState σ τ → RunState σ τ} (h : ∀ s, Silent s (f s)) :
    Moves d.Told (Action.modify f : Boot σ τ Unit) := fun s => of_silent (h s)

theorem bind {f : α → Boot σ τ β} (hx : Moves d.Told x) (hf : ∀ a, Moves d.Told (f a)) : Moves d.Told (x >>= f) :=
  Moves.bind (fun _ _ _ => trans) hx hf

/-- The streams are used, and nothing is written. -/
theorem transfer {x : Streams.Transfer α}
    (h : ∀ s, (x s).2.stdout = s.stdout ∧ (x s).2.stderr = s.stderr) : Moves d.Told (transfer x : Boot σ τ α) :=
  fun s => of_silent ⟨rfl, (h s.streams).1, (h s.streams).2, rfl⟩

end Told

/-! ## The launcher's own part -/

variable (d)

/-- What the command line asks for, where the executable has the name of the runtime and reads it. -/
def asked (i : Invocation) (c : Context) : Option (Except CommandLineError ParseOutcome) :=
  if d.config.isRuntimeName c.programName then some (CommandLine.parse c.flags c.filters i.args).1 else none

/-- What the launcher says to the command line. -/
def opening : Option (Except CommandLineError ParseOutcome) → List Remark
  | some (.ok .help) => [.help]
  | some (.ok (.run line)) => line.warnings.map .warning
  | _ => []

/-- What the launcher says to an error that ends the run. -/
def closing : Except BootstrapError Int → List Remark
  | .ok _ => []
  | .error e => [.failure e]

variable {d}

end Dispatcher

end Launcher
