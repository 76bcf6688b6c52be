import Launcher.Proofs.Number.Digits
import Launcher.Proofs.Script.Sessions
import Launcher.Proofs.Streams
import Launcher.Proofs.Text

/-!
# Warnings that are shown once

Three actions show a warning once: for its category, message, module and line, for its category, message and module, or
for its category and message. The machine remembers all that was shown so in one list, as texts with a colon between the
parts. So a warning is silent if one with the same text was printed before, under whatever action. That this was one of
the same action and identity is certain only where no part of a text has a colon in it.
-/

namespace Launcher.Script

open Launcher.Action (Moves)

/-! ## Identities -/

/-- What tells a warning apart from others, under each of the actions that show it once. -/
inductive Identity where
  | default (category message module : String) (line : Nat)
  | module (category message module : String)
  | once (category message : String)
deriving DecidableEq

/-- No part of a warning has a colon in it. -/
structure Plain (w : Warning) : Prop where
  category : ':' ∉ w.category.toList
  message : ':' ∉ w.message.toList
  module : ':' ∉ w.module.toList

namespace Identity

def of? (action : WarningAction) (w : Warning) : Option Identity :=
  match action with
  | .default => some (.default w.category w.message w.module w.line)
  | .module => some (.module w.category w.message w.module)
  | .once => some (.once w.category w.message)
  | _ => none

def parts : Identity → List String
  | .default category message place line => [category, message, place, toString line]
  | .module category message place => [category, message, place]
  | .once category message => [category, message]

/-- The text that stands for the identity. -/
def key (i : Identity) : String := ":".intercalate i.parts

variable {i j : Identity} {action : WarningAction} {w : Warning}

theorem identity?_eq (action : WarningAction) (w : Warning) : Call.identity? action w = (of? action w).map key := by
  cases action <;> simp [Call.identity?, of?, key, parts, String.append_assoc]
  rfl

theorem parts_injective (h : i.parts = j.parts) : i = j := by
  cases i <;> cases j <;> simp only [parts, List.cons.injEq, reduceCtorEq, and_false, and_true] at h
  · obtain ⟨rfl, rfl, rfl, hline⟩ := h
    rw [Decimal.toString_injective hline]
  · obtain ⟨rfl, rfl, rfl⟩ := h
    rfl
  · obtain ⟨rfl, rfl⟩ := h
    rfl

theorem notMem_parts (hw : Plain w) (h : of? action w = some i) : ∀ s ∈ i.parts, ':' ∉ s.toList := by
  have hline : ':' ∉ (toString w.line).toList := Decimal.not_mem_toString (by decide) _
  cases action <;> cases h <;> simp only [parts, List.forall_mem_cons, hw.category, hw.message, hw.module, hline,
    not_false_eq_true, List.not_mem_nil, false_implies, implies_true, and_self]

/-- Warnings without colons have one text only if they have one identity, under one action. -/
theorem key_injective {action' : WarningAction} {w' : Warning} (hw : Plain w) (hw' : Plain w')
    (hi : of? action w = some i) (hj : of? action' w' = some j) (h : i.key = j.key) : i = j := by
  have hne : ∀ i : Identity, i.parts ≠ [] := by rintro ⟨⟩ <;> exact List.cons_ne_nil _ _
  apply parts_injective
  calc i.parts = i.key.splitOn ":" := (Text.splitOn_intercalate (hne i) (notMem_parts hw hi)).symm
    _ = j.key.splitOn ":" := by rw [h]
    _ = j.parts := Text.splitOn_intercalate (hne j) (notMem_parts hw' hj)

end Identity

/-! ## Calls -/

/-- A call of `warn` on the machine as it is then. -/
structure WarnCall where
  site : CallSite
  category : String
  message : String
  machine : Machine

namespace WarnCall

def result (c : WarnCall) : Except Halt Unit × Machine := Call.warn c.site c.category c.message c.machine

def warning (c : WarnCall) : Warning := Call.warningOf c.site c.category c.message

def action (c : WarnCall) : WarningAction := c.machine.channels.filters.actionFor c.warning

def identity? (c : WarnCall) : Option Identity := Identity.of? c.action c.warning

/-- The call returns and changes nothing. -/
def Silent (c : WarnCall) : Prop := c.result = (.ok (), c.machine)

/-- The line of the warning on standard error, as far as that takes it. -/
def written (c : WarnCall) : Except Halt Unit × Machine :=
  Run.err (Call.lineOf c.site c.category c.message) c.machine

/-- The line of the warning is written, and the call ends as that does: it returns, unless standard error fails. -/
def Printed (c : WarnCall) : Prop :=
  c.result.1 = c.written.1 ∧ c.result.2.channels.streams = c.written.2.channels.streams

variable {c : WarnCall} {i : Identity}

theorem cases (c : WarnCall) : Call.Warns c.site c.category c.message c.machine c.result :=
  Call.warn_cases c.site c.category c.message c.machine

/-- A line is not written without a trace: it is taken, or a failure of standard error has come up. -/
theorem streams_written (c : WarnCall) : c.written.2.channels.streams ≠ c.machine.channels.streams :=
  Streams.tell_ne _ (by simp [Call.lineOf])

theorem Printed.not_silent (h : c.Printed) : ¬c.Silent := by
  intro hsilent
  have hstreams := h.2
  rw [show c.result = _ from hsilent] at hstreams
  exact c.streams_written hstreams.symm

theorem key_eq (c : WarnCall) : Call.identity? c.action c.warning = c.identity?.map Identity.key :=
  Identity.identity?_eq c.action c.warning

/-- A warning that is to be shown once is silent if its text was shown, and otherwise printed and remembered. -/
theorem result_of_identity? (h : c.identity? = some i) :
    (i.key ∈ c.machine.shown ∧ c.Silent) ∨
      (i.key ∉ c.machine.shown ∧ c.Printed ∧ c.result.2.shown = i.key :: c.machine.shown) := by
  have hkey : Call.identity? c.action c.warning = some i.key := by rw [key_eq, h, Option.map_some]
  have hcases := c.cases
  unfold Silent Printed
  generalize c.result = r at hcases
  cases hcases with
  | ignored haction | raised haction | always haction =>
      rw [show c.action = _ from haction] at hkey
      cases hkey
  | known hid hin =>
      obtain rfl := Option.some.inj (hid.symm.trans hkey)
      exact .inl ⟨hin, rfl⟩
  | shown hid hin =>
      obtain rfl := Option.some.inj (hid.symm.trans hkey)
      exact .inr ⟨hin, ⟨rfl, rfl⟩, rfl⟩

theorem shown_of_identity?_none (h : c.identity? = none) : c.result.2.shown = c.machine.shown := by
  have hkey : Call.identity? c.action c.warning = none := by rw [key_eq, h, Option.map_none]
  have hcases := c.cases
  generalize c.result = r at hcases
  cases hcases with
  | ignored _ | raised _ | always _ | known _ _ => rfl
  | shown hid _ => cases hid.symm.trans hkey

/-- What is remembered after a call is what was, and the text of the warning if it is printed and shown once. -/
theorem mem_shown {key : String} : key ∈ c.result.2.shown ↔
    key ∈ c.machine.shown ∨ c.Printed ∧ ∃ i, c.identity? = some i ∧ i.key = key := by
  cases h : c.identity? with
  | none => simp [shown_of_identity?_none h]
  | some i =>
      rcases result_of_identity? h with ⟨hin, hsilent⟩ | ⟨hin, hprinted, hshown⟩
      · have hnot : ¬c.Printed := fun hprinted => hprinted.not_silent hsilent
        rw [show c.result = _ from hsilent]
        simp [hnot]
      · rw [hshown]
        simp [hprinted, eq_comm, or_comm]

end WarnCall

/-- The calls of `warn` on a machine from the start on, the last one first. In between, filters may be added, and all
else may change but what is remembered of the warnings. -/
inductive Calls : List WarnCall → Machine → Prop where
  | start {m : Machine} : m.shown = [] → Calls [] m
  | other {calls : List WarnCall} {m m' : Machine} : Calls calls m → m'.shown = m.shown → Calls calls m'
  | warn {calls : List WarnCall} (c : WarnCall) : Calls calls c.machine → Calls (c :: calls) c.result.2

namespace Calls

variable {calls : List WarnCall} {m : Machine} {c : WarnCall} {i : Identity}

/-- What is remembered are the texts of the warnings that were printed and shown once. -/
theorem mem_shown (h : Calls calls m) {key : String} :
    key ∈ m.shown ↔ ∃ e ∈ calls, e.Printed ∧ ∃ j, e.identity? = some j ∧ j.key = key := by
  induction h with
  | start h => simp [h]
  | other _ h ih => rw [h, ih]
  | warn c _ ih => rw [c.mem_shown, ih, List.exists_mem_cons_iff, or_comm]

/-- Of the warnings that are to be shown once, the silent ones are those with the text of an earlier one that was
printed, and all others are printed. Where no warning has a colon in it, this earlier one was given under the same
action and has the same identity. -/
theorem silent_iff (h : Calls calls c.machine) (hi : c.identity? = some i) :
    (c.Silent ↔ ∃ e ∈ calls, e.Printed ∧ ∃ j, e.identity? = some j ∧ j.key = i.key) ∧
    (c.Printed ↔ ¬c.Silent) ∧
    ((∀ e ∈ c :: calls, Plain e.warning) → (c.Silent ↔ ∃ e ∈ calls, e.Printed ∧ e.identity? = some i)) := by
  have hkey : c.Silent ↔ ∃ e ∈ calls, e.Printed ∧ ∃ j, e.identity? = some j ∧ j.key = i.key := by
    rw [← h.mem_shown]
    rcases WarnCall.result_of_identity? hi with ⟨hin, hsilent⟩ | ⟨hin, hprinted, -⟩
    · exact iff_of_true hsilent hin
    · exact iff_of_false hprinted.not_silent hin
  refine ⟨hkey, ⟨fun hprinted => hprinted.not_silent, fun hnot => ?_⟩, fun hplain => ?_⟩
  · rcases WarnCall.result_of_identity? hi with ⟨-, hsilent⟩ | ⟨-, hprinted, -⟩
    · exact absurd hsilent hnot
    · exact hprinted
  · -- Without colons the text gives back the parts, and their number the action.
    rw [hkey]
    constructor
    · rintro ⟨e, he, hprinted, j, hj, hsame⟩
      obtain ⟨hc, hcalls⟩ := List.forall_mem_cons.mp hplain
      obtain rfl := Identity.key_injective (hcalls e he) hc hj hi hsame
      exact ⟨e, he, hprinted, hj⟩
    · rintro ⟨e, he, hprinted, hsame⟩
      exact ⟨e, he, hprinted, i, hsame, rfl⟩

def mainCall (line : Nat) (category message : String) (m : Machine) : WarnCall :=
  ⟨⟨"main.py", line, "__main__"⟩, category, message, m⟩

def late : WarnCall := mainCall 1 "UserWarning" "late" {}

def lateAgain : WarnCall := mainCall 1 "UserWarning" "late" late.result.2

/-- A warning is given twice on one line. -/
theorem silent_iff_again :
    Calls [late] lateAgain.machine ∧ lateAgain.identity? = some (.default "UserWarning" "late" "__main__" 1) ∧
    (∀ e ∈ [lateAgain, late], Plain e.warning) ∧
    (lateAgain.Silent ↔ ∃ e ∈ [late], e.Printed ∧ e.identity? = some (.default "UserWarning" "late" "__main__" 1)) := by
  have hcalls : Calls [late] lateAgain.machine := .warn late (.start rfl)
  have hidentity : lateAgain.identity? = some (.default "UserWarning" "late" "__main__" 1) := rfl
  have hplain : ∀ e ∈ [lateAgain, late], Plain e.warning := by
    intro e he
    simp only [List.mem_cons, List.not_mem_nil, or_false] at he
    rcases he with rfl | rfl <;> exact ⟨by decide, by decide, by decide⟩
  exact ⟨hcalls, hidentity, hplain, (silent_iff hcalls hidentity).2.2 hplain⟩

/-- A machine on which every warning is shown once. -/
def onceOnly : Machine := { channels.filters := [⟨.once, "", "", "", 0⟩] }

def colonInMessage : WarnCall := mainCall 1 "a" "b:c" onceOnly

def colonInCategory : WarnCall := mainCall 2 "a:b" "c" colonInMessage.result.2

/-- A warning is silent though none of its category and message was given before: it reads `a:b:c` with the parts of the
other one. -/
theorem silent_without_earlier :
    Calls [colonInMessage] colonInCategory.machine ∧ colonInCategory.identity? = some (.once "a:b" "c") ∧
    colonInCategory.Silent ∧
    ¬∃ e ∈ [colonInMessage], e.Printed ∧ e.identity? = some (.once "a:b" "c") := by
  have hidentity : colonInMessage.identity? = some (.once "a" "b:c") := rfl
  refine ⟨.warn colonInMessage (.start rfl), rfl, rfl, ?_⟩
  rintro ⟨e, he, -, hsame⟩
  rw [List.mem_singleton.mp he, hidentity] at hsame
  exact absurd hsame (by decide)

end Calls

/-! ## Sessions -/

theorem Machine.shown_bind (m : Machine) (module name : String) (v : Value) :
    (m.bind module name v).shown = m.shown := by
  unfold bind
  split <;> rfl

theorem Machine.shown_enter (m : Machine) (module file : String) : (m.enter module file).shown = m.shown := by
  unfold enter
  split <;> rfl

/-- The warnings of the later machine are those of the earlier one and some more. -/
def Continues (m m' : Machine) : Prop := ∀ calls, Calls calls m → ∃ more, Calls (more ++ calls) m'

theorem Continues.of_shown {m m' : Machine} (h : m'.shown = m.shown) : Continues m m' :=
  fun _ hcalls => ⟨[], hcalls.other h⟩

theorem Continues.trans {m m' m'' : Machine} (h : Continues m m') (h' : Continues m' m'') : Continues m m'' := by
  intro calls hcalls
  obtain ⟨more, hmore⟩ := h calls hcalls
  obtain ⟨others, hothers⟩ := h' _ hmore
  exact ⟨others ++ more, by rwa [List.append_assoc]⟩

theorem permits_continues (module : String) : Machine.Permits Continues module where
  aside := fun _ _ hshown => .of_shown hshown
  warn := fun site category message m _ hcalls => ⟨[⟨site, category, message, m⟩], .warn _ hcalls⟩
  bind := fun m name v => .of_shown (m.shown_bind module name v)
  trans := .trans

theorem permitsAll_continues (find : String → Except ImportError LocatedModule) :
    Machine.PermitsAll Continues find where
  permits := permits_continues
  start := fun m _ found _ => .of_shown (m.shown_enter _ found.origin)
  remove := fun _ _ => .of_shown rfl

namespace Session

open Exec (Moment Comes nested nested_moves)

variable {f : Finder} {fs : FileSystem} {visits : List Visit} {v : Visit} {a b : Moment}

theorem spans_continues : Spans Continues where
  permits := permits_continues mainModule
  enters := fun m file => .of_shown (m.shown_enter mainModule file)

theorem nested_continues (env : Surroundings) (fuel : Nat) (code : Code) :
    Moves Continues (nested env fuel code mainModule) :=
  nested_moves (permitsAll_continues env.find) fuel code mainModule

/-- Whatever a host was asked to do before, and wherever it is in what it does now, the warnings up to then are such
calls on a fresh machine. -/
theorem calls_of_comes (hstarts : v.Starts f fs (after f fs visits) a) (hcomes : Comes (v.surroundings f fs) a b) :
    ∃ calls, Calls calls b.config.machine := by
  have hbefore : Continues {} (after f fs visits) :=
    after_moves spans_continues (fun v => v.moves spans_continues (nested_continues _ _)) visits
  have hstart := hstarts.moves spans_continues (nested_continues _ _)
  have hcome := hcomes.moves (permitsAll_continues (f.find fs))
  obtain ⟨calls, hcalls⟩ := (hbefore.trans (hstart.trans hcome)) [] (.start rfl)
  exact ⟨_, hcalls⟩

end Session

end Launcher.Script
