import Launcher.Proofs.Files.Parts
import Launcher.Proofs.Run.Calls
import Launcher.Proofs.Script.Halting
import Launcher.Proofs.Script.Spelling

/-!
# The status of a target that fails

An error that the target does not catch makes the status of the run 1, and a status that the target asks for is that of
the run, whatever imports the target is in when it does. But a status has 32 bits only: of an integer the rest is lost,
and a multiple of 2^32 counts as success.
-/

namespace Launcher

open Script Script.Exec Script.Session

/-! ## Integers as statuses -/

namespace Script.Call

theorem status_of_fits {n : Int64} (hlow : -2 ^ 31 ≤ n.toInt) (hhigh : n.toInt < 2 ^ 31) : status n = n.toInt :=
  Int.bmod_eq_of_le hlow hhigh

theorem status_eq_zero_iff {n : Int64} : status n = 0 ↔ (2 ^ 32 : Int) ∣ n.toInt :=
  Int.dvd_iff_bmod_eq_zero.symm

end Script.Call

namespace Dispatcher

variable {σ τ : Type}

/-! ## The task of a run and its status -/

/-- What a run says before it hands its target to the host. -/
def announceTarget (f : Finder) (mode : ExecutionMode) (t : LoadedTarget) (c : Context) : Boot σ τ Unit :=
  whenDebug 2 <| logAll
    ["Executing '" ++ t.file ++ "' in mode '" ++ mode.kind ++ "'", "  argv=" ++ debugList c.argv,
      "  path=" ++ debugList (f.searchPath.map Path.text)]

variable {d : Dispatcher σ τ} {i : Invocation} {s t x : RunState σ τ} {job : Job}

theorem runTarget_eq (f : Finder) (mode : ExecutionMode) (target : LoadedTarget) :
    d.runTarget f mode target = Action.get >>= fun s => announceTarget f mode target s.context >>= fun _ =>
      lend (d.host.runMain target.code target.file (d.surroundings s.context f)) := rfl

theorem announceTarget_talks (f : Finder) (mode : ExecutionMode) (target : LoadedTarget) (c : Context) :
    Talks (announceTarget f mode target c : Boot σ τ Unit) := whenDebug_talks (logAll_talks _) 2

theorem bootstrap_of_job (h : d.prepare i s = (.ok (some job), t)) : d.bootstrap i s = d.carryOut job t := by
  rw [bootstrap_eq, Action.bind_of_ok h]
  rfl

theorem conclude_of_not_inspect (h : job.inspect = false) (e : Ending) :
    d.conclude job e = Action.ofExcept (statusOf e) := by
  rcases e with (e | n | _) | ⟨⟩ <;> simp only [conclude, h] <;> rfl

theorem statusOfResult_conclude (h : job.inspect = false) (e : Ending) :
    statusOfResult (d.conclude job e x).1 = exitStatus e := by
  rw [conclude_of_not_inspect h, ← statusOfResult_statusOf]
  cases statusOf e <;> rfl

variable {m : σ} {site : τ} {streams : Streams}

theorem run_status_eq : (d.run i m site streams).1.status =
    statusOfResult (d.bootstrap i ⟨d.startContext i, m, site, streams⟩).1 := by
  rcases hboot : d.bootstrap i ⟨d.startContext i, m, site, streams⟩ with ⟨r, s⟩
  rw [run_eq hboot]

/-- The record says to the end whether interactive mode is to follow. -/
theorem run_inspect (h : d.prepare i ⟨d.startContext i, m, site, streams⟩ = (.ok (some job), t)) :
    (d.run i m site streams).1.context.flags.inspect = job.inspect := by
  obtain ⟨made, -, -, hflags, -⟩ := carryOut_makes (d := d) job t []
  rcases hcarried : d.carryOut job t with ⟨r, s⟩
  rw [hcarried] at hflags
  have hboot := (bootstrap_of_job h).trans hcarried
  rw [run_eq hboot, ← (prepare_suits h).inspect, ← hflags]
  rfl

/-! ## The visit to the host -/

/-- The visit that a run makes to a host with `fuel` steps for its target, with the finder for its imports and the
machine that the host has by then. -/
inductive TargetVisit (d : Dispatcher Machine τ) (fuel : Nat) (i : Invocation) (s : RunState Machine τ) :
    Finder → Visit → Machine → Prop where
  | intro {job : Job} {target : LoadedTarget} {t x : RunState Machine τ} :
      d.prepare i s = (.ok (some job), t) → job.task = .target target →
      announceTarget job.finder job.mode target t.context t = (.ok (), x) →
      TargetVisit d fuel i s job.finder
        ⟨.runMain target.code target.file, fuel, x.context.argv, x.context.flags, ⟨x.context.filters, x.streams⟩⟩ x.host

end Dispatcher

/-! ## What stops a main program stops the visit -/

section

variable {f : Finder} {fs : FileSystem} {v : Visit} {m : Machine} {a : Moment} {bytes : Bytes} {file : String}

theorem Script.Session.Visit.run_of_starts (htask : v.task = .runMain bytes file) (h : v.Starts f fs m a) :
    (v.run f fs m).1 = (a.run (v.surroundings f fs)).1 := by
  cases h with
  | main htask' hcode =>
      cases htask.symm.trans htask'
      simp only [Visit.run, htask]
      show (Session.runMain _ _ _ _ _).1 = _
      rw [Session.runMain, hcode]
      rfl
  | line htask' => cases htask.symm.trans htask'

theorem Script.Session.Visit.run_of_unreadable {e : TargetError} (htask : v.task = .runMain bytes file)
    (h : Code.ofBytes bytes = .error e) : (v.run f fs m).1 = .error (.raised e) := by
  simp only [Visit.run, htask]
  show (Session.runMain _ _ _ _ _).1 = _
  rw [Session.runMain, h]
  rfl

end

namespace Dispatcher

/-! ## The executions of a target -/

/-- The host executes the target of a run and comes to that moment, at whatever depth of imports. -/
inductive TargetComes (d : Dispatcher Machine τ) (fuel : Nat) (i : Invocation) (s : RunState Machine τ) :
    Surroundings → Moment → Prop where
  | intro {f : Finder} {v : Visit} {m : Machine} {a b : Moment} :
      d.TargetVisit fuel i s f v m → v.Starts f d.files m a → Comes (v.surroundings f d.files) a b →
      TargetComes d fuel i s (v.surroundings f d.files) b

/-- The target of a run raises an error that nothing catches: it does not compile, its bytes are no code, or an
instruction raises it. -/
inductive TargetRaises (d : Dispatcher Machine τ) (fuel : Nat) (i : Invocation) (s : RunState Machine τ) :
    TargetError → Prop where
  | uncompiled {e : TargetError} : d.taskOf i s = .ok (some (.uncompiled e)) → TargetRaises d fuel i s e
  | unreadable {f : Finder} {v : Visit} {m : Machine} {bytes : Bytes} {file : String} {e : TargetError} :
      d.TargetVisit fuel i s f v m → v.task = .runMain bytes file → Code.ofBytes bytes = .error e →
      TargetRaises d fuel i s e
  | stops {env : Surroundings} {b : Moment} {e : TargetError} :
      d.TargetComes fuel i s env b → b.Stops env (.raised e) → TargetRaises d fuel i s e

variable {d : Dispatcher Machine τ} {fuel : Nat} {i : Invocation} {m m' : Machine} {site : τ} {streams : Streams}
  {f : Finder} {v : Visit} {job : Job} {target : LoadedTarget} {s t x : RunState Machine τ}

theorem prepare_of_taskOf {task : Task} (h : d.taskOf i s = .ok (some task)) :
    ∃ job t, d.prepare i s = (.ok (some job), t) ∧ job.task = task := by
  unfold taskOf at h
  rcases hprepare : d.prepare i s with ⟨e | _ | job, t⟩ <;> rw [hprepare] at h <;> cases h
  exact ⟨job, t, rfl, rfl⟩

theorem TargetVisit.exists_task (h : d.TargetVisit fuel i s f v m) : ∃ bytes file, v.task = .runMain bytes file := by
  cases h with
  | intro => exact ⟨_, _, rfl⟩

theorem exists_targetVisit (hprepare : d.prepare i s = (.ok (some job), t)) (htask : job.task = .target target) :
    ∃ f v, d.TargetVisit fuel i s f v t.host ∧ v.task = .runMain target.code target.file ∧ v.fuel = fuel := by
  obtain ⟨streams, htalk⟩ := announceTarget_talks job.finder job.mode target t.context t
  exact ⟨_, _, .intro (x := { t with streams }) hprepare htask htalk, rfl, rfl⟩

theorem runTarget_visit (hhost : d.host = Session.host fuel)
    (hannounce : announceTarget job.finder job.mode target t.context t = (.ok (), x)) :
    ∃ s, d.runTarget job.finder job.mode target t =
      (.ok ((⟨.runMain target.code target.file, fuel, x.context.argv, x.context.flags,
        ⟨x.context.filters, x.streams⟩⟩ : Visit).run job.finder d.files x.host).1, s) := by
  obtain ⟨streams, htalk⟩ := announceTarget_talks job.finder job.mode target t.context t
  obtain rfl : x = { t with streams } := (Prod.ext_iff.mp (hannounce.symm.trans htalk)).2
  rw [runTarget_eq, Action.bind_of_ok (Action.get_apply t), Action.bind_of_ok hannounce, hhost]
  exact ⟨_, rfl⟩

/-- The status of a run without interactive mode is that of the visit for its target. -/
theorem TargetVisit.run_status (hhost : d.host = Session.host fuel)
    (hvisit : d.TargetVisit fuel i ⟨d.startContext i, m, site, streams⟩ f v m')
    (hinspect : (d.run i m site streams).1.context.flags.inspect = false) :
    (d.run i m site streams).1.status = exitStatus (v.run f d.files m').1 := by
  cases hvisit with
  | @intro job target t x hprepare htask hannounce =>
      -- What the record says at the end of the run was settled with the job.
      rw [run_inspect hprepare] at hinspect
      obtain ⟨s, hrun⟩ := runTarget_visit hhost hannounce
      rw [run_status_eq, bootstrap_of_job hprepare, carryOut, htask]
      dsimp only
      rw [Action.bind_of_ok hrun, statusOfResult_conclude hinspect]

theorem TargetComes.run_status {env : Surroundings} {b : Moment} {h : Halt} (hhost : d.host = Session.host fuel)
    (hcomes : d.TargetComes fuel i ⟨d.startContext i, m, site, streams⟩ env b) (hstops : b.Stops env h)
    (hinspect : (d.run i m site streams).1.context.flags.inspect = false) :
    ∃ h', h.Framed h' ∧ (d.run i m site streams).1.status = exitStatus (.error h') := by
  cases hcomes with
  | intro hvisit hstarts hcomes =>
      obtain ⟨bytes, file, htask⟩ := hvisit.exists_task
      obtain ⟨h', m', hrun, hframed⟩ := hcomes.run_of_stops hstops
      rw [hvisit.run_status hhost hinspect, Visit.run_of_starts htask hstarts, hrun]
      exact ⟨h', hframed, rfl⟩

theorem TargetComes.exit_status {env : Surroundings} {b : Moment} {n : Int64} (hhost : d.host = Session.host fuel)
    (hcomes : d.TargetComes fuel i ⟨d.startContext i, m, site, streams⟩ env b) (hexit : b.CallsExit n)
    (hinspect : (d.run i m site streams).1.context.flags.inspect = false) :
    (d.run i m site streams).1.status = Call.status n := by
  obtain ⟨h', hframed, hstatus⟩ := hcomes.run_status hhost (hexit.stops env) hinspect
  rw [hstatus, hframed.eq_exit]
  rfl

theorem TargetRaises.run_status {e : TargetError} (hhost : d.host = Session.host fuel)
    (hraises : d.TargetRaises fuel i ⟨d.startContext i, m, site, streams⟩ e)
    (hinspect : (d.run i m site streams).1.context.flags.inspect = false) : (d.run i m site streams).1.status = 1 := by
  cases hraises with
  | uncompiled htaskOf =>
      obtain ⟨job, t, hprepare, htask⟩ := prepare_of_taskOf htaskOf
      rw [run_inspect hprepare] at hinspect
      rw [run_status_eq, bootstrap_of_job hprepare, carryOut, htask]
      exact statusOfResult_conclude hinspect (.error (.raised e))
  | unreadable hvisit htask hcode =>
      rw [hvisit.run_status hhost hinspect, Visit.run_of_unreadable htask hcode]
      rfl
  | stops hcomes hstops =>
      obtain ⟨h', hframed, hstatus⟩ := hcomes.run_status hhost hstops hinspect
      obtain ⟨trace, rfl⟩ := hframed.eq_raised
      exact hstatus

/-- A run without interactive mode whose target raises an error ends with the status 1. If the target calls `exit` with
an integer, in itself or in what it imports, the status is the integer where that has 32 bits, and else what is left of
it in 32 bits: it is 0 for the multiples of 2^32. -/
theorem run_status_of_failure (hhost : d.host = Session.host fuel)
    (hinspect : (d.run i m site streams).1.context.flags.inspect = false) :
    (∀ e, d.TargetRaises fuel i ⟨d.startContext i, m, site, streams⟩ e → (d.run i m site streams).1.status = 1) ∧
      ∀ env b n, d.TargetComes fuel i ⟨d.startContext i, m, site, streams⟩ env b → b.CallsExit n →
        (d.run i m site streams).1.status = n.toInt.bmod (2 ^ 32) ∧
        (-2 ^ 31 ≤ n.toInt → n.toInt < 2 ^ 31 → (d.run i m site streams).1.status = n.toInt) ∧
        ((d.run i m site streams).1.status = 0 ↔ (2 ^ 32 : Int) ∣ n.toInt) := by
  refine ⟨fun e he => he.run_status hhost hinspect, fun env b n hcomes hexit => ?_⟩
  rw [hcomes.exit_status hhost hexit hinspect]
  exact ⟨rfl, Call.status_of_fits, Call.status_eq_zero_iff⟩

/-! ### A program that does nothing but exit -/

/-- A launcher that has nothing but a host, with three steps. -/
def bare : Dispatcher Machine Unit := ⟨{}, {}, Session.host 3, {}, fun _ _ s => (⟨[], []⟩, s)⟩

def bareContext : Context := { programName := "frozenrun", executable := ⟨"/frozenrun"⟩, cwd := ⟨"/"⟩, flags := {} }

def bareState : RunState Machine Unit := ⟨bareContext, {}, (), {}⟩

def inlineRun (source : String) : Invocation :=
  { executable := ⟨"/frozenrun"⟩, args := ["-c", source], env := {}, cwd := ⟨"/"⟩, stdinIsTerminal := false }

theorem startState_inlineRun (source : String) : ⟨bare.startContext (inlineRun source), {}, (), {}⟩ = bareState := by
  have hplain : ∀ s ∈ ["frozenrun"], Path.Plain s := List.forall_mem_singleton.mpr ⟨by decide, by decide⟩
  have hparts : (⟨"/frozenrun"⟩ : Path).parts = [.root, .name "frozenrun"] := Path.parts_ofNames hplain
  have hname : (inlineRun source).executable.fileName? = some "frozenrun" := by
    rw [Path.fileName?, inlineRun, hparts]
    rfl
  rw [startContext, hname]
  rfl

theorem prepare_inlineRun (source : String) : bare.prepare (inlineRun source) bareState =
    bare.jobOf (inlineRun source) { payload := some (.inlineString source) }
      { bareState with context := { bareContext with runMode := .script } } := by
  have hruntime : bare.config.isRuntimeName bareState.context.programName = true := by cbv
  have hparse : CommandLine.parse bareState.context.flags bareState.context.filters (inlineRun source).args =
      (.ok (.run { payload := some (.inlineString source) }), { flags := {} }) := by cbv
  rw [prepare, Action.bind_of_ok (Action.get_apply _)]
  dsimp only
  rw [if_neg (by simp [hruntime]), hparse]
  rfl

def exitCode (n : Int64) : Code :=
  ⟨"<string>", [.int n], ["exit"], [⟨.loadName 0, 1⟩, ⟨.loadConst 0, 1⟩, ⟨.call 1, 1⟩, ⟨.pop, 1⟩]⟩

theorem ofBytes_exitCode (n : Int64) : Code.ofBytes (exitCode n).toBytes = .ok (exitCode n) := by
  refine Code.ofBytes_toBytes_iff.mpr ⟨⟨?file, ⟨?_, ?_⟩, ⟨?_, ?_⟩, ⟨?_, ?_⟩⟩, rfl⟩
  case file => exact (by decide : TextFits "<string>")
  · exact (by decide : 1 < 2 ^ 32)
  · exact List.forall_mem_singleton.mpr trivial
  · exact (by decide : 1 < 2 ^ 32)
  · exact List.forall_mem_singleton.mpr (by decide : TextFits "exit")
  · exact (by decide : 4 < 2 ^ 32)
  · simp [exitCode, Step.Fits, Code.opcode]

theorem comes_exitCode (env : Surroundings) (channels : Channels) (n : Int64) :
    ∃ b, Comes env (.start (exitCode n) Session.mainModule 3
      ((Machine.enter Session.mainModule "<string>" { channels }).enter Session.mainModule "<string>")) b ∧
      b.CallsExit n := by
  have hcall : (exitCode n).body[2]? = some ⟨.call 1, 1⟩ := rfl
  exact ⟨_, .tail (.single (.goes (.step (s := ⟨.loadName 0, 1⟩) rfl rfl)))
    (.goes (.step (s := ⟨.loadConst 0, 1⟩) rfl rfl)), .intro hcall⟩

theorem inlineRun_exits {source : String} {n : Int64} {f : Finder} {c : Context} {streams : Streams}
    (hprepare : bare.prepare (inlineRun source) bareState =
      (.ok (some ⟨.inlineString source, .target ⟨(exitCode n).toBytes, "<string>"⟩, f, false⟩), ⟨c, {}, (), streams⟩)) :
    (bare.run (inlineRun source) {} () {}).1.context.flags.inspect = false ∧
      ∃ env b, bare.TargetComes 3 (inlineRun source) ⟨bare.startContext (inlineRun source), {}, (), {}⟩ env b ∧
        b.CallsExit n := by
  obtain ⟨f, v, hvisit, htask, hfuel⟩ := exists_targetVisit hprepare rfl
  have hstarts : v.Starts f bare.files {} _ := .main htask (ofBytes_exitCode n)
  rw [hfuel] at hstarts
  obtain ⟨b, hcomes, hexit⟩ := comes_exitCode (v.surroundings f bare.files) v.channels n
  rw [← startState_inlineRun source] at hprepare hvisit
  exact ⟨run_inspect hprepare, _, b, .intro hvisit hstarts hcomes, hexit⟩

/-- A call with 3, and a program that does not compile. -/
theorem run_status_of_failure_three :
    bare.host = Session.host 3 ∧
      (∃ env b, bare.TargetComes 3 (inlineRun "exit(3)") ⟨bare.startContext (inlineRun "exit(3)"), {}, (), {}⟩ env b ∧
        b.CallsExit 3) ∧
      (bare.run (inlineRun "exit(3)") {} () {}).1.context.flags.inspect = false ∧
      (bare.run (inlineRun "exit(3)") {} () {}).1.status = 3 ∧
      (∃ e, bare.TargetRaises 3 (inlineRun "(") ⟨bare.startContext (inlineRun "("), {}, (), {}⟩ e) ∧
      (bare.run (inlineRun "(") {} () {}).1.context.flags.inspect = false ∧
      (bare.run (inlineRun "(") {} () {}).1.status = 1 := by
  have hexits : ∃ f c streams, bare.prepare (inlineRun "exit(3)") bareState =
      (.ok (some ⟨.inlineString "exit(3)", .target ⟨(exitCode 3).toBytes, "<string>"⟩, f, false⟩),
        ⟨c, {}, (), streams⟩) := by
    rw [prepare_inlineRun]
    exact ⟨_, _, _, rfl⟩
  have hraises : ∃ e f t, bare.prepare (inlineRun "(") bareState =
      (.ok (some ⟨.inlineString "(", .uncompiled e, f, false⟩), t) := by
    rw [prepare_inlineRun]
    exact ⟨_, _, _, rfl⟩
  obtain ⟨f, c, streams, hexits⟩ := hexits
  obtain ⟨hinspect, env, b, hcomes, hexit⟩ := inlineRun_exits hexits
  have hstatus := ((run_status_of_failure rfl hinspect).2 env b 3 hcomes hexit).2.1 (by decide) (by decide)
  obtain ⟨e, f', t, hraises⟩ := hraises
  rw [← startState_inlineRun "("] at hraises
  have hinspect' := run_inspect hraises
  have htarget : bare.TargetRaises 3 (inlineRun "(") _ e := .uncompiled (taskOf_eq hraises)
  have hstatus' := (run_status_of_failure rfl hinspect').1 e htarget
  exact ⟨rfl, ⟨env, b, hcomes, hexit⟩, hinspect, hstatus, ⟨e, htarget⟩, hinspect', hstatus'⟩

/-- The program `exit(4294967296)` ends with success. -/
theorem run_status_of_multiple :
    (∃ env b, bare.TargetComes 3 (inlineRun "exit(4294967296)")
        ⟨bare.startContext (inlineRun "exit(4294967296)"), {}, (), {}⟩ env b ∧ b.CallsExit 4294967296) ∧
      (bare.run (inlineRun "exit(4294967296)") {} () {}).1.context.flags.inspect = false ∧
      (bare.run (inlineRun "exit(4294967296)") {} () {}).1.status = 0 := by
  have hprepare : ∃ f c streams, bare.prepare (inlineRun "exit(4294967296)") bareState =
      (.ok (some ⟨.inlineString "exit(4294967296)", .target ⟨(exitCode 4294967296).toBytes, "<string>"⟩, f, false⟩),
        ⟨c, {}, (), streams⟩) := by
    rw [prepare_inlineRun]
    exact ⟨_, _, _, rfl⟩
  obtain ⟨f, c, streams, hprepare⟩ := hprepare
  obtain ⟨hinspect, env, b, hcomes, hexit⟩ := inlineRun_exits hprepare
  exact ⟨⟨env, b, hcomes, hexit⟩, hinspect, hcomes.exit_status rfl hexit hinspect⟩

end Dispatcher

end Launcher
