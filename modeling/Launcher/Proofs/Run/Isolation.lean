import Launcher.Proofs.Action
import Launcher.Run.Dispatcher
import Launcher.Script.Session

/-!
# Runs that ignore the environment

Where the environment says that it is to be ignored, a run takes nothing from it but the home directory: the switches
do not come from it, no option takes the switch back that says so, and the path variable is not read.
-/

namespace Launcher

namespace Action

variable {ε σ α β : Type} {P Q : σ → Prop}

/-- The computations do the same from every state with `P` on. -/
def AgreeOn (P : σ → Prop) (x y : Action ε σ α) : Prop := ∀ s, P s → x s = y s

namespace AgreeOn

variable {x y : Action ε σ α}

theorem refl (x : Action ε σ α) : AgreeOn P x x := fun _ _ => rfl

theorem followedBy (h : AgreeOn P x y) (f : α → Action ε σ β) : AgreeOn P (x >>= f) (y >>= f) := by
  intro s hs
  simp only [Bind.bind, Action.bind, h s hs]

theorem andThen {f g : α → Action ε σ β} (hx : Keeps P Q x) (h : ∀ a, AgreeOn P (f a) (g a)) :
    AgreeOn P (x >>= f) (x >>= g) := by
  intro s hs
  rcases hxs : x s with ⟨e | a, t⟩
  · rw [bind_of_error hxs, bind_of_error hxs]
  · rw [bind_of_ok hxs, bind_of_ok hxs]
    exact h a t (hx.of_ok hs hxs)

theorem read {f g : σ → Action ε σ α} (h : ∀ s, P s → AgreeOn P (f s) (g s)) :
    AgreeOn P (Action.get >>= f) (Action.get >>= g) :=
  fun s hs => h s hs s hs

end AgreeOn

end Action

open Launcher.Action (Keeps AgreeOn)

/-! ## The environment -/

namespace Environment

variable {env env' : Environment}

theorem home?_congr (h : env.get? "HOME" = env'.get? "HOME") (hsystem : env.systemHome = env'.systemHome) :
    env.home? = env'.home? := by
  rw [home?, home?, h, hsystem]

end Environment

/-- Where the environment says to ignore it, it sets no other switch. -/
theorem Flags.ofEnvironment_of_ignored {env : Environment} {names : EnvNames}
    (h : env.flag? names.ignoreEnvironment = some true) :
    Flags.ofEnvironment env names = { ignoreEnvironment := true } := by
  rw [Flags.ofEnvironment, if_pos h]

/-! ## The command line -/

namespace CommandLine

/-- The options when the letters of an argument were read. -/
def ClusterEnd.options : ClusterEnd → OptionState
  | .next s _ => s
  | .done s _ => s

variable {s : OptionState}

-- Of the letters that set switches two set this one as well, and no other letter changes it.
theorem letter_ignoreEnvironment {s' : OptionState} {c : Char} (hs : s.flags.ignoreEnvironment = true)
    (h : letter s c = .state s') : s'.flags.ignoreEnvironment = true := by
  unfold letter at h
  split at h <;> cases h
  case h_7 => rfl
  case h_10 => rfl
  all_goals exact hs

theorem valueEffect_flags (s : OptionState) (flag : Char) (value : String) :
    (valueEffect s flag value).flags = s.flags := by
  unfold valueEffect
  split
  · split <;> rfl
  · split <;> rfl

theorem cluster_ignoreEnvironment (hs : s.flags.ignoreEnvironment = true) (rest : List String) (cs : List Char) :
    (cluster s rest cs).options.flags.ignoreEnvironment = true := by
  induction cs generalizing s with
  | nil => exact hs
  | cons c cs ih =>
      unfold cluster
      split
      · dsimp only
        split
        · exact hs
        · split
          · exact hs
          · split
            · exact hs
            · exact (congrArg Flags.ignoreEnvironment (valueEffect_flags ..)).trans hs
      · split
        · rename_i s' hletter
          exact ih (letter_ignoreEnvironment hs hletter)
        · exact hs
        · exact hs
        · exact hs

theorem options_ignoreEnvironment (hs : s.flags.ignoreEnvironment = true) (rounds : Nat) (args : List String) :
    (options s rounds args).2.flags.ignoreEnvironment = true := by
  induction rounds generalizing s args with
  | zero => exact hs
  | succ rounds ih =>
      cases args with
      | nil => exact hs
      | cons arg args =>
          rw [options]
          split
          · exact hs
          · split
            · exact hs
            · rename_i c cs _ _
              have hcluster := cluster_ignoreEnvironment hs args (c :: cs)
              split
              · rename_i s' rest hnext
                rw [hnext] at hcluster
                exact ih hcluster rest
              · rename_i s' outcome hdone
                rw [hdone] at hcluster
                exact hcluster
            · exact hs

/-- No option takes back that the environment is ignored. -/
theorem parse_ignoreEnvironment {flags : Flags} (h : flags.ignoreEnvironment = true) (filters : WarningFilters)
    (args : List String) : (parse flags filters args).2.flags.ignoreEnvironment = true :=
  options_ignoreEnvironment h _ _

end CommandLine

/-! ## The search path -/

namespace SearchPath

variable {script : Option Path} {cwd : Path} {env env' : Environment} {names : EnvNames} {flags : Flags}
  {installation : Installation}

theorem normalizeIn_congr (hhome : env.home? = env'.home?) :
    normalizeIn ⟨script, cwd, env, names, flags, installation⟩ =
      normalizeIn ⟨script, cwd, env', names, flags, installation⟩ := by
  funext text
  simp only [normalizeIn, hhome]

theorem resolve_congr {τ : Type} (fs : FileSystem) (expander : Expander τ) (hhome : env.home? = env'.home?)
    (hignored : flags.ignoreEnvironment = true) (s : τ) :
    resolve fs expander ⟨script, cwd, env, names, flags, installation⟩ s =
      resolve fs expander ⟨script, cwd, env', names, flags, installation⟩ s := by
  simp only [resolve, scriptBlock, variableBlock, libraryBlock, siteDirectories, normalizeIn_congr hhome, hignored,
    if_true]

end SearchPath

/-! ## The run -/

namespace Dispatcher

variable {σ τ : Type} {Q : RunState σ τ → Prop}

/-- The run ignores the environment. -/
def Ignores (s : RunState σ τ) : Prop := s.context.flags.ignoreEnvironment = true

theorem writeErr_keeps (text : String) : Keeps Ignores Q (writeErr text : Boot σ τ Unit) := .modify fun _ hs => hs

theorem log_keeps (line : String) : Keeps Ignores Q (log line : Boot σ τ Unit) := fun _ hs => hs

theorem setContext_keeps {f : Context → Context} (hf : ∀ c, (f c).flags = c.flags) :
    Keeps Ignores Q (setContext f : Boot σ τ Unit) :=
  .modify fun s hs => (congrArg Flags.ignoreEnvironment (hf s.context)).trans hs

theorem whenDebug_keeps {x : Boot σ τ Unit} (hx : Keeps Ignores Q x) (level : Nat) :
    Keeps Ignores Q (whenDebug level x) := by
  intro s hs
  by_cases hlevel : level ≤ s.context.flags.debug
  · simpa only [whenDebug, if_pos hlevel] using hx s hs
  · simpa only [whenDebug, if_neg hlevel] using hs

theorem transfer_keeps {α : Type} (x : Streams.Transfer α) :
    Keeps Ignores (fun _ => True) (transfer x : Boot σ τ α) := by
  intro s hs
  rcases hx : x s.streams with ⟨message | a, streams⟩
  · rw [transfer, hx]
    trivial
  · rw [transfer, hx]
    exact hs

variable (d : Dispatcher σ τ)

theorem fromStdin_keeps (flags : Flags) (argv : List String) :
    Keeps Ignores (fun _ => True) (scriptMode.fromStdin flags argv : Boot σ τ _) := by
  refine .bind (transfer_keeps _) fun bytes => ?_
  refine .bind (setContext_keeps fun _ => rfl) fun _ => ?_
  split
  · exact .pure _
  · split
    · exact .pure _
    · exact .fail (fun _ _ => trivial) _

theorem scriptMode_keeps (line : ParsedCommandLine) : Keeps Ignores (fun _ => True) (d.scriptMode line) := by
  refine .read fun s _ => ?_
  split
  · exact .pure _
  · exact .pure _
  · split
    · split
      · exact fromStdin_keeps _ _
      · exact .pure _
    · exact fromStdin_keeps _ _

theorem selectMode_keeps (line : ParsedCommandLine) : Keeps Ignores (fun _ => True) (d.selectMode line) := by
  refine .read fun s _ => ?_
  split
  · exact .pure _
  · exact .pure _
  · exact d.scriptMode_keeps line
  · exact d.scriptMode_keeps line

variable {env env' : Environment}

theorem setupSearchPath_agree (hhome : env.home? = env'.home?) (mode : ExecutionMode) :
    AgreeOn Ignores (d.setupSearchPath env mode) (d.setupSearchPath env' mode) := by
  refine .read fun s hs => ?_
  have hignored : s.context.flags.ignoreEnvironment = true := hs
  dsimp only
  rw [hhome, SearchPath.resolve_congr d.files d.site hhome hignored]
  exact .refl _

/-- What a run does for a command line once the streams are set. -/
def proceed (env : Environment) (line : ParsedCommandLine) (c : Context) : Boot σ τ Int := do
  whenDebug 1 (writeErr (Usage.debugInfo c d.config))
  setContext (·.enter .dispatching)
  let (mode, argv) ← d.selectMode line
  setContext fun c => { c with mode := some mode, argv }
  d.setupSearchPath env mode
  setContext (·.enter .executing)
  d.execute mode

theorem dispatch_eq (i : Invocation) (line : ParsedCommandLine) :
    d.dispatch i line = Action.get >>= fun s =>
      if s.context.flags.unbuffered then
        whenDebug 2 (log "Enabling unbuffered mode") >>= fun _ =>
          Action.modify (fun s => { s with streams := s.streams.setUnbuffered }) >>= fun _ =>
            d.proceed i.env line s.context
      else d.proceed i.env line s.context := rfl

theorem proceed_agree (hhome : env.home? = env'.home?) (line : ParsedCommandLine) (c : Context) :
    AgreeOn Ignores (d.proceed env line c) (d.proceed env' line c) := by
  refine .andThen (Q := fun _ => True) (whenDebug_keeps (writeErr_keeps _) _) fun _ => ?_
  refine .andThen (Q := fun _ => True) (setContext_keeps fun _ => rfl) fun _ => ?_
  refine .andThen (d.selectMode_keeps line) fun (mode, argv) => ?_
  refine .andThen (Q := fun _ => True) (setContext_keeps fun _ => rfl) fun _ => ?_
  exact (d.setupSearchPath_agree hhome mode).followedBy _

variable {i : Invocation}

theorem dispatch_agree (hhome : i.env.home? = env.home?) (line : ParsedCommandLine) :
    AgreeOn Ignores (d.dispatch i line) (d.dispatch { i with env } line) := by
  rw [dispatch_eq, dispatch_eq]
  refine .read fun s _ => ?_
  have hproceed := d.proceed_agree hhome line s.context
  split
  · refine .andThen (Q := fun _ => True) (whenDebug_keeps (log_keeps _) _) fun _ => ?_
    exact .andThen (Q := fun _ => True) (.modify fun _ hs => hs) fun _ => hproceed
  · exact hproceed

theorem bootstrap_agree (hhome : i.env.home? = env.home?) :
    AgreeOn Ignores (d.bootstrap i) (d.bootstrap { i with env }) := by
  refine .read fun s hs => ?_
  dsimp only
  split
  · exact .andThen (Q := fun _ => True) (setContext_keeps fun _ => rfl) fun _ => d.dispatch_agree hhome _
  · have hparsed := CommandLine.parse_ignoreEnvironment hs s.context.filters i.args
    refine .andThen (Q := fun _ => True) (.modify fun _ _ => hparsed) fun _ => ?_
    split
    · exact .refl _
    · exact .refl _
    · exact .refl _
    · refine .andThen (Q := fun _ => True) (.forM (fun _ => writeErr_keeps _) _) fun _ => ?_
      exact .andThen (Q := fun _ => True) (setContext_keeps fun _ => rfl) fun _ => d.dispatch_agree hhome _

/-- Two runs that differ in the variables of the environment only, in both of which these say that it is to be ignored,
and which name the same home directory or none, have the same status, the same record and the same output. -/
theorem run_isolated (i : Invocation) (vars : Dict String) (host : σ) (site : τ) (streams : Streams)
    (hhome : i.env.get? "HOME" = { i.env with vars }.get? "HOME")
    (hignored : i.env.flag? d.config.env.ignoreEnvironment = some true)
    (hignored' : { i.env with vars }.flag? d.config.env.ignoreEnvironment = some true) :
    d.run i host site streams = d.run { i with env := { i.env with vars } } host site streams := by
  have hstart : d.startContext i = d.startContext { i with env := { i.env with vars } } := by
    rw [startContext, startContext, Flags.ofEnvironment_of_ignored hignored, Flags.ofEnvironment_of_ignored hignored']
  have hignores : Ignores (⟨d.startContext i, host, site, streams⟩ : RunState σ τ) := by
    rw [Ignores, startContext, Flags.ofEnvironment_of_ignored hignored]
  rw [run, run, ← hstart, d.bootstrap_agree (Environment.home?_congr hhome rfl) _ hignores]

/-- A script of a user whose home the system knows, once with a path variable and switches in the environment and once
without, on a standard error that fails once. -/
theorem run_isolated_script :
    let vars : Dict String := [("FROZENRUN_DEBUG", "2"), ("FROZENRUN_IGNORE_ENVIRONMENT", "1"),
      ("FROZENRUN_PATH", "/lib:~/lib")]
    let vars' : Dict String := [("FROZENRUN_IGNORE_ENVIRONMENT", "yes")]
    let env (vars : Dict String) : Environment := { vars, systemHome := some ⟨"/home/u"⟩ }
    let i (vars : Dict String) : Invocation :=
      { executable := ⟨"/bin/frozenrun"⟩, args := ["-v", "a.py"], env := env vars, cwd := ⟨"/"⟩
        stdinIsTerminal := true }
    let d : Dispatcher Script.Machine Unit := ⟨{}, {}, Script.Session.host 5, {}, SearchPath.pthExpander {}⟩
    let streams : Streams := { errFaults := [some ⟨3, "broken pipe"⟩] }
    (env vars).get? "HOME" = (env vars').get? "HOME" ∧
      (env vars).flag? d.config.env.ignoreEnvironment = some true ∧
      (env vars').flag? d.config.env.ignoreEnvironment = some true ∧
      d.run (i vars) {} () streams = d.run (i vars') {} () streams := by
  intro vars vars' env i d streams
  have hhome : (env vars).get? "HOME" = (env vars').get? "HOME" := by decide
  have hignored : (env vars).flag? "FROZENRUN_IGNORE_ENVIRONMENT" = some true := by decide +kernel
  have hignored' : (env vars').flag? "FROZENRUN_IGNORE_ENVIRONMENT" = some true := by decide +kernel
  exact ⟨hhome, hignored, hignored', d.run_isolated (i vars) vars' {} () streams hhome hignored hignored'⟩

end Dispatcher

end Launcher
