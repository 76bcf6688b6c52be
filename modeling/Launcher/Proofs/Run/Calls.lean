import Launcher.Proofs.Run.Preparation

/-!
# The calls of a run to its host

A host is asked to run the target once at most, and to be interactive once at most, after the target. Which calls a run
makes, and with which status it ends, follows from the task that it comes to and from how the calls end. To see the
calls, a host writes them down.
-/

namespace Launcher

variable {σ τ α β : Type}

/-- A call to the host, and how it ended. -/
inductive Call where
  | runMain (t : LoadedTarget) (ending : Ending)
  | interact (ending : Ending)

namespace Call

def isRunMain : Call → Bool
  | runMain .. => true
  | interact _ => false

end Call

/-- The host with a list to which it adds each call. -/
def Host.recorded (h : Host σ) : Host (σ × List Call) where
  magic := h.magic
  compile := h.compile
  runMain code file around s channels :=
    let (ending, host, channels) := h.runMain code file around s.1 channels
    (ending, (host, s.2 ++ [.runMain ⟨code, file⟩ ending]), channels)
  interact banner around s channels :=
    let (ending, host, channels) := h.interact banner around s.1 channels
    (ending, (host, s.2 ++ [.interact ending]), channels)

def Dispatcher.recorded (d : Dispatcher σ τ) : Dispatcher (σ × List Call) τ :=
  ⟨d.config, d.table, d.host.recorded, d.files, d.site⟩

def RunState.withCalls (s : RunState σ τ) (calls : List Call) : RunState (σ × List Call) τ :=
  ⟨s.context, (s.host, calls), s.site, s.streams⟩

/-- The launcher does not go on: the command line is not usable, what is to be run cannot be found or read, or the
streams fail. -/
def BootstrapError.IsRefusal : BootstrapError → Prop
  | .usage _ | .unsupportedFeature _ | .resolution _ | .streams _ => True
  | _ => False

theorem BootstrapError.isRefusal_ofCommandLine (e : CommandLineError) : (ofCommandLine e).IsRefusal := by
  cases e <;> exact trivial

namespace Dispatcher

/-! ## Computations beside a host that records -/

/-- Beside a host that records, `x` does what `y` does, and makes calls that have `P`, with the states before and
after. -/
def Makes (P : RunState σ τ → Except BootstrapError α × RunState σ τ → List Call → Prop)
    (x : Boot (σ × List Call) τ α) (y : Boot σ τ α) : Prop :=
  ∀ s before, ∃ made, x (s.withCalls before) = ((y s).1, (y s).2.withCalls (before ++ made)) ∧ P s (y s) made

theorem Makes.bind {P : RunState σ τ → Except BootstrapError α × RunState σ τ → List Call → Prop}
    {Q : α → RunState σ τ → Except BootstrapError β × RunState σ τ → List Call → Prop}
    {R : RunState σ τ → Except BootstrapError β × RunState σ τ → List Call → Prop}
    {x : Boot (σ × List Call) τ α} {y : Boot σ τ α} {f : α → Boot (σ × List Call) τ β} {g : α → Boot σ τ β}
    (hx : Makes P x y) (hf : ∀ a, Makes (Q a) (f a) (g a))
    (hok : ∀ {s a t r made more}, P s (.ok a, t) made → Q a t r more → R s r (made ++ more))
    (herror : ∀ {s e t made}, P s (.error e, t) made → R s (.error e, t) made) : Makes R (x >>= f) (y >>= g) := by
  intro s before
  obtain ⟨made, hxs, hmade⟩ := hx s before
  rcases hys : y s with ⟨e | a, t⟩
  · rw [hys] at hxs hmade
    rw [Action.bind_of_error hxs, Action.bind_of_error hys]
    exact ⟨made, rfl, herror hmade⟩
  · rw [hys] at hxs hmade
    rw [Action.bind_of_ok hxs, Action.bind_of_ok hys]
    obtain ⟨more, hfs, hmore⟩ := hf a t (before ++ made)
    exact ⟨made ++ more, by rw [hfs, List.append_assoc], hok hmade hmore⟩

theorem Makes.read {P : RunState σ τ → Except BootstrapError α × RunState σ τ → List Call → Prop}
    {f : RunState (σ × List Call) τ → Boot (σ × List Call) τ α} {g : RunState σ τ → Boot σ τ α}
    (h : ∀ s before, Makes P (f (s.withCalls before)) (g s)) : Makes P (Action.get >>= f) (Action.get >>= g) :=
  fun s before => h s before s before

theorem Makes.mono {P Q : RunState σ τ → Except BootstrapError α × RunState σ τ → List Call → Prop}
    {x : Boot (σ × List Call) τ α} {y : Boot σ τ α} (hx : Makes P x y)
    (h : ∀ {s r made}, P s r made → Q s r made) : Makes Q x y := by
  intro s before
  obtain ⟨made, hxs, hmade⟩ := hx s before
  exact ⟨made, hxs, h hmade⟩

/-- No call is made, and only the launcher refuses. -/
def Quiet (x : Boot (σ × List Call) τ α) (y : Boot σ τ α) : Prop :=
  Makes (fun _ r made => made = [] ∧ ∀ e, r.1 = .error e → e.IsRefusal) x y

namespace Quiet

variable {x : Boot (σ × List Call) τ α} {y : Boot σ τ α}

theorem pure (a : α) : Quiet (Action.pure a : Boot (σ × List Call) τ α) (Action.pure a) :=
  fun s before => ⟨[], by rw [List.append_nil]; rfl, rfl, nofun⟩

theorem fail {e : BootstrapError} (he : e.IsRefusal) :
    Quiet (Action.fail e : Boot (σ × List Call) τ α) (Action.fail e) := by
  refine fun s before => ⟨[], by rw [List.append_nil]; rfl, rfl, fun e' he' => ?_⟩
  cases he'
  exact he

theorem modify {f : RunState (σ × List Call) τ → RunState (σ × List Call) τ} {g : RunState σ τ → RunState σ τ}
    (h : ∀ s before, f (s.withCalls before) = (g s).withCalls before) : Quiet (Action.modify f) (Action.modify g) :=
  fun s before => ⟨[], by rw [List.append_nil, Action.modify_apply, h]; rfl, rfl, nofun⟩

theorem transfer (x : Streams.Transfer α) :
    Quiet (transfer x : Boot (σ × List Call) τ α) (transfer x) := by
  refine fun s before => ⟨[], by rw [List.append_nil]; rfl, rfl, fun e he => ?_⟩
  rcases hx : (x s.streams).1 with message | a
  · rw [transfer_of_error hx] at he
    cases he
    exact trivial
  · rw [transfer_of_ok hx] at he
    cases he

theorem bind {f : α → Boot (σ × List Call) τ β} {g : α → Boot σ τ β} (hx : Quiet x y)
    (hf : ∀ a, Quiet (f a) (g a)) : Quiet (x >>= f) (y >>= g) := by
  refine Makes.bind hx hf ?_ ?_
  · rintro s a t r made more ⟨rfl, -⟩ ⟨rfl, hrefused⟩
    exact ⟨rfl, hrefused⟩
  · rintro s e t made ⟨rfl, hrefused⟩
    refine ⟨rfl, fun e' he' => ?_⟩
    cases he'
    exact hrefused e rfl

theorem read {f : RunState (σ × List Call) τ → Boot (σ × List Call) τ α} {g : RunState σ τ → Boot σ τ α}
    (h : ∀ s before, Quiet (f (s.withCalls before)) (g s)) : Quiet (Action.get >>= f) (Action.get >>= g) :=
  Makes.read h

theorem ite {c : Prop} [Decidable c] {x' : Boot (σ × List Call) τ α} {y' : Boot σ τ α} (h : Quiet x y)
    (h' : Quiet x' y') : Quiet (if c then x else x') (if c then y else y') := by
  split
  · exact h
  · exact h'

theorem forM {γ : Type} {f : γ → Boot (σ × List Call) τ Unit} {g : γ → Boot σ τ Unit} (h : ∀ c, Quiet (f c) (g c))
    (cs : List γ) : Quiet (cs.forM f) (cs.forM g) := by
  induction cs with
  | nil => exact pure ()
  | cons c cs ih => exact (h c).bind fun _ => ih

end Quiet

/-! ## The launcher's own part -/

theorem writeErr_quiet (text : String) :
    Quiet (writeErr text : Boot (σ × List Call) τ Unit) (writeErr text) := .modify fun _ _ => rfl

theorem setContext_quiet (f : Context → Context) :
    Quiet (setContext f : Boot (σ × List Call) τ Unit) (setContext f) := .modify fun _ _ => rfl

theorem log_quiet (line : String) : Quiet (log line : Boot (σ × List Call) τ Unit) (log line) :=
  fun s before => writeErr_quiet (s.context.programName ++ ": " ++ line ++ "\n") s before

theorem logAll_quiet (lines : List String) : Quiet (logAll lines : Boot (σ × List Call) τ Unit) (logAll lines) := by
  induction lines with
  | nil => exact .pure ()
  | cons line lines ih => exact (log_quiet line).bind fun _ => ih

theorem whenDebug_quiet {x : Boot (σ × List Call) τ Unit} {y : Boot σ τ Unit} (h : Quiet x y) (level : Nat) :
    Quiet (whenDebug level x) (whenDebug level y) := by
  intro s before
  by_cases hlevel : level ≤ s.context.flags.debug
  · have hx : whenDebug level x (s.withCalls before) = x (s.withCalls before) := if_pos hlevel
    have hy : whenDebug level y s = y s := if_pos hlevel
    rw [hx, hy]
    exact h s before
  · have hx : whenDebug level x (s.withCalls before) = Action.pure () (s.withCalls before) := if_neg hlevel
    have hy : whenDebug level y s = Action.pure () s := if_neg hlevel
    rw [hx, hy]
    exact Quiet.pure () s before

theorem announce_quiet (c : Context) (mode : ExecutionMode) :
    Quiet (announce c mode : Boot (σ × List Call) τ Unit) (announce c mode) := by
  unfold announce
  split
  · split
    · exact log_quiet _
    · exact .pure ()
  · exact .pure ()

variable (d : Dispatcher σ τ)

theorem openRun_quiet : Quiet d.recorded.openRun d.openRun := by
  refine .read fun s before => ?_
  refine .ite ?_ ?_
  · refine (whenDebug_quiet (log_quiet _) 2).bind fun _ => .bind (.modify fun _ _ => rfl) fun _ => ?_
    exact (whenDebug_quiet (writeErr_quiet _) 1).bind fun _ => setContext_quiet _
  · exact (whenDebug_quiet (writeErr_quiet _) 1).bind fun _ => setContext_quiet _

theorem fromStdin_quiet (flags : Flags) (argv : List String) :
    Quiet (scriptMode.fromStdin flags argv : Boot (σ × List Call) τ _) (scriptMode.fromStdin flags argv) := by
  refine .bind (.transfer _) fun bytes => (setContext_quiet _).bind fun _ => .ite (.pure _) ?_
  split
  · exact .pure _
  · exact .fail trivial

theorem scriptMode_quiet (line : ParsedCommandLine) : Quiet (d.recorded.scriptMode line) (d.scriptMode line) := by
  refine .read fun s before => ?_
  split
  · exact .pure _
  · exact .pure _
  · split
    · split
      · exact fromStdin_quiet _ _
      · exact .pure _
    · exact fromStdin_quiet _ _

theorem selectMode_quiet (line : ParsedCommandLine) : Quiet (d.recorded.selectMode line) (d.selectMode line) := by
  refine .read fun s before => ?_
  dsimp only [RunState.withCalls]
  cases s.context.runMode with
  | appSelf => exact .pure _
  | interactive => exact .pure _
  | script => exact d.scriptMode_quiet line
  | undetermined => exact d.scriptMode_quiet line

theorem setupSearchPath_quiet (env : Environment) (mode : ExecutionMode) :
    Quiet (d.recorded.setupSearchPath env mode) (d.setupSearchPath env mode) := by
  refine .read fun s before => ?_
  refine .bind (.modify fun _ _ => rfl) fun _ => ?_
  exact (whenDebug_quiet (logAll_quiet _) 2).bind fun _ => setContext_quiet _

theorem settle_quiet (env : Environment) (mode : ExecutionMode) (argv : List String) :
    Quiet (d.recorded.settle env mode argv) (d.settle env mode argv) :=
  (setContext_quiet _).bind fun _ => (d.setupSearchPath_quiet env mode).bind fun _ => setContext_quiet _

theorem ready_quiet (i : Invocation) (line : ParsedCommandLine) : Quiet (d.recorded.ready i line) (d.ready i line) :=
  d.openRun_quiet.bind fun _ => (d.selectMode_quiet line).bind fun (mode, argv) =>
    (d.settle_quiet i.env mode argv).bind fun _ => .pure mode

theorem jobOfLoading_quiet (mode : ExecutionMode) (inspect : Bool) (loading : Loading) :
    Quiet (jobOfLoading mode inspect loading : Boot (σ × List Call) τ Job) (jobOfLoading mode inspect loading) := by
  unfold jobOfLoading
  split
  · exact .pure _
  · exact .pure _
  · exact .fail trivial
  · exact .pure _

theorem checkEnclosing_recorded (f : Finder) (name : String) (parents : List String) :
    d.recorded.checkEnclosing f name parents = d.checkEnclosing f name parents := by
  induction parents with
  | nil => rfl
  | cons parent parents ih =>
      rw [checkEnclosing, checkEnclosing, ih]
      rfl

theorem locateMain_recorded (f : Finder) (name : String) : d.recorded.locateMain f name = d.locateMain f name := by
  unfold locateMain
  rw [checkEnclosing_recorded]
  rfl

theorem load_recorded (c : Context) (f : Finder) (mode : ExecutionMode) :
    d.recorded.load c f mode = d.load c f mode := by
  unfold load
  rw [funext fun f => funext (d.locateMain_recorded f)]
  rfl

theorem loadJob_quiet (mode : ExecutionMode) : Quiet (d.recorded.loadJob mode) (d.loadJob mode) := by
  refine .read fun s before => ?_
  refine (announce_quiet s.context mode).bind fun _ => ?_
  rw [load_recorded]
  exact (setContext_quiet _).bind fun _ => jobOfLoading_quiet mode _ _

theorem jobOf_quiet (i : Invocation) (line : ParsedCommandLine) : Quiet (d.recorded.jobOf i line) (d.jobOf i line) :=
  (d.ready_quiet i line).bind fun mode => (d.loadJob_quiet mode).bind fun job => .pure (some job)

theorem respond_quiet (i : Invocation) (program : String) (outcome : Except CommandLineError ParseOutcome) :
    Quiet (d.recorded.respond i program outcome) (d.respond i program outcome) := by
  rcases outcome with e | line | _ | _
  · exact .fail (BootstrapError.isRefusal_ofCommandLine e)
  · refine (Quiet.forM (fun _ => writeErr_quiet _) _).bind fun _ => ?_
    exact (setContext_quiet _).bind fun _ => d.jobOf_quiet i line
  · exact (writeErr_quiet _).bind fun _ => .pure none
  · exact .bind (.transfer _) fun _ => .pure none

theorem prepare_quiet (i : Invocation) : Quiet (d.recorded.prepare i) (d.prepare i) := by
  refine .read fun s before => .ite ?_ ?_
  · exact (setContext_quiet _).bind fun _ => d.jobOf_quiet i _
  · exact (setContext_quiet _).bind fun _ => d.respond_quiet i s.context.programName _

/-! ## The host's part -/

/-- The flags and the mode in the record are the same. -/
def SameRecord (c c' : Context) : Prop := c'.flags = c.flags ∧ c'.mode = c.mode

theorem SameRecord.trans {c c' c'' : Context} (h : SameRecord c c') (h' : SameRecord c' c'') : SameRecord c c'' :=
  ⟨h'.1.trans h.1, h'.2.trans h.2⟩

/-- The status of a run that ends as the target or interactive mode did. -/
def exitStatus : Ending → Int
  | .ok () => 0
  | .error (.exit n) => n
  | .error _ => 1

/-- The status of a run that comes to that result. -/
def statusOfResult : Except BootstrapError Int → Int
  | .ok n => n
  | .error e => e.exitCode

theorem statusOfResult_statusOf (e : Ending) : statusOfResult (statusOf e) = exitStatus e := by
  rcases e with (e | n | _) | ⟨⟩ <;> rfl

/-- The target put an end to the run itself, or used up its steps. -/
def Leaves : Ending → Prop
  | .error (.exit _) | .error .exhausted => True
  | _ => False

/-- The calls after the target, and the status: interactive mode where it is asked for, unless the target leaves. -/
inductive Followed (inspect : Bool) : Ending → List Call → Int → Prop
  | nothing {e : Ending} (h : inspect = false ∨ Leaves e) : Followed inspect e [] (exitStatus e)
  | interactive {e : Ending} (e' : Ending) (h : inspect = true) (hstays : ¬Leaves e) :
    Followed inspect e [.interact e'] (exitStatus e')

/-- The calls of a run with that record and the status it ends with, by what it comes to before the host comes in. -/
inductive Course (d : Dispatcher σ τ) (c : Context) : Except BootstrapError (Option Task) → List Call → Int → Prop
  | refused {e : BootstrapError} (h : e.IsRefusal) : Course d c (.error e) [] 1
  | answered : Course d c (.ok none) [] 0
  | interactive (e : Ending) (h : c.mode = some .interactive) :
    Course d c (.ok (some .interactive)) [.interact e] (exitStatus e)
  | uncompiled {e : TargetError} {source file : String} {calls : List Call} {status : Int}
    (h : d.host.compile source file c.flags.optimize = .error e)
    (hcalls : Followed c.flags.inspect (.error (.raised e)) calls status) :
    Course d c (.ok (some (.uncompiled e))) calls status
  | target {t : LoadedTarget} {e : Ending} {calls : List Call} {status : Int}
    (hcalls : Followed c.flags.inspect e calls status) :
    Course d c (.ok (some (.target t))) (.runMain t e :: calls) status

theorem Quiet.talks {x : Boot (σ × List Call) τ Unit} {y : Boot σ τ Unit} (h : Quiet x y) (htalks : Talks y) :
    Makes (fun s r made => r.1 = .ok () ∧ made = [] ∧ SameRecord s.context r.2.context) x y := by
  intro s before
  obtain ⟨made, hxs, hmade, -⟩ := h s before
  obtain ⟨streams, hys⟩ := htalks s
  exact ⟨made, hxs, by rw [hys], hmade, by rw [hys]; exact ⟨rfl, rfl⟩⟩

theorem ofExcept_makes (r : Except BootstrapError α) :
    Makes (fun s r' made => r' = (r, s) ∧ made = []) (Action.ofExcept r : Boot (σ × List Call) τ α)
      (Action.ofExcept r) := by
  intro s before
  cases r with
  | error e => exact ⟨[], by rw [List.append_nil]; rfl, rfl, rfl⟩
  | ok a => exact ⟨[], by rw [List.append_nil]; rfl, rfl, rfl⟩

theorem lend_makes {x : σ × List Call → Channels → Ending × (σ × List Call) × Channels}
    {y : σ → Channels → Ending × σ × Channels} {call : Ending → Call}
    (h : ∀ host calls channels, x (host, calls) channels =
      ((y host channels).1, ((y host channels).2.1, calls ++ [call (y host channels).1]), (y host channels).2.2)) :
    Makes (fun s r made => ∃ e, r.1 = .ok e ∧ made = [call e] ∧ SameRecord s.context r.2.context)
      (lend x : Boot (σ × List Call) τ Ending) (lend y) := by
  intro s before
  refine ⟨[call (y s.host ⟨s.context.filters, s.streams⟩).1], ?_, _, rfl, rfl, rfl, rfl⟩
  unfold lend
  dsimp only [RunState.withCalls]
  rw [h]

variable {d}

theorem interact_makes (f : Finder) (banner : String) :
    Makes (fun s r made => ∃ e, r.1 = statusOf e ∧ made = [.interact e] ∧ SameRecord s.context r.2.context)
      (d.recorded.interact f banner) (d.interact f banner) := by
  refine .read fun s before => ?_
  refine .bind (lend_makes fun _ _ _ => rfl) (fun e => ofExcept_makes (statusOf e)) ?_ ?_
  · rintro s e t r _ _ ⟨_, he, rfl, hsame⟩ ⟨rfl, rfl⟩
    cases he
    exact ⟨e, rfl, rfl, hsame⟩
  · rintro s e t _ ⟨_, he, -⟩
    cases he

theorem runTarget_makes (f : Finder) (mode : ExecutionMode) (t : LoadedTarget) :
    Makes (fun s r made => ∃ e, r.1 = .ok e ∧ made = [.runMain t e] ∧ SameRecord s.context r.2.context)
      (d.recorded.runTarget f mode t) (d.runTarget f mode t) := by
  refine .read fun s before => ?_
  refine .bind ((whenDebug_quiet (logAll_quiet _) 2).talks (whenDebug_talks (logAll_talks _) 2))
    (fun _ => lend_makes fun _ _ _ => rfl) ?_ ?_
  · rintro s _ u r _ _ ⟨-, rfl, hsame⟩ ⟨e, he, rfl, hsame'⟩
    exact ⟨e, he, rfl, hsame.trans hsame'⟩
  · rintro s e u _ ⟨he, -⟩
    cases he

theorem conclude_makes (job : Job) (e : Ending) :
    Makes (fun s r made => Followed job.inspect e made (statusOfResult r.1) ∧ SameRecord s.context r.2.context)
      (d.recorded.conclude job e) (d.conclude job e) := by
  obtain ⟨mode, task, f, inspect⟩ := job
  -- After each ending there is nothing more, or there is interactive mode.
  have hnothing (h : inspect = false ∨ Leaves e) :
      Makes (fun s r made => Followed inspect e made (statusOfResult r.1) ∧ SameRecord s.context r.2.context)
        (Action.ofExcept (statusOf e) : Boot (σ × List Call) τ Int) (Action.ofExcept (statusOf e)) := by
    refine (ofExcept_makes (statusOf e)).mono ?_
    rintro s _ _ ⟨rfl, rfl⟩
    rw [statusOfResult_statusOf]
    exact ⟨.nothing h, rfl, rfl⟩
  have hinteract (banner : String) (hinspect : inspect = true) (hstays : ¬Leaves e) :
      Makes (fun s r made => Followed inspect e made (statusOfResult r.1) ∧ SameRecord s.context r.2.context)
        (d.recorded.interact f banner) (d.interact f banner) := by
    refine (interact_makes f banner).mono ?_
    rintro s r _ ⟨e', hr, rfl, hsame⟩
    rw [hr, statusOfResult_statusOf]
    exact ⟨.interactive e' hinspect hstays, hsame⟩
  rcases e with (e | n | _) | ⟨⟩
  · cases inspect with
    | false => exact hnothing (.inl rfl)
    | true =>
        refine .bind ((writeErr_quiet e.report).talks (writeErr_talks _)) (fun _ => hinteract "" rfl id) ?_ ?_
        · rintro s _ u r _ _ ⟨-, rfl, hsame⟩ ⟨hfollowed, hsame'⟩
          exact ⟨hfollowed, hsame.trans hsame'⟩
        · rintro s e u _ ⟨he, -⟩
          cases he
  · exact hnothing (.inr trivial)
  · exact hnothing (.inr trivial)
  · cases inspect with
    | false => exact hnothing (.inl rfl)
    | true => exact hinteract _ rfl id

theorem carryOut_makes (job : Job) :
    Makes (fun s r made => (∀ c, d.Suits job c → Course d c (.ok (some job.task)) made (statusOfResult r.1)) ∧
        SameRecord s.context r.2.context)
      (d.recorded.carryOut job) (d.carryOut job) := by
  rcases htask : job.task with _ | e | t
  · rw [carryOut, carryOut, htask]
    refine (interact_makes job.finder _).mono ?_
    rintro s r _ ⟨e, hr, rfl, hsame⟩
    rw [hr, statusOfResult_statusOf]
    refine ⟨fun c hc => .interactive e ?_, hsame⟩
    rw [hc.mode, hc.interactive htask]
  · rw [carryOut, carryOut, htask]
    refine (conclude_makes job _).mono ?_
    rintro s r made ⟨hfollowed, hsame⟩
    refine ⟨fun c hc => ?_, hsame⟩
    obtain ⟨source, file, hcompile⟩ := hc.uncompiled e htask
    exact .uncompiled hcompile (hc.inspect ▸ hfollowed)
  · rw [carryOut, carryOut, htask]
    refine .bind (runTarget_makes job.finder job.mode t) (fun e => conclude_makes job e) ?_ ?_
    · rintro s e u r _ more ⟨_, he, rfl, hsame⟩ ⟨hfollowed, hsame'⟩
      cases he
      exact ⟨fun c hc => .target (hc.inspect ▸ hfollowed), hsame.trans hsame'⟩
    · rintro s e u _ ⟨_, he, -⟩
      cases he

/-! ## The run -/

theorem Suits.of_same {job : Job} {c c' : Context} (h : d.Suits job c) (hsame : SameRecord c c') : d.Suits job c' where
  mode := hsame.2.trans h.mode
  inspect := by rw [hsame.1, h.inspect]
  interactive := h.interactive
  uncompiled := by rw [hsame.1]; exact h.uncompiled

/-- What a run comes to before the host comes in: an error, nothing more where the command line is answered, or a
task. -/
def taskOf (d : Dispatcher σ τ) (i : Invocation) (s : RunState σ τ) : Except BootstrapError (Option Task) :=
  (d.prepare i s).1.map (·.map Job.task)

theorem taskOf_eq {i : Invocation} {s t : RunState σ τ} {r : Except BootstrapError (Option Job)}
    (h : d.prepare i s = (r, t)) : d.taskOf i s = r.map (·.map Job.task) := by
  rw [taskOf, h]

theorem bootstrap_makes (i : Invocation) :
    Makes (fun s r made => ∀ c, SameRecord r.2.context c → Course d c (d.taskOf i s) made (statusOfResult r.1))
      (d.recorded.bootstrap i) (d.bootstrap i) := by
  rw [bootstrap_eq, bootstrap_eq]
  intro s before
  obtain ⟨_, hprepare, rfl, hrefused⟩ := d.prepare_quiet i s before
  rw [List.append_nil] at hprepare
  rcases hjob : d.prepare i s with ⟨e | _ | job, t⟩
  · rw [hjob] at hprepare hrefused
    rw [Action.bind_of_error hprepare, Action.bind_of_error hjob]
    refine ⟨[], by rw [List.append_nil], fun c _ => ?_⟩
    rw [taskOf_eq hjob]
    exact .refused (hrefused e rfl)
  · rw [hjob] at hprepare
    rw [Action.bind_of_ok hprepare, Action.bind_of_ok hjob]
    refine ⟨[], by rw [List.append_nil]; rfl, fun c _ => ?_⟩
    rw [taskOf_eq hjob]
    exact .answered
  · rw [hjob] at hprepare
    rw [Action.bind_of_ok hprepare, Action.bind_of_ok hjob]
    -- What the job was made from is in the record still when the host is done.
    obtain ⟨made, hcarried, hcourse, hsame⟩ := carryOut_makes (d := d) job t before
    refine ⟨made, hcarried, fun c hc => ?_⟩
    rw [taskOf_eq hjob]
    exact hcourse c ((prepare_suits hjob).of_same (hsame.trans hc))

theorem Course.pairwise {c : Context} {task : Except BootstrapError (Option Task)} {calls : List Call} {status : Int}
    (h : d.Course c task calls status) :
    calls.Pairwise fun first second => first.isRunMain = true ∧ second.isRunMain = false := by
  have hfollowed {inspect : Bool} {e : Ending} {calls : List Call} {status : Int}
      (h : Followed inspect e calls status) : calls = [] ∨ ∃ e', calls = [.interact e'] := by
    cases h with
    | nothing h => exact .inl rfl
    | interactive e' _ _ => exact .inr ⟨e', rfl⟩
  cases h with
  | refused _ => exact .nil
  | answered => exact .nil
  | interactive e _ => exact List.pairwise_singleton _ _
  | uncompiled _ hcalls =>
      obtain rfl | ⟨e', rfl⟩ := hfollowed hcalls
      · exact .nil
      · exact List.pairwise_singleton _ _
  | target hcalls =>
      obtain rfl | ⟨e', rfl⟩ := hfollowed hcalls
      · exact List.pairwise_singleton _ _
      · exact List.pairwise_pair.mpr ⟨rfl, rfl⟩

theorem taskOf_none_iff {i : Invocation} {s : RunState σ τ} : d.taskOf i s = .ok none ↔ d.Answers i s := by
  rw [← prepare_none_iff, taskOf]
  rcases (d.prepare i s).1 with e | _ | job
  · exact ⟨nofun, nofun⟩
  · exact ⟨fun _ => rfl, fun _ => rfl⟩
  · exact ⟨nofun, nofun⟩

/-- The streams at the end of a run that comes to that result. -/
def closingStreams (config : Config) (r : Except BootstrapError Int) (c : Context) (streams : Streams) : Streams :=
  match r with
  | .ok _ => (Streams.flush streams).2
  | .error e => (Streams.flush (streams.tell (report config c.programName e))).2

theorem run_eq {i : Invocation} {host : σ} {site : τ} {streams : Streams} {r : Except BootstrapError Int}
    {s : RunState σ τ} (h : d.bootstrap i ⟨d.startContext i, host, site, streams⟩ = (r, s)) :
    d.run i host site streams =
      (⟨statusOfResult r, s.context.enter .exited⟩,
        ⟨s.context.enter .exited, s.host, s.site, closingStreams d.config r s.context s.streams⟩) := by
  unfold run
  rw [h]
  cases r <;> rfl

theorem enter_exited (p : Phase) : p.enter .exited = .exited := by cases p <;> rfl

/-- Beside a host that records, a run does the same, and the calls and the status are those of what it comes to. It
asks for the target once at most and then, once at most, for interactive mode. It makes no call where the command line
is answered, or the streams fail the launcher, and however it ends it has exited. -/
theorem run_calls (d : Dispatcher σ τ) (i : Invocation) (host : σ) (site : τ) (streams : Streams) :
    ∃ calls,
      d.recorded.run i (host, []) site streams =
        ((d.run i host site streams).1, (d.run i host site streams).2.withCalls calls) ∧
      d.Course (d.run i host site streams).1.context (d.taskOf i ⟨d.startContext i, host, site, streams⟩) calls
        (d.run i host site streams).1.status ∧
      (calls.Pairwise fun first second => first.isRunMain = true ∧ second.isRunMain = false) ∧
      (d.taskOf i ⟨d.startContext i, host, site, streams⟩ = .ok none ↔
        d.Answers i ⟨d.startContext i, host, site, streams⟩) ∧
      (d.run i host site streams).1.context.phase = .exited := by
  obtain ⟨calls, hrecorded, hcourse⟩ := bootstrap_makes (d := d) i ⟨d.startContext i, host, site, streams⟩ []
  rcases hboot : d.bootstrap i ⟨d.startContext i, host, site, streams⟩ with ⟨r, s⟩
  rw [hboot] at hrecorded
  have hrun := run_eq hboot
  have hcourse : d.Course (s.context.enter .exited) (d.taskOf i ⟨d.startContext i, host, site, streams⟩) calls
      (statusOfResult r) := by
    rw [hboot] at hcourse
    exact hcourse _ ⟨rfl, rfl⟩
  rw [hrun]
  exact ⟨calls, run_eq hrecorded, hcourse, hcourse.pairwise, taskOf_none_iff, enter_exited _⟩

end Dispatcher

end Launcher
