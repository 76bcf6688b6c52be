import Launcher.Proofs.Names
import Launcher.Proofs.Script.Loading
import Launcher.Proofs.Script.Sessions

/-!
# Modules and the packages that they are in

An import loads the packages of a module before the module, and a failure takes off only the module whose code fails.
So where a module stays loaded and a package that it is in does not, the code of that package once failed after it had
loaded the module.
-/

namespace Launcher.Script

/-- The module is loaded, and a package that it is in is not. -/
structure Machine.Orphan (m : Machine) (p n : String) : Prop where
  heads : Heads p n
  loaded : n ∈ m.loaded
  missing : p ∉ m.loaded

/-- What becomes an orphan from one machine to the other is accounted for. -/
def Accounts (D : String → String → Prop) (m m' : Machine) : Prop :=
  ∀ p n, m'.Orphan p n → m.Orphan p n ∨ D p n

namespace Accounts

variable {D D' : String → String → Prop} {m m' m'' : Machine} {name : String}

theorem of_eq (h : m'.loaded = m.loaded) : Accounts D m m' := by
  intro p n hn
  exact .inl ⟨hn.heads, h ▸ hn.loaded, h ▸ hn.missing⟩

theorem trans (h : Accounts D m m') (h' : Accounts D m' m'') : Accounts D m m'' := by
  intro p n hn
  rcases h' p n hn with hn | hd
  · exact h p n hn
  · exact .inr hd

theorem mono (h : Accounts D m m') (hD : ∀ p n, D p n → D' p n) : Accounts D' m m' :=
  fun p n hn => (h p n hn).imp_right (hD p n)

theorem package_loaded {p n : String} (h : Accounts D {} m) (hn : n ∈ m.loaded) (hp : Heads p n) :
    p ∈ m.loaded ∨ D p n := by
  by_cases hin : p ∈ m.loaded
  · exact .inl hin
  · refine .inr ((h p n ⟨hp, hn, hin⟩).resolve_left fun hfresh => ?_)
    exact absurd hfresh.loaded List.not_mem_nil

theorem of_add (hloaded : m'.loaded = m.loaded ++ [name]) (hpackages : ∀ p, Heads p name → p = name ∨ p ∈ m.loaded) :
    Accounts D m m' := by
  intro p n hn
  have hin := hn.loaded
  have hmissing := hn.missing
  rw [hloaded, List.mem_append, List.mem_singleton] at hin hmissing
  rcases hin with hin | rfl
  · exact .inl ⟨hn.heads, hin, fun hp => hmissing (.inl hp)⟩
  · rcases hpackages p hn.heads with rfl | hp
    · exact absurd (.inr rfl) hmissing
    · exact absurd (.inl hp) hmissing

/-- A module that was added may be taken off again, if what was loaded since is accounted for. -/
theorem of_remove (h : Accounts D m m') (hname : name ∉ m.loaded)
    (hD : ∀ n ∈ m'.loaded, n ≠ name → n ∉ m.loaded → D name n) : Accounts D m (m'.remove name) := by
  intro p n hn
  have hin := hn.loaded
  have hmissing := hn.missing
  rw [Machine.loaded_remove, List.mem_filter, decide_eq_true_iff] at hin hmissing
  -- Only the module that is taken off can have been there and be missing now.
  by_cases hp : p ∈ m'.loaded
  · obtain rfl : p = name := by
      by_contra hne
      exact hmissing ⟨hp, hne⟩
    by_cases hold : n ∈ m.loaded
    · exact .inl ⟨hn.heads, hold, hname⟩
    · exact .inr (hD n hin.1 hin.2 hold)
  · exact h p n ⟨hn.heads, hin.1, hp⟩

theorem permits (D : String → String → Prop) (module : String) : Machine.Permits (Accounts D) module where
  aside := fun hmodules _ _ => of_eq (congrArg (List.map Prod.fst) hmodules)
  warn := fun site category message m =>
    of_eq (congrArg (List.map Prod.fst) (Call.warn_aside site category message m).1)
  bind := fun m name v => of_eq (Machine.loaded_bind m module name v)
  trans := trans

theorem spans (D : String → String → Prop) : Session.Spans (Accounts D) where
  permits := permits D Session.mainModule
  enters := by
    intro m file
    by_cases hin : Session.mainModule ∈ m.loaded
    · rw [Machine.enter_of_mem hin]
      exact of_eq rfl
    · exact of_add (Machine.loaded_enter hin) fun p hp => .inl (hp.of_no_dot (by decide))

end Accounts

namespace Exec

/-- The code of a package is started and fails, and the module, which was not loaded before, then is. -/
inductive Moment.Abandons (env : Surroundings) (p n : String) : Moment → Prop where
  | fails {found : LocatedModule} {code : Code} {fuel : Nat} {m m' : Machine} {e : Halt} :
      env.find p = .ok found → codeOf env found = .ok code → n ∉ m.loaded →
      nested env fuel code p m = (.error e, m') → n ∈ m'.loaded → Abandons env p n (.start code p fuel m)

/-- An execution comes to the start of the code of the package, which fails after it has loaded the module. -/
def Abandoned (env : Surroundings) (a : Moment) (p n : String) : Prop := ∃ b, Comes env a b ∧ b.Abandons env p n

variable {env : Surroundings} {code : Code} {module : String}

theorem Abandoned.of_comes {a b : Moment} (hcomes : Comes env a b) {p n : String} (h : Abandoned env b p n) :
    Abandoned env a p n := by
  obtain ⟨c, hc, habandons⟩ := h
  exact ⟨c, hcomes.trans hc, habandons⟩

/-! ## The imports of one instruction -/

section

variable {fuel pos k line : Nat} {stack : List Value} {m₀ m : Machine} {dotted name : String}
  {before names : List String}

theorem importOne_accounts {D : String → String → Prop} (hpackages : ∀ p, Heads p name → p = name ∨ p ∈ m.loaded)
    (hrun : ∀ found code, name ∉ m.loaded → env.find name = .ok found → codeOf env found = .ok code →
      ∀ p n, Abandoned env (.start code name fuel ((m.enter name found.origin).noteStart name)) p n → D p n)
    (hnested : ∀ code module m,
      Accounts (Abandoned env (.start code module fuel m)) m (nested env fuel code module m).2) :
    Accounts D m (importOne env (nested env fuel) name m).2 := by
  have hadd : ∀ found code, name ∉ m.loaded → env.find name = .ok found → codeOf env found = .ok code →
      Accounts D m (nested env fuel code name ((m.enter name found.origin).noteStart name)).2 := by
    intro found code hname hfind hcode
    have hstart : Accounts D m ((m.enter name found.origin).noteStart name) :=
      .of_add (Machine.loaded_start hname) hpackages
    exact hstart.trans ((hnested code name _).mono (hrun found code hname hfind hcode))
  have hcases := importOne_cases env (nested env fuel) name m
  generalize importOne env (nested env fuel) name m = r at hcases
  cases hcases with
  | loaded _ => exact .of_eq rfl
  | refused _ _ => exact .of_eq rfl
  | @ends found code x hname hfind hcode hx =>
      have hrest := hadd found code hname hfind hcode
      rw [hx] at hrest
      exact hrest.trans (announce_moves (Accounts.permits D) name x)
  | @fails found code x _ hname hfind hcode hx =>
      have hrest := hadd found code hname hfind hcode
      rw [hx] at hrest
      refine hrest.of_remove hname fun n hn hne hold => hrun found code hname hfind hcode name n ⟨_, .refl, ?_⟩
      have hfresh : n ∉ ((m.enter name found.origin).noteStart name).loaded := by
        rw [Machine.loaded_start hname, List.mem_append, List.mem_singleton]
        exact fun hin => hin.elim hold hne
      exact .fails hfind hcode hfresh hx hn

theorem importAll_accounts
    (hnested : ∀ code module m,
      Accounts (Abandoned env (.start code module fuel m)) m (nested env fuel code module m).2)
    (hs : code.body[pos]? = some ⟨.importName k, line⟩) (hdotted : nameAt code k = .ok dotted)
    (hthrough : throughNames dotted = before ++ names)
    (hbefore : importAll env (nested env fuel) before m₀ = (.ok (), m)) :
    Accounts (Abandoned env ⟨code, module, ⟨fuel + 1, pos, stack, m₀⟩⟩) m
      (importAll env (nested env fuel) names m).2 := by
  induction names generalizing before m with
  | nil => exact .of_eq rfl
  | cons name names ih =>
      -- What stands in front of the dots of the name is among those before it, which are loaded by now.
      have hpackages : ∀ p, Heads p name → p = name ∨ p ∈ m.loaded := by
        have hordered := ordered_throughNames dotted
        rw [hthrough, ordered_append, List.append_nil] at hordered
        intro p hp
        exact (hordered.2.1 p hp).imp_right fun hin => importAll_loads hbefore p (List.mem_reverse.mp hin)
      have hfirst : Accounts (Abandoned env ⟨code, module, ⟨fuel + 1, pos, stack, m₀⟩⟩) m
          (importOne env (nested env fuel) name m).2 := by
        refine importOne_accounts hpackages (fun found code' hname hfind hcode p n h => ?_) hnested
        have hhas := Machine.has_eq_false_iff.mpr hname
        exact h.of_comes (.single (.loads hs hdotted hthrough hbefore hhas hfind hcode))
      rw [importAll]
      rcases hx : importOne env (nested env fuel) name m with ⟨e | _, x⟩ <;> rw [hx] at hfirst
      · rw [Action.bind_of_error hx]
        exact hfirst
      · rw [Action.bind_of_ok hx]
        have hmore : throughNames dotted = (before ++ [name]) ++ names := by simpa using hthrough
        have hloaded : importAll env (nested env fuel) (before ++ [name]) m₀ = (.ok (), x) := by
          rw [importAll_append hbefore, importAll, Action.bind_of_ok hx]
          rfl
        exact hfirst.trans (ih hmore hloaded)

end

/-- What an execution loads is accounted for by the packages whose code failed in it. -/
theorem runFrom_accounts (fuel : Nat) (code : Code) (module : String) (pos : Nat) (stack : List Value) (m : Machine) :
    Accounts (Abandoned env ⟨code, module, ⟨fuel, pos, stack, m⟩⟩) m (runFrom env fuel code module pos stack m).2 := by
  induction fuel generalizing code module pos stack m with
  | zero => exact .of_eq rfl
  | succ fuel ih =>
      cases hs : code.body[pos]? with
      | none =>
          rw [run_of_none hs]
          exact .of_eq rfl
      | some s =>
          have hstep : Accounts (Abandoned env ⟨code, module, ⟨fuel + 1, pos, stack, m⟩⟩) m
              (step env (nested env fuel) code module s stack m).2 := by
            refine step_moves_at (Accounts.permits _ module) (fun k dotted hk hdotted => ?_) stack
            obtain ⟨i, line⟩ := s
            obtain rfl : i = .importName k := hk
            have hthrough : throughNames dotted = [] ++ throughNames dotted := rfl
            exact importAll_accounts (fun code module m => ih code module 0 [] m) hs hdotted hthrough rfl
          rcases hx : step env (nested env fuel) code module s stack m with ⟨e | next, x⟩ <;> rw [hx] at hstep
          · rw [run_of_error hs hx]
            exact hstep
          · rw [run_of_ok hs hx]
            have hgoes : Comes env ⟨code, module, ⟨fuel + 1, pos, stack, m⟩⟩ ⟨code, module, ⟨fuel, _, next.stack, x⟩⟩ :=
              .single (.goes (.step hs hx))
            exact hstep.trans ((ih code module _ next.stack x).mono fun _ _ => .of_comes hgoes)

end Exec

/-! ## Sessions -/

namespace Session

open Exec

variable {f : Finder} {fs : FileSystem} {env : Surroundings} {fuel : Nat} {first m : Machine}

/-- In one of the visits the code of the package failed after it had loaded the module. -/
def AbandonedIn (f : Finder) (fs : FileSystem) (visits : List Visit) (p n : String) : Prop :=
  ∃ before v later a, visits = before ++ v :: later ∧ v.Starts f fs (after f fs before) a ∧
    Abandoned (v.surroundings f fs) a p n

/-- The executions that the interactive mode has behind it when it asks on a machine. -/
inductive Visit.Ran (env : Surroundings) (fuel : Nat) (first : Machine) : Machine → Moment → Prop where
  | last {x y z : Machine} {line : String} {code : Code} : Asks env fuel first x → ask x = (.ok (.line line), y) →
      (trim line).isEmpty = false →
      compile { dropAsserts := 0 < env.flags.optimize, echo := true } interactiveFile line = .ok code →
      round env fuel line y = (.ok (), z) →
      Ran env fuel first z (.start code mainModule fuel (y.enter mainModule code.file))
  | blank {x y : Machine} {line : String} {a : Moment} : Ran env fuel first x a → ask x = (.ok (.line line), y) →
      (trim line).isEmpty = true → Ran env fuel first y a
  | next {x y z : Machine} {line : String} {a : Moment} : Ran env fuel first x a → ask x = (.ok (.line line), y) →
      (trim line).isEmpty = false → round env fuel line y = (.ok (), z) → Ran env fuel first z a

theorem visit_accounts (v : Visit) (m : Machine) :
    Accounts (fun p n => ∃ a, v.Starts f fs m a ∧ Abandoned (v.surroundings f fs) a p n) m (v.run f fs m).2.1 := by
  refine (Accounts.spans _).visit v fun a ha => ?_
  obtain ⟨code, module, config⟩ := a
  exact (runFrom_accounts config.fuel code module config.pos config.stack config.machine).mono
    fun p n h => ⟨_, ha, h⟩

theorem after_accounts (visits : List Visit) : Accounts (AbandonedIn f fs visits) {} (after f fs visits) := by
  induction visits using List.reverseRecOn with
  | nil => exact .of_eq rfl
  | append_singleton visits v ih =>
      have hbefore : Accounts (AbandonedIn f fs (visits ++ [v])) {} (after f fs visits) := by
        refine ih.mono ?_
        rintro p n ⟨before, w, later, a, rfl, hstarts, habandoned⟩
        exact ⟨before, w, later ++ [v], a, by simp, hstarts, habandoned⟩
      rw [after_concat]
      refine hbefore.trans ((visit_accounts v _).mono ?_)
      rintro p n ⟨a, hstarts, habandoned⟩
      exact ⟨visits, v, [], a, rfl, hstarts, habandoned⟩

theorem Visit.Asks.accounts (h : Asks env fuel first m) :
    Accounts (fun p n => ∃ a, Ran env fuel first m a ∧ Abandoned env a p n) first m := by
  induction h with
  | first => exact .of_eq rfl
  | @blank x y line _ hask hblank ih =>
      refine .trans (ih.mono ?_) ((Accounts.spans _).ask hask)
      rintro p n ⟨a, hran, habandoned⟩
      exact ⟨a, .blank hran hask hblank, habandoned⟩
  | @next x y z line hasks hask hblank hrun ih =>
      have hR := Accounts.spans fun p n => ∃ a, Ran env fuel first z a ∧ Abandoned env a p n
      have hbefore : Accounts (fun p n => ∃ a, Ran env fuel first z a ∧ Abandoned env a p n) first x := by
        refine ih.mono ?_
        rintro p n ⟨a, hran, habandoned⟩
        exact ⟨a, .next hran hask hblank hrun, habandoned⟩
      have hexecuted : Accounts (fun p n => ∃ a, Ran env fuel first z a ∧ Abandoned env a p n) y
          (runLine env fuel line y).2 := by
        refine hR.runLine fun code hcode => (runFrom_accounts fuel code mainModule 0 [] _).mono ?_
        exact fun p n h => ⟨_, .last hasks hask hblank hcode hrun, h⟩
      have hline := hR.round hexecuted
      rw [hrun] at hline
      exact (hbefore.trans (hR.ask hask)).trans hline

/-- Between two steps of a session every package of a loaded module is loaded, unless the code of the package failed
in an earlier step after it had loaded the module. -/
theorem packages_loaded (f : Finder) (fs : FileSystem) (visits : List Visit) :
    (∀ n ∈ (after f fs visits).loaded, ∀ p, Heads p n →
      p ∈ (after f fs visits).loaded ∨ AbandonedIn f fs visits p n) ∧
    ∀ (v : Visit) (banner : String), v.task = .interact banner → ∀ first m,
      greet banner { after f fs visits with channels := v.channels } = (.ok (), first) →
      Visit.Asks (v.surroundings f fs) v.fuel first m → ∀ n ∈ m.loaded, ∀ p, Heads p n →
        p ∈ m.loaded ∨ AbandonedIn f fs visits p n ∨
          ∃ a, Visit.Ran (v.surroundings f fs) v.fuel first m a ∧ Abandoned (v.surroundings f fs) a p n := by
  refine ⟨fun n hn p hp => (after_accounts visits).package_loaded hn hp, ?_⟩
  intro v banner _ first m hgreet hasks n hn p hp
  let D (p n : String) : Prop := AbandonedIn f fs visits p n ∨
    ∃ a, Visit.Ran (v.surroundings f fs) v.fuel first m a ∧ Abandoned (v.surroundings f fs) a p n
  have hvisits : Accounts D {} (after f fs visits) := (after_accounts visits).mono fun _ _ => .inl
  have hlent : Accounts D (after f fs visits) { after f fs visits with channels := v.channels } := .of_eq rfl
  have hfirst := (Accounts.spans D).greet banner { after f fs visits with channels := v.channels }
  rw [hgreet] at hfirst
  have hlines : Accounts D first m := hasks.accounts.mono fun _ _ => .inr
  exact (((hvisits.trans hlent).trans hfirst).trans hlines).package_loaded hn hp

/-! ### A package that fails -/

/-- The code of a package that imports a module in it and then raises an error. -/
def failingCode : Code where
  file := "a"
  consts := [.str "Error", .none]
  names := ["a.b"]
  body := [⟨.importName 0, 1⟩, ⟨.loadConst 0, 2⟩, ⟨.loadConst 1, 2⟩, ⟨.raise, 2⟩]

def failingPackage : Table.FrozenTable where
  entries := [.unit "a" failingCode.toBytes true, .unit "a.b" (importsOf "b" []).toBytes false]

def failingFinder : Finder := .ofConfig {} failingPackage [] [0x4D, 0x49, 0x4E, 0x49]

def importOfFailing : Visit := ⟨.runMain (importsOf "main" ["a"]).toBytes "main", 9, [], {}, {}⟩

theorem mem_loaded_after_failure : "a.b" ∈ (after failingFinder {} [importOfFailing]).loaded :=
  Machine.has_iff.mp (by cbv)

theorem not_mem_loaded_after_failure : "a" ∉ (after failingFinder {} [importOfFailing]).loaded :=
  Machine.has_eq_false_iff.mp (by cbv)

/-- The package of a loaded module need not be loaded. -/
theorem packages_loaded_failure : ¬ ∀ (f : Finder) (fs : FileSystem) (visits : List Visit),
    ∀ n ∈ (after f fs visits).loaded, ∀ p, Heads p n → p ∈ (after f fs visits).loaded := by
  intro h
  have hpackage := h failingFinder {} [importOfFailing] "a.b" mem_loaded_after_failure "a" (.inr ⟨"b", rfl⟩)
  exact not_mem_loaded_after_failure hpackage

def nextVisit : Visit := ⟨.interact "", 9, [], {}, {}⟩

def nextPrompt : Machine :=
  Machine.enter mainModule interactiveFile { after failingFinder {} [importOfFailing] with channels := {} }

/-- The package was abandoned in the visit, which also accounts for the next visit before its first line. -/
theorem packages_loaded_abandoned :
    AbandonedIn failingFinder {} [importOfFailing] "a" "a.b" ∧
      ("a" ∈ nextPrompt.loaded ∨ AbandonedIn failingFinder {} [importOfFailing] "a" "a.b" ∨
        ∃ a, Visit.Ran (nextVisit.surroundings failingFinder {}) 9 nextPrompt nextPrompt a ∧
          Abandoned (nextVisit.surroundings failingFinder {}) a "a" "a.b") := by
  obtain ⟨hvisits, hlines⟩ := packages_loaded failingFinder {} [importOfFailing]
  have hheads : Heads "a" "a.b" := .inr ⟨"b", rfl⟩
  refine ⟨(hvisits "a.b" mem_loaded_after_failure "a" hheads).resolve_left not_mem_loaded_after_failure, ?_⟩
  have hin : "a.b" ∈ nextPrompt.loaded := Machine.has_iff.mp (by cbv)
  exact hlines nextVisit "" rfl nextPrompt nextPrompt rfl .first "a.b" hin "a" hheads

end Session

end Launcher.Script
