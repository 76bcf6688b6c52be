import Launcher.Proofs.Script.Balance
import Launcher.Proofs.Script.Path
import Launcher.Proofs.Script.Pools

/-!
# Stack safety of compiled code

Compiled code fixes how many operands there are at each of its positions. Execution keeps to these depths from
whatever state it starts, goes forward only, and so comes to each instruction at most once, with its operands at
hand, and to the end with none left.
-/

namespace Launcher.Script

/-! ## Depths of a code object -/

/-- `depth` says how many operands there are at each position: none at the start and at the end, enough for
each instruction, and at each successor as many as the instruction leaves. Jumps go forward to positions inside
or at the end, and whatever is looked up is in the pools. -/
structure Code.Balanced (code : Code) (depth : Nat → Nat) : Prop where
  start : depth 0 = 0
  finish : depth code.body.length = 0
  operands : ∀ {pos : Nat} {s : Step}, code.body[pos]? = some s → s.instr.pops ≤ depth pos
  successors : ∀ {pos : Nat} {s : Step} {next : Nat × Nat}, code.body[pos]? = some s →
    next ∈ s.instr.successors pos (depth pos) → depth next.1 = next.2
  forward : ∀ {pos t : Nat} {s : Step}, code.body[pos]? = some s → s.instr.target? = some t →
    pos < t ∧ t ≤ code.body.length
  pools : ∀ {pos : Nat} {s : Step}, code.body[pos]? = some s → code.pools.Defines s.instr

theorem depthAfter_take_succ {steps : List Step} {pos : Nat} {s : Step} (depth : Nat)
    (h : steps[pos]? = some s) :
    depthAfter depth (steps.take (pos + 1)) = s.instr.fallDepth (depthAfter depth (steps.take pos)) := by
  rw [List.take_add_one, h, depthAfter_append]; rfl

/-- The depths along the way that falls through are those of all ways. -/
theorem Program.compile_balanced (mode : CompileMode) (file : String) (p : Program) :
    (p.compile mode file).Balanced fun pos => depthAfter 0 ((p.compile mode file).body.take pos) := by
  have hp : Brings 0 0 (p.compile mode file).body 0 := code_brings 0 p
  refine ⟨rfl, ?_, ?_, ?_, ?_, ?_⟩
  · rw [List.take_length]; exact hp.final
  · intro pos s hs
    exact (hp.flows.at _ hs).1
  · intro pos s next hs hnext
    rcases List.mem_cons.mp hnext with rfl | hjump
    · exact depthAfter_take_succ 0 hs
    · obtain ⟨t, ht, rfl⟩ := List.mem_map.mp hjump
      exact ((hp.flows.at _ hs).2 t (by simpa using ht)).2.2
  · intro pos t s hs ht
    obtain ⟨hlt, hle, _⟩ := (hp.flows.at _ hs).2 t ht
    rw [Nat.zero_add] at hlt hle
    exact ⟨hlt, hle⟩
  · intro pos s hs
    exact code_defined 0 p (fun _ => Pools.hold_ofProgram p) s (List.mem_of_getElem? hs)

/-! ## Execution of balanced code -/

namespace Exec

variable {env : Surroundings} {code : Code} {module : String} {depth : Nat → Nat}

/-- A configuration has the operands that its position should have. -/
structure Config.Keeps (code : Code) (depth : Nat → Nat) (c : Config) : Prop where
  inside : c.pos ≤ code.body.length
  depth : c.stack.length = depth c.pos

theorem successors_forward (hb : code.Balanced depth) {pos : Nat} {s : Step} {next : Nat × Nat}
    (hs : code.body[pos]? = some s) (h : next ∈ s.instr.successors pos (depth pos)) :
    pos < next.1 ∧ next.1 ≤ code.body.length := by
  have hpos : pos < code.body.length := (List.getElem?_eq_some_iff.mp hs).1
  rcases List.mem_cons.mp h with rfl | hjump
  · exact ⟨Nat.lt_succ_self pos, hpos⟩
  · obtain ⟨t, ht, rfl⟩ := List.mem_map.mp hjump
    exact hb.forward hs (by simpa using ht)

/-- A step of balanced code goes forward and keeps to the depths. -/
theorem Goes.keeps (hb : code.Balanced depth) {a b : Config} (h : Goes env code module a b)
    (ha : a.Keeps code depth) : b.Keeps code depth ∧ a.pos < b.pos := by
  cases h with
  | @step _ pos _ _ _ _ _ hs h =>
      have hnext := (step_successor h pos).2
      rw [ha.depth] at hnext
      obtain ⟨hlt, hle⟩ := successors_forward hb hs hnext
      exact ⟨⟨hle, (hb.successors hs hnext).symm⟩, hlt⟩

/-- All configurations of an execution of balanced code keep to the depths, and come one after the other in the
order of their positions. -/
theorem Path.keeps (hb : code.Balanced depth) {a b : Config} {visited : List Config}
    (h : Path env code module a visited b) (ha : a.Keeps code depth) :
    (∀ c ∈ visited ++ [b], c.Keeps code depth ∧ a.pos ≤ c.pos) ∧
      ((visited ++ [b]).map Config.pos).Pairwise (· < ·) := by
  induction h with
  | here c => simpa using ha
  | @cons a b c visited hg _ ih =>
      obtain ⟨hb', hlt⟩ := hg.keeps hb ha
      obtain ⟨hkeeps, hsorted⟩ := ih hb'
      rw [List.cons_append, List.map_cons, List.pairwise_cons]
      refine ⟨?_, ?_, hsorted⟩
      · rintro d (_ | ⟨_, hd⟩)
        · exact ⟨ha, Nat.le_refl _⟩
        · exact ⟨(hkeeps d hd).1, Nat.le_trans (Nat.le_of_lt hlt) (hkeeps d hd).2⟩
      · intro p hp
        obtain ⟨d, hd, rfl⟩ := List.mem_map.mp hp
        exact Nat.lt_of_lt_of_le hlt (hkeeps d hd).2

/-- The instruction that a configuration comes to finds its operands and all that it looks up, and complains of
neither, unless the complaint comes from outside of the code. -/
def Config.Supplied (env : Surroundings) (code : Code) (module : String) (c : Config) : Prop :=
  ∀ s, code.body[c.pos]? = some s →
    s.instr.pops ≤ c.stack.length ∧ code.pools.Defines s.instr ∧
    ∀ run e m', step env run code module s c.stack c.machine = (.error (.raised e), m') → Fault e →
      Voiced env run code module s c.machine c.stack e

theorem Config.Keeps.supplied (hb : code.Balanced depth) {c : Config} (hc : c.Keeps code depth) :
    c.Supplied env code module := by
  intro s hs
  have hops : s.instr.pops ≤ c.stack.length := hc.depth ▸ hb.operands hs
  exact ⟨hops, hb.pools hs, fun _ _ _ h hf => step_fault hops (hb.pools hs) h hf⟩

theorem Ends.stack_eq_nil (hb : code.Balanced depth) {c : Config} {m : Machine}
    (h : Ends env code module c (.ok (), m)) (hc : c.Keeps code depth) : c.stack = [] := by
  cases h with
  | finished hs =>
      have hpos := Nat.le_antisymm hc.inside (List.getElem?_eq_none_iff.mp hs)
      exact List.eq_nil_of_length_eq_zero (by rw [hc.depth, hpos, hb.finish])

end Exec

/-! ## Compiled code -/

/-- Where the execution of a code object in a module starts. -/
def Exec.Config.start (code : Code) (fuel : Nat) (module : String) (m : Machine) : Exec.Config :=
  ⟨fuel, 0, [], m.enter module code.file⟩

/-- The code keeps to the depths in every execution, in any module, from any machine and with any number of
steps: on its path there are these numbers of operands, each instruction is carried out at most once and with all
that it needs, and no operands are left at the end of the code. -/
structure Code.StackSafe (code : Code) (depth : Nat → Nat) : Prop where
  balanced : code.Balanced depth
  path : ∀ (env : Surroundings) (fuel : Nat) (module : String) (m : Machine), ∃ visited last,
    Exec.Path env code module (.start code fuel module m) visited last ∧
      Exec.Ends env code module last (Exec.exec env fuel code module m)
  supplied : ∀ {env fuel module m visited last},
    Exec.Path env code module (.start code fuel module m) visited last →
      ∀ c ∈ visited ++ [last], c.stack.length = depth c.pos ∧ c.Supplied env code module
  once : ∀ {env fuel module m visited last},
    Exec.Path env code module (.start code fuel module m) visited last →
      ((visited ++ [last]).map Exec.Config.pos).Pairwise (· < ·)
  empties : ∀ {env fuel module m visited last m'},
    Exec.Path env code module (.start code fuel module m) visited last →
      Exec.Ends env code module last (.ok (), m') → last.stack = []

theorem Code.Balanced.stackSafe {code : Code} {depth : Nat → Nat} (hb : code.Balanced depth) :
    code.StackSafe depth := by
  have hstart : ∀ fuel module m, (Exec.Config.start code fuel module m).Keeps code depth :=
    fun _ _ _ => ⟨Nat.zero_le _, hb.start.symm⟩
  refine ⟨hb, fun _ _ _ _ => Exec.exists_path .., ?_, ?_, ?_⟩
  · intro env fuel module m visited last hp c hc
    have hkeeps := ((hp.keeps hb (hstart fuel module m)).1 c hc).1
    exact ⟨hkeeps.depth, hkeeps.supplied hb⟩
  · intro env fuel module m visited last hp
    exact (hp.keeps hb (hstart fuel module m)).2
  · intro env fuel module m visited last m' hp he
    exact he.stack_eq_nil hb ((hp.keeps hb (hstart fuel module m)).1 last (by simp)).1

theorem compile_eq_ok {mode : CompileMode} {file source : String} {code : Code} :
    compile mode file source = .ok code ↔
      ∃ ts p, tokenize source = .ok ts ∧ Program.ofTokens ts = .ok p ∧ p.compile mode file = code := by
  unfold compile
  split
  · simp [*]
  · split
    · simp [*]
    · simp [*]

/-- Compiled code fixes the number of operands at each position, and every execution of it keeps to that. -/
theorem compile_stackSafe {mode : CompileMode} {file source : String} {code : Code}
    (h : compile mode file source = .ok code) : ∃ depth, code.StackSafe depth := by
  obtain ⟨_, p, _, _, rfl⟩ := compile_eq_ok.mp h
  exact ⟨_, (p.compile_balanced mode file).stackSafe⟩

/-- An assertion of two operands, of which the first may decide, and a list that is bound to a name. -/
theorem compile_stackSafe_assertion :
    compile {} "m.py" "assert a or b, 'c'\nx = [1]" = .ok ⟨"m.py", [.str "c", .int 1], ["a", "b", "x"],
      [⟨.loadName 0, 1⟩, ⟨.jumpIfTrueOrPop 3, 1⟩, ⟨.loadName 1, 1⟩, ⟨.jumpIfTrue 6, 1⟩, ⟨.loadConst 0, 1⟩,
        ⟨.assertFail, 1⟩, ⟨.loadConst 1, 2⟩, ⟨.buildList 1, 2⟩, ⟨.storeName 2, 2⟩]⟩ ∧
    ∃ depth, Code.StackSafe ⟨"m.py", [.str "c", .int 1], ["a", "b", "x"],
      [⟨.loadName 0, 1⟩, ⟨.jumpIfTrueOrPop 3, 1⟩, ⟨.loadName 1, 1⟩, ⟨.jumpIfTrue 6, 1⟩, ⟨.loadConst 0, 1⟩,
        ⟨.assertFail, 1⟩, ⟨.loadConst 1, 2⟩, ⟨.buildList 1, 2⟩, ⟨.storeName 2, 2⟩]⟩ depth :=
  have h : compile {} "m.py" "assert a or b, 'c'\nx = [1]" = .ok _ := rfl
  ⟨h, compile_stackSafe h⟩

end Launcher.Script
