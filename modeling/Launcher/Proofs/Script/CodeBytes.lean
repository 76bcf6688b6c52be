import Launcher.Proofs.Script.Size
import Launcher.Proofs.Script.Spelling
import Launcher.Script.Session

/-!
# Code objects and their byte form

Read back, the bytes of a code object are that code object exactly when it fits its byte form and its jumps lead no
further than its end. Compiled code is so, unless its source is near 4 GiB.
-/

namespace Launcher.Script

namespace Code

/-! ## Compiled code -/

/-- What an instruction needs bounds its operand. -/
theorem opcode_le {pools : Pools} {i : Instr} {bound : Nat} (hpools : pools.Defines i)
    (hbound : pools.consts.length + pools.names.length ≤ bound) (hpops : i.pops ≤ bound)
    (htarget : ∀ t, i.target? = some t → t ≤ bound) : (opcode i).2 ≤ max 5 bound := by
  cases i with
  | loadConst k =>
      have hk := hpools.const k rfl
      simp only [opcode]
      omega
  | loadName k | storeName k | loadAttr k | importName k =>
      have hk := hpools.name k rfl
      simp only [opcode]
      omega
  | binary op | compare op =>
      refine Nat.le_trans ?_ (Nat.le_max_left ..)
      cases op <;> decide
  | call n | buildList n =>
      simp only [Instr.pops] at hpops
      simp only [opcode]
      omega
  | jumpIfTrue t | jumpIfFalseOrPop t | jumpIfTrueOrPop t =>
      have ht := htarget t rfl
      simp only [opcode]
      omega
  | _ => exact Nat.zero_le _

theorem depthAfter_le (depth : Nat) (steps : List Step) : depthAfter depth steps ≤ depth + steps.length := by
  induction steps generalizing depth with
  | nil => exact Nat.le_refl _
  | cons s steps ih =>
      have hpush : s.instr.pushes ≤ 1 := by cases s.instr <;> simp [Instr.pushes]
      have hle := ih (s.instr.fallDepth depth)
      rw [Instr.fallDepth] at hle
      rw [List.length_cons]
      show depthAfter (s.instr.fallDepth depth) steps ≤ _
      rw [Instr.fallDepth]
      omega

theorem jumpsInside_of_compile {mode : CompileMode} {file source : String} {code : Code}
    (h : compile mode file source = .ok code) : jumpsInside code.body := by
  obtain ⟨_, p, _, _, rfl⟩ := compile_eq_ok.mp h
  have hbalanced := Program.compile_balanced mode file p
  refine List.all_eq_true.mpr fun s hs => ?_
  obtain ⟨pos, hs⟩ := List.getElem?_of_mem hs
  cases ht : s.instr.target? with
  | none => rfl
  | some t => exact decide_eq_true (hbalanced.forward hs ht).2

/-- The code of a source of less than 4 GiB fits its byte form. -/
theorem fits_of_compile {mode : CompileMode} {file source : String} {code : Code}
    (h : compile mode file source = .ok code) (hfile : TextFits file) (hsource : source.utf8ByteSize + 1 < 2 ^ 32) :
    code.Fits := by
  obtain ⟨hbody, hpools, hsmall⟩ := compile_bounded h
  obtain ⟨_, p, _, _, rfl⟩ := compile_eq_ok.mp h
  have hbalanced := Program.compile_balanced mode file p
  have hmax : max 30 (source.utf8ByteSize + 1) < 2 ^ 32 := by omega
  refine ⟨hfile, ⟨by omega, ?_⟩, ⟨by omega, ?_⟩, ⟨by omega, ?_⟩⟩
  · intro c hc
    cases c with
    | str t => exact Nat.lt_of_le_of_lt (hsmall.texts t hc) hmax
    | _ => trivial
  · exact fun id hid => Nat.lt_of_le_of_lt (hsmall.names id hid) hmax
  · intro s hs
    refine ⟨?_, Nat.lt_of_le_of_lt (hsmall.lines s hs) hsource⟩
    obtain ⟨pos, hs⟩ := List.getElem?_of_mem hs
    have hpos : pos < (p.compile mode file).body.length := (List.getElem?_eq_some_iff.mp hs).1
    have hdepth := depthAfter_le 0 ((p.compile mode file).body.take pos)
    have hpops := hbalanced.operands hs
    rw [List.length_take] at hdepth
    have hoperand := opcode_le (hbalanced.pools hs) hpools (by omega)
      fun t ht => Nat.le_trans (hbalanced.forward hs ht).2 hbody
    omega

/-! ## Imports of text and of bytes -/

section

variable {env env' : Surroundings} {found found' : LocatedModule} {text : String} {bytes : Bytes} {code : Code}
  {fuel : Nat}

theorem codeOf_compiled (htext : found.code = .source text) (hbytes : found'.code = .compiled bytes)
    (hcompile : (Session.host fuel).compile text found.origin env.flags.optimize = .ok bytes)
    (hcode : Exec.codeOf env found = .ok code) (hfits : code.Fits) : Exec.codeOf env' found' = .ok code := by
  rw [Exec.codeOf, htext] at hcode
  have hmap : (Session.host fuel).compile text found.origin env.flags.optimize = .ok code.toBytes :=
    congrArg (Except.map Code.toBytes) hcode
  obtain rfl : bytes = code.toBytes := Except.ok.inj (hcompile.symm.trans hmap)
  rw [Exec.codeOf, hbytes]
  exact ofBytes_toBytes_iff.mpr ⟨hfits, jumpsInside_of_compile hcode⟩

theorem importOne_congr {name : String} (hfind : env.find name = .ok found) (hfind' : env'.find name = .ok found')
    (horigin : found'.origin = found.origin) (hcode : Exec.codeOf env' found' = Exec.codeOf env found)
    (run : Exec.Runner) : Exec.importOne env' run name = Exec.importOne env run name := by
  simp only [Exec.importOne, hfind, hfind', horigin, hcode]

end

/-- The byte form keeps a code object exactly if its sizes have four bytes and its jumps lead inside it. Compiled
code has such jumps, and such sizes if its source is not near 4 GiB. So a module runs the same code, and is the same
import, whether it is found as text or as the bytes that the text was compiled to. -/
theorem toBytes_keeps_code :
    (∀ code : Code, ofBytes code.toBytes = .ok code ↔ code.Fits ∧ jumpsInside code.body) ∧
    (∀ mode file source code, compile mode file source = .ok code →
      jumpsInside code.body ∧ (TextFits file → source.utf8ByteSize + 1 < 2 ^ 32 → code.Fits)) ∧
    ∀ fuel env env' (found found' : LocatedModule) text bytes code, found.code = .source text →
      found'.code = .compiled bytes →
      (Session.host fuel).compile text found.origin env.flags.optimize = .ok bytes →
      Exec.codeOf env found = .ok code → code.Fits →
        Exec.codeOf env' found' = .ok code ∧
        ∀ run name, env.find name = .ok found → env'.find name = .ok found' → found'.origin = found.origin →
          Exec.importOne env' run name = Exec.importOne env run name := by
  refine ⟨fun _ => ofBytes_toBytes_iff, fun mode file source code h => ⟨jumpsInside_of_compile h, fits_of_compile h⟩,
    fun fuel env env' found found' text bytes code htext hbytes hcompile hcode hfits => ?_⟩
  have hcode' : Exec.codeOf env' found' = .ok code := codeOf_compiled htext hbytes hcompile hcode hfits
  exact ⟨hcode', fun run name hfind hfind' horigin =>
    importOne_congr hfind hfind' horigin (hcode'.trans hcode.symm) run⟩

/-- A module with jumps over a decided operand and over a complaint, found as text and as bytes. -/
theorem toBytes_keeps_code_assertion :
    ∃ code, compile {} "m.py" "x = 0 or 'a'\nassert x, 1.5\n" = .ok code ∧ code.Fits ∧
      ofBytes code.toBytes = .ok code ∧
      let found : LocatedModule := ⟨"m", "m.py", false, .source "x = 0 or 'a'\nassert x, 1.5\n"⟩
      let found' := { found with code := .compiled code.toBytes }
      let env : Surroundings := ⟨fun _ => .ok found, [], {}⟩
      let env' : Surroundings := ⟨fun _ => .ok found', [], {}⟩
      Exec.codeOf env' found' = .ok code ∧ ∀ run, Exec.importOne env' run "m" = Exec.importOne env run "m" := by
  obtain ⟨hbytes, hcompiled, himport⟩ := toBytes_keeps_code
  obtain ⟨code, hcode⟩ : ∃ code, compile {} "m.py" "x = 0 or 'a'\nassert x, 1.5\n" = .ok code := ⟨_, rfl⟩
  obtain ⟨hjumps, hfits⟩ := hcompiled {} "m.py" _ code hcode
  have hfits := hfits (by decide) (by decide)
  refine ⟨code, hcode, hfits, (hbytes code).mpr ⟨hfits, hjumps⟩, ?_⟩
  intro found found' env env'
  have hcompile : (Session.host 0).compile "x = 0 or 'a'\nassert x, 1.5\n" found.origin env.flags.optimize =
      .ok code.toBytes := congrArg (Except.map toBytes) hcode
  obtain ⟨hcode', hone⟩ := himport 0 env env' found found' _ _ code rfl rfl hcompile hcode hfits
  exact ⟨hcode', fun run => hone run "m" rfl rfl rfl⟩

end Code

end Launcher.Script
