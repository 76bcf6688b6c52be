import Launcher.Proofs.Script.Layout
import Launcher.Proofs.Script.Size

/-!
# Code of joined sources

The code of two sources with a newline between them is the code of the first one and then that of the second one, with
the places of its constants, names and jumps changed and on later lines. What is looked up at the new places is what was
looked up at the old ones.
-/

namespace Launcher.Script

/-! ## Instructions in another place -/

/-- The instruction with other places of constants, names and jumps. -/
def Instr.rename (const name target : Nat → Nat) : Instr → Instr
  | .loadConst i => .loadConst (const i)
  | .loadName i => .loadName (name i)
  | .storeName i => .storeName (name i)
  | .loadAttr i => .loadAttr (name i)
  | .importName i => .importName (name i)
  | .jumpIfTrue t => .jumpIfTrue (target t)
  | .jumpIfFalseOrPop t => .jumpIfFalseOrPop (target t)
  | .jumpIfTrueOrPop t => .jumpIfTrueOrPop (target t)
  | i => i

/-- The renamed instruction on another line. -/
def Step.rename (const name target line : Nat → Nat) (s : Step) : Step :=
  ⟨s.instr.rename const name target, line s.line⟩

theorem Step.rename_of_target {f : Nat → Nat} {s : Step} (h : ∀ t, s.instr.target? = some t → f t = t) :
    s.rename id id f id = s := by
  obtain ⟨i, line⟩ := s
  cases i with
  | jumpIfTrue t | jumpIfFalseOrPop t | jumpIfTrueOrPop t =>
      have ht : f t = t := h t rfl
      simp only [rename, Instr.rename, ht, id]
  | _ => rfl

theorem Step.rename_rename (const name target line const' name' target' line' : Nat → Nat) (s : Step) :
    (s.rename const name target line).rename const' name' target' line' =
      s.rename (const' ∘ const) (name' ∘ name) (target' ∘ target) (line' ∘ line) := by
  obtain ⟨i, l⟩ := s
  cases i <;> rfl

/-! ## Trees on other lines -/

namespace Expr

mutual

theorem consts_mapLines (f : Nat → Nat) : (e : Expr) → (e.mapLines f).consts = e.consts
  | .const _ _ | .name _ _ => by rw [mapLines, consts, consts]
  | .list _ es => by rw [mapLines, consts, consts, constsAll_mapLines f es]
  | .call _ e es => by rw [mapLines, consts, consts, consts_mapLines f e, constsAll_mapLines f es]
  | .attr _ e _ | .negate _ e | .not _ e => by rw [mapLines, consts, consts, consts_mapLines f e]
  | .subscript _ a b | .binary _ _ a b | .compare _ _ a b | .and _ a b | .or _ a b => by
      rw [mapLines, consts, consts, consts_mapLines f a, consts_mapLines f b]

theorem constsAll_mapLines (f : Nat → Nat) : (es : List Expr) → constsAll (mapLinesAll f es) = constsAll es
  | [] => by rw [mapLinesAll]
  | e :: es => by rw [mapLinesAll, constsAll, constsAll, consts_mapLines f e, constsAll_mapLines f es]

end

mutual

theorem names_mapLines (f : Nat → Nat) : (e : Expr) → (e.mapLines f).names = e.names
  | .const _ _ | .name _ _ => by rw [mapLines, names, names]
  | .list _ es => by rw [mapLines, names, names, namesAll_mapLines f es]
  | .call _ e es => by rw [mapLines, names, names, names_mapLines f e, namesAll_mapLines f es]
  | .attr _ e _ | .negate _ e | .not _ e => by rw [mapLines, names, names, names_mapLines f e]
  | .subscript _ a b | .binary _ _ a b | .compare _ _ a b | .and _ a b | .or _ a b => by
      rw [mapLines, names, names, names_mapLines f a, names_mapLines f b]

theorem namesAll_mapLines (f : Nat → Nat) : (es : List Expr) → namesAll (mapLinesAll f es) = namesAll es
  | [] => by rw [mapLinesAll]
  | e :: es => by rw [mapLinesAll, namesAll, namesAll, names_mapLines f e, namesAll_mapLines f es]

end

theorem length_mapLinesAll (f : Nat → Nat) (es : List Expr) : (mapLinesAll f es).length = es.length := by
  induction es with
  | nil => rfl
  | cons e es ih => rw [mapLinesAll, List.length_cons, List.length_cons, ih]

variable (pools : Pools) (f : Nat → Nat)

mutual

theorem code_mapLines (pos : Nat) :
    (e : Expr) → (e.mapLines f).code pools pos = (e.code pools pos).map (Step.rename id id id f)
  | .const _ _ | .name _ _ => by rw [mapLines, code, code]; rfl
  | .list _ es => by
      rw [mapLines, code, code, codeAll_mapLines pos es, length_mapLinesAll, List.map_append]
      rfl
  | .call _ e es => by
      rw [mapLines, code, code, code_mapLines pos e, codeAll_mapLines _ es, length_mapLinesAll, List.length_map,
        List.map_append, List.map_append]
      rfl
  | .attr _ e _ | .negate _ e | .not _ e => by
      rw [mapLines, code, code, code_mapLines pos e, List.map_append]
      rfl
  | .subscript _ a b | .binary _ _ a b | .compare _ _ a b => by
      rw [mapLines, code, code, code_mapLines pos a, code_mapLines _ b, List.length_map, List.map_append,
        List.map_append]
      rfl
  | .and _ a b | .or _ a b => by
      rw [mapLines, code, code, code_mapLines pos a, code_mapLines _ b, List.length_map, List.length_map,
        List.map_append]
      rfl

theorem codeAll_mapLines (pos : Nat) :
    (es : List Expr) → codeAll pools pos (mapLinesAll f es) = (codeAll pools pos es).map (Step.rename id id id f)
  | [] => by rw [mapLinesAll]; rfl
  | e :: es => by
      rw [mapLinesAll, codeAll, codeAll, code_mapLines pos e, codeAll_mapLines _ es, List.length_map, List.map_append]

end

end Expr

namespace Statement

variable (f : Nat → Nat)

theorem consts_mapLines (s : Statement) : (s.mapLines f).consts = s.consts := by
  have hmessage : ∀ message, messageConsts (Option.map (Expr.mapLines f) message) = messageConsts message
    | none => rfl
    | some e => e.consts_mapLines f
  cases s with
  | imports | pass => rfl
  | assert _ test _ message => rw [mapLines, consts, consts, test.consts_mapLines, hmessage]
  | raise _ _ _ message => rw [mapLines, consts, consts, hmessage]
  | assign _ _ e | expression _ e => exact e.consts_mapLines f

theorem names_mapLines (s : Statement) : (s.mapLines f).names = s.names := by
  have hmessage : ∀ message, messageNames (Option.map (Expr.mapLines f) message) = messageNames message
    | none => rfl
    | some e => e.names_mapLines f
  cases s with
  | imports dotted => rw [mapLines, names, names, List.map_map]; rfl
  | pass => rfl
  | assert _ test _ message => rw [mapLines, names, names, test.names_mapLines, hmessage]
  | raise _ _ _ message => exact hmessage message
  | assign _ _ e => rw [mapLines, names, names, e.names_mapLines]
  | expression _ e => exact e.names_mapLines f

variable (mode : CompileMode) (pools : Pools)

theorem messageCode_mapLines (pos line : Nat) (message : Option Expr) :
    messageCode pools pos (f line) (message.map (Expr.mapLines f)) =
      (messageCode pools pos line message).map (Step.rename id id id f) := by
  cases message with
  | none => rfl
  | some e => exact e.code_mapLines pools f pos

theorem code_mapLines (pos : Nat) (s : Statement) :
    (s.mapLines f).code mode pools pos = (s.code mode pools pos).map (Step.rename id id id f) := by
  cases s with
  | imports dotted =>
      rw [mapLines, code, code, List.map_map, List.map_map]
      rfl
  | pass => rfl
  | assert testLine test line message =>
      rw [mapLines, code, code]
      split
      · rfl
      · simp only [test.code_mapLines, messageCode_mapLines, List.length_map, List.map_append, List.map_cons]
        rfl
  | raise kindLine kind line message =>
      rw [mapLines, code, code, messageCode_mapLines, List.map_append]
      rfl
  | assign line id e =>
      rw [mapLines, code, code, e.code_mapLines, List.map_append]
      rfl
  | expression line e =>
      rw [mapLines, code, code, e.code_mapLines, List.map_append]
      cases mode.echo <;> rfl

end Statement

theorem Program.code_mapLines (f : Nat → Nat) (mode : CompileMode) (pools : Pools) (pos : Nat) (p : Program) :
    code mode pools pos (p.map (Statement.mapLines f)) = (code mode pools pos p).map (Step.rename id id id f) := by
  induction p generalizing pos with
  | nil => rfl
  | cons s p ih => rw [List.map_cons, code, code, s.code_mapLines, List.length_map, ih, List.map_append]

/-- Lines have no part in the pools. -/
theorem Pools.ofProgram_append_mapLines (f : Nat → Nat) (p q : Program) :
    ofProgram (p ++ q.map (Statement.mapLines f)) = ofProgram (p ++ q) := by
  have hconsts : Statement.consts ∘ Statement.mapLines f = Statement.consts :=
    funext (Statement.consts_mapLines f)
  have hnames : Statement.names ∘ Statement.mapLines f = Statement.names := funext (Statement.names_mapLines f)
  have hflat : ∀ {α : Type} (g : Statement → List α), g ∘ Statement.mapLines f = g →
      (p ++ q.map (Statement.mapLines f)).flatMap g = (p ++ q).flatMap g := by
    intro α g hg
    rw [List.flatMap_append, List.flatMap_append, List.flatMap_map]
    exact congrArg (p.flatMap g ++ q.flatMap ·) hg
  rw [ofProgram, ofProgram, hflat _ hconsts, hflat _ hnames]

/-! ## Pools that have more -/

/-- What one pool has is in the other one, at other places. -/
structure PoolMap {α : Type} [DecidableEq α] (f : Nat → Nat) (old new : List α) : Prop where
  idxOf : ∀ a ∈ old, f (old.idxOf a) = new.idxOf a
  lookup : ∀ i a, old[i]? = some a → new[f i]? = some a

section

variable {α : Type} [DecidableEq α] {old new : List α}

theorem PoolMap.of_isPrefix (h : old <+: new) : PoolMap id old new := by
  obtain ⟨more, rfl⟩ := h
  exact ⟨fun a ha => (List.idxOf_append_of_mem ha).symm,
    fun i a hi => (List.getElem?_append_left (List.getElem?_eq_some_iff.mp hi).1).trans hi⟩

/-- The place in another pool of what a pool has at a place. -/
def relocate (old new : List α) (i : Nat) : Nat := old[i]?.elim i new.idxOf

theorem PoolMap.of_subset (h : old ⊆ new) : PoolMap (relocate old new) old new := by
  refine ⟨fun a ha => ?_, fun i a hi => ?_⟩
  · rw [relocate, List.getElem?_idxOf ha, Option.elim_some]
  · rw [relocate, hi, Option.elim_some]
    exact List.getElem?_idxOf (h (List.mem_of_getElem? hi))

theorem prefix_intern (pool : List α) (a : α) : pool <+: (intern pool a).2 := by
  unfold intern
  split
  · exact List.prefix_refl pool
  · exact List.prefix_append pool [a]

theorem prefix_internAll (pool as : List α) : pool <+: internAll pool as := by
  induction as generalizing pool with
  | nil => exact List.prefix_refl pool
  | cons a as ih => exact (prefix_intern pool a).trans (ih _)

theorem internAll_subset {as bs : List α} (h : as ⊆ bs) : internAll [] as ⊆ internAll [] bs := by
  intro a ha
  have hmem := (mem_internAll.mp ha).resolve_left List.not_mem_nil
  exact mem_internAll.mpr (.inr (h hmem))

theorem internAll_append (pool as bs : List α) : internAll pool (as ++ bs) = internAll (internAll pool as) bs :=
  List.foldl_append

end

/-! ## Code with other pools at another place -/

/-- What the pools of a code object have is in those of another one, at other places. -/
structure Pools.Moves (const name : Nat → Nat) (old new : Pools) : Prop where
  consts : PoolMap const old.consts new.consts
  names : PoolMap name old.names new.names

theorem Pools.Moves.refl (pools : Pools) : pools.Moves id id pools :=
  ⟨.of_isPrefix (List.prefix_refl _), .of_isPrefix (List.prefix_refl _)⟩

section

variable {const name : Nat → Nat} {old new : Pools}

theorem Pools.Moves.loadConst (h : old.Moves const name new) {c : Const} (hc : c ∈ old.consts) (line off : Nat) :
    new.loadConst line c = (old.loadConst line c).rename const name (· + off) id := by
  rw [Pools.loadConst, ← h.consts.idxOf c hc]
  rfl

theorem Pools.Moves.name_eq (h : old.Moves const name new) {id : String} (hid : id ∈ old.names) :
    new.name id = name (old.name id) :=
  (h.names.idxOf id hid).symm

namespace Expr

mutual

theorem code_rename (hm : old.Moves const name new) (off pos : Nat) :
    (e : Expr) → old.Hold e.consts e.names →
      e.code new (pos + off) = (e.code old pos).map (Step.rename const name (· + off) id)
  | .const line c, h => by
      rw [code, code, hm.loadConst (h.consts c (by simp [consts])) line off]
      rfl
  | .name _ id, h => by
      rw [code, code, hm.name_eq (h.names id (by simp [names]))]
      rfl
  | .list _ es, h => by
      rw [code, code, codeAll_rename hm off pos es h, List.map_append]
      rfl
  | .call _ e es, h => by
      rw [code, code, code_rename hm off pos e h.left, List.length_map, Nat.add_right_comm,
        codeAll_rename hm off _ es h.right, List.map_append, List.map_append]
      rfl
  | .attr _ e id, h => by
      have he : old.Hold e.consts e.names := h.mono (by simp [consts]) (by simp [names])
      rw [code, code, code_rename hm off pos e he, hm.name_eq (h.names id (by simp [names])), List.map_append]
      rfl
  | .negate _ e, h | .not _ e, h => by
      rw [code, code, code_rename hm off pos e h, List.map_append]
      rfl
  | .subscript _ a b, h | .binary _ _ a b, h | .compare _ _ a b, h => by
      rw [code, code, code_rename hm off pos a h.left, List.length_map, Nat.add_right_comm,
        code_rename hm off _ b h.right, List.map_append, List.map_append]
      rfl
  | .and _ a b, h | .or _ a b, h => by
      have hpos : ∀ n, pos + off + n + 1 = pos + n + 1 + off := fun n => by omega
      rw [code, code, code_rename hm off pos a h.left, List.length_map, hpos, code_rename hm off _ b h.right,
        List.length_map, Nat.add_right_comm _ off, List.map_append]
      rfl

theorem codeAll_rename (hm : old.Moves const name new) (off pos : Nat) :
    (es : List Expr) → old.Hold (constsAll es) (namesAll es) →
      codeAll new (pos + off) es = (codeAll old pos es).map (Step.rename const name (· + off) id)
  | [], _ => rfl
  | e :: es, h => by
      rw [codeAll, codeAll, code_rename hm off pos e h.left, List.length_map, Nat.add_right_comm,
        codeAll_rename hm off _ es h.right, List.map_append]

end

end Expr

theorem Statement.messageCode_rename (hm : old.Moves const name new) (off pos line : Nat) (message : Option Expr)
    (h : old.Hold (messageConsts message) (messageNames message)) :
    messageCode new (pos + off) line message =
      (messageCode old pos line message).map (Step.rename const name (· + off) id) := by
  cases message with
  | none =>
      rw [messageCode, messageCode, hm.loadConst (h.consts .none (by simp [messageConsts])) line off]
      rfl
  | some e => exact e.code_rename hm off pos h

theorem Statement.code_rename (hm : old.Moves const name new) (off : Nat) (mode : CompileMode) (pos : Nat)
    (s : Statement) (h : old.Hold s.consts s.names) :
    s.code mode new (pos + off) = (s.code mode old pos).map (Step.rename const name (· + off) id) := by
  cases s with
  | imports dotted =>
      rw [code, code, List.map_map]
      refine List.map_congr_left fun entry hid => ?_
      have hname := hm.name_eq (h.names entry.2 (List.mem_map_of_mem (f := Prod.snd) hid))
      dsimp only
      rw [hname]
      rfl
  | pass => rfl
  | assert testLine test line message =>
      rw [code, code]
      split
      · rfl
      · have hpos : ∀ n, pos + off + n + 1 = pos + n + 1 + off := fun n => by omega
        have htarget : ∀ n k, pos + n + 1 + off + k + 1 = pos + n + 1 + k + 1 + off := fun n k => by omega
        simp only [test.code_rename hm off pos h.left, List.length_map, hpos, htarget,
          messageCode_rename hm off _ line message h.right, List.map_append, List.map_cons]
        rfl
  | raise kindLine kind line message =>
      have hmessage := h.mono (List.subset_cons_self ..) (List.Subset.refl _)
      rw [code, code, hm.loadConst (h.consts _ List.mem_cons_self) kindLine off, Nat.add_right_comm,
        messageCode_rename hm off _ line message hmessage, List.map_append]
      rfl
  | assign line id e =>
      have he : old.Hold e.consts e.names := h.mono (by simp [consts]) (by simp [names])
      rw [code, code, e.code_rename hm off pos he, hm.name_eq (h.names id (by simp [names])), List.map_append]
      rfl
  | expression line e =>
      rw [code, code, e.code_rename hm off pos h, List.map_append]
      cases mode.echo <;> rfl

/-- The code of a program with other pools and at another place. -/
theorem Program.code_rename (hm : old.Moves const name new) (off : Nat) (mode : CompileMode) (pos : Nat) (p : Program)
    (h : ∀ s ∈ p, old.Hold s.consts s.names) :
    code mode new (pos + off) p = (code mode old pos p).map (Step.rename const name (· + off) id) := by
  induction p generalizing pos with
  | nil => rfl
  | cons s p ih =>
      rw [code, code, s.code_rename hm off mode pos (h s List.mem_cons_self), List.length_map, Nat.add_right_comm,
        ih _ fun t ht => h t (List.mem_cons_of_mem s ht), List.map_append]

end

/-! ## Programs after one another -/

section

variable {α : Type} [DecidableEq α] (g : Statement → List α) (p q : Program)

theorem poolMap_left : PoolMap id (internAll [] (p.flatMap g)) (internAll [] ((p ++ q).flatMap g)) := by
  refine .of_isPrefix ?_
  rw [List.flatMap_append, internAll_append]
  exact prefix_internAll ..

theorem poolMap_right : ∃ f, PoolMap f (internAll [] (q.flatMap g)) (internAll [] ((p ++ q).flatMap g)) := by
  refine ⟨_, .of_subset (internAll_subset ?_)⟩
  rw [List.flatMap_append]
  exact List.subset_append_right ..

end

theorem Pools.moves_left (p q : Program) : (ofProgram p).Moves id id (ofProgram (p ++ q)) :=
  ⟨poolMap_left _ p q, poolMap_left _ p q⟩

theorem Pools.moves_right (p q : Program) : ∃ const name, (ofProgram q).Moves const name (ofProgram (p ++ q)) := by
  obtain ⟨const, hconst⟩ := poolMap_right Statement.consts p q
  obtain ⟨name, hname⟩ := poolMap_right Statement.names p q
  exact ⟨const, name, hconst, hname⟩

/-- What the instructions of `old` look up is there, and is at the renamed places of `new`. -/
structure Resolves (const name : Nat → Nat) (old new : Code) : Prop where
  const : ∀ s ∈ old.body, ∀ i, s.instr.const? = some i →
    ∃ c, old.consts[i]? = some c ∧ new.consts[const i]? = some c
  name : ∀ s ∈ old.body, ∀ i, s.instr.name? = some i →
    ∃ n, old.names[i]? = some n ∧ new.names[name i]? = some n

theorem Program.resolves {const name : Nat → Nat} {mode : CompileMode} {file : String} {p : Program} {new : Code}
    (h : (Pools.ofProgram p).Moves const name new.pools) : Resolves const name (p.compile mode file) new := by
  have hdefined : (Pools.ofProgram p).DefineAll (code mode (Pools.ofProgram p) 0 p) :=
    code_defined 0 p fun _ => Pools.hold_ofProgram p
  constructor
  · intro s hs i hi
    have hlt := (hdefined s hs).const i hi
    exact ⟨_, List.getElem?_eq_getElem hlt, h.consts.lookup i _ (List.getElem?_eq_getElem hlt)⟩
  · intro s hs i hi
    have hlt := (hdefined s hs).name i hi
    exact ⟨_, List.getElem?_eq_getElem hlt, h.names.lookup i _ (List.getElem?_eq_getElem hlt)⟩

/-- The code of a program that another one follows on other lines. -/
theorem Program.compile_append (mode : CompileMode) (file : String) (p q : Program) (f : Nat → Nat) :
    ∃ const name,
      ((p ++ q.map (Statement.mapLines f)).compile mode file).body =
        (p.compile mode file).body ++ (q.compile mode file).body.map
          (Step.rename const name (· + (p.compile mode file).body.length) f) ∧
      Resolves id id (p.compile mode file) ((p ++ q.map (Statement.mapLines f)).compile mode file) ∧
      Resolves const name (q.compile mode file) ((p ++ q.map (Statement.mapLines f)).compile mode file) := by
  obtain ⟨const, name, hright⟩ := Pools.moves_right p q
  have hleft := Pools.moves_left p q
  have hpools := Pools.ofProgram_append_mapLines f p q
  have hnew : ((p ++ q.map (Statement.mapLines f)).compile mode file).pools = Pools.ofProgram (p ++ q) := hpools
  have hfirst : code mode (Pools.ofProgram (p ++ q)) 0 p = code mode (Pools.ofProgram p) 0 p := by
    have h := code_rename hleft 0 mode 0 p fun _ => Pools.hold_ofProgram p
    rwa [List.map_congr_left fun s _ => Step.rename_of_target fun t _ => Nat.add_zero t, List.map_id'] at h
  have hsecond : ∀ off, (code mode (Pools.ofProgram (p ++ q)) (0 + off) q).map (Step.rename id id id f) =
      (code mode (Pools.ofProgram q) 0 q).map (Step.rename const name (· + off) f) := by
    intro off
    rw [code_rename hright off mode 0 q fun _ => Pools.hold_ofProgram q, List.map_map]
    exact List.map_congr_left fun s _ => Step.rename_rename const name (· + off) id id id id f s
  refine ⟨const, name, ?_, resolves (hnew ▸ hleft), resolves (hnew ▸ hright)⟩
  simp only [compile, hpools, code_append, code_mapLines, hfirst, hsecond]

/-- Instructions are on lines that the source has. -/
theorem compile_linesFit {mode : CompileMode} {file source : String} {code : Code}
    (h : compile mode file source = .ok code) : LinesFit source.toList (code.body.map Step.line) := by
  obtain ⟨ts, p, hts, hp, rfl⟩ := compile_eq_ok.mp h
  have hwithin : Grammar.Within (source.toList.count '\n' + 1) (max 30 (weight ts)) ts :=
    ⟨List.forall_mem_map.mp (tokenize_linesFit hts).le, Nat.le_max_right ..⟩
  have hsmall := (Program.ofTokens_spells hts hp).small hwithin (Nat.le_max_left ..)
  exact .of_le (List.forall_mem_map.mpr (Program.code_small hsmall mode (.ofProgram p) 0).lines)

/-- If two sources are accepted, so are both with a newline between them. The code is that of the first source and then
that of the second one, where jumps go on by the instructions of the first source and lines by its newlines and one
more; and each instruction finds the constant and the name that it finds in the code of its own source. The lines are
ones that the joined source has. -/
theorem compile_join {mode : CompileMode} {file s t : String} {old new : Code}
    (hs : compile mode file s = .ok old) (ht : compile mode file t = .ok new) :
    ∃ code const name, compile mode file (s ++ "\n" ++ t) = .ok code ∧
      code.body = old.body ++ new.body.map
        (Step.rename const name (· + old.body.length) (· + (s.toList.count '\n' + 1))) ∧
      Resolves id id old code ∧ Resolves const name new code ∧
      LinesFit (s ++ "\n" ++ t).toList (code.body.map Step.line) := by
  obtain ⟨ts, p, hts, hp, rfl⟩ := compile_eq_ok.mp hs
  obtain ⟨us, q, hus, hq, rfl⟩ := compile_eq_ok.mp ht
  have hp := Program.ofTokens_spells hts hp
  have hq := Program.ofTokens_spells hus hq
  have htokens := tokenize_join hts (hp.balanced 0) hus
  have hspells := hp.append (hq.mapLines (f := (· + (s.toList.count '\n' + 1))))
  obtain ⟨const, name, hbody, hold, hnew⟩ := Program.compile_append mode file p q (· + (s.toList.count '\n' + 1))
  have hjoined : compile mode file (s ++ "\n" ++ t) = .ok _ :=
    compile_eq_ok.mpr ⟨_, _, htokens, Program.ofTokens_of_spells hspells, rfl⟩
  exact ⟨_, const, name, hjoined, hbody, hold, hnew, compile_linesFit hjoined⟩

/-- A list on two lines and a comment at the end of the first source, an assertion in the second one. -/
theorem compile_join_brackets :
    ∃ old new code const name, compile {} "m.py" "x = [1,\n2] # two" = .ok old ∧
      compile {} "m.py" "y = 2\nassert x or y, 'no'" = .ok new ∧
      compile {} "m.py" ("x = [1,\n2] # two" ++ "\n" ++ "y = 2\nassert x or y, 'no'") = .ok code ∧
      code.body = old.body ++ new.body.map (Step.rename const name (· + old.body.length) (· + 2)) ∧
      Resolves id id old code ∧ Resolves const name new code ∧
      LinesFit ("x = [1,\n2] # two" ++ "\n" ++ "y = 2\nassert x or y, 'no'").toList (code.body.map Step.line) := by
  have hs : compile {} "m.py" "x = [1,\n2] # two" = .ok _ := rfl
  have ht : compile {} "m.py" "y = 2\nassert x or y, 'no'" = .ok _ := rfl
  obtain ⟨code, const, name, hjoined⟩ := compile_join hs ht
  exact ⟨_, _, code, const, name, hs, ht, hjoined⟩

end Launcher.Script
