import Launcher.Proofs.Freeze.Lookup
import Launcher.Proofs.Names
import Launcher.Proofs.Script.Agreement
import Launcher.Proofs.Script.CodeBytes

/-!
# Imports from a frozen tree

What a name of a frozen tree imports is what it imports from the directory of the tree, as long as every package that
the name passes through has code. A package without code is found in both places, but in a table its code is empty,
and nothing can be read from that.
-/

namespace Launcher

open Script Freeze
open Table (isIdentifier)

/-- The code imports the name and does nothing else. -/
def Script.Code.Imports (code : Code) (name : String) : Prop :=
  ∃ k line, code.body = [⟨.importName k, line⟩] ∧ code.names[k]? = some name

/-! ## Names on the way -/

namespace Script.Exec

theorem dotted_singleton (name : String) : dotted [name] = name := String.intercalate_singleton

/-- A dotted name of identifiers passes through the names of its front parts. -/
theorem exists_prefix_of_throughNames {components : List String} (hne : components ≠ [])
    (hids : ∀ c ∈ components, isIdentifier c = true) {p : String} (hp : p ∈ throughNames (dotted components)) :
    ∃ front, front <+: components ∧ front ≠ [] ∧ p = dotted front := by
  have hsplit := splitOn_dotted hne hids
  have hempty : "" ∉ components := fun hin => (fileName_of_isIdentifier (hids "" hin)).ne_empty rfl
  rw [throughNames_eq_frontNames (hsplit.symm ▸ hempty), hsplit] at hp
  obtain ⟨i, -, rfl⟩ := List.mem_map.mp hp
  refine ⟨components.take (i + 1), List.take_prefix _ _, ?_, rfl⟩
  simpa [List.take_eq_nil_iff] using hne

/-! ## The program that imports one name -/

variable {env env' : Surroundings} {code : Code} {module name : String} {line : Nat} {m m' : Machine}

theorem compile_import (mode : CompileMode) (file : String) (line : Nat) (name : String) :
    Program.compile mode file [.imports [(line, name)]] = ⟨file, [], [name], [⟨.importName 0, line⟩]⟩ := by
  simp [Program.compile, Program.code, Statement.code, Pools.ofProgram, Pools.name, Statement.consts,
    Statement.names, internAll, intern]

theorem run_import (file : String) (fuel : Nat) :
    runFrom env (fuel + 1) ⟨file, [], [name], [⟨.importName 0, line⟩]⟩ module 0 [] m =
      match importAll env (nested env fuel) (throughNames name) m with
      | (.ok _, x) =>
        (if fuel = 0 then .error .exhausted else .ok (),
          x.bind module ((name.splitOn ".").headD name) (.module ((name.splitOn ".").headD name)))
      | (.error h, x) => (.error (inFrame file line h), x) := by
  have hstep : step env (nested env fuel) ⟨file, [], [name], [⟨.importName 0, line⟩]⟩ module
      ⟨.importName 0, line⟩ [] =
      importAll env (nested env fuel) (throughNames name) >>= fun _ =>
        let top := (name.splitOn ".").headD name
        Action.modify (Machine.bind module top (.module top)) >>= fun _ => Action.pure { stack := [] } :=
    step_importName rfl
  have hbody : (⟨file, [], [name], [⟨.importName 0, line⟩]⟩ : Code).body[0]? = some ⟨.importName 0, line⟩ := rfl
  rcases hx : importAll env (nested env fuel) (throughNames name) m with ⟨h | _, x⟩
  · exact run_of_error hbody (by rw [hstep, Action.bind_of_error hx])
  · refine (run_of_ok hbody (by rw [hstep, Action.bind_of_ok hx]; rfl)).trans ?_
    cases fuel with
    | zero => rfl
    | succ fuel => exact run_of_none rfl

/-- A name without dots is imported by itself. -/
theorem importAll_throughNames (hname : isIdentifier name = true) (run : Runner) :
    importAll env run (throughNames name) = importOne env run name := by
  have hsplit := splitOn_dotted (List.cons_ne_nil name []) (by simpa using hname)
  rw [dotted_singleton] at hsplit
  have hthrough : throughNames name = [name] := by
    rw [throughNames, hsplit]
    rfl
  rw [hthrough, importAll]
  exact Action.bind_pure_id (importOne env run name)

theorem announce_identifier (hname : isIdentifier name = true) : announce name = Action.pure () := by
  have hsplit := splitOn_dotted (List.cons_ne_nil name []) (by simpa using hname)
  rw [dotted_singleton] at hsplit
  rw [announce, splitLast?, hsplit]
  rfl

/-- Where the chains of imports end in the same way, so do the programs. -/
theorem run_import_alike (hargv : env.argv = env'.argv) {names : List String} (file : String)
    (hnames : ∀ p ∈ throughNames name, p ∈ names ∨ SameCode env env' p) (fuel : Nat)
    (h : Machine.Alike names m m') :
    let code : Code := ⟨file, [], [name], [⟨.importName 0, line⟩]⟩
    (runFrom env fuel code module 0 [] m).1 = (runFrom env' fuel code module 0 [] m').1 ∧
      (runFrom env fuel code module 0 [] m).2.withoutFiles =
        (runFrom env' fuel code module 0 [] m').2.withoutFiles := by
  cases fuel with
  | zero => exact ⟨rfl, h.same⟩
  | succ fuel =>
      obtain ⟨hresult, names', halike⟩ := importAll_alike hargv hnames fuel h
      dsimp only
      rw [run_import, run_import]
      rcases hx : importAll env (nested env fuel) (throughNames name) m with ⟨h | _, x⟩ <;>
        rcases hy : importAll env' (nested env' fuel) (throughNames name) m' with ⟨h' | _, y⟩ <;>
        rw [hx, hy] at hresult halike
      · cases hresult
        exact ⟨rfl, halike.same⟩
      · cases hresult
      · cases hresult
      · exact ⟨rfl, (halike.bind _).same⟩

/-- An import ends well only if the chain of imports does. -/
theorem importAll_of_imports {name : String} (hcode : code.Imports name) {fuel : Nat} {m m' : Machine}
    (h : runFrom env fuel code module 0 [] m = (.ok (), m')) :
    ∃ fuel x, importAll env (nested env fuel) (throughNames name) m = (.ok (), x) := by
  obtain ⟨k, line, hbody, hname⟩ := hcode
  have hstep : code.body[0]? = some ⟨.importName k, line⟩ := by rw [hbody]; rfl
  cases fuel with
  | zero => cases h
  | succ fuel =>
      rcases hx : importAll env (nested env fuel) (throughNames name) m with ⟨e | _, x⟩
      · rw [run_of_error hstep (by rw [step_importName hname, Action.bind_of_error hx])] at h
        cases h
      · exact ⟨fuel, x, hx⟩

theorem importAll_of_run {file : String} {fuel : Nat}
    (h : runFrom env fuel ⟨file, [], [name], [⟨.importName 0, line⟩]⟩ module 0 [] m = (.ok (), m')) :
    ∃ fuel x, importAll env (nested env fuel) (throughNames name) m = (.ok (), x) :=
  importAll_of_imports ⟨0, line, rfl, rfl⟩ h

end Script.Exec

/-! ## A fresh host -/

namespace Script.Session

/-- The source reads as the import of a name. -/
def Imports (source name : String) : Prop :=
  ∃ ts line, tokenize source = .ok ts ∧ Program.ofTokens ts = .ok [.imports [(line, name)]]

variable {source file name : String} {bytes : Bytes}

theorem enter_twice (m : Machine) (module file other : String) :
    (m.enter module file).enter module other = m.enter module file := by
  have hhas : (m.enter module file).modules.has module = true := by
    by_cases h : m.modules.has module = true
    · rwa [Machine.enter, if_pos h]
    · rw [Machine.enter, if_neg h]
      simp [Dict.has, Dict.get?_set]
  rw [Machine.enter, if_pos hhas]

/-- The import of a name as the main program of a host. -/
theorem runMain_import {optimize : Nat} (hsource : Imports source name) (hfile : TextFits file)
    (hsmall : source.utf8ByteSize + 1 < 2 ^ 32) {fuel₀ : Nat}
    (hbytes : (host fuel₀).compile source file optimize = .ok bytes) :
    ∃ line, ∀ env fuel m, runMain env fuel bytes file m =
      Exec.runFrom env fuel ⟨file, [], [name], [⟨.importName 0, line⟩]⟩ mainModule 0 []
        (m.enter mainModule file) := by
  obtain ⟨ts, line, hts, hp⟩ := hsource
  refine ⟨line, fun env fuel m => ?_⟩
  have hcompile : compile { dropAsserts := 0 < optimize } file source =
      .ok ⟨file, [], [name], [⟨.importName 0, line⟩]⟩ := by
    simp only [compile, hts, hp, Exec.compile_import]
  have hbytes : bytes = Code.toBytes ⟨file, [], [name], [⟨.importName 0, line⟩]⟩ := by
    have h : (compile { dropAsserts := 0 < optimize } file source).map Code.toBytes = .ok bytes := hbytes
    rw [hcompile] at h
    exact (Except.ok.inj h).symm
  have hcode : Code.ofBytes bytes = .ok ⟨file, [], [name], [⟨.importName 0, line⟩]⟩ := by
    rw [hbytes]
    exact Code.ofBytes_toBytes_iff.mpr
      ⟨Code.fits_of_compile hcompile hfile hsmall, Code.jumpsInside_of_compile hcompile⟩
  have hrun : runMain env fuel bytes file m =
      Exec.exec env fuel ⟨file, [], [name], [⟨.importName 0, line⟩]⟩ mainModule (m.enter mainModule file) := by
    simp only [runMain, hcode]
    rfl
  rw [hrun]
  exact congrArg (Exec.runFrom env fuel _ mainModule 0 []) (enter_twice m mainModule file file)

end Script.Session

/-! ## Hosts with a table and hosts with a directory -/

namespace Freeze

/-- Surroundings in which modules are looked for in a table and in the entries of a search path. -/
def surroundings (fs : FileSystem) (table : Table.FrozenTable) (searchPath : List Path) (magic : Bytes)
    (argv : List String) (flags : Flags) : Surroundings :=
  ⟨(Finder.ofConfig {} table searchPath magic).find fs, argv, flags⟩

/-- A tree of sources, each of them small and none with an import or with a look at its own file. -/
structure QuietTree (tree : FileNode) : Prop extends SourceTree tree where
  small : ∀ names content executable, (names, .file content executable) ∈ tree.walk → content.length + 1 < 2 ^ 32
  quiet : ∀ names content executable text ts p, (names, .file content executable) ∈ tree.walk →
    Utf8.decode? content = some text → tokenize text = .ok ts → Program.ofTokens ts = .ok p → p.Quiet

variable {fs : FileSystem} {root : Path} {tree : FileNode} {units : List Table.CompiledUnit}
  {table : Table.BuiltTable} {u : Table.CompiledUnit} {fuel₀ optimize : Nat}

theorem find_frozen (h : Table.Builder.build ⟨.packageFlag, units, []⟩ = .ok table) (hu : u ∈ units) (magic : Bytes)
    (argv : List String) (flags : Flags) :
    (surroundings fs table.view [] magic argv flags).find u.name =
      .ok ⟨u.name, "<frozen>", u.isPackage, .compiled u.code⟩ := by
  have hfind : table.view.find u.name = .found u.name u.code u.isPackage :=
    (Table.find_eq_found_iff h).mpr ⟨rfl, hu⟩
  simp only [surroundings, Finder.ofConfig, Finder.find, hfind]

/-- A unit with code is the same code in the table and in the directory. -/
theorem sameCode_of_unit (hroot : fs.look root = .ok tree) (htree : QuietTree tree)
    (hcollect : collect fs (Session.host fuel₀) optimize true ⟨root, none⟩ = .ok units)
    (hbuild : Table.Builder.build ⟨.packageFlag, units, []⟩ = .ok table) (hu : u ∈ units) (hcode : u.code ≠ [])
    (magic : Bytes) (argv : List String) {flags : Flags} (hoptimize : 0 < optimize ↔ 0 < flags.optimize) :
    Exec.SameCode (surroundings fs table.view [] magic argv flags) (surroundings fs {} [root] magic argv flags)
      u.name := by
  obtain ⟨names, n, hn, hbecomes⟩ := exists_node hroot hcollect hu
  cases hbecomes with
  | namespacePackage _ => exact absurd rfl hcode
  | @source components isPackage _ hfinding hcompile =>
      obtain ⟨content, text, executable, hmem, hdecode, hbytes, hfind⟩ :=
        find_source hroot findsSources_default htree.sourcesOnly hcollect (Table.nodup_of_build hbuild) hn hfinding
          hcompile (htree.exposed components) magic
      have hsame :
          (Session.host fuel₀).compile text (names.foldl Path.join root).text flags.optimize = .ok u.code := by
        rw [← hbytes]
        simp only [Session.host, hoptimize]
      obtain ⟨code, hcompiled⟩ : ∃ code,
          compile { dropAsserts := 0 < flags.optimize } (names.foldl Path.join root).text text = .ok code := by
        cases hresult : compile { dropAsserts := 0 < flags.optimize } (names.foldl Path.join root).text text with
        | error e => simp [Session.host, hresult, Except.map] at hsame
        | ok code => exact ⟨code, rfl⟩
      have hfits : code.Fits := by
        obtain ⟨_, _, _, _, hread, -⟩ := compileFile_eq_ok.mp hcompile
        obtain ⟨_, hlook⟩ := look_of_read hread
        have hsize : text.utf8ByteSize = content.length := by
          rw [← Code.length_ofString, Bytes.ofString_of_decode? hdecode]
        have hfile : TextFits (names.foldl Path.join root).text := by
          have hpath := (FileSystem.look_eq_ok hlook).2.1
          rw [FileSystem.maxPathSize] at hpath
          rw [TextFits]
          omega
        exact Code.fits_of_compile hcompiled hfile (hsize ▸ htree.small names content executable hmem)
      have hquiet : code.Quiet := by
        obtain ⟨ts, p, hts, hp, rfl⟩ := compile_eq_ok.mp hcompiled
        exact p.compile_quiet _ _ (htree.quiet names content executable text ts p hmem hdecode hts hp)
      have hdirect : Exec.codeOf (surroundings fs {} [root] magic argv flags)
          ⟨u.name, (names.foldl Path.join root).text, isPackage, .source text⟩ = .ok code := hcompiled
      have hfrozen : Exec.codeOf (surroundings fs table.view [] magic argv flags)
          ⟨u.name, "<frozen>", u.isPackage, .compiled u.code⟩ = .ok code :=
        @Code.codeOf_compiled (surroundings fs {} [root] magic argv flags) _
          ⟨u.name, (names.foldl Path.join root).text, isPackage, .source text⟩ _ text u.code code fuel₀ rfl rfl hsame
          hdirect hfits
      exact ⟨_, _, code, find_frozen hbuild hu magic argv flags, hfind, hfrozen, hdirect, hquiet⟩

/-- Whatever code a name on the way has in the table is quiet. -/
theorem quiet_of_frozen (hroot : fs.look root = .ok tree) (htree : QuietTree tree)
    (hcollect : collect fs (Session.host fuel₀) optimize true ⟨root, none⟩ = .ok units)
    (hbuild : Table.Builder.build ⟨.packageFlag, units, []⟩ = .ok table) (hu : u ∈ units) (magic : Bytes)
    (argv : List String) {flags : Flags} (hoptimize : 0 < optimize ↔ 0 < flags.optimize) {found : LocatedModule}
    {code : Code} (hfind : (surroundings fs table.view [] magic argv flags).find u.name = .ok found)
    (hcode : Exec.codeOf (surroundings fs table.view [] magic argv flags) found = .ok code) :
    u.code ≠ [] ∧ code.Quiet := by
  have hfound := (find_frozen hbuild hu magic argv flags).symm.trans hfind
  by_cases hempty : u.code = []
  · rw [hempty] at hfound
    cases hfound
    cases hcode
  · obtain ⟨found', _, code', hfind', _, hcode', _, hquiet⟩ :=
      (sameCode_of_unit hroot htree hcollect hbuild hu hempty magic argv hoptimize).sameCode
    obtain rfl := Except.ok.inj (hfind.symm.trans hfind')
    obtain rfl := Except.ok.inj (hcode.symm.trans hcode')
    exact ⟨hempty, hquiet⟩

/-- The names that the name of a unit passes through are names of units. -/
theorem exists_unit_of_throughNames (hroot : fs.look root = .ok tree)
    (hcollect : collect fs (Session.host fuel₀) optimize true ⟨root, none⟩ = .ok units) (hu : u ∈ units) {p : String}
    (hp : p ∈ Exec.throughNames u.name) : ∃ v ∈ units, v.name = p := by
  obtain ⟨names, n, -, hbecomes⟩ := exists_node hroot hcollect hu
  obtain ⟨components, hname, hne, hids⟩ := hbecomes.exists_components
  rw [hname] at hp
  obtain ⟨front, hfront, hfrontNe, rfl⟩ := Exec.exists_prefix_of_throughNames hne hids hp
  exact exists_unit_of_prefix hroot hcollect hu hname hids hfront hfrontNe

/-- Every package that the name passes through has code, and so has its module. The main module is loaded from the
start. -/
def Coded (units : List Table.CompiledUnit) (name : String) : Prop :=
  ∀ v ∈ units, v.name ∈ Exec.throughNames name → v.name ≠ Session.mainModule → v.code ≠ []

/-! ### A tree with a package that has code and one that has none -/

def codeDir : FileNode :=
  .dir [("__init__.py", .file (Bytes.ofString "x = 1\n") false), ("b.py", .file (Bytes.ofString "y = 2\n") false)]

def plainDir : FileNode := .dir [("a.py", .file (Bytes.ofString "z = 3\n") false)]

def packages : FileNode := .dir [("n", plainDir), ("p", codeDir)]

def packageFiles : FileSystem := ⟨.dir [("src", packages)], []⟩

/-- The code of one assignment. -/
def assignment (file name : String) (n : Int64) : Code :=
  ⟨file, [.int n], [name], [⟨.loadConst 0, 1⟩, ⟨.storeName 0, 1⟩]⟩

def packageUnits : List Table.CompiledUnit :=
  [⟨"n", [], true⟩, ⟨"n.a", (assignment "src/n/a.py" "z" 3).toBytes, false⟩,
    ⟨"p", (assignment "src/p/__init__.py" "x" 1).toBytes, true⟩,
    ⟨"p.b", (assignment "src/p/b.py" "y" 2).toBytes, false⟩]

def packageTable : Table.BuiltTable :=
  ⟨.packageFlag, packageUnits.map Table.CompiledUnit.record ++ [.sentinel],
    ["_FM_n", "_FM_n__a", "_FM_p", "_FM_p__b"]⟩

theorem look_packages : packageFiles.look ⟨"src"⟩ = .ok packages := by cbv

theorem walk_packages : packages.walk =
    [([], packages), (["n"], plainDir), (["n", "a.py"], .file (Bytes.ofString "z = 3\n") false), (["p"], codeDir),
      (["p", "__init__.py"], .file (Bytes.ofString "x = 1\n") false),
      (["p", "b.py"], .file (Bytes.ofString "y = 2\n") false)] := by
  simp [packages, plainDir, codeDir, FileNode.walk, FileNode.walkAll]

theorem visible_packages : visible packages = packages.walk := by cbv

theorem finding_plainDir : finding [] ["n"] plainDir = .namespacePackage ["n"] := by
  have hdir : plainDir.isDir = true := rfl
  have hsource : holdsSource plainDir = true := by cbv
  rw [finding_dir hdir, hsource]
  rfl

theorem isDir_packages (name : String) (hname : isIdentifier name = true)
    (hsize : name.utf8ByteSize ≤ FileSystem.maxNameSize)
    (hpath : FileSystem.checkPath (Path.join ⟨"src"⟩ (slashed [name])) = .ok ()) {n : FileNode}
    (hn : packages.at? [name] = some n) (hdir : n.isDir = true) :
    packageFiles.isDir ([name].foldl Path.join ⟨"src"⟩) = true := by
  have hlook : packageFiles.look (Path.join ⟨"src"⟩ (slashed [name])) = .ok n :=
    FileSystem.look_of_at? look_packages (by simp) (by simpa using fileName_of_isIdentifier hname)
      (by simpa using hsize) hpath hn
  rw [slashed_singleton] at hlook
  exact FileSystem.isDir_of_look hlook hdir

theorem collect_packages : collect packageFiles (Session.host 0) 0 true ⟨⟨"src"⟩, none⟩ = .ok packageUnits := by
  have ha : SourceAt ["n", "a.py"] ["n", "a"] false := .module ["n"] "a" (by decide)
  have hinit : SourceAt ["p", "__init__.py"] ["p"] true := .package ["p"]
  have hb : SourceAt ["p", "b.py"] ["p", "b"] false := .module ["p"] "b" (by decide)
  have hjoinA : Path.join ⟨"src"⟩ (slashed ["n", "a.py"]) = ⟨"src/n/a.py"⟩ := by cbv
  have hjoinInit : Path.join ⟨"src"⟩ (slashed ["p", "__init__.py"]) = ⟨"src/p/__init__.py"⟩ := by cbv
  have hjoinB : Path.join ⟨"src"⟩ (slashed ["p", "b.py"]) = ⟨"src/p/b.py"⟩ := by cbv
  refine (collect_eq_ok look_packages).mpr ⟨rfl, [[], [_], [_], [], [_], [_]], ?_, rfl⟩
  rw [visible_packages, walk_packages]
  refine .cons ?root (.cons ?plainDir (.cons ?a (.cons ?codeDir (.cons ?init (.cons ?b .nil)))))
  case root =>
    exact unitsAt_dir (FileSystem.isDir_of_look look_packages rfl) rfl
  case plainDir =>
    have hlisted := isDir_packages "n" (by decide) (by decide) (by cbv) rfl rfl
    exact (Becomes.namespacePackage rfl hlisted finding_plainDir).unitsAt_eq
  case codeDir =>
    have hlisted := isDir_packages "p" (by decide) (by decide) (by cbv) rfl rfl
    have hdir : codeDir.isDir = true := rfl
    have hfinding : finding [] ["p"] codeDir = .nothing := (finding_dir hdir).trans rfl
    exact unitsAt_dir hlisted hfinding
  case a =>
    exact unitsAt_source look_packages ha (by simp) (by decide) (by decide) (by rw [hjoinA]; cbv) rfl
      (Utf8.decode?_ofString _) (by rw [hjoinA]; rfl)
  case init =>
    exact unitsAt_source look_packages hinit (by simp) (by decide) (by decide) (by rw [hjoinInit]; cbv) rfl
      (Utf8.decode?_ofString _) (by rw [hjoinInit]; rfl)
  case b =>
    exact unitsAt_source look_packages hb (by simp) (by decide) (by decide) (by rw [hjoinB]; cbv) rfl
      (Utf8.decode?_ofString _) (by rw [hjoinB]; rfl)

theorem build_packages : Table.Builder.build ⟨.packageFlag, packageUnits, []⟩ = .ok packageTable := by cbv

theorem sourceTree_packages : SourceTree packages where
  shown names n h := by
    have hall : ∀ e ∈ packages.walk, e.1.any isHidden = false := by
      rw [walk_packages]
      simp [isHidden]
    exact hall _ h
  source names n h hfile := by
    have hall : ∀ e ∈ packages.walk, e.2.isDir = false → e.1.getLast?.any (·.endsWith sourceSuffix) = true := by
      rw [walk_packages]
      have ha : "a.py".endsWith sourceSuffix = true := endsWith_sourceSuffix "a"
      have hinit : "__init__.py".endsWith sourceSuffix = true := endsWith_packageFile
      have hb : "b.py".endsWith sourceSuffix = true := endsWith_sourceSuffix "b"
      simp [packages, plainDir, codeDir, FileNode.isDir, ha, hinit, hb]
    exact hall _ h hfile

/-- A program that is known to assign a constant is quiet. -/
theorem quiet_assignment {source name : String} {ts : List Token} {line line' : Nat} {c : Const}
    (hts : tokenize source = .ok ts) (hp : Program.ofTokens ts = .ok [.assign line name (.const line' c)])
    {text : String} {ts' : List Token} {p : Program} (htext : Utf8.decode? (Bytes.ofString source) = some text)
    (hts' : tokenize text = .ok ts') (hp' : Program.ofTokens ts' = .ok p) : p.Quiet := by
  rw [Utf8.decode?_ofString] at htext
  obtain rfl := Option.some.inj htext
  obtain rfl := Except.ok.inj (hts.symm.trans hts')
  obtain rfl := Except.ok.inj (hp.symm.trans hp')
  intro s hs
  obtain rfl := List.mem_singleton.mp hs
  exact ⟨nofun, nofun⟩

theorem content_packages {names : List String} {content : Bytes} {executable : Bool}
    (h : (names, .file content executable) ∈ packages.walk) :
    ∃ source ∈ ["x = 1\n", "y = 2\n", "z = 3\n"], content = Bytes.ofString source := by
  rw [walk_packages] at h
  simp only [List.mem_cons, Prod.mk.injEq, packages, plainDir, codeDir, reduceCtorEq, and_false, false_or,
    FileNode.file.injEq, List.not_mem_nil, or_false] at h
  rcases h with ⟨-, h, -⟩ | ⟨-, h, -⟩ | ⟨-, h, -⟩ <;> exact ⟨_, by simp, h⟩

theorem quietTree_packages : QuietTree packages where
  toSourceTree := sourceTree_packages
  small names content executable h := by
    obtain ⟨source, hsource, rfl⟩ := content_packages h
    have hall : ∀ source ∈ ["x = 1\n", "y = 2\n", "z = 3\n"], source.utf8ByteSize + 1 < 2 ^ 32 := by decide
    rw [Code.length_ofString]
    exact hall source hsource
  quiet names content executable text ts p h := by
    obtain ⟨source, hsource, rfl⟩ := content_packages h
    simp only [List.mem_cons, List.not_mem_nil, or_false] at hsource
    rcases hsource with rfl | rfl | rfl
    · exact quiet_assignment rfl rfl
    · exact quiet_assignment rfl rfl
    · exact quiet_assignment rfl rfl

/-! ### Imports from both -/

/-- A fresh host with the table of a tree imports a name of the tree exactly if a fresh host with its directory does
and no package on the way is without code. Then both load the same modules, which differ at most in their files. -/
theorem import_frozen_iff (hroot : fs.look root = .ok tree) (htree : QuietTree tree)
    (hcollect : collect fs (Session.host fuel₀) optimize true ⟨root, none⟩ = .ok units)
    (hbuild : Table.Builder.build ⟨.packageFlag, units, []⟩ = .ok table) (hu : u ∈ units) {flags : Flags}
    (hoptimize : 0 < optimize ↔ 0 < flags.optimize) {source file : String} {code : Bytes}
    (hsource : Session.Imports source u.name) (hfile : TextFits file) (hsmall : source.utf8ByteSize + 1 < 2 ^ 32)
    (hcode : (Session.host fuel₀).compile source file flags.optimize = .ok code) (magic : Bytes) (argv : List String)
    (fuel : Nat) (channels : Channels) :
    let frozen := (Session.host fuel).runMain code file (surroundings fs table.view [] magic argv flags) {} channels
    let direct := (Session.host fuel).runMain code file (surroundings fs {} [root] magic argv flags) {} channels
    (frozen.1 = .ok () ↔ direct.1 = .ok () ∧ Coded units u.name) ∧
      (Coded units u.name →
        frozen.1 = direct.1 ∧ frozen.2.1.withoutFiles = direct.2.1.withoutFiles ∧ frozen.2.2 = direct.2.2) := by
  intro frozen direct
  obtain ⟨line, hrun⟩ := Session.runMain_import hsource hfile hsmall hcode
  have hhost : ∀ env, (Session.host fuel).runMain code file env {} channels =
      ((Session.runMain env fuel code file { channels }).1, (Session.runMain env fuel code file { channels }).2,
        (Session.runMain env fuel code file { channels }).2.channels) := fun _ => rfl
  have hagree : Coded units u.name →
      frozen.1 = direct.1 ∧ frozen.2.1.withoutFiles = direct.2.1.withoutFiles := by
    intro hcoded
    simp only [frozen, direct, hhost, hrun]
    have hargv : (surroundings fs table.view [] magic argv flags).argv =
        (surroundings fs {} [root] magic argv flags).argv := rfl
    have hstart : Machine.Alike [Session.mainModule] (Machine.enter Session.mainModule file { channels })
        (Machine.enter Session.mainModule file { channels }) := ⟨rfl, rfl⟩
    refine Exec.run_import_alike hargv file (fun p hp => ?_) fuel hstart
    obtain ⟨v, hv, rfl⟩ := exists_unit_of_throughNames hroot hcollect hu hp
    by_cases hmain : v.name = Session.mainModule
    · exact .inl (List.mem_singleton.mpr hmain)
    · exact .inr (sameCode_of_unit hroot htree hcollect hbuild hv (hcoded v hv hp hmain) magic argv hoptimize)
  have hcoded : frozen.1 = .ok () → Coded units u.name := by
    intro hok v hv hp hmain
    simp only [frozen, hhost, hrun] at hok
    obtain ⟨rest, x, himports⟩ := Exec.importAll_of_run (Prod.ext hok rfl)
    have hfound := Exec.importAll_eq_ok (fun p hp found c hfind hc => by
      obtain ⟨w, hw, rfl⟩ := exists_unit_of_throughNames hroot hcollect hu hp
      exact (quiet_of_frozen hroot htree hcollect hbuild hw magic argv hoptimize hfind hc).2) himports v.name hp
    rcases hfound with hmem | ⟨found, c, hfind, hc⟩
    · exact absurd (List.mem_singleton.mp hmem) hmain
    · exact (quiet_of_frozen hroot htree hcollect hbuild hv magic argv hoptimize hfind hc).1
  refine ⟨⟨fun hok => ?_, fun ⟨hok, h⟩ => (hagree h).1.trans hok⟩, fun h => ⟨(hagree h).1, (hagree h).2, ?_⟩⟩
  · exact ⟨(hagree (hcoded hok)).1.symm.trans hok, hcoded hok⟩
  · have hsame := congrArg Machine.channels (hagree h).2
    exact hsame

/-- The module in the package with code is imported from both. -/
theorem import_frozen_iff_package :
    let code := Code.toBytes ⟨"main.py", [], ["p.b"], [⟨.importName 0, 1⟩]⟩
    let host := Session.host 9
    let frozen := host.runMain code "main.py" (surroundings packageFiles packageTable.view [] [] [] {}) {} {}
    let direct := host.runMain code "main.py" (surroundings packageFiles {} [⟨"src"⟩] [] [] {}) {} {}
    collect packageFiles (Session.host 0) 0 true ⟨⟨"src"⟩, none⟩ = .ok packageUnits ∧
      Table.Builder.build ⟨.packageFlag, packageUnits, []⟩ = .ok packageTable ∧
      frozen.1 = .ok () ∧ direct.1 = .ok () ∧ frozen.2.1.withoutFiles = direct.2.1.withoutFiles := by
  intro code host frozen direct
  have hu : (⟨"p.b", (assignment "src/p/b.py" "y" 2).toBytes, false⟩ : Table.CompiledUnit) ∈ packageUnits := by
    simp [packageUnits]
  have hagree := @import_frozen_iff _ _ _ _ _ _ 0 0 look_packages quietTree_packages collect_packages build_packages hu
    {} (by decide) "import p.b\n" "main.py" code ⟨_, 1, rfl, rfl⟩ (by decide) (by decide) rfl [] [] 9 {}
  have hfrozen : frozen.1 = .ok () := by cbv
  obtain ⟨hdirect, hcoded⟩ := hagree.1.mp hfrozen
  exact ⟨collect_packages, build_packages, hfrozen, hdirect, (hagree.2 hcoded).2.1⟩

/-! ### Packages without code -/

/-- A package without code has no code in the table and the empty code in the directory, unless it is called
`__init__`. -/
theorem codeOf_namespacePackage (hroot : fs.look root = .ok tree) (htree : SourceTree tree)
    (hcollect : collect fs (Session.host fuel₀) optimize true ⟨root, none⟩ = .ok units)
    (hbuild : Table.Builder.build ⟨.packageFlag, units, []⟩ = .ok table) {names : List String} {n : FileNode}
    (hn : (names, n) ∈ visible tree) (hfinding : finding [] names n = .namespacePackage names)
    (hlast : names.getLast? ≠ some "__init__") (hlook : fs.look (root.join (slashed names)) = .ok n) (magic : Bytes)
    (argv : List String) (flags : Flags) :
    let frozen := surroundings fs table.view [] magic argv flags
    let direct := surroundings fs {} [root] magic argv flags
    (∃ found, frozen.find (dotted names) = .ok found ∧ Exec.codeOf frozen found = .error Code.badData) ∧
      ∃ found file, direct.find (dotted names) = .ok found ∧ Exec.codeOf direct found = .ok ⟨file, [], [], []⟩ := by
  obtain ⟨u, hu, hbecomes⟩ := exists_unit hroot hcollect hn (.namespacePackage rfl hfinding)
  have hpackage := FileSystem.isDir_of_look hlook (finding_eq_namespacePackage hfinding).1
  have hdirect := find_namespacePackage hroot findsSources_default htree.sourcesOnly hcollect
    (Table.nodup_of_build hbuild) hn hbecomes hfinding hlast hpackage magic
  cases hbecomes with
  | source hsource => rw [hfinding] at hsource; cases hsource
  | namespacePackage _ _ hcomponents =>
      obtain rfl := Finding.namespacePackage.inj (hfinding.symm.trans hcomponents)
      exact ⟨⟨_, find_frozen hbuild hu magic argv flags, rfl⟩, _, _, hdirect, rfl⟩

/-- A package without code at the top of a tree is imported from the directory, and cannot be from the table. -/
theorem import_namespacePackage (hroot : fs.look root = .ok tree) (htree : SourceTree tree)
    (hcollect : collect fs (Session.host fuel₀) optimize true ⟨root, none⟩ = .ok units)
    (hbuild : Table.Builder.build ⟨.packageFlag, units, []⟩ = .ok table) {name : String} {n : FileNode}
    (hn : ([name], n) ∈ visible tree) (hfinding : finding [] [name] n = .namespacePackage [name])
    (hinit : name ≠ "__init__") (hmain : name ≠ Session.mainModule) (hlook : fs.look (root.join name) = .ok n)
    {flags : Flags} {source file : String} {code : Bytes} (hsource : Session.Imports source name)
    (hfile : TextFits file) (hsmall : source.utf8ByteSize + 1 < 2 ^ 32)
    (hcode : (Session.host fuel₀).compile source file flags.optimize = .ok code) (magic : Bytes) (argv : List String)
    (fuel : Nat) (channels : Channels) :
    let host := Session.host (fuel + 2)
    let frozen := host.runMain code file (surroundings fs table.view [] magic argv flags) {} channels
    let direct := host.runMain code file (surroundings fs {} [root] magic argv flags) {} channels
    (∃ line, frozen.1 = .error (.raised { Code.badData with trace := [⟨file, line, "<module>"⟩] })) ∧
      direct.1 = .ok () := by
  intro host frozen direct
  obtain ⟨line, hrun⟩ := Session.runMain_import hsource hfile hsmall hcode
  obtain ⟨-, -, -, hids, -⟩ := finding_eq_namespacePackage hfinding
  have hname : isIdentifier name = true := hids name List.mem_cons_self
  obtain ⟨⟨found, hfind, hbad⟩, found', origin, hfind', hgood⟩ :=
    codeOf_namespacePackage hroot htree hcollect hbuild hn hfinding (by simpa using hinit)
      (by rwa [slashed_singleton]) magic argv flags
  rw [Exec.dotted_singleton] at hfind hfind'
  have hloaded : (Machine.enter Session.mainModule file { channels }).loaded = [Session.mainModule] := rfl
  have hfresh : (Machine.enter Session.mainModule file { channels }).modules.has name = false :=
    Machine.has_eq_false_iff.mpr (by rw [hloaded]; simpa using hmain)
  refine ⟨⟨line, ?_⟩, ?_⟩
  · have himport := @Exec.importOne_of_badCode (surroundings fs table.view [] magic argv flags)
      (Exec.nested (surroundings fs table.view [] magic argv flags) (fuel + 1)) _ _ _ _ hfresh hfind hbad
    simp only [frozen, host, Session.host, Session.lend, hrun, Exec.run_import, Exec.importAll_throughNames hname,
      himport]
    rfl
  · have hnested : ∀ m, Exec.nested (surroundings fs {} [root] magic argv flags) (fuel + 1) ⟨origin, [], [], []⟩
        name m = (.ok (), m) := fun _ => Exec.run_of_none rfl
    have himport := @Exec.importOne_of_code (surroundings fs {} [root] magic argv flags)
      (Exec.nested (surroundings fs {} [root] magic argv flags) (fuel + 1)) _ _ _ _ hfresh hfind' hgood
    rw [Exec.announce_identifier hname, Action.bind_of_ok (Action.onFail_of_ok (hnested _))] at himport
    simp only [direct, host, Session.host, Session.lend, hrun, Exec.run_import, Exec.importAll_throughNames hname,
      himport]
    rfl

/-- The package without code is imported from the directory, and is bad data in the table. -/
theorem import_namespacePackage_plainDir :
    let code := Code.toBytes ⟨"main.py", [], ["n"], [⟨.importName 0, 1⟩]⟩
    let host := Session.host 9
    let frozen := host.runMain code "main.py" (surroundings packageFiles packageTable.view [] [] [] {}) {} {}
    let direct := host.runMain code "main.py" (surroundings packageFiles {} [⟨"src"⟩] [] [] {}) {} {}
    collect packageFiles (Session.host 0) 0 true ⟨⟨"src"⟩, none⟩ = .ok packageUnits ∧
      Table.Builder.build ⟨.packageFlag, packageUnits, []⟩ = .ok packageTable ∧
      frozen.1 = .error (.raised ⟨"ValueError", "bad marshal data", [⟨"main.py", 1, "<module>"⟩]⟩) ∧
      direct.1 = .ok () := by
  intro code host frozen direct
  have hn : (["n"], plainDir) ∈ visible packages := by
    rw [visible_packages, walk_packages]
    simp
  have hlook : packageFiles.look (Path.join ⟨"src"⟩ (slashed ["n"])) = .ok plainDir :=
    FileSystem.look_of_at? look_packages (by simp) (by simpa using fileName_of_isIdentifier (by decide)) (by decide)
      (by cbv) rfl
  rw [slashed_singleton] at hlook
  have himport := @import_namespacePackage _ _ _ _ _ 0 0 look_packages sourceTree_packages collect_packages
    build_packages "n" _ hn finding_plainDir (by decide) (by decide) hlook {} "import n\n" "main.py" code
    ⟨_, 1, rfl, rfl⟩ (by decide) (by decide) rfl [] [] 7 {}
  exact ⟨collect_packages, build_packages, by cbv, himport.2⟩

end Freeze

end Launcher
