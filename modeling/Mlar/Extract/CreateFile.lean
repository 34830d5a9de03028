import Mlar.Commands.Extract
import Mlar.Fs.Plain

/-!
# `create_file` below an output directory with no link

When no link stands at or below the output directory, `create_file` does what its
destination calls for and nothing else: `createFile_plain` says it returns `Ok(None)` exactly
when the entry has no destination strictly below the output directory (`destination`), and
that otherwise it is `FileSystem.createAt` on that destination, failing with the error of
`create_dir_all` or `File::create`.

The link matters. `create_file` canonicalizes only the directory that will contain the
destination, after creating it, and then creates the destination with `File::create`, which
follows a symbolic link in the last component; the `FileWriter`s of the linear path follow it
again on every write. A link already present below the output root therefore redirects both
the directories `create_dir_all` makes and the file that is truncated and written
(`extract_escapes_through_links`).
-/

namespace Mlar

open Path

/-! ## Absolute paths of locations -/

theorem Location.toPath_eq_foldl (loc : Location) : loc.toPath = loc.foldl push ['/'] := by
  simp only [Location.toPath, render, List.foldl_cons, List.foldl_map]
  rfl

theorem Location.toPath_append (loc names : Location) :
    (loc ++ names).toPath = names.foldl push loc.toPath := by
  rw [toPath_eq_foldl, toPath_eq_foldl, List.foldl_append]

theorem Location.components_toPath {loc : Location} (hnames : ∀ name ∈ loc, IsNormal name) :
    components loc.toPath = .rootDir :: loc.map .normal :=
  components_render_absolute hnames

/-- The absolute path of a location below the root ends in its last name. -/
theorem Location.ending_toPath {loc : Location} (hnames : ∀ name ∈ loc, IsNormal name)
    (hne : loc ≠ []) : ending loc.toPath = .name := by
  obtain ⟨dir, name, rfl⟩ := (List.eq_nil_or_concat loc).resolve_left hne
  rw [List.concat_eq_append, toPath_append, List.foldl_cons, List.foldl_nil]
  exact ending_push _ (hnames name (by simp))

/-- The absolute path of a location passes the kernel's check of how a path ends when the root
is a directory: it ends in a name, or is `/`. -/
theorem FileSystem.checkEnding_toPath {fs : FileSystem} (hroot : fs [] = some .dir)
    (cwd : Location) {loc : Location} (hnames : ∀ name ∈ loc, IsNormal name) :
    fs.checkEnding cwd loc.toPath = .ok () := by
  by_cases hne : loc = []
  · subst hne
    have hslash : ending (Location.toPath []) = .slash := rfl
    have hcomps : components (Location.toPath []) = [.rootDir] := rfl
    simp [checkEnding, hslash, hcomps, dirAt, stat, resolvePath, resolve, lookupStep, hroot]
  · simp [checkEnding, Location.ending_toPath hnames hne]

/-- `File::create` on a path that ends in a name is `openCreate` on its components. -/
theorem FileSystem.createPath_of_name {fs : FileSystem} {cwd : Location} {path : List Char}
    (hname : ending path = .name) : fs.createPath cwd path = fs.openCreate cwd (components path) := by
  simp [createPath, hname]

theorem Location.parent_toPath {loc : Location} (hnames : ∀ name ∈ loc, IsNormal name) :
    parent loc.toPath = if loc = [] then none else some (Location.toPath loc.dropLast) := by
  unfold parent
  rw [components_toPath hnames]
  rcases List.eq_nil_or_concat loc with rfl | ⟨dir, name, rfl⟩
  · rfl
  · rw [List.concat_eq_append, List.map_append, List.map_singleton, ← List.cons_append,
      List.getLast?_concat, List.dropLast_concat, List.dropLast_concat]
    simp [Location.toPath]

theorem Location.startsWith_toPath {loc base : Location} (hnames : ∀ name ∈ loc, IsNormal name)
    (hbase : base <+: loc) : startsWith loc.toPath base.toPath = true := by
  unfold startsWith
  rw [components_toPath hnames, components_toPath fun name h => hnames name (hbase.subset h),
    List.isPrefixOf_iff_prefix]
  exact List.cons_prefix_cons.2 ⟨rfl, hbase.map _⟩

/-- A directory does not start with the path of any of its entries. -/
theorem Location.startsWith_dropLast {loc : Location} (hnames : ∀ name ∈ loc, IsNormal name)
    (hne : loc ≠ []) : startsWith (Location.toPath loc.dropLast) loc.toPath = false := by
  unfold startsWith
  rw [components_toPath hnames,
    components_toPath fun name h => hnames name (loc.dropLast_prefix.subset h), Bool.eq_false_iff]
  intro hpre
  have hlen := (List.isPrefixOf_iff_prefix.1 hpre).length_le
  have hpos := List.length_pos.2 hne
  simp at hlen
  omega

/-! ## The destination of an entry -/

/-- The normal components of an entry name, in order. -/
def entryNames (fname : String) : List (List Char) :=
  (components fname.data).filterMap Component.normalName?

theorem entryNames_normal (fname : String) : ∀ name ∈ entryNames fname, IsNormal name := by
  intro name hname
  obtain ⟨comp, hcomp, hnormal⟩ := List.mem_filterMap.1 hname
  cases comp <;> simp [Component.normalName?] at hnormal
  subst hnormal
  exact isNormal_of_mem_components hcomp

/-- Where `create_file` puts an entry below the output directory `root`, when it accepts
the entry: a name with a `..` component, and a name with no normal component, which would
land on the output directory itself, have no destination. -/
def destination (root : Location) (fname : String) : Option Location :=
  if .parentDir ∈ components fname.data then none
  else if entryNames fname = [] then none
  else some (root ++ entryNames fname)

theorem getExtractedPath_toPath (root : Location) (fname : String) :
    getExtractedPath root.toPath fname =
      if .parentDir ∈ components fname.data then none
      else some (Location.toPath (root ++ entryNames fname)) := by
  unfold getExtractedPath
  rw [foldlM_extractStep, Location.toPath_append]
  rfl

/-! ## The steps of `create_file` -/

section Plain

variable {os : Os}

/-- The first step of `create_file` below a plain output directory: nothing to do when the
directory exists; otherwise fail on a regular file above it, or make the missing
directories. -/
theorem createContainingDirectory_plain (htree : os.fs.Tree) {dir : Location}
    (hnames : ∀ name ∈ dir, IsNormal name) (hlinks : os.fs.NoLinksOn dir) (outputDir : List Char) :
    createContainingDirectory outputDir dir.toPath os =
      if os.fs dir = none then
        if os.fs.FileAbove dir then
          .error (.error (.ioError .notADirectory))
            { os with stderr := os.stderr ++ [.createPathFailed outputDir .notADirectory] }
        else .ok () { os with fs := os.fs.ensureDirs dir }
      else .ok () os := by
  have hexists := os.fs.pathExists_absolute htree os.cwd hlinks
  have hall := os.fs.createDirAll_absolute htree os.cwd hnames hlinks
  unfold createContainingDirectory
  simp only [pathExists, FileSystem.existsPath, createDirAll,
    os.fs.checkEnding_toPath htree.root os.cwd hnames,
    Location.components_toPath hnames, Io.bind_apply, Io.read_apply, hexists, Io.change_apply, hall]
  cases hnode : os.fs dir with
  | none =>
      by_cases hfile : os.fs.FileAbove dir <;>
        simp [Io.change_apply, hall, hfile, FileSystem.isFileAt, hnode, Except.map]
  | some node => simp

/-- The last step of `create_file`, once the containing directory exists below the output
directory: `File::create` on the destination, which is `createAt` there. -/
theorem createInOutputDir_plain (htree : os.fs.Tree) {root dir : Location} {name : List Char}
    (hnames : ∀ n ∈ dir ++ [name], IsNormal n) (hlinks : os.fs.NoLinksOn (dir ++ [name]))
    (hroot : root <+: dir) (hdir : os.fs dir ≠ none) (fname : String) :
    createInOutputDir root.toPath fname (Location.toPath (dir ++ [name])) dir.toPath os =
      match os.fs.createAt (dir ++ [name]) with
      | .error err =>
          .error (.error (.ioError err)) { os with stderr := os.stderr ++ [.unableToCreate fname err] }
      | .ok fs' => .ok (some (dir ++ [name], Location.toPath (dir ++ [name]))) { os with fs := fs' } := by
  have hdirNames : ∀ n ∈ dir, IsNormal n := fun n h => hnames n (by simp [h])
  have hdirLinks : os.fs.NoLinksOn dir := fun pre hpre =>
    hlinks pre (hpre.trans (List.prefix_append _ _))
  have hcanon := os.fs.canonicalize_absolute htree os.cwd hdirLinks hdir
  have hcreate := os.fs.openCreate_absolute htree os.cwd hlinks
  unfold createInOutputDir
  simp only [canonicalize, FileSystem.canonicalizePath, fileCreate,
    os.fs.checkEnding_toPath htree.root os.cwd hdirNames,
    FileSystem.createPath_of_name (Location.ending_toPath hnames (by simp)), Except.bind,
    Location.components_toPath hdirNames,
    Location.components_toPath hnames, Io.bind_apply, Io.read_apply, hcanon, Except.map,
    Location.startsWith_toPath hdirNames hroot, if_true, Io.change_apply, hcreate]
  unfold FileSystem.createAt
  rw [List.dropLast_concat, FileSystem.ensureDirs_of_exists htree hdir]
  by_cases hfile : os.fs.FileAbove (dir ++ [name])
  · simp [hfile]
  have hdirs : os.fs.DirsAbove (dir ++ [name]) := by
    rw [FileSystem.fileAbove_concat, not_or] at hfile
    have hlink := hdirLinks dir List.prefix_rfl
    refine FileSystem.dirsAbove_concat.2 ⟨htree.dirsAbove hdir, ?_⟩
    obtain ⟨node, hnode⟩ := Option.ne_none_iff_exists'.1 hdir
    cases node with
    | dir => exact hnode
    | file data => simp [FileSystem.isFileAt, hnode] at hfile
    | symlink target => exact absurd hnode (hlink target)
  by_cases hisDir : os.fs (dir ++ [name]) = some .dir <;> simp [hfile, hdirs, hisDir]

/-- A name with no normal component leads to the output directory itself, and the
directory that holds it is not below it: `create_file` skips the entry, with a line that
names it. -/
theorem createFile_no_names {root : Location} (hplain : os.fs.PlainRoot root) {fname : String}
    (hdots : Component.parentDir ∉ components fname.data) (hempty : entryNames fname = []) :
    ∃ line : Diagnostic, line.fileName = some fname ∧
      createFile root.toPath fname os = .ok none { os with stderr := os.stderr ++ [line] } := by
  have hroot := hplain.names
  have htree := hplain.tree
  unfold createFile
  rw [getExtractedPath_toPath, if_neg hdots, hempty, List.append_nil]
  dsimp only
  rw [Location.parent_toPath hroot]
  by_cases hnil : root = []
  · subst hnil
    exact ⟨.noParent fname (Location.toPath []), rfl, rfl⟩
  -- a name with no normal component lands on the output directory, which is outside
  have hparent : os.fs root.dropLast = some .dir := by
    obtain ⟨init, last, hinit⟩ := List.eq_nil_or_concat root |>.resolve_left hnil
    rw [List.concat_eq_append] at hinit
    subst hinit
    simpa using htree.parent init last hplain.present
  have hparentNames : ∀ n ∈ root.dropLast, IsNormal n := fun n h =>
    hroot n (root.dropLast_prefix.subset h)
  have hparentLinks : os.fs.NoLinksOn root.dropLast := fun pre hpre =>
    hplain.noLinksOn [] pre (by simpa using hpre.trans root.dropLast_prefix)
  refine ⟨.outsideOutputDir fname (Location.toPath root.dropLast), rfl, ?_⟩
  simp only [hnil, if_false, Io.bind_apply,
    createContainingDirectory_plain htree hparentNames hparentLinks, hparent]
  simp [createInOutputDir, canonicalize, FileSystem.canonicalizePath,
    os.fs.checkEnding_toPath htree.root os.cwd hparentNames,
    Except.bind,
    Location.components_toPath hparentNames,
    os.fs.canonicalize_absolute htree os.cwd hparentLinks (by simp [hparent]), Except.map,
    Location.startsWith_dropLast hroot hnil, -List.map_dropLast]

/-- A name whose normal components are `init ++ [last]` has its destination below the output
directory, and `create_file` is `createAt` there; it prints a line only when it fails. -/
theorem createFile_below {root : Location} (hplain : os.fs.PlainRoot root) {fname : String}
    (hdots : Component.parentDir ∉ components fname.data) {init : Location} {last : List Char}
    (hinit : entryNames fname = init ++ [last]) :
    ∃ lines, createFile root.toPath fname os =
      match os.fs.createAt (root ++ init ++ [last]) with
      | .error err => .error (.error (.ioError err)) { os with stderr := os.stderr ++ lines }
      | .ok fs' =>
          .ok (some (root ++ init ++ [last], Location.toPath (root ++ init ++ [last])))
            { os with fs := fs' } := by
  have hroot := hplain.names
  have htree := hplain.tree
  unfold createFile
  rw [getExtractedPath_toPath, if_neg hdots]
  dsimp only
  have hnamesAll : ∀ n ∈ root ++ entryNames fname, IsNormal n := fun n h => by
    rcases List.mem_append.1 h with h | h
    · exact hroot n h
    · exact entryNames_normal fname n h
  rw [hinit, ← List.append_assoc] at hnamesAll ⊢
  have hlinks : os.fs.NoLinksOn (root ++ init ++ [last]) := by
    simpa using hplain.noLinksOn (init ++ [last])
  have hdirNames : ∀ n ∈ root ++ init, IsNormal n := fun n h =>
    hnamesAll n (List.mem_append_left _ h)
  have hdirLinks : os.fs.NoLinksOn (root ++ init) := fun pre hpre =>
    hlinks pre (hpre.trans (List.prefix_append _ _))
  have hbelow : root <+: root ++ init := List.prefix_append _ _
  simp only [if_false, Location.parent_toPath hnamesAll, List.append_eq_nil, List.cons_ne_nil,
    and_false, List.dropLast_concat, Io.bind_apply,
    createContainingDirectory_plain htree hdirNames hdirLinks]
  by_cases hnone : os.fs (root ++ init) = none
  · by_cases hfile : os.fs.FileAbove (root ++ init)
    · refine ⟨[.createPathFailed root.toPath .notADirectory], ?_⟩
      have habove : os.fs.FileAbove (root ++ init ++ [last]) :=
        FileSystem.fileAbove_concat.2 (.inl hfile)
      simp only [hnone, hfile, if_true, FileSystem.createAt, habove]
    · -- the missing directories are made first, then the destination file
      have htree' := FileSystem.tree_ensureDirs htree hdirNames hdirLinks hfile
      have hself : os.fs.ensureDirs (root ++ init) (root ++ init) = some .dir :=
        FileSystem.ensureDirs_self (by simp [FileSystem.isFileAt, hnone])
          (hdirLinks _ List.prefix_rfl)
      have hcreate := @createInOutputDir_plain { os with fs := os.fs.ensureDirs (root ++ init) }
        htree' _ _ _ hnamesAll ((FileSystem.extends_ensureDirs _).noLinksOn hlinks) hbelow
        (by simp [hself]) fname
      have hat : os.fs.createAt (root ++ init ++ [last]) = _ :=
        FileSystem.createAt_of_missing htree hnone hfile
      rw [FileSystem.createAt_ensureDirs htree hdirNames hdirLinks hnone hfile, hat] at hcreate
      refine ⟨[], ?_⟩
      simp only [hnone, hfile, if_true, if_false]
      rw [hcreate, hat]
  · have hcreate := createInOutputDir_plain htree hnamesAll hlinks hbelow hnone fname
    cases hat : os.fs.createAt (root ++ init ++ [last]) with
    | error err =>
        refine ⟨[.unableToCreate fname err], ?_⟩
        simp only [hnone, if_false]
        rw [hcreate, hat]
    | ok fs' =>
        refine ⟨[], ?_⟩
        simp only [hnone, if_false]
        rw [hcreate, hat]

/-- `createFile_plain`: below a plain output directory, `create_file` returns `Ok(None)`
exactly for the entries with no destination; on the others it is `createAt` on the
destination, failing with the error of `create_dir_all` or `File::create`, or making the
missing directories and an empty destination file, which it returns. Only the lines it
prints are left open. -/
theorem createFile_plain {root : Location} (hplain : os.fs.PlainRoot root) (fname : String) :
    ∃ lines, createFile root.toPath fname os =
      match destination root fname with
      | none => .ok none { os with stderr := os.stderr ++ lines }
      | some dest =>
          match os.fs.createAt dest with
          | .error err => .error (.error (.ioError err)) { os with stderr := os.stderr ++ lines }
          | .ok fs' =>
              .ok (some (dest, dest.toPath)) { os with fs := fs', stderr := os.stderr ++ lines } := by
  unfold destination
  by_cases hdots : Component.parentDir ∈ components fname.data
  · refine ⟨[.containsParentDir fname], ?_⟩
    simp [createFile, getExtractedPath_toPath, hdots]
  rw [if_neg hdots]
  rcases List.eq_nil_or_concat (entryNames fname) with hempty | ⟨init, last, hinit⟩
  · rw [if_pos hempty]
    obtain ⟨line, -, hskip⟩ := createFile_no_names hplain hdots hempty
    exact ⟨[line], hskip⟩
  · rw [List.concat_eq_append] at hinit
    rw [if_neg (by simp [hinit]), hinit, ← List.append_assoc]
    obtain ⟨lines, hbelow⟩ := createFile_below hplain hdots hinit
    dsimp only
    cases hat : os.fs.createAt (root ++ init ++ [last]) <;> rw [hat] at hbelow
    · exact ⟨lines, hbelow⟩
    · exact ⟨[], by simpa using hbelow⟩

/-- What `create_file` prints when it does not fail: a line that names the entry when the
entry has no destination, and nothing when it creates the destination. -/
theorem createFile_reports {root : Location} (hplain : os.fs.PlainRoot root) (fname : String) :
    match destination root fname with
    | none => ∃ line : Diagnostic, line.fileName = some fname ∧
        createFile root.toPath fname os = .ok none { os with stderr := os.stderr ++ [line] }
    | some dest => ∀ {fs'}, os.fs.createAt dest = .ok fs' →
        createFile root.toPath fname os = .ok (some (dest, dest.toPath)) { os with fs := fs' } := by
  unfold destination
  by_cases hdots : Component.parentDir ∈ components fname.data
  · rw [if_pos hdots]
    exact ⟨.containsParentDir fname, rfl, by simp [createFile, getExtractedPath_toPath, hdots]⟩
  rw [if_neg hdots]
  rcases List.eq_nil_or_concat (entryNames fname) with hempty | ⟨init, last, hinit⟩
  · rw [if_pos hempty]
    exact createFile_no_names hplain hdots hempty
  · rw [List.concat_eq_append] at hinit
    rw [if_neg (by simp [hinit]), hinit, ← List.append_assoc]
    intro fs' hat
    obtain ⟨lines, hbelow⟩ := createFile_below hplain hdots hinit
    rw [hbelow, hat]

end Plain

/-! ## What the containment check misses -/

/-- The output root `/o` holds two links: `/o/l → /s`, where `/s` is a file outside the
root, and `/o/d → /t`, where `/t` is a directory outside the root. -/
def linkedTree : FileSystem := fun loc =>
  if loc = [] ∨ loc = [['o']] ∨ loc = [['t']] then some .dir
  else if loc = [['o'], ['l']] then some (.symlink ['/', 's'])
  else if loc = [['o'], ['d']] then some (.symlink ['/', 't'])
  else if loc = [['s']] then some (.file [1])
  else none

/-- An archive with the entries `l` and `d/e/f`, each one byte long. -/
def linkedArchive : ArchiveReader where
  listFiles := .ok ["l", "d/e/f"]
  getFile name := .ok (some ⟨name, 1, ⟨[7], none⟩⟩)
  layout := [.content "l" [7], .content "d/e/f" [7]]

/-- Extracting into `/o` rewrites the file `/s` through the link `/o/l`, and creates the
directory `/t/e` through the link `/o/d` before rejecting `d/e/f`: both lie outside the
output root, and the command still succeeds. -/
theorem extract_escapes_through_links :
    linkedTree [['s']] = some (.file [1]) ∧ linkedTree [['t'], ['e']] = none ∧
    ∃ os', extract .anything ['/', 'o'] false linkedArchive ⟨linkedTree, [], [], [], []⟩ =
        .ok () os' ∧
      os'.fs [['s']] = some (.file [7]) ∧ os'.fs [['t'], ['e']] = some .dir :=
  ⟨by decide, by decide, _, rfl, by decide, by decide⟩

end Mlar
