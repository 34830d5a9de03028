import Mlar.Extract.Effect

/-!
# The whole `extract` command

Before it extracts anything, `extract` makes the output directory when `Path::exists` finds
nothing there, and canonicalizes it. `prepareAt` states this on the filesystem, and
`extractAt` is then the whole command: `prepareAt`, the listing of the archive, and
`extractEntriesAt` below the canonical output directory.

`PlainOutputDir` is the start the command is studied from: a tree, a working directory, and
no link at or below wherever the output directory leads. From there `prepareAt` either fails
and changes nothing or yields a plain output directory (`PlainOutputDir.prepareAt`), so the
command computes `extractAt` (`extract_plain`), and a whole run ends in a state of the same
kind (`PlainOutputDir.extractAt`). Every step only grows the tree below the output
directory, so the command changes nothing outside it (`extract_confined`): with no link
below the output directory, the containment that `create_file` checks holds.
-/

namespace Mlar

open Path

/-- The start of `extract` on the filesystem: make the output directory when nothing is
there, then canonicalize it, the path read as the kernel reads it. -/
def prepareAt (fs : FileSystem) (cwd : Location) (outputDir : List Char) :
    Except ErrorKind Location × FileSystem :=
  match if fs.existsPath cwd outputDir then .ok fs else fs.mkdirPath cwd outputDir with
  | .error err => (.error err, fs)
  | .ok made => (made.canonicalizePath cwd outputDir, made)

/-- What `extract` does to the tree, run from the working directory `cwd`. -/
def extractAt (matcher : ExtractFileNameMatcher) (outputDir : List Char) (mla : ArchiveReader)
    (cwd : Location) (fs : FileSystem) : Except Error Unit × FileSystem :=
  match prepareAt fs cwd outputDir with
  | (.error err, made) => (.error (.ioError err), made)
  | (.ok root, made) =>
      match mla.listFiles with
      | .error err => (.error err, made)
      | .ok files => extractEntriesAt matcher root mla (sortNames files) made

/-- The start of `extract` computes `prepareAt`, and returns the path of the canonical
output directory; it prints a line only when it fails. -/
theorem prepareOutputDir_eq (outputDir : List Char) (os : Os) :
    ∃ lines, prepareOutputDir outputDir os =
      match prepareAt os.fs os.cwd outputDir with
      | (.error err, made) =>
          .error (.error (.ioError err)) { os with fs := made, stderr := os.stderr ++ lines }
      | (.ok root, made) => .ok root.toPath { os with fs := made } := by
  unfold prepareOutputDir prepareAt
  simp only [pathExists, Io.bind_apply, Io.read_apply]
  cases os.fs.existsPath os.cwd outputDir
  · simp only [createDir, Bool.false_eq_true, if_false, Io.bind_apply, Io.change_apply]
    cases hmk : os.fs.mkdirPath os.cwd outputDir with
    | error err => exact ⟨[.createOutputDirFailed outputDir err], by simp [hmk, Except.map]⟩
    | ok made =>
        cases hcan : made.canonicalizePath os.cwd outputDir with
        | error err =>
            exact ⟨[.canonicalizeOutputDirFailed outputDir err],
              by simp [hmk, hcan, Except.map, canonicalize]⟩
        | ok root => exact ⟨[], by simp [hmk, hcan, Except.map, canonicalize]⟩
  · cases hcan : os.fs.canonicalizePath os.cwd outputDir with
    | error err =>
        exact ⟨[.canonicalizeOutputDirFailed outputDir err], by simp [hcan, Except.map, canonicalize]⟩
    | ok root => exact ⟨[], by simp [hcan, Except.map, canonicalize]⟩

/-! ## What the start can do -/

section Prepare

variable {fs : FileSystem} {cwd : Location} {outputDir : List Char}

theorem pathExists_iff {comps : List Component} :
    fs.pathExists cwd comps = true ↔
      ∃ root, fs.resolvePath cwd comps true = .ok root ∧ fs root ≠ none := by
  unfold FileSystem.pathExists FileSystem.stat
  cases fs.resolvePath cwd comps true with
  | error err => simp
  | ok root => cases hnode : fs root <;> simp [hnode]

/-- An output directory that passes the check of its ending and leads to a node is only
canonicalized. -/
theorem prepareAt_of_exists {root : Location}
    (hres : fs.resolvePath cwd (components outputDir) true = .ok root)
    (hcheck : fs.checkEnding cwd outputDir = .ok ()) (hroot : fs root ≠ none) :
    prepareAt fs cwd outputDir = (.ok root, fs) := by
  obtain ⟨node, hnode⟩ := Option.ne_none_iff_exists'.1 hroot
  simp [prepareAt, FileSystem.existsPath, hcheck, pathExists_iff.2 ⟨root, hres, hroot⟩,
    FileSystem.canonicalizePath, FileSystem.canonicalize, hres, hnode, Except.bind]

/-- A start that finds the output directory leaves a path that passes the check of its
ending. -/
theorem prepareAt_checkEnding {root : Location} {made : FileSystem}
    (hprep : prepareAt fs cwd outputDir = (.ok root, made)) :
    made.checkEnding cwd outputDir = .ok () := by
  cases hcheck : made.checkEnding cwd outputDir with
  | ok u => rfl
  | error err =>
      unfold prepareAt at hprep
      split at hprep
      · cases hprep
      · obtain ⟨hcan, rfl⟩ := Prod.mk.inj hprep
        simp [FileSystem.canonicalizePath, hcheck, Except.bind] at hcan

theorem mkdir_eq_ok {comps : List Component} {made : FileSystem}
    (hmk : fs.mkdir cwd comps = .ok made) :
    ∃ root, fs.resolvePath cwd comps false = .ok root ∧ fs root = none ∧
      made = fs.set root .dir := by
  unfold FileSystem.mkdir at hmk
  split at hmk
  · cases hmk
  · rename_i root hres
    split at hmk
    · cases hmk
    · cases hmk
      exact ⟨root, hres, ‹_›, rfl⟩

/-- `fs::create_dir` on a raw path that succeeds is `mkdir` on its components. -/
theorem mkdirPath_eq_ok {made : FileSystem} (hmk : fs.mkdirPath cwd outputDir = .ok made) :
    fs.mkdir cwd (components outputDir) = .ok made := by
  unfold FileSystem.mkdirPath at hmk
  split_ifs at hmk
  · cases hdir : fs.dirAt cwd (components outputDir) <;> simp [hdir, Except.bind] at hmk
  · exact hmk

/-- What the start of `extract` can do: fail and change nothing, find the output directory,
or make it where nothing was; the directory made is then where the path leads. -/
theorem prepareAt_cases (fs : FileSystem) (cwd : Location) (outputDir : List Char) :
    (∃ err, prepareAt fs cwd outputDir = (.error err, fs)) ∨
    (∃ root, fs.resolvePath cwd (components outputDir) true = .ok root ∧ fs root ≠ none ∧
      prepareAt fs cwd outputDir = (.ok root, fs)) ∨
    (∃ root, fs.resolvePath cwd (components outputDir) false = .ok root ∧ fs root = none ∧
      (fs.set root .dir).resolvePath cwd (components outputDir) true = .ok root ∧
      prepareAt fs cwd outputDir = (.ok root, fs.set root .dir)) := by
  cases hexists : fs.existsPath cwd outputDir
  · cases hmk : fs.mkdirPath cwd outputDir with
    | error err => exact .inl ⟨err, by simp [prepareAt, hexists, hmk]⟩
    | ok made =>
        obtain ⟨root, hres, hnone, rfl⟩ := mkdir_eq_ok (mkdirPath_eq_ok hmk)
        have hmade : (fs.set root .dir).resolvePath cwd (components outputDir) true = .ok root :=
          resolvePath_follow_last (resolvePath_mono (FileSystem.extends_set_dir hnone) hres)
            (by simp)
        have hcheck : (fs.set root .dir).checkEnding cwd outputDir = .ok () := by
          unfold FileSystem.checkEnding
          split_ifs
          · rfl
          · simp [FileSystem.dirAt, FileSystem.stat, hmade]
        refine .inr (.inr ⟨root, hres, hnone, hmade, ?_⟩)
        simp [prepareAt, hexists, hmk, FileSystem.canonicalizePath, hcheck,
          FileSystem.canonicalize, hmade, Except.bind]
  · unfold FileSystem.existsPath at hexists
    cases hcheck : fs.checkEnding cwd outputDir with
    | error err => simp [hcheck] at hexists
    | ok u =>
        simp only [hcheck] at hexists
        obtain ⟨root, hres, hroot⟩ := pathExists_iff.1 hexists
        exact .inr (.inl ⟨root, hres, hroot, prepareAt_of_exists hres hcheck hroot⟩)

end Prepare

/-! ## A start with no link below the output directory -/

/-- The start `extract` is studied from: the filesystem is a tree, the working directory is
a directory, and no link stands at or below wherever the output directory leads. -/
structure FileSystem.PlainOutputDir (fs : FileSystem) (cwd : Location) (outputDir : List Char) :
    Prop where
  tree : fs.Tree
  workDir : fs cwd = some .dir
  noLinks : ∀ root, fs.resolvePath cwd (components outputDir) true = .ok root →
    fs.NoLinksBelow root

section PlainOutputDir

variable {fs : FileSystem} {cwd : Location} {outputDir : List Char}

/-- A plain output directory, reached by the path, in a filesystem whose working directory is
a directory, is a start of the same kind. -/
theorem FileSystem.PlainRoot.plainOutputDir {root : Location} (hplain : fs.PlainRoot root)
    (hres : fs.resolvePath cwd (components outputDir) true = .ok root)
    (hcwd : fs cwd = some .dir) : fs.PlainOutputDir cwd outputDir :=
  ⟨hplain.tree, hcwd, fun root' hres' => by
    rw [hres] at hres'
    cases hres'
    exact hplain.noLinks⟩

/-- From a plain start, the start of `extract` fails and changes nothing, or finds where the
output directory leads and grows the tree below it, making it if needed. -/
theorem FileSystem.PlainOutputDir.prepareAt (hstart : fs.PlainOutputDir cwd outputDir) :
    (∃ err, Mlar.prepareAt fs cwd outputDir = (.error err, fs)) ∨
    ∃ root made, Mlar.prepareAt fs cwd outputDir = (.ok root, made) ∧
      fs.resolvePath cwd (components outputDir) true = .ok root ∧ Grows root fs made := by
  rcases prepareAt_cases fs cwd outputDir with
    hfail | ⟨root, hres, hroot, hprep⟩ | ⟨root, hres, hnone, -, hprep⟩
  · exact .inl hfail
  · exact .inr ⟨root, fs, hprep, hres, .refl ⟨hstart.tree, hroot, hstart.noLinks root hres⟩⟩
  · have hfollow := resolvePath_follow_last hres (by simp [hnone])
    refine .inr ⟨root, _, hprep, hfollow, ⟨⟨?_, by simp, fun loc target => ?_⟩,
      FileSystem.extends_set_dir hnone,
      fun loc hloc => FileSystem.set_ne _ _ (fun h => hloc (h ▸ List.prefix_refl _))⟩⟩
    · rcases resolvePath_landing hstart.tree hstart.workDir (plainNames_components outputDir)
        hres with hdir | ⟨dir, name, rfl, hdir, hname⟩
      · simp [hdir] at hnone
      · exact hstart.tree.set_new hdir hnone hname .dir
    · have hbelow := hstart.noLinks root hfollow loc target
      rw [FileSystem.set_apply]
      split_ifs
      · simp
      · exact hbelow

/-- From a plain start, a whole run of `extract` ends in a plain start. -/
theorem FileSystem.PlainOutputDir.extractAt (hstart : fs.PlainOutputDir cwd outputDir)
    (matcher : ExtractFileNameMatcher) (mla : ArchiveReader) :
    (Mlar.extractAt matcher outputDir mla cwd fs).2.PlainOutputDir cwd outputDir := by
  unfold Mlar.extractAt
  rcases hstart.prepareAt with ⟨err, hprep⟩ | ⟨root, made, hprep, hres, hgrow⟩ <;>
    rw [hprep]
  · exact hstart
  · dsimp only
    have hmade := resolvePath_mono hgrow.grows hres
    cases mla.listFiles with
    | error err => exact hgrow.plain.plainOutputDir hmade (hgrow.grows.dir _ hstart.workDir)
    | ok files =>
        obtain ⟨hplain', hext', -⟩ := hgrow.plain.extractEntriesAt matcher mla (sortNames files)
        exact hplain'.plainOutputDir (resolvePath_mono hext' hmade)
          ((hgrow.grows.trans hext').dir _ hstart.workDir)

/-- From a plain start, a whole run of `extract` changes nothing outside where the output
directory leads. -/
theorem FileSystem.PlainOutputDir.extractAt_below (hstart : fs.PlainOutputDir cwd outputDir)
    (matcher : ExtractFileNameMatcher) (mla : ArchiveReader) {loc : Location}
    (hchanged : (Mlar.extractAt matcher outputDir mla cwd fs).2 loc ≠ fs loc) :
    ∃ root, fs.resolvePath cwd (components outputDir) true = .ok root ∧ root <+: loc := by
  unfold Mlar.extractAt at hchanged
  rcases hstart.prepareAt with ⟨err, hprep⟩ | ⟨root, made, hprep, hres, hgrow⟩ <;>
    rw [hprep] at hchanged
  · exact absurd rfl hchanged
  · refine ⟨root, hres, by_contra fun hloc => hchanged ?_⟩
    dsimp only
    cases mla.listFiles with
    | error err => exact hgrow.below loc hloc
    | ok files =>
        exact (hgrow.trans (hgrow.plain.extractEntriesAt matcher mla (sortNames files))).below
          loc hloc

end PlainOutputDir

/-! ## The command computes the model -/

/-- `extract_plain`: from a plain start, `extract` computes `extractAt`. -/
theorem extract_plain {os : Os} {outputDir : List Char}
    (hstart : os.fs.PlainOutputDir os.cwd outputDir) (matcher : ExtractFileNameMatcher)
    (verbose : Bool) (mla : ArchiveReader) :
    Io.Yields (extract matcher outputDir verbose mla os) os.cwd
      (extractAt matcher outputDir mla os.cwd os.fs) := by
  obtain ⟨lines, hprep⟩ := prepareOutputDir_eq outputDir os
  unfold extract extractAt
  rw [Io.bind_apply, hprep]
  rcases hstart.prepareAt with ⟨err, hres⟩ | ⟨root, made, hres, -, hgrow⟩ <;>
    rw [hres] <;> dsimp only
  · exact ⟨{ os with stderr := os.stderr ++ lines }, rfl, rfl, rfl⟩
  · cases mla.listFiles with
    | error err => exact ⟨{ os with fs := made }, rfl, rfl, rfl⟩
    | ok files =>
        exact extractEntries_plain (show ({ os with fs := made } : Os).fs.PlainRoot root
          from hgrow.plain) matcher verbose mla (sortNames files)

/-- `extract_confined`: with no link at or below where the output directory leads,
`extract` changes nothing outside it, whether it succeeds or fails. -/
theorem extract_confined {os : Os} {outputDir : List Char}
    (hstart : os.fs.PlainOutputDir os.cwd outputDir) (matcher : ExtractFileNameMatcher)
    (verbose : Bool) (mla : ArchiveReader) {loc : Location}
    (hchanged : (Io.final (extract matcher outputDir verbose mla os)).fs loc ≠ os.fs loc) :
    ∃ root, os.fs.resolvePath os.cwd (components outputDir) true = .ok root ∧ root <+: loc := by
  rw [(extract_plain hstart matcher verbose mla).final.1] at hchanged
  exact hstart.extractAt_below matcher mla hchanged

/-- The empty output directory `/o` has no link below it. -/
theorem emptyRootTree_plainOutputDir : emptyRootTree.PlainOutputDir [] ['/', 'o'] :=
  emptyRootTree_plainRoot.plainOutputDir rfl rfl

/-- Extracting into the empty output directory `/o` the archive whose two entries share
`/o/a` changes `/o/a`, which lies below `/o`. -/
theorem extract_confined_shared :
    emptyRootTree.PlainOutputDir [] ['/', 'o'] ∧
    (Io.final (extract .anything ['/', 'o'] false sharedArchive
        ⟨emptyRootTree, [], [], [], []⟩)).fs [['o'], ['a']] ≠ emptyRootTree [['o'], ['a']] ∧
    ∃ root, emptyRootTree.resolvePath [] (components ['/', 'o']) true = .ok root ∧
      root <+: [['o'], ['a']] := by
  have hchanged : (Io.final (extract .anything ['/', 'o'] false sharedArchive
      ⟨emptyRootTree, [], [], [], []⟩)).fs [['o'], ['a']] ≠ emptyRootTree [['o'], ['a']] := by
    decide
  exact ⟨emptyRootTree_plainOutputDir, hchanged, @extract_confined ⟨emptyRootTree, [], [], [], []⟩
    _ emptyRootTree_plainOutputDir .anything false sharedArchive _ hchanged⟩

end Mlar
