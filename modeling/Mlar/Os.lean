import Mlar.Archive.Reader
import Mlar.Fs.Calls

/-!
# The process state and the `std` calls of the commands

A command of `mlar` runs in `Io`: it reads and changes the filesystem seen from the working
directory, prints on standard output and standard error, and may stop early with an error
returned through `?` or with a panic. The `std` functions below are the filesystem calls of
`Mlar.Fs.Calls` on the components of their `Path` argument, with what the kernel asks of a
path that ends in `/` or `/.`; the ones that can fail return the `io::Result` for the caller
to handle, as the source does with `map_err(..)?`.
-/

namespace Mlar

open Path

/-- What ends a command early: an error returned through `?`, or a panic. `panicWith message
err` is a panic whose message is `message`, then `: ` and the text the library gives `err`. -/
inductive Abort where
  | error (err : Error)
  | panic (message : String)
  | panicWith (message : String) (err : Error)
  deriving DecidableEq, Repr

/-- `glob::PatternError`: where a glob pattern is invalid, and why. -/
structure PatternError where
  pos : Nat
  msg : String
  deriving DecidableEq, Repr

/-- The lines the commands print on standard error, one constructor per `eprintln!`, each
with the values the message shows. -/
inductive Diagnostic where
  /-- From `get_extracted_path`: skipping a file because it contains `..`. -/
  | containsParentDir (fileName : String)
  /-- From `create_file`: skipping a file because its path has no parent. -/
  | noParent (fileName : String) (path : List Char)
  /-- From `create_file`: creating the directories of an entry failed. -/
  | createPathFailed (outputDir : List Char) (err : ErrorKind)
  /-- From `create_file`: canonicalizing the containing directory failed. -/
  | canonicalizePathFailed (dir : List Char) (err : ErrorKind)
  /-- From `create_file`: skipping a file whose directory is outside the output directory. -/
  | outsideOutputDir (fileName : String) (dir : List Char)
  /-- From `create_file`: creating the destination file failed. -/
  | unableToCreate (fileName : String) (err : ErrorKind)
  /-- From `extract`: creating the output directory failed. -/
  | createOutputDirFailed (outputDir : List Char) (err : ErrorKind)
  /-- From `extract`: canonicalizing the output directory failed. -/
  | canonicalizeOutputDirFailed (outputDir : List Char) (err : ErrorKind)
  /-- From `extract` and `to_tar`: looking an entry up failed. -/
  | lookupFailed (fileName : String) (err : Error)
  /-- From `extract`, `cat` and `to_tar`: an indexed entry is not in the archive. -/
  | subfileNotFound (fileName : String)
  /-- From `extract`: copying the bytes of an entry failed. -/
  | unableToExtract (fileName : String) (err : Error)
  /-- From `convert`: the name of the entry about to be converted. -/
  | converting (fileName : String)
  /-- From `convert`: looking an entry up failed. -/
  | addingFailed (fileName : String) (err : Error)
  /-- From `convert`: an indexed entry is not in the archive. -/
  | unableToFound (fileName : String)
  /-- From `create`: the name of the file about to be added. -/
  | adding (fileName : String)
  /-- From `cat`: a glob pattern that does not compile. -/
  | invalidGlobPattern (pattern : String) (err : PatternError)
  /-- From `ExtractFileNameMatcher::from_matches`: a glob pattern of `extract` that does not
  compile. -/
  | invalidFilterPattern (pattern : String) (err : PatternError)
  /-- From `cat`: looking an entry up failed. -/
  | lookupFileFailed (fileName : String) (err : Error)
  /-- From `cat`: a name given on the command line is not in the archive. -/
  | fileNotFound (fileName : String)
  /-- From `config_from_matches`: `public_keys` is ignored, as the `encrypt` layer is not
  enabled. -/
  | publicKeysIgnored
  /-- From `config_from_matches`: `compression_level` is ignored, as the `compress` layer is not
  enabled. -/
  | compressionLevelIgnored
  /-- From `to_tar`: adding an entry to the tarball failed. -/
  | unableToAddSubfile (fileName : String) (err : Error)
  /-- From `repair`: the conversion reached the end of the original archive data. -/
  | wholeArchiveRecovered
  /-- From `repair`: the conversion ended with another status. -/
  | conversionEndsWith (status : FailSafeReadError)
  deriving DecidableEq, Repr

/-- The entry name a line of standard error shows, if it shows one. -/
def Diagnostic.fileName : Diagnostic → Option String
  | .containsParentDir fileName | .noParent fileName _ | .outsideOutputDir fileName _
  | .unableToCreate fileName _ | .lookupFailed fileName _ | .subfileNotFound fileName
  | .unableToExtract fileName _ | .converting fileName | .addingFailed fileName _
  | .unableToFound fileName | .adding fileName | .lookupFileFailed fileName _
  | .fileNotFound fileName | .unableToAddSubfile fileName _ => some fileName
  | .createPathFailed _ _ | .canonicalizePathFailed _ _ | .createOutputDirFailed _ _
  | .canonicalizeOutputDirFailed _ _ | .invalidGlobPattern _ _ | .invalidFilterPattern _ _
  | .publicKeysIgnored | .compressionLevelIgnored | .wholeArchiveRecovered
  | .conversionEndsWith _ => none

/-- The state a command runs in: the filesystem, the working directory, what has been
printed on standard output and standard error, and the calls made so far on the
`ArchiveWriter` the command writes to. -/
structure Os where
  fs : FileSystem
  cwd : Location
  stdout : List String
  stderr : List Diagnostic
  written : List WriterCall

/-- A step of a command: it may change the state, and returns a value or stops early. -/
abbrev Io := EStateM Abort Os

namespace Io

variable {α β : Type}

@[simp]
theorem bind_apply (x : Io α) (f : α → Io β) (os : Os) :
    (x >>= f) os = match x os with
      | .ok value os' => f value os'
      | .error abort os' => .error abort os' := by
  show EStateM.bind x f os = _
  unfold EStateM.bind
  cases x os <;> rfl

theorem bind_ok {x : Io α} (f : α → Io β) {os os' : Os} {value : α}
    (hx : x os = .ok value os') : (x >>= f) os = f value os' := by
  simp [hx]

theorem bind_error {x : Io α} (f : α → Io β) {os os' : Os} {abort : Abort}
    (hx : x os = .error abort os') : (x >>= f) os = .error abort os' := by
  simp [hx]

@[simp]
theorem map_apply (f : α → β) (x : Io α) (os : Os) :
    (f <$> x) os = match x os with
      | .ok value os' => .ok (f value) os'
      | .error abort os' => .error abort os' := by
  show EStateM.map f x os = _
  unfold EStateM.map
  cases x os <;> rfl

@[simp]
theorem pure_apply (value : α) (os : Os) : (pure value : Io α) os = .ok value os := rfl

@[simp]
theorem throw_apply (abort : Abort) (os : Os) : (throw abort : Io α) os = .error abort os := rfl

/-- `eprintln!`. -/
def eprintln (line : Diagnostic) : Io Unit :=
  fun os => .ok () { os with stderr := os.stderr ++ [line] }

/-- `println!`. -/
def println (line : String) : Io Unit :=
  fun os => .ok () { os with stdout := os.stdout ++ [line] }

/-- Return an error from the command, as `?` does on `Err`. -/
def fail (err : Error) : Io α :=
  throw (.error err)

/-- Run a filesystem call that only reads. -/
def read (call : FileSystem → Location → α) : Io α :=
  fun os => .ok (call os.fs os.cwd) os

/-- Run a filesystem call that may change the filesystem or fail. -/
def change (call : FileSystem → Location → Except ErrorKind (α × FileSystem)) :
    Io (Except ErrorKind α) :=
  fun os =>
    match call os.fs os.cwd with
    | .ok (value, fs) => .ok (.ok value) { os with fs := fs }
    | .error err => .ok (.error err) os

@[simp]
theorem eprintln_apply (line : Diagnostic) (os : Os) :
    eprintln line os = .ok () { os with stderr := os.stderr ++ [line] } := rfl

@[simp]
theorem println_apply (line : String) (os : Os) :
    println line os = .ok () { os with stdout := os.stdout ++ [line] } := rfl

@[simp]
theorem fail_apply (err : Error) (os : Os) : (fail err : Io α) os = .error (.error err) os := rfl

@[simp]
theorem read_apply (call : FileSystem → Location → α) (os : Os) :
    read call os = .ok (call os.fs os.cwd) os := rfl

theorem change_apply (call : FileSystem → Location → Except ErrorKind (α × FileSystem))
    (os : Os) : change call os = match call os.fs os.cwd with
      | .ok (value, fs) => .ok (.ok value) { os with fs := fs }
      | .error err => .ok (.error err) os := rfl

/-- A filesystem call only changes the filesystem, and never stops the run. -/
theorem change_ok (call : FileSystem → Location → Except ErrorKind (α × FileSystem)) (os : Os) :
    ∃ result fs', change call os = .ok result { os with fs := fs' } := by
  rw [change_apply]
  split
  · exact ⟨_, _, rfl⟩
  · exact ⟨_, os.fs, rfl⟩

/-- What a run returned: its value, or what stopped it. -/
def outcome {α : Type} : EStateM.Result Abort Os α → Except Abort α
  | .ok value _ => .ok value
  | .error abort _ => .error abort

/-- The state a run left. -/
def final {α : Type} : EStateM.Result Abort Os α → Os
  | .ok _ os => os
  | .error _ os => os

/-- `run` ends as `result` says: it returns the value of `result.1` or fails with its error,
and leaves the filesystem `result.2` in the working directory `cwd`; what it printed is
left open. -/
def Yields {α : Type} (run : EStateM.Result Abort Os α) (cwd : Location)
    (result : Except Error α × FileSystem) : Prop :=
  ∃ os', os'.fs = result.2 ∧ os'.cwd = cwd ∧
    run = match result.1 with
      | .ok value => .ok value os'
      | .error err => .error (.error err) os'

variable {α : Type} {run : EStateM.Result Abort Os α} {cwd : Location}
  {result : Except Error α × FileSystem}

theorem Yields.outcome (h : Yields run cwd result) :
    outcome run = result.1.mapError .error := by
  rcases result with ⟨_ | _, _⟩ <;> obtain ⟨os', -, -, rfl⟩ := h <;> rfl

theorem Yields.final (h : Yields run cwd result) :
    (final run).fs = result.2 ∧ (final run).cwd = cwd := by
  rcases result with ⟨_ | _, _⟩ <;> obtain ⟨os', hfs, hcwd, rfl⟩ := h <;> exact ⟨hfs, hcwd⟩

/-- A run that returns computed a result that returns, on the filesystem it left. -/
theorem Yields.of_ok {value : α} {os' : Os} (h : Yields run cwd result)
    (hrun : run = .ok value os') : result = (.ok value, os'.fs) := by
  obtain ⟨os'', hfs, -, hyields⟩ := h
  rcases result with ⟨_ | _, fs⟩ <;> rw [hrun] at hyields <;> cases hyields
  rw [hfs]

/-- The end of a run that returns, or stops with the error it met. -/
def endWith : Option Error → Os → EStateM.Result Abort Os Unit
  | none, os => .ok () os
  | some err, os => .error (.error err) os

end Io

/-! ## Runs that do not read standard error -/

/-- `os` with the lines `pre` printed on standard error before the ones it holds. -/
def Os.prependStderr (pre : List Diagnostic) (os : Os) : Os :=
  { os with stderr := pre ++ os.stderr }

namespace Io

variable {α β : Type}

/-- The end of a run, with `pre` printed on standard error before what the run printed. -/
def prependStderr (pre : List Diagnostic) : EStateM.Result Abort Os α → EStateM.Result Abort Os α
  | .ok value os => .ok value (os.prependStderr pre)
  | .error abort os => .error abort (os.prependStderr pre)

/-- A step that neither reads nor rewrites standard error: started with more lines there, it
does the same, and leaves those lines before the ones it prints. -/
def StderrFrame (x : Io α) : Prop :=
  ∀ pre os, x (os.prependStderr pre) = prependStderr pre (x os)

namespace StderrFrame

theorem pure (value : α) : StderrFrame (Pure.pure value : Io α) := fun _ _ => rfl

theorem fail (err : Error) : StderrFrame (Io.fail err : Io α) := fun _ _ => rfl

theorem println (line : String) : StderrFrame (Io.println line) := fun _ _ => rfl

theorem eprintln (line : Diagnostic) : StderrFrame (Io.eprintln line) := fun pre os => by
  simp [Os.prependStderr, prependStderr]

theorem read (call : FileSystem → Location → α) : StderrFrame (Io.read call) := fun _ _ => rfl

theorem change (call : FileSystem → Location → Except ErrorKind (α × FileSystem)) :
    StderrFrame (Io.change call) := fun pre os => by
  simp only [change_apply, Os.prependStderr]
  split <;> rfl

theorem bind {x : Io α} {f : α → Io β} (hx : StderrFrame x) (hf : ∀ value, StderrFrame (f value)) :
    StderrFrame (x >>= f) := fun pre os => by
  rw [bind_apply, bind_apply, hx]
  cases x os with
  | ok value os' => exact hf value pre os'
  | error abort os' => rfl

theorem ite {c : Prop} [Decidable c] {x y : Io α} (hx : StderrFrame x) (hy : StderrFrame y) :
    StderrFrame (if c then x else y) := by
  split <;> assumption

/-- Lines printed on standard error before a step that does not read them change neither
what it returns nor what it leaves, but for those lines. -/
theorem append_stderr {x : Io α} (hx : StderrFrame x) (os : Os) (lines : List Diagnostic) :
    outcome (x { os with stderr := os.stderr ++ lines }) = outcome (x os) ∧
    ∃ post, (final (x os)).stderr = os.stderr ++ post ∧
      final (x { os with stderr := os.stderr ++ lines }) =
        { final (x os) with stderr := os.stderr ++ lines ++ post } := by
  have hbare : x os = prependStderr os.stderr (x { os with stderr := [] }) := by
    rw [← hx]; simp [Os.prependStderr]
  have hmore : x { os with stderr := os.stderr ++ lines } =
      prependStderr (os.stderr ++ lines) (x { os with stderr := [] }) := by
    rw [← hx]; simp [Os.prependStderr]
  rw [hbare, hmore]
  cases x { os with stderr := [] } <;>
    exact ⟨rfl, _, rfl, by simp [final, prependStderr, Os.prependStderr]⟩

end StderrFrame

end Io

/-! ## What runs emit -/

/-- What two runs emit one after the other, each with the error that ended it, if any: the
second runs only when the first did not fail. -/
def andThen {α : Type} : List α × Option Error → List α × Option Error → List α × Option Error
  | (out, none), (more, failure) => (out ++ more, failure)
  | (out, some err), _ => (out, some err)

theorem andThen_assoc {α : Type} (a b c : List α × Option Error) :
    andThen (andThen a b) c = andThen a (andThen b c) := by
  rcases a with ⟨out, _ | err⟩
  · rcases b with ⟨more, _ | err'⟩ <;> simp [andThen]
  · rfl

theorem nil_andThen {α : Type} (out : List α × Option Error) : andThen ([], none) out = out := by
  rcases out with ⟨more, failure⟩
  rfl

/-! ## The `std` calls -/

/-- `Path::exists`. -/
def pathExists (path : List Char) : Io Bool :=
  Io.read fun fs cwd => fs.existsPath cwd path

/-- `fs::create_dir`. -/
def createDir (path : List Char) : Io (Except ErrorKind Unit) :=
  Io.change fun fs cwd => (fs.mkdirPath cwd path).map fun fs' => ((), fs')

/-- `fs::create_dir_all`, which `create_file` calls on the containing directory it computes:
a path that ends in a name or is `/`, whose components keep all that the kernel reads. -/
def createDirAll (path : List Char) : Io (Except ErrorKind Unit) :=
  Io.change fun fs cwd => (fs.createDirAll cwd (components path)).map fun fs' => ((), fs')

/-- `fs::canonicalize`: the absolute path, free of links, that a path leads to. -/
def canonicalize (path : List Char) : Io (Except ErrorKind (List Char)) :=
  Io.read fun fs cwd => (fs.canonicalizePath cwd path).map Location.toPath

/-- An open file handle: the location of the file it writes to. -/
abbrev File := Location

/-- `File::create`. -/
def fileCreate (path : List Char) : Io (Except ErrorKind File) :=
  Io.change fun fs cwd => fs.createPath cwd path

/-- `File::open`. -/
def fileOpen (path : List Char) : Io (Except ErrorKind File) :=
  Io.read fun fs cwd => fs.openPath cwd path

/-- `Metadata::len` of an open file: the length of a regular file, and for a directory the
size the filesystem reports (`st_size`), which the model does not keep and takes from
`dirSize`. -/
def FileSystem.lengthAt (fs : FileSystem) (dirSize : Location → Nat) (file : File) : Nat :=
  match fs file with
  | some (.file data) => data.length
  | _ => dirSize file

/-- An open file read to its end: the bytes of a regular file; reading a directory fails
with `EISDIR`. -/
def FileSystem.readAt (fs : FileSystem) (file : File) : Stream :=
  match fs file with
  | some (.file data) => ⟨data, none⟩
  | _ => ⟨[], some (.ioError .isADirectory)⟩

/-- `file.metadata()?.len()`, which does not fail on an open file. -/
def fileLength (dirSize : Location → Nat) (file : File) : Io Nat :=
  Io.read fun fs _ => fs.lengthAt dirSize file

/-- An open file as the reader `add_file` consumes. -/
def fileData (file : File) : Io Stream :=
  Io.read fun fs _ => fs.readAt file

/-- `Write::write_all` on an open file. -/
def fileWrite (file : File) (bytes : List UInt8) : Io (Except ErrorKind Unit) :=
  Io.change fun fs _ => (fs.writeAt file bytes).map fun fs' => ((), fs')

/-- `OpenOptions::new().append(true).open(path)?.write(bytes)`. A path that ends as a
directory cannot be opened for writing: `EISDIR` once it leads to a directory. -/
def appendWrite (path : List Char) (bytes : List UInt8) : Io (Except ErrorKind Unit) :=
  Io.change fun fs cwd =>
    if ending path = .name then (fs.appendWrite cwd (components path) bytes).map fun fs' => ((), fs')
    else (fs.checkEnding cwd path).bind fun () => .error .isADirectory

/-- An append only changes the filesystem. -/
theorem appendWrite_ok (path : List Char) (bytes : List UInt8) (os : Os) :
    ∃ result fs', appendWrite path bytes os = .ok result { os with fs := fs' } :=
  Io.change_ok _ os

end Mlar
