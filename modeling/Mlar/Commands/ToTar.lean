import Mlar.Commands.Convert

/-!
# The `to-tar` command

`to_tar` creates the output file, lists the entries of the archive, and for each name, in
index order, looks the entry up and appends it to the tarball with `add_file_to_tar`. A failed
lookup is reported and skipped. The entry gets a header with its size and the read-only mode
`0o444`, and a path made relative the trivial way: `./` in front of an absolute name.

`tar::Builder` is not part of this repository: the model takes its `new` and `append_data` as
parameters, and every result holds for all of them. `add_file_to_tar` panics when
`append_data` fails, with the builder's error after its message. `toTar_appends_found_entries`
gives the whole run: the entries found are appended in index order, or the run panics at the
first entry the builder refuses.
-/

namespace Mlar

open Path

/-- The fields of the header `add_file_to_tar` sets: size, mode and path. -/
structure TarHeader where
  size : Nat
  mode : Nat
  path : String
  deriving DecidableEq, Repr

/-- `Path::is_absolute` on Unix: the path starts at the root. -/
def isAbsolute (path : String) : Bool :=
  path.data.head? = some '/'

/-- The path `add_file_to_tar` gives an entry: `./` in front of an absolute name. -/
def tarPath (filename : String) : String :=
  if isAbsolute filename then "./" ++ filename else filename

/-- The header of an entry: its declared size, mode `0o444`, and its tar path. -/
def tarHeader (subFile : ArchiveFile) : TarHeader :=
  ⟨subFile.size, 0o444, tarPath subFile.filename⟩

/-- The message `add_file_to_tar` panics with, before the text of the builder's error. -/
def addFailure (filename : String) : String :=
  "Error while adding file \"" ++ filename ++ "\" to tarball"

section

variable {B : Type} (appendData : B → TarHeader → Stream → Except Error B)

/-- `add_file_to_tar`, with `appendData` for `Builder::append_data`. -/
def addFileToTar (tarFile : B) (subFile : ArchiveFile) : Io (Except Error B) :=
  match appendData tarFile (tarHeader subFile) subFile.data with
  | .error err => throw (.panicWith (addFailure (tarPath subFile.filename)) err)
  | .ok tarFile' => pure (.ok tarFile')

/-- One iteration of the loop of `to_tar`. -/
def toTarFile (mla : ArchiveReader) (tarFile : B) (fname : String) : Io B :=
  match mla.getFile fname with
  | .error err => do
      Io.eprintln (.lookupFailed fname err)
      pure tarFile
  | .ok none => do
      Io.eprintln (.subfileNotFound fname)
      pure tarFile
  | .ok (some subFile) => do
      match ← addFileToTar appendData tarFile subFile with
      | .error err => do
          Io.eprintln (.unableToAddSubfile fname err)
          pure tarFile
      | .ok tarFile' => pure tarFile'

/-- The loop of `to_tar`, over the names in index order. -/
def toTarFiles (mla : ArchiveReader) : B → List String → Io B
  | tarFile, [] => pure tarFile
  | tarFile, fname :: rest => do
      let tarFile' ← toTarFile appendData mla tarFile fname
      toTarFiles mla tarFile' rest

/-- `to_tar`, from the point where the archive is open, with `new` for `Builder::new`. The
model returns the builder, which holds the tarball written to `output`. -/
def toTar (new : File → B) (mla : ArchiveReader) (output : String) : Io B := do
  match ← fileCreate output.data with
  | .error err => Io.fail (.ioError err)
  | .ok file =>
      match mla.listFiles with
      | .error err => Io.fail err
      | .ok fnames => toTarFiles appendData mla (new file) fnames

/-! ## What the builder is given -/

/-- The entries appended in turn from `tarFile`: the builder at the end, or the first entry the
builder refuses, with its error. -/
def appendAll : B → List ArchiveFile → Except (ArchiveFile × Error) B
  | tarFile, [] => .ok tarFile
  | tarFile, subFile :: rest =>
      match appendData tarFile (tarHeader subFile) subFile.data with
      | .error err => .error (subFile, err)
      | .ok tarFile' => appendAll tarFile' rest

end

/-- The line `to_tar` prints for a name whose lookup finds no entry. -/
def lookupLine (mla : ArchiveReader) (fname : String) : Option Diagnostic :=
  match mla.getFile fname with
  | .error err => some (.lookupFailed fname err)
  | .ok none => some (.subfileNotFound fname)
  | .ok (some _) => none

/-- No path `add_file_to_tar` writes is absolute. -/
theorem tarPath_relative (filename : String) : isAbsolute (tarPath filename) = false := by
  unfold tarPath
  split_ifs with habs
  · rfl
  · simpa using habs

/-! ## One iteration -/

section

variable {B : Type} (appendData : B → TarHeader → Stream → Except Error B)

/-- A name that finds no entry prints its lookup line and leaves the builder as it is. -/
theorem toTarFile_not_found {mla : ArchiveReader} {fname : String}
    (hfound : mla.found fname = none) (tarFile : B) (os : Os) :
    ∃ line, lookupLine mla fname = some line ∧
      toTarFile appendData mla tarFile fname os =
        .ok tarFile { os with stderr := os.stderr ++ [line] } := by
  unfold ArchiveReader.found at hfound
  rcases hget : mla.getFile fname with err | _ | subFile <;>
    simp_all [toTarFile, lookupLine]

/-- A found entry is appended, or the run panics with its path; nothing is printed. -/
theorem toTarFile_found {mla : ArchiveReader} {fname : String} {subFile : ArchiveFile}
    (hfound : mla.found fname = some subFile) (tarFile : B) (os : Os) :
    toTarFile appendData mla tarFile fname os =
      match appendData tarFile (tarHeader subFile) subFile.data with
      | .error err => .error (.panicWith (addFailure (tarPath subFile.filename)) err) os
      | .ok tarFile' => .ok tarFile' os := by
  have hget : mla.getFile fname = .ok (some subFile) := by
    unfold ArchiveReader.found at hfound
    split at hfound <;> simp_all
  cases happend : appendData tarFile (tarHeader subFile) subFile.data <;>
    simp [toTarFile, hget, addFileToTar, happend]

/-! ## The loop -/

/-- The loop appends the entries found, in order, and prints the lookup line of every other
name; at the first entry the builder refuses it panics with that entry's path and the builder's
error, having printed the lookup lines of a prefix of the names. -/
theorem toTarFiles_run (mla : ArchiveReader) (names : List String) (tarFile : B) (os : Os) :
    (∀ tarFile', appendAll appendData tarFile (names.filterMap mla.found) = .ok tarFile' →
      toTarFiles appendData mla tarFile names os =
        .ok tarFile' { os with stderr := os.stderr ++ names.filterMap (lookupLine mla) }) ∧
    (∀ refused err, appendAll appendData tarFile (names.filterMap mla.found) = .error (refused, err) →
      ∃ lines, lines <+: names.filterMap (lookupLine mla) ∧
        toTarFiles appendData mla tarFile names os =
          .error (.panicWith (addFailure (tarPath refused.filename)) err)
            { os with stderr := os.stderr ++ lines }) := by
  induction names generalizing tarFile os with
  | nil => exact ⟨fun _ h => (by cases h; simp [toTarFiles]), fun _ _ h => (by cases h)⟩
  | cons fname rest ih =>
      cases hfound : mla.found fname with
      | none =>
          obtain ⟨line, hline, hstep⟩ := toTarFile_not_found appendData hfound tarFile os
          obtain ⟨hok, herr⟩ := ih tarFile { os with stderr := os.stderr ++ [line] }
          simp only [List.filterMap_cons, hfound, hline] at hok herr ⊢
          refine ⟨fun tarFile' happend => ?_, fun refused err happend => ?_⟩
          · simp [toTarFiles, hstep, hok tarFile' happend]
          · obtain ⟨lines, hinitial, hrun⟩ := herr refused err happend
            exact ⟨line :: lines, List.cons_prefix_cons.2 ⟨rfl, hinitial⟩,
              by simp [toTarFiles, hstep, hrun]⟩
      | some subFile =>
          have hline : lookupLine mla fname = none := by
            unfold ArchiveReader.found at hfound
            unfold lookupLine
            split at hfound <;> simp_all
          have hstep := toTarFile_found appendData hfound tarFile os
          simp only [List.filterMap_cons, hfound, hline, appendAll] at hstep ⊢
          cases happend : appendData tarFile (tarHeader subFile) subFile.data with
          | error err =>
              rw [happend] at hstep
              refine ⟨fun _ h => (by cases h), fun refused err' h => ?_⟩
              cases h
              exact ⟨[], List.nil_prefix, by simp [toTarFiles, hstep]⟩
          | ok tarFile₁ =>
              rw [happend] at hstep
              obtain ⟨hok, herr⟩ := ih tarFile₁ os
              exact ⟨fun tarFile' h => by simp [toTarFiles, hstep, hok tarFile' h],
                fun refused err h => by simpa [toTarFiles, hstep] using herr refused err h⟩

/-! ## The command -/

/-- `to_tar` creates the output file, then lists the archive and runs the loop. -/
theorem toTar_eq (new : File → B) (mla : ArchiveReader) (output : String) (os : Os) :
    toTar appendData new mla output os =
      match os.fs.createPath os.cwd output.data with
      | .error err => .error (.error (.ioError err)) os
      | .ok (file, fs') =>
          match mla.listFiles with
          | .error err => .error (.error err) { os with fs := fs' }
          | .ok fnames => toTarFiles appendData mla (new file) fnames { os with fs := fs' } := by
  rcases hcreate : os.fs.createPath os.cwd output.data with err | ⟨file, fs'⟩ <;>
    rcases hfiles : mla.listFiles with _ | _ <;>
    simp [toTar, fileCreate, Io.change_apply, hcreate, hfiles]

/-- `toTar_appends_found_entries`: once `File::create` has created the output file, `to_tar`
hands the builder the entries found, in index order, each with its declared size, mode `0o444`
and its tar path. If the builder takes them all, the run returns it, having printed one lookup
line for each other name; at the first entry it refuses, the run panics with that entry's path
and the builder's error, having printed the lookup lines of a prefix of the names. -/
theorem toTar_appends_found_entries (new : File → B) {mla : ArchiveReader} {files : List String}
    (hfiles : mla.listFiles = .ok files) (output : String) {os : Os} {file : File}
    {fs' : FileSystem} (hcreate : os.fs.createPath os.cwd output.data = .ok (file, fs')) :
    (∀ tarFile, appendAll appendData (new file) (files.filterMap mla.found) = .ok tarFile →
      toTar appendData new mla output os =
        .ok tarFile { os with fs := fs', stderr := os.stderr ++ files.filterMap (lookupLine mla) }) ∧
    (∀ refused err, appendAll appendData (new file) (files.filterMap mla.found) =
        .error (refused, err) →
      ∃ lines, lines <+: files.filterMap (lookupLine mla) ∧
        toTar appendData new mla output os =
          .error (.panicWith (addFailure (tarPath refused.filename)) err)
            { os with fs := fs', stderr := os.stderr ++ lines }) := by
  simp only [toTar_eq, hcreate, hfiles]
  exact toTarFiles_run appendData mla files (new file) { os with fs := fs' }

end

/-- A builder that appends each entry with its data, and fails with the data's error. -/
def listBuilder (tarFile : List (TarHeader × List UInt8)) (header : TarHeader) (data : Stream) :
    Except Error (List (TarHeader × List UInt8)) :=
  match data.failure with
  | some err => .error err
  | none => .ok (tarFile ++ [(header, data.bytes)])

/-- A filesystem that holds only the root directory. -/
def rootOnlyTree : FileSystem := fun loc => if loc = [] then some .dir else none

/-- An archive indexed `b`, `/abs`, `gone`, where `gone` is not found. -/
def tarArchive : ArchiveReader where
  listFiles := .ok ["b", "/abs", "gone"]
  getFile name :=
    if name = "b" then .ok (some ⟨"b", 1, ⟨[1], none⟩⟩)
    else if name = "/abs" then .ok (some ⟨"/abs", 0, ⟨[], none⟩⟩)
    else .ok none
  layout := []

/-- On `tarArchive`, `to_tar` appends `b` then `.//abs`, in index order and read-only, and
reports `gone`. -/
theorem toTar_appends_found_entries_unsorted :
    tarArchive.listFiles = .ok ["b", "/abs", "gone"] ∧
    rootOnlyTree.createPath [] "t.tar".data =
      .ok (["t.tar".data], rootOnlyTree.set ["t.tar".data] (.file [])) ∧
    toTar listBuilder (fun _ => []) tarArchive "t.tar" ⟨rootOnlyTree, [], [], [], []⟩ =
      .ok [(⟨1, 292, "b"⟩, [1]), (⟨0, 292, ".//abs"⟩, [])]
        ⟨rootOnlyTree.set ["t.tar".data] (.file []), [], [], [.subfileNotFound "gone"], []⟩ := by
  have hfiles : tarArchive.listFiles = .ok ["b", "/abs", "gone"] := rfl
  have hcreate : rootOnlyTree.createPath [] "t.tar".data =
      .ok (["t.tar".data], rootOnlyTree.set ["t.tar".data] (.file [])) := rfl
  exact ⟨hfiles, hcreate, (toTar_appends_found_entries listBuilder (fun _ => []) hfiles "t.tar"
    hcreate).1 [(⟨1, 292, "b"⟩, [1]), (⟨0, 292, ".//abs"⟩, [])] rfl⟩

end Mlar
