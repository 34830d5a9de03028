import Mlar.Extract.Effect

/-!
# What the failure of one entry does

`extract` handles the failures of one entry in two ways, whatever the filesystem holds. On
the filtered path, a selected entry whose lookup fails or finds nothing is reported and
skipped: the loop goes on as it would without that name, and the line that names the entry
is all that differs. A failure to create the containing directory or the destination file,
on either path, or to copy the bytes on the filtered path, is returned through `?` and ends
`extract` with that error at once: on the filtered path the entries before it have been
extracted and the ones after it are never looked at, and on the linear path
`linear_extract` never runs (`extractEntries_entry_failures`).

The skip rests on a frame fact: no step of the filtered loop reads standard error
(`extractFiles_stderrFrame`), so a line printed there changes nothing that follows. The
abort rests on the loops running over `xs ++ ys` as over `xs`, and over `ys` only if that
succeeded.
-/

namespace Mlar

open Path

/-! ## The loops stop at the first failure -/

section Loops

variable (matcher : ExtractFileNameMatcher) (root : Location) (mla : ArchiveReader)

theorem extractFilesAt_append (xs ys : List String) (fs : FileSystem) :
    extractFilesAt matcher root mla (xs ++ ys) fs =
      match extractFilesAt matcher root mla xs fs with
      | (.ok (), fs') => extractFilesAt matcher root mla ys fs'
      | (.error err, fs') => (.error err, fs') := by
  induction xs generalizing fs with
  | nil => rfl
  | cons fname rest ih =>
      simp only [List.cons_append, extractFilesAt]
      rcases extractFileAt matcher root mla fname fs with ⟨err | u, fs'⟩
      · rfl
      · exact ih fs'

theorem extractFilesAt_singleton (fname : String) (fs : FileSystem) :
    extractFilesAt matcher root mla [fname] fs = extractFileAt matcher root mla fname fs := by
  simp only [extractFilesAt]
  rcases extractFileAt matcher root mla fname fs with ⟨err | u, fs'⟩ <;> rfl

/-- An entry that the archive does not have is skipped. -/
theorem extractFileAt_not_found {fname : String} (hfound : mla.found fname = none)
    (fs : FileSystem) : extractFileAt matcher root mla fname fs = (.ok (), fs) := by
  unfold extractFileAt
  split_ifs <;> simp [hfound]

end Loops

/-- On the filtered path, what `extract` does below the output directory is the filtered
loop. -/
theorem extractEntriesAt_filtered {matcher : ExtractFileNameMatcher}
    (hfiltered : matcher ≠ .anything) (root : Location) (mla : ArchiveReader)
    (names : List String) (fs : FileSystem) :
    extractEntriesAt matcher root mla names fs = extractFilesAt matcher root mla names fs := by
  cases matcher with
  | anything => exact absurd rfl hfiltered
  | files names' => rfl
  | globPatterns patterns => rfl

/-- On the filtered path, `extract` runs the filtered loop once the names are sorted. -/
theorem extractEntries_filtered {matcher : ExtractFileNameMatcher}
    (hfiltered : matcher ≠ .anything) (outputDir : List Char) (verbose : Bool)
    (mla : ArchiveReader) (names : List String) :
    extractEntries matcher outputDir verbose mla names =
      extractFiles matcher outputDir verbose mla names := by
  cases matcher with
  | anything => exact absurd rfl hfiltered
  | files names' => rfl
  | globPatterns patterns => rfl

section Io

variable (matcher : ExtractFileNameMatcher) (outputDir : List Char) (verbose : Bool)
  (mla : ArchiveReader)

theorem extractFiles_append (xs ys : List String) (os : Os) :
    extractFiles matcher outputDir verbose mla (xs ++ ys) os =
      match extractFiles matcher outputDir verbose mla xs os with
      | .ok () os' => extractFiles matcher outputDir verbose mla ys os'
      | .error abort os' => .error abort os' := by
  induction xs generalizing os with
  | nil => rfl
  | cons fname rest ih =>
      simp only [List.cons_append, extractFiles, Io.bind_apply]
      rcases extractFile matcher outputDir verbose mla fname os with ⟨⟨⟩, os'⟩ | ⟨abort, os'⟩
      · exact ih os'
      · rfl

theorem exportWriters_append (exportMap : List (String × FileWriter)) (xs ys : List String)
    (os : Os) :
    exportWriters outputDir exportMap (xs ++ ys) os =
      match exportWriters outputDir exportMap xs os with
      | .ok exportMap' os' => exportWriters outputDir exportMap' ys os'
      | .error abort os' => .error abort os' := by
  induction xs generalizing exportMap os with
  | nil => rfl
  | cons fname rest ih =>
      simp only [List.cons_append, exportWriters, Io.bind_apply]
      rcases createFile outputDir fname os with ⟨_ | ⟨_, path⟩, os'⟩ | ⟨abort, os'⟩
      · exact ih _ os'
      · exact ih _ os'
      · rfl

/-- A selected entry that the lookup does not find is skipped with one line that names it. -/
theorem extractFile_lookup_miss {fname : String} (hsel : matcher.matchFileName fname = true)
    (hfound : mla.found fname = none) :
    ∃ line : Diagnostic, line.fileName = some fname ∧ ∀ os,
      extractFile matcher outputDir verbose mla fname os =
        .ok () { os with stderr := os.stderr ++ [line] } := by
  unfold ArchiveReader.found at hfound
  unfold extractFile
  rcases hget : mla.getFile fname with err | _ | subFile
  · exact ⟨.lookupFailed fname err, rfl, fun os => by simp [hsel]⟩
  · exact ⟨.subfileNotFound fname, rfl, fun os => by simp [hsel]⟩
  · simp [hget] at hfound

end Io

/-! ## No step of the filtered loop reads standard error -/

section Frame

theorem createContainingDirectory_stderrFrame (outputDir containingDirectory : List Char) :
    Io.StderrFrame (createContainingDirectory outputDir containingDirectory) := by
  refine .bind (.read _) fun _ => .ite (.pure ()) (.bind (.change _) fun created => ?_)
  rcases created with err | ⟨⟩
  · exact .bind (.eprintln _) fun _ => .fail _
  · exact .pure ()

theorem createInOutputDir_stderrFrame (outputDir : List Char) (fname : String)
    (extractedPath containingDirectory : List Char) :
    Io.StderrFrame (createInOutputDir outputDir fname extractedPath containingDirectory) := by
  refine .bind (.read _) fun canonical => ?_
  rcases canonical with err | canonical
  · exact .bind (.eprintln _) fun _ => .fail _
  refine .ite (.bind (.change _) fun created => ?_) (.bind (.eprintln _) fun _ => .pure _)
  rcases created with err | file
  · exact .bind (.eprintln _) fun _ => .fail _
  · exact .pure _

theorem createFile_stderrFrame (outputDir : List Char) (fname : String) :
    Io.StderrFrame (createFile outputDir fname) := by
  unfold createFile
  split
  · exact .bind (.eprintln _) fun _ => .pure _
  split
  · exact .bind (.eprintln _) fun _ => .pure _
  · exact .bind (createContainingDirectory_stderrFrame _ _) fun _ =>
      createInOutputDir_stderrFrame _ _ _ _

theorem copyToFile_stderrFrame (data : Stream) (file : File) :
    Io.StderrFrame (copyToFile data file) := by
  refine .bind (.change _) fun written => ?_
  rcases written with err | ⟨⟩
  · exact .pure _
  · rcases data.failure with _ | err <;> exact .pure _

variable (matcher : ExtractFileNameMatcher) (outputDir : List Char) (verbose : Bool)
  (mla : ArchiveReader)

theorem extractFile_stderrFrame (fname : String) :
    Io.StderrFrame (extractFile matcher outputDir verbose mla fname) := by
  refine .ite ?_ (.pure ())
  rcases mla.getFile fname with err | _ | subFile
  · exact .eprintln _
  · exact .eprintln _
  refine .bind (createFile_stderrFrame outputDir fname) fun created => ?_
  rcases created with _ | ⟨extractedFile, _⟩
  · exact .pure ()
  dsimp only
  refine .ite (.bind (.println _) fun _ => ?_) (.bind (.pure _) fun _ => ?_) <;>
  · refine .bind (copyToFile_stderrFrame _ _) fun copied => ?_
    rcases copied with err | ⟨⟩
    · exact .bind (.eprintln _) fun _ => .fail _
    · exact .pure ()

/-- `extractFiles_stderrFrame`: the filtered loop does not read standard error. -/
theorem extractFiles_stderrFrame (names : List String) :
    Io.StderrFrame (extractFiles matcher outputDir verbose mla names) := by
  induction names with
  | nil => exact .pure ()
  | cons fname rest ih => exact .bind (extractFile_stderrFrame matcher outputDir verbose mla fname) fun _ => ih

end Frame

/-! ## A failure that is not skipped -/

/-- The output root `/o` holds a regular file `/o/z`. -/
def clashTree : FileSystem := fun loc =>
  if loc = [] ∨ loc = [['o']] then some .dir
  else if loc = [['o'], ['z']] then some (.file [0])
  else none

/-- An archive with the given entries, each the one byte `7`, stored in that order. -/
def byteArchive (names : List String) : ArchiveReader where
  listFiles := .ok names
  getFile name := .ok (some ⟨name, 1, ⟨[7], none⟩⟩)
  layout := names.map fun name => .content name [7]

/-- Extracting `c`, `z/b` and `zz` into `/o`, where `/o/z` is a regular file: the directory
`/o/z` that `z/b` needs cannot be made, and both paths return that error. The filtered loop
has extracted `c` and never reaches `zz`; the linear path leaves `c` empty. Without `z/b`,
both paths succeed and extract `c` and `zz`. -/
theorem extract_fails_on_one_entry :
    (∃ os', extract (.globPatterns [.star]) ['/', 'o'] false (byteArchive ["c", "z/b", "zz"])
        ⟨clashTree, [], [], [], []⟩ = .error (.error (.ioError .notADirectory)) os' ∧
      os'.fs [['o'], ['c']] = some (.file [7]) ∧ os'.fs [['o'], ['z', 'z']] = none) ∧
    (∃ os', extract .anything ['/', 'o'] false (byteArchive ["c", "z/b", "zz"])
        ⟨clashTree, [], [], [], []⟩ = .error (.error (.ioError .notADirectory)) os' ∧
      os'.fs [['o'], ['c']] = some (.file []) ∧ os'.fs [['o'], ['z', 'z']] = none) ∧
    (∃ os', extract (.globPatterns [.star]) ['/', 'o'] false (byteArchive ["c", "zz"])
        ⟨clashTree, [], [], [], []⟩ = .ok () os' ∧
      os'.fs [['o'], ['c']] = some (.file [7]) ∧ os'.fs [['o'], ['z', 'z']] = some (.file [7])) ∧
    (∃ os', extract .anything ['/', 'o'] false (byteArchive ["c", "zz"])
        ⟨clashTree, [], [], [], []⟩ = .ok () os' ∧
      os'.fs [['o'], ['c']] = some (.file [7]) ∧ os'.fs [['o'], ['z', 'z']] = some (.file [7])) :=
  ⟨⟨_, rfl, by decide, by decide⟩, ⟨_, rfl, by decide, by decide⟩, ⟨_, rfl, by decide, by decide⟩,
    ⟨_, rfl, by decide, by decide⟩⟩

/-- An archive indexed `c`, `gone`, `z/b` and `zz`, each entry the one byte `7`: `gone` is not
found, and the data of `zz` fails after its byte. -/
def clashArchive : ArchiveReader where
  listFiles := .ok ["c", "gone", "z/b", "zz"]
  getFile name := .ok (if name = "gone" then none
    else some ⟨name, 1, ⟨[7], if name = "zz" then some (.ioError .other) else none⟩⟩)
  layout := [.content "c" [7], .content "z/b" [7], .content "zz" [7], .damaged (.ioError .other)]

/-! ## The command -/

/-- `extractEntries_entry_failures`: once the output directory is canonical and the names
are listed, whatever the filesystem holds. On the filtered path, a selected name whose
lookup fails or finds nothing, reached once the names before it succeeded, is skipped with
one line that names it: the command returns what it returns without that name and leaves
the same state, but for that line, printed between what the names before it and the names
after it print. A selected entry whose `create_file` fails, or whose data fails while it is
copied, ends the command with that error at once, in the state that step left: the names
after it are never looked at. On the linear path, a destination that cannot be created ends
the command with that error before `linear_extract` runs. -/
theorem extractEntries_entry_failures (matcher : ExtractFileNameMatcher) (outputDir : List Char)
    (verbose : Bool) (mla : ArchiveReader) (before after : List String) (fname : String)
    (os : Os) :
    (matcher ≠ .anything → ∀ os₁,
      extractFiles matcher outputDir verbose mla before os = .ok () os₁ →
      (matcher.matchFileName fname = true → mla.found fname = none →
        ∃ line : Diagnostic, line.fileName = some fname ∧
          Io.outcome (extractEntries matcher outputDir verbose mla (before ++ fname :: after) os) =
            Io.outcome (extractEntries matcher outputDir verbose mla (before ++ after) os) ∧
          ∃ post, (Io.final (extractEntries matcher outputDir verbose mla (before ++ after) os)).stderr =
              os₁.stderr ++ post ∧
            Io.final (extractEntries matcher outputDir verbose mla (before ++ fname :: after) os) =
              { Io.final (extractEntries matcher outputDir verbose mla (before ++ after) os) with
                stderr := os₁.stderr ++ line :: post }) ∧
      (∀ subFile, matcher.matchFileName fname = true → mla.getFile fname = .ok (some subFile) →
        (∀ abort os₂, createFile outputDir fname os₁ = .error abort os₂ →
          extractEntries matcher outputDir verbose mla (before ++ fname :: after) os =
            .error abort os₂) ∧
        (∀ file path os₂ err os₃, createFile outputDir fname os₁ = .ok (some (file, path)) os₂ →
          copyToFile subFile.data file
              (if verbose then { os₂ with stdout := os₂.stdout ++ [fname] } else os₂) =
            .ok (.error err) os₃ →
          extractEntries matcher outputDir verbose mla (before ++ fname :: after) os =
            .error (.error err) { os₃ with stderr := os₃.stderr ++ [.unableToExtract fname err] }))) ∧
    (∀ exportMap os₁ abort os₂,
      exportWriters outputDir [] before (if verbose then { os with stdout := os.stdout ++
          ["Extracting the whole archive using a linear extraction"] } else os) =
        .ok exportMap os₁ →
      createFile outputDir fname os₁ = .error abort os₂ →
      extractEntries .anything outputDir verbose mla (before ++ fname :: after) os =
        .error abort os₂) := by
  refine ⟨fun hfiltered os₁ hbefore => ⟨fun hsel hfound => ?_, fun subFile hsel hget =>
    ⟨fun abort os₂ hcreate => ?_, fun file path os₂ err os₃ hcreate hcopy => ?_⟩⟩,
    fun exportMap os₁ abort os₂ hbefore hcreate => ?_⟩
  · -- the lookup miss: the rest of the loop runs as without the name, after one more line
    obtain ⟨line, hline, hskip⟩ := extractFile_lookup_miss matcher outputDir verbose mla hsel hfound
    obtain ⟨houtcome, post, hpost, hfinal⟩ := (extractFiles_stderrFrame matcher outputDir verbose
      mla after).append_stderr os₁ [line]
    have hwith : extractEntries matcher outputDir verbose mla (before ++ fname :: after) os =
        extractFiles matcher outputDir verbose mla after { os₁ with stderr := os₁.stderr ++ [line] } := by
      simp only [extractEntries_filtered hfiltered, extractFiles_append, hbefore, extractFiles,
        Io.bind_apply, hskip]
    have hwithout : extractEntries matcher outputDir verbose mla (before ++ after) os =
        extractFiles matcher outputDir verbose mla after os₁ := by
      simp only [extractEntries_filtered hfiltered, extractFiles_append, hbefore]
    rw [hwith, hwithout]
    exact ⟨line, hline, houtcome, post, hpost, by simpa using hfinal⟩
  · simp [extractEntries_filtered hfiltered, extractFiles_append, hbefore, extractFiles,
      extractFile, hsel, hget, hcreate]
  · cases verbose <;> simp only [Bool.false_eq_true, if_true, if_false] at hcopy <;>
      simp [extractEntries_filtered hfiltered, extractFiles_append, hbefore, extractFiles,
        extractFile, hsel, hget, hcreate, hcopy]
  · cases verbose <;> simp only [Bool.false_eq_true, if_true, if_false] at hbefore <;>
      simp [extractEntries, exportWriters_append, hbefore, exportWriters, hcreate]

/-- `extractEntries_entry_failures` at `/o`, whose `z` is a regular file, on `clashArchive`:
the lookup of `gone` misses once `c` is extracted; `create_file` fails on `z/b`, on both paths;
and the data of `zz` fails while it is copied. -/
theorem extractEntries_entry_failures_clash :
    (∃ os₁, extractFiles (.globPatterns [.star]) ['/', 'o'] false clashArchive ["c"]
        ⟨clashTree, [], [], [], []⟩ = .ok () os₁ ∧
      ∃ line : Diagnostic, line.fileName = some "gone" ∧
        Io.outcome (extractEntries (.globPatterns [.star]) ['/', 'o'] false clashArchive
            (["c"] ++ "gone" :: ["z/b", "zz"]) ⟨clashTree, [], [], [], []⟩) =
          Io.outcome (extractEntries (.globPatterns [.star]) ['/', 'o'] false clashArchive
            (["c"] ++ ["z/b", "zz"]) ⟨clashTree, [], [], [], []⟩) ∧
        ∃ post, (Io.final (extractEntries (.globPatterns [.star]) ['/', 'o'] false clashArchive
            (["c"] ++ ["z/b", "zz"]) ⟨clashTree, [], [], [], []⟩)).stderr = os₁.stderr ++ post ∧
          Io.final (extractEntries (.globPatterns [.star]) ['/', 'o'] false clashArchive
              (["c"] ++ "gone" :: ["z/b", "zz"]) ⟨clashTree, [], [], [], []⟩) =
            { Io.final (extractEntries (.globPatterns [.star]) ['/', 'o'] false clashArchive
                (["c"] ++ ["z/b", "zz"]) ⟨clashTree, [], [], [], []⟩) with
              stderr := os₁.stderr ++ line :: post }) ∧
    (∃ os₁ abort os₂, extractFiles (.globPatterns [.star]) ['/', 'o'] false clashArchive
        ["c", "gone"] ⟨clashTree, [], [], [], []⟩ = .ok () os₁ ∧
      createFile ['/', 'o'] "z/b" os₁ = .error abort os₂ ∧
      extractEntries (.globPatterns [.star]) ['/', 'o'] false clashArchive
        (["c", "gone"] ++ "z/b" :: ["zz"]) ⟨clashTree, [], [], [], []⟩ = .error abort os₂) ∧
    (∃ os₁ file path os₂ err os₃, extractFiles (.files ["zz"]) ['/', 'o'] false clashArchive
        ["c", "gone", "z/b"] ⟨clashTree, [], [], [], []⟩ = .ok () os₁ ∧
      createFile ['/', 'o'] "zz" os₁ = .ok (some (file, path)) os₂ ∧
      copyToFile ⟨[7], some (.ioError .other)⟩ file os₂ = .ok (.error err) os₃ ∧
      extractEntries (.files ["zz"]) ['/', 'o'] false clashArchive
        (["c", "gone", "z/b"] ++ "zz" :: []) ⟨clashTree, [], [], [], []⟩ =
        .error (.error err) { os₃ with stderr := os₃.stderr ++ [.unableToExtract "zz" err] }) ∧
    (∃ exportMap os₁ abort os₂, exportWriters ['/', 'o'] [] ["c", "gone"]
        ⟨clashTree, [], [], [], []⟩ = .ok exportMap os₁ ∧
      createFile ['/', 'o'] "z/b" os₁ = .error abort os₂ ∧
      extractEntries .anything ['/', 'o'] false clashArchive (["c", "gone"] ++ "z/b" :: ["zz"])
        ⟨clashTree, [], [], [], []⟩ = .error abort os₂) := by
  exact ⟨⟨_, rfl, ((extractEntries_entry_failures (.globPatterns [.star]) ['/', 'o'] false
      clashArchive ["c"] ["z/b", "zz"] "gone" ⟨clashTree, [], [], [], []⟩).1 (by simp) _ rfl).1
      rfl rfl⟩,
    ⟨_, _, _, rfl, rfl, (((extractEntries_entry_failures (.globPatterns [.star]) ['/', 'o'] false
      clashArchive ["c", "gone"] ["zz"] "z/b" ⟨clashTree, [], [], [], []⟩).1 (by simp) _ rfl).2
      _ rfl rfl).1 _ _ rfl⟩,
    ⟨_, _, _, _, _, _, rfl, rfl, rfl, (((extractEntries_entry_failures (.files ["zz"]) ['/', 'o']
      false clashArchive ["c", "gone", "z/b"] [] "zz" ⟨clashTree, [], [], [], []⟩).1 (by simp) _
      rfl).2 _ rfl rfl).2 _ _ _ _ _ rfl rfl⟩,
    ⟨_, _, _, _, rfl, rfl, (extractEntries_entry_failures .anything ['/', 'o'] false clashArchive
      ["c", "gone"] ["zz"] "z/b" ⟨clashTree, [], [], [], []⟩).2 _ _ _ _ rfl rfl⟩⟩

end Mlar
