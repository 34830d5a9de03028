import Mlar.Archive.Calls

/-!
# The `convert` command

`convert` lists the entries of the source archive, sorts them, and for each name in turn
looks the entry up and streams it into the destination writer with `add_file`; it then
finalizes the writer. A failed lookup is reported and skipped. A failure inside `add_file`,
among them data that cannot be read to its end, is returned through `?`: it ends the
command before `finalize`.

`convert_writer_calls` gives, for every source archive, the lines printed on standard error
and the calls made on the writer: one `add_file` per entry found, in name order, then
`finalize` when every entry read to its end; and, when one entry fails to read, the calls up
to that entry and no `finalize`.

`repair` hands the writer to the fail-safe reader's `convert_to_archive` and reports the status
the conversion ends with. The status is report-only (`repair_status_report_only`): whatever it
is, `repair` succeeds with what the conversion wrote, and adds at most one line.
-/

namespace Mlar

/-- The data of an entry reads to its end. -/
def ArchiveFile.readsFully (subFile : ArchiveFile) : Bool :=
  subFile.data.failure.isNone

/-- The `add_file` call `convert` makes for an entry. -/
def ArchiveFile.addFileCall (subFile : ArchiveFile) : WriterCall :=
  .addFile subFile.filename subFile.size subFile.data

/-- One iteration of the loop of `convert`. -/
def convertFile (mla : ArchiveReader) (fname : String) : Io Unit := do
  Io.eprintln (.converting fname)
  match mla.getFile fname with
  | .error err => Io.eprintln (.addingFailed fname err)
  | .ok none => Io.eprintln (.unableToFound fname)
  | .ok (some subFile) => addFile subFile.filename subFile.size subFile.data

/-- The loop of `convert`, over the sorted names. -/
def convertFiles (mla : ArchiveReader) : List String → Io Unit
  | [] => pure ()
  | fname :: rest => do
      convertFile mla fname
      convertFiles mla rest

/-- `convert`, from the point where the source archive is open; the destination writer is
the one the state records calls on. -/
def convert (mla : ArchiveReader) : Io Unit :=
  match mla.listFiles with
  | .error _ => throw (.panic "Files is malformed. Please consider repairing the file")
  | .ok files => do
      convertFiles mla (sortNames files)
      finalize

/-- `repair`, from the point where the fail-safe reader and the writer are open:
`convertToArchive` is the library's `convert_to_archive` into the writer, which streams what can
be recovered and ends with a status. -/
def repair (convertToArchive : Io (Except Error FailSafeReadError)) : Io Unit := do
  match ← convertToArchive with
  | .error err => Io.fail err
  | .ok .noError => pure ()
  | .ok .endOfOriginalArchiveData => Io.eprintln .wholeArchiveRecovered
  | .ok status => Io.eprintln (.conversionEndsWith status)

/-- The status a conversion ends with does not change what `repair` returns or keeps: it
succeeds with the state the conversion left, with at most one line added, and with none exactly
when there was no error. -/
theorem repair_status_report_only {convertToArchive : Io (Except Error FailSafeReadError)}
    {os os' : Os} {status : FailSafeReadError}
    (hconvert : convertToArchive os = .ok (.ok status) os') :
    ∃ lines : List Diagnostic, lines.length ≤ 1 ∧ (lines = [] ↔ status = .noError) ∧
      repair convertToArchive os = .ok () { os' with stderr := os'.stderr ++ lines } := by
  rcases status with _ | _ | code
  · exact ⟨[], by simp, by simp, by simp [repair, Io.bind_apply, hconvert]⟩
  · exact ⟨[.wholeArchiveRecovered], by simp, by simp, by simp [repair, Io.bind_apply, hconvert]⟩
  · exact ⟨[.conversionEndsWith (.other code)], by simp, by simp,
      by simp [repair, Io.bind_apply, hconvert]⟩

/-! ## One iteration -/

/-- What `convert` prints on standard error for one name: the name it converts, and then,
when the lookup fails or finds nothing, the line that says so. -/
def convertLines (mla : ArchiveReader) (fname : String) : List Diagnostic :=
  .converting fname :: match mla.getFile fname with
    | .error err => [.addingFailed fname err]
    | .ok none => [.unableToFound fname]
    | .ok (some _) => []

/-- Every line printed for a name names it: one for an entry found, two for a name skipped. -/
theorem convertLines_fileName (mla : ArchiveReader) (fname : String) :
    (convertLines mla fname).map Diagnostic.fileName =
      if (mla.found fname).isSome then [some fname] else [some fname, some fname] := by
  unfold convertLines ArchiveReader.found
  rcases mla.getFile fname with err | _ | subFile <;> rfl

/-- One iteration: the lines for the name, and for an entry found its `add_file`, which fails
exactly when its data fails. -/
theorem convertFile_apply (mla : ArchiveReader) (fname : String) (os : Os) :
    convertFile mla fname os = match mla.found fname with
      | none => .ok () { os with stderr := os.stderr ++ convertLines mla fname }
      | some subFile => Io.endWith subFile.data.failure { os with
          stderr := os.stderr ++ convertLines mla fname
          written := os.written ++ [subFile.addFileCall] } := by
  unfold convertFile convertLines ArchiveReader.found
  rcases mla.getFile fname with err | _ | subFile
  · simp
  · simp
  · rcases hfail : subFile.data.failure <;>
      simp [addFile, record, hfail, Io.endWith, ArchiveFile.addFileCall]

/-! ## The loop -/

theorem convertFiles_append (mla : ArchiveReader) (xs ys : List String) (os : Os) :
    convertFiles mla (xs ++ ys) os = match convertFiles mla xs os with
      | .ok () os' => convertFiles mla ys os'
      | .error abort os' => .error abort os' := by
  induction xs generalizing os with
  | nil => rfl
  | cons fname rest ih =>
      simp only [List.cons_append, convertFiles, Io.bind_apply]
      rcases convertFile mla fname os with ⟨⟨⟩, os'⟩ | ⟨abort, os'⟩
      · exact ih os'
      · rfl

/-- When every entry found reads to its end, the loop prints the lines of each name and adds
each entry found, in order. -/
theorem convertFiles_all_read (mla : ArchiveReader) (names : List String)
    (hread : (names.filterMap mla.found).all ArchiveFile.readsFully) (os : Os) :
    convertFiles mla names os = .ok () { os with
      stderr := os.stderr ++ names.flatMap (convertLines mla)
      written := os.written ++ (names.filterMap mla.found).map ArchiveFile.addFileCall } := by
  induction names generalizing os with
  | nil => simp [convertFiles]
  | cons fname rest ih =>
      simp only [convertFiles, Io.bind_apply, convertFile_apply]
      cases hfound : mla.found fname with
      | none =>
          simp only [List.filterMap_cons, hfound] at hread ⊢
          simp [ih hread]
      | some subFile =>
          simp only [List.filterMap_cons, hfound, List.all_cons, Bool.and_eq_true] at hread ⊢
          have hnone : subFile.data.failure = none := by
            simpa [ArchiveFile.readsFully] using hread.1
          simp [hnone, Io.endWith, ih hread.2]

/-- When the entry of `fname` fails to read, once the entries found before it read to their
end, the loop stops with its error, after the lines of `fname` and its `add_file`. -/
theorem convertFiles_failure (mla : ArchiveReader) {pre : List String} {fname : String}
    {bad : ArchiveFile} {err : Error} (hpre : (pre.filterMap mla.found).all ArchiveFile.readsFully)
    (hbad : mla.found fname = some bad) (hfail : bad.data.failure = some err)
    (post : List String) (os : Os) :
    convertFiles mla (pre ++ fname :: post) os = .error (.error err) { os with
      stderr := os.stderr ++ (pre ++ [fname]).flatMap (convertLines mla)
      written := os.written ++ (pre.filterMap mla.found ++ [bad]).map ArchiveFile.addFileCall } := by
  simp [convertFiles_append, convertFiles_all_read mla pre hpre, convertFiles, convertFile_apply,
    hbad, hfail, Io.endWith]

/-- `convert_writer_calls`: what `convert` prints and the calls it makes on the writer. It
visits the names in sorted order, printing the name of each and, for a name whose lookup
fails or finds nothing, a line that says so; every entry found is added once, in that order,
with its own name, size and data. If all of them read to their end, `finalize` follows and
`convert` succeeds. If one fails to read, its `add_file` is the last call: `convert` returns
that error, the names after it are never visited, and the writer is never finalized. -/
theorem convert_writer_calls (mla : ArchiveReader) (files : List String)
    (hfiles : mla.listFiles = .ok files) (os : Os) :
    (((sortNames files).filterMap mla.found).all ArchiveFile.readsFully →
      convert mla os = .ok () { os with
        stderr := os.stderr ++ (sortNames files).flatMap (convertLines mla)
        written := os.written ++ ((sortNames files).filterMap mla.found).map
          ArchiveFile.addFileCall ++ [.finalize] }) ∧
    ∀ pre fname post bad err, sortNames files = pre ++ fname :: post →
      (pre.filterMap mla.found).all ArchiveFile.readsFully → mla.found fname = some bad →
      bad.data.failure = some err →
      convert mla os = .error (.error err) { os with
        stderr := os.stderr ++ (pre ++ [fname]).flatMap (convertLines mla)
        written := os.written ++ (pre.filterMap mla.found ++ [bad]).map ArchiveFile.addFileCall } := by
  refine ⟨fun hread => ?_, fun pre fname post bad err hsplit hpre hbad hfail => ?_⟩
  · simp [convert, hfiles, convertFiles_all_read mla _ hread, finalize, record]
  · simp [convert, hfiles, hsplit, convertFiles_failure mla hpre hbad hfail]

/-- An archive whose one entry `a` yields a byte and then fails with `err`. -/
def brokenArchive (err : Error) : ArchiveReader where
  listFiles := .ok ["a"]
  getFile name := .ok (some ⟨name, 1, ⟨[1], some err⟩⟩)
  layout := [.damaged err]

/-- On an archive whose only entry fails to read, `convert` adds that entry, returns its
error and never finalizes the writer. -/
theorem convert_skips_finalize_on_read_failure :
    ∃ os', convert (brokenArchive (.mla 0)) ⟨fun _ => none, [], [], [], []⟩ =
        .error (.error (.mla 0)) os' ∧
      os'.written = [.addFile "a" 1 ⟨[1], some (.mla 0)⟩] ∧ WriterCall.finalize ∉ os'.written :=
  ⟨_, rfl, rfl, by decide⟩

/-- An archive indexed `b`, `gone` and `a`, where `gone` is not found and `a` and `b` each
read one byte to their end. -/
def sortedArchive : ArchiveReader where
  listFiles := .ok ["b", "gone", "a"]
  getFile name := .ok (if name = "gone" then none else some ⟨name, 1, ⟨[1], none⟩⟩)
  layout := [.content "b" [1], .content "a" [1]]

/-- `convert_writer_calls` on both kinds of archive: on `sortedArchive` `convert` adds `a`
then `b`, reports `gone` and finalizes; on the archive whose entry fails to read it adds that
entry and stops. -/
theorem convert_writer_calls_two_archives :
    convert sortedArchive ⟨fun _ => none, [], [], [], []⟩ = .ok ()
      ⟨fun _ => none, [], [], [.converting "a", .converting "b", .converting "gone",
        .unableToFound "gone"], [.addFile "a" 1 ⟨[1], none⟩, .addFile "b" 1 ⟨[1], none⟩,
        .finalize]⟩ ∧
    convert (brokenArchive (.mla 0)) ⟨fun _ => none, [], [], [], []⟩ = .error (.error (.mla 0))
      ⟨fun _ => none, [], [], [.converting "a"], [.addFile "a" 1 ⟨[1], some (.mla 0)⟩]⟩ :=
  ⟨(convert_writer_calls sortedArchive ["b", "gone", "a"] rfl ⟨fun _ => none, [], [], [], []⟩).1
      rfl,
    (convert_writer_calls (brokenArchive (.mla 0)) ["a"] rfl ⟨fun _ => none, [], [], [], []⟩).2
      [] "a" [] _ _ rfl rfl rfl rfl⟩

end Mlar
