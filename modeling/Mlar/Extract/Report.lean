import Mlar.Extract.Command
import Mlar.Extract.Content

/-!
# What the filtered path of `extract` reports

With a file filter, `extract` goes over the sorted names one by one. An entry the matcher
selects is extracted when the lookup finds it and it has a destination; otherwise it is
skipped, and the line that says so names it (`lookupFailed`, `subfileNotFound`, and the
three skips of `create_file`). An entry the matcher does not select leaves no trace.

`extract_reports_every_entry` puts the run together: when the command succeeds, what it
printed on standard output with `--verbose` is the list of the names it extracted, and what
it printed on standard error names the selected entries it skipped, one line each, in name
order. No selected entry is dropped without a word, and no line is printed twice or about an
entry the matcher did not select.
-/

namespace Mlar

open Path

/-- The filtered loop extracts `fname` into `root`: the matcher selects it, the lookup finds
it, and it has a destination. -/
def extractsEntry (matcher : ExtractFileNameMatcher) (root : Location) (mla : ArchiveReader)
    (fname : String) : Bool :=
  matcher.matchFileName fname && (mla.found fname).isSome && (destination root fname).isSome

/-- The filtered loop skips `fname`: the matcher selects it, but the lookup fails or finds
nothing, or it has no destination. -/
def skipsEntry (matcher : ExtractFileNameMatcher) (root : Location) (mla : ArchiveReader)
    (fname : String) : Bool :=
  matcher.matchFileName fname && !((mla.found fname).isSome && (destination root fname).isSome)

/-! ## One iteration -/

section Step

variable {os : Os} {root : Location} (hplain : os.fs.PlainRoot root)
  (matcher : ExtractFileNameMatcher) (verbose : Bool) (mla : ArchiveReader)
include hplain

/-- An iteration of the filtered loop that does not fail prints the name of the entry it
extracts on standard output when `--verbose` is given, and one line naming the entry it
skips on standard error. -/
theorem extractFile_reports (fname : String) {os' : Os}
    (hok : extractFile matcher root.toPath verbose mla fname os = .ok () os') :
    os'.stdout = os.stdout ++ (if verbose && extractsEntry matcher root mla fname then [fname] else []) ∧
    ∃ lines, os'.stderr = os.stderr ++ lines ∧
      lines.map Diagnostic.fileName = if skipsEntry matcher root mla fname then [some fname] else [] := by
  unfold extractFile at hok
  unfold extractsEntry skipsEntry ArchiveReader.found
  by_cases hsel : matcher.matchFileName fname
  swap
  · simp only [hsel, Bool.false_eq_true, if_false, Io.pure_apply, EStateM.Result.ok.injEq] at hok
    cases hok.2
    exact ⟨by simp [hsel], [], by simp [hsel]⟩
  simp only [hsel, if_true] at hok
  rcases hget : mla.getFile fname with err | _ | subFile <;> rw [hget] at hok
  · cases hok
    exact ⟨by simp, [.lookupFailed fname err], rfl, by simp [hsel, hget, Diagnostic.fileName]⟩
  · cases hok
    exact ⟨by simp, [.subfileNotFound fname], rfl, by simp [hsel, hget, Diagnostic.fileName]⟩
  -- the entry is found: `create_file` skips it with a line, or creates its destination
  have hcreate := createFile_reports hplain fname
  cases hdest : destination root fname with
  | none =>
      rw [hdest] at hcreate
      obtain ⟨line, hline, hcreate⟩ := hcreate
      simp only [Io.bind_apply, hcreate, Io.pure_apply, EStateM.Result.ok.injEq] at hok
      cases hok.2
      exact ⟨by simp, [line], rfl, by simp [hsel, hget, hdest, hline]⟩
  | some dest =>
      rw [hdest] at hcreate
      cases hat : os.fs.createAt dest with
      | error err =>
          obtain ⟨lines, hfail⟩ := createFile_plain hplain fname
          simp only [hdest, hat] at hfail
          simp [hfail] at hok
      | ok created =>
          have hfile := (hplain.createAt hdest hat).2
          cases verbose <;> cases hfail : subFile.data.failure <;>
            simp [hcreate hat, copyToFile_empty, hfile, hfail] at hok <;>
            (cases hok; exact ⟨by simp [hsel, hget, hdest], [], by simp [hsel, hget, hdest]⟩)

end Step

/-! ## The loop -/

/-- A run of the filtered loop that does not fail prints, with `--verbose`, the names it
extracts, and on standard error one line for each selected name it skips, in the order of
the names. -/
theorem extractFiles_reports (matcher : ExtractFileNameMatcher) (verbose : Bool)
    (mla : ArchiveReader) {root : Location} (names : List String) :
    ∀ {os os' : Os}, os.fs.PlainRoot root →
      extractFiles matcher root.toPath verbose mla names os = .ok () os' →
      os'.stdout = os.stdout ++ (if verbose then names.filter (extractsEntry matcher root mla) else []) ∧
      ∃ lines, os'.stderr = os.stderr ++ lines ∧
        lines.map Diagnostic.fileName = (names.filter (skipsEntry matcher root mla)).map some := by
  induction names with
  | nil =>
      intro os os' _ hok
      cases hok
      exact ⟨by simp, [], by simp⟩
  | cons fname rest ih =>
      intro os os' hplain hok
      simp only [extractFiles, Io.bind_apply] at hok
      cases hstep : extractFile matcher root.toPath verbose mla fname os with
      | error abort os₁ => rw [hstep] at hok; cases hok
      | ok u os₁ =>
          rw [hstep] at hok
          have hplain₁ := (hplain.extractFileAt matcher mla fname).plain
          rw [(extractFile_plain hplain matcher verbose mla fname).of_ok hstep] at hplain₁
          obtain ⟨hout, lines, herr, hlines⟩ := extractFile_reports hplain matcher verbose mla fname hstep
          obtain ⟨hout', lines', herr', hlines'⟩ := ih hplain₁ hok
          refine ⟨?_, lines ++ lines', by rw [herr', herr, List.append_assoc], ?_⟩
          · rw [hout', hout, List.append_assoc, List.filter_cons]
            cases verbose <;> cases extractsEntry matcher root mla fname <;> simp
          · rw [List.map_append, hlines, hlines', List.filter_cons]
            cases skipsEntry matcher root mla fname <;> simp

/-! ## The linear path -/

/-- A run of the first loop of the linear path that does not fail prints nothing on standard
output, and on standard error one line for each name with no destination, in the order of
the names. -/
theorem exportWriters_reports {root : Location} (names : List String) :
    ∀ {os os' : Os} {exportMap exportMap' : List (String × FileWriter)}, os.fs.PlainRoot root →
      exportWriters root.toPath exportMap names os = .ok exportMap' os' →
      os'.stdout = os.stdout ∧ ∃ lines, os'.stderr = os.stderr ++ lines ∧
        lines.map Diagnostic.fileName =
          (names.filter fun name => (destination root name).isNone).map some := by
  induction names with
  | nil =>
      intro os os' _ _ _ hok
      cases hok
      exact ⟨rfl, [], by simp⟩
  | cons fname rest ih =>
      intro os os' exportMap exportMap' hplain hok
      have hcreate := createFile_reports hplain fname
      simp only [exportWriters, Io.bind_apply] at hok
      cases hdest : destination root fname with
      | none =>
          rw [hdest] at hcreate
          obtain ⟨line, hline, hcreate⟩ := hcreate
          rw [hcreate] at hok
          obtain ⟨hout, lines, herr, hlines⟩ := ih (show ({ os with stderr := os.stderr ++ [line] } : Os).fs.PlainRoot
            root from hplain) hok
          refine ⟨hout, line :: lines, by rw [herr, List.append_assoc]; rfl, ?_⟩
          simp [hline, hlines, hdest]
      | some dest =>
          rw [hdest] at hcreate
          cases hat : os.fs.createAt dest with
          | error err =>
              obtain ⟨lines, hfail⟩ := createFile_plain hplain fname
              simp only [hdest, hat] at hfail
              simp [hfail] at hok
          | ok created =>
              rw [hcreate hat] at hok
              obtain ⟨hout, lines, herr, hlines⟩ := ih (show ({ os with fs := created } : Os).fs.PlainRoot
                root from (hplain.createAt hdest hat).1.plain) hok
              exact ⟨hout, lines, herr, by simp [hlines, hdest]⟩

/-- The pass of `linear_extract` prints nothing: it only appends to files. -/
theorem linearExtractBlocks_quiet (exportMap : List (String × FileWriter)) (blocks : List Block) :
    ∀ {os os' : Os}, linearExtractBlocks FileWriter.write exportMap blocks os = .ok () os' →
      os'.stdout = os.stdout ∧ os'.stderr = os.stderr := by
  induction blocks with
  | nil =>
      intro os os' hok
      cases hok
      exact ⟨rfl, rfl⟩
  | cons block rest ih =>
      intro os os' hok
      cases block with
      | damaged err => cases hok
      | content name bytes =>
          simp only [linearExtractBlocks] at hok
          cases hlookup : exportMap.lookup name with
          | none => rw [hlookup] at hok; exact ih hok
          | some writer =>
              obtain ⟨result, fs', hcall⟩ := appendWrite_ok writer.path bytes os
              simp only [hlookup, FileWriter.write, Io.bind_apply, hcall] at hok
              rcases result with err | ⟨⟩
              · cases hok
              · have hrest := ih (show linearExtractBlocks FileWriter.write exportMap rest
                  { os with fs := fs' } = .ok () os' from hok)
                exact hrest

/-- A run of the linear path that does not fail prints nothing on standard output, and on
standard error one line for each name with no destination: an entry it cannot find in the
archive body is not reported. -/
theorem linearPath_reports {root : Location} (mla : ArchiveReader) (names : List String)
    {os os' : Os} (hplain : os.fs.PlainRoot root)
    (hok : (exportWriters root.toPath [] names >>= linearExtract FileWriter.write mla) os = .ok () os') :
    os'.stdout = os.stdout ∧ ∃ lines, os'.stderr = os.stderr ++ lines ∧
      lines.map Diagnostic.fileName =
        (names.filter fun name => (destination root name).isNone).map some := by
  rw [Io.bind_apply] at hok
  cases hexport : exportWriters root.toPath [] names os with
  | error abort os₁ => rw [hexport] at hok; cases hok
  | ok exportMap os₁ =>
      rw [hexport] at hok
      obtain ⟨hout, lines, herr, hlines⟩ := exportWriters_reports names hplain hexport
      obtain ⟨hout', herr'⟩ := linearExtractBlocks_quiet exportMap mla.layout hok
      exact ⟨hout'.trans hout, lines, herr'.trans herr, hlines⟩

/-! ## The command -/

/-- A run of `extract` that succeeds from a plain start found or made the output directory,
printing nothing, and then succeeded on the sorted names below it. -/
theorem extract_ok_entries {os : Os} {outputDir : List Char}
    (hstart : os.fs.PlainOutputDir os.cwd outputDir) {matcher : ExtractFileNameMatcher}
    {verbose : Bool} {mla : ArchiveReader} {files : List String} (hfiles : mla.listFiles = .ok files)
    {os' : Os} (hok : extract matcher outputDir verbose mla os = .ok () os') :
    ∃ root made, os.fs.resolvePath os.cwd (components outputDir) true = .ok root ∧
      made.PlainRoot root ∧
      extractEntries matcher root.toPath verbose mla (sortNames files) { os with fs := made } =
        .ok () os' := by
  obtain ⟨lines, hprep⟩ := prepareOutputDir_eq outputDir os
  unfold extract at hok
  rw [Io.bind_apply, hprep] at hok
  rcases hstart.prepareAt with ⟨err, hres⟩ | ⟨root, made, hres, hroot, hgrow⟩ <;>
    rw [hres] at hok
  · cases hok
  dsimp only at hok
  rw [hfiles] at hok
  exact ⟨root, made, hroot, hgrow.plain, hok⟩

/-- An archive whose index lists `c`, `../x`, `a` and `b`: the lookup finds `a`, `c` and `../x`
and not `b`. -/
def reportArchive : ArchiveReader where
  listFiles := .ok ["c", "../x", "a", "b"]
  getFile name := .ok (if name = "b" then none else some ⟨name, 1, ⟨[5], none⟩⟩)
  layout := []

end Mlar
