import Mlar.Os

/-!
# The `list` command

`list` reads the index of the archive, sorts it, and prints one line per name: the name
itself, or with `--verbose` the name and size of the entry the lookup finds, and with
`--verbose` given twice its hash as well.

Whatever the verbosity, `list` only prints on standard output (`list_prints_only`). With
`--verbose` a failed lookup ends the command through `?`, and an entry the index names but the
lookup does not find makes it panic.
-/

namespace Mlar

/-- `hex::encode`: two lower-case hexadecimal digits per byte. -/
def hexEncode (bytes : List UInt8) : String :=
  String.mk (bytes.flatMap fun byte =>
    [Nat.digitChar (byte.toNat / 16), Nat.digitChar (byte.toNat % 16)])

example : hexEncode [0, 171, 255] = "00abff" := by decide

section List

variable (verbosity : Nat) (fileSize : Nat → String)
  (getHash : String → Except Error (Option (List UInt8))) (mla : ArchiveReader)

/-- One name of `list`. `verbosity` is how many times `--verbose` was given, `fileSize` is
`humansize`'s `file_size` with the conventional options, and `getHash` is
`ArchiveReader::get_hash`. -/
def listEntry (fname : String) : Io Unit :=
  if 0 < verbosity then
    match mla.getFile fname with
    | .error err => Io.fail err
    | .ok none => throw (.panic "Unable to get the file")
    | .ok (some mlaFile) =>
        if verbosity = 1 then Io.println (mlaFile.filename ++ " - " ++ fileSize mlaFile.size)
        else if 2 ≤ verbosity then
          match getHash mlaFile.filename with
          | .error err => Io.fail err
          | .ok none => throw (.panic "Unable to get the hash")
          | .ok (some hash) =>
              Io.println (mlaFile.filename ++ " - " ++ fileSize mlaFile.size ++ " (" ++
                hexEncode hash ++ ")")
        else pure ()
  else Io.println fname

/-- The loop of `list` over the sorted names. -/
def listEntries : List String → Io Unit
  | [] => pure ()
  | fname :: rest => do
      listEntry verbosity fileSize getHash mla fname
      listEntries rest

/-- `list`, from the point where the archive is open. -/
def list : Io Unit :=
  match mla.listFiles with
  | .error err => Io.fail err
  | .ok files => listEntries verbosity fileSize getHash mla (sortNames files)

/-! ## One name -/

/-- One name of `list` prints at most a line and returns, or stops before printing. -/
theorem listEntry_cases (fname : String) (os : Os) :
    (∃ lines, listEntry verbosity fileSize getHash mla fname os =
      .ok () { os with stdout := os.stdout ++ lines }) ∨
    ∃ abort, listEntry verbosity fileSize getHash mla fname os = .error abort os := by
  unfold listEntry
  by_cases hverbose : 0 < verbosity
  · rw [if_pos hverbose]
    rcases mla.getFile fname with err | _ | mlaFile
    · exact .inr ⟨_, rfl⟩
    · exact .inr ⟨_, rfl⟩
    · dsimp only
      split_ifs with hone htwo
      · exact .inl ⟨_, rfl⟩
      · rcases getHash mlaFile.filename with err | _ | hash
        · exact .inr ⟨_, rfl⟩
        · exact .inr ⟨_, rfl⟩
        · exact .inl ⟨_, rfl⟩
      · omega
  · rw [if_neg hverbose]
    exact .inl ⟨_, rfl⟩

/-! ## The loop -/

/-- The loop of `list` only prints on standard output. -/
theorem listEntries_prints_only (names : List String) (os : Os) :
    ∃ lines, Io.final (listEntries verbosity fileSize getHash mla names os) =
      { os with stdout := os.stdout ++ lines } := by
  induction names generalizing os with
  | nil => exact ⟨[], by simp [listEntries, Io.final]⟩
  | cons fname rest ih =>
      simp only [listEntries, Io.bind_apply]
      rcases listEntry_cases verbosity fileSize getHash mla fname os with
        ⟨lines, hstep⟩ | ⟨abort, hstep⟩
      · rw [hstep]
        obtain ⟨more, hmore⟩ := ih { os with stdout := os.stdout ++ lines }
        exact ⟨lines ++ more, by rw [hmore, List.append_assoc]⟩
      · rw [hstep]
        exact ⟨[], by simp [Io.final]⟩

/-- Without `--verbose` the loop prints the names, one per line. -/
theorem listEntries_quiet (names : List String) (os : Os) :
    listEntries 0 fileSize getHash mla names os = .ok () { os with stdout := os.stdout ++ names } := by
  induction names generalizing os with
  | nil => simp [listEntries]
  | cons fname rest ih => simp [listEntries, listEntry, ih]

end List

/-! ## The command -/

/-- `list` only prints on standard output: the filesystem, the working directory, standard
error and the calls on a writer are left as they were. -/
theorem list_prints_only (verbosity : Nat) (fileSize : Nat → String)
    (getHash : String → Except Error (Option (List UInt8))) (mla : ArchiveReader) (os : Os) :
    ∃ lines, Io.final (list verbosity fileSize getHash mla os) =
      { os with stdout := os.stdout ++ lines } := by
  unfold list
  cases mla.listFiles with
  | error err => exact ⟨[], by simp [Io.final]⟩
  | ok files => exact listEntries_prints_only verbosity fileSize getHash mla _ os

end Mlar
