import Mlar.Os

/-!
# Calls on the archive collaborators

`io::copy` from an entry's data, the one-pass `linear_extract` of the `mla` library, and the
two `ArchiveWriter` calls `convert` makes. The library calls are modelled from the spec's
interface: `linear_extract` writes each entry's bytes to its sink in storage order, and the
writer accepts every entry whose data can be read to its end.
-/

namespace Mlar

/-- `io::copy` from an entry's data into an open file: the bytes the data yields are
written, then the error that stopped the data, if any, is returned. -/
def copyToFile (data : Stream) (file : File) : Io (Except Error Unit) := do
  match ← fileWrite file data.bytes with
  | .error err => pure (.error (.ioError err))
  | .ok () =>
      match data.failure with
      | some err => pure (.error err)
      | none => pure (.ok ())

/-- The pass of `linearExtract` over the blocks that remain. -/
def linearExtractBlocks {W : Type} (write : W → List UInt8 → Io (Except ErrorKind Unit))
    (exportMap : List (String × W)) : List Block → Io Unit
  | [] => pure ()
  | .damaged err :: _ => Io.fail err
  | .content name bytes :: rest =>
      match exportMap.lookup name with
      | none => linearExtractBlocks write exportMap rest
      | some writer => do
          match ← write writer bytes with
          | .error err => Io.fail (.ioError err)
          | .ok () => linearExtractBlocks write exportMap rest

/-- Modelled from the spec: `mla::helpers::linear_extract`, one pass over the archive body
in storage order. The bytes of each block go to the sink `exportMap` holds for the block's
entry, if any; a damaged block or a failed write ends the pass with its error. -/
def linearExtract {W : Type} (write : W → List UInt8 → Io (Except ErrorKind Unit))
    (mla : ArchiveReader) (exportMap : List (String × W)) : Io Unit :=
  linearExtractBlocks write exportMap mla.layout

/-- Record a call on the archive writer. -/
def record (call : WriterCall) : Io Unit :=
  fun os => .ok () { os with written := os.written ++ [call] }

@[simp]
theorem record_apply (call : WriterCall) (os : Os) :
    record call os = .ok () { os with written := os.written ++ [call] } := rfl

/-- Modelled from the spec: `ArchiveWriter::add_file` on a writer that accepts every entry.
The call is recorded, and the writer reads the data to its end, so data that fails makes
the call fail with the data's error. -/
def addFile (filename : String) (size : Nat) (data : Stream) : Io Unit := do
  record (.addFile filename size data)
  match data.failure with
  | some err => Io.fail err
  | none => pure ()

/-- Modelled from the spec: `ArchiveWriter::finalize` on a writer that accepts every entry. -/
def finalize : Io Unit :=
  record .finalize

end Mlar
