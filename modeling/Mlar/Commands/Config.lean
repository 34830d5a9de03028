import Mlar.Os

/-!
# The archive configuration from the command line

`create`, `convert` and `repair` open their writer with `writer_from_matches`, which first
builds an `ArchiveWriterConfig` with `config_from_matches` and only then creates the output
file. `config_from_matches` enables the layers named by `--layers` (`compress` and `encrypt`
when none is named), then reads the public key files, then parses the compression level.
The two options of a layer are only read when their layer is enabled; otherwise a warning
says they are ignored.

The layers enabled depend on the set of names given, not on their order or repetition
(`configFromMatches_same_layers`).

The configuration the library keeps is modelled by what `config_from_matches` sets on it:
the layers, the public keys added, and the compression level. The layers of
`ArchiveWriterConfig::new()` belong to the library and are a parameter, and the key parsers
of `ed25519_parser` are parameters too.
-/

namespace Mlar

open Path

/-- `mla::Layers`, as far as `config_from_matches` sets and reads it. -/
structure Layers where
  compress : Bool
  encrypt : Bool
  deriving DecidableEq, Repr

/-- What `config_from_matches` sets on an `ArchiveWriterConfig`: the layers enabled, the public
keys added, and the compression level, when one is set. -/
structure WriterConfig (PublicKey : Type) where
  layers : Layers
  publicKeys : List PublicKey
  compressionLevel : Option Nat

/-! ## The steps of `config_from_matches` -/

/-- The loop over the layers named: `enable_layer` for each, and a panic on the first name that
is not a layer. -/
def enableLayers (layers : Layers) : List String → Io Layers
  | [] => pure layers
  | layer :: rest =>
      if layer = "compress" then enableLayers { layers with compress := true } rest
      else if layer = "encrypt" then enableLayers { layers with encrypt := true } rest
      else throw (.panic ("[ERROR] Unknown layer " ++ layer))

/-- The loop shared by `open_ecc_public_keys` and `open_ecc_private_keys`: open each key file,
read it to its end and parse it with `parse`; the first failure is returned. -/
def openEccKeys {Key : Type} (parse : List UInt8 → Option Key) :
    List (List Char) → Io (Except Error (List Key))
  | [] => pure (.ok [])
  | path :: rest => do
      match ← fileOpen path with
      | .error err => pure (.error (.ioError err))
      | .ok file => do
          let data ← fileData file
          match data.failure with
          | some err => pure (.error err)
          | none =>
              match parse data.bytes with
              | none => pure (.error .invalidECCKeyFormat)
              | some key => do
                  match ← openEccKeys parse rest with
                  | .error err => pure (.error err)
                  | .ok keys => pure (.ok (key :: keys))

/-- `open_ecc_public_keys`, with `parse_openssl_ed25519_pubkey` as `parsePubkey`. -/
def openEccPublicKeys {PublicKey : Type} (parsePubkey : List UInt8 → Option PublicKey)
    (paths : List (List Char)) : Io (Except Error (List PublicKey)) :=
  openEccKeys parsePubkey paths

/-- `open_ecc_private_keys`, with `parse_openssl_ed25519_privkey` as `parsePrivkey`. -/
def openEccPrivateKeys {PrivateKey : Type} (parsePrivkey : List UInt8 → Option PrivateKey)
    (paths : List (List Char)) : Io (Except Error (List PrivateKey)) :=
  openEccKeys parsePrivkey paths

/-- `core::num::IntErrorKind`, as `str::parse::<u32>` produces it. -/
inductive IntErrorKind where
  | empty
  | invalidDigit
  | posOverflow
  deriving DecidableEq, Repr

/-- The name `Debug` prints for a kind. -/
def IntErrorKind.name : IntErrorKind → String
  | .empty => "Empty"
  | .invalidDigit => "InvalidDigit"
  | .posOverflow => "PosOverflow"

/-- The digits of `u32::from_str_radix` in base 10, read from the left after the value `acc`:
the first character that is not a digit is `InvalidDigit`, and a value that reaches `2 ^ 32`
is `PosOverflow`. -/
def parseDigits (acc : Nat) : List Char → Except IntErrorKind Nat
  | [] => .ok acc
  | c :: rest =>
      if c.isDigit then
        let value := 10 * acc + (c.toNat - '0'.toNat)
        if value < 4294967296 then parseDigits value rest else .error .posOverflow
      else .error .invalidDigit

/-- `str::parse::<u32>`: the empty text is `Empty`, a `+` alone is `InvalidDigit`, and a
leading `+` is dropped before the digits. -/
def parseU32 (text : String) : Except IntErrorKind Nat :=
  match text.data with
  | [] => .error .empty
  | ['+'] => .error .invalidDigit
  | '+' :: rest => parseDigits 0 rest
  | chars => parseDigits 0 chars

example : parseU32 "+7" = .ok 7 ∧ parseU32 "12" = .ok 12 ∧ parseU32 "-1" = .error .invalidDigit ∧
    parseU32 "" = .error .empty ∧ parseU32 "4294967296" = .error .posOverflow ∧
    parseU32 "99999999999x" = .error .posOverflow :=
  ⟨rfl, rfl, rfl, rfl, rfl, rfl⟩

/-- The message `expect("compression_level must be an int")` panics with: the text, then the
`Debug` of the `ParseIntError`. -/
def notAnInt (kind : IntErrorKind) : String :=
  "compression_level must be an int: ParseIntError \x7b kind: " ++ kind.name ++ " \x7d"

/-- The public keys of `config_from_matches`: the key files are read only when `encrypt` is
enabled, and a key that cannot be opened makes it panic. -/
def publicKeysOf {PublicKey : Type} (parsePubkey : List UInt8 → Option PublicKey)
    (layers : Layers) : Option (List (List Char)) → Io (List PublicKey)
  | none => pure []
  | some paths =>
      if layers.encrypt then do
        match ← openEccPublicKeys parsePubkey paths with
        | .error err => throw (.panicWith "[ERROR] Unable to open public keys" err)
        | .ok keys => pure keys
      else do
        Io.eprintln .publicKeysIgnored
        pure []

/-- The compression level of `config_from_matches`: the text is parsed only when `compress` is
enabled, and it must be a number up to 11. -/
def compressionLevelOf (layers : Layers) : Option String → Io (Option Nat)
  | none => pure none
  | some text =>
      if layers.compress then
        match parseU32 text with
        | .error kind => throw (.panic (notAnInt kind))
        | .ok level =>
            if 11 < level then throw (.panic "compression_level must be in [0 .. 11]")
            else pure (some level)
      else do
        Io.eprintln .compressionLevelIgnored
        pure none

/-- `config_from_matches`: `layersArg`, `publicKeysArg` and `compressionLevelArg` are the values
of `--layers`, `--public_keys` and `--compression_level`, when given, and `init` the layers of
`ArchiveWriterConfig::new()`. -/
def configFromMatches {PublicKey : Type} (parsePubkey : List UInt8 → Option PublicKey)
    (init : Layers) (layersArg : Option (List String)) (publicKeysArg : Option (List (List Char)))
    (compressionLevelArg : Option String) : Io (WriterConfig PublicKey) := do
  let layers ← enableLayers init (layersArg.getD ["compress", "encrypt"])
  let publicKeys ← publicKeysOf parsePubkey layers publicKeysArg
  let compressionLevel ← compressionLevelOf layers compressionLevelArg
  pure ⟨layers, publicKeys, compressionLevel⟩

/-- `readerconfig_from_matches`: the private keys of `--private_keys`, when given; a key that
cannot be opened makes it panic. -/
def readerconfigFromMatches {PrivateKey : Type} (parsePrivkey : List UInt8 → Option PrivateKey)
    (privateKeysArg : Option (List (List Char))) : Io (List PrivateKey) :=
  match privateKeysArg with
  | none => pure []
  | some paths => do
      match ← openEccPrivateKeys parsePrivkey paths with
      | .error err => throw (.panicWith "[ERROR] Unable to open private keys" err)
      | .ok keys => pure keys

/-! ## The output of a writer -/

/-- `OutputTypes`: standard output, or a file. -/
inductive OutputTypes where
  | stdout
  | file (file : File)

/-- `destination_from_output_argument`: `-` is standard output; any other argument is a path,
created or truncated with `File::create`. -/
def destinationFromOutputArgument (outputArgument : String) : Io (Except Error OutputTypes) :=
  if outputArgument ≠ "-" then do
    match ← fileCreate outputArgument.data with
    | .error err => pure (.error (.ioError err))
    | .ok file => pure (.ok (.file file))
  else pure (.ok .stdout)

/-- `writer_from_matches`, up to `ArchiveWriter::from_config`, which is the library's: the
configuration, then the output. -/
def writerFromMatches {PublicKey : Type} (parsePubkey : List UInt8 → Option PublicKey)
    (init : Layers) (layersArg : Option (List String)) (publicKeysArg : Option (List (List Char)))
    (compressionLevelArg : Option String) (output : String) :
    Io (WriterConfig PublicKey × OutputTypes) := do
  let config ← configFromMatches parsePubkey init layersArg publicKeysArg compressionLevelArg
  match ← destinationFromOutputArgument output with
  | .error err => Io.fail err
  | .ok destination => pure (config, destination)

/-! ## The layers -/

/-- Layers named only `compress` and `encrypt` enable what the starting layers enabled, and the
layers named. -/
theorem enableLayers_known (layers : Layers) {names : List String}
    (hknown : ∀ name ∈ names, name = "compress" ∨ name = "encrypt") (os : Os) :
    enableLayers layers names os =
      .ok ⟨layers.compress || decide ("compress" ∈ names),
        layers.encrypt || decide ("encrypt" ∈ names)⟩ os := by
  induction names generalizing layers with
  | nil => simp [enableLayers]
  | cons name rest ih =>
      have hrest := fun layers => ih layers fun n hn => hknown n (List.mem_cons_of_mem _ hn)
      rcases hknown name (List.mem_cons_self _ _) with rfl | rfl <;> simp [enableLayers, hrest]

/-- `configFromMatches_same_layers`: two lists of layer names with the same members give the
same configuration and the same run: the order and repetition of `--layers` do not matter. -/
theorem configFromMatches_same_layers {PublicKey : Type}
    (parsePubkey : List UInt8 → Option PublicKey) (init : Layers) {layers layers' : List String}
    (hknown : ∀ name ∈ layers, name = "compress" ∨ name = "encrypt")
    (hsame : ∀ name, name ∈ layers ↔ name ∈ layers')
    (publicKeysArg : Option (List (List Char))) (compressionLevelArg : Option String) (os : Os) :
    configFromMatches parsePubkey init (some layers) publicKeysArg compressionLevelArg os =
      configFromMatches parsePubkey init (some layers') publicKeysArg compressionLevelArg os := by
  have hknown' : ∀ name ∈ layers', name = "compress" ∨ name = "encrypt" :=
    fun name hname => hknown name ((hsame name).2 hname)
  simp only [configFromMatches, Option.getD_some, Io.bind_apply, enableLayers_known init hknown,
    enableLayers_known init hknown', hsame]

/-- Naming `encrypt` twice and `compress` in between enables the same layers as `compress`,
`encrypt`. -/
theorem configFromMatches_same_layers_reordered :
    (∀ name ∈ ["encrypt", "compress", "encrypt"], name = "compress" ∨ name = "encrypt") ∧
    (∀ name, name ∈ ["encrypt", "compress", "encrypt"] ↔ name ∈ ["compress", "encrypt"]) ∧
    configFromMatches (fun _ => some ()) ⟨false, false⟩ (some ["encrypt", "compress", "encrypt"])
        none (some "3") ⟨fun _ => none, [], [], [], []⟩ =
      configFromMatches (fun _ => some ()) ⟨false, false⟩ (some ["compress", "encrypt"]) none
        (some "3") ⟨fun _ => none, [], [], [], []⟩ := by
  have hknown : ∀ name ∈ ["encrypt", "compress", "encrypt"], name = "compress" ∨ name = "encrypt" := by
    decide
  have hsame : ∀ name, name ∈ ["encrypt", "compress", "encrypt"] ↔ name ∈ ["compress", "encrypt"] := by
    intro name
    simp only [List.mem_cons, List.mem_singleton, List.not_mem_nil, or_false]
    tauto
  exact ⟨hknown, hsame, configFromMatches_same_layers _ _ hknown hsame _ _ _⟩

end Mlar
