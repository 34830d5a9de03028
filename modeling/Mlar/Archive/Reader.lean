import Mathlib.Data.List.Sort
import Mlar.Fs.Basic

/-!
# The archive collaborators

The `mla` library is not part of this repository: `mlar` reads archives through
`ArchiveReader` and writes them through `ArchiveWriter`. What the commands rely on is
modelled here from the spec's interface: the index of entry names, the lookup of one entry
by name, the blocks of the archive body in storage order, and the calls made on a writer.

Entry names are sorted with `Vec::sort`, which orders strings byte by byte; on UTF-8 that is
the order of their characters, with a proper prefix first. A stable sort of strings gives
one list, so `sortNames` uses insertion sort.
-/

namespace Mlar

/-- `mla::errors::Error`: an I/O error of some kind, a key file that does not parse, or another
error of the archive library. -/
inductive Error where
  | ioError (kind : ErrorKind)
  | invalidECCKeyFormat
  | mla (code : Nat)
  deriving DecidableEq, Repr

/-- `mla::errors::FailSafeReadError`, the status a fail-safe conversion ends with, as far as
`repair` tells its values apart. -/
inductive FailSafeReadError where
  | noError
  | endOfOriginalArchiveData
  | other (code : Nat)
  deriving DecidableEq, Repr

/-- The data of an archived file (`ArchiveFile::data`): the bytes it yields, then the error
that stops it when the stored data is damaged. -/
structure Stream where
  bytes : List UInt8
  failure : Option Error
  deriving DecidableEq, Repr

/-- `ArchiveFile`: an entry found in the archive, with its name, declared size and data. -/
structure ArchiveFile where
  filename : String
  size : Nat
  data : Stream
  deriving DecidableEq, Repr

/-- A block of the archive body: a piece of the content of a named entry, or a block that
cannot be read. -/
inductive Block where
  | content (filename : String) (bytes : List UInt8)
  | damaged (err : Error)
  deriving DecidableEq, Repr

/-- Modelled from the spec: an opened `ArchiveReader`. `listFiles` is what `list_files`
returns, `getFile` the lookup of one entry by name, and `layout` the blocks of the archive
body in storage order, which `linear_extract` reads in one pass. -/
structure ArchiveReader where
  listFiles : Except Error (List String)
  getFile : String → Except Error (Option ArchiveFile)
  layout : List Block

/-- The entry a lookup finds, if it finds one. -/
def ArchiveReader.found (mla : ArchiveReader) (fname : String) : Option ArchiveFile :=
  match mla.getFile fname with
  | .ok (some subFile) => some subFile
  | _ => none

/-- A call made on an `ArchiveWriter`. -/
inductive WriterCall where
  | addFile (filename : String) (size : Nat) (data : Stream)
  | finalize
  deriving DecidableEq, Repr

/-! ## Sorting entry names -/

/-- `Ord for str` as a test: character by character, a proper prefix first. -/
def charsLe : List Char → List Char → Bool
  | [], _ => true
  | _ :: _, [] => false
  | a :: as, b :: bs => if a = b then charsLe as bs else decide (a.toNat < b.toNat)

/-- `<=` on entry names. -/
def nameLe (a b : String) : Bool :=
  charsLe a.data b.data

/-- `Vec::sort` on entry names. -/
def sortNames (names : List String) : List String :=
  names.insertionSort fun a b => nameLe a b

theorem char_eq_of_toNat_eq {a b : Char} (h : a.toNat = b.toNat) : a = b :=
  Char.ext (UInt32.eq_of_val_eq (Fin.ext h))

theorem charsLe_total : ∀ as bs : List Char, charsLe as bs = true ∨ charsLe bs as = true
  | [], _ => .inl rfl
  | _ :: _, [] => .inr rfl
  | a :: as, b :: bs => by
      by_cases hab : a = b
      · subst hab
        simpa [charsLe] using charsLe_total as bs
      · have hne : a.toNat ≠ b.toNat := fun h => hab (char_eq_of_toNat_eq h)
        simp only [charsLe, hab, Ne.symm hab, if_false, decide_eq_true_eq]
        omega

theorem charsLe_antisymm : ∀ as bs : List Char,
    charsLe as bs = true → charsLe bs as = true → as = bs
  | [], [], _, _ => rfl
  | [], _ :: _, _, h => by simp [charsLe] at h
  | _ :: _, [], h, _ => by simp [charsLe] at h
  | a :: as, b :: bs, h, h' => by
      by_cases hab : a = b
      · subst hab
        simp only [charsLe, if_true] at h h'
        rw [charsLe_antisymm as bs h h']
      · simp only [charsLe, hab, Ne.symm hab, if_false, decide_eq_true_eq] at h h'
        omega

theorem charsLe_trans : ∀ as bs cs : List Char,
    charsLe as bs = true → charsLe bs cs = true → charsLe as cs = true
  | [], _, _, _, _ => rfl
  | _ :: _, [], _, h, _ => by simp [charsLe] at h
  | _ :: _, _ :: _, [], _, h => by simp [charsLe] at h
  | a :: as, b :: bs, c :: cs, h, h' => by
      by_cases hab : a = b
      · subst hab
        by_cases hac : a = c
        · subst hac
          simp only [charsLe, if_true] at h h' ⊢
          exact charsLe_trans as bs cs h h'
        · simpa [charsLe, hac] using h'
      · simp only [charsLe, hab, if_false, decide_eq_true_eq] at h h'
        by_cases hbc : b = c
        · subst hbc
          simpa [charsLe, hab] using h
        · simp only [hbc, if_false, decide_eq_true_eq] at h'
          have hac : a ≠ c := fun hac => by subst hac; omega
          simp only [charsLe, hac, if_false, decide_eq_true_eq]
          omega

instance : IsTotal String fun a b => nameLe a b = true :=
  ⟨fun a b => charsLe_total a.data b.data⟩

instance : IsTrans String fun a b => nameLe a b = true :=
  ⟨fun a b c => charsLe_trans a.data b.data c.data⟩

instance : IsAntisymm String fun a b => nameLe a b = true :=
  ⟨fun a b h h' => String.ext (charsLe_antisymm a.data b.data h h')⟩

/-- Sorting keeps every name. -/
theorem sortNames_perm (names : List String) : (sortNames names).Perm names :=
  List.perm_insertionSort _ names

/-- Sorting sorts, in the order of `Ord for str`. -/
theorem sortNames_sorted (names : List String) :
    (sortNames names).Sorted fun a b => nameLe a b = true :=
  List.sorted_insertionSort _ names

/-- Sorting sorted names changes nothing. -/
theorem sortNames_sortNames (names : List String) : sortNames (sortNames names) = sortNames names :=
  (sortNames_sorted names).insertionSort_eq

/-- Names listed in any order sort to the same list. -/
theorem sortNames_eq_of_perm {names names' : List String} (hperm : names.Perm names') :
    sortNames names = sortNames names' :=
  List.eq_of_perm_of_sorted ((sortNames_perm names).trans (hperm.trans (sortNames_perm names').symm))
    (sortNames_sorted names) (sortNames_sorted names')

end Mlar
