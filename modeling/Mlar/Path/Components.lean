import Mathlib.Data.List.Basic

/-!
# Unix paths and their components

`std::path` on Unix, as far as `mlar` uses it: `Path::components`, `PathBuf::push`,
`Path::parent` and `Path::starts_with`. A path is the list of its characters (an
`OsStr`); the separator is `/` and there is no `Prefix` component.

The main result is `components_push`: pushing a normal name onto any path adds exactly
that name to its components. Everything `get_extracted_path` and the filesystem calls
of `create_file` see of a path goes through it; `components_render_absolute` is the
round trip for the absolute paths that `fs::canonicalize` returns.
-/

namespace Mlar.Path

/-- A component of a Unix path, as `Path::components` yields it. -/
inductive Component where
  | rootDir
  | curDir
  | parentDir
  | normal (name : List Char)
  deriving DecidableEq, Repr

/-- `Component::as_os_str`. -/
def Component.asOsStr : Component → List Char
  | .rootDir => ['/']
  | .curDir => ['.']
  | .parentDir => ['.', '.']
  | .normal name => name

/-- `Components::parse_single_component`: an empty part and `.` are no component. -/
def parseSingleComponent : List Char → Option Component
  | [] => none
  | ['.'] => none
  | ['.', '.'] => some .parentDir
  | part => some (.normal part)

/-- The components after the leading root or `.`: the parts between separators. -/
def parseBody (body : List Char) : List Component :=
  (body.splitOn '/').filterMap parseSingleComponent

/-- `Path::components` on Unix. A leading `/` is `RootDir`, and a leading `.` followed by a
separator or by the end of the path is `CurDir`; every other `.` and every empty part
between separators is dropped. -/
def components (path : List Char) : List Component :=
  match path with
  | '/' :: rest => .rootDir :: parseBody rest
  | '.' :: rest =>
      if rest.head?.all (· = '/') then .curDir :: parseBody rest else parseBody path
  | _ => parseBody path

/-- `PathBuf::push` on Unix: an absolute `part` replaces the path, and otherwise a separator
is added first unless the path is empty or already ends with one. -/
def push (path part : List Char) : List Char :=
  if part.head? = some '/' then part
  else if path.getLast?.any (· ≠ '/') then path ++ '/' :: part
  else path ++ part

/-- The path spelled by a list of components, pushed one after another onto the empty path
(`PathBuf::from_iter`). -/
def render (comps : List Component) : List Char :=
  comps.foldl (fun path comp => push path comp.asOsStr) []

/-- `Path::parent`: the path without its last component, when that component is a normal
name, `.` or `..`; the root and the empty path have no parent. -/
def parent (path : List Char) : Option (List Char) :=
  match (components path).getLast? with
  | some .rootDir | none => none
  | some _ => some (render (components path).dropLast)

/-- `Path::starts_with`: the components of `base` are a prefix of those of `path`. -/
def startsWith (path base : List Char) : Bool :=
  (components base).isPrefixOf (components path)

/-- How a path ends, which `Path::components` does not keep but the kernel reads: in `.`
after a separator, trailing separators apart, so that what comes before must be a directory;
in a separator, so that the last name must be a directory; or in a name. -/
inductive Ending where
  | name
  | slash
  | dot
  deriving DecidableEq, Repr

/-- The ending of a path, read from its characters. -/
def ending (path : List Char) : Ending :=
  if (path.reverse.dropWhile (· = '/')).take 2 = ['.', '/'] then .dot
  else if path.getLast? = some '/' then .slash
  else .name

/-- A name that `components` yields as one `Normal` component: no separator, not empty,
not `.` and not `..`. -/
def IsNormal (name : List Char) : Prop :=
  '/' ∉ name ∧ parseSingleComponent name = some (.normal name)

instance (name : List Char) : Decidable (IsNormal name) :=
  inferInstanceAs (Decidable (_ ∧ _))

/-! ## Splitting at separators -/

/-- `modifyHead` only sees the head, so it commutes with appending to a nonempty list. -/
theorem modifyHead_append {α : Type} (f : α → α) {xs : List α} (hxs : xs ≠ []) (ys : List α) :
    (xs ++ ys).modifyHead f = xs.modifyHead f ++ ys := by
  obtain ⟨x, xs, rfl⟩ := List.exists_cons_of_ne_nil hxs
  rfl

/-- Appending a separator and a part without separators adds that part to the split. -/
theorem splitOn_append_sep (xs : List Char) {part : List Char} (hpart : '/' ∉ part) :
    (xs ++ '/' :: part).splitOn '/' = xs.splitOn '/' ++ [part] := by
  have hsingle : part.splitOnP (· == '/') = [part] :=
    List.splitOnP_eq_single _ _ fun c hc => by simpa using ne_of_mem_of_not_mem hc hpart
  simp only [List.splitOn]
  induction xs with
  | nil => simp [hsingle]
  | cons c xs ih =>
      simp only [List.cons_append, List.splitOnP_cons]
      split
      · simp [ih]
      · rw [ih, modifyHead_append _ (List.splitOnP_ne_nil _ xs)]

@[simp]
theorem parseBody_nil : parseBody [] = [] := rfl

/-- A leading separator adds no component. -/
@[simp]
theorem parseBody_sep (rest : List Char) : parseBody ('/' :: rest) = parseBody rest := by
  simp [parseBody, List.splitOn, parseSingleComponent]

/-- A trailing separator adds no component. -/
@[simp]
theorem parseBody_append_sep (xs : List Char) : parseBody (xs ++ ['/']) = parseBody xs := by
  simp [parseBody, splitOn_append_sep xs (List.not_mem_nil _), parseSingleComponent]

/-- A separator followed by a normal name adds that name as the last component. -/
theorem parseBody_append_normal (xs : List Char) {name : List Char} (hname : IsNormal name) :
    parseBody (xs ++ '/' :: name) = parseBody xs ++ [.normal name] := by
  simp [parseBody, splitOn_append_sep xs hname.1, hname.2]

theorem parseBody_normal {name : List Char} (hname : IsNormal name) :
    parseBody name = [.normal name] := by
  simpa using parseBody_append_normal [] hname

/-! ## Components of pushed paths -/

/-- The paths that are all body: they start with neither `/` nor a `.` followed by a
separator or by the end. -/
def BodyStart : List Char → Prop
  | [] => False
  | c :: rest => c ≠ '/' ∧ (c = '.' → rest.head?.any (· ≠ '/'))

theorem BodyStart.append {xs : List Char} (hxs : BodyStart xs) (ys : List Char) :
    BodyStart (xs ++ ys) := by
  rcases xs with _ | ⟨c, _ | ⟨d, rest⟩⟩ <;> simp_all [BodyStart]

theorem components_of_bodyStart {path : List Char} (hpath : BodyStart path) :
    components path = parseBody path := by
  rcases path with _ | ⟨c, rest⟩
  · exact hpath.elim
  obtain ⟨hroot, hcur⟩ := hpath
  by_cases hdot : c = '.'
  · subst hdot
    have hsep : ¬ rest.head?.all (· = '/') := by
      rcases rest with _ | ⟨d, rest⟩ <;> simp_all
    simp [components, hsep]
  · unfold components
    split <;> simp_all

/-- Every path is empty, absolute, `.`, `./` followed by more, or all body. -/
theorem path_cases (path : List Char) :
    path = [] ∨ (∃ rest, path = '/' :: rest) ∨ path = ['.'] ∨
      (∃ rest, path = '.' :: '/' :: rest) ∨ BodyStart path := by
  rcases path with _ | ⟨c, _ | ⟨d, rest⟩⟩
  · simp
  · by_cases hc : c = '/' <;> by_cases hd : c = '.' <;> simp_all [BodyStart]
  · by_cases hc : c = '/' <;> by_cases hd : c = '.' <;> by_cases he : d = '/' <;>
      simp_all [BodyStart]

theorem IsNormal.head_ne_sep {name : List Char} (hname : IsNormal name) :
    name.head? ≠ some '/' := by
  intro h
  exact hname.1 (List.mem_of_mem_head? h)

/-- A normal name read as a whole path is that one normal component. -/
theorem components_normal {name : List Char} (hname : IsNormal name) :
    components name = [.normal name] := by
  rcases path_cases name with rfl | ⟨rest, rfl⟩ | rfl | ⟨rest, rfl⟩ | hbody
  · simp [IsNormal, parseSingleComponent] at hname
  · exact absurd (by simp) hname.head_ne_sep
  · simp [IsNormal, parseSingleComponent] at hname
  · exact absurd (by simp) hname.1
  · rw [components_of_bodyStart hbody, parseBody_normal hname]

/-- A trailing separator on a nonempty path adds no component. -/
theorem components_append_sep {xs : List Char} (hxs : xs ≠ []) :
    components (xs ++ ['/']) = components xs := by
  rcases path_cases xs with rfl | ⟨rest, rfl⟩ | rfl | ⟨rest, rfl⟩ | hbody
  · contradiction
  · simp [components]
  · simp [components]
  · simp [components]
  · rw [components_of_bodyStart (hbody.append _), components_of_bodyStart hbody,
      parseBody_append_sep]

/-- Appending a separator and a normal name adds that name as the last component, however
the path began. -/
theorem components_append_normal (xs : List Char) {name : List Char} (hname : IsNormal name) :
    components (xs ++ '/' :: name) = components (xs ++ ['/']) ++ [.normal name] := by
  rcases path_cases xs with rfl | ⟨rest, rfl⟩ | rfl | ⟨rest, rfl⟩ | hbody
  · simp [components, parseBody_normal hname]
  · simp [components, parseBody_append_normal rest hname]
  · simp [components, parseBody_normal hname]
  · simp [components, parseBody_append_normal rest hname]
  · rw [components_of_bodyStart (hbody.append _), components_of_bodyStart (hbody.append _),
      parseBody_append_normal _ hname, parseBody_append_sep]

/-- Pushing a normal name onto any path adds exactly that name to its components. -/
theorem components_push (path : List Char) {name : List Char} (hname : IsNormal name) :
    components (push path name) = components path ++ [.normal name] := by
  unfold push
  rw [if_neg hname.head_ne_sep]
  split
  · rename_i hsep
    obtain ⟨init, last, rfl⟩ := List.eq_nil_or_concat path |>.resolve_left (by rintro rfl; simp at hsep)
    rw [components_append_normal _ hname, components_append_sep (by simp)]
  · rename_i hsep
    rcases List.eq_nil_or_concat path with rfl | ⟨init, last, rfl⟩
    · simpa using components_normal hname
    · have hlast : last = '/' := by simpa using hsep
      subst hlast
      simpa using components_append_normal init hname

/-- Pushing normal names one after another adds them all, in order. -/
theorem components_foldl_push (path : List Char) {names : List (List Char)}
    (hnames : ∀ name ∈ names, IsNormal name) :
    components (names.foldl push path) = components path ++ names.map .normal := by
  induction names generalizing path with
  | nil => simp
  | cons name names ih =>
      simp only [List.foldl_cons, List.map_cons]
      rw [ih _ fun n hn => hnames n (by simp [hn]),
        components_push _ (hnames name (by simp))]
      simp

/-- The absolute path of a list of normal names reads back as the root followed by those
names. -/
theorem components_render_absolute {names : List (List Char)}
    (hnames : ∀ name ∈ names, IsNormal name) :
    components (render (.rootDir :: names.map .normal)) = .rootDir :: names.map .normal := by
  have hrender : render (.rootDir :: names.map .normal) = names.foldl push ['/'] := by
    simp only [render, List.foldl_cons, List.foldl_map]
    rfl
  rw [hrender, components_foldl_push _ hnames]
  rfl

/-! ## How pushed paths end -/

/-- A path that ends in a normal name ends as a name. -/
theorem ending_append_normal (pre : List Char) {name : List Char} (hname : IsNormal name) :
    ending (pre ++ name) = .name := by
  obtain ⟨init, last, rfl⟩ := (List.eq_nil_or_concat name).resolve_left
    (by rintro rfl; simp [IsNormal, parseSingleComponent] at hname)
  have hlast : last ≠ '/' := fun h => hname.1 (by simp [h])
  rw [List.concat_eq_append, ← List.append_assoc]
  unfold ending
  rcases List.eq_nil_or_concat init with rfl | ⟨init', c, rfl⟩
  · have hdot : last ≠ '.' := by
      rintro rfl
      simp [IsNormal, parseSingleComponent] at hname
    simp [hlast, hdot]
  · have hc : c ≠ '/' := fun h => hname.1 (by simp [h])
    simp [hlast, hc]

/-- Pushing a normal name gives a path that ends as a name. -/
theorem ending_push (path : List Char) {name : List Char} (hname : IsNormal name) :
    ending (push path name) = .name := by
  unfold push
  rw [if_neg hname.head_ne_sep]
  split
  · simpa using ending_append_normal (path ++ ['/']) hname
  · exact ending_append_normal path hname

end Mlar.Path
