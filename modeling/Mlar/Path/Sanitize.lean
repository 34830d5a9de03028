import Mlar.Path.Components

/-!
# The path sanitizer

`get_extracted_path` maps an archive entry name to a destination below the output
directory. It walks the components of the name, skips the root, prefix and `.`
components, pushes every normal component onto the output directory and rejects the
whole name at the first `..`.

`get_extracted_path_spec` says exactly what it returns for every output directory and
every name: `none` precisely when the name has a `..` component, and otherwise a path
whose components are those of the output directory followed by the normal components of
the name, in order.
-/

namespace Mlar.Path

/-- The name of a normal component. -/
def Component.normalName? : Component → Option (List Char)
  | .normal name => some name
  | _ => none

/-- Whether a component is a normal one. -/
def Component.isNormal (comp : Component) : Bool :=
  comp.normalName?.isSome

/-- One iteration of the loop of `get_extracted_path`. -/
def extractStep (fileDst : List Char) : Component → Option (List Char)
  | .rootDir | .curDir => some fileDst
  | .parentDir => none
  | .normal part => some (push fileDst part)

/-- `get_extracted_path`: push every normal component of `fileName` onto `outputDir`,
skipping root and `.` components and giving up at the first `..`. The diagnostic it prints
on `..` is emitted by its caller in this model (`Diagnostic.containsParentDir`). -/
def getExtractedPath (outputDir : List Char) (fileName : String) : Option (List Char) :=
  (components fileName.data).foldlM extractStep outputDir

/-! ## Normal components are normal names -/

/-- No part of a split holds the separator. -/
theorem sep_not_mem_of_mem_splitOn {xs part : List Char} (hpart : part ∈ xs.splitOn '/') :
    '/' ∉ part := by
  induction xs generalizing part with
  | nil => simp_all
  | cons c xs ih =>
      simp only [List.splitOn, List.splitOnP_cons] at hpart ih
      split at hpart
      · simp only [List.mem_cons] at hpart
        rcases hpart with rfl | hpart
        · simp
        · exact ih hpart
      · rename_i hc
        obtain ⟨first, rest, hsplit⟩ := List.exists_cons_of_ne_nil (List.splitOnP_ne_nil _ xs)
        rw [hsplit] at hpart ih
        simp only [List.modifyHead_cons, List.mem_cons] at hpart
        rcases hpart with rfl | hpart
        · have hfirst := ih (List.mem_cons_self _ _)
          simp only [List.mem_cons, not_or]
          exact ⟨fun h => hc (by simp [← h]), hfirst⟩
        · exact ih (List.mem_cons_of_mem _ hpart)

theorem isNormal_of_parseSingleComponent {part name : List Char} (hsep : '/' ∉ part)
    (hparse : parseSingleComponent part = some (.normal name)) : IsNormal name := by
  have hname : name = part := by
    unfold parseSingleComponent at hparse
    split at hparse <;> simp_all
  subst hname
  exact ⟨hsep, hparse⟩

/-- Every normal component of every path is a normal name. -/
theorem isNormal_of_mem_components {path name : List Char}
    (hmem : Component.normal name ∈ components path) : IsNormal name := by
  have hbody : ∀ body, Component.normal name ∈ parseBody body → IsNormal name := by
    intro body h
    obtain ⟨part, hpart, hparse⟩ := List.mem_filterMap.1 h
    exact isNormal_of_parseSingleComponent (sep_not_mem_of_mem_splitOn hpart) hparse
  unfold components at hmem
  split at hmem
  · exact hbody _ (by simpa using hmem)
  · split at hmem
    · exact hbody _ (by simpa using hmem)
    · exact hbody _ hmem
  · exact hbody _ hmem

/-! ## The loop -/

theorem map_normal_filterMap_normalName (comps : List Component) :
    (comps.filterMap Component.normalName?).map .normal = comps.filter Component.isNormal := by
  induction comps with
  | nil => rfl
  | cons comp comps ih =>
      cases comp <;> simp [Component.normalName?, Component.isNormal, ih]

/-- The loop of `get_extracted_path`: it stops at a `..`, and otherwise pushes the normal
names in order. -/
theorem foldlM_extractStep (fileDst : List Char) (comps : List Component) :
    comps.foldlM extractStep fileDst =
      if .parentDir ∈ comps then none
      else some ((comps.filterMap Component.normalName?).foldl push fileDst) := by
  induction comps generalizing fileDst with
  | nil => simp
  | cons comp comps ih =>
      cases comp <;> simp [extractStep, Component.normalName?, ih]

/-- `get_extracted_path` rejects exactly the names with a `..` component. Every name it
accepts becomes the output directory followed by the name's normal components, in their
order: the result starts with the output directory and has no root, `.` or `..` component
after it. -/
theorem get_extracted_path_spec (outputDir : List Char) (fileName : String) :
    (getExtractedPath outputDir fileName = none ↔ .parentDir ∈ components fileName.data) ∧
    ∀ path, getExtractedPath outputDir fileName = some path →
      components path =
        components outputDir ++ (components fileName.data).filter Component.isNormal ∧
      startsWith path outputDir = true ∧
      ∀ comp ∈ (components path).drop (components outputDir).length, comp.isNormal = true := by
  have hnames : ∀ name ∈ (components fileName.data).filterMap Component.normalName?,
      IsNormal name := by
    intro name hname
    obtain ⟨comp, hcomp, hnormal⟩ := List.mem_filterMap.1 hname
    cases comp <;> simp [Component.normalName?] at hnormal
    subst hnormal
    exact isNormal_of_mem_components hcomp
  unfold getExtractedPath
  rw [foldlM_extractStep]
  refine ⟨by split <;> simp_all, fun path hpath => ?_⟩
  split at hpath
  · simp at hpath
  have hcomps := components_foldl_push outputDir hnames
  rw [map_normal_filterMap_normalName, Option.some.inj hpath] at hcomps
  refine ⟨hcomps, ?_, ?_⟩
  · simp [startsWith, hcomps]
  · intro comp hcomp
    rw [hcomps, List.drop_left] at hcomp
    exact (List.mem_filter.1 hcomp).2

end Mlar.Path
