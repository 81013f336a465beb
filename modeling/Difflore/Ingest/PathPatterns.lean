import Difflore.Domain.GlobMatch
import Difflore.Foundation.Occurrence
import Difflore.Skills.Remember

/-! # File patterns of a reviewed path

A path that a review names is made into globs: the directory with the lower-cased extension, a
monorepo folder with it, or a manifest by name. A glob covers the path it was made from if the
path, as it is matched, still begins with the directory and ends with the extension or the name.
-/

namespace Difflore.Ingest

open Foundation Text Domain

variable {widenForUpstream : Bool} {patterns : List Text} {shape : PatternShape}
  {pattern ext : Text}

def manifestFilenames : List Text :=
  ["go.mod", "go.sum", "cargo.toml", "cargo.lock", "package.json", "package-lock.json",
    "pnpm-lock.yaml", "yarn.lock", "bun.lockb", "uv.lock", "poetry.lock", "requirements.txt",
    "dockerfile"].map String.toList

def isManifestFilename (fileName : Text) : Bool := toAsciiLowercase fileName ∈ manifestFilenames

def sourceCodeExtensions : List Text :=
  ["c", "cc", "cpp", "cxx", "h", "hpp", "cs", "go", "java", "js", "jsx", "mjs", "cjs", "ts",
    "tsx", "mts", "cts", "py", "rb", "rs", "swift", "kt", "kts", "php", "vue", "svelte"].map
      String.toList

def reviewExtraExtensions : List Text :=
  ["json", "toml", "yaml", "yml", "md", "sql", "sh", "ps1", "xml", "txtar"].map String.toList

def isSourceCodeExtension (ext : Text) : Bool := ext ∈ sourceCodeExtensions

def isReviewFileExtension (ext : Text) : Bool :=
  isSourceCodeExtension ext || ext ∈ reviewExtraExtensions

def reviewPath (path : Text) : Option Text :=
  let trimmed := Skills.stripCurrentDirs (trim path)
  if trimmed = [] || ' ' ∈ trimmed then none else some (trimmed.map toSlash)

def fileName (normalized : Text) : Text := (rsplitOnce ['/'] normalized).elim normalized Prod.snd

def directory (normalized : Text) : Option Text := (rsplitOnce ['/'] normalized).map Prod.fst

def lowerExtension (normalized : Text) : Option Text :=
  (rsplitOnce ['.'] normalized).bind fun cut =>
    if cut.2 = [] || '/' ∈ cut.2 || '\\' ∈ cut.2 then none
    else some (toAsciiLowercase cut.2)

def underAny : Text := "/**/".toList

def anywhere : Text := "**/".toList

def starDotExt (ext : Text) : Text := '*' :: '.' :: ext

def monorepoFolders : List Text :=
  ["packages", "apps", "crates", "pkg", "examples"].map String.toList

/-- The folder of sibling packages that the path is below of, with another folder between. -/
def monorepoFolder (normalized : Text) : Option Text := monorepoFolders.find? fun folder =>
    (stripPrefix (folder ++ ['/']) normalized).any ('/' ∈ ·)

def withBroad (normalized ext narrow : Text) : List Text :=
  match monorepoFolder normalized with
  | none => [narrow]
  | some folder =>
    let broad := folder ++ (underAny ++ starDotExt ext)
    if broad = narrow then [narrow] else [narrow, broad]

def filePatternsFromPath (path : Text) : List Text :=
  match reviewPath path with
  | none => []
  | some normalized =>
    if isManifestFilename (fileName normalized) then
      [(directory normalized).elim (anywhere ++ fileName normalized) fun dir =>
        dir ++ (underAny ++ fileName normalized)]
    else
      match lowerExtension normalized with
      | none => []
      | some ext =>
        if !isReviewFileExtension ext then []
        else
          let dir := (directory normalized).getD "**".toList
          if ext = "md".toList && dir = "**".toList then [anywhere ++ fileName normalized]
          else
            withBroad normalized ext <|
              if dir = "**".toList then anywhere ++ starDotExt ext
              else dir ++ (underAny ++ starDotExt ext)

def repoWideFilePatternFromPath (path : Text) : Option Text :=
  (reviewPath path).bind fun normalized => (lowerExtension normalized).bind fun ext =>
    if isSourceCodeExtension ext then some (anywhere ++ starDotExt ext) else none

def pathPatterns (widenForUpstream : Bool) (path : Text) : List Text := filePatternsFromPath path ++
    if widenForUpstream then (repoWideFilePatternFromPath path).toList else []

/-- Patterns are added once each; an error is the early return at the limit. -/
def addPatterns : List Text → List Text → Except (List Text) (List Text)
  | patterns, [] => .ok patterns
  | patterns, pattern :: rest =>
    if pattern ∈ patterns then addPatterns patterns rest
    else if Skills.filePatternLimit ≤ (patterns ++ [pattern]).length then
      .error (patterns ++ [pattern])
    else addPatterns (patterns ++ [pattern]) rest

def candidateFilePatterns (scopePaths : List Text) (widenForUpstream : Bool) : Option (List Text) :=
  match addPatterns [] (scopePaths.flatMap (pathPatterns widenForUpstream)) with
  | .error patterns => some patterns
  | .ok patterns => if patterns = [] then none else some patterns

structure Gathered (all patterns : List Text) : Prop where
  nodup : patterns.Nodup
  bounded : patterns.length ≤ Skills.filePatternLimit
  derived : ∀ pattern ∈ patterns, pattern ∈ all

theorem Gathered.add {all : List Text} (hgathered : Gathered all patterns)
    (hroom : patterns.length < Skills.filePatternLimit) (hnew : pattern ∉ patterns)
    (hpattern : pattern ∈ all) : Gathered all (patterns ++ [pattern]) where
  nodup := List.nodup_append_comm.mp (List.nodup_cons.mpr ⟨hnew, hgathered.nodup⟩)
  bounded := by
    rw [List.length_append, List.length_singleton]
    exact hroom
  derived other hother := by
    rcases List.mem_append.mp hother with hold | hlast
    · exact hgathered.derived other hold
    · exact List.mem_singleton.mp hlast ▸ hpattern

theorem addPatterns_gathered {all pending : List Text} (hgathered : Gathered all patterns)
    (hroom : patterns.length < Skills.filePatternLimit)
    (hpending : ∀ pattern ∈ pending, pattern ∈ all) {found : List Text}
    (hfound : addPatterns patterns pending = .ok found ∨
      addPatterns patterns pending = .error found) : Gathered all found := by
  induction pending generalizing patterns with
  | nil =>
    rcases hfound with hok | herror
    · rw [addPatterns, Except.ok.injEq] at hok
      exact hok ▸ hgathered
    · simp [addPatterns] at herror
  | cons pattern pending ih =>
    have hrest := fun other hother => hpending other (.tail _ hother)
    unfold addPatterns at hfound
    by_cases hseen : pattern ∈ patterns
    · rw [if_pos hseen] at hfound
      exact ih hgathered hroom hrest hfound
    rw [if_neg hseen] at hfound
    have hadded := hgathered.add hroom hseen (hpending pattern (.head _))
    by_cases hfull : Skills.filePatternLimit ≤ (patterns ++ [pattern]).length
    · simp only [if_pos hfull, reduceCtorEq, false_or, Except.error.injEq] at hfound
      exact hfound ▸ hadded
    · rw [if_neg hfull] at hfound
      exact ih hadded (not_le.mp hfull) hrest hfound

/-- Whatever the number of paths, the patterns are distinct, at most so many, and each made from
one of the paths. -/
theorem candidateFilePatterns_gathered {scopePaths : List Text}
    (hpatterns : candidateFilePatterns scopePaths widenForUpstream = some patterns) :
    Gathered (scopePaths.flatMap (pathPatterns widenForUpstream)) patterns := by
  unfold candidateFilePatterns at hpatterns
  have hempty : Gathered (scopePaths.flatMap (pathPatterns widenForUpstream)) [] :=
    ⟨List.nodup_nil, Nat.zero_le _, by simp⟩
  refine addPatterns_gathered hempty (by decide) (fun _ => id) ?_
  cases hadd : addPatterns [] (scopePaths.flatMap (pathPatterns widenForUpstream)) with
  | error found => simpa [hadd] using hpatterns
  | ok found =>
    simp only [hadd, Option.ite_none_left_eq_some, Option.some.injEq] at hpatterns
    exact .inl (by rw [hpatterns.2])

/-! ## Globs -/

/-- The patterns that are made: a name or an extension, anywhere or below a directory. -/
inductive PatternShape
  | named (dir : Option Text) (name : Text)
  | extension (dir : Option Text) (ext : Text)

namespace PatternShape

def dir : PatternShape → Option Text
  | named dir _ | extension dir _ => dir

def file : PatternShape → Text
  | named _ name => name
  | extension _ ext => starDotExt ext

def text (shape : PatternShape) : Text :=
  shape.dir.elim (anywhere ++ shape.file) fun dir => dir ++ (underAny ++ shape.file)

def trimmed : PatternShape → PatternShape
  | named dir name => named (dir.map trimStart) name
  | extension dir ext => extension (dir.map trimStart) ext

def Below (shape : PatternShape) (path : Text) : Prop :=
  ∀ dir, shape.dir = some dir → dir ++ ['/'] <+: path

def Ends : PatternShape → Text → Prop
  | named _ name, path => path = name ∨ '/' :: name <:+ path
  | extension _ ext, path => '.' :: ext <:+ path

def Covers (shape : PatternShape) (path : Text) : Prop := shape.Below path ∧ shape.Ends path

/-- The words that paths are made into: a manifest or a Markdown file, or a known extension. -/
def Made : PatternShape → Prop
  | named _ name => isManifestFilename name = true ∨ ".md".toList <:+ toAsciiLowercase name
  | extension _ ext => isReviewFileExtension ext = true

end PatternShape

def isLiteral (c : Char) : Bool := c ∉ ['*', '?', '[', ']', '\x7b', '\x7d', '\\']

def PatternShape.word : PatternShape → Text
  | named _ name => name
  | extension _ ext => ext

structure PatternShape.IsLiteral (shape : PatternShape) : Prop where
  dir : ∀ dir, shape.dir = some dir → ∀ c ∈ dir, isLiteral c
  word : ∀ c ∈ shape.word, isLiteral c ∧ c ≠ '/'

/-- What matching relies on: every list of one string has a JSON text; `**/` stands for any
directories in front, `/**/` for any between, and `*` for any characters. -/
structure CoversShapes (library : GlobLibrary) : Prop where
  json : ∀ pattern, ∃ raw, raw ≠ [] ∧ trim raw = raw ∧ library.jsonStrings raw = some [pattern]
  glob : ∀ shape : PatternShape, shape.IsLiteral → shape.Made → ∃ glob,
    library.newGlob shape.text = some glob ∧ library.builds [glob] = true ∧
      ∀ path, library.isMatch glob path = true ↔ shape.Covers path

def MatchesPath (library : GlobLibrary) (pattern path : Text) : Prop :=
  ∀ raw onError, trim raw ≠ [] → library.jsonStrings (trim raw) = some [pattern] →
    globMatch library (some raw) path onError = true

def PathSound (library : GlobLibrary) (widenForUpstream : Bool) (path : Text) : Prop :=
  ∀ pattern ∈ pathPatterns widenForUpstream path, MatchesPath library pattern path

/-- The directory that is pasted into a pattern. One named `**` is taken for the root, except in
front of a manifest. -/
def pastedDirectory (normalized : Text) : Option Text := (directory normalized).filter fun dir =>
    dir ≠ "**".toList || isManifestFilename (fileName normalized)

def isNamed (normalized : Text) : Bool := isManifestFilename (fileName normalized) ||
    lowerExtension normalized = some "md".toList && pastedDirectory normalized = none

/-- What is pasted into a pattern has no special character of a glob. -/
structure PastedLiteral (normalized : Text) : Prop where
  dir : ∀ dir, pastedDirectory normalized = some dir → ∀ c ∈ dir, isLiteral c
  name : isNamed normalized = true → ∀ c ∈ fileName normalized, isLiteral c

/-- The path as it is matched begins with the directory, without white space in front, and ends
with the name or with the lower-cased extension. -/
def Kept (normalized matched : Text) : Prop :=
  (∀ dir, pastedDirectory normalized = some dir → trimStart dir ++ ['/'] <+: matched) ∧
    if isNamed normalized then
      matched = fileName normalized ∨ '/' :: fileName normalized <:+ matched
    else ∀ ext, lowerExtension normalized = some ext → '.' :: ext <:+ matched

section Matching

variable {library : GlobLibrary}

theorem isWhitespace_toLower_of {c : Char} (hc : isWhitespace c = true) : c.toLower = c := by
  rw [← Char.toNat_inj, toNat_toLower, if_neg]
  simp only [isWhitespace, Bool.or_eq_true, Bool.and_eq_true, decide_eq_true_eq] at hc
  omega

theorem PatternShape.Made.last (hmade : shape.Made) :
    ∃ c, shape.file.getLast? = some c ∧ isWhitespace c = false := by
  cases shape with
  | named dir name =>
    obtain ⟨lower, hlower, hletter⟩ :
        ∃ c, (toAsciiLowercase name).getLast? = some c ∧ isWhitespace c = false := by
      rcases hmade with hmanifest | ⟨front, hmd⟩
      · have hall : manifestFilenames.all
            (fun name => name.getLast?.any fun c => !isWhitespace c) := by decide
        rw [isManifestFilename, decide_eq_true_eq] at hmanifest
        simpa [Option.any_eq_true] using List.all_eq_true.mp hall _ hmanifest
      · exact ⟨'d', by rw [← hmd]; simp, by decide⟩
    rw [toAsciiLowercase, List.getLast?_map, Option.map_eq_some_iff] at hlower
    obtain ⟨c, hc, rfl⟩ := hlower
    refine ⟨c, hc, ?_⟩
    cases hspace : isWhitespace c with
    | false => rfl
    | true =>
      rw [isWhitespace_toLower_of hspace, hspace] at hletter
      contradiction
  | extension dir ext =>
    have hall : (sourceCodeExtensions ++ reviewExtraExtensions).all
        (fun ext => ext.getLast?.any fun c => !isWhitespace c) := by decide
    have hmem : ext ∈ sourceCodeExtensions ++ reviewExtraExtensions := by
      have hreview : isReviewFileExtension ext = true := hmade
      simpa [isReviewFileExtension, isSourceCodeExtension] using hreview
    obtain ⟨c, hc, hletter⟩ : ∃ c, ext.getLast? = some c ∧ isWhitespace c = false := by
      simpa [Option.any_eq_true] using List.all_eq_true.mp hall ext hmem
    refine ⟨c, ?_, hletter⟩
    change ('*' :: '.' :: ext).getLast? = some c
    rw [List.getLast?_cons, List.getLast?_cons, hc]
    rfl

theorem trimStart_append_slash (dir rest : Text) :
    trimStart (dir ++ '/' :: rest) = trimStart dir ++ '/' :: rest := by
  unfold trimStart
  rw [List.dropWhile_append]
  split
  next hblank =>
    rw [List.isEmpty_iff.mp hblank]
    rfl
  next => rfl

theorem PatternShape.trim_text (hmade : shape.Made) :
    Text.trim shape.text = shape.trimmed.text := by
  have hstart : trimStart shape.text = shape.trimmed.text := by
    cases shape with
    | named dir name | extension dir ext =>
      cases dir with
      | none => rfl
      | some dir => exact trimStart_append_slash dir _
  obtain ⟨front, hfront⟩ : ∃ front, shape.trimmed.text = front ++ shape.file := by
    cases shape with
    | named dir name | extension dir ext =>
      cases dir with
      | none => exact ⟨anywhere, rfl⟩
      | some dir => exact ⟨trimStart dir ++ underAny, (List.append_assoc ..).symm⟩
  obtain ⟨c, hlast, hletter⟩ := hmade.last
  have hend : shape.trimmed.text.getLast? = some c := by
    rw [hfront, List.getLast?_append, hlast]
    rfl
  unfold Text.trim
  rw [hstart]
  refine List.rdropWhile_eq_self_iff.mpr fun hne => ?_
  rw [List.getLast?_eq_some_getLast hne, Option.some.injEq] at hend
  rw [hend, hletter]
  exact Bool.false_ne_true

theorem PatternShape.below_trimmed {path : Text} : shape.trimmed.Below path ↔
    ∀ dir, shape.dir = some dir → trimStart dir ++ ['/'] <+: path := by
  cases shape <;> simp [trimmed, Below, dir, Option.map_eq_some_iff]

theorem PatternShape.IsLiteral.trimmed (hliteral : shape.IsLiteral) : shape.trimmed.IsLiteral := by
  have hdir : ∀ dir, shape.trimmed.dir = some dir → ∀ c ∈ dir, isLiteral c := by
    intro dir hdir c hc
    obtain ⟨whole, hwhole, rfl⟩ : ∃ whole, shape.dir = some whole ∧ trimStart whole = dir := by
      cases shape <;> exact Option.map_eq_some_iff.mp hdir
    exact hliteral.dir whole hwhole c ((List.dropWhile_sublist _).subset hc)
  exact ⟨hdir, by cases shape <;> exact hliteral.word⟩

theorem PatternShape.Made.trimmed (hmade : shape.Made) : shape.trimmed.Made := by
  cases shape <;> exact hmade

theorem matchesPath_iff (hlibrary : CoversShapes library) (hliteral : shape.IsLiteral)
    (hmade : shape.Made) (path : Text) :
    MatchesPath library shape.text path ↔ shape.trimmed.Covers (normalisePath path) := by
  obtain ⟨glob, hglob, hbuilds, hmatch⟩ := hlibrary.glob _ hliteral.trimmed hmade.trimmed
  have hbuilt : ∀ raw onError, trim raw ≠ [] → library.jsonStrings (trim raw) = some [shape.text] →
      globMatch library (some raw) path onError = library.isMatch glob (normalisePath path) := by
    intro raw onError hne hjson
    have hraw : ((some raw).map trim).filter (· ≠ []) = some (trim raw) := by
      simp [hne]
    unfold globMatch buildGlobset
    rw [hraw]
    simp only [hjson]
    rw [if_neg (List.cons_ne_nil _ _)]
    simp [PatternShape.trim_text hmade, hglob, hbuilds, setMatches]
  rw [← hmatch]
  constructor
  · intro hmatches
    obtain ⟨raw, hne, htrim, hjson⟩ := hlibrary.json shape.text
    rw [← hbuilt raw .drop (htrim.symm ▸ hne) (htrim.symm ▸ hjson)]
    exact hmatches raw .drop (htrim.symm ▸ hne) (htrim.symm ▸ hjson)
  · intro hcovers raw onError hne hjson
    rw [hbuilt raw onError hne hjson, hcovers]

end Matching

/-! ## The patterns of a path -/

section Patterns

variable {path normalized : Text}

theorem fileName_of_directory_none (hdir : directory normalized = none) :
    fileName normalized = normalized := by
  unfold directory at hdir
  rw [fileName, Option.map_eq_none_iff.mp hdir, Option.elim_none]

theorem slash_not_mem_of_directory_none (hdir : directory normalized = none) :
    '/' ∉ normalized := by
  unfold directory at hdir
  rw [Option.map_eq_none_iff, rsplitOnce_eq_none, List.singleton_infix_iff] at hdir
  exact hdir

theorem eq_of_directory {dir : Text} (hdir : directory normalized = some dir) :
    normalized = dir ++ '/' :: fileName normalized ∧ '/' ∉ fileName normalized := by
  unfold directory at hdir
  obtain ⟨cut, hcut, rfl⟩ := Option.map_eq_some_iff.mp hdir
  obtain ⟨heq, hlast⟩ := rsplitOnce_eq_some (by simp) hcut
  rw [fileName, hcut, Option.elim_some]
  exact ⟨heq, by rwa [List.singleton_infix_iff] at hlast⟩

theorem mem_fileName {c : Char} (hc : c ∈ fileName normalized) : c ∈ normalized ∧ c ≠ '/' := by
  cases hdir : directory normalized with
  | none =>
    rw [fileName_of_directory_none hdir] at hc
    exact ⟨hc, fun hslash => slash_not_mem_of_directory_none hdir (hslash ▸ hc)⟩
  | some dir =>
    obtain ⟨heq, hlast⟩ := eq_of_directory hdir
    refine ⟨?_, fun hslash => hlast (hslash ▸ hc)⟩
    rw [heq]
    exact List.mem_append_right _ (.tail _ hc)

theorem isLiteral_of_extension (hext : isReviewFileExtension ext) :
    ∀ c ∈ ext, isLiteral c ∧ c ≠ '/' := by
  have hall : (sourceCodeExtensions ++ reviewExtraExtensions).all
      (fun ext => ext.all fun c => isLiteral c && c ≠ '/') := by decide
  have hmem : ext ∈ sourceCodeExtensions ++ reviewExtraExtensions := by
    simpa [isReviewFileExtension, isSourceCodeExtension] using hext
  intro c hc
  simpa using List.all_eq_true.mp (List.all_eq_true.mp hall ext hmem) c hc

theorem monorepoFolder_eq_some {folder : Text} (hfolder : monorepoFolder normalized = some folder) :
    folder ∈ monorepoFolders ∧ ∃ rest, normalized = folder ++ '/' :: rest ∧ '/' ∈ rest := by
  refine ⟨List.mem_of_find?_eq_some hfolder, ?_⟩
  have hrest := List.find?_some hfolder
  cases hstrip : stripPrefix (folder ++ ['/']) normalized with
  | none => simp [hstrip] at hrest
  | some rest =>
    refine ⟨rest, ?_, by simpa [hstrip] using hrest⟩
    rw [stripPrefix_eq_some hstrip, List.append_assoc]
    rfl

theorem isPrefix_folder {folder dir : Text} (hfolder : monorepoFolder normalized = some folder)
    (hdir : directory normalized = some dir) : folder ++ ['/'] <+: dir ++ ['/'] := by
  obtain ⟨-, rest, hrest, hslash⟩ := monorepoFolder_eq_some hfolder
  obtain ⟨heq, hlast⟩ := eq_of_directory hdir
  have hfolderPrefix : folder ++ ['/'] <+: normalized := ⟨rest, by rw [hrest]; simp⟩
  have hdirPrefix : dir ++ ['/'] <+: normalized :=
    ⟨fileName normalized, by rw [List.append_assoc]; exact heq.symm⟩
  refine List.prefix_of_prefix_length_le hfolderPrefix hdirPrefix ?_
  -- the last slash is in the rest behind the folder
  by_contra hlonger
  have hrestSuffix : rest <:+ normalized := ⟨folder ++ ['/'], by rw [hrest]; simp⟩
  have hfileSuffix : fileName normalized <:+ normalized :=
    ⟨dir ++ ['/'], by rw [List.append_assoc]; exact heq.symm⟩
  have hlength := congrArg List.length hrest
  have hlengthDir := congrArg List.length heq
  simp only [List.length_append, List.length_cons, List.length_nil] at hlonger hlength hlengthDir
  have hsuffix := List.suffix_of_suffix_length_le hrestSuffix hfileSuffix (by omega)
  exact hlast (hsuffix.subset hslash)

theorem extension_suffix (hext : lowerExtension normalized = some ext) :
    '.' :: ext <:+ toAsciiLowercase (fileName normalized) := by
  unfold lowerExtension at hext
  obtain ⟨cut, hcut, hlower⟩ := Option.bind_eq_some_iff.mp hext
  simp only [Option.ite_none_left_eq_some, Option.some.injEq, Bool.or_eq_true,
    decide_eq_true_eq, not_or] at hlower
  obtain ⟨⟨⟨-, hslash⟩, -⟩, rfl⟩ := hlower
  obtain ⟨heq, -⟩ := rsplitOnce_eq_some (by simp) hcut
  have hraw : '.' :: cut.2 <:+ normalized := ⟨cut.1, heq.symm⟩
  have hsuffix : '.' :: cut.2 <:+ fileName normalized := by
    cases hdir : directory normalized with
    | none => rwa [fileName_of_directory_none hdir]
    | some dir =>
      obtain ⟨hsplit, -⟩ := eq_of_directory hdir
      have hfile : '/' :: fileName normalized <:+ normalized := ⟨dir, hsplit.symm⟩
      rcases le_total ('.' :: cut.2).length (fileName normalized).length with hle | hle
      · exact List.suffix_of_suffix_length_le hraw
          ((List.suffix_cons _ _).trans hfile) hle
      · -- otherwise the extension would hold the slash, or be the whole name
        rcases hle.eq_or_lt with hsame | hlonger
        · exact List.suffix_of_suffix_length_le hraw
            ((List.suffix_cons _ _).trans hfile) hsame.ge
        · have hlong := List.suffix_of_suffix_length_le hfile hraw hlonger
          have hmem := hlong.subset (.head _)
          simp [hslash] at hmem
  obtain ⟨front, hfront⟩ := hsuffix
  refine ⟨toAsciiLowercase front, ?_⟩
  rw [← hfront]
  unfold toAsciiLowercase
  rw [List.map_append]
  rfl

theorem not_source_of_manifest (hmanifest : isManifestFilename (fileName normalized))
    (hext : lowerExtension normalized = some ext) : isSourceCodeExtension ext = false := by
  have hall : manifestFilenames.all (fun name => sourceCodeExtensions.all fun ext =>
      !('.' :: ext).isSuffixOf name) := by decide
  rw [Bool.eq_false_iff]
  intro hsource
  simp only [isManifestFilename, isSourceCodeExtension, decide_eq_true_eq] at hmanifest hsource
  have hnot := List.all_eq_true.mp (List.all_eq_true.mp hall _ hmanifest) ext hsource
  rw [Bool.not_eq_true', Bool.eq_false_iff] at hnot
  exact hnot (List.isSuffixOf_iff_suffix.mpr (extension_suffix hext))

theorem mem_withBroad {narrow : Text} :
    pattern ∈ withBroad normalized ext narrow ↔ pattern = narrow ∨
      ∃ folder, monorepoFolder normalized = some folder ∧
        pattern = (PatternShape.extension (some folder) ext).text := by
  unfold withBroad
  cases monorepoFolder normalized with
  | none => simp
  | some folder =>
    by_cases hsame : folder ++ (underAny ++ starDotExt ext) = narrow
    · simp [hsame, PatternShape.text, PatternShape.dir, PatternShape.file]
    · simp [hsame, PatternShape.text, PatternShape.dir, PatternShape.file]

theorem directory_of_pasted {dir : Text} (hdir : pastedDirectory normalized = some dir) :
    directory normalized = some dir := (Option.filter_eq_some_iff.mp hdir).1

theorem pastedDirectory_of_manifest (hmanifest : isManifestFilename (fileName normalized) = true) :
    pastedDirectory normalized = directory normalized := by
  unfold pastedDirectory
  rw [hmanifest]
  cases directory normalized <;> simp

theorem pastedDirectory_eq_none_iff (hmanifest : isManifestFilename (fileName normalized) = false) :
    pastedDirectory normalized = none ↔ (directory normalized).getD "**".toList = "**".toList := by
  unfold pastedDirectory
  rw [hmanifest]
  cases directory normalized <;> simp [Option.filter]

theorem narrow_eq (hmanifest : isManifestFilename (fileName normalized) = false) (ext : Text) :
    (if (directory normalized).getD "**".toList = "**".toList then anywhere ++ starDotExt ext
      else (directory normalized).getD "**".toList ++ (underAny ++ starDotExt ext)) =
      (PatternShape.extension (pastedDirectory normalized) ext).text := by
  cases hpasted : pastedDirectory normalized with
  | none =>
    rw [if_pos ((pastedDirectory_eq_none_iff hmanifest).mp hpasted)]
    rfl
  | some dir =>
    have hbelow : (directory normalized).getD "**".toList ≠ "**".toList := by
      rw [Ne, ← pastedDirectory_eq_none_iff hmanifest, hpasted]
      exact Option.some_ne_none dir
    rw [if_neg hbelow, directory_of_pasted hpasted]
    rfl

theorem isLiteral_of_folder {folder : Text} (hfolder : monorepoFolder normalized = some folder) :
    ∀ c ∈ folder, isLiteral c := by
  have hall : monorepoFolders.all (·.all isLiteral) := by decide
  intro c hc
  exact List.all_eq_true.mp
    (List.all_eq_true.mp hall folder (monorepoFolder_eq_some hfolder).1) c hc

theorem pastedDirectory_of_folder (hmanifest : isManifestFilename (fileName normalized) = false)
    {folder : Text} (hfolder : monorepoFolder normalized = some folder) :
    ∃ dir, pastedDirectory normalized = some dir ∧
      trimStart folder ++ ['/'] <+: trimStart dir ++ ['/'] := by
  obtain ⟨hmem, rest, hrest, -⟩ := monorepoFolder_eq_some hfolder
  have hslash : '/' ∈ normalized := by
    rw [hrest]
    simp
  obtain ⟨dir, hdir⟩ := Option.ne_none_iff_exists'.mp
    fun hnone => slash_not_mem_of_directory_none hnone hslash
  have hbefore := isPrefix_folder hfolder hdir
  have hstars : dir ≠ "**".toList := by
    rintro rfl
    have hnone : monorepoFolders.all fun folder =>
        !(folder ++ ['/']).isPrefixOf ("**".toList ++ ['/']) := by decide
    have hnot := List.all_eq_true.mp hnone folder hmem
    rw [List.isPrefixOf_iff_prefix.mpr hbefore] at hnot
    contradiction
  refine ⟨dir, ?_, ?_⟩
  · cases hpasted : pastedDirectory normalized with
    | none =>
      rw [pastedDirectory_eq_none_iff hmanifest, hdir] at hpasted
      exact absurd hpasted hstars
    | some pasted => exact (directory_of_pasted hpasted).symm.trans hdir
  · obtain ⟨more, hmore⟩ := hbefore
    refine ⟨more, ?_⟩
    have hdirs := congrArg trimStart hmore
    rwa [List.append_assoc, List.singleton_append, trimStart_append_slash, trimStart_append_slash,
      ← List.singleton_append, ← List.append_assoc] at hdirs

theorem made_of_isNamed (hnamed : isNamed normalized = true) :
    (PatternShape.named (pastedDirectory normalized) (fileName normalized)).Made := by
  rw [isNamed, Bool.or_eq_true, Bool.and_eq_true, decide_eq_true_eq] at hnamed
  exact hnamed.imp_right fun hmd => extension_suffix hmd.1

theorem pathPatterns_named (hpath : reviewPath path = some normalized)
    (hnamed : isNamed normalized = true) :
    pathPatterns widenForUpstream path =
      [(PatternShape.named (pastedDirectory normalized) (fileName normalized)).text] := by
  have hwide : repoWideFilePatternFromPath path = none := by
    simp only [repoWideFilePatternFromPath, hpath, Option.bind_some, Option.bind_eq_none_iff]
    intro ext hext
    rw [isNamed, Bool.or_eq_true, Bool.and_eq_true, decide_eq_true_eq] at hnamed
    rcases hnamed with hmanifest | ⟨hmd, -⟩
    · rw [not_source_of_manifest hmanifest hext]
      rfl
    · rw [hext, Option.some.injEq] at hmd
      rw [hmd]
      rfl
  have hnarrow : filePatternsFromPath path =
      [(PatternShape.named (pastedDirectory normalized) (fileName normalized)).text] := by
    unfold filePatternsFromPath
    simp only [hpath]
    by_cases hmanifest : isManifestFilename (fileName normalized)
    · rw [if_pos hmanifest, pastedDirectory_of_manifest hmanifest]
      rfl
    · rw [if_neg hmanifest]
      rw [Bool.not_eq_true] at hmanifest
      rw [isNamed, hmanifest, Bool.false_or, Bool.and_eq_true, decide_eq_true_eq,
        decide_eq_true_eq] at hnamed
      rw [hnamed.1, hnamed.2]
      simp only [(pastedDirectory_eq_none_iff hmanifest).mp hnamed.2, decide_true, Bool.and_self,
        if_true]
      rfl
  rw [pathPatterns, hwide, hnarrow]
  cases widenForUpstream <;> rfl

theorem mem_pathPatterns_extension (hpath : reviewPath path = some normalized)
    (hnamed : isNamed normalized = false)
    (hext : lowerExtension normalized = some ext) (hreview : isReviewFileExtension ext = true) :
    pattern ∈ pathPatterns widenForUpstream path ↔
      pattern = (PatternShape.extension (pastedDirectory normalized) ext).text ∨
        (∃ folder, monorepoFolder normalized = some folder ∧
          pattern = (PatternShape.extension (some folder) ext).text) ∨
        (widenForUpstream = true ∧ isSourceCodeExtension ext = true ∧
          pattern = (PatternShape.extension none ext).text) := by
  rw [isNamed, Bool.or_eq_false_iff] at hnamed
  obtain ⟨hmanifest, hroot⟩ := hnamed
  have hmd :
      (ext = "md".toList && (directory normalized).getD "**".toList = "**".toList) = false := by
    simpa [hext, pastedDirectory_eq_none_iff hmanifest] using hroot
  have hnarrow : filePatternsFromPath path = withBroad normalized ext
      (PatternShape.extension (pastedDirectory normalized) ext).text := by
    unfold filePatternsFromPath
    simp only [hpath, hmanifest, hext, hreview, Bool.false_eq_true, if_false, Bool.not_true]
    rw [hmd, narrow_eq hmanifest]
    rfl
  have hwide : pattern ∈ (if widenForUpstream then (repoWideFilePatternFromPath path).toList
      else []) ↔ widenForUpstream = true ∧ isSourceCodeExtension ext = true ∧
        pattern = (PatternShape.extension none ext).text := by
    simp only [repoWideFilePatternFromPath, hpath, Option.bind_some, hext]
    cases widenForUpstream <;> cases isSourceCodeExtension ext <;>
      simp [PatternShape.text, PatternShape.dir, PatternShape.file]
  rw [pathPatterns, List.mem_append, hnarrow, mem_withBroad, hwide, or_assoc]

theorem exists_extension_of_ne_nil (hpath : reviewPath path = some normalized)
    (hnamed : isNamed normalized = false) (hne : pathPatterns widenForUpstream path ≠ []) :
    ∃ ext, lowerExtension normalized = some ext ∧ isReviewFileExtension ext = true := by
  rw [isNamed, Bool.or_eq_false_iff] at hnamed
  by_contra hnone
  apply hne
  unfold pathPatterns filePatternsFromPath repoWideFilePatternFromPath
  simp only [hpath, hnamed.1, Bool.false_eq_true, if_false, Option.bind_some]
  cases hext : lowerExtension normalized with
  | none => simp
  | some ext =>
    have hreview : isReviewFileExtension ext = false := by
      rw [Bool.eq_false_iff]
      exact fun hreview => hnone ⟨ext, hext, hreview⟩
    have hsource : isSourceCodeExtension ext = false := by
      rw [isReviewFileExtension, Bool.or_eq_false_iff] at hreview
      exact hreview.1
    simp [hreview, hsource]

/-- The patterns of a path match it exactly if the path, as it is matched, keeps the directory and
the end that they are made of. -/
theorem pathSound_iff_kept {library : GlobLibrary} (hlibrary : CoversShapes library)
    (hpath : reviewPath path = some normalized) (hpasted : PastedLiteral normalized)
    (hne : pathPatterns widenForUpstream path ≠ []) :
    PathSound library widenForUpstream path ↔ Kept normalized (normalisePath path) := by
  cases hnamed : isNamed normalized with
  | true =>
    have hshape :
        (PatternShape.named (pastedDirectory normalized) (fileName normalized)).IsLiteral :=
      ⟨hpasted.dir, fun c hc => ⟨hpasted.name hnamed c hc, (mem_fileName hc).2⟩⟩
    rw [PathSound, pathPatterns_named hpath hnamed, List.forall_mem_singleton,
      matchesPath_iff hlibrary hshape (made_of_isNamed hnamed), PatternShape.Covers,
      PatternShape.below_trimmed, Kept, if_pos hnamed]
    rfl
  | false =>
    have hmanifest := (Bool.or_eq_false_iff.mp hnamed).1
    obtain ⟨ext, hext, hreview⟩ := exists_extension_of_ne_nil hpath hnamed hne
    have hword := isLiteral_of_extension hreview
    have hmatches : ∀ dir, (∀ whole, dir = some whole → ∀ c ∈ whole, isLiteral c) →
        (MatchesPath library (PatternShape.extension dir ext).text path ↔
          (∀ whole, dir = some whole → trimStart whole ++ ['/'] <+: normalisePath path) ∧
            '.' :: ext <:+ normalisePath path) := by
      intro dir hliteral
      have hshape : (PatternShape.extension dir ext).IsLiteral := ⟨hliteral, hword⟩
      rw [matchesPath_iff hlibrary hshape hreview, PatternShape.Covers, PatternShape.below_trimmed]
      rfl
    have hkept : Kept normalized (normalisePath path) ↔
        (∀ dir, pastedDirectory normalized = some dir →
          trimStart dir ++ ['/'] <+: normalisePath path) ∧ '.' :: ext <:+ normalisePath path := by
      simp [Kept, hnamed, hext]
    rw [hkept]
    constructor
    · intro hsound
      exact (hmatches _ hpasted.dir).mp
        (hsound _ ((mem_pathPatterns_extension hpath hnamed hext hreview).mpr (.inl rfl)))
    · intro hcovers pattern hpattern
      rcases (mem_pathPatterns_extension hpath hnamed hext hreview).mp hpattern with
        rfl | ⟨folder, hfolder, rfl⟩ | ⟨-, -, rfl⟩
      · exact (hmatches _ hpasted.dir).mpr hcovers
      · -- the folder stands in front of the directory
        obtain ⟨dir, hdir, hbefore⟩ := pastedDirectory_of_folder hmanifest hfolder
        refine (hmatches (some folder) ?_).mpr ⟨?_, hcovers.2⟩
        · rintro _ ⟨rfl⟩
          exact isLiteral_of_folder hfolder
        · rintro _ ⟨rfl⟩
          exact hbefore.trans (hcovers.1 dir hdir)
      · refine (hmatches none ?_).mpr ⟨?_, hcovers.2⟩ <;> rintro _ ⟨⟩

end Patterns

/-- Reads a list of one string, and the globs that are made: literal text up to the first star
stands in front, and behind `**/` comes a name or an extension. -/
def smallGlobs : GlobLibrary where
  Glob := Text
  jsonStrings := starLibrary.jsonStrings
  newGlob := some
  builds _ := true
  isMatch pattern path :=
    let front := pattern.takeWhile (· ≠ '*')
    front.all isLiteral && front.isPrefixOf path &&
      match (pattern.dropWhile (· ≠ '*')).drop anywhere.length with
      | '*' :: ending => ending.isSuffixOf path
      | name => path = name || ('/' :: name).isSuffixOf path

theorem span_text (hliteral : shape.IsLiteral) :
    shape.text.takeWhile (· ≠ '*') = shape.dir.elim [] (· ++ ['/']) ∧
      (shape.text.dropWhile (· ≠ '*')).drop anywhere.length = shape.file := by
  unfold PatternShape.text
  cases hdir : shape.dir with
  | none => exact ⟨rfl, rfl⟩
  | some dir =>
    have hfront : ∀ c ∈ dir ++ ['/'], decide (c ≠ '*') = true := by
      intro c hc
      rw [decide_eq_true_eq]
      rintro rfl
      rcases List.mem_append.mp hc with hmem | hslash
      · exact absurd (hliteral.dir dir hdir '*' hmem) (by decide)
      · exact absurd hslash (by decide)
    have htext : dir ++ (underAny ++ shape.file) = (dir ++ ['/']) ++ (anywhere ++ shape.file) := by
      simp [underAny, anywhere]
    rw [Option.elim_some, Option.elim_some, htext, List.takeWhile_append_of_pos hfront,
      List.dropWhile_append_of_pos hfront]
    exact ⟨List.append_nil _, rfl⟩

theorem smallGlobs_coversShapes : CoversShapes smallGlobs where
  json pattern := ⟨jsonSingleton pattern, by simp [jsonSingleton], trim_jsonSingleton pattern, by
    have hend : pattern ++ ['"', ']'] = (pattern ++ ['"']) ++ [']'] := by simp
    simp only [smallGlobs, starLibrary, jsonSingleton]
    rw [hend, List.dropLast_concat, List.dropLast_concat]⟩
  glob shape hliteral _ := by
    refine ⟨shape.text, rfl, rfl, fun path => ?_⟩
    obtain ⟨hfront, hfile⟩ := span_text hliteral
    have hliterals : (shape.dir.elim [] (· ++ ['/'])).all isLiteral = true := by
      rw [List.all_eq_true]
      intro c hc
      cases hdir : shape.dir with
      | none => simp [hdir] at hc
      | some dir =>
        rw [hdir, Option.elim_some] at hc
        rcases List.mem_append.mp hc with hmem | hslash
        · exact hliteral.dir dir hdir c hmem
        · exact List.mem_singleton.mp hslash ▸ by decide
    have hbelow : (shape.dir.elim [] (· ++ ['/'])).isPrefixOf path = true ↔ shape.Below path := by
      cases hdir : shape.dir <;> simp [PatternShape.Below, hdir]
    simp only [smallGlobs, hfront, hfile, hliterals, Bool.true_and, Bool.and_eq_true, hbelow,
      PatternShape.Covers]
    refine and_congr_right fun _ => ?_
    cases shape with
    | extension dir ext => simp [PatternShape.file, starDotExt, PatternShape.Ends]
    | named dir name =>
      simp only [PatternShape.file, PatternShape.Ends]
      split
      next =>
        exact absurd (hliteral.word '*' (.head _)).1 (by decide)
      next => simp

/-- For a path whose pasted parts have no glob character the patterns match exactly if the path is
kept. The combined list has no repetition and stays within the limit. -/
theorem candidateFilePatterns_sound {library : GlobLibrary} (hlibrary : CoversShapes library)
    (widenForUpstream : Bool) :
    (∀ path normalized, reviewPath path = some normalized → PastedLiteral normalized →
      pathPatterns widenForUpstream path ≠ [] →
      (PathSound library widenForUpstream path ↔ Kept normalized (normalisePath path))) ∧
      ∀ scopePaths patterns, candidateFilePatterns scopePaths widenForUpstream = some patterns →
        patterns.Nodup ∧ patterns.length ≤ 32 ∧
          ∀ pattern ∈ patterns,
            ∃ path ∈ scopePaths, pattern ∈ pathPatterns widenForUpstream path := by
  refine ⟨fun path normalized hpath hpasted hne => pathSound_iff_kept hlibrary hpath hpasted hne,
    fun scopePaths patterns hpatterns => ?_⟩
  have hgathered := candidateFilePatterns_gathered hpatterns
  exact ⟨hgathered.nodup, hgathered.bounded,
    fun pattern hpattern => List.mem_flatMap.mp (hgathered.derived pattern hpattern)⟩

theorem candidateFilePatterns_sound_small :
    (∀ path normalized, reviewPath path = some normalized → PastedLiteral normalized →
      pathPatterns true path ≠ [] →
      (PathSound smallGlobs true path ↔ Kept normalized (normalisePath path))) ∧
      ∀ scopePaths patterns, candidateFilePatterns scopePaths true = some patterns →
        patterns.Nodup ∧ patterns.length ≤ 32 ∧
          ∀ pattern ∈ patterns, ∃ path ∈ scopePaths, pattern ∈ pathPatterns true path :=
  candidateFilePatterns_sound smallGlobs_coversShapes true

/-- An upper-case extension, a leading slash and a directory in brackets are not matched by the
patterns that are made of them. -/
theorem not_pathSound : ¬ PathSound smallGlobs false "src/App.TSX".toList ∧
    ¬ PathSound smallGlobs false "/src/lib.rs".toList ∧
      ¬ PathSound smallGlobs false "app/[id]/page.tsx".toList := by
  have hfails : ∀ pattern path raw, pattern ∈ pathPatterns false path → trim raw ≠ [] →
      smallGlobs.jsonStrings (trim raw) = some [pattern] →
      globMatch smallGlobs (some raw) path .drop = false → ¬ PathSound smallGlobs false path := by
    intro pattern path raw hmem hraw hjson hmatch hsound
    rw [hsound pattern hmem raw .drop hraw hjson] at hmatch
    contradiction
  exact ⟨hfails "src/**/*.tsx".toList _ "[\"src/**/*.tsx\"]".toList (by decide) (by decide)
      (by decide) (by decide),
    hfails "/src/**/*.rs".toList _ "[\"/src/**/*.rs\"]".toList (by decide) (by decide)
      (by decide) (by decide),
    hfails "app/[id]/**/*.tsx".toList _ "[\"app/[id]/**/*.tsx\"]".toList (by decide) (by decide)
      (by decide) (by decide)⟩

end Difflore.Ingest
