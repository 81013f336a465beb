import Difflore.Foundation.Text

/-! # File patterns of a rule

A rule lists globs as JSON. A path is normalised before it is matched: leading slashes go, then
backslashes become slashes. Backslashes in front are therefore not dropped.
-/

namespace Difflore.Domain

open Foundation Text

/-- What matching uses of `serde_json` and `globset`. -/
structure GlobLibrary where
  Glob : Type
  jsonStrings : Text → Option (List Text)
  newGlob : Text → Option Glob
  builds : List Glob → Bool
  isMatch : Glob → Text → Bool

inductive GlobErrorPolicy
  | overRecall
  | drop

def GlobErrorPolicy.verdict : GlobErrorPolicy → Bool
  | overRecall => true
  | drop => false

variable (library : GlobLibrary)

inductive BuiltPatterns
  | universal
  | set (globs : List library.Glob)
  | unusable

def buildGlobset (patternsJson : Option Text) : BuiltPatterns library :=
  match (patternsJson.map trim).filter (· ≠ []) with
  | none => .universal
  | some raw =>
    match library.jsonStrings raw with
    | none => .unusable
    | some patterns =>
      if patterns = [] then .universal
      else
        let globs := patterns.filterMap fun pattern => library.newGlob (trim pattern)
        if globs.isEmpty then .unusable
        else if library.builds globs then .set globs
        else .unusable

def toSlash (c : Char) : Char := if c = '\\' then '/' else c

def normalisePath (path : Text) : Text := (path.dropWhile (· = '/')).map toSlash

def setMatches (globs : List library.Glob) (path : Text) : Bool :=
  globs.any (library.isMatch · (normalisePath path))

def globMatch (patternsJson : Option Text) (path : Text) (onError : GlobErrorPolicy) : Bool :=
  match buildGlobset library patternsJson with
  | .universal => true
  | .unusable => onError.verdict
  | .set globs => setMatches library globs path

def globMatchChangeset (patternsJson : Option Text) (paths : List Text)
    (onError : GlobErrorPolicy) : Bool :=
  match buildGlobset library patternsJson with
  | .universal => true
  | .unusable => onError.verdict
  | .set globs => paths.any (setMatches library globs)

theorem globMatchChangeset_eq_any {paths : List Text} (hpaths : paths ≠ [])
    (patternsJson : Option Text) (onError : GlobErrorPolicy) :
    globMatchChangeset library patternsJson paths onError =
      paths.any (globMatch library patternsJson · onError) := by
  obtain ⟨first, rest, rfl⟩ := List.exists_cons_of_ne_nil hpaths
  unfold globMatchChangeset globMatch
  cases buildGlobset library patternsJson with
  | universal => simp
  | unusable => cases onError <;> simp [GlobErrorPolicy.verdict]
  | set globs => rfl

def isSeparator (c : Char) : Bool := c = '/' || c = '\\'

def canonicalPath (path : Text) : Text := (path.map toSlash).dropWhile (· = '/')

def Respelled (path other : Text) : Prop := canonicalPath path = canonicalPath other

instance (path other : Text) : Decidable (Respelled path other) :=
  inferInstanceAs (Decidable (canonicalPath path = canonicalPath other))

/-- The separators in front that are left once leading slashes are gone. -/
def separatorsLeft (path : Text) : Nat := ((path.dropWhile (· = '/')).takeWhile isSeparator).length

theorem toSlash_eq_slash (c : Char) : decide (toSlash c = '/') = isSeparator c := by
  unfold toSlash isSeparator
  split
  next hc => simp [hc]
  next hc => simp [hc]

theorem takeWhile_toSlash (path : Text) :
    (path.map toSlash).takeWhile (· = '/') = (path.takeWhile isSeparator).map toSlash := by
  rw [List.takeWhile_map]
  congr 2
  funext c
  exact toSlash_eq_slash c

theorem dropWhile_toSlash (path : Text) :
    (path.map toSlash).dropWhile (· = '/') = (path.dropWhile isSeparator).map toSlash := by
  rw [List.dropWhile_map]
  congr 2
  funext c
  exact toSlash_eq_slash c

theorem dropWhile_slashes (path : Text) :
    (path.dropWhile (· = '/')).dropWhile isSeparator = path.dropWhile isSeparator := by
  induction path with
  | nil => rfl
  | cons c rest ih =>
    by_cases hc : c = '/'
    · simp [hc, isSeparator, ih]
    · simp [hc]

theorem normalisePath_eq (path : Text) :
    normalisePath path = List.replicate (separatorsLeft path) '/' ++ canonicalPath path := by
  have hslashes : (normalisePath path).takeWhile (· = '/') =
      List.replicate (separatorsLeft path) '/' := by
    rw [List.eq_replicate_iff]
    constructor
    · rw [normalisePath, takeWhile_toSlash, List.length_map, separatorsLeft]
    · intro c hc
      have hslash := List.mem_takeWhile_imp (p := fun c => decide (c = '/')) hc
      exact of_decide_eq_true hslash
  have hcanonical : (normalisePath path).dropWhile (· = '/') = canonicalPath path := by
    rw [normalisePath, canonicalPath, dropWhile_toSlash, dropWhile_toSlash, dropWhile_slashes]
  rw [← hslashes, ← hcanonical, List.takeWhile_append_dropWhile]

theorem canonicalPath_head (path : Text) : ¬ ['/'] <+: canonicalPath path := by
  rintro ⟨rest, hrest⟩
  have hhead := List.head?_dropWhile_not (· = '/') (path.map toSlash)
  rw [← canonicalPath, ← hrest] at hhead
  simp at hhead

/-! ## What is known of the libraries -/

/-- Characters that stand for themselves, in a glob and in a JSON string. -/
def isPlain (c : Char) : Bool :=
  c ∉ ['?', '*', '[', ']', '\x7b', '\x7d', '!', ',', '\\', '"'] && ' ' ≤ c

def jsonSingleton (text : Text) : Text := '[' :: '"' :: (text ++ ['"', ']'])

/-- Plain characters are read as they are, and a star at the end stands for any rest. -/
structure GlobLibrary.Documented : Prop where
  json : ∀ text, text.all isPlain = true → ∀ last, last = [] ∨ last = ['*'] →
    library.jsonStrings (jsonSingleton (text ++ last)) = some [text ++ last]
  star : ∀ text, text.all isPlain = true → ∃ glob, library.newGlob (text ++ ['*']) = some glob ∧
    library.builds [glob] = true ∧ ∀ path, library.isMatch glob path = true ↔ text <+: path

variable {library}

theorem trim_jsonSingleton (text : Text) : trim (jsonSingleton text) = jsonSingleton text := by
  apply trim_of_ends
  · simp [jsonSingleton, isWhitespace]
  · have hlast : (jsonSingleton text).getLast? = some ']' := by
      simp [jsonSingleton, List.getLast?_cons]
    rw [hlast]
    simp [isWhitespace]

theorem trim_slashes_star (count : Nat) :
    trim (List.replicate count '/' ++ ['*']) = List.replicate count '/' ++ ['*'] := by
  apply trim_of_ends
  · cases count with
    | zero => simp [isWhitespace]
    | succ count =>
      simp [List.replicate_succ, isWhitespace]
  · rw [List.getLast?_concat]
    simp [isWhitespace]

def slashRule (count : Nat) : Text := jsonSingleton (List.replicate count '/' ++ ['*'])

theorem globMatch_slashRule (hdoc : library.Documented) (count : Nat) (path : Text)
    (onError : GlobErrorPolicy) :
    globMatch library (some (slashRule count)) path onError = true ↔
      List.replicate count '/' <+: normalisePath path := by
  have hplain : (List.replicate count '/').all isPlain = true := by
    rw [List.all_eq_true]
    intro c hc
    rw [List.eq_of_mem_replicate hc]
    decide
  obtain ⟨glob, hglob, hbuilds, hmatch⟩ := hdoc.star _ hplain
  have hraw : ((some (slashRule count)).map trim).filter (· ≠ []) = some (slashRule count) := by
    rw [Option.map_some, slashRule, trim_jsonSingleton]
    rfl
  have hbuilt : buildGlobset library (some (slashRule count)) = .set [glob] := by
    unfold buildGlobset
    rw [hraw]
    simp only [slashRule, hdoc.json _ hplain _ (.inr rfl)]
    rw [if_neg (List.cons_ne_nil _ _)]
    simp [trim_slashes_star, hglob, hbuilds]
  unfold globMatch
  rw [hbuilt]
  simp only [setMatches, List.any_cons, List.any_nil, Bool.or_false]
  exact hmatch _

theorem separatorsLeft_le (hdoc : library.Documented) {path other : Text}
    (hsame : ∀ patternsJson onError, globMatch library patternsJson path onError =
      globMatch library patternsJson other onError) :
    separatorsLeft other ≤ separatorsLeft path := by
  have hother : globMatch library (some (slashRule (separatorsLeft other))) other .drop = true := by
    rw [globMatch_slashRule hdoc, normalisePath_eq]
    exact List.prefix_append _ _
  rw [← hsame, globMatch_slashRule hdoc, normalisePath_eq] at hother
  by_contra hlt
  obtain ⟨more, hmore⟩ := Nat.exists_eq_add_of_lt (not_le.mp hlt)
  rw [hmore, Nat.add_assoc, List.replicate_add, List.prefix_append_right_inj,
    List.replicate_succ] at hother
  have hhead : ['/'] <+: '/' :: List.replicate more '/' := List.prefix_append ['/'] _
  exact canonicalPath_head path (hhead.trans hother)

/-- A changeset is in scope if one of its paths is. Two spellings of a path are matched alike by
every rule exactly if as many separators are left in front of them. -/
theorem globMatch_respelled_iff (library : GlobLibrary) (hdoc : library.Documented) :
    (∀ patternsJson paths onError, paths ≠ [] →
      globMatchChangeset library patternsJson paths onError =
        paths.any (globMatch library patternsJson · onError)) ∧
      ∀ path other, Respelled path other →
        ((∀ patternsJson onError, globMatch library patternsJson path onError =
            globMatch library patternsJson other onError) ↔
          separatorsLeft path = separatorsLeft other) := by
  constructor
  · intro patternsJson paths onError hpaths
    exact globMatchChangeset_eq_any library hpaths patternsJson onError
  · intro path other hrespelled
    constructor
    · intro hsame
      apply le_antisymm
      · exact separatorsLeft_le hdoc fun patternsJson onError => (hsame patternsJson onError).symm
      · exact separatorsLeft_le hdoc hsame
    · intro hleft patternsJson onError
      have hnormal : normalisePath path = normalisePath other := by
        rw [normalisePath_eq, normalisePath_eq, hleft, hrespelled]
      unfold globMatch setMatches
      rw [hnormal]

def starLibrary : GlobLibrary where
  Glob := Text
  jsonStrings raw :=
    match raw with
    | '[' :: '"' :: rest => some [rest.dropLast.dropLast]
    | _ => none
  newGlob := some
  builds _ := true
  isMatch glob path := glob.dropLast <+: path

theorem starLibrary_documented : starLibrary.Documented where
  json text _ last _ := by
    simp only [starLibrary, jsonSingleton]
    congr 2
    have hend : text ++ last ++ ['"', ']'] = ((text ++ last) ++ ['"']) ++ [']'] := by simp
    rw [hend, List.dropLast_concat, List.dropLast_concat]
  star text _ := by
    refine ⟨text ++ ['*'], rfl, rfl, ?_⟩
    intro path
    simp [starLibrary]

theorem globMatch_respelled_iff_star : (∀ patternsJson paths onError, paths ≠ [] →
      globMatchChangeset starLibrary patternsJson paths onError =
        paths.any (globMatch starLibrary patternsJson · onError)) ∧
      ∀ path other, Respelled path other →
        ((∀ patternsJson onError, globMatch starLibrary patternsJson path onError =
            globMatch starLibrary patternsJson other onError) ↔
          separatorsLeft path = separatorsLeft other) :=
  globMatch_respelled_iff starLibrary starLibrary_documented

theorem rooted_backslash_not_matched : ¬ ∀ patternsJson path other onError, Respelled path other →
      globMatch starLibrary patternsJson path onError =
        globMatch starLibrary patternsJson other onError := by
  intro hclaim
  have hsame := hclaim (some "[\"src/*\"]") "/src/lib.rs" "\\src\\lib.rs"
    .drop (by decide)
  exact absurd hsame (by decide)

end Difflore.Domain
