import Difflore.Foundation.Arrivals
import Difflore.Skills.LadderRows

/-! # Aliases of repositories

The remotes of a fork name other repositories than the rules imported from upstream. A stored
repository with the name of a remote is an alias of it, if it is the only one besides the remotes.
-/

namespace Difflore.Skills

open Foundation Text Infra Context

variable {skills : SkillTable} {name repo : Text}

/-- Owner and name of an `owner/repo` scope; scopes with a host have none. -/
def legacyGithubScope (scope : Text) : Option (Text × Text) :=
  (splitOnce '/' scope).bind fun (owner, repo) =>
    if '.' ∈ owner || '/' ∈ repo || repo = [] then none else some (owner, repo)

def repoName (scope : Text) : Option Text := (legacyGithubScope scope).map Prod.snd

structure DetectedRemotes where
  scopes : List Text
  repoNames : List Text

def DetectedRemotes.add (found : DetectedRemotes) (raw : Text) : DetectedRemotes :=
  match normalizeCanonicalRepoScope raw with
  | none => found
  | some repo =>
    if repo ∈ found.scopes then found
    else
      { scopes := found.scopes ++ [repo]
        repoNames := match repoName repo with
          | none => found.repoNames
          | some name =>
            if name ∈ found.repoNames then found.repoNames else found.repoNames ++ [name] }

/-- `LIKE` with a pattern that starts with `%` and has no other. -/
def likeSuffix (pattern text : Text) : Bool := likePrefix pattern.reverse text.reverse

/-- `SELECT LOWER(source_repo) … GROUP BY LOWER(source_repo)`. -/
def storedSpellings (name : Text) (skills : SkillTable) : List Text :=
  (((skills.rows.filter fun row => row.status = .active).filterMap fun row =>
    (row.sourceRepo.filter (trimSpaces · ≠ [])).map toAsciiLowercase).filter
      (likeSuffix ('/' :: name) ·)).dedup

def aliasCandidates (name : Text) (seen : List Text) (skills : SkillTable) : List Text :=
  (storedSpellings name skills).filterMap fun spelling =>
    (normalizeCanonicalRepoScope spelling).filter fun repo =>
      repoName repo = some name && repo ∉ seen

def addAlias (skills : SkillTable) (scopes : List Text) (name : Text) : List Text :=
  match aliasCandidates name scopes skills with
  | [candidate] => scopes ++ [candidate]
  | _ => scopes

def expandRepoScopesWithSourceAliases (remotes : List Text) (skills : SkillTable) : List Text :=
  let found := remotes.foldl DetectedRemotes.add ⟨[], []⟩
  found.repoNames.foldl (addAlias skills) found.scopes

def canonicalRemotes (remotes : List Text) : List Text :=
  distinct (remotes.filterMap normalizeCanonicalRepoScope)

theorem foldl_add (remotes : List Text) : remotes.foldl DetectedRemotes.add ⟨[], []⟩ =
      ⟨canonicalRemotes remotes, distinct ((canonicalRemotes remotes).filterMap repoName)⟩ := by
  induction remotes using List.reverseRecOn with
  | nil => rfl
  | append_singleton remotes raw ih =>
    rw [List.foldl_append, ih, List.foldl_cons, List.foldl_nil, DetectedRemotes.add,
      canonicalRemotes, canonicalRemotes, List.filterMap_append]
    cases hrepo : normalizeCanonicalRepoScope raw with
    | none => simp [hrepo]
    | some repo =>
      simp only [List.filterMap_cons, List.filterMap_nil, hrepo, distinct_concat]
      split
      next => rfl
      next =>
        cases hname : repoName repo with
        | none => simp [hname]
        | some name => simp [hname, distinct_concat]

/-! ## The aliases -/

def boundRepo (row : SkillRow) : Option Text :=
  row.sourceRepo.bind fun stored => normalizeCanonicalRepoScope (toAsciiLowercase stored)

/-- The query for a name sees the rule: its repository is spelled with the name at the end. -/
def SpelledWith (name : Text) (row : SkillRow) : Prop :=
  ∃ stored ∈ row.sourceRepo, '/' :: name <:+ toAsciiLowercase stored

/-- Among the active rules bound to repositories of the name other than these, so spelled, all
are bound to the alias. -/
structure SoleAlias (skills : SkillTable) (scopes : List Text) (name repo : Text) : Prop where
  named : repoName repo = some name
  foreign : repo ∉ scopes
  bound : ∃ row ∈ skills.rows, row.status = .active ∧ boundRepo row = some repo
  sole : ∀ row ∈ skills.rows, row.status = .active → SpelledWith name row →
    ∀ other, boundRepo row = some other → repoName other = some name → other ∉ scopes → other = repo

theorem boundRepo_eq {row : SkillRow} {stored : Text} (hstored : stored ∈ row.sourceRepo) :
    boundRepo row = normalizeCanonicalRepoScope (toAsciiLowercase stored) := by
  rw [boundRepo, Option.mem_def.mp hstored, Option.bind_some]

theorem mem_storedSpellings {spelling : Text} : spelling ∈ storedSpellings name skills ↔
      (∃ row ∈ skills.rows, row.status = .active ∧ ∃ stored ∈ row.sourceRepo,
        trimSpaces stored ≠ [] ∧ toAsciiLowercase stored = spelling) ∧
      likeSuffix ('/' :: name) spelling = true := by
  simp only [storedSpellings, List.mem_dedup, List.mem_filter, List.mem_filterMap,
    decide_eq_true_eq, Option.map_eq_some_iff, Option.filter_eq_some_iff, Option.mem_def]
  constructor
  · rintro ⟨⟨row, ⟨hrow, hactive⟩, stored, ⟨hstored, hblank⟩, rfl⟩, hlike⟩
    exact ⟨⟨row, hrow, hactive, stored, hstored, hblank, rfl⟩, hlike⟩
  · rintro ⟨⟨row, hrow, hactive, stored, hstored, hblank, rfl⟩, hlike⟩
    exact ⟨⟨row, ⟨hrow, hactive⟩, stored, ⟨hstored, hblank⟩, rfl⟩, hlike⟩

theorem mem_aliasCandidates {seen : List Text} : repo ∈ aliasCandidates name seen skills ↔
      (∃ spelling ∈ storedSpellings name skills, normalizeCanonicalRepoScope spelling = some repo) ∧
      repoName repo = some name ∧ repo ∉ seen := by
  simp only [aliasCandidates, List.mem_filterMap, Option.filter_eq_some_iff, Bool.and_eq_true,
    decide_eq_true_eq]
  constructor
  · rintro ⟨spelling, hspelling, hrepo, hname, hseen⟩
    exact ⟨⟨spelling, hspelling, hrepo⟩, hname, hseen⟩
  · rintro ⟨⟨spelling, hspelling, hrepo⟩, hname, hseen⟩
    exact ⟨spelling, hspelling, hrepo, hname, hseen⟩

theorem trimSpaces_ne_nil {stored : Text} (hsuffix : '/' :: name <:+ toAsciiLowercase stored) :
    trimSpaces stored ≠ [] := by
  intro hblank
  have hspaces : ∀ c ∈ stored, c = ' ' := by
    intro c hc
    rw [trimSpaces, trimMatches, List.rdropWhile_eq_nil_iff] at hblank
    rw [← stored.takeWhile_append_dropWhile (p := (· = ' ')), List.mem_append] at hc
    rcases hc with hfront | hback
    · simpa using List.mem_takeWhile_imp hfront
    · simpa using hblank c hback
  obtain ⟨c, hc, hslash⟩ := List.mem_map.mp (hsuffix.subset (.head _))
  rw [toLower_eq_iff (by decide)] at hslash
  rw [hspaces c hc] at hslash
  exact absurd hslash (by decide)

theorem soleAlias_of_singleton {scopes : List Text}
    (hsingle : aliasCandidates name scopes skills = [repo]) :
    SoleAlias skills scopes name repo := by
  have hmem : repo ∈ aliasCandidates name scopes skills := hsingle ▸ List.mem_singleton_self _
  obtain ⟨⟨spelling, hspelling, hrepo⟩, hname, hseen⟩ := mem_aliasCandidates.mp hmem
  obtain ⟨⟨row, hrow, hactive, stored, hstored, _, rfl⟩, _⟩ := mem_storedSpellings.mp hspelling
  refine ⟨hname, hseen, ⟨row, hrow, hactive, (boundRepo_eq hstored).trans hrepo⟩, ?_⟩
  · rintro row hrow hactive ⟨stored, hstored, hsuffix⟩ other hbound hother hforeign
    rw [boundRepo_eq hstored] at hbound
    have hlike : likeSuffix ('/' :: name) (toAsciiLowercase stored) = true :=
      likePrefix_of_prefix (List.reverse_prefix.mpr hsuffix)
    have hcandidate : other ∈ aliasCandidates name scopes skills :=
      mem_aliasCandidates.mpr ⟨⟨_, mem_storedSpellings.mpr
        ⟨⟨row, hrow, hactive, stored, hstored, trimSpaces_ne_nil hsuffix, rfl⟩, hlike⟩, hbound⟩,
        hother, hforeign⟩
    rw [hsingle] at hcandidate
    exact List.mem_singleton.mp hcandidate

/-- An active rule is stored under the spelling, the query for the name finds it, and it stands
for a repository of the name that is not one of these. -/
structure Nominates (skills : SkillTable) (scopes : List Text) (name spelling repo : Text) :
    Prop where
  stored : ∃ row ∈ skills.rows, row.status = .active ∧ ∃ stored ∈ row.sourceRepo,
    trimSpaces stored ≠ [] ∧ toAsciiLowercase stored = spelling
  found : likeSuffix ('/' :: name) spelling = true
  canonical : normalizeCanonicalRepoScope spelling = some repo
  named : repoName repo = some name
  foreign : repo ∉ scopes

/-- One spelling, and no other, is stored for a repository of the name. -/
def SoleSpelling (skills : SkillTable) (scopes : List Text) (name repo : Text) : Prop :=
  ∃ spelling, Nominates skills scopes name spelling repo ∧
    ∀ other repo', Nominates skills scopes name other repo' → other = spelling

theorem nominates_iff {scopes : List Text} {spelling : Text} :
    Nominates skills scopes name spelling repo ↔ spelling ∈ storedSpellings name skills ∧
      ((normalizeCanonicalRepoScope spelling).filter fun repo =>
        repoName repo = some name && repo ∉ scopes) = some repo := by
  simp only [mem_storedSpellings, Option.filter_eq_some_iff, Bool.and_eq_true, decide_eq_true_eq]
  constructor
  · rintro ⟨hstored, hfound, hcanonical, hnamed, hforeign⟩
    exact ⟨⟨hstored, hfound⟩, hcanonical, hnamed, hforeign⟩
  · rintro ⟨⟨hstored, hfound⟩, hcanonical, hnamed, hforeign⟩
    exact ⟨hstored, hfound, hcanonical, hnamed, hforeign⟩

theorem filterMap_eq_singleton_iff {α β : Type} {f : α → Option β} {l : List α} (hl : l.Nodup)
    {b : β} : l.filterMap f = [b] ↔
      ∃ a ∈ l, f a = some b ∧ ∀ other ∈ l, ∀ b', f other = some b' → other = a := by
  constructor
  · intro hsingle
    obtain ⟨front, a, back, rfl, hfront, ha, hback⟩ := List.filterMap_eq_cons_iff.mp hsingle
    refine ⟨a, by simp, ha, fun other hother b' hb' => ?_⟩
    rcases List.mem_append.mp hother with hmem | hmem
    · rw [hfront other hmem] at hb'
      contradiction
    · rcases List.mem_cons.mp hmem with rfl | hmem
      · rfl
      · rw [List.filterMap_eq_nil_iff.mp hback other hmem] at hb'
        contradiction
  · rintro ⟨a, ha, hb, hother⟩
    obtain ⟨front, back, rfl⟩ := List.append_of_mem ha
    have hnone : ∀ other ∈ front ++ back, f other = none := by
      intro other hmem
      cases hcase : f other with
      | none => rfl
      | some b' =>
        obtain rfl := hother other (by simp_all [or_left_comm]) b' hcase
        have hfresh := (List.nodup_middle.mp hl)
        exact absurd hmem (List.nodup_cons.mp hfresh).1
    rw [List.filterMap_append, List.filterMap_cons_some hb,
      List.filterMap_eq_nil_iff.mpr fun other hmem => hnone other (List.mem_append_left _ hmem),
      List.filterMap_eq_nil_iff.mpr fun other hmem => hnone other (List.mem_append_right _ hmem),
      List.nil_append]

theorem aliasCandidates_eq_singleton_iff {scopes : List Text} :
    aliasCandidates name scopes skills = [repo] ↔ SoleSpelling skills scopes name repo := by
  have hdistinct : (storedSpellings name skills).Nodup := List.nodup_dedup _
  rw [aliasCandidates, filterMap_eq_singleton_iff hdistinct]
  constructor
  · rintro ⟨spelling, hspelling, hrepo, hsole⟩
    refine ⟨spelling, nominates_iff.mpr ⟨hspelling, hrepo⟩, fun other repo' hother => ?_⟩
    obtain ⟨hmem, hrepo'⟩ := nominates_iff.mp hother
    exact hsole other hmem repo' hrepo'
  · rintro ⟨spelling, hnominates, hsole⟩
    obtain ⟨hspelling, hrepo⟩ := nominates_iff.mp hnominates
    exact ⟨spelling, hspelling, hrepo, fun other hmem repo' hrepo' =>
      hsole other repo' (nominates_iff.mpr ⟨hmem, hrepo'⟩)⟩

theorem aliasCandidates_append {scopes more : List Text}
    (hmore : ∀ scope ∈ more, repoName scope ≠ some name) :
    aliasCandidates name (scopes ++ more) skills = aliasCandidates name scopes skills := by
  apply List.filterMap_congr
  intro spelling _
  cases normalizeCanonicalRepoScope spelling with
  | none => rfl
  | some repo =>
    by_cases hnamed : repoName repo = some name
    · have hfresh : repo ∉ more := fun hmem => hmore repo hmem hnamed
      simp [Option.filter_some, hfresh]
    · simp [Option.filter_some, hnamed]

theorem foldl_addAlias (skills : SkillTable) (scopes : List Text) {names : List Text}
    (hnames : names.Nodup) :
    ∃ aliases : List (Text × Text),
      names.foldl (addAlias skills) scopes = scopes ++ aliases.map Prod.snd ∧
      (aliases.map Prod.fst).Sublist names ∧
      ∀ name ∈ names, ∀ repo,
        (name, repo) ∈ aliases ↔ aliasCandidates name scopes skills = [repo] := by
  induction names using List.reverseRecOn with
  | nil => exact ⟨[], by simp, List.Sublist.refl _, fun _ hname => absurd hname List.not_mem_nil⟩
  | append_singleton names name ih =>
    obtain ⟨hprevious, _, hfresh⟩ := List.nodup_append.mp hnames
    obtain ⟨aliases, hfold, hsublist, hadded⟩ := ih hprevious
    have hearlier : ∀ entry ∈ aliases, entry.1 ∈ names :=
      fun entry hentry => hsublist.subset (List.mem_map_of_mem hentry)
    have hsame : aliasCandidates name (scopes ++ aliases.map Prod.snd) skills =
        aliasCandidates name scopes skills := by
      apply aliasCandidates_append
      intro scope hscope hnamed
      obtain ⟨entry, hentry, rfl⟩ := List.mem_map.mp hscope
      have hsingle := (hadded entry.1 (hearlier entry hentry) entry.2).mp hentry
      rw [(soleAlias_of_singleton hsingle).named] at hnamed
      exact hfresh _ (hearlier entry hentry) name (List.mem_singleton_self _)
        (Option.some.inj hnamed)
    have hother : ∀ repo, (name, repo) ∉ aliases := fun repo hmem =>
      hfresh _ (hearlier _ hmem) name (List.mem_singleton_self _) rfl
    rw [List.foldl_append, hfold, List.foldl_cons, List.foldl_nil, addAlias, hsame]
    split
    next found hsingle =>
      refine ⟨aliases ++ [(name, found)], by simp, ?_, ?_⟩
      · rw [List.map_append]
        exact hsublist.append (List.Sublist.refl _)
      · intro named hnamed repo
        rw [List.mem_append, List.mem_singleton, Prod.mk.injEq]
        rcases List.mem_append.mp hnamed with hold | hnew
        · have hne : named ≠ name := fun h => hfresh named hold name (List.mem_singleton_self _) h
          simp [hadded named hold repo, hne]
        · obtain rfl := List.mem_singleton.mp hnew
          simp [hother repo, hsingle, eq_comm]
    next hnone =>
      refine ⟨aliases, rfl, hsublist.trans (List.sublist_append_left ..), ?_⟩
      intro named hnamed repo
      rcases List.mem_append.mp hnamed with hold | hnew
      · exact hadded named hold repo
      · obtain rfl := List.mem_singleton.mp hnew
        exact iff_of_false (hother repo) (hnone repo)

/-- The expansion is the canonical remotes in order, and for some of their names one alias each,
which is the only repository of that name besides the remotes. A name has an alias exactly if
one spelling is stored for such a repository. -/
theorem expandRepoScopes_sole (remotes : List Text) (skills : SkillTable) :
    (canonicalRemotes remotes).Nodup ∧ ∃ aliases : List (Text × Text),
      expandRepoScopesWithSourceAliases remotes skills =
        canonicalRemotes remotes ++ aliases.map Prod.snd ∧
      (aliases.map Prod.fst).Sublist (distinct ((canonicalRemotes remotes).filterMap repoName)) ∧
      (aliases.map Prod.fst).Nodup ∧
      (∀ entry ∈ aliases, SoleAlias skills (canonicalRemotes remotes) entry.1 entry.2) ∧
      ∀ name ∈ (canonicalRemotes remotes).filterMap repoName, ∀ repo,
        (name, repo) ∈ aliases ↔ SoleSpelling skills (canonicalRemotes remotes) name repo := by
  have hnames := nodup_distinct ((canonicalRemotes remotes).filterMap repoName)
  obtain ⟨aliases, hfold, hsublist, hadded⟩ :=
    foldl_addAlias skills (canonicalRemotes remotes) hnames
  refine ⟨nodup_distinct _, aliases, ?_, hsublist, hsublist.nodup hnames, ?_, ?_⟩
  · rw [expandRepoScopesWithSourceAliases, foldl_add]
    exact hfold
  · intro entry hentry
    have hname := hsublist.subset (List.mem_map_of_mem hentry)
    exact soleAlias_of_singleton ((hadded entry.1 hname entry.2).mp hentry)
  · intro name hname repo
    rw [hadded name (mem_distinct.mpr hname) repo, aliasCandidates_eq_singleton_iff]

def forkRepo : Text := "fork/router"

def upstreamRepo : Text := "tanstack/router"

def routerSkills : SkillTable :=
  (KeyedTable.empty.insertOrIgnore (ruleOf ['a'] forkRepo)).insertOrIgnore (ruleOf ['b'] upstreamRepo)
where
  ruleOf (id repo : Text) : SkillRow :=
    { id
      name := id
      source := cloudSource
      version := firstVersion
      sourceRepo := some repo
      installedAt := []
      updatedAt := [] }

/-- Two repositories carry the name, and the fork receives the rules of the other. -/
theorem fork_receives_upstream :
    expandRepoScopesWithSourceAliases [forkRepo] routerSkills = [forkRepo, upstreamRepo] ∧
      repoName forkRepo = repoName upstreamRepo ∧ forkRepo ≠ upstreamRepo ∧
      routerSkills.rows.map boundRepo = [some forkRepo, some upstreamRepo] ∧
      routerSkills.rows.all (fun row => row.status = .active) := by
  decide

end Difflore.Skills
