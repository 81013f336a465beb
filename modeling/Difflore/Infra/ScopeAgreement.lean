import Difflore.Infra.ScopeHosts

/-! # Which scopes are stored as they are detected

A detected scope is found again if the normalizer for stored scopes leaves it
alone. That one refuses owners with a dot, hosts without one and `github.com`, and
cuts off `.git`, so the inputs below are those that lead to none of these.
-/

namespace Difflore.Infra

open Foundation Text

variable {value scope : Text}

/-- In lower case, the last segment ends in `.git`. -/
def endsInGit (segments : List Text) : Bool :=
  segments.getLast?.any fun segment => gitSuffix.isSuffixOf (toAsciiLowercase segment)

/-- Segments of a GitHub repository that are names, the owner without a dot. -/
def ownerRepoFits (segments : List Text) : Bool :=
  segments.all segmentOk && !segments.head?.any ('.' ∈ ·) && !endsInGit segments

/-- A GitLab host with a dot that is not GitHub's, and a path that does not end in `.git`. -/
def hostedFits (host path : Text) : Bool := (normalizeGitlabHost host).toOption.any fun host =>
    '.' ∈ host && host ≠ githubHost &&
      !(gitlabPath host path).any fun repoPath => endsInGit (scopeSegments repoPath)

def remoteFits (url : Text) : Bool :=
  if (parseGithubRemoteUrl url).isSome then
    (githubPath url).any fun path => ownerRepoFits (path.splitOn '/')
  else (hostedRemoteParts url).any fun (host, path) => hostedFits host path

def scopeFits (value : Text) (configuredGitlabHosts : List Text) : Bool :=
  if (parseRepoRemoteUrlWithGitlabHosts value configuredGitlabHosts).isSome then remoteFits value
  else if (normalizeRepoScopeSegments (cleanScope value) 2 (some 2)).isSome then
    ownerRepoFits (scopeSegments (cleanScope value))
  else (hostedScopeParts (cleanScope value) configuredGitlabHosts).any fun (host, path) =>
    hostedFits host path

def sourceFits (provider : ReviewProvider) (providerHost : Option Text) (repoFullName : Text) :
    Bool :=
  match provider with
  | .github => ownerRepoFits (scopeSegments repoFullName)
  | .gitlab => providerHost.any (hostedFits · repoFullName)

/-! ## The stored form -/

theorem slash_not_mem_gitSuffix : '/' ∉ gitSuffix := by decide

theorem gitSuffix_append_slash {first rest : Text} :
    gitSuffix <:+ first ++ '/' :: rest ↔ gitSuffix <:+ rest := by
  constructor
  · intro hgit
    have hside : '/' :: rest <:+ first ++ '/' :: rest := List.suffix_append _ _
    rcases List.suffix_or_suffix_of_suffix hgit hside with hshort | hlong
    · rcases List.suffix_cons_iff.mp hshort with heq | hrest
      · exact absurd (heq ▸ (.head _)) slash_not_mem_gitSuffix
      · exact hrest
    · exact absurd (hlong.subset (.head _)) slash_not_mem_gitSuffix
  · intro hgit
    exact hgit.trans ((List.suffix_cons '/' rest).trans (List.suffix_append _ _))

theorem gitSuffix_joinSegments (segments : List Text) : gitSuffix <:+ joinSegments segments ↔
      ∃ last ∈ segments.getLast?, gitSuffix <:+ last := by
  induction segments with
  | nil =>
    constructor
    · intro hgit
      exact absurd hgit.length_le (by decide)
    · rintro ⟨_, ⟨⟩, _⟩
  | cons segment rest ih =>
    by_cases hrest : rest = []
    · subst hrest
      simp [joinSegments]
    · rw [joinSegments_cons hrest, gitSuffix_append_slash, ih, ← List.singleton_append,
        List.getLast?_append_of_ne_nil _ hrest]

theorem gitSuffix_lowered (segments : List Text) :
    gitSuffix <:+ joinSegments (segments.map toAsciiLowercase) ↔ endsInGit segments = true := by
  rw [gitSuffix_joinSegments, List.getLast?_map, endsInGit, Option.any_eq_true]
  constructor
  · rintro ⟨_, hlast, hgit⟩
    obtain ⟨segment, hsegment, rfl⟩ := Option.map_eq_some_iff.mp hlast
    exact ⟨segment, hsegment, List.isSuffixOf_iff_suffix.mpr hgit⟩
  · rintro ⟨segment, hsegment, hgit⟩
    exact ⟨_, Option.map_eq_some_iff.mpr ⟨segment, hsegment, rfl⟩,
      List.isSuffixOf_iff_suffix.mp hgit⟩

theorem normalizeCanonicalRepoScope_eq_some : normalizeCanonicalRepoScope value = some scope ↔
      (normalizeRepoScopeSegments (cleanScope value) 2 (some 2) = some scope ∧
        ∃ owner repo, splitOnce '/' scope = some (owner, repo) ∧ '.' ∉ owner) ∨
      (normalizeRepoScopeSegments (cleanScope value) 2 (some 2) = none ∧
        ∃ input path host rest, splitOnce '/' (cleanScope value) = some (input, path) ∧
          normalizeGitlabHost input = .ok host ∧ '.' ∈ host ∧ host ≠ githubHost ∧
          normalizeRepoScopeSegments path 2 none = some rest ∧ hasMinusSegment rest = false ∧
          scope = host ++ '/' :: rest) := by
  unfold normalizeCanonicalRepoScope
  dsimp only
  cases hpair : normalizeRepoScopeSegments (cleanScope value) 2 (some 2) with
  | some normalized =>
    simp only [Option.bind_eq_some_iff, Option.ite_none_left_eq_some, Option.some.injEq,
      reduceCtorEq, false_and, or_false]
    constructor
    · rintro ⟨⟨owner, repo⟩, hsplit, hdot, rfl⟩
      exact ⟨rfl, owner, repo, hsplit, hdot⟩
    · rintro ⟨rfl, owner, repo, hsplit, hdot⟩
      exact ⟨(owner, repo), hsplit, hdot, rfl⟩
  | none =>
    simp only [Option.bind_eq_some_iff, Option.ite_none_left_eq_some, Option.some.injEq,
      reduceCtorEq, false_and, false_or, true_and, toOption_eq_some, Bool.or_eq_true,
      decide_eq_true_eq, not_or, not_not, Bool.not_eq_true]
    constructor
    · rintro ⟨⟨input, path⟩, hsplit, host, hhost, ⟨hdot, hgithub⟩, rest, hrest, hminus, rfl⟩
      exact ⟨input, path, host, rest, hsplit, hhost, hdot, hgithub, hrest, hminus, rfl⟩
    · rintro ⟨input, path, host, rest, hsplit, hhost, hdot, hgithub, hrest, hminus, rfl⟩
      exact ⟨(input, path), hsplit, host, hhost, ⟨hdot, hgithub⟩, rest, hrest, hminus, rfl⟩

theorem length_normalizeCanonicalRepoScope
    (hscope : normalizeCanonicalRepoScope value = some scope) :
    scope.length ≤ (cleanScope value).length := by
  rcases normalizeCanonicalRepoScope_eq_some.mp hscope with
    ⟨hpair, _⟩ | ⟨_, input, path, host, rest, hsplit, hhost, _, _, hrest, _, rfl⟩
  · exact (length_normalizeRepoScopeSegments hpair).trans (cleanScope_isInfix _).length_le
  · have hwhole := (splitOnce_eq_some hsplit).2
    have hhostLength := length_normalizeGitlabHost hhost
    have hpathLength := (length_normalizeRepoScopeSegments hrest).trans
      (cleanScope_isInfix path).length_le
    rw [hwhole, List.length_append, List.length_append, List.length_cons, List.length_cons]
    omega

theorem cleanScope_of_fixed (hfixed : normalizeCanonicalRepoScope scope = some scope) :
    cleanScope scope = scope ∧ ¬ gitSuffix <:+ scope :=
  cleanScope_eq_of_length (length_normalizeCanonicalRepoScope hfixed)

theorem splitOn_of_normalize {minSegments : Nat} {maxSegments : Option Nat}
    (hscope : normalizeRepoScopeSegments value minSegments maxSegments = some scope)
    (hpos : 0 < minSegments) :
    Lowered (scope.splitOn '/') ∧ minSegments ≤ (scope.splitOn '/').length := by
  obtain ⟨⟨hmin, _⟩, hok, rfl⟩ := normalizeRepoScopeSegments_eq_some.mp hscope
  have hlowered := lowered_map hok
  have hlength : ((scopeSegments value).map toAsciiLowercase).length =
      (scopeSegments value).length := List.length_map _
  have hne : (scopeSegments value).map toAsciiLowercase ≠ [] := List.ne_nil_of_length_pos (by omega)
  rw [splitOn_joinSegments hne (slash_not_mem hlowered.tidy), hlength]
  exact ⟨hlowered, hmin⟩

/-- Which `owner/repo` scopes in lower case are left alone. -/
theorem fixed_pair_iff {owner repo : Text} (hsplit : scope.splitOn '/' = [owner, repo])
    (hlower : toAsciiLowercase scope = scope) :
    normalizeCanonicalRepoScope scope = some scope ↔
      segmentOk owner ∧ segmentOk repo ∧ '.' ∉ owner ∧ ¬ gitSuffix <:+ repo := by
  have hjoin : joinSegments [owner, repo] = scope := by
    rw [← hsplit]
    exact List.intercalate_splitOn '/'
  have hgit : gitSuffix <:+ scope ↔ gitSuffix <:+ repo := by
    rw [← hjoin, joinSegments_pair, gitSuffix_append_slash]
  have hsegments : toAsciiLowercase owner = owner ∧ toAsciiLowercase repo = repo := by
    have hmap := splitOn_toAsciiLowercase scope
    rw [hlower, hsplit] at hmap
    simp only [List.map_cons, List.map_nil, List.cons.injEq, and_true] at hmap
    exact ⟨hmap.1.symm, hmap.2.symm⟩
  constructor
  · intro hfixed
    obtain ⟨hclean, hnotGit⟩ := cleanScope_of_fixed hfixed
    rcases normalizeCanonicalRepoScope_eq_some.mp hfixed with
      ⟨hpair, first, rest, honce, hdot⟩ |
        ⟨_, input, path, host, rest, _, hhost, _, _, hrest, _, heq⟩
    · have hlowered := (splitOn_of_normalize hpair Nat.zero_lt_two).1
      rw [hsplit] at hlowered
      have howner := (hlowered owner (.head _)).1
      have hrepo := (hlowered repo (.tail _ (.head _))).1
      refine ⟨howner, hrepo, ?_, mt hgit.mpr hnotGit⟩
      have hslash : '/' ∉ owner := fun hmem => ((tidy_of_segmentOk howner).2 _ hmem).1 rfl
      rw [← hjoin, joinSegments_pair, splitOnce_append hslash] at honce
      obtain ⟨rfl, rfl⟩ := Prod.mk.inj (Option.some.inj honce)
      exact hdot
    · exfalso
      have hslash : '/' ∉ host := fun hmem => ((normalizeGitlabHost_idem hhost).2.2 _ hmem).1 rfl
      have hmin := (splitOn_of_normalize hrest Nat.zero_lt_two).2
      rw [heq, List.splitOn_append_cons_self_of_not_mem hslash] at hsplit
      have hlength := congrArg List.length hsplit
      simp only [List.length_cons, List.length_nil] at hlength
      omega
  · rintro ⟨howner, hrepo, hdot, hnotGit⟩
    have hlowered : Lowered [owner, repo] := by
      intro segment hsegment
      rcases List.mem_cons.mp hsegment with rfl | hmem
      · exact ⟨howner, hsegments.1⟩
      · rw [List.mem_singleton.mp hmem]
        exact ⟨hrepo, hsegments.2⟩
    have hnot : ¬ gitSuffix <:+ joinSegments [owner, repo] := by
      rw [hjoin, hgit]
      exact hnotGit
    have hclean := cleanScope_joinSegments (List.cons_ne_nil _ _) hlowered.tidy hnot
    have hslash : '/' ∉ owner := fun hmem => ((tidy_of_segmentOk howner).2 _ hmem).1 rfl
    apply normalizeCanonicalRepoScope_eq_some.mpr
    left
    rw [← hjoin, hclean]
    constructor
    · apply normalizeRepoScopeSegments_lowered hlowered hnot
      · exact le_refl 2
      · rintro most ⟨⟩
        exact le_refl 2
      · exact Nat.zero_lt_two
    · exact ⟨owner, repo, by rw [joinSegments_pair, splitOnce_append hslash], hdot⟩

theorem fixed_hosted_iff {input host : Text} {segments : List Text}
    (hhost : normalizeGitlabHost input = .ok host) (hsegments : Lowered segments)
    (hlength : 2 ≤ segments.length) (hminus : hasMinusSegment (joinSegments segments) = false) :
    normalizeCanonicalRepoScope (host ++ '/' :: joinSegments segments) =
        some (host ++ '/' :: joinSegments segments) ↔
      '.' ∈ host ∧ host ≠ githubHost ∧ ¬ gitSuffix <:+ joinSegments segments := by
  obtain ⟨hidem, htidy⟩ := normalizeGitlabHost_idem hhost
  have hne : segments ≠ [] := List.ne_nil_of_length_pos (by omega)
  have hslash : '/' ∉ host := fun hmem => (htidy.2 _ hmem).1 rfl
  have hjoin : joinSegments (host :: segments) = host ++ '/' :: joinSegments segments :=
    joinSegments_cons hne host
  have hall : ∀ segment ∈ host :: segments, Tidy segment := by
    intro segment hsegment
    rcases List.mem_cons.mp hsegment with rfl | hmem
    · exact htidy
    · exact hsegments.tidy segment hmem
  have hscopeSegments : ¬ gitSuffix <:+ joinSegments segments →
      cleanScope (host ++ '/' :: joinSegments segments) = host ++ '/' :: joinSegments segments ∧
        scopeSegments (host ++ '/' :: joinSegments segments) = host :: segments := by
    intro hgit
    rw [← gitSuffix_append_slash, ← hjoin] at hgit
    rw [← hjoin]
    exact ⟨cleanScope_joinSegments (List.cons_ne_nil _ _) hall hgit,
      scopeSegments_joinSegments (List.cons_ne_nil _ _) hall hgit⟩
  constructor
  · intro hfixed
    obtain ⟨hclean, hnotGit⟩ := cleanScope_of_fixed hfixed
    rw [gitSuffix_append_slash] at hnotGit
    rcases normalizeCanonicalRepoScope_eq_some.mp hfixed with
      ⟨hpair, _⟩ | ⟨_, first, path, other, rest, hsplit, hother, hdot, hgithub, _, _, _⟩
    · exfalso
      rw [hclean] at hpair
      obtain ⟨⟨_, hmax⟩, _, _⟩ := normalizeRepoScopeSegments_eq_some.mp hpair
      have htwo := hmax 2 rfl
      rw [(hscopeSegments hnotGit).2, List.length_cons] at htwo
      omega
    · rw [hclean, splitOnce_append hslash] at hsplit
      obtain ⟨rfl, rfl⟩ := Prod.mk.inj (Option.some.inj hsplit)
      rw [hidem] at hother
      obtain rfl := Except.ok.inj hother
      exact ⟨hdot, hgithub, hnotGit⟩
  · rintro ⟨hdot, hgithub, hnotGit⟩
    obtain ⟨hclean, hparts⟩ := hscopeSegments hnotGit
    apply normalizeCanonicalRepoScope_eq_some.mpr
    right
    rw [hclean]
    constructor
    · rw [Option.eq_none_iff_forall_ne_some]
      intro scope hpair
      obtain ⟨⟨_, hmax⟩, _, _⟩ := normalizeRepoScopeSegments_eq_some.mp hpair
      have htwo := hmax 2 rfl
      rw [hparts, List.length_cons] at htwo
      omega
    · refine ⟨host, joinSegments segments, host, joinSegments segments, splitOnce_append hslash _,
        hidem, hdot, hgithub, ?_, hminus, rfl⟩
      exact normalizeRepoScopeSegments_lowered hsegments hnotGit hlength (by simp) Nat.zero_lt_two

/-! ## What is detected -/

theorem ownerRepo_fixed_iff {owner repo : Text}
    (hsplit : (owner ++ '/' :: repo).splitOn '/' = [owner, repo]) :
    normalizeCanonicalRepoScope (toAsciiLowercase (owner ++ '/' :: repo)) =
        some (toAsciiLowercase (owner ++ '/' :: repo)) ↔
      ownerRepoFits [owner, repo] = true := by
  have hlowered : (toAsciiLowercase (owner ++ '/' :: repo)).splitOn '/' =
      [toAsciiLowercase owner, toAsciiLowercase repo] := by
    rw [splitOn_toAsciiLowercase, hsplit]
    rfl
  have hgit : gitSuffix <:+ toAsciiLowercase repo ↔ endsInGit [owner, repo] = true := by
    rw [← gitSuffix_lowered, List.map_cons, List.map_singleton, joinSegments_pair,
      gitSuffix_append_slash]
  rw [fixed_pair_iff hlowered (toAsciiLowercase_idem _), segmentOk_toAsciiLowercase,
    segmentOk_toAsciiLowercase, mem_toAsciiLowercase_iff (by decide), hgit]
  simp [ownerRepoFits, and_assoc]

theorem parseGithubRemoteUrl_fixed_iff {url : Text}
    (hscope : parseGithubRemoteUrl url = some scope) :
    normalizeCanonicalRepoScope scope = some scope ↔
      (githubPath url).any (fun path => ownerRepoFits (path.splitOn '/')) = true := by
  unfold parseGithubRemoteUrl at hscope
  obtain ⟨path, hpath, hparts⟩ := Option.bind_eq_some_iff.mp hscope
  split at hparts
  next owner repo hsplit =>
    obtain ⟨_, hlower⟩ := Option.ite_none_left_eq_some.mp hparts
    obtain rfl := Option.some.inj hlower
    have hwhole : owner ++ '/' :: repo = path := by
      rw [← joinSegments_pair, ← hsplit]
      exact List.intercalate_splitOn '/'
    rw [ownerRepo_fixed_iff (by rw [hwhole, hsplit]), hpath, Option.any_some, hsplit]
  next => contradiction

theorem normalizePair_fixed_iff
    (hscope : normalizeRepoScopeSegments value 2 (some 2) = some scope) :
    normalizeCanonicalRepoScope scope = some scope ↔
      ownerRepoFits (scopeSegments value) = true := by
  obtain ⟨⟨hmin, hmax⟩, hok, rfl⟩ := normalizeRepoScopeSegments_eq_some.mp hscope
  have htwo : (scopeSegments value).length = 2 := le_antisymm (hmax 2 rfl) hmin
  obtain ⟨owner, repo, hsegments⟩ := List.length_eq_two.mp htwo
  have hsplit : (owner ++ '/' :: repo).splitOn '/' = [owner, repo] := by
    rw [← joinSegments_pair, splitOn_joinSegments (List.cons_ne_nil _ _)]
    rw [← hsegments]
    exact slash_not_mem fun segment hsegment => tidy_of_segmentOk (hok segment hsegment)
  rw [hsegments, ← toAsciiLowercase_joinSegments, joinSegments_pair]
  exact ownerRepo_fixed_iff hsplit

theorem canonicalGitlab_fixed_iff {host repoPath : Text}
    (hscope : canonicalGitlabRepoScope host repoPath = some scope) :
    normalizeCanonicalRepoScope scope = some scope ↔ hostedFits host repoPath = true := by
  unfold canonicalGitlabRepoScope at hscope
  obtain ⟨name, hname, hbehind⟩ := Option.bind_eq_some_iff.mp hscope
  obtain ⟨path, hpath, hsegments⟩ := Option.bind_eq_some_iff.mp hbehind
  obtain ⟨rest, hrest, hjoined⟩ := Option.bind_eq_some_iff.mp hsegments
  obtain ⟨hminus, heq⟩ := Option.ite_none_left_eq_some.mp hjoined
  obtain rfl := Option.some.inj heq
  obtain ⟨⟨hmin, _⟩, hok, rfl⟩ := normalizeRepoScopeSegments_eq_some.mp hrest
  rw [Bool.not_eq_true] at hminus
  have hlength : 2 ≤ ((scopeSegments path).map toAsciiLowercase).length := by
    rwa [List.length_map]
  rw [fixed_hosted_iff (toOption_eq_some.mp hname) (lowered_map hok) hlength hminus,
    gitSuffix_lowered, hostedFits, hname, Option.any_some, hpath, Option.any_some]
  simp [and_assoc]

theorem remote_fixed_iff {url : Text} {configuredGitlabHosts : List Text}
    (hscope : parseRepoRemoteUrlWithGitlabHosts url configuredGitlabHosts = some scope) :
    normalizeCanonicalRepoScope scope = some scope ↔ remoteFits url = true := by
  unfold parseRepoRemoteUrlWithGitlabHosts at hscope
  unfold remoteFits
  rcases Option.or_eq_some_iff.mp hscope with hgithub | ⟨hgithub, hhosted⟩
  · rw [parseGithubRemoteUrl_fixed_iff hgithub, hgithub]
    rfl
  · obtain ⟨⟨host, path⟩, hparts, hrest⟩ := Option.bind_eq_some_iff.mp hhosted
    obtain ⟨_, hrest⟩ := Option.ite_none_left_eq_some.mp hrest
    obtain ⟨_, hgitlab⟩ := Option.ite_none_left_eq_some.mp hrest
    rw [canonicalGitlab_fixed_iff hgitlab, hgithub, hparts]
    rfl

theorem scope_fixed_iff {configuredGitlabHosts : List Text}
    (hscope : normalizeRepoScopeWithGitlabHosts value configuredGitlabHosts = some scope) :
    normalizeCanonicalRepoScope scope = some scope ↔
      scopeFits value configuredGitlabHosts = true := by
  unfold normalizeRepoScopeWithGitlabHosts at hscope
  unfold scopeFits
  rcases Option.or_eq_some_iff.mp hscope with hfirst | ⟨hfirst, hhosted⟩
  · rcases Option.or_eq_some_iff.mp hfirst with hremote | ⟨hremote, hpair⟩
    · rw [remote_fixed_iff hremote, hremote]
      rfl
    · rw [normalizePair_fixed_iff hpair, hremote, hpair]
      rfl
  · rw [Option.or_eq_none_iff] at hfirst
    obtain ⟨⟨host, path⟩, hparts, hgitlab⟩ := Option.bind_eq_some_iff.mp hhosted
    rw [canonicalGitlab_fixed_iff hgitlab, hfirst.1, hfirst.2, hparts]
    rfl

theorem source_fixed_iff {provider : ReviewProvider} {providerHost : Option Text}
    {repoFullName : Text} {scope : RepoScope}
    (hscope : canonicalSourceRepo provider providerHost repoFullName = some scope) :
    normalizeCanonicalRepoScope scope.value = some scope.value ↔
      sourceFits provider providerHost repoFullName = true := by
  cases provider with
  | github =>
    obtain ⟨value, hvalue, rfl⟩ := Option.map_eq_some_iff.mp hscope
    exact normalizePair_fixed_iff hvalue
  | gitlab =>
    obtain ⟨host, rfl, hgitlab⟩ := Option.bind_eq_some_iff.mp hscope
    obtain ⟨value, hvalue, rfl⟩ := Option.map_eq_some_iff.mp hgitlab
    exact canonicalGitlab_fixed_iff hvalue

/-- The scope of every remote, scope string and source is stored as it was
detected exactly if the input is of the stored kind. -/
theorem detected_scopes_stored_iff (url value repoFullName : Text)
    (configuredGitlabHosts : List Text) (provider : ReviewProvider) (providerHost : Option Text)
    (scope : Text) (sourceScope : RepoScope) :
    (parseRepoRemoteUrlWithGitlabHosts url configuredGitlabHosts = some scope →
      (normalizeCanonicalRepoScope scope = some scope ↔ remoteFits url = true)) ∧
    (normalizeRepoScopeWithGitlabHosts value configuredGitlabHosts = some scope →
      (normalizeCanonicalRepoScope scope = some scope ↔
        scopeFits value configuredGitlabHosts = true)) ∧
    (canonicalSourceRepo provider providerHost repoFullName = some sourceScope →
      (normalizeCanonicalRepoScope sourceScope.value = some sourceScope.value ↔
        sourceFits provider providerHost repoFullName = true)) :=
  ⟨remote_fixed_iff, scope_fixed_iff, source_fixed_iff⟩

def groupRemote : Text := "git@gitlab.com:Group/App.git"

def groupScope : Text := "gitlab.com/group/app"

theorem detected_scopes_stored_groupRemote :
    normalizeCanonicalRepoScope groupScope = some groupScope ∧
      normalizeCanonicalRepoScope ['o', '/', 'r'] = some ['o', '/', 'r'] := by
  have hremote : parseRepoRemoteUrlWithGitlabHosts groupRemote [] = some groupScope := by
    decide
  have hscope : normalizeRepoScopeWithGitlabHosts ['O', '/', 'R'] [] = some ['o', '/', 'r'] := by
    decide
  have hstored := detected_scopes_stored_iff groupRemote ['O', '/', 'R'] ['O', '/', 'R'] [] .github
    none
  obtain ⟨hdetected, -, -⟩ := hstored groupScope ⟨['o', '/', 'r']⟩
  obtain ⟨-, hagain, -⟩ := hstored ['o', '/', 'r'] ⟨['o', '/', 'r']⟩
  exact ⟨(hdetected hremote).mpr (by decide), (hagain hscope).mpr (by decide)⟩

theorem upper_case_suffix_is_stored_differently : ¬ ∀ value configuredGitlabHosts scope,
      normalizeRepoScopeWithGitlabHosts value configuredGitlabHosts = some scope →
        normalizeCanonicalRepoScope scope = some scope := by
  intro hall
  have hscope : normalizeRepoScopeWithGitlabHosts "o/r.GIT" [] = some "o/r.git" := by
    decide
  have hstored : normalizeCanonicalRepoScope "o/r.git" = some "o/r" := by
    decide
  have hfixed := hall _ _ _ hscope
  rw [hstored] at hfixed
  exact absurd hfixed (by decide)

end Difflore.Infra
