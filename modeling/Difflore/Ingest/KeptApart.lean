import Difflore.Ingest.Imports

/-! # Pull requests are kept apart

When every stored comment is found once, under the item of its own pull request. The ids keep
comments apart except across GitLab hosts, across spellings of one repository and where a
repository is named after a kind of comment; the items keep pull requests apart except those of
one number that are attached to one repository from different sources.
-/

namespace Difflore.Ingest

open Foundation Text

/-- The provider's pull request, however its repository is spelled. -/
def Pull.SameOnProvider : Pull → Pull → Prop
  | .github _ sourceRepo number, .github _ sourceRepo' number' =>
    toAsciiLowercase sourceRepo = toAsciiLowercase sourceRepo' ∧ number = number'
  | .gitlab _ path iid, .gitlab _ path' iid' =>
    toAsciiLowercase path = toAsciiLowercase path' ∧ iid = iid'
  | _, _ => False

/-- Comments on GitHub have their own ids for each kind, notes on each GitLab host. -/
def Origin.SameIdSpace (origin other : Origin) : Prop :=
  match origin.pull, other.pull with
  | .github _ _ _, .github _ _ _ => origin.kind = other.kind
  | .gitlab host _ _, .gitlab host' _ _ => host = host'
  | _, _ => False

/-- Two comments that the ids do not confuse when they arrive in this order. -/
def Origin.KeptFrom (later earlier : Origin) : Prop := later.id = earlier.id →
    match later.pull, earlier.pull with
    | .github repo sourceRepo _, .github repo' sourceRepo' _ =>
      (later.kind = earlier.kind → repo = sourceRepo → repo' = sourceRepo' → repo = repo') ∧
        (later.kind = .inline → sourceRepo = sourceRepo' → repo ≠ earlier.kind.idPrefix ++ repo')
    | .gitlab host path _, .gitlab host' path' _ => host = host' ∧ path = path'
    | _, _ => True

def origins (entries : List PullImport) : List Origin :=
  (entries.flatMap (·.arrivals)).map (·.row.origin)

def ProviderUnique (entries : List PullImport) : Prop :=
  ∀ origin ∈ origins entries, ∀ other ∈ origins entries,
    origin.SameIdSpace other → origin.id = other.id → origin.pull.SameOnProvider other.pull

structure Distinguishable (entries : List PullImport) : Prop where
  items : entries.Pairwise fun earlier later =>
    earlier.arrivals ≠ [] → earlier.pull.SharesItem later.pull → earlier.pull = later.pull
  comments : (origins entries).Pairwise fun earlier later => later.KeptFrom earlier
  numbers : ∀ entry ∈ entries, entry.arrivals ≠ [] → entry.pull.NumberFits

/-- The comment is stored once, as it was read, under the item of its own pull request as the
latest import wrote it. -/
def KeptApart (entries : List PullImport) (store : ReviewStore) (origin : Origin) : Prop :=
  ∃ comment, store.comments.filter (·.origin = origin) = [comment] ∧
    (∃ arrival ∈ entries.flatMap (·.arrivals), arrival.row = comment) ∧
    ∃ item, store.items.find comment.reviewItemId = some item ∧
      latestItem entries origin.pull = some item ∧
      item.repoFullName = origin.pull.repo ∧ item.prNumber = some origin.pull.number

section Decidable

instance : DecidableRel Pull.SharesItem
  | .github _ _ _, .github _ _ _ => inferInstanceAs (Decidable (_ ∧ _))
  | .gitlab _ _ _, .gitlab _ _ _ => inferInstanceAs (Decidable (_ ∧ _ ∧ _))
  | .github _ _ _, .gitlab _ _ _ | .gitlab _ _ _, .github _ _ _ => inferInstanceAs (Decidable False)

instance : DecidableRel Pull.SameOnProvider
  | .github _ _ _, .github _ _ _ | .gitlab _ _ _, .gitlab _ _ _ =>
    inferInstanceAs (Decidable (_ ∧ _))
  | .github _ _ _, .gitlab _ _ _ | .gitlab _ _ _, .github _ _ _ => inferInstanceAs (Decidable False)

instance : DecidableRel Origin.SameIdSpace
  | ⟨.github _ _ _, _, _⟩, ⟨.github _ _ _, _, _⟩ => inferInstanceAs (Decidable (_ = _))
  | ⟨.gitlab _ _ _, _, _⟩, ⟨.gitlab _ _ _, _, _⟩ => inferInstanceAs (Decidable (_ = _))
  | ⟨.github _ _ _, _, _⟩, ⟨.gitlab _ _ _, _, _⟩ | ⟨.gitlab _ _ _, _, _⟩, ⟨.github _ _ _, _, _⟩ =>
    inferInstanceAs (Decidable False)

instance : DecidableRel Origin.KeptFrom
  | ⟨.github _ _ _, _, _⟩, ⟨.github _ _ _, _, _⟩ =>
    inferInstanceAs (Decidable (_ → (_ → _ → _ → _) ∧ (_ → _ → _)))
  | ⟨.gitlab _ _ _, _, _⟩, ⟨.gitlab _ _ _, _, _⟩ => inferInstanceAs (Decidable (_ → _ ∧ _))
  | ⟨.github _ _ _, _, _⟩, ⟨.gitlab _ _ _, _, _⟩ | ⟨.gitlab _ _ _, _, _⟩, ⟨.github _ _ _, _, _⟩ =>
    inferInstanceAs (Decidable (_ → True))

instance : DecidablePred Pull.NumberFits
  | .github _ _ _ => inferInstanceAs (Decidable True)
  | .gitlab _ _ _ => inferInstanceAs (Decidable (_ = true))

instance (entries : List PullImport) : Decidable (ProviderUnique entries) :=
  inferInstanceAs (Decidable (∀ origin ∈ origins entries, ∀ other ∈ origins entries, _ → _ → _))

end Decidable

variable {entries : List PullImport}

theorem Pull.storedNumber_of_fits {pull : Pull} (hfits : pull.NumberFits) :
    pull.storedNumber = some pull.number := by
  cases pull with
  | github repo sourceRepo number => rfl
  | gitlab host projectPath iid => exact if_pos hfits

theorem mem_origins {origin : Origin} : origin ∈ origins entries ↔
    ∃ entry ∈ entries, ∃ arrival ∈ entry.arrivals, arrival.row.origin = origin := by
  unfold origins
  simp only [List.mem_map, List.mem_flatMap]
  constructor
  · rintro ⟨arrival, ⟨entry, hentry, harrival⟩, heq⟩
    exact ⟨entry, hentry, arrival, harrival, heq⟩
  · rintro ⟨entry, hentry, arrival, harrival, heq⟩
    exact ⟨arrival, ⟨entry, hentry, harrival⟩, heq⟩

theorem Origin.eq_of_confused {later earlier : Origin} (hconfused : later.Confused earlier)
    (hkept : later.KeptFrom earlier) (hunique : later.SameIdSpace earlier → later.id = earlier.id →
      later.pull.SameOnProvider earlier.pull)
    (hkind : later.Fits) (hkind' : earlier.Fits) : earlier = later := by
  obtain ⟨pull, kind, id⟩ := later
  obtain ⟨pull', kind', id'⟩ := earlier
  cases pull with
  | github repo sourceRepo number =>
    cases pull' with
    | github repo' sourceRepo' number' =>
      obtain ⟨hid, hrest⟩ := hconfused
      obtain ⟨hown, hstart⟩ := hkept hid
      rcases hrest with ⟨hsame, hrepos⟩ | ⟨hinline, hrepo, hsource⟩
      · obtain ⟨_, hnumber⟩ : _ ∧ number = number' := hunique hsame hid
        dsimp only at hid hsame hrepos hown
        subst hid hsame hnumber
        rcases hrepos with ⟨hfirst, hsecond⟩ | ⟨hrepo, hsource⟩
        · have hrepo := hown rfl hfirst hsecond
          subst hrepo
          rw [← hfirst, ← hsecond]
        · rw [hrepo, hsource]
      · exact absurd hrepo (hstart hinline hsource)
    | gitlab host path iid => exact hconfused.elim
  | gitlab host path iid =>
    cases pull' with
    | github repo' sourceRepo' number' => exact hconfused.elim
    | gitlab host' path' iid' =>
      have hid : id = id' := hconfused
      obtain ⟨hhost, hpath⟩ : host = host' ∧ path = path' := hkept hid
      obtain ⟨_, hiid⟩ : _ ∧ iid = iid' := hunique hhost hid
      have hnote : kind = .note := hkind.mpr ⟨host, path, iid, rfl⟩
      have hnote' : kind' = .note := hkind'.mpr ⟨host', path', iid', rfl⟩
      rw [hid, hhost, hpath, hiid, hnote, hnote']

theorem PullImport.Sound.fits {entry : PullImport} (hsound : entry.Sound)
    {arrival : Arrival ReviewComment Text} (harrival : arrival ∈ entry.arrivals) :
    arrival.row.origin.Fits ∧ arrival.row.origin.pull.Plain := by
  have harrives := hsound.arrives arrival harrival
  unfold Origin.Fits
  rw [harrives.pull]
  exact ⟨harrives.kind, hsound.plain⟩

theorem keysApart (hsound : ∀ entry ∈ entries, entry.Sound) (hunique : ProviderUnique entries)
    (hkept : (origins entries).Pairwise fun earlier later => later.KeptFrom earlier) :
    KeysApart ReviewComment.externalCommentId ReviewComment.origin
      (entries.flatMap (·.arrivals)) := by
  unfold KeysApart
  unfold origins at hkept
  rw [List.pairwise_map] at hkept
  apply List.Pairwise.imp_of_mem _ hkept
  intro earlier later hearlier hlater hkept
  obtain ⟨entry, hentry, hearlier⟩ := List.mem_flatMap.mp hearlier
  obtain ⟨entry', hentry', hlater⟩ := List.mem_flatMap.mp hlater
  have hfits := (hsound entry hentry).fits hearlier
  have hfits' := (hsound entry' hentry').fits hlater
  have hkey := ((hsound entry hentry).arrives earlier hearlier).key
  have hlookups := ((hsound entry' hentry').arrives later hlater).lookups
  rw [hkey, hlookups]
  constructor
  · intro hmem
    have hconfused := Origin.confused_of_mem_lookups hfits'.2 hfits.2 hfits'.1 hfits.1 hmem
    apply Origin.eq_of_confused hconfused hkept _ hfits'.1 hfits.1
    exact hunique _ (mem_origins.mpr ⟨entry', hentry', later, hlater, rfl⟩) _
      (mem_origins.mpr ⟨entry, hentry, earlier, hearlier, rfl⟩)
  · intro hsame
    rw [hsame]
    exact Origin.externalId_mem_lookups _

theorem find_item {entry : PullImport} (hentry : entry ∈ entries)
    (hsound : ∀ entry ∈ entries, entry.Sound) (harrivals : entry.arrivals ≠ [])
    (hitems : entries.Pairwise fun earlier later =>
      earlier.arrivals ≠ [] → earlier.pull.SharesItem later.pull → earlier.pull = later.pull) :
    (entries.foldl PullImport.persist emptyRun).store.items.find entry.pull.itemId =
      latestItem entries entry.pull ∧ ∃ last ∈ entries, last.pull = entry.pull ∧
        latestItem entries entry.pull = some last.item := by
  rw [find_foldl_persist]
  obtain ⟨before, after, rfl⟩ := List.append_of_mem hentry
  have hafter : ∀ later ∈ after, later.item.id = entry.pull.itemId ↔ later.pull = entry.pull := by
    intro later hlater
    have hmem : later ∈ before ++ entry :: after := List.mem_append_right _ (.tail _ hlater)
    rw [(hsound later hmem).id]
    constructor
    · intro hid
      have hshares := Pull.sharesItem_of_itemId (hsound entry hentry).plain
        (hsound later hmem).plain hid.symm
      have hpair := (List.pairwise_cons.mp (List.pairwise_append.mp hitems).2.1).1 later hlater
      exact (hpair harrivals hshares).symm
    · intro hpull
      rw [hpull]
  have hfilter : after.filter (fun later => later.item.id = entry.pull.itemId) =
      after.filter (fun later => later.pull = entry.pull) := by
    apply List.filter_congr
    intro later hlater
    rw [decide_eq_decide]
    exact hafter later hlater
  have hself : entry.item.id = entry.pull.itemId := (hsound entry hentry).id
  have hlast : ∀ head : List PullImport, ((head ++ entry ::
      after.filter (fun later => later.pull = entry.pull)).getLast?).map (·.item) =
        some (((after.filter fun later => later.pull = entry.pull).getLast?).getD entry).item := by
    intro head
    rw [List.getLast?_append, List.getLast?_cons]
    rfl
  have hlatest : latestItem (before ++ entry :: after) entry.pull =
      some (((after.filter fun later => later.pull = entry.pull).getLast?).getD entry).item := by
    unfold latestItem
    rw [List.filter_append, List.filter_cons_of_pos (by simp)]
    exact hlast _
  constructor
  · rw [hlatest, List.filter_append, List.filter_cons_of_pos (by simpa using hself), hfilter, hlast]
    rfl
  · refine ⟨((after.filter fun later => later.pull = entry.pull).getLast?).getD entry, ?_, ?_,
      hlatest⟩
    · cases hfind : (after.filter fun later => later.pull = entry.pull).getLast? with
      | none => exact hentry
      | some last =>
        have hmem := List.mem_of_getLast? hfind
        exact List.mem_append_right _ (.tail _ (List.mem_filter.mp hmem).1)
    · cases hfind : (after.filter fun later => later.pull = entry.pull).getLast? with
      | none => rfl
      | some last =>
        have hmem := List.mem_of_getLast? hfind
        exact of_decide_eq_true (List.mem_filter.mp hmem).2

theorem comments_kept_apart (imports : List Import)
    (hunique : ProviderUnique (allPersisted imports))
    (hdistinguishable : Distinguishable (allPersisted imports)) :
    ∀ origin ∈ origins (allPersisted imports),
      KeptApart (allPersisted imports) (runImports imports).store origin := by
  intro origin horigin
  have hsound : ∀ entry ∈ allPersisted imports, entry.Sound :=
    fun entry hentry => allPersisted_sound hentry
  obtain ⟨entry, hentry, arrival, harrival, rfl⟩ := mem_origins.mp horigin
  have hstored := storedOnce_foldl (keysApart hsound hunique hdistinguishable.comments)
  obtain ⟨comment, hcomment, hsame⟩ := hstored.all arrival
    (List.mem_flatMap.mpr ⟨entry, hentry, harrival⟩)
  obtain ⟨other, hother, hrow⟩ := hstored.arrived comment hcomment
  have harrivals : entry.arrivals ≠ [] := List.ne_nil_of_mem harrival
  have hpull := ((hsound entry hentry).arrives arrival harrival).pull
  obtain ⟨hfind, last, hlast, hlastPull, hlatest⟩ :=
    find_item hentry hsound harrivals hdistinguishable.items
  have hitem : comment.reviewItemId = entry.pull.itemId := by
    obtain ⟨from', hfrom, hmem⟩ := List.mem_flatMap.mp hother
    have harrives := (hsound from' hfrom).arrives other hmem
    rw [← hrow, harrives.item, ← harrives.pull, hrow, hsame, hpull]
  refine ⟨comment, ?_, ⟨other, hother, hrow⟩, last.item, ?_, ?_, ?_, ?_⟩
  · rw [runImports_eq, comments_foldl_persist, ← hsame]
    exact hstored.filter_origin hcomment
  · rw [runImports_eq, hitem, hfind, hlatest]
  · rw [hpull, hlatest]
  · rw [(hsound last hlast).repo, hlastPull, hpull]
  · rw [(hsound last hlast).number, hlastPull, hpull]
    exact Pull.storedNumber_of_fits (hdistinguishable.numbers entry hentry harrivals)

section Samples

def sampleComment (author : Text) (dbId : Int) : Github.ReviewCommentNode where
  databaseId := some dbId
  body := "Close the file."
  author := some ⟨some "User", author⟩
  path := some "a.rs"
  line := some 3
  url := none
  pullRequestReview := none
  reactionGroups := []

def samplePr (number : Int) (author : Text) (dbId : Int) : Github.PrNode where
  number := some number
  author := some ⟨none, author⟩
  files := []
  comments := []
  reviews := []
  reviewThreads := [⟨false, [sampleComment author dbId]⟩]

def sampleImport (repo sourceRepo : Text) (prs : List Github.PrNode) : Import :=
  .github ⟨repo, sourceRepo, "p", []⟩ prs

def sampleNotes (iid noteId : Int) : Import := .gitlab ⟨⟨"gl", by decide⟩, "acme/app", "p", []⟩
    [⟨iid, some "dora", none, [⟨"d",
      [⟨noteId, "Use a guard.", some "dora", false, true, false, none⟩]⟩], []⟩]

end Samples

/-- Pull request 7 of the upstream takes the item of pull request 7 of the fork it is attached
to. -/
theorem upstream_takes_item :
    let entries := allPersisted
      [sampleImport "acme/app" "acme/app" [samplePr 7 "alice" 1],
        sampleImport "acme/app" "up/app" [samplePr 7 "bob" 2]]
    ProviderUnique entries ∧ ∃ origin ∈ origins entries, ¬ KeptApart entries (runImports
        [sampleImport "acme/app" "acme/app" [samplePr 7 "alice" 1],
          sampleImport "acme/app" "up/app" [samplePr 7 "bob" 2]]).store
        origin := by
  intro entries
  refine ⟨by decide, ⟨.github "acme/app" "acme/app" 7, .inline, 1⟩, by decide, ?_⟩
  rintro ⟨comment, hfilter, _, item, hfind, hlatest, _⟩
  have hcomment : comment.reviewItemId = "gh-import:acme/app#7" := by
    have hids := congrArg (List.map (·.reviewItemId)) hfilter
    exact (List.cons.inj hids).1.symm
  rw [hcomment, ← hlatest] at hfind
  revert hfind
  decide

/-- A fork, its upstream and a project on GitLab, imported again and again. -/
theorem imports_kept_apart_again :
    let imports := [sampleImport "acme/app" "acme/app" [samplePr 7 "alice" 1],
      sampleImport "acme/app" "up/app" [samplePr 8 "bob" 2],
      sampleNotes 7 1,
      sampleImport "acme/app" "acme/app" [samplePr 7 "alice" 1]]
    ∀ origin ∈ origins (allPersisted imports),
      KeptApart (allPersisted imports) (runImports imports).store origin :=
  comments_kept_apart _ (by decide) ⟨by decide, by decide, by decide⟩

end Difflore.Ingest
