import Difflore.Infra.ScopeForms
import Difflore.Ingest.Ids

/-! # Imports into one store

Items are replaced by id and comments are skipped by id, so what a store holds after any
sequence of imports depends on which pull requests and comments share an id.
-/

namespace Difflore.Ingest

open Foundation

/-- A run of an importer, with what it collected from the provider. -/
inductive Import
  | github (opts : Github.ImportOptions) (collected : List Github.PrNode)
  | gitlab (opts : Gitlab.ImportOptions) (collected : List Gitlab.MergeRequest)

/-- A persisted pull request: its item and its comments in the order of arrival. -/
structure PullImport where
  pull : Pull
  item : ReviewItem
  arrivals : List (Arrival ReviewComment Text)

namespace Import

def apply (run : ImportRun) : Import → ImportRun
  | .github opts collected => (Github.importPrReviews opts collected run).getD run
  | .gitlab opts collected => (Gitlab.importMrReviews opts collected run).getD run

def persisted : Import → List PullImport
  | .github opts collected =>
    if Github.validateOwnerRepo opts.repo &&
        (opts.sourceRepo = [] || Github.validateOwnerRepo opts.sourceRepo) then
      (Github.persisted opts collected).map fun (number, pr) =>
        ⟨Github.pull opts number, Github.item opts pr number, Github.arrivals opts number pr⟩
    else []
  | .gitlab opts collected =>
    if Gitlab.validateGitlabProjectPath opts.projectPath then
      (Gitlab.persisted opts collected).map fun mr =>
        ⟨Gitlab.pull opts mr, Gitlab.item opts mr, Gitlab.arrivals opts mr⟩
    else []

end Import

def PullImport.persist (run : ImportRun) (entry : PullImport) : ImportRun :=
  (run.ensureItem entry.item).addAll entry.arrivals

theorem Import.apply_eq (run : ImportRun) (action : Import) :
    action.apply run = action.persisted.foldl PullImport.persist run := by
  cases action with
  | github opts collected =>
    unfold Import.apply Import.persisted Github.importPrReviews
    dsimp only
    split
    next => rw [List.foldl_map]; rfl
    next => rfl
  | gitlab opts collected =>
    unfold Import.apply Import.persisted Gitlab.importMrReviews
    dsimp only
    split
    next => rw [List.foldl_map]; rfl
    next => rfl

def emptyRun : ImportRun := ⟨.empty, ⟨0, 0⟩⟩

def runImports (imports : List Import) : ImportRun := imports.foldl Import.apply emptyRun

def allPersisted (imports : List Import) : List PullImport := imports.flatMap Import.persisted

theorem runImports_eq (imports : List Import) :
    runImports imports = (allPersisted imports).foldl PullImport.persist emptyRun := by
  unfold runImports allPersisted
  generalize emptyRun = run
  induction imports generalizing run with
  | nil => rfl
  | cons action rest ih =>
    rw [List.foldl_cons, List.flatMap_cons, List.foldl_append, ← Import.apply_eq]
    exact ih (action.apply run)

def latestItem (entries : List PullImport) (pull : Pull) : Option ReviewItem :=
  ((entries.filter (·.pull = pull)).getLast?).map (·.item)

theorem comments_foldl_persist (entries : List PullImport) (run : ImportRun) :
    (entries.foldl PullImport.persist run).store.comments =
      (entries.flatMap (·.arrivals)).foldl (arrive ReviewComment.externalCommentId)
        run.store.comments := by
  induction entries generalizing run with
  | nil => rfl
  | cons entry rest ih =>
    rw [List.foldl_cons, ih, List.flatMap_cons, List.foldl_append]
    congr 1
    exact ImportRun.comments_addAll _ _

theorem items_persist (run : ImportRun) (entry : PullImport) :
    (entry.persist run).store.items = (run.store.ensureItem entry.item).items :=
  ImportRun.items_addAll _ _

theorem find_foldl_persist (entries : List PullImport) (run : ImportRun) (id : Text) :
    (entries.foldl PullImport.persist run).store.items.find id =
      (((entries.filter (·.item.id = id)).getLast?).map (·.item)).or
        (run.store.items.find id) := by
  induction entries using List.reverseRecOn with
  | nil => rfl
  | append_singleton entries entry ih =>
    rw [List.foldl_append, List.foldl_cons, List.foldl_nil, items_persist,
      ReviewStore.find_ensureItem, List.filter_append]
    by_cases hid : entry.item.id = id
    · rw [if_pos hid.symm, List.filter_cons_of_pos (by simpa using hid)]
      simp
    · rw [if_neg (Ne.symm hid), ih, List.filter_cons_of_neg (by simpa using hid)]
      simp

structure PullImport.Sound (entry : PullImport) : Prop where
  plain : entry.pull.Plain
  id : entry.item.id = entry.pull.itemId
  repo : entry.item.repoFullName = entry.pull.repo
  source : entry.item.source = entry.pull.source
  number : entry.item.prNumber = entry.pull.storedNumber
  arrives : ∀ arrival ∈ entry.arrivals, Arrives entry.pull arrival

theorem ownerRepoChar_ne {c : Char} (hc : Github.ownerRepoChar c = true) : c ≠ ':' ∧ c ≠ '#' := by
  constructor <;> rintro rfl <;> revert hc <;> decide

theorem validateOwnerRepo_plain {name : Text} (hvalid : Github.validateOwnerRepo name = true) :
    ':' ∉ name ∧ '#' ∉ name := by
  unfold Github.validateOwnerRepo at hvalid
  rw [Option.any_eq_true] at hvalid
  obtain ⟨⟨owner, repo⟩, hsplit, hparts⟩ := hvalid
  have hname := (Infra.splitOnce_eq_some hsplit).2
  dsimp only at hparts
  simp only [Bool.and_eq_true, List.all_eq_true] at hparts
  have hchars : ∀ c ∈ name, c = '/' ∨ Github.ownerRepoChar c = true := by
    intro c hc
    rw [hname] at hc
    rcases List.mem_append.mp hc with hc | hc
    · exact .inr (hparts.1.2 c hc)
    · rcases List.mem_cons.mp hc with hc | hc
      · exact .inl hc
      · exact .inr (hparts.2 c hc)
  constructor <;> intro hmem
  · rcases hchars _ hmem with heq | hchar
    · exact absurd heq (by decide)
    · exact (ownerRepoChar_ne hchar).1 rfl
  · rcases hchars _ hmem with heq | hchar
    · exact absurd heq (by decide)
    · exact (ownerRepoChar_ne hchar).2 rfl

theorem mem_joinSegments {c : Char} {segments : List Text}
    (hmem : c ∈ Infra.joinSegments segments) : c = '/' ∨ ∃ segment ∈ segments, c ∈ segment := by
  induction segments with
  | nil => exact absurd hmem List.not_mem_nil
  | cons segment rest ih =>
    cases rest with
    | nil =>
      rw [Infra.joinSegments, List.intercalate_singleton] at hmem
      exact .inr ⟨segment, .head _, hmem⟩
    | cons next tail =>
      rw [Infra.joinSegments, List.intercalate_cons_cons] at hmem
      rcases List.mem_append.mp hmem with hmem | hmem
      · rcases List.mem_append.mp hmem with hmem | hmem
        · exact .inr ⟨segment, .head _, hmem⟩
        · exact .inl (List.mem_singleton.mp hmem)
      · rcases ih hmem with heq | ⟨found, hfound, hc⟩
        · exact .inl heq
        · exact .inr ⟨found, .tail _ hfound, hc⟩

theorem validateGitlabProjectPath_plain {path : Text}
    (hvalid : Gitlab.validateGitlabProjectPath path = true) : '#' ∉ path := by
  unfold Gitlab.validateGitlabProjectPath at hvalid
  simp only [Bool.and_eq_true, List.all_eq_true] at hvalid
  intro hmem
  have hjoin : Infra.joinSegments (path.splitOn '/') = path := List.intercalate_splitOn '/'
  rw [← hjoin] at hmem
  rcases mem_joinSegments hmem with heq | ⟨segment, hsegment, hc⟩
  · exact absurd heq (by decide)
  · have hchar : Infra.segmentChar '#' = true := (hvalid.2 segment hsegment).2 '#' hc
    exact absurd hchar (by decide)

theorem Import.sound {action : Import} {entry : PullImport} (hentry : entry ∈ action.persisted) :
    entry.Sound := by
  cases action with
  | github opts collected =>
    unfold Import.persisted at hentry
    dsimp only at hentry
    split at hentry
    next hvalid =>
      obtain ⟨⟨number, pr⟩, _, rfl⟩ := List.mem_map.mp hentry
      rw [Bool.and_eq_true, Bool.or_eq_true] at hvalid
      have hrepo := validateOwnerRepo_plain hvalid.1
      have hsource : ':' ∉ opts.sourceRepo := by
        rcases hvalid.2 with hempty | hsource
        · rw [of_decide_eq_true hempty]
          exact List.not_mem_nil
        · exact (validateOwnerRepo_plain hsource).1
      refine ⟨⟨hrepo.1, hsource, hrepo.2⟩, rfl, rfl, rfl, rfl, ?_⟩
      intro arrival harrival
      exact Github.arrives harrival
    next => exact absurd hentry List.not_mem_nil
  | gitlab opts collected =>
    unfold Import.persisted at hentry
    dsimp only at hentry
    split at hentry
    next hvalid =>
      obtain ⟨mr, _, rfl⟩ := List.mem_map.mp hentry
      refine ⟨⟨opts.host.noSlash, validateGitlabProjectPath_plain hvalid⟩, rfl, rfl, rfl, rfl, ?_⟩
      intro arrival harrival
      exact Gitlab.arrives harrival
    next => exact absurd hentry List.not_mem_nil

theorem allPersisted_sound {imports : List Import} {entry : PullImport}
    (hentry : entry ∈ allPersisted imports) : entry.Sound := by
  obtain ⟨action, _, hpersisted⟩ := List.mem_flatMap.mp hentry
  exact Import.sound hpersisted

end Difflore.Ingest
