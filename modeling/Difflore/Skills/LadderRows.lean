import Difflore.Foundation.Ranking
import Difflore.Skills.TrustTiers
import Mathlib.Data.Prod.Lex

/-! # The rows that the ladder meets

Each query of the ladder returns the first row, in its order, of those that satisfy its
condition; the query for a title looks at the first ten rows of its slug only. So at most one
row is met, and the call strengthens it.
-/

namespace Difflore.Skills

open Foundation Text Infra Context

/-! ## Columns -/

theorem likePrefix_of_prefix {pattern text : Text} (hstart : pattern <+: text) :
    likePrefix pattern text = true := by
  induction pattern generalizing text with
  | nil => rw [likePrefix]
  | cons p pattern ih =>
    obtain ⟨rest, rfl⟩ := hstart
    rw [List.cons_append, likePrefix, ih (List.prefix_append pattern rest)]
    simp

/-- `serde_json` prints a list without white space around it, and reads it back. -/
structure ListReadsBack (library : Library) (patterns : List Text) : Prop where
  trimmed : trim (library.printStrings patterns) = library.printStrings patterns
  ne : library.printStrings patterns ≠ []
  reads : library.jsonStrings (library.printStrings patterns) = some patterns

section Columns

variable {library : RememberLibrary}

theorem parseExistingFilePatterns_printed {patterns : List Text}
    (hreads : ListReadsBack library.toLibrary patterns) :
    parseExistingFilePatterns library (some (library.printStrings patterns)) = patterns := by
  rw [parseExistingFilePatterns, Option.map_some, hreads.trimmed,
    Option.filter_some_pos (by simp [hreads.ne]), Option.bind_some, hreads.reads]
  rfl

theorem parseExistingFilePatterns_filePatternsJson {patterns : List Text}
    (hreads : ListReadsBack library.toLibrary patterns) :
    parseExistingFilePatterns library (filePatternsJson library.toLibrary patterns) = patterns := by
  rw [filePatternsJson]
  split
  next hnil =>
    rw [hnil]
    rfl
  next => exact parseExistingFilePatterns_printed hreads

theorem canonicalFilePatternsCsv_getD (patterns : Option (List Text)) :
    canonicalFilePatternsCsv (some (patterns.getD [])) = canonicalFilePatternsCsv patterns := by
  cases patterns <;> rfl

end Columns

/-- `ORDER BY installed_at ASC, id ASC`. -/
def installKey (row : SkillRow) : Stamp ×ₗ Text := toLex (row.installedAt, row.id)

/-- `ORDER BY hash_created_at ASC, id ASC`, with `NULL` first. -/
def hashKey (row : SkillRow) : Nat ×ₗ Text := toLex (row.hashCreatedAt.elim 0 (· + 1), row.id)

/-- `ORDER BY hash_created_at DESC, id ASC`, of rows that have a time. -/
def windowKey (row : SkillRow) : Natᵒᵈ ×ₗ Text :=
  toLex (OrderDual.toDual (row.hashCreatedAt.getD 0), row.id)

theorem oldestInstall_iff (left right : SkillRow) :
    oldestInstall left right ↔ installKey left ≤ installKey right := by
  rw [installKey, installKey, Prod.Lex.toLex_le_toLex]
  simp [oldestInstall]

theorem oldestHash_iff (left right : SkillRow) :
    oldestHash left right ↔ hashKey left ≤ hashKey right := by
  rw [hashKey, hashKey, Prod.Lex.toLex_le_toLex, oldestHash]
  cases left.hashCreatedAt with
  | none => cases right.hashCreatedAt <;> simp
  | some first => cases right.hashCreatedAt <;> simp

theorem newestHash_iff (left right : SkillRow) :
    newestHash left right ↔ windowKey left ≤ windowKey right := by
  rw [windowKey, windowKey, Prod.Lex.toLex_le_toLex]
  simp [newestHash]

section First

variable {Key : Type*} {key : SkillRow → Key} {skills : SkillTable} {condition : SkillRow → Bool}
  {row : SkillRow}

structure IsFirst [LinearOrder Key] (key : SkillRow → Key)
    (condition : SkillRow → Bool) (skills : SkillTable)
    (row : SkillRow) : Prop where
  mem : row ∈ skills.rows
  fits : condition row = true
  least : ∀ other ∈ skills.rows, condition other → key row ≤ key other

theorem nodup_map_key (hid : ∀ a b, key a = key b → a.id = b.id) (skills : SkillTable)
    (condition : SkillRow → Bool) : ((skills.rows.filter condition).map key).Nodup := by
  apply List.Nodup.map_on
  · intro first hfirst second hsecond hkey
    exact KeyedTable.eq_of_key (List.mem_of_mem_filter hfirst) (List.mem_of_mem_filter hsecond)
      (hid first second hkey)
  · exact skills.nodup.of_map.filter condition

theorem head?_query [LinearOrder Key] {order : SkillRow → SkillRow → Bool}
    (horder : ∀ a b, order a b ↔ key a ≤ key b) (hid : ∀ a b, key a = key b → a.id = b.id) :
    (query order condition skills).head? = some row ↔ IsFirst key condition skills row := by
  rw [query, head?_insertionSort horder (nodup_map_key hid skills condition)]
  simp only [List.mem_filter, and_imp]
  constructor
  · rintro ⟨⟨hmem, hfits⟩, hleast⟩
    exact ⟨hmem, hfits, hleast⟩
  · rintro ⟨hmem, hfits, hleast⟩
    exact ⟨⟨hmem, hfits⟩, hleast⟩

theorem head?_query_eq_none {order : SkillRow → SkillRow → Bool} :
    (query order condition skills).head? = none ↔ ∀ row ∈ skills.rows, ¬ condition row := by
  rw [List.head?_eq_none_iff, List.eq_nil_iff_forall_not_mem]
  simp only [mem_query, not_and]

end First

theorem installKey_id {a b : SkillRow} (hkey : installKey a = installKey b) : a.id = b.id :=
  congrArg (fun key => (ofLex key).2) hkey

theorem hashKey_id {a b : SkillRow} (hkey : hashKey a = hashKey b) : a.id = b.id :=
  congrArg (fun key => (ofLex key).2) hkey

theorem windowKey_id {a b : SkillRow} (hkey : windowKey a = windowKey b) : a.id = b.id :=
  congrArg (fun key => (ofLex key).2) hkey

variable (library : RememberLibrary)

def sameContent (contentHash : Text) (status : RuleStatus) (repo : Option Text) (row : SkillRow) :
    Bool :=
  row.contentHash = some contentHash && row.status = status.row && inRepo repo row

def inWindow (clock : CallClock) (contentHash : Text) (status : RuleStatus) (row : SkillRow) :
    Bool :=
  row.contentHash = some contentHash && row.origin = conversation && row.status = status.row &&
    row.hashCreatedAt.any fun created => clock.nowMs ≤ created + dedupWindowMs

def ofSlug (slug : Text) (status : RuleStatus) (row : SkillRow) : Bool :=
  likePrefix (convIds ++ (slug ++ ['-'])) row.id && row.origin = conversation &&
    row.status = status.row

def similar (csv body : Text) (row : SkillRow) : Bool :=
  parseExistingFilePatternsCsv library row.filePatterns = csv &&
    rememberBodiesSemanticallyMatch body row.description

def slugRank (slug : Text) (status : RuleStatus) (skills : SkillTable) (row : SkillRow) : Nat :=
  rank installKey (skills.rows.filter (ofSlug slug status)) row

/-- `LIMIT 10` of the query for a title. -/
def slugLimit : Nat := 10

section Queries

variable {library} {skills : SkillTable} {status : RuleStatus} {contentHash : Text} {row : SkillRow}

theorem findByContentHash_eq_some {repo : Option Text} :
    findByContentHash contentHash status repo skills = some row ↔
      IsFirst hashKey (sameContent contentHash status repo) skills row :=
  head?_query oldestHash_iff fun _ _ => hashKey_id

theorem findByContentHash_eq_none {repo : Option Text} :
    findByContentHash contentHash status repo skills = none ↔
      ∀ row ∈ skills.rows, ¬ sameContent contentHash status repo row :=
  head?_query_eq_none

theorem findInWindow_eq_some {clock : CallClock} :
    findInWindow clock contentHash status skills = some row ↔
      IsFirst windowKey (inWindow clock contentHash status) skills row :=
  head?_query newestHash_iff fun _ _ => windowKey_id

theorem findInWindow_eq_none {clock : CallClock} :
    findInWindow clock contentHash status skills = none ↔
      ∀ row ∈ skills.rows, ¬ inWindow clock contentHash status row :=
  head?_query_eq_none

theorem findByTitle_eq_some {slug csv body : Text} :
    findByTitle library slug csv body status skills = some row ↔
      IsFirst installKey (fun row => ofSlug slug status row && similar library csv body row)
        skills row ∧ slugRank slug status skills row < slugLimit := by
  have hnodup := nodup_map_key (fun _ _ => installKey_id) skills (ofSlug slug status)
  refine (find?_take_insertionSort oldestInstall_iff hnodup).trans (and_congr ?_ Iff.rfl)
  simp only [List.mem_filter, and_imp]
  constructor
  · rintro ⟨⟨hmem, hslug⟩, hsimilar, hleast⟩
    refine ⟨hmem, Bool.and_eq_true_iff.mpr ⟨hslug, hsimilar⟩, ?_⟩
    intro other hother hfits
    obtain ⟨hslug, hsimilar⟩ := Bool.and_eq_true_iff.mp hfits
    exact hleast other hother hslug hsimilar
  · rintro ⟨hmem, hfits, hleast⟩
    obtain ⟨hslug, hsimilar⟩ := Bool.and_eq_true_iff.mp hfits
    exact ⟨⟨hmem, hslug⟩, hsimilar, fun other hother hslug hsimilar =>
      hleast other hother (Bool.and_eq_true_iff.mpr ⟨hslug, hsimilar⟩)⟩

theorem findByTitle_eq_none {slug csv body : Text} :
    findByTitle library slug csv body status skills = none ↔
      ∀ row ∈ skills.rows, ofSlug slug status row → similar library csv body row →
        slugLimit ≤ slugRank slug status skills row := by
  have hnodup := nodup_map_key (fun _ _ => installKey_id) skills (ofSlug slug status)
  refine (find?_take_insertionSort_eq_none oldestInstall_iff hnodup).trans ?_
  simp only [List.mem_filter, and_imp]
  rfl

end Queries

/-! ## The row that a call meets -/

section Ladder

variable {library : RememberLibrary} {clock : CallClock} {input : RememberRuleInput}
  {status : RuleStatus} {repo : Option Text} {skills : SkillTable}

def RememberRuleInput.originOf (input : RememberRuleInput) : Text := input.origin.getD conversation

/-- No row of the repository has the content, or the call is a conversation and does not ask. -/
def NewContent (library : RememberLibrary) (input : RememberRuleInput) (status : RuleStatus)
    (repo : Option Text) (skills : SkillTable) : Prop :=
  input.originOf = conversation ∨
    ∀ row ∈ skills.rows, ¬ sameContent (rememberSignatureHash library input) status repo row

/-- The row that a call meets: the oldest of its content and repository; if there is none, the
newest conversation of its content within the window; if there is none, the oldest similar
conversation of its slug, if fewer than ten of the slug come before. -/
inductive Meets (library : RememberLibrary) (clock : CallClock) (input : RememberRuleInput)
    (status : RuleStatus) (repo : Option Text) (skills : SkillTable) (row : SkillRow) : Prop where
  | content (horigin : input.originOf ≠ conversation)
      (hfirst : IsFirst hashKey (sameContent (rememberSignatureHash library input) status repo)
        skills row)
  | window (hnew : NewContent library input status repo skills)
      (hfirst : IsFirst windowKey (inWindow clock (rememberSignatureHash library input) status)
        skills row)
  | title (hnew : NewContent library input status repo skills)
      (hold : ∀ other ∈ skills.rows,
        ¬ inWindow clock (rememberSignatureHash library input) status other)
      (slug : Text) (hslug : safeSlug (trim input.title) = some slug)
      (hfirst : IsFirst installKey (fun row => ofSlug slug status row &&
        similar library (canonicalFilePatternsCsv input.filePatterns)
          (sanitizedBody library input.body) row) skills row)
      (hrank : slugRank slug status skills row < slugLimit)

theorem Meets.mem {row : SkillRow} (hmeets : Meets library clock input status repo skills row) :
    row ∈ skills.rows := by
  cases hmeets with
  | content _ hfirst => exact hfirst.mem
  | window _ hfirst => exact hfirst.mem
  | title _ _ _ _ hfirst _ => exact hfirst.mem

theorem Meets.status_eq {row : SkillRow}
    (hmeets : Meets library clock input status repo skills row) :
    row.status = status.row := by
  cases hmeets with
  | content _ hfirst =>
    have hfits := hfirst.fits
    simp only [sameContent, Bool.and_eq_true, decide_eq_true_eq] at hfits
    exact hfits.1.2
  | window _ hfirst =>
    have hfits := hfirst.fits
    simp only [inWindow, Bool.and_eq_true, decide_eq_true_eq] at hfits
    exact hfits.1.2
  | title _ _ _ _ hfirst _ =>
    have hfits := hfirst.fits
    simp only [ofSlug, Bool.and_eq_true, decide_eq_true_eq] at hfits
    exact hfits.1.2

def PlainCall (input : RememberRuleInput) (status : RuleStatus) : Prop :=
  ¬ (input.originOf = prReviewOrigin ∧ status = .pending)

theorem importRung_of_plain (hplain : PlainCall input status) (contentHash : Text) :
    importRung library input status repo input.originOf contentHash skills =
      (findByContentHash contentHash status repo skills).map fun row =>
        .strengthen row importHashReason false := by
  have hreview :
      (decide (input.originOf = prReviewOrigin) && decide (status = .pending)) = false := by
    rw [Bool.eq_false_iff, Ne, Bool.and_eq_true_iff, decide_eq_true_eq, decide_eq_true_eq]
    exact hplain
  simp only [importRung, hreview, Bool.false_eq_true, if_false, Option.none_or, Option.or_none]

theorem newContent_iff : NewContent library input status repo skills ↔
      (if input.originOf ≠ conversation then
        findByContentHash (rememberSignatureHash library input) status repo skills else none) =
        none := by
  rw [NewContent, ← findByContentHash_eq_none]
  by_cases horigin : input.originOf = conversation
  · simp [horigin]
  · simp [horigin]

theorem findExisting_eq (hplain : PlainCall input status) (slug : Text) :
    findExisting library clock input status repo slug input.originOf
        (rememberSignatureHash library input) skills =
      ((if input.originOf ≠ conversation then
          findByContentHash (rememberSignatureHash library input) status repo skills
        else none).map fun row => Rung.strengthen row importHashReason false).or
      (((findInWindow clock (rememberSignatureHash library input) status skills).map fun row =>
          .strengthen row windowReason true).or
        ((findByTitle library slug (canonicalFilePatternsCsv input.filePatterns)
          (sanitizedBody library input.body) status skills).map fun row =>
            .strengthen row titleReason false)) := by
  rw [findExisting, importRung_of_plain hplain]
  by_cases horigin : input.originOf = conversation
  · simp [horigin]
  · simp [horigin]

theorem meets_iff (hplain : PlainCall input status) {slug : Text}
    (hslug : safeSlug (trim input.title) = some slug) {row : SkillRow} :
    Meets library clock input status repo skills row ↔
      ∃ reason windowHit, findExisting library clock input status repo slug input.originOf
        (rememberSignatureHash library input) skills = some (.strengthen row reason windowHit) := by
  rw [findExisting_eq hplain slug]
  constructor
  · intro hmeets
    cases hmeets with
    | content horigin hfirst =>
      rw [if_pos horigin, findByContentHash_eq_some.mpr hfirst]
      exact ⟨_, _, rfl⟩
    | window hnew hfirst =>
      rw [newContent_iff.mp hnew, findInWindow_eq_some.mpr hfirst]
      exact ⟨_, _, rfl⟩
    | title hnew hold other hother hfirst hrank =>
      obtain rfl := Option.some.inj (hslug.symm.trans hother)
      rw [newContent_iff.mp hnew, findInWindow_eq_none.mpr hold,
        findByTitle_eq_some.mpr ⟨hfirst, hrank⟩]
      exact ⟨_, _, rfl⟩
  · rintro ⟨reason, windowHit, hfind⟩
    rcases Option.or_eq_some_iff.mp hfind with hcontent | ⟨hnone, hlater⟩
    · obtain ⟨found, hfound, hrung⟩ := Option.map_eq_some_iff.mp hcontent
      obtain rfl := (Rung.strengthen.inj hrung).1
      obtain ⟨horigin, hfound⟩ := Option.ite_none_right_eq_some.mp hfound
      exact .content horigin (findByContentHash_eq_some.mp hfound)
    · have hnew := newContent_iff.mpr (Option.map_eq_none_iff.mp hnone)
      rcases Option.or_eq_some_iff.mp hlater with hwindow | ⟨hnone, htitle⟩
      · obtain ⟨found, hfound, hrung⟩ := Option.map_eq_some_iff.mp hwindow
        obtain rfl := (Rung.strengthen.inj hrung).1
        exact .window hnew (findInWindow_eq_some.mp hfound)
      · obtain ⟨found, hfound, hrung⟩ := Option.map_eq_some_iff.mp htitle
        obtain rfl := (Rung.strengthen.inj hrung).1
        obtain ⟨hfirst, hrank⟩ := findByTitle_eq_some.mp hfound
        exact .title hnew (findInWindow_eq_none.mp (Option.map_eq_none_iff.mp hnone)) slug hslug
          hfirst hrank

theorem strengthen_of_plain (hplain : PlainCall input status) {slug : Text} {rung : Rung}
    (hfind : findExisting library clock input status repo slug input.originOf
      (rememberSignatureHash library input) skills = some rung) :
    ∃ row reason windowHit, rung = .strengthen row reason windowHit := by
  rw [findExisting_eq hplain] at hfind
  rcases Option.or_eq_some_iff.mp hfind with hfound | ⟨_, hlater⟩
  · obtain ⟨row, _, rfl⟩ := Option.map_eq_some_iff.mp hfound
    exact ⟨_, _, _, rfl⟩
  · rcases Option.or_eq_some_iff.mp hlater with hfound | ⟨_, hfound⟩
    · obtain ⟨row, _, rfl⟩ := Option.map_eq_some_iff.mp hfound
      exact ⟨_, _, _, rfl⟩
    · obtain ⟨row, _, rfl⟩ := Option.map_eq_some_iff.mp hfound
      exact ⟨_, _, _, rfl⟩

def SkillRow.strengthened (row : SkillRow) (now : Stamp) : SkillRow :=
  { row with confidence := strengthenedConfidence row.confidence, updatedAt := now }

theorem find_strengthenRule {row : SkillRow} (hrow : row ∈ skills.rows) (now : Stamp) :
    (strengthenRule row.id now skills).find row.id = some (SkillRow.strengthened row now) := by
  rw [strengthenRule, KeyedTable.find_update, KeyedTable.find_eq_some.mpr ⟨hrow, rfl⟩]
  simp [SkillRow.strengthened, strengthenedConfidence]

theorem skill_strengthen {row : SkillRow} {reason origin : Text} {windowHit : Bool}
    {store after : RuleStore} {outcome : RememberOutcome} (hrow : row ∈ store.skills.rows)
    (happly : (Rung.strengthen row reason windowHit).apply clock status origin store =
      .ok (after, outcome)) :
    outcome.skill = SkillRow.strengthened row clock.now := by
  obtain ⟨-, -, -, hfound⟩ := apply_strengthen happly
  rw [find_strengthenRule hrow] at hfound
  exact (Option.some.inj hfound).symm

theorem rememberInner_plain (hplain : PlainCall input status) {confidenceOverride : Option Rat}
    {sourceRepo : Option RepoScope} {sourceKind : Option Text} {store after : RuleStore}
    {outcome : RememberOutcome}
    (hcall : rememberInner library clock input confidenceOverride status sourceRepo sourceKind
      store = .ok (after, outcome)) :
    (∃ row reason, row ∈ store.skills.rows ∧
      (∀ other, Meets library clock input status (sourceRepo.map RepoScope.value) store.skills
        other ↔ other = row) ∧
      after = strengthenExisting clock row reason status store ∧
      outcome.skill = SkillRow.strengthened row clock.now ∧ outcome.deduped = true) ∨
    ∃ slug, safeSlug (trim input.title) = some slug ∧
      (∀ other, ¬ Meets library clock input status (sourceRepo.map RepoScope.value) store.skills
        other) ∧
      insertFresh library clock input status input.originOf (freshRule library clock input
        confidenceOverride status (sourceRepo.map RepoScope.value) sourceKind slug input.originOf
        (rememberSignatureHash library input)) store = .ok (after, outcome) := by
  obtain ⟨-, slug, hslug, hfound⟩ := rememberInner_rows hcall
  have hmeets : ∀ row, Meets library clock input status (sourceRepo.map RepoScope.value)
      store.skills row ↔ _ := fun row => meets_iff hplain hslug
  rcases hfound with ⟨rung, hfind, happly⟩ | ⟨hfind, hinsert⟩
  · left
    obtain ⟨row, reason, windowHit, rfl⟩ := strengthen_of_plain hplain hfind
    have hrow := ((hmeets row).mpr ⟨_, _, hfind⟩).mem
    obtain ⟨hafter, hdeduped, -⟩ := apply_strengthen happly
    refine ⟨row, reason, hrow, ?_, hafter, skill_strengthen hrow happly, hdeduped⟩
    intro other
    rw [hmeets]
    constructor
    · rintro ⟨_, _, hfound⟩
      exact (Rung.strengthen.inj (Option.some.inj (hfound.symm.trans hfind))).1
    · rintro rfl
      exact ⟨_, _, hfind⟩
  · right
    refine ⟨slug, hslug, ?_, hinsert⟩
    intro row hrow
    obtain ⟨reason, windowHit, hfound⟩ := (hmeets row).mp hrow
    exact absurd (hfound.symm.trans hfind) (Option.some_ne_none _)

end Ladder

end Difflore.Skills
