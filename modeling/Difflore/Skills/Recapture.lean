import Difflore.Skills.RepoCapture
import Difflore.Skills.Sanitizer

/-! # Is a conversation captured twice?

A recapture meets a row of its content within the window, or a similar conversation of its slug.
The similar row stays for ever, but the query for a title reads the ten oldest rows that match the
slug, and rows of other slugs match it too.
-/

namespace Difflore.Skills

open Foundation Text Infra Context

/-- A call of `remember`, with what it reads from outside the database. -/
structure Capture where
  clock : CallClock
  input : RememberRuleInput
  confidenceOverride : Option Rat
  status : RuleStatus
  sourceRepo : Option RepoScope
  sourceKind : Option Text

def Capture.call (library : RememberLibrary) (capture : Capture) (store : RuleStore) :
    Except Text (RuleStore × RememberOutcome) :=
  rememberInner library capture.clock capture.input capture.confidenceOverride capture.status
    capture.sourceRepo capture.sourceKind store

def captureStep (library : RememberLibrary) (store : RuleStore) (capture : Capture) :
    Option RuleStore :=
  (capture.call library store).toOption.map Prod.fst

def FromConversation (_ : RuleStore) (capture : Capture) : Prop :=
  capture.input.originOf = conversation

theorem captureStep_eq_some {library : RememberLibrary} {store after : RuleStore}
    {capture : Capture} : captureStep library store capture = some after ↔
      ∃ outcome, capture.call library store = .ok (after, outcome) := by
  rw [captureStep]
  cases capture.call library store with
  | error err => simp [Except.toOption]
  | ok result =>
    obtain ⟨left, outcome⟩ := result
    simp [Except.toOption, eq_comm]

/-- A conversation of the slug with the patterns and a similar body. -/
def Candidate (library : RememberLibrary) (slug csv body : Text) (status : RuleStatus)
    (row : SkillRow) : Prop :=
  ofSlug slug status row = true ∧ similar library csv body row = true

section Rows

variable {library : RememberLibrary} {clock : CallClock} {input : RememberRuleInput}
  {status : RuleStatus} {repo : Option Text} {skills : SkillTable} {slug csv body : Text}

/-- A conversation meets a row exactly when one of its content is in the window, or one of the
candidates is among the first of the slug. -/
theorem exists_meets_iff (horigin : input.originOf = conversation)
    (hslug : safeSlug (trim input.title) = some slug) :
    (∃ row, Meets library clock input status repo skills row) ↔
      (∃ row ∈ skills.rows,
        inWindow clock (rememberSignatureHash library input) status row = true) ∨
      ∃ row ∈ skills.rows, Candidate library slug (canonicalFilePatternsCsv input.filePatterns)
        (sanitizedBody library input.body) status row ∧
          slugRank slug status skills row < slugLimit := by
  constructor
  · rintro ⟨row, hmeets⟩
    cases hmeets with
    | content hother => contradiction
    | window _ hfirst => exact .inl ⟨row, hfirst.mem, hfirst.fits⟩
    | title _ _ other hother hfirst hrank =>
      obtain rfl := Option.some.inj (hslug.symm.trans hother)
      exact .inr ⟨row, hfirst.mem, Bool.and_eq_true_iff.mp hfirst.fits, hrank⟩
  · intro hrows
    by_cases hwindow : ∀ row ∈ skills.rows,
        ¬ inWindow clock (rememberSignatureHash library input) status row
    · obtain ⟨row, hrow, hcandidate, hrank⟩ := hrows.resolve_left
        fun ⟨row, hrow, hin⟩ => hwindow row hrow hin
      cases htitle : findByTitle library slug (canonicalFilePatternsCsv input.filePatterns)
          (sanitizedBody library input.body) status skills with
      | none =>
        have hbeyond := findByTitle_eq_none.mp htitle row hrow hcandidate.1 hcandidate.2
        omega
      | some found =>
        obtain ⟨hfirst, hfew⟩ := findByTitle_eq_some.mp htitle
        exact ⟨found, .title (.inl horigin) hwindow slug hslug hfirst hfew⟩
    · cases hfind : findInWindow clock (rememberSignatureHash library input) status skills with
      | none => exact absurd (findInWindow_eq_none.mp hfind) hwindow
      | some found => exact ⟨found, .window (.inl horigin) (findInWindow_eq_some.mp hfind)⟩

theorem candidate_strengthenRule {id : Text} {now : Stamp}
    (hcandidate : ∃ row ∈ skills.rows, Candidate library slug csv body status row) :
    ∃ row ∈ (strengthenRule id now skills).rows, Candidate library slug csv body status row := by
  obtain ⟨row, hrow, hfits⟩ := hcandidate
  refine ⟨_, KeyedTable.mem_update.mpr ⟨row, hrow, rfl⟩, ?_⟩
  split
  · exact hfits
  · exact hfits

theorem normaliseDedupText_ne_nil {value : Text} (hne : value ≠ []) (htrimmed : Trimmed value) :
    normaliseDedupText value ≠ [] := by
  cases value with
  | nil => contradiction
  | cons c value =>
    have hc : isWhitespace c = false := htrimmed.head
    obtain ⟨word, words, hwords⟩ := List.exists_cons_of_ne_nil
      (List.splitOnP_ne_nil isWhitespace value)
    rw [normaliseDedupText, splitWhitespace, List.splitOnP_cons_eq_if_modifyHead,
      if_neg (by simp [hc]), hwords, List.modifyHead_cons, List.filter_cons_of_pos (by simp)]
    cases words.filter (· ≠ []) <;> simp [toAsciiLowercase]

theorem rememberBodiesSemanticallyMatch_self {value : Text} (hne : value ≠ [])
    (htrimmed : Trimmed value) : rememberBodiesSemanticallyMatch value value = true := by
  have hwords := normaliseDedupText_ne_nil hne htrimmed
  simp [rememberBodiesSemanticallyMatch, hwords]

theorem candidate_newRow {library : Library} {sha256Hex : Text → Text}
    (horigin : input.originOf = conversation) (hbody : trim input.body ≠ [])
    (hreads : ListReadsBack library (input.filePatterns.getD []))
    {confidenceOverride : Option Rat} {sourceKind : Option Text} {contentHash : Text} :
    Candidate (redacting library sha256Hex) slug (canonicalFilePatternsCsv input.filePatterns)
      (sanitizedBody (redacting library sha256Hex) input.body) status
      ((freshRule (redacting library sha256Hex) clock input confidenceOverride status repo sourceKind
        slug input.originOf contentHash).newRow library clock.now) := by
  constructor
  · have hid : convIds ++ (slug ++ ['-']) <+: convIds ++ (slug ++ '-' :: clock.idSuffix) :=
      ⟨clock.idSuffix, by simp⟩
    simp only [ofSlug, RememberedRule.newRow, freshRule, likePrefix_of_prefix hid, horigin,
      Bool.true_and, decide_true]
  · have hpatterns : parseExistingFilePatternsCsv (redacting library sha256Hex)
        (filePatternsJson library (input.filePatterns.getD [])) =
          canonicalFilePatternsCsv input.filePatterns := by
      rw [parseExistingFilePatternsCsv, ← canonicalFilePatternsCsv_getD input.filePatterns]
      exact congrArg (fun patterns => canonicalFilePatternsCsv (some patterns))
        (parseExistingFilePatterns_filePatternsJson hreads)
    have hstored : sanitizedBody (redacting library sha256Hex) input.body ≠ [] :=
      (sanitizedBody_eq_nil library sha256Hex).not.mpr hbody
    have htrimmed : Trimmed (sanitizedBody (redacting library sha256Hex) input.body) := by
      rw [sanitizedBody_redacting]
      exact trimmed_redacted input.body
    simp only [similar, RememberedRule.newRow, freshRule, hpatterns, decide_true, Bool.true_and]
    exact rememberBodiesSemanticallyMatch_self hstored htrimmed

end Rows

/-! ## Recaptures -/

/-- The second call has the title, the body and the patterns of the first, in the same status. -/
structure Recaptures (first again : Capture) : Prop where
  title : again.input.title = first.input.title
  body : again.input.body = first.input.body
  filePatterns : again.input.filePatterns = first.input.filePatterns
  status : again.status = first.status

section Recapture

variable {library : RememberLibrary} {store after : RuleStore} {capture : Capture}

theorem captureStep_cases (horigin : capture.input.originOf = conversation)
    (hstep : captureStep library store capture = some after) :
    trim capture.input.body ≠ [] ∧ ∃ slug, safeSlug (trim capture.input.title) = some slug ∧
      (((∃ row, Meets library capture.clock capture.input capture.status
            (capture.sourceRepo.map RepoScope.value) store.skills row) ∧
        ∃ id, after.skills = strengthenRule id capture.clock.now store.skills) ∨
      ((¬ ∃ row, Meets library capture.clock capture.input capture.status
            (capture.sourceRepo.map RepoScope.value) store.skills row) ∧
        after.skills.rows = store.skills.rows ++
          [(freshRule library capture.clock capture.input capture.confidenceOverride capture.status
            (capture.sourceRepo.map RepoScope.value) capture.sourceKind slug capture.input.originOf
            (rememberSignatureHash library capture.input)).newRow library.toLibrary
              capture.clock.now])) := by
  obtain ⟨outcome, hcall⟩ := captureStep_eq_some.mp hstep
  obtain ⟨hbody, slug, hslug, -⟩ := rememberInner_rows hcall
  have hplain : PlainCall capture.input capture.status := fun hreview =>
    absurd (horigin.symm.trans hreview.1) (by decide)
  refine ⟨hbody, slug, hslug, ?_⟩
  rcases rememberInner_plain hplain hcall with
    ⟨row, reason, -, hmeets, rfl, -⟩ | ⟨other, hother, hnone, hinsert⟩
  · exact .inl ⟨⟨row, (hmeets row).mpr rfl⟩, row.id, rfl⟩
  · obtain rfl := Option.some.inj (hslug.symm.trans hother)
    obtain ⟨hfresh, hskills, -⟩ := insertFresh_eq_ok hinsert
    refine .inr ⟨fun ⟨row, hrow⟩ => hnone row hrow, ?_⟩
    rw [hskills, rows_rememberRule hfresh]

theorem candidate_captureStep {slug csv body : Text} {status : RuleStatus}
    (horigin : capture.input.originOf = conversation)
    (hstep : captureStep library store capture = some after)
    (hcandidate : ∃ row ∈ store.skills.rows, Candidate library slug csv body status row) :
    ∃ row ∈ after.skills.rows, Candidate library slug csv body status row := by
  obtain ⟨-, own, -, ⟨-, id, hskills⟩ | ⟨-, hrows⟩⟩ := captureStep_cases horigin hstep
  · rw [hskills]
    exact candidate_strengthenRule hcandidate
  · obtain ⟨row, hrow, hfits⟩ := hcandidate
    exact ⟨row, by simp [hrows, hrow], hfits⟩

theorem keys_captureStep_iff (horigin : capture.input.originOf = conversation)
    (hstep : captureStep library store capture = some after) :
    after.skills.keys = store.skills.keys ↔
      ∃ row, Meets library capture.clock capture.input capture.status
        (capture.sourceRepo.map RepoScope.value) store.skills row := by
  obtain ⟨-, slug, -, ⟨hmeets, id, hskills⟩ | ⟨hnone, hrows⟩⟩ := captureStep_cases horigin hstep
  · refine iff_of_true ?_ hmeets
    rw [hskills]
    exact KeyedTable.keys_update
  · refine iff_of_false (fun hkeys => ?_) hnone
    have hlength := congrArg List.length hkeys
    simp [KeyedTable.keys, hrows] at hlength

end Recapture

/-- A recapture, after any conversations, inserts nothing exactly when a row of its content is in
the window or a candidate is among the ten oldest rows that match its slug. Unless the first call
met a row in its window, there is a candidate. -/
theorem recapture_inserts_nothing_iff {library : Library} {sha256Hex : Text → Text}
    {start stored store after : RuleStore} {first again : Capture} {later : List Capture}
    (hfirst : captureStep (redacting library sha256Hex) start first = some stored)
    (hlater : Run (captureStep (redacting library sha256Hex)) FromConversation stored later store)
    (hagain : captureStep (redacting library sha256Hex) store again = some after)
    (hrecaptures : Recaptures first again) (hconversation : FromConversation start first)
    (hconversation' : FromConversation store again)
    (hreads : ListReadsBack library (first.input.filePatterns.getD [])) :
    ∃ slug, safeSlug (trim first.input.title) = some slug ∧ (after.skills.keys = store.skills.keys ↔
        (∃ row ∈ store.skills.rows, inWindow again.clock
          (rememberSignatureHash (redacting library sha256Hex) first.input) first.status row =
            true) ∨
        ∃ row ∈ store.skills.rows, Candidate (redacting library sha256Hex) slug
          (canonicalFilePatternsCsv first.input.filePatterns)
          (sanitizedBody (redacting library sha256Hex) first.input.body) first.status row ∧
            slugRank slug first.status store.skills row < slugLimit) ∧
      ((∃ row ∈ start.skills.rows, inWindow first.clock
          (rememberSignatureHash (redacting library sha256Hex) first.input) first.status row =
            true) ∨
        ∃ row ∈ store.skills.rows, Candidate (redacting library sha256Hex) slug
          (canonicalFilePatternsCsv first.input.filePatterns)
          (sanitizedBody (redacting library sha256Hex) first.input.body) first.status row) := by
  obtain ⟨hbody, slug, hslug, hcases⟩ := captureStep_cases hconversation hfirst
  refine ⟨slug, hslug, ?_, ?_⟩
  · have hslug' : safeSlug (trim again.input.title) = some slug := by
      rw [hrecaptures.title, hslug]
    have hhash : rememberSignatureHash (redacting library sha256Hex) again.input =
        rememberSignatureHash (redacting library sha256Hex) first.input := by
      rw [rememberSignatureHash, rememberSignatureHash, hrecaptures.title, hrecaptures.body,
        hrecaptures.filePatterns]
    rw [keys_captureStep_iff hconversation' hagain, exists_meets_iff hconversation' hslug', hhash,
      hrecaptures.body, hrecaptures.filePatterns, hrecaptures.status]
  · have hstays : (∃ row ∈ stored.skills.rows, Candidate (redacting library sha256Hex) slug
        (canonicalFilePatternsCsv first.input.filePatterns)
        (sanitizedBody (redacting library sha256Hex) first.input.body) first.status row) →
        ∃ row ∈ store.skills.rows, Candidate (redacting library sha256Hex) slug
          (canonicalFilePatternsCsv first.input.filePatterns)
          (sanitizedBody (redacting library sha256Hex) first.input.body) first.status row :=
      hlater.invariant fun _ _ _ hcandidate horigin hstep =>
        candidate_captureStep horigin hstep hcandidate
    rcases hcases with ⟨hmeets, id, hskills⟩ | ⟨-, hrows⟩
    · rcases (exists_meets_iff hconversation hslug).mp hmeets with hwindow | ⟨row, hrow, hfits, -⟩
      · exact .inl hwindow
      · refine .inr (hstays ?_)
        rw [hskills]
        exact candidate_strengthenRule ⟨row, hrow, hfits⟩
    · refine .inr (hstays ?_)
      rw [hrows]
      exact ⟨_, List.mem_append_right _ (List.mem_singleton_self _),
        candidate_newRow hconversation hbody hreads⟩

def captureAt (nowMs : Nat) (now suffix : Text) : Capture where
  clock := { noon with now, nowMs, idSuffix := suffix }
  input := conversationInput
  confidenceOverride := none
  status := .active
  sourceRepo := none
  sourceKind := none

def otherCapture : Capture :=
  { captureAt 10 [] ['2'] with input := { conversationInput with title := ['u'] } }

theorem recapture_inserts_nothing_iff_title :
    ∃ stored store after, captureStep (redacting oneTag twoLetters.sha256Hex) newStore
        (captureAt 0 [] ['0']) = some stored ∧
      Run (captureStep (redacting oneTag twoLetters.sha256Hex)) FromConversation stored
        [otherCapture] store ∧
      captureStep (redacting oneTag twoLetters.sha256Hex) store (captureAt 30001 [] ['1']) =
        some after ∧
      after.skills.keys = store.skills.keys := by
  have haccepted : ((captureStep (redacting oneTag twoLetters.sha256Hex) newStore
      (captureAt 0 [] ['0'])).bind fun stored =>
        (captureStep (redacting oneTag twoLetters.sha256Hex) stored otherCapture).bind fun store =>
          (captureStep (redacting oneTag twoLetters.sha256Hex) store
            (captureAt 30001 [] ['1'])).map fun _ => store).any (fun store => store.skills.rows.any
        fun row => ofSlug ['t'] .active row && similar (redacting oneTag twoLetters.sha256Hex)
          (canonicalFilePatternsCsv conversationInput.filePatterns)
          (sanitizedBody (redacting oneTag twoLetters.sha256Hex) conversationInput.body) row &&
          decide (slugRank ['t'] .active store.skills row < slugLimit)) = true := by decide +kernel
  obtain ⟨store, hrun, hfits⟩ := (Option.any_eq_true _ _).mp haccepted
  obtain ⟨stored, hfirst, hrest⟩ := Option.bind_eq_some_iff.mp hrun
  obtain ⟨store, hother, hlast⟩ := Option.bind_eq_some_iff.mp hrest
  obtain ⟨after, hagain, rfl⟩ := Option.map_eq_some_iff.mp hlast
  have hlater : Run (captureStep (redacting oneTag twoLetters.sha256Hex)) FromConversation stored
      [otherCapture] store := .cons rfl hother (.nil store)
  obtain ⟨slug, hslug, hkeys, -⟩ := recapture_inserts_nothing_iff hfirst hlater hagain
    ⟨rfl, rfl, rfl, rfl⟩ rfl rfl ⟨by decide, by decide, rfl⟩
  obtain rfl : ['t'] = slug := Option.some.inj hslug
  obtain ⟨row, hrow, hmet⟩ := List.any_eq_true.mp hfits
  obtain ⟨hcandidate, hrank⟩ := Bool.and_eq_true_iff.mp hmet
  exact ⟨stored, store, after, hfirst, hlater, hagain, hkeys.mpr (.inr ⟨row, hrow,
    Bool.and_eq_true_iff.mp hcandidate, of_decide_eq_true hrank⟩)⟩

def neighbour (digit : Char) : SkillRow where
  id := "conv-t-" ++ [digit, '-', '0']
  name := ['t', ' ', digit]
  source := localSource
  version := firstVersion
  description := [digit]
  origin := conversation
  installedAt := []
  updatedAt := []

def neighbours : RuleStore where
  skills := ⟨"0123456789".toList.map neighbour, by decide⟩
  events := []
  examples := []
  rejected := []

/-- After the window, the row of the first call is the eleventh that matches the slug. -/
theorem recapture_inserts_again : ((captureStep (redacting oneTag twoLetters.sha256Hex) neighbours
        (captureAt 0 ['1'] ['0'])).bind fun stored =>
      (captureStep (redacting oneTag twoLetters.sha256Hex) stored
        (captureAt 30001 ['2'] ['1'])).map fun after =>
          (stored.skills.keys, after.skills.keys)) =
      some (neighbours.skills.keys ++ ["conv-t-0".toList],
        neighbours.skills.keys ++ ["conv-t-0".toList, "conv-t-1".toList]) := by
  decide +kernel

end Difflore.Skills
