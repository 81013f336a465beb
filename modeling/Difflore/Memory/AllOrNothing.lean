import Difflore.Memory.EnableGroup
import Mathlib.Tactic.NormNum

/-! # When enabling a group is all or nothing

An error leaves everything untouched as long as nothing was written in front of it. A draft is
rewritten in front of its promotion, and the promotion stands in front of every mark.
-/

namespace Difflore.Memory

open Foundation Text Context Skills SessionMine

variable {error : EnableError} {lesson : Lesson} {hashes : List Text} {mid : MemoryStore}
  {row : SessionMinedRow}

/-! ## Calls that fail untouched -/

theorem Untouched.refl (store : MemoryStore) : Untouched store store := ⟨rfl, rfl, rfl⟩

namespace Call

variable {α β : Type} {base store after : MemoryStore} {call : Call α} {next : α → Call β}
  {fault : Option Text} {result : β}

def SafeFrom (base : MemoryStore) (call : Call α) (store : MemoryStore) : Prop :=
  ∀ error after, call store = (.error error, after) → Untouched base after

theorem safeFrom_done {result : α} : SafeFrom base (done result) store := by
  intro error after hdone
  cases hdone

theorem safeFrom_of_ok {result : α} (hok : call store = (.ok result, after)) :
    SafeFrom base call store := by
  intro error other herror
  rw [hok] at herror
  cases herror

theorem safeFrom_of_error (herror : call store = (.error error, after)) :
    SafeFrom base call store ↔ Untouched base after := by
  constructor
  · intro hsafe
    exact hsafe error after herror
  · intro huntouched other later hother
    rw [herror] at hother
    obtain ⟨-, rfl⟩ := Prod.mk.inj hother
    exact huntouched

theorem safeFrom_andThen : SafeFrom base (call.andThen next) store ↔
    SafeFrom base call store ∧ ∀ result mid, call store = (.ok result, mid) →
      SafeFrom base (next result) mid := by
  unfold SafeFrom andThen
  rcases hcall : call store with ⟨_ | result, mid⟩
  · simp
  · simp

theorem failing_some (message : Text) :
    (call.failing (some message)) store = (.error (.infrastructure message), store) := rfl

theorem ok_andThen : (call.andThen next) store = (.ok result, after) ↔
    ∃ first mid, call store = (.ok first, mid) ∧ next first mid = (.ok result, after) := by
  unfold andThen
  rcases hcall : call store with ⟨_ | first, mid⟩
  · simp
  · simp

theorem ok_failing {result : α} : (call.failing fault) store = (.ok result, after) ↔
    fault = none ∧ call store = (.ok result, after) := by
  cases fault with
  | none => simp [failing]
  | some message => simp [failing, fail]

theorem safeFrom_andThen_of_ok {first : α} (hok : call store = (.ok first, mid)) :
    SafeFrom base (call.andThen next) store ↔ SafeFrom base (next first) mid := by
  rw [safeFrom_andThen]
  constructor
  · intro hsafe
    exact hsafe.2 first mid hok
  · intro hsafe
    refine ⟨safeFrom_of_ok hok, fun other later hother => ?_⟩
    rw [hok] at hother
    cases hother
    exact hsafe

theorem safeFrom_andThen_of_error (herror : call store = (.error error, after)) :
    SafeFrom base (call.andThen next) store ↔ Untouched base after := by
  rw [safeFrom_andThen, safeFrom_of_error herror, and_iff_left]
  intro result mid hok
  rw [herror] at hok
  cases hok

theorem andThen_assoc {γ : Type} (last : β → Call γ) :
    (call.andThen next).andThen last = call.andThen fun result => (next result).andThen last := by
  funext store
  unfold andThen
  rcases call store with ⟨_ | result, mid⟩
  · rfl
  · rfl

theorem done_andThen (result : α) : (done result).andThen next = next result := rfl

theorem safeFrom_andThen_done {γ : Type} {last : α → γ} :
    SafeFrom base (call.andThen fun result => done (last result)) store ↔
      SafeFrom base call store := by
  rw [safeFrom_andThen, and_iff_left]
  intro result mid _
  exact safeFrom_done

theorem safeFrom_statement {first : α} (hok : call store = (.ok first, mid)) :
    SafeFrom base ((call.failing fault).andThen next) store ↔
      (fault ≠ none → Untouched base store) ∧ (fault = none → SafeFrom base (next first) mid) := by
  cases fault with
  | none =>
    rw [failing, safeFrom_andThen_of_ok hok]
    simp
  | some message =>
    rw [safeFrom_andThen_of_error (failing_some message)]
    simp

theorem safeFrom_first
    (hkeeps : ∀ error after, call store = (.error error, after) → after = store) :
    SafeFrom store ((call.failing fault).andThen next) store ↔ (fault = none →
      ∀ result mid, call store = (.ok result, mid) → SafeFrom store (next result) mid) := by
  cases fault with
  | none =>
    rw [failing, safeFrom_andThen, and_iff_right]
    · simp
    · intro error after herror
      rw [hkeeps error after herror]
      exact .refl store
  | some message =>
    rw [safeFrom_andThen_of_error (failing_some message)]
    simp [Untouched.refl]

end Call

/-! ## Promotions -/

def Promotable (id : Text) (skills : SkillTable) : Prop :=
  ∃ row, skills.find id = some row ∧ row.status = .pending ∧ activeDuplicate row skills = none

section Promotion

variable {id : Text} {skills : SkillTable} {store : MemoryStore}

theorem activeDuplicate_eq_none {row : SkillRow} : activeDuplicate row skills = none ↔
    ∀ hash ∈ draftHash row, ∀ other ∈ skills.rows, activeWith hash other = false := by
  rw [activeDuplicate_eq]
  cases draftHash row with
  | none => simp
  | some hash =>
    rw [Option.bind_some, head?_query_eq_none]
    simp

theorem promotable_update {condition : SkillRow → Bool} {set : SkillRow → SkillRow}
    {hset : ∀ row, (set row).id = row.id} (hstatus : ∀ row, (set row).status = row.status)
    (hhash : ∀ row, (set row).contentHash = row.contentHash) :
    Promotable id (skills.update condition set hset) ↔ Promotable id skills := by
  have hdup : ∀ row, activeDuplicate row (skills.update condition set hset) = none ↔
      activeDuplicate row skills = none := by
    intro row
    rw [activeDuplicate_eq_none, activeDuplicate_eq_none]
    refine forall₂_congr fun hash _ => ?_
    simp only [KeyedTable.update, List.forall_mem_map]
    refine forall₂_congr fun other _ => ?_
    split
    · simp only [activeWith, hstatus, hhash]
    · rfl
  have hkeep : ∀ row, ((if condition row then set row else row).status = .pending ∧
      activeDuplicate (if condition row then set row else row) skills = none) ↔
      (row.status = .pending ∧ activeDuplicate row skills = none) := by
    intro row
    split
    · simp only [hstatus, activeDuplicate, hhash]
    · rfl
  simp only [Promotable, KeyedTable.find_update, hdup, Option.map_eq_some_iff]
  constructor
  · rintro ⟨_, ⟨row, hrow, rfl⟩, hpromotable⟩
    exact ⟨row, hrow, (hkeep row).mp hpromotable⟩
  · rintro ⟨row, hrow, hpromotable⟩
    exact ⟨_, ⟨row, hrow, rfl⟩, (hkeep row).mpr hpromotable⟩

theorem promoteRule_of_promotable (hpromotable : Promotable id store.rules.skills) :
    ∃ row, row.id = id ∧ promoteRule id store = (.ok row,
      store.withSkills (promoteCandidate id store.rules.skills)) := by
  obtain ⟨row, hrow, hpending, hnone⟩ := hpromotable
  have hpromote : promoteDraft id store.rules = .ok
      { store.rules with skills := promoteCandidate id store.rules.skills } := by
    simp only [promoteDraft, hrow, hpending, hnone, if_true]
  have hkey : id ∈ (promoteCandidate id store.rules.skills).keys := by
    rw [promoteCandidate, KeyedTable.keys_update]
    exact KeyedTable.mem_keys.mpr ⟨row, KeyedTable.find_eq_some.mp hrow⟩
  obtain ⟨promoted, hpromoted⟩ := KeyedTable.mem_keys.mp hkey
  have hfetch : fetchSkillRowById id (promoteCandidate id store.rules.skills) = .ok promoted := by
    rw [fetchSkillRowById, KeyedTable.find_eq_some.mpr hpromoted]
  refine ⟨promoted, hpromoted.2, ?_⟩
  simp only [promoteRule, hpromote, hfetch]
  rfl

theorem promoteRule_of_not_promotable (hnot : ¬ Promotable id store.rules.skills) :
    ∃ message, promoteDraft id store.rules = .error message ∧
      promoteRule id store = (.error (promotionError id store.rules.skills message), store) := by
  have herror : ∃ message, promoteDraft id store.rules = .error message := by
    unfold promoteDraft
    split
    next => exact ⟨_, rfl⟩
    next row hrow =>
      split
      next hpending =>
        split
        next => exact ⟨_, rfl⟩
        next hnone => exact absurd ⟨row, hrow, hpending, hnone⟩ hnot
      next =>
        split
        next => exact ⟨_, rfl⟩
        next => exact ⟨_, rfl⟩
  obtain ⟨message, hmessage⟩ := herror
  refine ⟨message, hmessage, ?_⟩
  simp only [promoteRule, hmessage]

theorem promoteCandidate_of_not_promotable (hnot : ¬ Promotable id skills) :
    promoteCandidate id skills = skills := by
  apply ext_rows
  rw [promoteCandidate, KeyedTable.update]
  conv_rhs => rw [← List.map_id skills.rows]
  refine List.map_congr_left fun row hrow => if_neg fun hcondition => hnot ?_
  simp only [Bool.and_eq_true, decide_eq_true_eq, Bool.not_eq_true', Option.any_eq_false]
    at hcondition
  obtain ⟨⟨hid, hpending⟩, hfree⟩ := hcondition
  refine ⟨row, KeyedTable.find_eq_some.mpr ⟨hrow, hid⟩, hpending, activeDuplicate_eq_none.mpr ?_⟩
  intro hash hhash
  obtain ⟨stored, hstored, rfl, hne⟩ := mem_draftHash.mp hhash
  have hnone := hfree stored hstored
  rw [Bool.and_eq_false_iff, decide_eq_false_iff_not, List.any_eq_false] at hnone
  intro other hother
  exact Bool.eq_false_iff.mpr (hnone.resolve_left (not_not.mpr hne) other hother)

theorem promoteCandidate_ne {base : SkillTable} (hpromotable : Promotable id skills)
    (hbase : ∀ row, base.find id = some row → row.status = .pending) :
    promoteCandidate id skills ≠ base := by
  obtain ⟨row, hrow, hpending, hnone⟩ := hpromotable
  rintro rfl
  have hsame : activateDraft id skills = promoteCandidate id skills :=
    let store : RuleStore := ⟨skills, [], [], []⟩
    have hfind : store.skills.find id = some row := hrow
    activateDraft_eq hfind hnone
  have hid : row.id = id := (KeyedTable.find_eq_some.mp hrow).2
  rw [← hsame, activateDraft, KeyedTable.find_update, hrow, Option.map_some,
    if_pos (by simp [hid, hpending])] at hbase
  cases hbase _ rfl

theorem filter_active_update {condition : SkillRow → Bool} {set : SkillRow → SkillRow}
    {hset : ∀ row, (set row).id = row.id} (hinactive : ∀ row ∈ skills.rows, condition row = true →
      row.status ≠ .active ∧ (set row).status ≠ .active) :
    (skills.update condition set hset).rows.filter (·.status = .active) =
      skills.rows.filter (·.status = .active) := by
  change (skills.rows.map fun row => if condition row then set row else row).filter _ = _
  generalize skills.rows = rows at hinactive
  induction rows with
  | nil => rfl
  | cons row rows ih =>
    have hrest := ih fun other hother => hinactive other (.tail _ hother)
    rw [List.map_cons, List.filter_cons, List.filter_cons, hrest]
    by_cases hcondition : condition row = true
    · obtain ⟨hbefore, hafter⟩ := hinactive row (.head _) hcondition
      simp [hcondition, hbefore, hafter]
    · simp [hcondition]

theorem update_eq_self_iff {condition : SkillRow → Bool} {set : SkillRow → SkillRow}
    {hset : ∀ row, (set row).id = row.id} : skills.update condition set hset = skills ↔
      ∀ row ∈ skills.rows, condition row = true → set row = row := by
  constructor
  · intro hsame row hrow hcondition
    have hfind := KeyedTable.find_update skills condition hset row.id
    rw [hsame, KeyedTable.find_eq_some.mpr ⟨hrow, rfl⟩, Option.map_some, if_pos hcondition] at hfind
    exact (Option.some.inj hfind).symm
  · intro hkeeps
    apply ext_rows
    refine (List.map_congr_left fun row hrow => ?_).trans (List.map_id _)
    split
    next hcondition => exact hkeeps row hrow hcondition
    next => rfl

end Promotion

def unapproved (outbox : Outbox) : Nat := outbox.rows.countP (!·.locallyApproved)

def Touched (base store : MemoryStore) : Prop :=
  store.rules.skills ≠ base.rules.skills ∨ unapproved store.outbox < unapproved base.outbox

/-- No database error stands in front of a mark, and every row that is found is valid. -/
def MarksSucceed (faults : Faults) : Nat → List Text → Outbox → Prop
  | _, [], _ => True
  | index, contentHash :: rest, outbox =>
    faults (.markFor index) = none ∧ match outbox.findSessionMinedRowByContentHash contentHash with
      | none => MarksSucceed faults (index + 1) rest outbox
      | some row => validateRow outbox row = .ok () ∧
          MarksSucceed faults (index + 1) rest (outbox.markSessionMinedLocallyApproved row.id)

section Marks

variable {base store after : MemoryStore} {ruleId contentHash : Text} {faults : Faults}

theorem Touched.not_untouched (htouched : Touched base store) : ¬ Untouched base store := by
  intro huntouched
  rcases htouched with hskills | hless
  · exact hskills huntouched.skills
  · rw [huntouched.outbox] at hless
    exact lt_irrefl _ hless

theorem unapproved_mark_le (outbox : Outbox) (id : Nat) :
    unapproved (outbox.markSessionMinedLocallyApproved id) ≤ unapproved outbox := by
  simp only [unapproved, Outbox.markSessionMinedLocallyApproved, List.countP_map]
  refine List.countP_mono_left fun row _ hrow => ?_
  by_cases hid : row.id = id
  · simp [hid] at hrow
  · simpa [hid] using hrow

theorem unapproved_mark_lt {outbox : Outbox} (hrow : row ∈ outbox.rows)
    (hvisible : row.locallyApproved = false) :
    unapproved (outbox.markSessionMinedLocallyApproved row.id) < unapproved outbox := by
  obtain ⟨earlier, later, hrows⟩ := List.append_of_mem hrow
  have hle : ∀ rows : List SessionMinedRow, (rows.map fun other =>
      if other.id = row.id then { other with locallyApproved := true } else other).countP
        (!·.locallyApproved) ≤ rows.countP (!·.locallyApproved) := fun rows =>
    unapproved_mark_le { outbox with rows } row.id
  have hearlier := hle earlier
  have hlater := hle later
  simp only [unapproved, Outbox.markSessionMinedLocallyApproved, hrows, List.map_append,
    List.map_cons, List.countP_append, List.countP_cons, if_true, hvisible, Bool.not_true,
    Bool.not_false, Bool.false_eq_true, if_false]
  omega

theorem Touched.mark (htouched : Touched base store) (id : Nat) :
    Touched base (markLocallyApproved id ruleId store).2 := by
  refine htouched.imp (fun hskills => hskills) fun hless => ?_
  exact (unapproved_mark_le store.outbox id).trans_lt hless

theorem safeFrom_markAll (htouched : Touched base store) (index : Nat) (hashes : List Text) :
    Call.SafeFrom base (markAll faults ruleId index hashes) store ↔
      MarksSucceed faults index hashes store.outbox := by
  induction hashes generalizing index store with
  | nil => exact iff_of_true Call.safeFrom_done trivial
  | cons contentHash rest ih =>
    rw [markAll, MarksSucceed]
    cases hfault : faults (.markFor index) with
    | some message =>
      have herror : (Call.failing (some message)
          (markCandidateApprovedForRule contentHash ruleId)) store =
            (.error (.infrastructure message), store) := rfl
      rw [Call.safeFrom_andThen_of_error herror]
      simp [htouched.not_untouched]
    | none =>
      rw [Call.failing]
      cases hfind : store.outbox.findSessionMinedRowByContentHash contentHash with
      | none =>
        have hok : markCandidateApprovedForRule contentHash ruleId store = (.ok (), store) := by
          simp only [markCandidateApprovedForRule, hfind]
        rw [Call.safeFrom_andThen_of_ok hok, ih htouched]
        simp
      | some row =>
        cases hvalid : validateRow store.outbox row with
        | error message =>
          have herror : markCandidateApprovedForRule contentHash ruleId store =
              (.error (.validation message), store) := by
            simp only [markCandidateApprovedForRule, hfind, hvalid]
          rw [Call.safeFrom_andThen_of_error herror]
          simp [htouched.not_untouched, hvalid]
        | ok result =>
          have hok : markCandidateApprovedForRule contentHash ruleId store =
              (.ok (), (markLocallyApproved row.id ruleId store).2) := by
            simp only [markCandidateApprovedForRule, hfind, hvalid, markLocallyApproved]
          rw [Call.safeFrom_andThen_of_ok hok, ih (htouched.mark row.id)]
          simp [hvalid, markLocallyApproved]

end Marks

def InSight (store : MemoryStore) (ruleId contentHash : Text) : Prop :=
  (∃ row ∈ store.outbox.rows, Outbox.shows (trim contentHash) row = true) ∨
    ApprovedFor store ruleId contentHash

section Approved

variable {store after : MemoryStore} {ruleId contentHash : Text} {faults : Faults}

theorem mem_mark {outbox : Outbox} (hrow : row ∈ outbox.rows) (id : Nat) :
    (if row.id = id then { row with locallyApproved := true } else row) ∈
      (outbox.markSessionMinedLocallyApproved id).rows :=
  List.mem_map.mpr ⟨row, hrow, rfl⟩

theorem approvedFor_of_mem (hrow : row ∈ store.outbox.rows)
    (hhash : row.candidate?.any (·.contentHash = trim contentHash) = true) :
    ApprovedFor (markLocallyApproved row.id ruleId store).2 ruleId contentHash := by
  refine ⟨_, mem_mark hrow row.id, ?_⟩
  rw [if_pos rfl]
  exact ⟨hhash, rfl, Function.update_self ..⟩

theorem ApprovedFor.mark (happroved : ApprovedFor store ruleId contentHash) (id : Nat) :
    ApprovedFor (markLocallyApproved id ruleId store).2 ruleId contentHash := by
  obtain ⟨row, hrow, hhash, hlocal, hrule⟩ := happroved
  by_cases hid : row.id = id
  · exact hid ▸ approvedFor_of_mem hrow hhash
  · have hmem := mem_mark hrow id
    rw [if_neg hid] at hmem
    exact ⟨row, hmem, hhash, hlocal, (Function.update_of_ne hid ..).trans hrule⟩

theorem InSight.mark (hsight : InSight store ruleId contentHash) (id : Nat) :
    InSight (markLocallyApproved id ruleId store).2 ruleId contentHash := by
  rcases hsight with ⟨row, hrow, hshows⟩ | happroved
  · by_cases hid : row.id = id
    · rw [Outbox.shows, Bool.and_eq_true] at hshows
      exact .inr (hid ▸ approvedFor_of_mem hrow hshows.2)
    · have hmem := mem_mark hrow id
      rw [if_neg hid] at hmem
      exact .inl ⟨row, hmem, hshows⟩
  · exact .inr (happroved.mark id)

theorem mark_of_ok (hok : markCandidateApprovedForRule contentHash ruleId store = (.ok (), after)) :
    (store.outbox.findSessionMinedRowByContentHash contentHash = none ∧ after = store) ∨
      ∃ row, store.outbox.findSessionMinedRowByContentHash contentHash = some row ∧
        after = (markLocallyApproved row.id ruleId store).2 := by
  unfold markCandidateApprovedForRule at hok
  split at hok
  next hfind => exact .inl ⟨hfind, (Prod.mk.inj hok).2.symm⟩
  next row hfind =>
    split at hok
    next => cases hok
    next => exact .inr ⟨row, hfind, (congrArg Prod.snd hok).symm⟩

theorem approved_of_ok (hblank : trim contentHash ≠ []) (hsight : InSight store ruleId contentHash)
    (hok : markCandidateApprovedForRule contentHash ruleId store = (.ok (), after)) :
    ApprovedFor after ruleId contentHash := by
  rcases mark_of_ok hok with ⟨hfind, rfl⟩ | ⟨row, hfind, rfl⟩
  · rcases hsight with ⟨row, hrow, hshows⟩ | happroved
    · rw [findSessionMinedRow_eq_none hfind hblank row hrow] at hshows
      cases hshows
    · exact happroved
  · obtain ⟨-, hrow, hshows⟩ := findSessionMinedRow_eq_some hfind
    rw [Outbox.shows, Bool.and_eq_true] at hshows
    exact approvedFor_of_mem hrow hshows.2

theorem approved_of_markAll {index : Nat}
    (hok : markAll faults ruleId index hashes store = (.ok (), after))
    (hblank : trim contentHash ≠ []) (hsight : InSight store ruleId contentHash) :
    (ApprovedFor store ruleId contentHash ∨ contentHash ∈ hashes) →
      ApprovedFor after ruleId contentHash := by
  induction hashes generalizing index store with
  | nil =>
    intro hcase
    obtain rfl : store = after := (Prod.mk.inj hok).2
    exact hcase.resolve_right List.not_mem_nil
  | cons first rest ih =>
    rw [markAll, Call.ok_andThen] at hok
    obtain ⟨_, mid, hmark, hrest⟩ := hok
    obtain ⟨-, hmark⟩ := Call.ok_failing.mp hmark
    have hkept : InSight mid ruleId contentHash ∧
        (ApprovedFor store ruleId contentHash → ApprovedFor mid ruleId contentHash) := by
      rcases mark_of_ok hmark with ⟨-, rfl⟩ | ⟨row, -, rfl⟩
      · exact ⟨hsight, fun happroved => happroved⟩
      · exact ⟨hsight.mark row.id, fun happroved => happroved.mark row.id⟩
    intro hcase
    refine ih hrest hkept.1 ?_
    rcases hcase with happroved | hmem
    · exact .inl (hkept.2 happroved)
    · rcases List.mem_cons.mp hmem with rfl | hmem
      · exact .inl (approved_of_ok hblank hsight hmark)
      · exact .inr hmem

end Approved

/-! ## The approval of a memory -/

def Settled (id : Text) (skills : SkillTable) : Prop :=
  ∃ row, skills.find id = some row ∧ (row.status = .active ∨ row.status = .pending ∧
    ∃ active, activeDuplicate row skills = some active ∧
      alreadyActiveText <:+: duplicateDraftError id active.id)

def PromotionRefused (faults : Faults) (id : Text) (skills : SkillTable) : Prop :=
  faults .promote ≠ none ∨ ¬ Promotable id skills ∧ ¬ (Settled id skills ∧ faults .reload = none)

section Approval

variable {faults : Faults} {id : Text} {store after : MemoryStore}

theorem alreadyActiveText_infix (id : Text) : alreadyActiveText <:+: alreadyActiveError id := by
  have htext : alreadyActiveText <:+: "' is already active; nothing to promote. " := by
    decide
  refine htext.trans ?_
  unfold alreadyActiveError
  exact (List.infix_append' id _ _).trans (List.suffix_append ..).isInfix

theorem promoteOrLoad_of_promotable (hfault : faults .promote = none)
    (hpromotable : Promotable id store.rules.skills) :
    ∃ row, row.id = id ∧ promoteOrLoad faults id store = (.ok row,
      store.withSkills (promoteCandidate id store.rules.skills)) := by
  obtain ⟨row, hid, hok⟩ := promoteRule_of_promotable hpromotable
  refine ⟨row, hid, ?_⟩
  simp only [promoteOrLoad, hfault, Call.failing, hok]

theorem settled_iff {message : Text} (hmessage : promoteDraft id store.rules = .error message) :
    Settled id store.rules.skills ↔ ((store.rules.skills.find id).any fun row =>
        row.status = .pending || row.status = .active) = true ∧ alreadyActiveText <:+: message := by
  unfold promoteDraft at hmessage
  unfold Settled
  split at hmessage
  next hfind => simp [hfind]
  next row hfind =>
    split at hmessage
    next hpending =>
      split at hmessage
      next active hactive =>
        obtain rfl := Except.error.inj hmessage
        simp [hfind, hpending, hactive]
      next => cases hmessage
    next hpending =>
      split at hmessage
      next hactive =>
        obtain rfl := Except.error.inj hmessage
        simp [hfind, hactive, alreadyActiveText_infix]
      next hactive => simp [hfind, hpending, hactive]

theorem promoteOrLoad_of_not_promotable (hfault : faults .promote = none)
    (hnot : ¬ Promotable id store.rules.skills) :
    (∃ error, promoteOrLoad faults id store = (.error error, store)) ∧
        ¬ (Settled id store.rules.skills ∧ faults .reload = none) ∨
      (∃ row, row.id = id ∧ promoteOrLoad faults id store = (.ok row, store)) ∧
        Settled id store.rules.skills ∧ faults .reload = none := by
  obtain ⟨message, hmessage, herror⟩ := promoteRule_of_not_promotable hnot
  rw [settled_iff hmessage]
  simp only [promoteOrLoad, hfault, Call.failing, herror, promotionError]
  by_cases hrow : ((store.rules.skills.find id).any fun row =>
      row.status = .pending || row.status = .active) = true
  · simp only [hrow, if_true, true_and]
    by_cases htext : alreadyActiveText <:+: message
    · cases hreload : faults .reload with
      | some fault => simp [htext, Call.fail]
      | none =>
        obtain ⟨row, hfind, -⟩ := Option.any_eq_true _ _ |>.mp hrow
        refine .inr ⟨⟨row, (KeyedTable.find_eq_some.mp hfind).2, ?_⟩, htext, rfl⟩
        simp [htext, loadSkillRecord, fetchSkillRowById, hfind]
    · simp [htext]
  · simp [hrow]

theorem promoteOrLoad_of_refused (hrefused : PromotionRefused faults id store.rules.skills) :
    ∃ error, promoteOrLoad faults id store = (.error error, store) := by
  cases hfault : faults .promote with
  | some message => exact ⟨.infrastructure message, by simp only [promoteOrLoad, hfault]; rfl⟩
  | none =>
    obtain ⟨hnot, hunsettled⟩ := hrefused.resolve_left (not_not.mpr hfault)
    rcases promoteOrLoad_of_not_promotable hfault hnot with ⟨herror, -⟩ | ⟨-, hsettled⟩
    · exact herror
    · exact absurd hsettled hunsettled

theorem promoteOrLoad_of_not_refused (hrefused : ¬ PromotionRefused faults id store.rules.skills) :
    ∃ row, row.id = id ∧ promoteOrLoad faults id store = (.ok row,
      store.withSkills (promoteCandidate id store.rules.skills)) := by
  have hfault : faults .promote = none := by
    by_contra hsome
    exact hrefused (.inl hsome)
  by_cases hpromotable : Promotable id store.rules.skills
  · exact promoteOrLoad_of_promotable hfault hpromotable
  · rw [promoteCandidate_of_not_promotable hpromotable]
    rcases promoteOrLoad_of_not_promotable hfault hpromotable with ⟨-, hunsettled⟩ | ⟨hok, -⟩
    · exact absurd (.inr ⟨hpromotable, hunsettled⟩) hrefused
    · exact hok

end Approval

def DraftRefused (faults : Faults) (id : Text) (skills : SkillTable) : Prop :=
  faults .promote ≠ none ∨ ¬ Promotable id skills

/-- The pending draft of the id, if there is one, is as the refined rule would rewrite it. -/
def Refined (library : Library) (now : Stamp) (primary : PlanCandidate) (id : Text)
    (skills : SkillTable) : Prop :=
  ∀ description, primary.rawDescription = some description → ∀ row ∈ skills.rows,
    row.id = id → row.status = .pending → row.name = primary.title ∧
      row.description = rewriteDraftDescription description primary.body ∧
      row.filePatterns = filePatternsJson library primary.filePatterns ∧ row.updatedAt = now

/-- A draft that cannot be promoted is refined already; after a promotion every mark succeeds. -/
def DraftWhole (faults : Faults) (library : Library) (now : Stamp) (primary : PlanCandidate)
    (id : Text) (hashes : List Text) (store : MemoryStore) : Prop :=
  faults .refine = none →
    (DraftRefused faults id store.rules.skills →
      Refined library now primary id store.rules.skills) ∧
      (¬ DraftRefused faults id store.rules.skills → MarksSucceed faults 0 hashes store.outbox)

/-- The draft that a lesson is remembered in: the row that it meets, or else a new one. -/
inductive LessonDraft (library : RememberLibrary) (clock : CallClock) (lesson : Lesson)
    (slug : Text) (skills : SkillTable) (draft : SkillRow) : Prop
  | met (hmeets : Meets library clock (sessionCandidateInput lesson) .pending none skills draft)
  | fresh
      (hdraft : draft = (lessonRule library clock lesson slug).newRow library.toLibrary clock.now)
      (hnew : ∀ row, ¬ Meets library clock (sessionCandidateInput lesson) .pending none skills row)
      (hunused : draft.id ∉ skills.keys)

/-- The draft is stored as it is remembered: at the ceiling, with the time of the call. -/
def Remembered (now : Stamp) (skills : SkillTable) (draft : SkillRow) : Prop :=
  draft ∈ skills.rows ∧ draft.confidence = conversationConfidenceCap ∧ draft.updatedAt = now

/-- The draft has a repository that the approval leaves, or that of the memory. -/
def Attached (sourceRepo : Text) (draft : SkillRow) : Prop :=
  ∃ repo, draft.sourceRepo = some repo ∧ (trimSpaces repo = [] → repo = sourceRepo)

/-- The approval stops at the promotion: an active rule has the content, and the refusal does not
read as if the draft were active. -/
def ApprovalRefused (faults : Faults) (draft : SkillRow) (skills : SkillTable) : Prop :=
  faults .promote ≠ none ∨ ∃ active, activeDuplicate draft skills = some active ∧
    ¬ (alreadyActiveText <:+: duplicateDraftError draft.id active.id ∧ faults .reload = none)

/-- What the approval wrote in front of a failure was there already; after the first mark every
mark succeeds. -/
def ApprovalWhole (faults : Faults) (now : Stamp) (draft : SkillRow) (sourceRepo : Text)
    (skills : SkillTable) (hashes : List Text) (marked : Outbox) : Prop :=
  if faults .recordEvent = none ∧ faults .fetch = none ∧ faults .attach = none then
    (ApprovalRefused faults draft skills →
      Remembered now skills draft ∧ Attached sourceRepo draft) ∧
    (¬ ApprovalRefused faults draft skills →
      if faults .mark = none then MarksSucceed faults 0 hashes marked
      else activeDuplicate draft skills ≠ none ∧ Remembered now skills draft ∧
        Attached sourceRepo draft)
  else Remembered now skills draft

def SessionWhole (faults : Faults) (library : RememberLibrary) (clock : CallClock)
    (contentHash : Text) (hashes : List Text) (store : MemoryStore) : Prop :=
  faults .find = none → faults .remember = none → ∀ row,
    store.outbox.findSessionMinedRowByContentHash contentHash = some row →
    validateRow store.outbox row = .ok () →
    validateRememberInput (sessionCandidateInput (store.outbox.lessons row.id)) = .ok () →
    ∀ slug, safeSlug (trim (store.outbox.lessons row.id).title) = some slug →
    ∀ draft, LessonDraft library clock (store.outbox.lessons row.id) slug store.rules.skills draft →
      ApprovalWhole faults clock.now draft (store.outbox.lessons row.id).sourceRepo
        store.rules.skills hashes (store.outbox.markSessionMinedLocallyApproved row.id)

def Undivided (faults : Faults) (library : RememberLibrary) (clock : CallClock)
    (candidates : List PlanCandidate) (store : MemoryStore) : Prop :=
  ∀ primary, primaryCandidate candidates = some primary → match primary.kind with
    | .draft id =>
      DraftWhole faults library.toLibrary clock.now primary id (sessionHashes candidates) store
    | .session contentHash =>
      SessionWhole faults library clock contentHash (sessionHashes candidates) store

/-! ## Remembering -/

structure Remembers (now : Stamp) (draft : SkillRow) (before after : SkillTable) : Prop where
  pending : draft.status = .pending
  stored : ∀ row, before.find draft.id = some row → row = draft
  active : after.rows.filter (·.status = .active) = before.rows.filter (·.status = .active)
  found : ∃ row, after.find draft.id = some row ∧ row.status = .pending ∧
    row.contentHash = draft.contentHash ∧ row.sourceRepo = draft.sourceRepo
  kept : after = before ↔ Remembered now before draft

section Remembering

variable {library : RememberLibrary} {clock : CallClock} {now : Stamp} {draft : SkillRow}
  {skills after : SkillTable} {faults : Faults} {sourceRepo : Text}

theorem remembers_met (hdraft : draft ∈ skills.rows) (hpending : draft.status = .pending) :
    Remembers now draft skills (strengthenRule draft.id now skills) where
  pending := hpending
  stored row hrow := by
    rw [KeyedTable.find_eq_some.mpr ⟨hdraft, rfl⟩] at hrow
    exact (Option.some.inj hrow).symm
  active := by
    refine filter_active_update fun row hrow hid => ?_
    obtain rfl := KeyedTable.eq_of_key hrow hdraft (of_decide_eq_true hid)
    simp [hpending]
  found := ⟨SkillRow.strengthened draft now, find_strengthenRule hdraft now, hpending, rfl, rfl⟩
  kept := by
    rw [strengthenRule, update_eq_self_iff, Remembered, and_iff_right hdraft]
    constructor
    · intro hkeeps
      have hsame := hkeeps draft hdraft (decide_eq_true rfl)
      have hconfidence := congrArg SkillRow.confidence hsame
      refine ⟨?_, (congrArg SkillRow.updatedAt hsame).symm⟩
      rcases min_choice (draft.confidence + 1 / 20) conversationConfidenceCap with hleft | hright
      · have hraised := hleft.symm.trans hconfidence
        norm_num at hraised
      · exact hconfidence.symm.trans hright
    · rintro ⟨hconfidence, hupdated⟩ row hrow hid
      obtain rfl := KeyedTable.eq_of_key hrow hdraft (of_decide_eq_true hid)
      rw [hconfidence, ← hupdated, min_eq_right (by norm_num [conversationConfidenceCap]),
        ← hconfidence]

theorem remembers_fresh {rule : RememberedRule} (hpending : rule.status = .pending)
    (hunused : rule.id ∉ skills.keys) :
    Remembers now (rule.newRow library.toLibrary now) skills
      (rememberRule library.toLibrary rule now skills) where
  pending := hpending
  stored row hrow := by
    have hnone : skills.find rule.id = none := KeyedTable.find_eq_none.mpr hunused
    cases hnone.symm.trans hrow
  active := by
    rw [rows_rememberRule hunused, List.filter_append]
    simp [RememberedRule.newRow, hpending]
  found := ⟨_, find_rememberRule hunused, hpending, rfl, rfl⟩
  kept := by
    refine iff_of_false (fun hsame => ?_) fun hremembered => ?_
    · have hrows := congrArg (List.length ∘ KeyedTable.rows) hsame
      simp [rows_rememberRule hunused] at hrows
    · exact hunused (KeyedTable.mem_keys.mpr ⟨_, hremembered.1, rfl⟩)

theorem attached_iff {row : SkillRow} : Attached sourceRepo row ↔
    (row.sourceRepo.all (fun repo => trimSpaces repo = [] || repo = sourceRepo) = true →
      some sourceRepo = row.sourceRepo) := by
  unfold Attached
  cases row.sourceRepo with
  | none => simp
  | some repo =>
    simp only [Option.some.injEq, exists_eq_left', Option.all_some, Bool.or_eq_true,
      decide_eq_true_eq]
    exact ⟨fun hkeeps hcase => (hcase.elim hkeeps id).symm,
      fun hkeeps hblank => (hkeeps (.inl hblank)).symm⟩

theorem attachedSkills_eq_self_iff {id : Text} : attachedSkills id sourceRepo skills = skills ↔
    ∀ row, skills.find id = some row → Attached sourceRepo row := by
  simp only [attachedSkills, update_eq_self_iff, Bool.and_eq_true, decide_eq_true_eq, and_imp,
    KeyedTable.find_eq_some, attached_iff]
  refine forall_congr' fun row => forall₃_congr fun _ _ _ => ⟨fun hsame => ?_, fun hsame => ?_⟩
  · exact congrArg SkillRow.sourceRepo hsame
  · rw [hsame]

theorem find_attachedSkills {id : Text} {row : SkillRow} (hrow : skills.find id = some row)
    (sourceRepo : Text) :
    ∃ attached, (attachedSkills id sourceRepo skills).find id = some attached ∧
      attached.status = row.status ∧ attached.contentHash = row.contentHash ∧
        (attached.sourceRepo = row.sourceRepo → Attached sourceRepo row) := by
  rw [attachedSkills, KeyedTable.find_update, hrow, Option.map_some, attached_iff]
  split
  next => exact ⟨_, rfl, rfl, rfl, fun hsame _ => hsame⟩
  next hnot =>
    refine ⟨_, rfl, rfl, rfl, fun _ hall => absurd ?_ hnot⟩
    simp only [(KeyedTable.find_eq_some.mp hrow).2, decide_true, Bool.true_and]
    exact hall

section

variable (hremembers : Remembers now draft skills after)
include hremembers

theorem Remembers.attached_eq_iff :
    attachedSkills draft.id sourceRepo after = skills ↔
      Remembered now skills draft ∧ Attached sourceRepo draft := by
  obtain ⟨row, hrow, -, -, hrepo⟩ := hremembers.found
  have hattached : Attached sourceRepo row ↔ Attached sourceRepo draft := by
    rw [attached_iff, attached_iff, hrepo]
  constructor
  · intro hsame
    obtain ⟨attached, hfind, -, -, hkeeps⟩ := find_attachedSkills hrow sourceRepo
    rw [hsame] at hfind
    obtain rfl := hremembers.stored attached hfind
    have hself := hkeeps hrepo.symm
    have hafter : attachedSkills attached.id sourceRepo after = after := by
      refine attachedSkills_eq_self_iff.mpr fun other hother => ?_
      obtain rfl := Option.some.inj (hrow.symm.trans hother)
      exact hself
    exact ⟨hremembers.kept.mp (hafter.symm.trans hsame), hattached.mp hself⟩
  · rintro ⟨hremembered, hself⟩
    rw [hremembers.kept.mpr hremembered]
    refine attachedSkills_eq_self_iff.mpr fun other hother => ?_
    rw [hremembers.stored other hother]
    exact hself

theorem Remembers.active_attached :
    (attachedSkills draft.id sourceRepo after).rows.filter (·.status = .active) =
      skills.rows.filter (·.status = .active) := by
  obtain ⟨row, hrow, hpending, -⟩ := hremembers.found
  refine (filter_active_update fun other hother hcondition => ?_).trans hremembers.active
  have hid : other.id = draft.id := of_decide_eq_true (Bool.and_eq_true_iff.mp hcondition).1
  have hfind : after.find draft.id = some other := KeyedTable.find_eq_some.mpr ⟨hother, hid⟩
  obtain rfl := Option.some.inj (hrow.symm.trans hfind)
  simp [hpending]

theorem Remembers.attached_found (sourceRepo : Text) :
    ∃ row, (attachedSkills draft.id sourceRepo after).find draft.id = some row ∧
      row.status = .pending ∧
      activeDuplicate row (attachedSkills draft.id sourceRepo after) =
        activeDuplicate draft skills := by
  obtain ⟨row, hrow, hpending, hhash, -⟩ := hremembers.found
  obtain ⟨attached, hfind, hstatus, hsame, -⟩ := find_attachedSkills hrow sourceRepo
  exact ⟨attached, hfind, hstatus.trans hpending,
    activeDuplicate_congr hremembers.active_attached (hsame.trans hhash)⟩

theorem Remembers.promotable_iff :
    Promotable draft.id (attachedSkills draft.id sourceRepo after) ↔
      activeDuplicate draft skills = none := by
  obtain ⟨row, hrow, hpending, hdup⟩ := hremembers.attached_found sourceRepo
  rw [← hdup, Promotable, hrow]
  simp [hpending]

theorem Remembers.promotionRefused_iff (faults : Faults) (sourceRepo : Text) :
    PromotionRefused faults draft.id (attachedSkills draft.id sourceRepo after) ↔
      ApprovalRefused faults draft skills := by
  obtain ⟨row, hrow, hpending, hdup⟩ := hremembers.attached_found sourceRepo
  rw [PromotionRefused, ApprovalRefused, hremembers.promotable_iff, Settled, hrow, ← hdup]
  simp only [Option.some.injEq, ← exists_and_left, exists_eq_left', hpending, reduceCtorEq,
    false_or, true_and]
  cases activeDuplicate row (attachedSkills draft.id sourceRepo after) <;> simp

theorem Remembers.promoted_eq_iff :
    promoteCandidate draft.id (attachedSkills draft.id sourceRepo after) = skills ↔
      activeDuplicate draft skills ≠ none ∧ Remembered now skills draft ∧
        Attached sourceRepo draft := by
  by_cases hpromotable : Promotable draft.id (attachedSkills draft.id sourceRepo after)
  · refine iff_of_false (promoteCandidate_ne hpromotable fun row hrow => ?_) ?_
    · exact hremembers.stored row hrow ▸ hremembers.pending
    · exact fun hkept => hkept.1 (hremembers.promotable_iff.mp hpromotable)
  · rw [promoteCandidate_of_not_promotable hpromotable, hremembers.attached_eq_iff,
      and_iff_right (mt hremembers.promotable_iff.mpr hpromotable)]

end

end Remembering

section Whole

variable {faults : Faults} {library : RememberLibrary} {clock : CallClock}
  {candidates : List PlanCandidate} {store after : MemoryStore}

theorem promotable_refinedSkills (library : Library) (now : Stamp) (primary : PlanCandidate)
    (id : Text) (skills : SkillTable) :
    Promotable id (refinedSkills library now primary id skills) ↔ Promotable id skills := by
  unfold refinedSkills
  split
  · rfl
  · exact promotable_update (fun _ => rfl) fun _ => rfl

theorem refinedSkills_eq_self_iff (library : Library) (now : Stamp) (primary : PlanCandidate)
    (id : Text) (skills : SkillTable) :
    refinedSkills library now primary id skills = skills ↔
      Refined library now primary id skills := by
  unfold refinedSkills Refined
  cases primary.rawDescription with
  | none => simp
  | some description =>
    simp only [refinePendingDraft, update_eq_self_iff, Bool.and_eq_true, decide_eq_true_eq,
      and_imp, Option.some.injEq, forall_eq']
    refine forall₄_congr fun row _ _ _ => ⟨fun hsame => ?_, ?_⟩
    · exact ⟨(congrArg SkillRow.name hsame).symm, (congrArg SkillRow.description hsame).symm,
        (congrArg SkillRow.filePatterns hsame).symm, (congrArg SkillRow.updatedAt hsame).symm⟩
    · rintro ⟨hname, hdescription, hpatterns, hupdated⟩
      rw [← hname, ← hdescription, ← hpatterns, ← hupdated]

theorem untouched_rules {rules : RuleStore} :
    Untouched store { store with rules } ↔ rules.skills = store.rules.skills :=
  ⟨fun huntouched => huntouched.skills, fun hskills => ⟨hskills, rfl, rfl⟩⟩

theorem safeFrom_draft (primary : PlanCandidate) (id : Text) (hashes : List Text) :
    Call.SafeFrom store
      (((updatePendingDraftWithRefinedRule library.toLibrary clock.now primary id).failing
        (faults .refine)).andThen fun _ =>
          ((promoteRule id).failing (faults .promote)).andThen fun rule =>
            (markAll faults rule.id 0 hashes).andThen fun _ => Call.done rule) store ↔
      DraftWhole faults library.toLibrary clock.now primary id hashes store := by
  have hrefine : updatePendingDraftWithRefinedRule library.toLibrary clock.now primary id store =
      (.ok (), store.withSkills
        (refinedSkills library.toLibrary clock.now primary id store.rules.skills)) := rfl
  rw [Call.safeFrom_statement hrefine, and_iff_right fun _ => Untouched.refl store, DraftWhole]
  refine forall_congr' fun _ => ?_
  have hpromotable := promotable_refinedSkills library.toLibrary clock.now primary id
    store.rules.skills
  have hsame := refinedSkills_eq_self_iff library.toLibrary clock.now primary id
    store.rules.skills
  generalize refinedSkills library.toLibrary clock.now primary id store.rules.skills = refined at *
  by_cases hrefused : DraftRefused faults id store.rules.skills
  · have herror : ∃ error, (promoteRule id).failing (faults .promote) (store.withSkills refined) =
        (.error error, store.withSkills refined) := by
      cases hfault : faults .promote with
      | some message => exact ⟨_, rfl⟩
      | none =>
        have hnot : ¬ Promotable id (store.withSkills refined).rules.skills := fun hdraft =>
          hrefused.resolve_left (not_not.mpr hfault) (hpromotable.mp hdraft)
        obtain ⟨message, -, herror⟩ := promoteRule_of_not_promotable hnot
        exact ⟨_, herror⟩
    obtain ⟨error, herror⟩ := herror
    rw [Call.safeFrom_andThen_of_error herror, MemoryStore.withSkills, untouched_rules, hsame]
    simp [hrefused]
  · obtain ⟨hfault, hdraft⟩ := not_or.mp hrefused
    rw [not_not] at hfault hdraft
    have htouched : Touched store (store.withSkills (promoteCandidate id refined)) :=
      .inl (promoteCandidate_ne (hpromotable.mpr hdraft) fun old hold => by
        obtain ⟨row, hrow, hpending, -⟩ := hdraft
        exact Option.some.inj (hrow.symm.trans hold) ▸ hpending)
    obtain ⟨row, hid, hok⟩ : ∃ row, row.id = id ∧ (promoteRule id).failing (faults .promote)
        (store.withSkills refined) = (.ok row, store.withSkills (promoteCandidate id refined)) := by
      rw [hfault]
      exact promoteRule_of_promotable (hpromotable.mpr hdraft)
    rw [Call.safeFrom_andThen_of_ok hok, Call.safeFrom_andThen_done, safeFrom_markAll htouched]
    simp [hrefused, MemoryStore.withSkills]

theorem findCandidate_keeps {contentHash : Text}
    (herror : findCandidate contentHash store = (.error error, after)) : after = store := by
  unfold findCandidate at herror
  split at herror
  next => exact (Prod.mk.inj herror).2.symm
  next =>
    split at herror
    next => exact (Prod.mk.inj herror).2.symm
    next => cases herror

theorem findCandidate_eq_ok {contentHash : Text} {found : SessionMinedRow × Lesson} :
    findCandidate contentHash store = (.ok found, mid) ↔ ∃ row,
      store.outbox.findSessionMinedRowByContentHash contentHash = some row ∧
        validateRow store.outbox row = .ok () ∧ (row, store.outbox.lessons row.id) = found ∧
        store = mid := by
  unfold findCandidate
  cases hfind : store.outbox.findSessionMinedRowByContentHash contentHash with
  | none => simp
  | some row => cases hvalid : validateRow store.outbox row <;> simp [hvalid]

def approveRemembered (faults : Faults) (row : SessionMinedRow) (sourceRepo : Text)
    (hashes : List Text) (skill : SkillRow) : Call SkillRow :=
  ((attachSessionCandidateRepoScope skill.id sourceRepo).failing (faults .attach)).andThen fun _ =>
    (promoteOrLoad faults skill.id).andThen fun rule =>
    ((markLocallyApproved row.id rule.id).failing (faults .mark)).andThen fun _ =>
    (markAll faults rule.id 0 hashes).andThen fun _ => Call.done rule

theorem safeFrom_approval {rules : RuleStore} {draft : SkillRow} {sourceRepo : Text}
    (hremembers : Remembers clock.now draft store.rules.skills rules.skills)
    {skill : SkillRow} (hid : skill.id = draft.id)
    (hrow : row ∈ store.outbox.rows) (hvisible : row.locallyApproved = false) :
    Call.SafeFrom store (approveRemembered faults row sourceRepo hashes skill)
      { store with rules } ↔
      if faults .attach = none then
        (ApprovalRefused faults draft store.rules.skills →
          Remembered clock.now store.rules.skills draft ∧ Attached sourceRepo draft) ∧
        (¬ ApprovalRefused faults draft store.rules.skills → if faults .mark = none then
            MarksSucceed faults 0 hashes (store.outbox.markSessionMinedLocallyApproved row.id)
          else activeDuplicate draft store.rules.skills ≠ none ∧
            Remembered clock.now store.rules.skills draft ∧ Attached sourceRepo draft)
      else Remembered clock.now store.rules.skills draft := by
  have hattach : attachSessionCandidateRepoScope draft.id sourceRepo { store with rules } =
      (.ok (), { store with rules :=
        { rules with skills := attachedSkills draft.id sourceRepo rules.skills } }) := rfl
  rw [approveRemembered, hid, Call.safeFrom_statement hattach, untouched_rules, hremembers.kept,
    ← hremembers.promoted_eq_iff, ← hremembers.attached_eq_iff,
    ← hremembers.promotionRefused_iff faults sourceRepo]
  cases hfault : faults .attach with
  | some message => simp
  | none =>
    simp only [ne_eq, not_true, false_imp_iff, true_and, forall_const, if_true]
    generalize attachedSkills draft.id sourceRepo rules.skills = attached
    by_cases hrefused : PromotionRefused faults draft.id attached
    · obtain ⟨error, herror⟩ : ∃ error,
          promoteOrLoad faults draft.id { store with rules := { rules with skills := attached } } =
            (.error error, { store with rules := { rules with skills := attached } }) :=
        promoteOrLoad_of_refused hrefused
      rw [Call.safeFrom_andThen_of_error herror, untouched_rules]
      simp [hrefused]
    · obtain ⟨rule, hid, hok⟩ : ∃ rule, rule.id = draft.id ∧
          promoteOrLoad faults draft.id { store with rules := { rules with skills := attached } } =
            (.ok rule, { store with rules :=
              { rules with skills := promoteCandidate draft.id attached } }) :=
        promoteOrLoad_of_not_refused hrefused
      generalize hpromoted : promoteCandidate draft.id attached = promoted at hok ⊢
      have hmark : markLocallyApproved row.id rule.id
          { store with rules := { rules with skills := promoted } } =
          (.ok (), (markLocallyApproved row.id rule.id
            { store with rules := { rules with skills := promoted } }).2) := rfl
      have htouched : Touched store (markLocallyApproved row.id rule.id
          { store with rules := { rules with skills := promoted } }).2 :=
        .inr (unapproved_mark_lt hrow hvisible)
      rw [Call.safeFrom_andThen_of_ok hok, Call.safeFrom_statement hmark, untouched_rules,
        Call.safeFrom_andThen_done, safeFrom_markAll htouched]
      cases hlast : faults .mark with
      | none => simp [hrefused, markLocallyApproved]
      | some message => simp [hrefused]

theorem plainCall_session (lesson : Lesson) :
    PlainCall (sessionCandidateInput lesson) .pending := by
  have horigin : originName ≠ prReviewOrigin := by decide
  exact fun hreview => horigin hreview.1

section Lesson

variable {slug : Text} {draft : SkillRow}

theorem lessonDraft_iff_of_some (hslug : safeSlug (trim lesson.title) = some slug) {reason : Text}
    {windowHit : Bool} {skills : SkillTable} {found : SkillRow}
    (hfind : findExisting library clock (sessionCandidateInput lesson) .pending none slug originName
      (rememberSignatureHash library (sessionCandidateInput lesson)) skills =
        some (.strengthen found reason windowHit)) :
    LessonDraft library clock lesson slug skills draft ↔ draft = found := by
  have hmeets : ∀ row,
      Meets library clock (sessionCandidateInput lesson) .pending none skills row ↔ _ :=
    fun row => meets_iff (plainCall_session lesson) hslug
  constructor
  · rintro (hmet | ⟨-, hnew, -⟩)
    · obtain ⟨_, _, hother⟩ := (hmeets draft).mp hmet
      exact (Rung.strengthen.inj (Option.some.inj (hother.symm.trans hfind))).1
    · exact absurd ((hmeets found).mpr ⟨_, _, hfind⟩) (hnew found)
  · rintro rfl
    exact .met ((hmeets draft).mpr ⟨_, _, hfind⟩)

theorem lessonDraft_iff_of_none (hslug : safeSlug (trim lesson.title) = some slug)
    {skills : SkillTable}
    (hfind : findExisting library clock (sessionCandidateInput lesson) .pending none slug originName
      (rememberSignatureHash library (sessionCandidateInput lesson)) skills = none) :
    LessonDraft library clock lesson slug skills draft ↔
      draft = (lessonRule library clock lesson slug).newRow library.toLibrary clock.now ∧
        draft.id ∉ skills.keys := by
  have hnew : ∀ row,
      ¬ Meets library clock (sessionCandidateInput lesson) .pending none skills row := by
    intro row hmet
    obtain ⟨_, _, hother⟩ := (meets_iff (plainCall_session lesson) hslug).mp hmet
    cases hfind.symm.trans hother
  constructor
  · rintro (hmet | ⟨hdraft, -, hunused⟩)
    · exact absurd hmet (hnew draft)
    · exact ⟨hdraft, hunused⟩
  · rintro ⟨hdraft, hunused⟩
    exact .fresh hdraft hnew hunused

theorem safeFrom_written {rules : RuleStore} {outcome : RememberOutcome}
    (hcall : rememberAsCandidateWithConfidence library clock (sessionCandidateInput lesson)
      sessionMinedApprovedConfidence store.rules = .ok (rules, outcome))
    (hwritten : outcome.matchedExistingActive = false) (hid : outcome.skill.id = draft.id)
    (hremembers : Remembers clock.now draft store.rules.skills rules.skills)
    (hrow : row ∈ store.outbox.rows) (hvisible : row.locallyApproved = false) (sourceRepo : Text) :
    Call.SafeFrom store
      ((rememberLesson faults library clock lesson).andThen
        (approveRemembered faults row sourceRepo hashes)) store ↔
      (faults .remember = none → ApprovalWhole faults clock.now draft sourceRepo
        store.rules.skills hashes (store.outbox.markSessionMinedLocallyApproved row.id)) := by
  rcases rememberFailing_of_written faults.ofRemember hcall hwritten with
    ⟨hwrite, err, hresult⟩ | ⟨hwrite, hlater, err, torn, hresult, htorn⟩ | ⟨hnone, hresult⟩
  · have herror : rememberLesson faults library clock lesson store =
        (.error (lessonError (sessionCandidateInput lesson) err), store) := by
      simp only [rememberLesson, hresult]
    rw [Call.safeFrom_andThen_of_error herror]
    exact iff_of_true (.refl store) fun hnone => absurd hnone hwrite
  · have herror : rememberLesson faults library clock lesson store =
        (.error (lessonError (sessionCandidateInput lesson) err),
          { store with rules := torn }) := by
      simp only [rememberLesson, hresult]
    have hreads : ¬ (faults .recordEvent = none ∧ faults .fetch = none ∧ faults .attach = none) :=
      fun hnone => hlater ⟨hnone.1, hnone.2.1⟩
    rw [Call.safeFrom_andThen_of_error herror, untouched_rules, htorn, hremembers.kept,
      ApprovalWhole, if_neg hreads]
    exact ⟨fun hsame _ => hsame, fun hsame => hsame hwrite⟩
  · have hok : rememberLesson faults library clock lesson store =
        (.ok outcome.skill, { store with rules }) := by
      simp only [rememberLesson, hresult]
    obtain ⟨hwrite, hevent, hfetch⟩ : faults .remember = none ∧ faults .recordEvent = none ∧
      faults .fetch = none := hnone
    rw [Call.safeFrom_andThen_of_ok hok, safeFrom_approval hremembers hid hrow hvisible,
      ApprovalWhole]
    simp only [hwrite, hevent, hfetch, true_and, forall_const]

theorem safeFrom_of_refused {err : Text} {α : Type} {next : SkillRow → Call α}
    (hcall : rememberAsCandidateWithConfidence library clock (sessionCandidateInput lesson)
      sessionMinedApprovedConfidence store.rules = .error err) :
    Call.SafeFrom store ((rememberLesson faults library clock lesson).andThen next) store := by
  have herror : rememberLesson faults library clock lesson store =
      (.error (lessonError (sessionCandidateInput lesson) err), store) := by
    simp only [rememberLesson, rememberFailing, hcall]
  exact (Call.safeFrom_andThen_of_error herror).mpr (.refl store)

theorem rememberedLesson_eq {rules : RuleStore}
    (hvalid : validateRememberInput (sessionCandidateInput lesson) = .ok ())
    (hslug : safeSlug (trim lesson.title) = some slug) :
    rememberAsCandidateWithConfidence library clock (sessionCandidateInput lesson)
        sessionMinedApprovedConfidence rules =
      match findExisting library clock (sessionCandidateInput lesson) .pending none slug originName
        (rememberSignatureHash library (sessionCandidateInput lesson)) rules.skills with
      | some rung => rung.apply clock .pending originName rules
      | none => insertFresh library clock (sessionCandidateInput lesson) .pending originName
          (lessonRule library clock lesson slug) rules := by
  have hconversation : originName ≠ Skills.conversation := by decide
  exact rememberInner_accepted hvalid hslug hconversation

theorem safeFrom_accepted (hvalid : validateRememberInput (sessionCandidateInput lesson) = .ok ())
    (hslug : safeSlug (trim lesson.title) = some slug)
    (hrow : row ∈ store.outbox.rows) (hvisible : row.locallyApproved = false) :
    Call.SafeFrom store
      ((rememberLesson faults library clock lesson).andThen
        (approveRemembered faults row lesson.sourceRepo hashes)) store ↔
      (faults .remember = none →
        ∀ draft, LessonDraft library clock lesson slug store.rules.skills draft →
          ApprovalWhole faults clock.now draft lesson.sourceRepo store.rules.skills hashes
            (store.outbox.markSessionMinedLocallyApproved row.id)) := by
  have hcall : rememberAsCandidateWithConfidence library clock (sessionCandidateInput lesson)
    sessionMinedApprovedConfidence store.rules = _ := rememberedLesson_eq hvalid hslug
  cases hfind : findExisting library clock (sessionCandidateInput lesson) .pending none slug
      originName (rememberSignatureHash library (sessionCandidateInput lesson))
      store.rules.skills with
  | none =>
    simp only [lessonDraft_iff_of_none hslug hfind, and_imp, forall_eq]
    rw [hfind] at hcall
    by_cases hunused : (lessonRule library clock lesson slug).id ∈ store.rules.skills.keys
    · obtain ⟨err, herror⟩ : ∃ err, insertFresh library clock (sessionCandidateInput lesson) .pending
          originName (lessonRule library clock lesson slug) store.rules = .error err :=
        insertFresh_of_taken hunused
      exact iff_of_true (safeFrom_of_refused (hcall.trans herror))
        fun _ hnot => absurd hunused hnot
    · obtain ⟨rules, outcome, hok⟩ : ∃ rules outcome, insertFresh library clock
          (sessionCandidateInput lesson) .pending originName
          (lessonRule library clock lesson slug) store.rules = .ok (rules, outcome) :=
        insertFresh_of_fresh hunused
      obtain ⟨-, hskills, -, hskill, -⟩ := insertFresh_eq_ok hok
      have hremembers : Remembers clock.now _ store.rules.skills rules.skills :=
        hskills ▸ remembers_fresh rfl hunused
      refine (safeFrom_written (hcall.trans hok) (insertFresh_unmatched hok)
        (congrArg SkillRow.id hskill) hremembers hrow hvisible lesson.sourceRepo).trans ?_
      exact forall_congr' fun _ => ⟨fun hwhole _ => hwhole, fun hwhole => hwhole hunused⟩
  | some rung =>
    obtain ⟨found, reason, windowHit, rfl⟩ := strengthen_of_plain (plainCall_session lesson) hfind
    have hmet := (meets_iff (plainCall_session lesson) hslug).mpr ⟨reason, windowHit, hfind⟩
    simp only [lessonDraft_iff_of_some hslug hfind, forall_eq]
    rw [hfind] at hcall
    obtain ⟨outcome, happly⟩ : ∃ outcome, (Rung.strengthen found reason windowHit).apply clock
      .pending originName store.rules = .ok (_, outcome) := apply_strengthen_of_mem hmet.mem
    obtain ⟨-, -, hwritten, hskill⟩ := apply_strengthen happly
    exact safeFrom_written (hcall.trans happly) hwritten (KeyedTable.find_eq_some.mp hskill).2
      (remembers_met hmet.mem hmet.status_eq) hrow hvisible lesson.sourceRepo

theorem safeFrom_lesson (hrow : row ∈ store.outbox.rows) (hvisible : row.locallyApproved = false) :
    Call.SafeFrom store
      ((rememberLesson faults library clock lesson).andThen
        (approveRemembered faults row lesson.sourceRepo hashes)) store ↔
      (faults .remember = none → validateRememberInput (sessionCandidateInput lesson) = .ok () →
        ∀ slug, safeSlug (trim lesson.title) = some slug →
        ∀ draft, LessonDraft library clock lesson slug store.rules.skills draft →
          ApprovalWhole faults clock.now draft lesson.sourceRepo store.rules.skills hashes
            (store.outbox.markSessionMinedLocallyApproved row.id)) := by
  by_cases haccepted : validateRememberInput (sessionCandidateInput lesson) = .ok () ∧
      (safeSlug (trim lesson.title)).isSome
  · obtain ⟨hvalid, hsome⟩ := haccepted
    obtain ⟨slug, hslug⟩ := Option.isSome_iff_exists.mp hsome
    simp only [hvalid, hslug, forall_const, Option.some.injEq, forall_eq']
    exact safeFrom_accepted hvalid hslug hrow hvisible
  · obtain ⟨err, herror⟩ : ∃ err, rememberAsCandidateWithConfidence library clock
        (sessionCandidateInput lesson) sessionMinedApprovedConfidence store.rules = .error err :=
      rememberInner_refused haccepted
    refine iff_of_true (safeFrom_of_refused herror) fun _ hvalid slug hslug => ?_
    exact absurd ⟨hvalid, Option.isSome_iff_exists.mpr ⟨slug, hslug⟩⟩ haccepted

end Lesson

theorem not_approved_of_find {contentHash : Text}
    (hfind : store.outbox.findSessionMinedRowByContentHash contentHash = some row) :
    row ∈ store.outbox.rows ∧ row.locallyApproved = false := by
  obtain ⟨-, hrow, hshows⟩ := findSessionMinedRow_eq_some hfind
  rw [Outbox.shows, Bool.and_eq_true, visible, Bool.and_eq_true, Bool.not_eq_true'] at hshows
  exact ⟨hrow, hshows.1.1⟩

theorem safeFrom_session (contentHash : Text) (hashes : List Text) : Call.SafeFrom store
      ((approveSessionCandidate faults library clock contentHash).andThen fun rule =>
        (markAll faults rule.id 0 hashes).andThen fun _ => Call.done rule) store ↔
      SessionWhole faults library clock contentHash hashes store := by
  simp only [approveSessionCandidate, Call.andThen_assoc, Call.done_andThen]
  rw [Call.safeFrom_first fun _ _ => findCandidate_keeps, SessionWhole]
  refine forall_congr' fun _ => ?_
  constructor
  · intro hsafe hremember row hfind hvalid
    obtain ⟨hrow, hvisible⟩ := not_approved_of_find hfind
    have hfound : findCandidate contentHash store =
        (.ok (row, store.outbox.lessons row.id), store) :=
      findCandidate_eq_ok.mpr ⟨row, hfind, hvalid, rfl, rfl⟩
    exact (safeFrom_lesson hrow hvisible).mp
      (hsafe (row, store.outbox.lessons row.id) store hfound) hremember
  · intro hwhole found mid hfound
    obtain ⟨row, hfind, hvalid, rfl, rfl⟩ := findCandidate_eq_ok.mp hfound
    obtain ⟨hrow, hvisible⟩ := not_approved_of_find hfind
    exact (safeFrom_lesson hrow hvisible).mpr
      fun hremember => hwhole hremember row hfind hvalid

theorem safeFrom_enableGroup :
    Call.SafeFrom store (enableGroup faults library clock candidates) store ↔
      Undivided faults library clock candidates store := by
  unfold enableGroup Undivided
  cases hprimary : primaryCandidate candidates with
  | none =>
    have herror : (Call.fail (.validation emptyGroupError) : Call SkillRow) store =
      (.error (.validation emptyGroupError), store) := rfl
    rw [Call.safeFrom_of_error herror]
    simp [Untouched.refl]
  | some primary =>
    simp only [Option.some.injEq, forall_eq', enablePrimary]
    cases primary.kind with
    | draft id =>
      simp only [Call.andThen_assoc]
      exact safeFrom_draft primary id (sessionHashes candidates)
    | session contentHash => exact safeFrom_session contentHash (sessionHashes candidates)

end Whole

/-! ## Approved memories -/

section Approvals

variable {faults : Faults} {library : RememberLibrary} {clock : CallClock}
  {candidates : List PlanCandidate} {store after : MemoryStore} {rule : SkillRow}

theorem enableGroup_eq_ok
    (hok : enableGroup faults library clock candidates store = (.ok rule, after)) :
    ∃ primary mid, enablePrimary faults library clock primary store = (.ok rule, mid) ∧
      markAll faults rule.id 0 (sessionHashes candidates) mid = (.ok (), after) := by
  unfold enableGroup at hok
  cases hfirst : primaryCandidate candidates with
  | none =>
    rw [hfirst] at hok
    cases hok
  | some primary =>
    rw [hfirst] at hok
    obtain ⟨first, mid, hprimary, hlater⟩ := Call.ok_andThen.mp hok
    obtain ⟨result, last, hmarks, hdone⟩ := Call.ok_andThen.mp hlater
    cases hdone
    exact ⟨primary, mid, hprimary, hmarks⟩

theorem InSight.congr {ruleId contentHash : Text} (hsight : InSight store ruleId contentHash)
    (houtbox : after.outbox = store.outbox) (happroved : after.approvedFor = store.approvedFor) :
    InSight after ruleId contentHash := by
  unfold InSight ApprovedFor
  rw [houtbox, happroved]
  exact hsight

def KeepsOutbox {α : Type} (call : Call α) : Prop :=
  ∀ store, (call store).2.outbox = store.outbox ∧ (call store).2.approvedFor = store.approvedFor

theorem keepsOutbox_promoteRule (id : Text) : KeepsOutbox (promoteRule id) := by
  intro store
  unfold promoteRule
  split
  next => exact ⟨rfl, rfl⟩
  next =>
    split
    next => exact ⟨rfl, rfl⟩
    next => exact ⟨rfl, rfl⟩

theorem keepsOutbox_promoteOrLoad (id : Text) : KeepsOutbox (promoteOrLoad faults id) := by
  intro store
  by_cases hrefused : PromotionRefused faults id store.rules.skills
  · obtain ⟨error, herror⟩ := promoteOrLoad_of_refused hrefused
    rw [herror]
    exact ⟨rfl, rfl⟩
  · obtain ⟨row, -, hok⟩ := promoteOrLoad_of_not_refused hrefused
    rw [hok]
    exact ⟨rfl, rfl⟩

theorem keepsOutbox_rememberLesson (faults : Faults) (library : RememberLibrary)
    (clock : CallClock) (lesson : Lesson) :
    KeepsOutbox (rememberLesson faults library clock lesson) := by
  intro store
  unfold rememberLesson
  split <;> exact ⟨rfl, rfl⟩

theorem inSight_primary {primary : PlanCandidate} {contentHash : Text}
    (hok : enablePrimary faults library clock primary store = (.ok rule, after))
    (hsight : InSight store rule.id contentHash) : InSight after rule.id contentHash := by
  unfold enablePrimary at hok
  cases hkind : primary.kind with
  | draft id =>
    rw [hkind] at hok
    obtain ⟨_, refined, hrefine, hpromote⟩ := Call.ok_andThen.mp hok
    obtain ⟨-, hrefine⟩ := Call.ok_failing.mp hrefine
    obtain ⟨-, hpromote⟩ := Call.ok_failing.mp hpromote
    obtain rfl := (Prod.mk.inj hrefine).2
    have hbox := keepsOutbox_promoteRule id (store.withSkills
      (refinedSkills library.toLibrary clock.now primary id store.rules.skills))
    rw [hpromote] at hbox
    exact hsight.congr hbox.1 hbox.2
  | session hash =>
    rw [hkind] at hok
    obtain ⟨found, mid, hfind, hok⟩ := Call.ok_andThen.mp hok
    obtain ⟨-, hfind⟩ := Call.ok_failing.mp hfind
    obtain ⟨row, -, -, rfl, rfl⟩ := findCandidate_eq_ok.mp hfind
    obtain ⟨skill, remembered, hremember, hok⟩ := Call.ok_andThen.mp hok
    have hkept := keepsOutbox_rememberLesson faults library clock (store.outbox.lessons row.id)
      store
    rw [hremember] at hkept
    obtain ⟨_, attached, hattach, hok⟩ := Call.ok_andThen.mp hok
    obtain ⟨-, hattach⟩ := Call.ok_failing.mp hattach
    obtain ⟨promoted, active, hpromote, hok⟩ := Call.ok_andThen.mp hok
    obtain ⟨_, marked, hmark, hdone⟩ := Call.ok_andThen.mp hok
    obtain ⟨-, hmark⟩ := Call.ok_failing.mp hmark
    cases hdone
    have hkeeps : KeepsOutbox (promoteOrLoad faults skill.id) := keepsOutbox_promoteOrLoad _
    have hbox := hkeeps attached
    rw [hpromote] at hbox
    obtain rfl := (Prod.mk.inj hattach).2
    obtain rfl := (Prod.mk.inj hmark).2
    have hactive : InSight active rule.id contentHash :=
      hsight.congr (hbox.1.trans hkept.1) (hbox.2.trans hkept.2)
    exact hactive.mark row.id

theorem approved_of_enableGroup
    (hok : enableGroup faults library clock candidates store = (.ok rule, after))
    {contentHash : Text} (hmem : contentHash ∈ sessionHashes candidates)
    (hfind : (store.outbox.findSessionMinedRowByContentHash contentHash).isSome) :
    ApprovedFor after rule.id contentHash := by
  obtain ⟨row, hfind⟩ := Option.isSome_iff_exists.mp hfind
  obtain ⟨hblank, hrow, hshows⟩ := findSessionMinedRow_eq_some hfind
  obtain ⟨primary, mid, hprimary, hmarks⟩ := enableGroup_eq_ok hok
  have hsight := inSight_primary hprimary (.inl ⟨row, hrow, hshows⟩)
  exact approved_of_markAll hmarks hblank hsight (.inr hmem)

/-- Enabling a group is all or nothing exactly if nothing is written in front of an error. -/
theorem allOrNothing_iff (faults : Faults) (library : RememberLibrary) (clock : CallClock)
    (candidates : List PlanCandidate) (store : MemoryStore) :
    AllOrNothing faults library clock candidates store ↔
      Undivided faults library clock candidates store := by
  rw [← safeFrom_enableGroup]
  constructor
  · intro hall
    exact hall.nothing
  · intro hsafe
    refine ⟨hsafe, fun rule after hok contentHash hmem hfind => ?_⟩
    exact approved_of_enableGroup hok hmem hfind

end Approvals

def collidingRow (id : Char) (status : SkillStatus) : SkillRow where
  id := [id]
  name := "use tabs"
  source := localSource
  version := "1"
  description := "Use tabs."
  contentHash := some "a1"
  status := status
  installedAt := noon.now
  updatedAt := noon.now

def collidingSkills : SkillTable :=
  ⟨[collidingRow 'a' .active, collidingRow 'd' .pending], by decide⟩

def collidingStore : MemoryStore where
  rules := ⟨collidingSkills, [], [], []⟩
  outbox := ⟨[], fun _ => sampleLesson [] 0, fun _ => 0, 0⟩
  approvedFor _ := none

def refinedDraft : PlanCandidate where
  itemId := "draft:d"
  kind := .draft ['d']
  body := "Use tabs in Rust files."
  sessionId := none
  sessionCreatedAtMs := none
  distinctEvidenceCount := none
  title := "tabs in Rust"
  sourceRepo := none
  filePatterns := []
  rawDescription := some "Use tabs."
  contentHash := some "a1"
  origin := Skills.conversation
  sourceKind := humanKind
  verdict := none
  autopilotDisabled := false

theorem not_promotable_collidingSkills : ¬ Promotable ['d'] collidingSkills := by
  rintro ⟨row, hrow, -, hnone⟩
  obtain rfl : collidingRow 'd' .pending = row := Option.some.inj hrow
  have hactive := activeDuplicate_eq_none.mp hnone "a1" (by decide)
    (collidingRow 'a' .active) (.head _)
  revert hactive
  decide

/-- The promotion is refused, and the draft stays rewritten. -/
theorem refused_draft_is_rewritten :
    ¬ AllOrNothing (fun _ => none) twoEvidence noon [refinedDraft] collidingStore := by
  intro hall
  have hwhole := safeFrom_enableGroup.mp hall.nothing refinedDraft rfl rfl
  have hsame := hwhole.1 (.inr not_promotable_collidingSkills)
  have hrefined := hsame "Use tabs." rfl (collidingRow 'd' .pending) (.tail _ (.head _)) rfl rfl
  exact absurd hrefined.1 (by decide)

end Difflore.Memory
