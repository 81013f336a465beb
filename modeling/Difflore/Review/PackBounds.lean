import Difflore.Review.DiffContext
import Mathlib.Data.Char
import Mathlib.Data.List.Lex

/-! # What a packed context holds

The text of a packed context has the length that is recorded and fits the budget, every file is
accounted for once, and files with different paths are packed alike in any order.
-/

namespace Difflore.Review

open Foundation Text

/-! ## The order of the files -/

theorem lt_iff_not_lt_and_ne (s t : Text) : s < t ↔ ¬ t < s ∧ s ≠ t := by
  constructor
  · intro hlt
    exact ⟨not_lt_of_gt (α := List Char) hlt, ne_of_lt (α := List Char) hlt⟩
  · rintro ⟨hnot, hne⟩
    exact lt_of_le_of_ne (α := List Char) (not_lt.mp hnot) hne

instance transCmp_compareText : Std.TransCmp compareText :=
  Std.TransOrd.compareOfLessAndEq_of_lt_trans_of_lt_iff (lt_trans (α := List Char))
    lt_iff_not_lt_and_ne

theorem compareText_eq {s t : Text} (heq : compareText s t = .eq) : s = t := by
  unfold compareText compareOfLessAndEq at heq
  split at heq
  next => contradiction
  next =>
    split at heq
    next hsame => exact hsame
    next => contradiction

def byRelevance (a b : DiffContextFile) : Ordering := compare b.relevance a.relevance

def byActivity : DiffContextFile → DiffContextFile → Ordering :=
  compareOn fun file => activeRank (effectiveChange file)

def byChanges (a b : DiffContextFile) : Ordering :=
  compare (changedLineTotal b.patch) (changedLineTotal a.patch)

def bySize : DiffContextFile → DiffContextFile → Ordering :=
  compareOn fun file => (trimEnd file.patch).length

def byPath (a b : DiffContextFile) : Ordering := compareText (trim a.path) (trim b.path)

instance transCmp_byRelevance : Std.TransCmp byRelevance :=
  inferInstanceAs (Std.TransCmp fun a b : DiffContextFile =>
    compareOn DiffContextFile.relevance b a)

instance transCmp_byChanges : Std.TransCmp byChanges :=
  inferInstanceAs (Std.TransCmp fun a b : DiffContextFile =>
    compareOn (fun file : DiffContextFile => changedLineTotal file.patch) b a)

instance transCmp_byActivity : Std.TransCmp byActivity :=
  inferInstanceAs (Std.TransCmp (compareOn _))

instance transCmp_bySize : Std.TransCmp bySize := inferInstanceAs (Std.TransCmp (compareOn _))

instance transCmp_byPath : Std.TransCmp byPath where
  eq_swap := fun {_ _} => @Std.OrientedCmp.eq_swap _ compareText _ _ _
  isLE_trans := fun {_ _ _} => @Std.TransCmp.isLE_trans _ compareText _ _ _ _

instance transCmp_compareContents (mode : DiffContextMode) :
    Std.TransCmp fun a b => compareContents a b mode := by
  cases mode with
  | reviewExtraction =>
    exact inferInstanceAs (Std.TransCmp
      (compareLex (compareLex byRelevance byActivity) (compareLex bySize byPath)))
  | fixPr =>
    exact inferInstanceAs (Std.TransCmp
      (compareLex (compareLex (compareLex byRelevance byActivity) byChanges)
        (compareLex bySize byPath)))

instance transCmp_compareFiles (mode : DiffContextMode) :
    Std.TransCmp fun a b => compareFiles a b mode := by
  have hcmp : (fun a b => compareFiles a b mode) =
      compareLex (fun a b : DiffContextFile × Nat => compareContents a.1 b.1 mode)
        (compareOn Prod.snd) := by
    rfl
  have hcontents : Std.TransCmp fun a b : DiffContextFile × Nat => compareContents a.1 b.1 mode := {
    eq_swap := fun {_ _} => @Std.OrientedCmp.eq_swap _ (fun a b => compareContents a b mode) _ _ _
    isLE_trans := fun {_ _ _} =>
      @Std.TransCmp.isLE_trans _ (fun a b => compareContents a b mode) _ _ _ _ }
  rw [hcmp]
  infer_instance

theorem path_eq_of_compareContents {a b : DiffContextFile} {mode : DiffContextMode}
    (heq : compareContents a b mode = .eq) : trim a.path = trim b.path := by
  cases mode with
  | reviewExtraction =>
    unfold compareContents at heq
    dsimp only at heq
    rw [Ordering.then_eq_eq, Ordering.then_eq_eq, Ordering.then_eq_eq] at heq
    exact compareText_eq heq.2.2
  | fixPr =>
    unfold compareContents at heq
    dsimp only at heq
    rw [Ordering.then_eq_eq, Ordering.then_eq_eq, Ordering.then_eq_eq, Ordering.then_eq_eq] at heq
    exact compareText_eq heq.2.2

theorem pairwise_orderedFiles (files : List DiffContextFile) (mode : DiffContextMode) :
    (orderedFiles files mode).Pairwise fun a b => compareContents a b mode ≠ .gt := by
  have hle : ∀ {o : Ordering}, o ≠ .gt ↔ o.isLE = true := by
    intro o
    cases o <;> decide
  have htotal : Std.Total fun a b : DiffContextFile × Nat => compareFiles a b mode ≠ .gt := ⟨by
    intro a b
    rw [hle, hle, @Std.OrientedCmp.eq_swap _ (fun a b => compareFiles a b mode) _ a]
    cases compareFiles b a mode <;> decide⟩
  have htrans : IsTrans (DiffContextFile × Nat) fun a b => compareFiles a b mode ≠ .gt := ⟨by
    intro a b c
    rw [hle, hle, hle]
    exact @Std.TransCmp.isLE_trans _ (fun a b => compareFiles a b mode) _ _ _ _⟩
  unfold orderedFiles
  apply List.Pairwise.map (R := fun a b => compareFiles a b mode ≠ .gt)
  · intro a b hfiles hgt
    rw [compareFiles, hgt] at hfiles
    exact hfiles rfl
  · exact List.pairwise_insertionSort _ _

theorem perm_orderedFiles (files : List DiffContextFile) (mode : DiffContextMode) :
    (orderedFiles files mode).Perm files := by
  have hsorted := (List.perm_insertionSort
    (fun a b : DiffContextFile × Nat => compareFiles a b mode ≠ .gt) files.zipIdx).map Prod.fst
  rw [List.zipIdx_map_fst] at hsorted
  exact hsorted

theorem orderedFiles_of_perm {files other : List DiffContextFile} (hperm : other.Perm files)
    (hpaths : (files.map fun file => trim file.path).Nodup) (mode : DiffContextMode) :
    orderedFiles other mode = orderedFiles files mode := by
  refine @List.Perm.eq_of_pairwise _ (fun a b => compareContents a b mode ≠ .gt) _ _ ?_ ?_ ?_ ?_
  · intro a b ha hb hab hba
    rw [@Std.OrientedCmp.eq_swap _ (fun a b => compareContents a b mode) _ b] at hba
    have heq : compareContents a b mode = .eq := by
      cases hcmp : compareContents a b mode with
      | eq => rfl
      | lt =>
        rw [hcmp] at hba
        contradiction
      | gt => exact absurd hcmp hab
    have hmem : a ∈ files := (hperm.mem_iff).mp ((perm_orderedFiles other mode).mem_iff.mp ha)
    exact List.inj_on_of_nodup_map hpaths hmem ((perm_orderedFiles files mode).mem_iff.mp hb)
      (path_eq_of_compareContents heq)
  · exact pairwise_orderedFiles other mode
  · exact pairwise_orderedFiles files mode
  · exact (perm_orderedFiles other mode).trans (hperm.trans (perm_orderedFiles files mode).symm)

/-! ## What becomes of a file -/

inductive Fate
  | full
  | truncated (room : Nat)
  | summarized
  deriving DecidableEq

def Fate.included (accounted : DiffContextFile × Fate) : Option (Text × Bool) :=
  match accounted.2 with
  | .full => some (trim accounted.1.path, false)
  | .truncated _ => some (trim accounted.1.path, true)
  | .summarized => none

/-- The path of a summarised file, and whether a part of it is included. -/
def Fate.summary (accounted : DiffContextFile × Fate) : Option (Text × Bool) :=
  match accounted.2 with
  | .full => none
  | .truncated _ => some (trim accounted.1.path, true)
  | .summarized => some (trim accounted.1.path, false)

def compactSection (file : DiffContextFile) (room : Nat) : Option Text :=
  renderCompactFileSection (trim file.path) (trimEnd file.patch) room

def sectionOpening (file : DiffContextFile) : Text :=
  "\n\n## File: ".toList ++ (trim file.path ++ "\n\n```diff\n".toList)

def cutNote : Text := "\n... [diff context truncated]\n```\n"

def Fate.section (accounted : DiffContextFile × Fate) : Text :=
  match accounted.2 with
  | .full => sectionOpening accounted.1 ++ (trimEnd accounted.1.patch ++ "\n```\n".toList)
  | .truncated room => (compactSection accounted.1 room).getD []
  | .summarized => []

/-- The cut section holds some of the patch between the same opening and a note, and fits. -/
def FitsCut (file : DiffContextFile) (room : Nat) : Prop := ∃ kept, trim kept ≠ [] ∧
    compactSection file room = some (sectionOpening file ++ (kept ++ cutNote)) ∧
    ((compactSection file room).getD []).length ≤ room

theorem sectionOpening_eq (file : DiffContextFile) :
    sectionOpening file = blankLine ++ (fileMark ++ (trim file.path ++ fenceOpening)) := by
  have hmark : "\n\n## File: ".toList = blankLine ++ fileMark := by decide +kernel
  have hfence : fenceOpening = "\n\n```diff\n".toList := rfl
  unfold sectionOpening
  rw [hmark, hfence, List.append_assoc]

theorem cutNote_eq : cutNote = ['\n'] ++ (truncatedMarker ++ "```\n".toList) := by
  decide +kernel

theorem section_full (file : DiffContextFile) :
    Fate.section (file, .full) = renderFileSection (trim file.path) (trimEnd file.patch) := by
  have htwice : trimEnd (trimEnd file.patch) = trimEnd file.patch := List.rdropWhile_idempotent _ _
  unfold Fate.section renderFileSection
  dsimp only
  rw [htwice, sectionOpening_eq]
  simp only [List.append_assoc]
  rfl

theorem fitsCut_of_compactSection {file : DiffContextFile} {room : Nat} {contents : Text}
    (hcontents : compactSection file room = some contents) : FitsCut file room := by
  have hrender := hcontents
  unfold compactSection renderCompactFileSection at hrender
  dsimp only at hrender
  split at hrender
  next => contradiction
  next =>
    split at hrender
    next => contradiction
    next hkept =>
      obtain ⟨hfits, hsome⟩ := Option.ite_none_right_eq_some.mp hrender
      rw [Option.some.inj hsome] at hfits
      refine ⟨_, (trim_trimEnd _).trans_ne hkept, hcontents.trans ?_, ?_⟩
      · rw [← hsome, sectionOpening_eq, cutNote_eq]
      · rwa [hcontents]

namespace PackedDiffContext

/-- The text is made of the sections of the accounted files, in order, and the lists are those of
the files. A file is cut to what the sections in front of it leave of the budget. -/
structure Accounts (packed : PackedDiffContext) (accounted : List (DiffContextFile × Fate)) :
    Prop where
  text : packed.text = accounted.flatMap Fate.section
  compact : ∀ before file room after, accounted = before ++ (file, .truncated room) :: after →
    (∃ budget ∈ packed.charBudget, room = budget - (before.flatMap Fate.section).length) ∧
      FitsCut file room
  included : (packed.includedFiles.map fun file => (file.path, file.truncated)) =
    accounted.filterMap Fate.included
  summaries : (packed.summaries.map fun summary =>
    (summary.path, decide (summary.reason = .truncatedForBudget))) =
      accounted.filterMap Fate.summary

/-- The recorded length is that of the text, and within the budget. -/
structure Fits (packed : PackedDiffContext) : Prop where
  length_text : packed.text.length = packed.packedChars
  within : ∀ budget ∈ packed.charBudget, packed.packedChars ≤ budget

variable {packed : PackedDiffContext} {accounted : List (DiffContextFile × Fate)}

section

variable (haccounts : packed.Accounts accounted)
include haccounts

theorem Accounts.compact_concat {last : DiffContextFile}
    {fate : Fate} (hlast : ∀ room, fate = .truncated room →
      (∃ budget ∈ packed.charBudget, room = budget - packed.text.length) ∧ FitsCut last room) :
    ∀ before file room after,
      accounted ++ [(last, fate)] = before ++ (file, .truncated room) :: after →
      (∃ budget ∈ packed.charBudget, room = budget - (before.flatMap Fate.section).length) ∧
        FitsCut file room := by
  intro before file room after hsplit
  rcases List.eq_nil_or_concat after with rfl | ⟨init, entry, rfl⟩
  · obtain ⟨rfl, hentry⟩ := List.append_inj' hsplit rfl
    obtain ⟨rfl, rfl⟩ := Prod.mk.inj (List.cons.inj hentry).1
    rw [← haccounts.text]
    exact hlast room rfl
  · rw [List.concat_eq_append, ← List.cons_append, ← List.append_assoc] at hsplit
    exact haccounts.compact _ _ _ _ (List.append_inj' hsplit rfl).1

theorem Accounts.includeFull (file : DiffContextFile) :
    (packed.includeFile file (renderFileSection (trim file.path) (trimEnd file.patch))
      false).Accounts (accounted ++ [(file, .full)]) where
  text := by
    rw [includeFile, haccounts.text, List.flatMap_append, List.flatMap_singleton, section_full]
  compact := haccounts.compact_concat fun _ hfate => Fate.noConfusion hfate
  included := by
    rw [includeFile, List.map_append, haccounts.included, List.filterMap_append]
    rfl
  summaries := by
    rw [includeFile, haccounts.summaries, List.filterMap_append]
    exact (List.append_nil _).symm

theorem Accounts.truncate {file : DiffContextFile}
    {contents : Text} {budget : Nat} (hbudget : packed.charBudget = some budget)
    (hcontents : compactSection file (budget - packed.text.length) = some contents) (chars : Nat) :
    ((packed.includeFile file contents true).summarize file .truncatedForBudget chars).Accounts
      (accounted ++ [(file, .truncated (budget - packed.text.length))]) where
  text := by
    have hsection : Fate.section (file, .truncated (budget - packed.text.length)) = contents := by
      unfold Fate.section
      dsimp only
      rw [hcontents, Option.getD_some]
    rw [List.flatMap_append, List.flatMap_singleton, hsection, ← haccounts.text]
    rfl
  compact := by
    refine haccounts.compact_concat fun room hroom => ?_
    obtain rfl := Fate.truncated.inj hroom
    exact ⟨⟨budget, hbudget, rfl⟩, fitsCut_of_compactSection hcontents⟩
  included := by
    rw [summarize, includeFile, List.map_append, haccounts.included, List.filterMap_append]
    rfl
  summaries := by
    rw [summarize, includeFile, List.map_append, haccounts.summaries, List.filterMap_append]
    rfl

theorem Accounts.summarizeOnly (file : DiffContextFile)
    {reason : DiffContextSummaryReason} (hreason : reason ≠ .truncatedForBudget) (chars : Nat) :
    (packed.summarize file reason chars).Accounts (accounted ++ [(file, .summarized)]) where
  text := by
    rw [summarize, haccounts.text, List.flatMap_append, List.flatMap_singleton]
    exact (List.append_nil _).symm
  compact := haccounts.compact_concat fun _ hfate => Fate.noConfusion hfate
  included := by
    rw [summarize, haccounts.included, List.filterMap_append]
    exact (List.append_nil _).symm
  summaries := by
    rw [summarize, List.map_append, haccounts.summaries, List.filterMap_append]
    unfold buildSummary
    simp [hreason, Fate.summary]

end

theorem Fits.include (hfits : packed.Fits) (file : DiffContextFile) {contents : Text}
    (hcontents : ∀ budget ∈ packed.charBudget, packed.packedChars + contents.length ≤ budget)
    (truncated : Bool) : (packed.includeFile file contents truncated).Fits := by
  constructor
  · rw [includeFile, List.length_append, hfits.length_text]
  · exact hcontents

theorem Fits.summarizeOnly (hfits : packed.Fits) (file : DiffContextFile)
    (reason : DiffContextSummaryReason) (chars : Nat) : (packed.summarize file reason chars).Fits :=
  ⟨hfits.length_text, hfits.within⟩

end PackedDiffContext

theorem PackedDiffContext.step_accounts {packed : PackedDiffContext}
    {accounted : List (DiffContextFile × Fate)} (hfits : packed.Fits)
    (haccounts : packed.Accounts accounted) (file : DiffContextFile) :
    (packed.step file).Fits ∧ (packed.step file).charBudget = packed.charBudget ∧
      ∃ fate, (packed.step file).Accounts (accounted ++ [(file, fate)]) := by
  have hfits' : PackedDiffContext.Fits { packed with
      originalChars := packed.originalChars + (trimEnd file.patch).length } :=
    ⟨hfits.length_text, hfits.within⟩
  have haccounts' : PackedDiffContext.Accounts { packed with
      originalChars := packed.originalChars + (trimEnd file.patch).length } accounted :=
    ⟨haccounts.text, haccounts.compact, haccounts.included, haccounts.summaries⟩
  unfold PackedDiffContext.step
  dsimp only
  split
  next => exact ⟨hfits'.summarizeOnly _ _ _, rfl, .summarized,
      haccounts'.summarizeOnly _ (by decide) _⟩
  next =>
    split
    next =>
      exact ⟨hfits'.summarizeOnly _ _ _, rfl, .summarized,
      haccounts'.summarizeOnly _ (by decide) _⟩
    next =>
      split
      next hfit =>
        refine ⟨hfits'.include _ ?_ _, rfl, .full, haccounts'.includeFull _⟩
        intro budget hbudget
        unfold fitsBudget at hfit
        rw [show packed.charBudget = some budget from hbudget] at hfit
        exact of_decide_eq_true hfit
      next hover =>
        split
        next hnone =>
          -- Without a budget everything fits.
          rw [hnone] at hover
          exact absurd rfl hover
        next budget hbudget =>
          split
          next compacted hrender =>
            rw [← hfits.length_text] at hrender
            refine ⟨(hfits'.include _ ?_ _).summarizeOnly _ _ _, rfl, .truncated _,
              haccounts'.truncate hbudget hrender _⟩
            intro other hother
            obtain rfl : budget = other := Option.some.inj (hbudget.symm.trans hother)
            have hcompact : compactSection file (budget - packed.text.length) = some compacted :=
              hrender
            obtain ⟨_, _, _, hlength⟩ := fitsCut_of_compactSection hcompact
            have hwithin := hfits.within budget hbudget
            rw [hcompact, hfits.length_text, Option.getD_some] at hlength
            dsimp only
            omega
          next =>
            exact ⟨hfits'.summarizeOnly _ _ _, rfl, .summarized,
              haccounts'.summarizeOnly _ (by decide) _⟩

theorem foldl_step_accounts (files : List DiffContextFile) {packed : PackedDiffContext}
    {accounted : List (DiffContextFile × Fate)} (hfits : packed.Fits)
    (haccounts : packed.Accounts accounted) :
    (files.foldl PackedDiffContext.step packed).Fits ∧
      (files.foldl PackedDiffContext.step packed).charBudget = packed.charBudget ∧
        ∃ more : List (DiffContextFile × Fate), more.map Prod.fst = files ∧
          (files.foldl PackedDiffContext.step packed).Accounts (accounted ++ more) := by
  induction files generalizing packed accounted with
  | nil => exact ⟨hfits, rfl, [], rfl, by rwa [List.append_nil]⟩
  | cons file rest ih =>
    obtain ⟨hstepFits, hbudget, fate, hstep⟩ := packed.step_accounts hfits haccounts file
    obtain ⟨hall, hsame, more, hfiles, haccounted⟩ := ih hstepFits hstep
    refine ⟨hall, hsame.trans hbudget, (file, fate) :: more, ?_, ?_⟩
    · rw [List.map_cons, hfiles]
    · rw [List.append_assoc] at haccounted
      exact haccounted

/-- The text has the recorded length and fits the budget, every file is accounted for once, and
files with different paths are packed alike in any order. -/
theorem packDiffContext_accounts (files : List DiffContextFile) (options : DiffContextOptions) :
    let packed := packDiffContext files options
    packed.text.length = packed.packedChars ∧
      (∀ budget ∈ options.charBudget, packed.text.length ≤ budget) ∧
      (∃ accounted : List (DiffContextFile × Fate),
        (accounted.map Prod.fst).Perm files ∧ packed.Accounts accounted) ∧
      ∀ other : List DiffContextFile, other.Perm files →
        (files.map fun file => trim file.path).Nodup → packDiffContext other options = packed := by
  intro packed
  have hinitial : (PackedDiffContext.initial options.charBudget).Fits :=
    ⟨rfl, fun _ _ => Nat.zero_le _⟩
  have hnone : (PackedDiffContext.initial options.charBudget).Accounts [] :=
    ⟨rfl, fun before _ _ _ hsplit => absurd hsplit (by cases before <;> simp), rfl, rfl⟩
  obtain ⟨hfits, hbudget, accounted, hfiles, haccounts⟩ :=
    foldl_step_accounts (orderedFiles files options.mode) hinitial hnone
  refine ⟨hfits.length_text, ?_, ⟨accounted, ?_, haccounts⟩, ?_⟩
  · intro budget hmem
    refine hfits.length_text.trans_le (hfits.within budget ?_)
    rw [hbudget]
    exact hmem
  · rw [hfiles]
    exact perm_orderedFiles files options.mode
  · intro other hperm hpaths
    unfold packed packDiffContext
    rw [orderedFiles_of_perm hperm hpaths]

end Difflore.Review
