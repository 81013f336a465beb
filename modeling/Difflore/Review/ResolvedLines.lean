import Difflore.Review.Occurrences

/-! # Resolved lines

A snippet that occurs on the new side is resolved there, else on the old side; of several
occurrences the nearest to the claim is taken. Without an occurrence, the line is an existing one
near the claim.
-/

namespace Difflore.Review

open Foundation

variable {newSide : Bool} {hunks : List DiffHunk} {target : ResolveTarget}

def reported (window : List SideLine) : Int × Int := (toI32 (span window).1, toI32 (span window).2)

theorem snippetMatch_eq (target : ResolveTarget) (hunks : List DiffHunk) :
    target.snippetMatch hunks = if target.targets = [] then none
      else (matchSide hunks target.targets target.positiveClaim true).or
        (matchSide hunks target.targets target.positiveClaim false) := by
  unfold ResolveTarget.snippetMatch ResolveTarget.targets
  cases target.snippet with
  | none => rfl
  | some snippet => rfl

theorem snippetMatch_of_first (hparsed : ∀ hunk ∈ hunks, hunk.Parsed) (hne : target.targets ≠ [])
    (hfound : occurrences hunks target.targets newSide ≠ [])
    (hfirst : newSide = false → occurrences hunks target.targets true = []) :
    target.snippetMatch hunks = matchSide hunks target.targets target.positiveClaim newSide := by
  rw [snippetMatch_eq, if_neg hne]
  cases newSide with
  | true =>
    cases hmatch : matchSide hunks target.targets target.positiveClaim true with
    | none => exact absurd ((matchSide_eq_none hparsed hne).mp hmatch) hfound
    | some range => rfl
  | false =>
    rw [(matchSide_eq_none hparsed hne).mpr (hfirst rfl)]
    rfl

theorem snippetMatch_eq_none (hparsed : ∀ hunk ∈ hunks, hunk.Parsed)
    (hnone : target.targets = [] ∨ ∀ newSide, occurrences hunks target.targets newSide = []) :
    target.snippetMatch hunks = none := by
  rw [snippetMatch_eq]
  split
  next => rfl
  next hne =>
    rcases hnone with hempty | hnone
    · exact absurd hempty hne
    · rw [(matchSide_eq_none hparsed hne).mpr (hnone true),
        (matchSide_eq_none hparsed hne).mpr (hnone false)]
      rfl

theorem resolve_of_occurs (hparsed : ∀ hunk ∈ hunks, hunk.Parsed) (hne : target.targets ≠ [])
    (hfound : occurrences hunks target.targets newSide ≠ [])
    (hfirst : newSide = false → occurrences hunks target.targets true = []) :
    ∃ window, IsFirstLeast (claimDistance target.positiveClaim)
        (occurrences hunks target.targets newSide) window ∧
      resolveIssueLines target hunks = some (reported window) := by
  have hmatch := snippetMatch_of_first hparsed hne hfound hfirst
  obtain ⟨range, hrange⟩ : ∃ range,
      matchSide hunks target.targets target.positiveClaim newSide = some range := by
    apply Option.ne_none_iff_exists'.mp
    intro hnone
    exact hfound ((matchSide_eq_none hparsed hne).mp hnone)
  obtain ⟨window, hspan, hleast⟩ := matchSide_eq_some hparsed hne hrange
  refine ⟨window, hleast, ?_⟩
  have hhunks : hunks ≠ [] := by
    rintro rfl
    exact hfound rfl
  rw [resolveIssueLines, if_neg hhunks, hmatch, hrange, reported, hspan]

/-! ## The claimed line -/

theorem side_getElem? (hunk : DiffHunk) (newSide : Bool) (idx : Nat) :
    (hunk.side newSide)[idx]? = ((hunk.lines.filter (onSide newSide))[idx]?).map fun line =>
      ⟨(hunk.sideStart newSide + idx) % 2 ^ 32, line⟩ := by
  simp [DiffHunk.side, Function.comp_def]

theorem length_side (hunk : DiffHunk) (newSide : Bool) :
    (hunk.side newSide).length = (hunk.lines.filter (onSide newSide)).length := by
  simp [DiffHunk.side]

theorem exists_number {hunk : DiffHunk} {idx : Nat} (hidx : idx < (hunk.side newSide).length) :
    ∃ line ∈ hunk.side newSide, line.number = (hunk.sideStart newSide + idx) % 2 ^ 32 := by
  refine ⟨(hunk.side newSide)[idx], List.getElem_mem hidx, ?_⟩
  have hget := side_getElem? hunk newSide idx
  rw [List.getElem?_eq_getElem hidx] at hget
  obtain ⟨line, _, heq⟩ := Option.map_eq_some_iff.mp hget.symm
  rw [← heq]

theorem addU32_le (number more : Nat) : addU32 number more ≤ number + more := Nat.mod_le _ _

theorem nearClaim_of_inReach {hunk : DiffHunk} (hparsed : hunk.Parsed) {claimed : Nat}
    (hreach : inReach claimed hunk = true) :
    hunk.NearClaim claimed ∧ ∃ line ∈ hunk.side true, absDiff line.number claimed ≤ 2 := by
  unfold inReach at hreach
  rw [extractSideLines_eq hparsed] at hreach
  split at hreach
  next first last hfirst hlast =>
    rw [List.head?_map, Option.map_eq_some_iff] at hfirst
    rw [List.getLast?_map, Option.map_eq_some_iff] at hlast
    obtain ⟨lo, hlo, rfl⟩ := hfirst
    obtain ⟨hi, hhi, rfl⟩ := hlast
    rw [Bool.not_eq_true', Bool.or_eq_false_iff, decide_eq_false_iff_not, not_lt,
      decide_eq_false_iff_not, not_lt] at hreach
    obtain ⟨hlow, hhigh⟩ := hreach
    change lo.number ≤ addU32 claimed 2 at hlow
    change claimed ≤ addU32 hi.number 2 at hhigh
    have hlow' : lo.number ≤ claimed + 2 := hlow.trans (addU32_le _ _)
    have hhigh' : claimed ≤ hi.number + 2 := hhigh.trans (addU32_le _ _)
    refine ⟨⟨lo, hlo, hi, hhi, hlow', hhigh'⟩, ?_⟩
    have hclaimed : claimed < 2 ^ 32 := lt_of_le_of_lt hhigh (Nat.mod_lt _ (by decide))
    have hstart : lo.number = hunk.sideStart true := by
      rw [List.head?_eq_getElem?, side_getElem?, Option.map_eq_some_iff] at hlo
      obtain ⟨line, _, rfl⟩ := hlo
      exact Nat.mod_eq_of_lt (hparsed.sideStart_lt true)
    by_cases hbelow : claimed < hunk.sideStart true
    · refine ⟨lo, List.mem_of_mem_head? hlo, ?_⟩
      unfold absDiff
      omega
    · by_cases hinside : claimed - hunk.sideStart true < (hunk.side true).length
      · obtain ⟨line, hline, hnumber⟩ := exists_number hinside
        refine ⟨line, hline, ?_⟩
        rw [Nat.add_sub_cancel' (not_lt.mp hbelow), Nat.mod_eq_of_lt hclaimed] at hnumber
        rw [hnumber, absDiff, max_self, min_self, Nat.sub_self]
        exact Nat.zero_le 2
      · -- The side ends in front of the claim, so its numbers do not wrap around.
        refine ⟨hi, List.mem_of_mem_getLast? hhi, ?_⟩
        rw [List.getLast?_eq_getElem?, side_getElem?, Option.map_eq_some_iff] at hhi
        obtain ⟨line, hline, rfl⟩ := hhi
        have hlength : 0 < (hunk.side true).length := by
          rw [length_side]
          obtain ⟨hidx, _⟩ := List.getElem?_eq_some_iff.mp hline
          omega
        dsimp only at hhigh' ⊢
        rw [Nat.mod_eq_of_lt (by omega)] at hhigh' ⊢
        unfold absDiff
        omega
  next => contradiction

theorem exists_of_snapClaimedLine (hparsed : ∀ hunk ∈ hunks, hunk.Parsed) {claimed : Nat}
    {number : Int} (hsnap : snapClaimedLine claimed hunks = some number) :
    ∃ hunk ∈ hunks, hunk.NearClaim claimed ∧ ∃ line ∈ hunk.side true,
      number = toI32 line.number ∧ absDiff line.number claimed ≤ 2 := by
  rw [snapClaimedLine_eq, foldl_snapLine, Option.map_map, Option.map_eq_some_iff] at hsnap
  obtain ⟨found, hfound, rfl⟩ := hsnap
  have hleast := isFirstLeast_firstLeast hfound
  have hmem := hleast.mem
  rw [reachedLines, List.mem_flatMap] at hmem
  obtain ⟨hunk, hhunk, hline⟩ := hmem
  obtain ⟨hmem, hreach⟩ := List.mem_filter.mp hhunk
  obtain ⟨hnear, other, hother, hdistance⟩ := nearClaim_of_inReach (hparsed hunk hmem) hreach
  have hotherMem : other.indexed ∈ reachedLines claimed hunks := by
    apply List.mem_flatMap.mpr
    refine ⟨hunk, hhunk, ?_⟩
    rw [extractSideLines_eq (hparsed hunk hmem)]
    exact List.mem_map_of_mem hother
  rw [extractSideLines_eq (hparsed hunk hmem)] at hline
  obtain ⟨line, hside, rfl⟩ := List.mem_map.mp hline
  exact ⟨hunk, hmem, hnear, line, hside, rfl, (hleast.le hotherMem).trans hdistance⟩

/-- A snippet that occurs is resolved to an occurrence, on the new side if it occurs there: the
nearest to the claim, and the first of several. Else the line is one of a hunk that spans the
claim, at most two lines away from it. -/
theorem resolve_nearest (diffSection : Text) (target : ResolveTarget) :
    let hunks := parseHunks diffSection
    let found := occurrences hunks target.targets
    (target.targets ≠ [] → ∀ newSide, found newSide ≠ [] → (newSide = false → found true = []) →
      ∃ hunk ∈ hunks, ∃ window, window <:+: hunk.side newSide ∧
        window.map SideLine.normalized = target.targets ∧
        IsFirstLeast (claimDistance target.positiveClaim) (found newSide) window ∧
        resolveIssueLines target hunks = some (reported window)) ∧
    ((target.targets = [] ∨ ∀ newSide, found newSide = []) →
      ∀ range, resolveIssueLines target hunks = some range →
        ∃ claimed, target.positiveClaim = some claimed ∧ ∃ hunk ∈ hunks,
          hunk.NearClaim claimed ∧ ∃ line ∈ hunk.side true,
            range = (toI32 line.number, toI32 line.number) ∧ absDiff line.number claimed ≤ 2) := by
  intro hunks found
  have hparsed : ∀ hunk ∈ hunks, hunk.Parsed := fun hunk hhunk => parsed_of_mem_parseHunks hhunk
  constructor
  · intro hne newSide hfound hfirst
    obtain ⟨window, hleast, hresolved⟩ := resolve_of_occurs hparsed hne hfound hfirst
    obtain ⟨hunk, hhunk, hpart, hmap⟩ := (mem_occurrences hne).mp hleast.mem
    exact ⟨hunk, hhunk, window, hpart, hmap, hleast, hresolved⟩
  · intro hnone range hresolved
    rw [resolveIssueLines, snippetMatch_eq_none hparsed hnone] at hresolved
    split at hresolved
    next => contradiction
    next =>
      obtain ⟨number, hsnap, rfl⟩ := Option.map_eq_some_iff.mp hresolved
      obtain ⟨claimed, hclaimed, hsnapped⟩ := Option.bind_eq_some_iff.mp hsnap
      obtain ⟨hunk, hhunk, hnear, line, hline, hnumber, hdistance⟩ :=
        exists_of_snapClaimedLine hparsed hsnapped
      exact ⟨claimed, hclaimed, hunk, hhunk, hnear, line, hline, by rw [hnumber], hdistance⟩

def farSection : Text := "@@ -1 +3000000000 @@\n+x".toList

def swappedSection : Text := "@@ -1 +9 @@\n+x\n@@ -1 +1 @@\n+x".toList

/-- A number that an `i32` does not hold is capped, and a negative claim is none. -/
theorem far_line_capped : (resolveIssueLines ⟨some ['x'], none⟩ (parseHunks farSection) =
        some (2147483647, 2147483647) ∧
      ∀ hunk ∈ parseHunks farSection, ∀ newSide, ∀ line ∈ hunk.side newSide,
        line.number ≠ 2147483647) ∧
    (resolveIssueLines ⟨some ['x'], some (-1)⟩ (parseHunks swappedSection) = some (9, 9) ∧
      ∃ hunk ∈ parseHunks swappedSection, ∃ line ∈ hunk.side true,
        line.normalized = ['x'] ∧ line.number = 1) := by
  decide

/-! ## Does the line arithmetic stay in range?

The lines of a hunk are counted on from the numbers in its header, which may be any of 32
bits. A number that is returned is squeezed into a signed one.
-/

/-- The numbers that `extract_side_lines` adds one to. -/
def increments : Nat → Nat → List HunkLine → List Nat
  | _, _, [] => []
  | oldLine, newLine, line :: rest =>
    match line.kind with
    | .context => oldLine :: newLine :: increments (oldLine + 1) (newLine + 1) rest
    | .added => newLine :: increments oldLine (newLine + 1) rest
    | .deleted => oldLine :: increments (oldLine + 1) newLine rest

/-- The first and the last line of the new side, as `snap_claimed_line` compares them. -/
def Snappable (hunk : DiffHunk) (claimed : Nat) : Prop :=
  ∀ lo ∈ (hunk.side true).head?, ∀ hi ∈ (hunk.side true).getLast?,
    lo.number ≤ claimed + 2 → hi.number + 2 < 2 ^ 32

structure NoOverflow (target : ResolveTarget) (hunk : DiffHunk) : Prop where
  extract : ∀ number ∈ increments hunk.oldStart hunk.newStart hunk.lines, number + 1 < 2 ^ 32
  snap : ∀ claimed ∈ target.positiveClaim, claimed + 2 < 2 ^ 32 ∧ Snappable hunk claimed

structure HasRoom (target : ResolveTarget) (hunk : DiffHunk) : Prop where
  old : hunk.oldStart + hunk.lines.countP (onSide false) < 2 ^ 32
  new : hunk.newStart + hunk.lines.countP (onSide true) < 2 ^ 32
  snap : ∀ claimed ∈ target.positiveClaim, Snappable hunk claimed

theorem increments_lt_iff (lines : List HunkLine) {oldLine newLine : Nat}
    (hold : oldLine < 2 ^ 32) (hnew : newLine < 2 ^ 32) :
    (∀ number ∈ increments oldLine newLine lines, number + 1 < 2 ^ 32) ↔
      oldLine + lines.countP (onSide false) < 2 ^ 32 ∧
        newLine + lines.countP (onSide true) < 2 ^ 32 := by
  induction lines generalizing oldLine newLine with
  | nil => simpa [increments] using ⟨hold, hnew⟩
  | cons line rest ih =>
    obtain ⟨kind, content⟩ := line
    have hside : ∀ newSide, (⟨kind, content⟩ :: rest).countP (onSide newSide) =
        rest.countP (onSide newSide) + if onSide newSide ⟨kind, content⟩ then 1 else 0 :=
      fun newSide => List.countP_cons
    rw [hside, hside]
    cases kind with
    | context =>
      simp only [increments, List.forall_mem_cons, onSide]
      by_cases hfits : oldLine + 1 < 2 ^ 32 ∧ newLine + 1 < 2 ^ 32
      · rw [ih hfits.1 hfits.2]
        simp
        omega
      · simp
        omega
    | added =>
      simp only [increments, List.forall_mem_cons, onSide]
      by_cases hfits : newLine + 1 < 2 ^ 32
      · rw [ih hold hfits]
        simp
        omega
      · simp
        omega
    | deleted =>
      simp only [increments, List.forall_mem_cons, onSide]
      by_cases hfits : oldLine + 1 < 2 ^ 32
      · rw [ih hfits hnew]
        simp
        omega
      · simp
        omega

theorem noOverflow_iff {hunk : DiffHunk} (hparsed : hunk.Parsed)
    (hclaim : ∀ claimed ∈ target.positiveClaim, claimed < 2 ^ 31) :
    NoOverflow target hunk ↔ HasRoom target hunk := by
  have hextract := increments_lt_iff hunk.lines hparsed.oldStart_lt hparsed.newStart_lt
  constructor
  · rintro ⟨hadd, hsnap⟩
    exact ⟨(hextract.mp hadd).1, (hextract.mp hadd).2, fun claimed h => (hsnap claimed h).2⟩
  · rintro ⟨hold, hnew, hsnap⟩
    refine ⟨hextract.mpr ⟨hold, hnew⟩, fun claimed h => ⟨?_, hsnap claimed h⟩⟩
    have hsmall := hclaim claimed h
    omega

/-! ## The numbers that are returned -/

/-- The lines that a target is about: the nearest occurrence of its snippet, else the line in
reach that is nearest to its claim. -/
inductive Pointed (hunks : List DiffHunk) (target : ResolveTarget) : Nat × Nat → Prop
  | snippet {newSide : Bool} {hunk : DiffHunk} {window : List SideLine}
      (hne : target.targets ≠ [])
      (hfirst : newSide = false → occurrences hunks target.targets true = [])
      (hhunk : hunk ∈ hunks) (hpart : window <:+: hunk.side newSide)
      (hleast : IsFirstLeast (claimDistance target.positiveClaim)
        (occurrences hunks target.targets newSide) window) : Pointed hunks target (span window)
  | claim {claimed : Nat} {hunk : DiffHunk} {line : SideLine}
      (hnone : target.targets = [] ∨ ∀ newSide, occurrences hunks target.targets newSide = [])
      (hclaim : target.positiveClaim = some claimed)
      (hhunk : hunk ∈ hunks) (hline : line ∈ hunk.side true)
      (hleast : IsFirstLeast (fun line => absDiff line.lineNum claimed)
        (reachedLines claimed hunks) line.indexed) :
      Pointed hunks target (line.number, line.number)

structure NumbersKept (hunks : List DiffHunk) (target : ResolveTarget) : Prop where
  lines : ∀ range, resolveIssueLines target hunks = some range → ∃ lines, Pointed hunks target lines
  unchanged : ∀ lines, Pointed hunks target lines →
    resolveIssueLines target hunks = some ((lines.1 : Int), (lines.2 : Int))

theorem resolve_of_claim (hparsed : ∀ hunk ∈ hunks, hunk.Parsed) {claimed : Nat}
    (hnone : target.targets = [] ∨ ∀ newSide, occurrences hunks target.targets newSide = [])
    (hclaim : target.positiveClaim = some claimed) (hhunks : hunks ≠ []) :
    resolveIssueLines target hunks =
      (firstLeast (fun line : IndexedLine => absDiff line.lineNum claimed)
        (reachedLines claimed hunks)).map fun line => (toI32 line.lineNum, toI32 line.lineNum) := by
  rw [resolveIssueLines, if_neg hhunks, snippetMatch_eq_none hparsed hnone, hclaim]
  dsimp only
  rw [Option.bind_some, snapClaimedLine_eq, foldl_snapLine, Option.map_map, Option.map_map]
  rfl

theorem resolve_of_pointed (hparsed : ∀ hunk ∈ hunks, hunk.Parsed) {lines : Nat × Nat}
    (hpointed : Pointed hunks target lines) :
    resolveIssueLines target hunks = some (toI32 lines.1, toI32 lines.2) := by
  cases hpointed with
  | snippet hne hfirst hhunk hpart hleast =>
    obtain ⟨window, hother, hresolved⟩ :=
      resolve_of_occurs hparsed hne (List.ne_nil_of_mem hleast.mem) hfirst
    rw [hresolved, hother.unique hleast]
    rfl
  | claim hnone hclaim hhunk hline hleast =>
    rw [resolve_of_claim hparsed hnone hclaim (List.ne_nil_of_mem hhunk), hleast.firstLeast_eq]
    rfl

theorem exists_pointed (hparsed : ∀ hunk ∈ hunks, hunk.Parsed) {range : Int × Int}
    (hresolved : resolveIssueLines target hunks = some range) :
    ∃ lines, Pointed hunks target lines := by
  by_cases hnone : target.targets = [] ∨ ∀ newSide, occurrences hunks target.targets newSide = []
  · rw [resolveIssueLines, snippetMatch_eq_none hparsed hnone] at hresolved
    split at hresolved
    next => contradiction
    next =>
      obtain ⟨number, hsnap, -⟩ := Option.map_eq_some_iff.mp hresolved
      obtain ⟨claimed, hclaim, hsnapped⟩ := Option.bind_eq_some_iff.mp hsnap
      rw [snapClaimedLine_eq, foldl_snapLine, Option.map_map, Option.map_eq_some_iff] at hsnapped
      obtain ⟨found, hfound, -⟩ := hsnapped
      have hleast := isFirstLeast_firstLeast hfound
      obtain ⟨hunk, hhunk, hline⟩ := List.mem_flatMap.mp hleast.mem
      have hmem := List.mem_of_mem_filter hhunk
      rw [extractSideLines_eq (hparsed hunk hmem)] at hline
      obtain ⟨line, hside, rfl⟩ := List.mem_map.mp hline
      exact ⟨_, .claim hnone hclaim hmem hside hleast⟩
  · rw [not_or, not_forall] at hnone
    obtain ⟨hne, side, hside⟩ := hnone
    have hfound : ∃ newSide, occurrences hunks target.targets newSide ≠ [] ∧
        (newSide = false → occurrences hunks target.targets true = []) := by
      by_cases htrue : occurrences hunks target.targets true = []
      · cases side with
        | true => exact absurd htrue hside
        | false => exact ⟨false, hside, fun _ => htrue⟩
      · exact ⟨true, htrue, nofun⟩
    obtain ⟨newSide, hoccurs, hfirst⟩ := hfound
    obtain ⟨window, hleast, -⟩ := resolve_of_occurs hparsed hne hoccurs hfirst
    obtain ⟨hunk, hhunk, hpart, -⟩ := (mem_occurrences hne).mp hleast.mem
    exact ⟨_, .snippet hne hfirst hhunk hpart hleast⟩

theorem toI32_eq_iff {number : Nat} : toI32 number = number ↔ number < 2 ^ 31 := by
  unfold toI32
  split <;> omega

/-- No addition overflows exactly if both sides of every hunk have room, and the numbers are
kept exactly if those of the lines that the target is about are below `2 ^ 31`. -/
theorem line_arithmetic_iff (diffSection : Text) (target : ResolveTarget)
    (hclaim : ∀ claimed ∈ target.positiveClaim, claimed < 2 ^ 31) :
    ((∀ hunk ∈ parseHunks diffSection, NoOverflow target hunk) ↔
        ∀ hunk ∈ parseHunks diffSection, HasRoom target hunk) ∧
      (NumbersKept (parseHunks diffSection) target ↔
        ∀ lines, Pointed (parseHunks diffSection) target lines →
          lines.1 < 2 ^ 31 ∧ lines.2 < 2 ^ 31) := by
  have hparsed : ∀ hunk ∈ parseHunks diffSection, hunk.Parsed :=
    fun hunk hhunk => parsed_of_mem_parseHunks hhunk
  constructor
  · exact forall₂_congr fun hunk hhunk => noOverflow_iff (hparsed hunk hhunk) hclaim
  · have hkept : ∀ lines, Pointed (parseHunks diffSection) target lines →
        (resolveIssueLines target (parseHunks diffSection) =
            some ((lines.1 : Int), (lines.2 : Int)) ↔ lines.1 < 2 ^ 31 ∧ lines.2 < 2 ^ 31) := by
      intro lines hpointed
      rw [resolve_of_pointed hparsed hpointed, Option.some.injEq, Prod.mk.injEq, toI32_eq_iff,
        toI32_eq_iff]
    constructor
    · exact fun hnumbers lines hpointed => (hkept lines hpointed).mp
        (hnumbers.unchanged lines hpointed)
    · exact fun hsmall => ⟨fun _ hresolved => exists_pointed hparsed hresolved,
        fun lines hpointed => (hkept lines hpointed).mpr (hsmall lines hpointed)⟩

theorem line_arithmetic_iff_near : NoOverflow ⟨none, some 7⟩ ⟨1, 7, [⟨.added, "x"⟩]⟩ := by
  have hread : parseHunks "@@ -1 +7 @@\n+x" = [⟨1, 7, [⟨.added, "x"⟩]⟩] := by decide +kernel
  refine (line_arithmetic_iff "@@ -1 +7 @@\n+x" ⟨none, some 7⟩ (by decide)).1.mpr ?_ _
    (by rw [hread]; exact List.mem_singleton_self _)
  intro hunk hhunk
  rw [hread, List.mem_singleton] at hhunk
  subst hhunk
  refine ⟨by decide, by decide, ?_⟩
  rintro claimed - lo - hi ⟨⟩ -
  decide

end Difflore.Review
