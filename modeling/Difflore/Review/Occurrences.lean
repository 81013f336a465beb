import Difflore.Review.DiffSplit

/-! # The lines of one side of a hunk

Each line of a side has the number of its place in that file. The search of the resolver goes
over the windows of the sides, and its numbers are those of the lines.
-/

namespace Difflore.Review

open Foundation Text

variable {newSide : Bool} {hunk : DiffHunk} {hunks : List DiffHunk}

/-- A line of a side, with its number in that file, as 32 bits hold it. -/
structure SideLine where
  number : Nat
  line : HunkLine

def onSide (newSide : Bool) (line : HunkLine) : Bool :=
  decide (line.kind ≠ if newSide then .deleted else .added)

def DiffHunk.sideStart (hunk : DiffHunk) (newSide : Bool) : Nat :=
  if newSide then hunk.newStart else hunk.oldStart

def DiffHunk.side (hunk : DiffHunk) (newSide : Bool) : List SideLine :=
  ((hunk.lines.filter (onSide newSide)).zipIdx (hunk.sideStart newSide)).map
    fun (line, number) => ⟨number % 2 ^ 32, line⟩

def SideLine.normalized (line : SideLine) : Text := normalizeLine line.line.content

def SideLine.indexed (line : SideLine) : IndexedLine := ⟨line.number, line.normalized⟩

theorem sideLinesFrom_eq (newSide : Bool) (lines : List HunkLine) (oldLine newLine : Nat) :
    sideLinesFrom newSide (oldLine % 2 ^ 32) (newLine % 2 ^ 32) lines =
      ((lines.filter (onSide newSide)).zipIdx (if newSide then newLine else oldLine)).map
        fun (line, number) => SideLine.indexed ⟨number % 2 ^ 32, line⟩ := by
  have hstep : ∀ number, addU32 (number % 2 ^ 32) 1 = (number + 1) % 2 ^ 32 := by
    intro number
    rw [addU32, Nat.mod_add_mod]
  induction lines generalizing oldLine newLine with
  | nil => rfl
  | cons line rest ih =>
    obtain ⟨kind, content⟩ := line
    rw [sideLinesFrom]
    cases kind with
    | context =>
      dsimp only
      rw [hstep, hstep, ih, List.filter_cons_of_pos (by cases newSide <;> simp [onSide]),
        List.zipIdx_cons, List.map_cons]
      cases newSide <;> rfl
    | added =>
      dsimp only
      rw [hstep, ih]
      cases newSide with
      | true =>
        rw [List.filter_cons_of_pos (by simp [onSide]), List.zipIdx_cons, List.map_cons]
        rfl
      | false =>
        rw [List.filter_cons_of_neg (by simp [onSide])]
        rfl
    | deleted =>
      dsimp only
      rw [hstep, ih]
      cases newSide with
      | true =>
        rw [List.filter_cons_of_neg (by simp [onSide])]
        rfl
      | false =>
        rw [List.filter_cons_of_pos (by simp [onSide]), List.zipIdx_cons, List.map_cons]
        rfl

structure DiffHunk.Parsed (hunk : DiffHunk) : Prop where
  oldStart_lt : hunk.oldStart < 2 ^ 32
  newStart_lt : hunk.newStart < 2 ^ 32
  oneLine : ∀ line ∈ hunk.lines, '\n' ∉ line.content

theorem DiffHunk.Parsed.sideStart_lt (hparsed : hunk.Parsed) (newSide : Bool) :
    hunk.sideStart newSide < 2 ^ 32 := by
  cases newSide with
  | true => exact hparsed.newStart_lt
  | false => exact hparsed.oldStart_lt

theorem extractSideLines_eq (hparsed : hunk.Parsed) (newSide : Bool) :
    extractSideLines hunk newSide = (hunk.side newSide).map SideLine.indexed := by
  have hlines := sideLinesFrom_eq newSide hunk.lines hunk.oldStart hunk.newStart
  rw [Nat.mod_eq_of_lt hparsed.oldStart_lt, Nat.mod_eq_of_lt hparsed.newStart_lt] at hlines
  rw [extractSideLines, hlines, DiffHunk.side, List.map_map]
  rfl

theorem parseU32_lt {s : Text} {number : Nat} (hparse : parseU32 s = some number) :
    number < 2 ^ 32 := by
  unfold parseU32 at hparse
  dsimp only at hparse
  split at hparse
  next hvalid =>
    rw [← Option.some.inj hparse]
    rw [Bool.and_eq_true, decide_eq_true_eq] at hvalid
    exact hvalid.2
  next => contradiction

theorem parsed_of_parseHunkHeader {header : Text} (hparse : parseHunkHeader header = some hunk) :
    hunk.Parsed := by
  unfold parseHunkHeader at hparse
  obtain ⟨inner, _, hparse⟩ := Option.bind_eq_some_iff.mp hparse
  obtain ⟨spec, _, hparse⟩ := Option.bind_eq_some_iff.mp hparse
  split at hparse
  next oldPart newPart rest _ =>
    obtain ⟨old, _, hparse⟩ := Option.bind_eq_some_iff.mp hparse
    obtain ⟨new, _, hparse⟩ := Option.bind_eq_some_iff.mp hparse
    obtain ⟨oldStart, hold, hparse⟩ := Option.bind_eq_some_iff.mp hparse
    obtain ⟨newStart, hnew, hparse⟩ := Option.bind_eq_some_iff.mp hparse
    obtain rfl := Option.some.inj hparse
    exact ⟨parseU32_lt hold, parseU32_lt hnew, by simp⟩
  next => contradiction

theorem newline_not_mem_parseHunkLine {raw : Text} {line : HunkLine} (hraw : '\n' ∉ raw)
    (hparse : parseHunkLine raw = some line) : '\n' ∉ line.content := by
  unfold parseHunkLine at hparse
  split at hparse
  case h_1 =>
    obtain rfl := Option.some.inj hparse
    exact List.not_mem_nil
  case h_5 => contradiction
  all_goals
    obtain rfl := Option.some.inj hparse
    exact fun hmem => hraw (.tail _ hmem)

theorem parsed_of_mem_parseHunkLines {current : Option DiffHunk} {lines : List Text}
    (hhunks : ∀ hunk ∈ hunks, hunk.Parsed) (hcurrent : ∀ hunk ∈ current, hunk.Parsed)
    (hlines : ∀ line ∈ lines, '\n' ∉ line) (hmem : hunk ∈ parseHunkLines hunks current lines) :
    hunk.Parsed := by
  have hclosed : ∀ hunk ∈ hunks ++ current.toList, hunk.Parsed := by
    intro hunk hhunk
    rcases List.mem_append.mp hhunk with hold | hlast
    · exact hhunks hunk hold
    · exact hcurrent hunk (Option.mem_toList.mp hlast)
  induction lines generalizing hunks current with
  | nil => exact hclosed hunk hmem
  | cons raw rest ih =>
    have hrest : ∀ line ∈ rest, '\n' ∉ line := fun line hline =>
      hlines line (.tail _ hline)
    have hraw := newline_not_mem_stripCr (hlines raw (.head _))
    rw [parseHunkLines] at hmem
    split at hmem
    next =>
      have hopened : ∀ hunk ∈ parseHunkHeader (stripCr raw), hunk.Parsed :=
        fun hunk hparse => parsed_of_parseHunkHeader hparse
      refine ih hclosed hopened hrest hmem ?_
      intro hunk hhunk
      rcases List.mem_append.mp hhunk with hold | hlast
      · exact hclosed hunk hold
      · exact hopened hunk (Option.mem_toList.mp hlast)
    next =>
      have hgrown : ∀ hunk ∈ current.map fun hunk : DiffHunk =>
          { hunk with lines := hunk.lines ++ (parseHunkLine (stripCr raw)).toList },
          hunk.Parsed := by
        intro grown hgrown
        obtain ⟨before, hbefore, rfl⟩ := Option.map_eq_some_iff.mp hgrown
        have hparsed := hcurrent before hbefore
        refine ⟨hparsed.oldStart_lt, hparsed.newStart_lt, ?_⟩
        intro line hline
        rcases List.mem_append.mp hline with hold | hnew
        · exact hparsed.oneLine line hold
        · exact newline_not_mem_parseHunkLine hraw (Option.mem_toList.mp hnew)
      refine ih hhunks hgrown hrest hmem ?_
      intro hunk hhunk
      rcases List.mem_append.mp hhunk with hold | hlast
      · exact hhunks hunk hold
      · exact hgrown hunk (Option.mem_toList.mp hlast)

theorem parsed_of_mem_parseHunks {diffSection : Text} (hmem : hunk ∈ parseHunks diffSection) :
    hunk.Parsed :=
  parsed_of_mem_parseHunkLines (by simp) (by simp)
    (fun _ hline => newline_not_mem_lines hline) hmem

/-! ## Where a snippet occurs

The search over the hunks of a section finds the occurrence that starts nearest to the claimed
line, the first of several; if no snippet occurs, a claim is moved to the nearest line.
-/

/-- The windows of one side that equal the targets, over the hunks in order. -/
def occurrences (hunks : List DiffHunk) (targets : List Text) (newSide : Bool) :
    List (List SideLine) :=
  hunks.flatMap fun hunk => matchingWindows SideLine.normalized targets (hunk.side newSide)

def span (window : List SideLine) : Nat × Nat :=
  ((window.head?.map SideLine.number).getD 0, (window.getLast?.map SideLine.number).getD 0)

/-- How far an occurrence starts from the claimed line, if one is claimed. -/
def claimDistance (claim : Option Nat) (window : List SideLine) : Nat :=
  claim.elim 0 (absDiff (span window).1)

def ResolveTarget.targets (target : ResolveTarget) : List Text :=
  (target.snippet.map splitAndNormalize).getD []

theorem mem_occurrences {targets : List Text} (hne : targets ≠ []) {window : List SideLine} :
    window ∈ occurrences hunks targets newSide ↔
      ∃ hunk ∈ hunks, window <:+: hunk.side newSide ∧ window.map SideLine.normalized = targets := by
  unfold occurrences
  rw [List.mem_flatMap]
  constructor
  · rintro ⟨hunk, hhunk, hmem⟩
    exact ⟨hunk, hhunk, (mem_matchingWindows hne).mp hmem⟩
  · rintro ⟨hunk, hhunk, hmem⟩
    exact ⟨hunk, hhunk, (mem_matchingWindows hne).mpr hmem⟩

/-! ## The search -/

def rangeDistance (claim : Option Nat) (range : Nat × Nat) : Nat := claim.elim 0 (absDiff range.1)

theorem nearer_eq (claimed : Nat) : nearer claimed = lesser (rangeDistance (some claimed)) := by
  funext best candidate
  cases best with
  | none => rfl
  | some prev => rfl

theorem foldl_nearer (claimed : Nat) (found : List (Nat × Nat)) :
    found.foldl (fun best candidate => some (nearer claimed best candidate)) none =
      firstLeast (rangeDistance (some claimed)) found := by
  rw [nearer_eq]
  rfl

theorem consecutiveMatches_eq {targets : List Text} (hne : targets ≠ []) (side : List SideLine) :
    consecutiveMatches targets (side.map SideLine.indexed) =
      (matchingWindows SideLine.normalized targets side).map span := by
  induction side with
  | nil => rfl
  | cons first rest ih =>
    rw [List.map_cons, consecutiveMatches, matchingWindows, ih, ← List.map_cons,
      ← List.map_take, List.map_map]
    have hcontent : IndexedLine.content ∘ SideLine.indexed = SideLine.normalized := rfl
    rw [hcontent]
    split
    next hmap =>
      -- The window starts with the first line, since there is a target.
      obtain ⟨target, others, rfl⟩ := List.exists_cons_of_ne_nil hne
      rw [List.map_cons, List.length_cons, List.take_succ_cons, List.map_cons, List.getLastD_cons]
      unfold span
      rw [List.head?_cons, List.getLast?_cons]
      simp only [Option.map_some, Option.getD_some]
      rw [List.getLastD_eq_getLast?, List.getLast?_map]
      cases (rest.take others.length).getLast? <;> rfl
    next => rfl

theorem matchConsecutive_eq {targets : List Text} (hne : targets ≠ []) (side : List SideLine)
    (claim : Option Nat) :
    matchConsecutive (side.map SideLine.indexed) targets claim = firstLeast (rangeDistance claim)
        ((matchingWindows SideLine.normalized targets side).map span) := by
  rw [matchConsecutive, if_neg hne, consecutiveMatches_eq hne]
  cases claim with
  | none => exact (firstLeast_zero _).symm
  | some claimed => exact foldl_nearer claimed _

theorem matchSide_eq (hparsed : ∀ hunk ∈ hunks, hunk.Parsed) {targets : List Text}
    (hne : targets ≠ []) (claim : Option Nat) (newSide : Bool) :
    matchSide hunks targets claim newSide = firstLeast (rangeDistance claim) ((hunks.map fun hunk =>
        (matchingWindows SideLine.normalized targets (hunk.side newSide)).map span).filterMap
          (firstLeast (rangeDistance claim))) := by
  have hfound : (hunks.filterMap fun hunk =>
      matchConsecutive (extractSideLines hunk newSide) targets claim) =
      (hunks.map fun hunk =>
        (matchingWindows SideLine.normalized targets (hunk.side newSide)).map span).filterMap
          (firstLeast (rangeDistance claim)) := by
    rw [List.filterMap_map]
    apply List.filterMap_congr
    intro hunk hhunk
    rw [extractSideLines_eq (hparsed hunk hhunk), matchConsecutive_eq hne]
    rfl
  unfold matchSide
  rw [hfound]
  cases claim with
  | none => exact (firstLeast_zero _).symm
  | some claimed => exact foldl_nearer claimed _

theorem map_span_occurrences (hunks : List DiffHunk) (targets : List Text) (newSide : Bool) :
    (hunks.map fun hunk =>
      (matchingWindows SideLine.normalized targets (hunk.side newSide)).map span).flatten =
      (occurrences hunks targets newSide).map span := by
  rw [occurrences, List.flatMap_def, List.map_flatten, List.map_map]
  rfl

theorem matchSide_eq_none (hparsed : ∀ hunk ∈ hunks, hunk.Parsed) {targets : List Text}
    (hne : targets ≠ []) {claim : Option Nat} :
    matchSide hunks targets claim newSide = none ↔ occurrences hunks targets newSide = [] := by
  rw [matchSide_eq hparsed hne, firstLeast_filterMap_eq_none, map_span_occurrences,
    List.map_eq_nil_iff]

theorem matchSide_eq_some (hparsed : ∀ hunk ∈ hunks, hunk.Parsed) {targets : List Text}
    (hne : targets ≠ []) {claim : Option Nat} {range : Nat × Nat}
    (hfound : matchSide hunks targets claim newSide = some range) :
    ∃ window, span window = range ∧
      IsFirstLeast (claimDistance claim) (occurrences hunks targets newSide) window := by
  rw [matchSide_eq hparsed hne] at hfound
  have hleast := isFirstLeast_flatMap hfound
  rw [map_span_occurrences] at hleast
  exact hleast.of_map

/-- The hunk spans the claimed line on its new side, give or take two lines. -/
def DiffHunk.NearClaim (hunk : DiffHunk) (claimed : Nat) : Prop :=
  ∃ lo ∈ (hunk.side true).head?, ∃ hi ∈ (hunk.side true).getLast?,
    lo.number ≤ claimed + 2 ∧ claimed ≤ hi.number + 2

def snapLine (claimed : Nat) (best : Option (Nat × Nat)) (line : IndexedLine) :
    Option (Nat × Nat) :=
  if best.all (absDiff line.lineNum claimed < ·.1) then
    some (absDiff line.lineNum claimed, line.lineNum)
  else best

def inReach (claimed : Nat) (hunk : DiffHunk) : Bool :=
  match (extractSideLines hunk true).head?, (extractSideLines hunk true).getLast? with
  | some lo, some hi =>
    !(addU32 claimed 2 < lo.lineNum || addU32 hi.lineNum 2 < claimed)
  | _, _ => false

def reachedLines (claimed : Nat) (hunks : List DiffHunk) : List IndexedLine :=
  (hunks.filter (inReach claimed)).flatMap (extractSideLines · true)

theorem snapClaimedLine_eq (claimed : Nat) (hunks : List DiffHunk) : snapClaimedLine claimed hunks =
      ((reachedLines claimed hunks).foldl (snapLine claimed) none).map fun found =>
        toI32 found.2 := by
  unfold snapClaimedLine
  dsimp only
  generalize (none : Option (Nat × Nat)) = best
  congr 1
  induction hunks generalizing best with
  | nil => rfl
  | cons hunk rest ih =>
    rw [List.foldl_cons]
    unfold reachedLines
    rw [ih]
    cases hlo : (extractSideLines hunk true).head? with
    | none =>
      have hreach : inReach claimed hunk = false := by simp only [inReach, hlo]
      exact congrArg _ (by rw [reachedLines, List.filter_cons_of_neg (by rw [hreach]; decide)])
    | some lo =>
      cases hhi : (extractSideLines hunk true).getLast? with
      | none =>
        have hreach : inReach claimed hunk = false := by simp only [inReach, hlo, hhi]
        exact congrArg _
          (by rw [reachedLines, List.filter_cons_of_neg (by rw [hreach]; decide)])
      | some hi =>
        have hreach : inReach claimed hunk =
            !(addU32 claimed 2 < lo.lineNum || addU32 hi.lineNum 2 < claimed) := by
          simp only [inReach, hlo, hhi]
        cases hfar : (addU32 claimed 2 < lo.lineNum ||
            addU32 hi.lineNum 2 < claimed : Bool) with
        | true =>
          rw [List.filter_cons_of_neg (by rw [hreach, hfar]; decide)]
          simp only [hfar, if_true]
          rfl
        | false =>
          rw [List.filter_cons_of_pos (by rw [hreach, hfar]; rfl), List.flatMap_cons,
            List.foldl_append]
          simp only [hfar, Bool.false_eq_true, if_false]
          rfl

theorem foldl_snapLine (claimed : Nat) (lines : List IndexedLine) :
    lines.foldl (snapLine claimed) none =
      (firstLeast (fun line => absDiff line.lineNum claimed) lines).map fun line =>
        (absDiff line.lineNum claimed, line.lineNum) := by
  induction lines using List.reverseRecOn with
  | nil => rfl
  | append_singleton lines last ih =>
    rw [List.foldl_concat, ih, firstLeast_concat]
    cases firstLeast (fun line : IndexedLine => absDiff line.lineNum claimed) lines with
    | none => rfl
    | some best =>
      unfold snapLine lesser
      simp only [Option.map_some, Option.all_some, decide_eq_true_eq]
      split
      next => rfl
      next => rfl

end Difflore.Review
