import Difflore.Review.DiffSplit

/-! # What the splitter makes of a run of lines

Between two `diff --git` lines, the last `+++` line that names a path decides
where the section goes, and the first one where it begins.
-/

namespace Difflore.Review

open Foundation Text

def keyOf (ls : List Text) : Option Text := (ls.filterMap namedPath).getLast?

/-- The section of a run of lines: from the first line that names a path. -/
def bodyOf (ls : List Text) : List Text := ls.dropWhile fun line => (namedPath line).isNone

def pushSection (out : Sections) (ls : List Text) : Sections :=
  match keyOf ls with
  | none => out
  | some path => (path, unlines (bodyOf ls)) :: out

theorem namedPath_spec {line path : Text} (hnamed : namedPath line = some path) :
    "+++ " <+: line ∧ path ≠ [] ∧ path ≠ "/dev/null" ∧ trim path = path := by
  unfold namedPath at hnamed
  split at hnamed
  next => contradiction
  next rest hrest =>
    dsimp only at hnamed
    split at hnamed
    next hok =>
      obtain rfl := Option.some.inj hnamed
      have hplus : "+++ " <+: line := by
        by_contra hno
        rw [stripPrefix, if_neg hno] at hrest
        contradiction
      simp only [Bool.and_eq_true, decide_eq_true_eq] at hok
      exact ⟨hplus, hok.1, hok.2, trim_trim _⟩
    next => contradiction

theorem keyOf_cons_none {line : Text} (hline : namedPath line = none) (rest : List Text) :
    keyOf (line :: rest) = keyOf rest := by
  unfold keyOf
  rw [List.filterMap_cons_none hline]

theorem keyOf_cons_some {line path : Text} (hline : namedPath line = some path)
    (rest : List Text) : keyOf (line :: rest) = some ((keyOf rest).getD path) := by
  unfold keyOf
  rw [List.filterMap_cons_some hline]
  exact List.getLast?_cons

theorem keyOf_append (ls rest : List Text) : keyOf (ls ++ rest) = (keyOf rest).or (keyOf ls) := by
  unfold keyOf
  rw [List.filterMap_append, List.getLast?_append]

theorem keyOf_eq_none {ls : List Text} (hls : ∀ line ∈ ls, namedPath line = none) :
    keyOf ls = none := by
  unfold keyOf
  rw [List.filterMap_eq_nil_iff.mpr hls]
  rfl

theorem keyOf_mem {ls : List Text} {path : Text} (hkey : keyOf ls = some path) :
    ∃ line ∈ ls, namedPath line = some path :=
  List.mem_filterMap.mp (List.mem_of_getLast? hkey)

theorem bodyOf_ne_nil {ls : List Text} {path : Text} (hkey : keyOf ls = some path) :
    ∃ line rest, bodyOf ls = line :: rest ∧ (namedPath line).isSome = true := by
  obtain ⟨line, hmem, hnamed⟩ := keyOf_mem hkey
  cases hbody : bodyOf ls with
  | nil =>
    have hnone := List.dropWhile_eq_nil_iff.mp hbody line hmem
    rw [hnamed] at hnone
    contradiction
  | cons first rest =>
    have hhead := List.head?_dropWhile_not (fun line => (namedPath line).isNone) ls
    rw [bodyOf] at hbody
    rw [hbody] at hhead
    exact ⟨first, rest, rfl, by simpa [Option.isSome_iff_ne_none] using hhead⟩

section Step

variable {line path body : Text} {current : Option Text} {out : Sections}
  (hgit : isGitHeader line = false)

include hgit

theorem splitStep_named (hnamed : namedPath line = some path) :
    splitStep ⟨current, body, out⟩ line = ⟨some path, body ++ line ++ ['\n'], out⟩ := by
  simp [splitStep, hgit, hnamed, SplitState.push]

theorem splitStep_kept (hnamed : namedPath line = none) :
    splitStep ⟨some path, body, out⟩ line = ⟨some path, body ++ line ++ ['\n'], out⟩ := by
  simp [splitStep, hgit, hnamed, SplitState.push]

theorem splitStep_dropped (hnamed : namedPath line = none) :
    splitStep ⟨none, body, out⟩ line = ⟨none, body, out⟩ := by
  simp [splitStep, hgit, hnamed, SplitState.push]

end Step

section Scan

variable {ls : List Text} (hls : ∀ line ∈ ls, isGitHeader line = false)

include hls

theorem foldl_splitStep_some (path body : Text) (out : Sections) :
    ls.foldl splitStep ⟨some path, body, out⟩ =
      ⟨some ((keyOf ls).getD path), body ++ unlines ls, out⟩ := by
  induction ls generalizing path body with
  | nil => simp [keyOf, unlines]
  | cons line rest ih =>
    have hline := hls line (.head _)
    have hrest := fun l hl => hls l (.tail _ hl)
    rw [List.foldl_cons]
    cases hnamed : namedPath line with
    | some named =>
      rw [splitStep_named hline hnamed, ih hrest, keyOf_cons_some hnamed]
      simp [unlines]
    | none =>
      rw [splitStep_kept hline hnamed, ih hrest, keyOf_cons_none hnamed]
      simp [unlines]

theorem foldl_splitStep_none (out : Sections) : ls.foldl splitStep ⟨none, [], out⟩ =
      ⟨keyOf ls, unlines (bodyOf ls), out⟩ := by
  induction ls with
  | nil => rfl
  | cons line rest ih =>
    have hline := hls line (.head _)
    have hrest := fun l hl => hls l (.tail _ hl)
    rw [List.foldl_cons]
    unfold bodyOf
    cases hnamed : namedPath line with
    | some named =>
      rw [splitStep_named hline hnamed, foldl_splitStep_some hrest, keyOf_cons_some hnamed,
        List.dropWhile_cons_of_neg (by simp [hnamed])]
      simp [unlines]
    | none =>
      rw [splitStep_dropped hline hnamed, keyOf_cons_none hnamed,
        List.dropWhile_cons_of_pos (by simp [hnamed])]
      exact ih hrest

theorem flush_foldl_splitStep (out : Sections) :
    (ls.foldl splitStep ⟨none, [], out⟩).flush.out = pushSection out ls := by
  rw [foldl_splitStep_none hls]
  unfold SplitState.flush pushSection
  cases hkey : keyOf ls with
  | none => rfl
  | some path =>
    obtain ⟨line, rest, hbody, hnamed⟩ := bodyOf_ne_nil hkey
    obtain ⟨named, hnamed⟩ := Option.isSome_iff_exists.mp hnamed
    have hplus : '+' ∈ unlines (bodyOf ls) := by
      have hline : '+' ∈ line := (namedPath_spec hnamed).1.subset (by decide)
      rw [hbody]
      exact List.mem_append_left _ (List.mem_append_left _ hline)
    dsimp only
    rw [if_neg (trim_ne_nil_of_mem hplus (by decide))]

end Scan

/-- A diff of chunks that each begin with a `diff --git` line gives one section
a chunk. -/
theorem flush_foldl_chunks (chunks : List (Text × List Text))
    (hheader : ∀ chunk ∈ chunks, isGitHeader chunk.1 = true)
    (hrest : ∀ chunk ∈ chunks, ∀ line ∈ chunk.2, isGitHeader line = false) (state : SplitState) :
    ((chunks.flatMap fun chunk => chunk.1 :: chunk.2).foldl splitStep state).flush.out =
      (chunks.map Prod.snd).foldl pushSection state.flush.out := by
  induction chunks generalizing state with
  | nil => rfl
  | cons chunk others ih =>
    rw [List.flatMap_cons, List.foldl_append, List.foldl_cons,
      ih (fun c hc => hheader c (.tail _ hc))
        (fun c hc => hrest c (.tail _ hc))]
    have hopen : splitStep state chunk.1 = ⟨none, [], state.flush.out⟩ := by
      rw [splitStep, if_pos (hheader chunk (.head _))]
    rw [hopen, flush_foldl_splitStep (hrest chunk (.head _))]
    rfl

section Lookup

variable {chunks : List (List Text)} {out : Sections} {path : Text}

theorem lookup_foldl_pushSection {found : Text}
    (hfound : (chunks.foldl pushSection out).lookup path = some found) :
    out.lookup path = some found ∨
      ∃ chunk ∈ chunks, keyOf chunk = some path ∧ found = unlines (bodyOf chunk) := by
  induction chunks generalizing out with
  | nil => exact .inl hfound
  | cons chunk others ih =>
    rcases ih hfound with hout | ⟨other, hother, hkey⟩
    · unfold pushSection at hout
      split at hout
      next => exact .inl hout
      next key hkey =>
        rw [List.lookup_cons] at hout
        split at hout
        next heq =>
          obtain rfl := eq_of_beq heq
          exact .inr ⟨chunk, .head _, hkey, (Option.some.inj hout).symm⟩
        next => exact .inl hout
    · exact .inr ⟨other, .tail _ hother, hkey⟩

theorem lookup_pushSection_nil {ls : List Text} {found : Text} :
    (pushSection [] ls).lookup path = some found ↔
      keyOf ls = some path ∧ found = unlines (bodyOf ls) := by
  unfold pushSection
  cases keyOf ls with
  | none => simp
  | some key =>
    rw [List.lookup_cons, List.lookup_nil]
    by_cases heq : path = key
    · subst heq
      simp [eq_comm]
    · simp [beq_false_of_ne heq, Ne.symm heq]

theorem lookup_foldl_pushSection_isSome
    (hchunk : (out.lookup path).isSome = true ∨ ∃ chunk ∈ chunks, keyOf chunk = some path) :
    ((chunks.foldl pushSection out).lookup path).isSome = true := by
  induction chunks generalizing out with
  | nil => exact hchunk.elim id (by simp)
  | cons chunk others ih =>
    apply ih
    rcases hchunk with hout | ⟨other, hother, hkey⟩
    · left
      unfold pushSection
      split
      next => exact hout
      next =>
        rw [List.lookup_cons]
        split
        next => rfl
        next => exact hout
    · rcases List.mem_cons.mp hother with rfl | hother
      · left
        simp [pushSection, hkey]
      · exact .inr ⟨other, hother, hkey⟩

end Lookup

theorem isHunkHeader_stripCr (line : Text) : isHunkHeader (stripCr line) = isHunkHeader line := by
  rw [Bool.eq_iff_iff, isHunkHeader, isHunkHeader, List.isPrefixOf_iff_prefix,
    List.isPrefixOf_iff_prefix]
  exact prefix_stripCr_iff (by decide)

theorem isGitHeader_stripCr (line : Text) : isGitHeader (stripCr line) = isGitHeader line := by
  rw [Bool.eq_iff_iff, isGitHeader, isGitHeader, List.isPrefixOf_iff_prefix,
    List.isPrefixOf_iff_prefix]
  exact prefix_stripCr_iff (by decide)

theorem parseHunks_unlines_append {pre hunks : List Text} (hpre : ∀ line ∈ pre, '\n' ∉ line)
    (hhunks : ∀ line ∈ hunks, '\n' ∉ line) (hno : ∀ line ∈ pre, isHunkHeader line = false) :
    parseHunks (unlines (pre ++ hunks)) = parseHunks (unlines hunks) := by
  have hskip : ∀ rest : List Text, parseHunkLines [] none (pre.map stripCr ++ rest) =
      parseHunkLines [] none rest := by
    intro rest
    clear hpre
    induction pre with
    | nil => rfl
    | cons line others ih =>
      rw [List.map_cons, List.cons_append, parseHunkLines]
      rw [if_neg (by simp [isHunkHeader_stripCr, hno line])]
      exact ih fun l hl => hno l (.tail _ hl)
  unfold parseHunks
  rw [lines_unlines hhunks, lines_unlines (by simp_all [or_imp]), List.map_append, hskip]

end Difflore.Review
