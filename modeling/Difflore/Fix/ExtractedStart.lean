import Difflore.Fix.ExtractedDiff

/-! # Where the extracted text starts

The extracted text stands in the response behind white space, an opening fence and a preamble, and
only white space and fences follow it. It occurs nowhere else at the start of a line.
-/

namespace Difflore.Fix

open Foundation Text

variable {front back rest line : Text}

def isClosing (c : Char) : Bool := isWhitespace c || c = '`'

structure Cut (raw lead opening before text dropped : Text) : Prop where
  eq : raw = lead ++ (opening ++ (before ++ (text ++ dropped)))
  lead_blank : ∀ c ∈ lead, isWhitespace c = true
  opening_line : opening = [] ∨ ∃ line, opening = '`' :: (line ++ ['\n']) ∧ '\n' ∉ line
  first : FirstAt fileMarker before (text ++ dropped)
  dash : ['-'] <+: text
  dropped_closing : ∀ c ∈ dropped, isClosing c = true

theorem append_cases {left right : Text} (hsplit : front ++ back = left ++ right) :
    (∃ more, left = front ++ more ∧ back = more ++ right) ∨
      ∃ more, more ≠ [] ∧ front = left ++ more ∧ right = more ++ back := by
  rcases List.append_eq_append_iff.mp hsplit with ⟨more, hleft, hback⟩ | ⟨more, hfront, hright⟩
  · exact .inl ⟨more, hleft, hback⟩
  · cases more with
    | nil => exact .inl ⟨[], by simpa using hfront.symm, by simpa using hright.symm⟩
    | cons c more => exact .inr ⟨c :: more, List.cons_ne_nil _ _, hfront, hright⟩

namespace Cut

variable {raw lead opening before text dropped : Text}

section

variable (hcut : Cut raw lead opening before text dropped)
include hcut

theorem not_start_in_lead (hlead : lead = front ++ back) (hback : back ≠ []) (rest : Text) :
    ¬ fileMarker <+: back ++ rest := by
  rintro ⟨more, hmore⟩
  obtain ⟨c, back, rfl⟩ := List.exists_cons_of_ne_nil hback
  obtain rfl : '-' = c := (List.cons.inj hmore).1
  have hblank := hcut.lead_blank '-' (by simp [hlead])
  exact absurd hblank (by decide)

theorem not_start_in_opening (hopening : opening = front ++ back) (hback : back ≠ []) (rest : Text)
    (hstart : AtLineStart (lead ++ front)) : ¬ fileMarker <+: back ++ rest := by
  rcases hcut.opening_line with rfl | ⟨line, rfl, hline⟩
  · exact absurd (List.append_eq_nil_iff.mp hopening.symm).2 hback
  · cases front with
    | nil =>
      rintro ⟨more, hmore⟩
      rw [List.nil_append] at hopening
      rw [← hopening] at hmore
      exact absurd (List.cons.inj hmore).1 (by decide)
    | cons c front =>
      -- a later start would need a line feed inside the line
      obtain ⟨init, last, rfl⟩ := (List.eq_nil_or_concat back).resolve_left hback
      have hwhole : ('`' :: line) ++ ['\n'] = (c :: (front ++ init)) ++ [last] := by
        simpa using hopening
      obtain ⟨hline', -⟩ := List.append_inj' hwhole rfl
      have hfeed : '\n' ∈ c :: (front ++ init) := by
        rcases hstart with hnil | ⟨start, hstart⟩
        · simp at hnil
        · have hlast := congrArg List.getLast? hstart
          rw [List.getLast?_concat, List.getLast?_append_of_ne_nil _ (List.cons_ne_nil _ _)]
            at hlast
          have hmem := List.mem_of_getLast? hlast.symm
          rw [← List.cons_append]
          exact List.mem_append_left _ hmem
      rw [← hline', List.mem_cons] at hfeed
      rcases hfeed with hquote | hin
      · exact absurd hquote (by decide)
      · exact absurd hin hline

theorem start_eq (hraw : raw = front ++ rest)
    (hstart : AtLineStart front) (hmarker : fileMarker <+: rest) (htext : text <+: rest) :
    front = lead ++ (opening ++ before) := by
  have hsplit := hcut.eq.symm.trans hraw
  rcases append_cases hsplit with ⟨front, rfl, hblock⟩ | ⟨back, hback, hlead, hrest⟩
  · rcases append_cases hblock with ⟨front, rfl, hbody⟩ | ⟨back, hback, hopening, hrest⟩
    · rcases append_cases hbody with ⟨front, rfl, hfrom⟩ | ⟨back, hback, hbefore, hrest⟩
      · obtain ⟨more, rfl⟩ := htext
        -- what is dropped holds nothing of the text, so nothing may be skipped
        have hcount := congrArg (List.countP (!isClosing ·)) hfrom
        have hdropped : dropped.countP (!isClosing ·) = 0 := by
          rw [List.countP_eq_zero]
          intro c hc
          simp [hcut.dropped_closing c hc]
        simp only [List.countP_append, hdropped] at hcount
        cases front with
        | nil => rw [List.append_nil]
        | cons c front =>
          obtain ⟨tail, rfl⟩ := hcut.dash
          obtain rfl : '-' = c := (List.cons.inj hfrom).1
          have hdash : isClosing '-' = false := by decide
          rw [List.countP_cons_of_pos (by simp [hdash])] at hcount
          omega
      · rw [hrest] at hmarker
        exact absurd hmarker (hcut.first.2 front back hbefore hback)
    · rw [hrest] at hmarker
      exact absurd hmarker (hcut.not_start_in_opening hopening hback _ hstart)
  · rw [hrest] at hmarker
    exact absurd hmarker (hcut.not_start_in_lead hlead hback _)

theorem lineStart_iff (hmarker : fileMarker <+: text ++ dropped) :
    (∃ front rest, raw = front ++ rest ∧ AtLineStart front ∧ fileMarker <+: rest ∧
        text <+: rest) ↔ AtLineStart (lead ++ (opening ++ before)) := by
  constructor
  · rintro ⟨front, rest, hraw, hstart, hrest, htext⟩
    rw [← hcut.start_eq hraw hstart hrest htext]
    exact hstart
  · intro hstart
    refine ⟨lead ++ (opening ++ before), text ++ dropped, ?_, hstart, hmarker,
      List.prefix_append _ _⟩
    rw [hcut.eq]
    simp only [List.append_assoc]

end

end Cut

/-! ## The parts of a response -/

theorem isClosing_of_blank {blank : Text} (hblank : ∀ c ∈ blank, isWhitespace c = true) :
    ∀ c ∈ blank, isClosing c = true := by
  intro c hc
  simp [isClosing, hblank c hc]

theorem isClosing_of_isBareFence (hbare : isBareFence line = true) :
    ∀ c ∈ line, isClosing c = true := by
  intro c hc
  by_cases hblank : isWhitespace c = true
  · simp [isClosing, hblank]
  · have hin := mem_trim_of_mem hc (by simpa using hblank)
    rw [of_decide_eq_true hbare] at hin
    have hquotes : fence.all isClosing = true := by decide
    exact List.all_eq_true.mp hquotes c hin

theorem trimEnd_split (s : Text) :
    ∃ blank, s = trimEnd s ++ blank ∧ ∀ c ∈ blank, isWhitespace c = true :=
  ⟨s.rtakeWhile isWhitespace, List.rdropWhile_append_rtakeWhile.symm,
    fun _ hc => List.mem_rtakeWhile_imp hc⟩

theorem getLast_trimEnd (s : Text) : ∀ c ∈ (trimEnd s).getLast?, isWhitespace c = false := by
  intro c hc
  have hne : trimEnd s ≠ [] := by
    intro hnil
    rw [hnil] at hc
    contradiction
  have hlast := List.rdropWhile_last_not isWhitespace s hne
  rw [List.getLast?_eq_some_getLast hne] at hc
  obtain rfl := Option.some.inj hc
  exact Bool.eq_false_iff.mpr hlast

theorem stripLastFence_split {s : Text} (hend : ∀ c ∈ s.getLast?, isWhitespace c = false) :
    ∃ dropped, s = stripLastFence s ++ dropped ∧ (∀ c ∈ dropped, isClosing c = true) ∧
      ∀ c ∈ (stripLastFence s).getLast?, isWhitespace c = false := by
  unfold stripLastFence
  split
  next hfence =>
    rcases last_line_cases s with hs | ⟨front, last, rfl, hlast⟩
    · have hsome : s ≠ [] := by
        rintro rfl
        exact absurd hfence (by decide)
      rw [beforeLastLine_of_newline_not_mem hs]
      have hlines : Text.lines s = [s] := linesFrom_of_newline_not_mem hs (.inl hsome)
      rw [hlines, List.getLast?_singleton, Option.any_some] at hfence
      exact ⟨s, rfl, isClosing_of_isBareFence hfence, by simp [trimEnd]⟩
    · have hsome : last ≠ [] := by
        rintro rfl
        have hnewline := hend '\n' (by simp)
        exact absurd hnewline (by decide)
      rw [Text.getLast?_lines_append front hlast hsome, Option.any_some] at hfence
      rw [beforeLastLine_append front hlast]
      obtain ⟨blank, hsplit, hblank⟩ := trimEnd_split front
      refine ⟨blank ++ '\n' :: last, ?_, ?_, getLast_trimEnd front⟩
      · rw [← List.append_assoc, ← hsplit]
      · intro c hc
        rw [List.mem_append, List.mem_cons] at hc
        rcases hc with hin | rfl | hin
        · exact isClosing_of_blank hblank c hin
        · decide
        · exact isClosing_of_isBareFence hfence c hin
  next => exact ⟨[], (List.append_nil s).symm, by simp, hend⟩

theorem stripSuffix_eq_some {suffix s : Text} (hfront : stripSuffix suffix s = some front) :
    s = front ++ suffix := by
  rw [stripSuffix] at hfront
  obtain ⟨hsuffix, htake⟩ := Option.ite_none_right_eq_some.mp hfront
  obtain ⟨start, rfl⟩ := hsuffix
  rw [List.length_append, Nat.add_sub_cancel, List.take_left] at htake
  rw [Option.some.inj htake]

theorem stripOpeningFence_split {text : Text} (hfence : fence <+: text)
    (hne : stripOpeningFence text ≠ []) :
    ∃ line dropped, text = '`' :: (line ++ ['\n']) ++ (stripOpeningFence text ++ dropped) ∧
      '\n' ∉ line ∧ ∀ c ∈ dropped, isClosing c = true := by
  have hopen : text = text.takeWhile (· ≠ '\n') ++ text.dropWhile (· ≠ '\n') :=
    List.takeWhile_append_dropWhile.symm
  obtain ⟨more, hmore⟩ := hfence
  have hquote : text.takeWhile (· ≠ '\n') = '`' :: ("``" ++ more).takeWhile (· ≠ '\n') := by
    rw [← hmore]
    rfl
  have hline : '\n' ∉ ("``" ++ more).takeWhile (· ≠ '\n') := by
    intro hin
    have hnot := List.mem_takeWhile_imp (p := fun c => decide (c ≠ '\n')) hin
    simp at hnot
  unfold stripOpeningFence at hne ⊢
  rw [if_pos ⟨more, hmore⟩] at hne ⊢
  dsimp only at hne ⊢
  cases hrest : text.dropWhile (· ≠ '\n') with
  | nil =>
    rw [hrest] at hne
    exact absurd rfl hne
  | cons c afterOpen =>
    have hfeed : c = '\n' := by
      have hhead := List.head?_dropWhile_not (· ≠ '\n') text
      rw [hrest] at hhead
      simpa using hhead
    subst hfeed
    simp only [List.drop_succ_cons, List.drop_zero]
    obtain ⟨feeds, hbody⟩ : ∃ feeds, afterOpen = afterOpen.rdropWhile (· = '\n') ++ feeds ∧
        ∀ c ∈ feeds, isClosing c = true := by
      refine ⟨afterOpen.rtakeWhile (· = '\n'), List.rdropWhile_append_rtakeWhile.symm, ?_⟩
      intro c hc
      have hfeed := List.mem_rtakeWhile_imp (p := fun c => decide (c = '\n')) hc
      rw [of_decide_eq_true hfeed]
      decide
    have hjoin : text = '`' :: (("``" ++ more).takeWhile (· ≠ '\n') ++ ['\n']) ++ afterOpen := by
      rw [hquote, hrest] at hopen
      rw [hopen]
      simp
    split
    next =>
      exact ⟨_, feeds, by rw [← hbody.1]; exact hjoin, hline, hbody.2⟩
    next front hfront =>
      have hsuffix := stripSuffix_eq_some hfront
      obtain ⟨blank, hsplit, hblank⟩ := trimEnd_split front
      refine ⟨_, blank ++ (fence ++ feeds), ?_, hline, ?_⟩
      · have hafter : trimEnd front ++ (blank ++ (fence ++ feeds)) = afterOpen := by
          rw [← List.append_assoc, ← hsplit, ← List.append_assoc, ← hsuffix, ← hbody.1]
        rw [hafter]
        exact hjoin
      · intro c hc
        rw [List.mem_append, List.mem_append] at hc
        rcases hc with hin | hin | hin
        · exact isClosing_of_blank hblank c hin
        · exact isClosing_of_isBareFence (by decide) c hin
        · exact hbody.2 c hin

theorem extractUnifiedDiff_eq_some {raw diff : Text} (hdiff : extractUnifiedDiff raw = some diff) :
    ∃ before rest, splitAtFirst fileMarker (stripOpeningFence (trim raw)) = some (before, rest) ∧
      diff = endLine (stripLastFence (trimEnd rest)) ∧
      "@@ " <:+: stripLastFence (trimEnd rest) := by
  unfold extractUnifiedDiff at hdiff
  dsimp only at hdiff
  split at hdiff
  next => contradiction
  next =>
    split at hdiff
    next => contradiction
    next before rest hcut =>
      split at hdiff
      next => contradiction
      next hmarkers =>
        rw [not_or, not_not, not_not] at hmarkers
        exact ⟨before, rest, hcut, (Option.some.inj hdiff).symm, hmarkers.2⟩

theorem trimEnd_endLine {text : Text} (hend : ∀ c ∈ text.getLast?, isWhitespace c = false) :
    trimEnd (endLine text) = text := by
  have hself : trimEnd text = text := by
    refine List.rdropWhile_eq_self_iff.mpr fun hne => ?_
    rw [hend _ (List.getLast?_eq_some_getLast hne)]
    decide
  unfold endLine
  split
  next => exact hself
  next =>
    rw [trimEnd, List.rdropWhile_concat_pos isWhitespace _ _ (by decide)]
    exact hself

theorem atLineStart_iff {before : Text} :
    AtLineStart before ↔ before = [] ∨ before.getLast? = some '\n' := by
  rw [AtLineStart, List.getLast?_eq_some_iff]
  refine or_congr_right ?_
  constructor
  · rintro ⟨front, rfl⟩
    exact ⟨front, rfl⟩
  · rintro ⟨front, rfl⟩
    exact ⟨front, rfl⟩

theorem atLineStart_append_iff {opening before : Text} (hopening : opening.getLast? = some '\n')
    (lead : Text) : AtLineStart (lead ++ (opening ++ before)) ↔ AtLineStart before := by
  have hne : opening ≠ [] := by
    rintro rfl
    contradiction
  rw [atLineStart_iff, atLineStart_iff]
  by_cases hbefore : before = []
  · rw [hbefore, List.append_nil, List.getLast?_append_of_ne_nil _ hne]
    simp [hopening]
  · rw [← List.append_assoc, List.getLast?_append_of_ne_nil _ hbefore]
    simp [hbefore]

theorem markerFirst_iff {raw before : Text} (hafter : afterOpening raw = before ++ rest)
    (hfirst : FirstAt fileMarker before rest) : MarkerFirst raw ↔ AtLineStart before := by
  have hsplit := (splitAtFirst_eq_some (s := afterOpening raw) (by decide)).mpr
    ⟨hafter, hfirst⟩
  unfold MarkerFirst
  rw [hsplit]
  constructor
  · rintro ⟨front, back, heq, hstart⟩
    obtain ⟨rfl, rfl⟩ := Prod.mk.inj (Option.some.inj heq)
    exact hstart
  · intro hstart
    exact ⟨before, rest, rfl, hstart⟩

theorem dash_prefix {text more : Text} (hmarker : fileMarker <+: text ++ more) (hne : text ≠ []) :
    ['-'] <+: text := by
  obtain ⟨c, text, rfl⟩ := List.exists_cons_of_ne_nil hne
  obtain ⟨tail, htail⟩ := hmarker
  obtain rfl : '-' = c := (List.cons.inj htail).1
  exact ⟨text, rfl⟩

theorem dropWhile_line (hline : '\n' ∉ line) (rest : Text) :
    ((line ++ '\n' :: rest).dropWhile (· ≠ '\n')).drop 1 = rest := by
  rw [List.dropWhile_append_of_pos (by simpa using fun c hc => ne_of_mem_of_not_mem hc hline)]
  simp

theorem cut_of_first {raw lead opening before text lost more : Text}
    (hfirst : FirstAt fileMarker before rest) (hrest : rest = text ++ lost) (hne : text ≠ [])
    (hraw : raw = lead ++ (opening ++ (before ++ (rest ++ more))))
    (hlead : ∀ c ∈ lead, isWhitespace c = true)
    (hopening : opening = [] ∨ ∃ line, opening = '`' :: (line ++ ['\n']) ∧ '\n' ∉ line)
    (hlost : ∀ c ∈ lost, isClosing c = true) (hmore : ∀ c ∈ more, isClosing c = true) :
    Cut raw lead opening before text (lost ++ more) ∧ fileMarker <+: text ++ (lost ++ more) := by
  subst hrest
  have hextended := hfirst.extend more
  rw [List.append_assoc] at hraw hextended
  refine ⟨⟨hraw, hlead, hopening, hextended, dash_prefix hfirst.1 hne, ?_⟩, hextended.1⟩
  intro c hc
  rcases List.mem_append.mp hc with hin | hin
  · exact hlost c hin
  · exact hmore c hin

section Opening

variable {raw text behind : Text}

theorem opens_trimStart_iff (hstart : trimStart raw = text ++ behind)
    (hbehind : ∀ c ∈ behind, isWhitespace c = true) :
    fence <+: trimStart raw ↔ fence <+: text := by
  rw [hstart]
  exact prefix_append_blank_iff (ends_of_all (by decide)) hbehind

theorem afterOpening_of_fence (hopened : fence <+: trimStart raw) (hline : '\n' ∉ line)
    (hstart : trimStart raw = '`' :: (line ++ ['\n']) ++ rest) :
    afterOpening raw = rest := by
  have hquoted : '\n' ∉ '`' :: line := by simpa using hline
  have hjoined : trimStart raw = ('`' :: line) ++ '\n' :: rest := by
    rw [hstart]
    simp
  rw [afterOpening, if_pos hopened, hjoined, dropWhile_line hquoted]

end Opening

theorem exists_cut {raw before : Text}
    (hsplit : splitAtFirst fileMarker (stripOpeningFence (trim raw)) =
      some (before, rest)) (hne : stripLastFence (trimEnd rest) ≠ []) :
    ∃ lead opening dropped, Cut raw lead opening before (stripLastFence (trimEnd rest)) dropped ∧
      fileMarker <+: stripLastFence (trimEnd rest) ++ dropped ∧
      (MarkerFirst raw ↔ AtLineStart (lead ++ (opening ++ before))) := by
  obtain ⟨hbody, hfirst⟩ := (splitAtFirst_eq_some (by decide)).mp hsplit
  obtain ⟨lead, trail, hraw, hlead, htrail⟩ := exists_eq_trim raw
  obtain ⟨blank, hblank, hisBlank⟩ := trimEnd_split rest
  obtain ⟨closing, hclosing, hisClosing, -⟩ := stripLastFence_split (getLast_trimEnd rest)
  obtain ⟨behind, hbehind, hisBehind⟩ := trimEnd_split (trimStart raw)
  have hstart : trimStart raw = trim raw ++ behind := hbehind
  generalize stripLastFence (trimEnd rest) = text at hne hclosing ⊢
  have hrest : rest = text ++ (closing ++ blank) := by
    rw [← List.append_assoc, ← hclosing, ← hblank]
  have hlost : ∀ c ∈ closing ++ blank, isClosing c = true := by
    intro c hc
    rcases List.mem_append.mp hc with hin | hin
    · exact hisClosing c hin
    · exact isClosing_of_blank hisBlank c hin
  by_cases hfence : fence <+: trim raw
  · have hsome : stripOpeningFence (trim raw) ≠ [] := by
      rw [hbody, hrest]
      simp [hne]
    obtain ⟨line, fences, htrim, hline, hfences⟩ := stripOpeningFence_split hfence hsome
    rw [hbody] at htrim
    have hmore : ∀ c ∈ fences ++ trail, isClosing c = true := by
      intro c hc
      rcases List.mem_append.mp hc with hin | hin
      · exact hfences c hin
      · exact isClosing_of_blank htrail c hin
    have hwhole : raw = lead ++ ('`' :: (line ++ ['\n']) ++
        (before ++ (rest ++ (fences ++ trail)))) := by
      rw [hraw, htrim]
      simp
    obtain ⟨hcut, hmarker⟩ := cut_of_first hfirst hrest hne hwhole hlead
      (.inr ⟨line, rfl, hline⟩) hlost hmore
    refine ⟨lead, '`' :: (line ++ ['\n']), _, hcut, hmarker, ?_⟩
    have hafter : afterOpening raw = before ++ (rest ++ (fences ++ behind)) := by
      apply afterOpening_of_fence ((opens_trimStart_iff hstart hisBehind).mpr hfence) hline
      rw [hstart, htrim]
      simp
    rw [markerFirst_iff hafter (hfirst.extend _)]
    have hfeed : ('`' :: (line ++ ['\n'])).getLast? = some '\n' :=
      List.getLast?_concat (l := '`' :: line)
    exact (atLineStart_append_iff hfeed lead).symm
  · have hkept : stripOpeningFence (trim raw) = trim raw := by
      rw [stripOpeningFence, if_neg hfence]
    rw [hkept] at hbody
    have hwhole : raw = lead ++ ([] ++ (before ++ (rest ++ trail))) := by
      rw [hraw, hbody]
      simp
    obtain ⟨hcut, hmarker⟩ := cut_of_first hfirst hrest hne hwhole hlead (.inl rfl) hlost
      (isClosing_of_blank htrail)
    refine ⟨lead, [], _, hcut, hmarker, ?_⟩
    have hafter : afterOpening raw = (lead ++ before) ++ (rest ++ trail) := by
      rw [afterOpening, if_neg (mt (opens_trimStart_iff hstart hisBehind).mp hfence), hwhole]
      simp
    have hnotDash : ∀ c ∈ lead, fileMarker.head? ≠ some c := by
      intro c hc hhead
      have hcblank := hlead c hc
      rw [← Option.some.inj hhead] at hcblank
      exact absurd hcblank (by decide)
    rw [markerFirst_iff hafter ((hfirst.extend trail).append hnotDash (by decide))]
    rfl

section Returned

variable {raw diff : Text}

theorem lineStart_iff_markerFirst (hdiff : extractUnifiedDiff raw = some diff) :
    (∃ before rest, raw = before ++ rest ∧ AtLineStart before ∧ fileMarker <+: rest ∧
        trimEnd diff <+: rest) ↔ MarkerFirst raw := by
  obtain ⟨before, rest, hsplit, rfl, hhunk⟩ := extractUnifiedDiff_eq_some hdiff
  have hne : stripLastFence (trimEnd rest) ≠ [] := by
    intro hnil
    rw [hnil] at hhunk
    exact absurd hhunk (by decide)
  obtain ⟨lead, opening, dropped, hcut, hmarker, hfirst⟩ := exists_cut hsplit hne
  obtain ⟨-, -, -, hend⟩ := stripLastFence_split (getLast_trimEnd rest)
  rw [trimEnd_endLine hend, hfirst]
  exact hcut.lineStart_iff hmarker

theorem diffLines_iff_diffLast (hdiff : extractUnifiedDiff raw = some diff) :
    DiffLines (diff.splitOn '\n') ↔ DiffLast raw := by
  obtain ⟨before, rest, hsplit, rfl, hhunk⟩ := extractUnifiedDiff_eq_some hdiff
  have hne : stripLastFence (trimEnd rest) ≠ [] := by
    intro hnil
    rw [hnil] at hhunk
    exact absurd hhunk (by decide)
  rw [diffLines_endLine, ← endsWithDiff_iff_stripLastFence (getLast_trimEnd rest) hne,
    tolerant_endsWithDiff.trimEnd]
  unfold DiffLast
  rw [hsplit]
  constructor
  · intro hends
    exact ⟨before, rest, rfl, hends⟩
  · rintro ⟨front, back, heq, hends⟩
    obtain ⟨rfl, rfl⟩ := Prod.mk.inj (Option.some.inj heq)
    exact hends

end Returned

/-- A returned text is a diff that starts a line exactly if the first marker of the response
starts one and the response ends with the diff. -/
theorem extracted_iff (raw diff : Text) (hdiff : extractUnifiedDiff raw = some diff) :
    Extracted raw diff ↔ MarkerFirst raw ∧ DiffLast raw := by
  rw [← lineStart_iff_markerFirst hdiff, ← diffLines_iff_diffLast hdiff]
  constructor
  · intro hextracted
    exact ⟨hextracted.lineStart, hextracted.diffLines⟩
  · rintro ⟨hline, hlines⟩
    exact ⟨hline, hlines⟩

def smallDiff : Text := "--- a/f\n+++ b/f\n@@ -1 +1 @@\n-x\n+y\n"

def fencedResponse : Text := "The fix:\n```diff\n" ++ smallDiff ++ "```\n"

set_option maxRecDepth 8000 in
theorem extracted_iff_fencedResponse : Extracted fencedResponse smallDiff := by
  refine (extracted_iff fencedResponse smallDiff (by decide)).mpr ⟨?_, ?_⟩
  · refine ⟨"The fix:\n```diff\n", smallDiff ++ "```\n", by decide, .inr (by decide)⟩
  · refine ⟨"The fix:\n```diff\n", smallDiff ++ "```", by decide, ?_⟩
    refine ⟨["--- a/f", "+++ b/f", "@@ -1 +1 @@", "-x", "+y"], [fence], by decide, ?_⟩
    unfold DiffLines
    decide

def chattyResponse : Text := "Done --- see:\n" ++ smallDiff

set_option maxRecDepth 8000 in
theorem extract_of_chattyResponse :
    extractUnifiedDiff chattyResponse = some ("--- see:\n" ++ smallDiff) := by
  decide

set_option maxRecDepth 8000 in
theorem chattyResponse_not_extracted :
    ¬ ∀ raw diff, extractUnifiedDiff raw = some diff → Extracted raw diff := by
  intro hclaim
  have hextracted := hclaim _ _ extract_of_chattyResponse
  have hfirst := (lineStart_iff_markerFirst extract_of_chattyResponse).mp hextracted.lineStart
  obtain ⟨before, rest, hsplit, hstart⟩ := hfirst
  have hcut : splitAtFirst fileMarker (afterOpening chattyResponse) =
      some ("Done ".toList, "--- see:\n".toList ++ smallDiff) := by decide
  rw [hcut] at hsplit
  obtain ⟨rfl, -⟩ := Prod.mk.inj (Option.some.inj hsplit)
  exact absurd hstart (by simp [atLineStart_iff])

end Difflore.Fix
