import Difflore.Infra.RepoScope

/-! # Forms of a repo scope

A joined list of tidy segments is left alone by trimming and is split into the
same segments again, unless it ends in `.git`. Every normalizer returns lower-case
segments, and none returns a text longer than the cleaned one it was given.
-/

namespace Difflore.Infra

open Foundation Text

variable {c : Char} {segments : List Text} {minSegments : Nat} {maxSegments : Option Nat}
  {s value : Text}

theorem dropGits_of_not_prefix (hs : ¬ gitSuffix.reverse <+: s) : dropGits s = s := by
  unfold dropGits
  split
  next rest => exact absurd ⟨rest, rfl⟩ hs
  next => rfl

theorem trimGits_of_not_suffix (hs : ¬ gitSuffix <:+ s) : trimGits s = s := by
  rw [trimGits, dropGits_of_not_prefix, List.reverse_reverse]
  rwa [List.reverse_prefix]

theorem not_prefix_dropGits (s : Text) : ¬ gitSuffix.reverse <+: dropGits s := by
  fun_induction dropGits s with
  | case1 rest ih => exact ih
  | case2 s hs =>
    rintro ⟨rest, rfl⟩
    exact hs rest rfl

theorem not_suffix_trimGits (s : Text) : ¬ gitSuffix <:+ trimGits s := by
  rw [trimGits, ← List.reverse_prefix, List.reverse_reverse]
  exact not_prefix_dropGits s.reverse

theorem dropGits_suffix (s : Text) : dropGits s <:+ s := by
  fun_induction dropGits s with
  | case1 rest ih => exact ih.trans ⟨['t', 'i', 'g', '.'], rfl⟩
  | case2 s hs => exact List.suffix_refl s

theorem trimGits_isPrefix (s : Text) : trimGits s <+: s := by
  rw [trimGits, ← List.reverse_suffix, List.reverse_reverse]
  exact dropGits_suffix s.reverse

theorem trim_isInfix (s : Text) : trim s <:+: s :=
  (List.rdropWhile_prefix _ _).isInfix.trans (List.dropWhile_suffix _).isInfix

theorem cleanScope_isInfix (value : Text) : cleanScope value <:+: value :=
  (trimGits_isPrefix _).isInfix.trans
    ((List.rdropWhile_prefix _ _).isInfix.trans (trim_isInfix value))

/-- A text that is not shorter once it is cleaned has no `.git` at its end. -/
theorem cleanScope_eq_of_length (hlength : value.length ≤ (cleanScope value).length) :
    cleanScope value = value ∧ ¬ gitSuffix <:+ value := by
  have hsame : cleanScope value = value := (cleanScope_isInfix value).eq_of_length
    (le_antisymm (cleanScope_isInfix value).length_le hlength)
  refine ⟨hsame, ?_⟩
  rw [← hsame]
  exact not_suffix_trimGits _

def Tidy (segment : Text) : Prop := segment ≠ [] ∧ ∀ c ∈ segment, c ≠ '/' ∧ isWhitespace c = false

theorem slash_not_mem (hsegments : ∀ segment ∈ segments, Tidy segment) :
    ∀ segment ∈ segments, '/' ∉ segment :=
  fun segment hsegment hslash => ((hsegments segment hsegment).2 _ hslash).1 rfl

theorem Tidy.trim_eq {segment : Text} (hsegment : Tidy segment) : trim segment = segment := by
  apply trim_of_ends
  · exact fun c hc => (hsegment.2 c (List.mem_of_mem_head? hc)).2
  · exact fun c hc => (hsegment.2 c (List.mem_of_getLast? hc)).2

theorem joinSegments_cons (hne : segments ≠ []) (segment : Text) :
    joinSegments (segment :: segments) = segment ++ '/' :: joinSegments segments := by
  rw [joinSegments, List.intercalate_cons_of_ne_nil hne, List.append_assoc]
  rfl

theorem joinSegments_pair (owner repo : Text) :
    joinSegments [owner, repo] = owner ++ '/' :: repo := by
  rw [joinSegments_cons (List.cons_ne_nil _ _), joinSegments, List.intercalate_singleton]

theorem splitOn_joinSegments (hne : segments ≠ [])
    (hsegments : ∀ segment ∈ segments, '/' ∉ segment) :
    (joinSegments segments).splitOn '/' = segments :=
  List.splitOn_intercalate '/' hsegments hne

theorem exists_eq_append_last (hne : segments ≠ []) :
    ∃ last ∈ segments.getLast?, ∃ front, joinSegments segments = front ++ last := by
  induction segments with
  | nil => contradiction
  | cons segment rest ih =>
    by_cases hrest : rest = []
    · subst hrest
      refine ⟨segment, rfl, [], ?_⟩
      rw [joinSegments, List.intercalate_singleton, List.nil_append]
    · obtain ⟨last, hlast, front, hfront⟩ := ih hrest
      refine ⟨last, ?_, segment ++ '/' :: front, ?_⟩
      · rw [← List.singleton_append, List.getLast?_append_of_ne_nil _ hrest]
        exact hlast
      · rw [joinSegments_cons hrest, hfront, List.append_assoc, List.cons_append]

theorem head_joinSegments (hne : segments ≠ []) (hsegments : ∀ segment ∈ segments, Tidy segment) :
    ∀ c ∈ (joinSegments segments).head?, isWhitespace c = false := by
  cases segments with
  | nil => contradiction
  | cons segment rest =>
    have htidy := hsegments segment (.head _)
    have hhead : (joinSegments (segment :: rest)).head? = segment.head? := by
      by_cases hrest : rest = []
      · rw [hrest, joinSegments, List.intercalate_singleton]
      · rw [joinSegments_cons hrest, List.head?_append_of_ne_nil _ htidy.1]
    intro c hc
    rw [hhead] at hc
    exact (htidy.2 c (List.mem_of_mem_head? hc)).2

theorem cleanScope_joinSegments (hne : segments ≠ [])
    (hsegments : ∀ segment ∈ segments, Tidy segment)
    (hgit : ¬ gitSuffix <:+ joinSegments segments) :
    cleanScope (joinSegments segments) = joinSegments segments := by
  obtain ⟨last, hlast, front, hfront⟩ := exists_eq_append_last hne
  have htidy := hsegments last (List.mem_of_getLast? hlast)
  obtain ⟨init, c, hinit⟩ := (List.eq_nil_or_concat last).resolve_left htidy.1
  rw [List.concat_eq_append] at hinit
  have hc := htidy.2 c (by rw [hinit]; exact List.mem_append_right _ (.head _))
  have hends : joinSegments segments = (front ++ init) ++ [c] := by
    rw [hfront, hinit, List.append_assoc]
  have htrim : trim (joinSegments segments) = joinSegments segments := by
    apply trim_of_ends
    · exact head_joinSegments hne hsegments
    · intro d hd
      rw [hends, List.getLast?_concat] at hd
      obtain rfl := Option.some.inj hd
      exact hc.2
  have hslashes : trimSlashes (joinSegments segments) = joinSegments segments := by
    rw [hends, trimSlashes, List.rdropWhile_concat_neg _ _ _ (by simpa using hc.1)]
  rw [cleanScope, htrim, hslashes, trimGits_of_not_suffix hgit]

theorem scopeSegments_joinSegments (hne : segments ≠ [])
    (hsegments : ∀ segment ∈ segments, Tidy segment)
    (hgit : ¬ gitSuffix <:+ joinSegments segments) :
    scopeSegments (joinSegments segments) = segments := by
  rw [scopeSegments, cleanScope_joinSegments hne hsegments hgit,
    splitOn_joinSegments hne (slash_not_mem hsegments)]
  conv_rhs => rw [← List.map_id segments]
  exact List.map_congr_left fun segment hsegment => (hsegments segment hsegment).trim_eq

/-! ## Lower case -/

theorem isAsciiAlphanumeric_toLower (c : Char) :
    isAsciiAlphanumeric c.toLower = isAsciiAlphanumeric c := by
  have hzero : '0'.toNat = 48 := by decide
  have hnine : '9'.toNat = 57 := by decide
  have hA : 'A'.toNat = 65 := by decide
  have hZ : 'Z'.toNat = 90 := by decide
  have ha : 'a'.toNat = 97 := by decide
  have hz : 'z'.toNat = 122 := by decide
  rw [Bool.eq_iff_iff]
  simp only [isAsciiAlphanumeric, Bool.or_eq_true, Bool.and_eq_true, decide_eq_true_eq,
    toNat_toLower, hzero, hnine, hA, hZ, ha, hz]
  split <;> omega

theorem segmentChar_toLower (c : Char) : segmentChar c.toLower = segmentChar c := by
  unfold segmentChar
  rw [isAsciiAlphanumeric_toLower]
  have hdot : decide (c.toLower = '.') = decide (c = '.') :=
    decide_eq_decide.mpr (toLower_eq_iff (by decide))
  have hline : decide (c.toLower = '_') = decide (c = '_') := by
    apply decide_eq_decide.mpr
    rw [← Char.toNat_inj, ← Char.toNat_inj, toNat_toLower]
    have hcode : '_'.toNat = 95 := by decide
    split <;> omega
  have hminus : decide (c.toLower = '-') = decide (c = '-') :=
    decide_eq_decide.mpr (toLower_eq_iff (by decide))
  rw [hdot, hline, hminus]

theorem mem_toAsciiLowercase_iff (hc : c.toNat < 65 ∨ 122 < c.toNat) :
    c ∈ toAsciiLowercase s ↔ c ∈ s := by
  constructor
  · intro hmem
    obtain ⟨d, hd, heq⟩ := List.mem_map.mp hmem
    exact (toLower_eq_iff hc).mp heq ▸ hd
  · intro hmem
    exact List.mem_map.mpr ⟨c, hmem, (toLower_eq_iff hc).mpr rfl⟩

theorem segmentOk_toAsciiLowercase (segment : Text) :
    segmentOk (toAsciiLowercase segment) = segmentOk segment := by
  have hdots : ∀ dots : Text, (∀ c ∈ dots, c = '.') →
      (toAsciiLowercase segment = dots ↔ segment = dots) := by
    intro dots hdots
    induction dots generalizing segment with
    | nil => exact List.map_eq_nil_iff
    | cons c dots ih =>
      obtain rfl := hdots c (.head _)
      cases segment with
      | nil => simp [toAsciiLowercase]
      | cons first rest =>
        have hrest := ih rest fun d hd => hdots d (.tail _ hd)
        have hfirst : first.toLower = '.' ↔ first = '.' := toLower_eq_iff (by decide)
        unfold toAsciiLowercase at hrest ⊢
        rw [List.map_cons, List.cons.injEq, List.cons.injEq, hrest, hfirst]
  have hall : (toAsciiLowercase segment).all segmentChar = segment.all segmentChar := by
    rw [toAsciiLowercase, List.all_map]
    congr 1
    funext c
    exact segmentChar_toLower c
  rw [Bool.eq_iff_iff]
  simp only [segmentOk, Bool.and_eq_true, decide_eq_true_eq, hall, ne_eq,
    hdots [] (by simp), hdots dot (by simp [dot]), hdots dotDot (by simp [dotDot])]

theorem toAsciiLowercase_joinSegments (segments : List Text) :
    toAsciiLowercase (joinSegments segments) = joinSegments (segments.map toAsciiLowercase) := by
  induction segments with
  | nil => rfl
  | cons segment rest ih =>
    by_cases hrest : rest = []
    · subst hrest
      simp [joinSegments]
    · have hmap : rest.map toAsciiLowercase ≠ [] := by simpa using hrest
      rw [joinSegments_cons hrest, List.map_cons, joinSegments_cons hmap, ← ih]
      simp [toAsciiLowercase]

theorem splitOn_toAsciiLowercase (s : Text) :
    (toAsciiLowercase s).splitOn '/' = (s.splitOn '/').map toAsciiLowercase := by
  induction s with
  | nil => rfl
  | cons c rest ih =>
    have hslash : (c.toLower == '/') = (c == '/') := by
      rw [Bool.eq_iff_iff, beq_iff_eq, beq_iff_eq]
      exact toLower_eq_iff (by decide)
    have hcons : toAsciiLowercase (c :: rest) = c.toLower :: toAsciiLowercase rest := rfl
    rw [hcons, List.splitOn_cons_eq_if_modifyHead, List.splitOn_cons_eq_if_modifyHead, hslash, ih]
    split
    next => rfl
    next =>
      cases rest.splitOn '/' with
      | nil => rfl
      | cons first others => rfl

theorem not_isWhitespace (hc : isAsciiAlphanumeric c ∨ c = '.' ∨ c = '_' ∨ c = '-' ∨ c = ':') :
    isWhitespace c = false := by
  rcases hc with hletter | rfl | rfl | rfl | rfl
  · have hzero : '0'.toNat = 48 := by decide
    have hnine : '9'.toNat = 57 := by decide
    have hA : 'A'.toNat = 65 := by decide
    have hZ : 'Z'.toNat = 90 := by decide
    have ha : 'a'.toNat = 97 := by decide
    have hz : 'z'.toNat = 122 := by decide
    simp only [isAsciiAlphanumeric, Bool.or_eq_true, Bool.and_eq_true, decide_eq_true_eq, hzero,
      hnine, hA, hZ, ha, hz] at hletter
    rw [← Bool.not_eq_true]
    simp only [isWhitespace, Bool.or_eq_true, Bool.and_eq_true, decide_eq_true_eq]
    omega
  all_goals decide

theorem tidy_of_segmentOk {segment : Text} (hsegment : segmentOk segment) : Tidy segment := by
  simp only [segmentOk, Bool.and_eq_true, decide_eq_true_eq, List.all_eq_true] at hsegment
  obtain ⟨⟨⟨hne, _⟩, _⟩, hall⟩ := hsegment
  refine ⟨hne, ?_⟩
  intro c hc
  have hchar := hall c hc
  constructor
  · rintro rfl
    exact absurd hchar (by decide)
  · apply not_isWhitespace
    simp only [segmentChar, Bool.or_eq_true, decide_eq_true_eq] at hchar
    tauto

def Lowered (segments : List Text) : Prop :=
  ∀ segment ∈ segments, segmentOk segment ∧ toAsciiLowercase segment = segment

theorem Lowered.tidy (hsegments : Lowered segments) : ∀ segment ∈ segments, Tidy segment :=
  fun segment hsegment => tidy_of_segmentOk (hsegments segment hsegment).1

theorem lowered_map (hsegments : ∀ segment ∈ segments, segmentOk segment) :
    Lowered (segments.map toAsciiLowercase) := by
  intro segment hsegment
  obtain ⟨raw, hraw, rfl⟩ := List.mem_map.mp hsegment
  rw [segmentOk_toAsciiLowercase, toAsciiLowercase_idem]
  exact ⟨hsegments raw hraw, rfl⟩

theorem normalizeRepoScopeSegments_eq_some {scope : Text} :
    normalizeRepoScopeSegments value minSegments maxSegments = some scope ↔
      (minSegments ≤ (scopeSegments value).length ∧
        (∀ most ∈ maxSegments, (scopeSegments value).length ≤ most)) ∧
      (∀ segment ∈ scopeSegments value, segmentOk segment) ∧
      joinSegments ((scopeSegments value).map toAsciiLowercase) = scope := by
  unfold normalizeRepoScopeSegments
  simp only [← toAsciiLowercase_joinSegments]
  rw [Option.ite_none_left_eq_some, Option.ite_none_left_eq_some, Option.some.injEq]
  apply and_congr
  · simp only [Bool.or_eq_true, decide_eq_true_eq, not_or, Nat.not_lt, Option.any_eq_true_iff_get,
      Option.mem_def]
    apply and_congr Iff.rfl
    cases maxSegments <;> simp
  · apply and_congr _ Iff.rfl
    simp

theorem normalizeRepoScopeSegments_lowered (hsegments : Lowered segments)
    (hgit : ¬ gitSuffix <:+ joinSegments segments) (hmin : minSegments ≤ segments.length)
    (hmax : ∀ most ∈ maxSegments, segments.length ≤ most) (hpos : 0 < minSegments) :
    normalizeRepoScopeSegments (joinSegments segments) minSegments maxSegments =
      some (joinSegments segments) := by
  have hne : segments ≠ [] := List.ne_nil_of_length_pos (by omega)
  rw [normalizeRepoScopeSegments_eq_some, scopeSegments_joinSegments hne hsegments.tidy hgit]
  refine ⟨⟨hmin, hmax⟩, fun segment hsegment => (hsegments segment hsegment).1, ?_⟩
  congr 1
  conv_rhs => rw [← List.map_id segments]
  exact List.map_congr_left fun segment hsegment => (hsegments segment hsegment).2

theorem length_joinSegments_map_le {f : Text → Text} (hf : ∀ s, (f s).length ≤ s.length)
    (segments : List Text) :
    (joinSegments (segments.map f)).length ≤ (joinSegments segments).length := by
  induction segments with
  | nil => exact le_refl _
  | cons segment rest ih =>
    have hsegment := hf segment
    by_cases hrest : rest = []
    · subst hrest
      simpa [joinSegments] using hsegment
    · have hmap : rest.map f ≠ [] := by simpa using hrest
      rw [joinSegments_cons hrest, List.map_cons, joinSegments_cons hmap, List.length_append,
        List.length_append, List.length_cons, List.length_cons]
      omega

theorem length_normalizeRepoScopeSegments {scope : Text}
    (hscope : normalizeRepoScopeSegments value minSegments maxSegments = some scope) :
    scope.length ≤ (cleanScope value).length := by
  obtain ⟨_, _, rfl⟩ := normalizeRepoScopeSegments_eq_some.mp hscope
  have hlower : ∀ s : Text, (toAsciiLowercase s).length ≤ s.length := by
    intro s
    rw [toAsciiLowercase, List.length_map]
  have htrim : ∀ s : Text, (trim s).length ≤ s.length := fun s => (trim_isInfix s).length_le
  have hsplit : joinSegments ((cleanScope value).splitOn '/') = cleanScope value :=
    List.intercalate_splitOn '/'
  conv_rhs => rw [← hsplit]
  exact (length_joinSegments_map_le hlower _).trans (length_joinSegments_map_le htrim _)

theorem splitOnce_append {first : Text} (hfirst : c ∉ first) (rest : Text) :
    splitOnce c (first ++ c :: rest) = some (first, rest) := by
  have hpos : ∀ d ∈ first, decide (d ≠ c) = true := by
    intro d hd
    exact decide_eq_true (ne_of_mem_of_not_mem hd hfirst)
  rw [splitOnce, if_pos (List.mem_append_right _ (.head _)),
    List.takeWhile_append_of_pos hpos, List.dropWhile_append_of_pos hpos,
    List.takeWhile_cons_of_neg (by simp), List.dropWhile_cons_of_neg (by simp), List.append_nil,
    List.tail_cons]

theorem splitOnce_eq_some {first rest : Text} (hsplit : splitOnce c s = some (first, rest)) :
    c ∉ first ∧ s = first ++ c :: rest := by
  unfold splitOnce at hsplit
  obtain ⟨hmem, hpair⟩ := Option.ite_none_right_eq_some.mp hsplit
  obtain ⟨rfl, rfl⟩ := Prod.mk.inj (Option.some.inj hpair)
  constructor
  · intro hc
    have hne := List.mem_takeWhile_imp hc
    simp at hne
  · have hdrop : s.dropWhile (· ≠ c) = c :: (s.dropWhile (· ≠ c)).tail := by
      cases hrest : s.dropWhile (· ≠ c) with
      | nil =>
        have hall := List.dropWhile_eq_nil_iff.mp hrest c hmem
        simp at hall
      | cons d tail =>
        have hhead := List.head?_dropWhile_not (· ≠ c) s
        rw [hrest] at hhead
        have hd : d = c := by simpa using hhead
        rw [hd, List.tail_cons]
    conv_lhs => rw [← List.takeWhile_append_dropWhile (p := (· ≠ c)) (l := s)]
    rw [hdrop]
    rfl

end Difflore.Infra
