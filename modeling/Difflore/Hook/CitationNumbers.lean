import Difflore.Hook.CitationTokens

/-! # Rules cited by number

A rule is also cited as `rule N` or `memory N`. No reading of one of the two words reaches
into another occurrence of it, so the scan finds every number.
-/

namespace Difflore.Hook

open Foundation Text

variable {c : Char} {position : Nat} {needle after : Text}

def NumberAt (needle before after : Text) (position : Nat) : Prop :=
  ∃ gap digits rest, after = needle ++ (gap ++ (digits ++ rest)) ∧ Stands before ∧
    gap.all isCitationGap = true ∧ IsPosition digits position ∧
    rest.head?.any Char.isDigit = false

/-- A word that no gap, number or later part of the word begins with. -/
structure IsNeedle (needle : Text) : Prop where
  head : ∃ c rest, needle = c :: rest ∧ isCitationGap c = false ∧ c.isDigit = false
  borderless : ∀ k < needle.length, 0 < k → ¬ needle.drop k <+: needle

theorem isNeedle_of_mem (hneedle : needle ∈ ["rule".toList, "memory".toList]) :
    IsNeedle needle := by
  rcases List.mem_pair.mp hneedle with rfl | rfl
  · exact ⟨⟨'r', _, rfl, rfl, rfl⟩, by decide⟩
  · exact ⟨⟨'m', _, rfl, rfl, rfl⟩, by decide⟩

theorem ne_nil_of_isPosition {digits : Text} (hdigits : IsPosition digits position) :
    digits ≠ [] := by
  rintro rfl
  obtain ⟨_, hparse⟩ := hdigits
  contradiction

theorem not_isAlpha_of_isCitationGap (hc : isCitationGap c = true) : c.isAlpha = false := by
  simp only [isCitationGap, Bool.or_eq_true, decide_eq_true_eq] at hc
  rcases hc with ((((rfl | rfl) | rfl) | rfl) | rfl) | rfl <;> rfl

theorem not_isAlpha_of_isDigit (hc : c.isDigit = true) : c.isAlpha = false := by
  simp only [Char.isDigit, Bool.and_eq_true, decide_eq_true_eq, ge_iff_le,
    UInt32.le_iff_toNat_le] at hc
  unfold Char.isAlpha Char.isUpper Char.isLower
  simp only [Bool.or_eq_false_iff, Bool.and_eq_false_iff, decide_eq_false_iff_not, ge_iff_le,
    UInt32.le_iff_toNat_le]
  simp at hc ⊢
  omega

theorem not_isCitationGap_of_isDigit (hc : c.isDigit = true) : isCitationGap c = false := by
  cases hgap : isCitationGap c with
  | false => rfl
  | true =>
    simp only [isCitationGap, Bool.or_eq_true, decide_eq_true_eq] at hgap
    rcases hgap with ((((rfl | rfl) | rfl) | rfl) | rfl) | rfl <;> contradiction

theorem readRuleNumber_cases (needle : Text) (prev : Option Char) (s : Text) :
    readRuleNumber needle prev s = none ∨
      (needle <+: s ∧ readRuleNumber needle prev s = some (needle.length, none)) ∨
      (prev.any Char.isAlphanum = false ∧ ∃ gap digits rest,
        s = needle ++ (gap ++ (digits ++ rest)) ∧ gap.all isCitationGap = true ∧
        digits.all Char.isDigit = true ∧ rest.head?.any Char.isDigit = false ∧
        readRuleNumber needle prev s = some (needle.length + gap.length + digits.length,
          (parseUsize digits).filter (0 < ·))) := by
  cases hstrip : stripPrefix needle s with
  | none =>
    left
    unfold readRuleNumber
    rw [hstrip]
  | some rest =>
    right
    obtain rfl := stripPrefix_eq_some hstrip
    by_cases hword : (prev.any Char.isAlphanum || rest.head?.any Char.isAlpha) = true
    · refine .inl ⟨List.prefix_append .., ?_⟩
      unfold readRuleNumber
      simp only [hstrip, hword, if_true]
    · have hprev : prev.any Char.isAlphanum = false := by
        rw [Bool.not_eq_true, Bool.or_eq_false_iff] at hword
        exact hword.1
      refine .inr ⟨hprev, rest.takeWhile isCitationGap,
        (rest.dropWhile isCitationGap).takeWhile Char.isDigit,
        (rest.dropWhile isCitationGap).dropWhile Char.isDigit, ?_,
        List.all_eq_true.mpr fun c hc => List.mem_takeWhile_imp hc,
        List.all_eq_true.mpr fun c hc => List.mem_takeWhile_imp hc, head_dropWhile _ _, ?_⟩
      · rw [List.takeWhile_append_dropWhile, List.takeWhile_append_dropWhile]
      · unfold readRuleNumber
        simp only [hstrip, hword, if_false, drop_length_takeWhile, Bool.false_eq_true]

theorem readRuleNumber_eq_some_iff {before : Text} :
    (readRuleNumber needle before.getLast? after).bind Prod.snd = some position ↔
      NumberAt needle before after position := by
  constructor
  · intro hread
    rcases readRuleNumber_cases needle before.getLast? after with
      hnone | ⟨_, hword⟩ | ⟨hprev, gap, digits, rest, rfl, hgap, hdigits, hrest, hsome⟩
    · rw [hnone] at hread
      contradiction
    · rw [hword] at hread
      contradiction
    · rw [hsome] at hread
      exact ⟨gap, digits, rest, rfl, hprev, hgap, ⟨hdigits, hread⟩, hrest⟩
  · rintro ⟨gap, digits, rest, rfl, hstands, hgap, hdigits, hrest⟩
    obtain ⟨first, digits, rfl⟩ := List.exists_cons_of_ne_nil (ne_nil_of_isPosition hdigits)
    have hfirst : first.isDigit = true := List.all_eq_true.mp hdigits.1 first (.head _ ..)
    have hword : (gap ++ (first :: digits ++ rest)).head?.any Char.isAlpha = false := by
      cases gap with
      | nil => exact not_isAlpha_of_isDigit hfirst
      | cons c gap =>
        exact not_isAlpha_of_isCitationGap (List.all_eq_true.mp hgap c (.head _ ..))
    have htakeGap : (gap ++ (first :: digits ++ rest)).takeWhile isCitationGap = gap :=
      takeWhile_append_of_head hgap (not_isCitationGap_of_isDigit hfirst)
    have htakeDigits : (first :: digits ++ rest).takeWhile Char.isDigit = first :: digits :=
      takeWhile_append_of_head hdigits.1 hrest
    unfold readRuleNumber
    rw [stripPrefix_append]
    simp only [show before.getLast?.any Char.isAlphanum = false from hstands, hword, Bool.or_self,
      Bool.false_eq_true, if_false, htakeGap, List.drop_left, htakeDigits, hdigits.2]
    rfl

theorem not_needle_inside {between : Text} (run rest : Text) (hneedle : IsNeedle needle)
    (hrun : ∀ c ∈ run, isCitationGap c = true ∨ c.isDigit = true)
    (heq : (needle ++ run) ++ rest = between ++ after) (hne : between ≠ [])
    (hlength : between.length < (needle ++ run).length) : ¬ needle <+: after := by
  intro hafter
  obtain ⟨c, word, hword, hgap, hdigit⟩ := hneedle.head
  -- the word would begin in the run
  have hinRun : ∀ {more : Text}, more ≠ [] → (∀ d ∈ more, d ∈ run) → ¬ needle <+: more ++ rest := by
    intro more hmore hsub hstart
    cases more with
    | nil => contradiction
    | cons d more =>
      rw [hword] at hstart
      obtain rfl := (List.cons_prefix_cons.mp hstart).1
      rcases hrun c (hsub c (.head _ ..)) with hc | hc
      · rw [hgap] at hc
        contradiction
      · rw [hdigit] at hc
        contradiction
  rcases List.append_eq_append_iff.mp heq with ⟨more, rfl, _⟩ | ⟨more, hmore, rfl⟩
  · simp only [List.length_append] at hlength
    omega
  · have hmoreNe : more ≠ [] := by
      rintro rfl
      rw [hmore, List.append_nil] at hlength
      omega
    rcases List.append_eq_append_iff.mp hmore with ⟨x, rfl, rfl⟩ | ⟨x, rfl, rfl⟩
    · exact hinRun hmoreNe (fun d hd => List.mem_append_right x hd) hafter
    · cases x with
      | nil => exact hinRun hmoreNe (fun d hd => hd) hafter
      | cons d x =>
        -- the rest of the word would be a start of the word
        have hpos : 0 < between.length := List.length_pos_iff.mpr hne
        have hborder : d :: x <+: between ++ d :: x := by
          refine List.prefix_of_prefix_length_le ⟨run ++ rest, ?_⟩ hafter ?_
          · simp
          · simp
        refine hneedle.borderless between.length (by simp) hpos ?_
        rwa [List.drop_left]

theorem not_jumpsOver_needle (hneedle : IsNeedle needle) {prev : Option Char} {between : Text}
    (hafter : needle <+: after) :
    ¬ JumpsOver (readRuleNumber needle) prev between after := by
  rintro ⟨hne, hlength⟩
  have hpos : 0 < between.length := List.length_pos_iff.mpr hne
  unfold reach at hlength
  rcases readRuleNumber_cases needle prev (between ++ after) with
    hnone | ⟨⟨rest, hrest⟩, hword⟩ | ⟨_, gap, digits, rest, heq, hgap, hdigits, _, hsome⟩
  · rw [hnone] at hlength
    dsimp only at hlength
    omega
  · rw [hword] at hlength
    dsimp only at hlength
    refine not_needle_inside [] rest hneedle (by simp) ?_ hne ?_ hafter
    · rw [List.append_nil, hrest]
    · rw [List.append_nil]
      omega
  · rw [hsome] at hlength
    dsimp only at hlength
    refine not_needle_inside (gap ++ digits) rest hneedle ?_ ?_ hne ?_ hafter
    · intro c hc
      exact (List.mem_append.mp hc).imp (List.all_eq_true.mp hgap c)
        (List.all_eq_true.mp hdigits c)
    · rw [heq]
      simp
    · simp only [List.length_append]
      omega

theorem mem_ruleNumbersFromCitationText_iff {text : Text} :
    position ∈ ruleNumbersFromCitationText text ↔
      ∃ needle ∈ ["rule".toList, "memory".toList], ∃ before after,
        toAsciiLowercase text = before ++ after ∧ NumberAt needle before after position := by
  have hscan : ∀ needle, IsNeedle needle →
      (position ∈ scanFrom (readRuleNumber needle) none 0 (toAsciiLowercase text) ↔
        ∃ before after, toAsciiLowercase text = before ++ after ∧
          NumberAt needle before after position) := by
    intro needle hneedle
    rw [mem_scanFrom_iff]
    constructor
    · rintro ⟨before, c, rest, hsplit, _, hread⟩
      rw [lastOr_none] at hread
      exact ⟨before, c :: rest, hsplit, readRuleNumber_eq_some_iff.mp hread⟩
    · rintro ⟨before, after, hsplit, hnumber⟩
      have hparts := hnumber
      obtain ⟨gap, digits, rest, hafter, _⟩ := hparts
      have hstart : needle <+: after := hafter ▸ List.prefix_append ..
      have hreads : ReadsAt (readRuleNumber needle) after none 0 before := by
        rw [readsAt_iff_not_jumpsOver]
        rintro ⟨first, between, _, _, hjump⟩
        exact not_jumpsOver_needle hneedle hstart hjump
      obtain ⟨c, word, hword, _⟩ := hneedle.head
      rw [hword, List.cons_append] at hafter
      refine ⟨before, c, _, hafter ▸ hsplit, hafter ▸ hreads, ?_⟩
      rw [lastOr_none, ← hafter]
      exact readRuleNumber_eq_some_iff.mpr hnumber
  unfold ruleNumbersFromCitationText
  simp only [List.mem_flatMap]
  constructor
  · rintro ⟨needle, hmem, hfound⟩
    exact ⟨needle, hmem, (hscan needle (isNeedle_of_mem hmem)).mp hfound⟩
  · rintro ⟨needle, hmem, hfound⟩
    exact ⟨needle, hmem, (hscan needle (isNeedle_of_mem hmem)).mpr hfound⟩

end Difflore.Hook
