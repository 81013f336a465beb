import Difflore.Observability.SecretValues

/-! # The states of the scanner

A property of every place of the redacted text is one of the states in which the loop copies a
character: what is kept of a secret and the placeholder are too short to begin anything.
-/

namespace Difflore.Observability

open Foundation

variable {c mark : Char} {prev q : Option Char} {found : Redaction}
  {s lead gone rest word tail t : Text}

/-! ## One redaction -/

structure Taken (s : Text) (found : Redaction) (lead gone rest : Text) : Prop where
  eq : s = lead ++ (gone ++ rest)
  kept : found.kept = lead.length
  consumed : found.consumed = lead.length + gone.length
  gone_head : gone.head?.any isTokenChar = true
  closing : ∀ c ∈ found.closing, isQuote c = true
  lead_parts : lead = [] ∨ ∃ name separator, LeadParts lead name separator
  edge : rest.head?.any isWordChar = false ∨ gone.getLast?.any isWordChar = false

theorem isTokenChar_of_isWordChar (hc : isWordChar c = true) : isTokenChar c = true :=
  isTokenChar_of_isSegmentChar (isSegmentChar_of_isWordChar hc)

theorem not_isWordChar_of_isQuote (hc : isQuote c = true) : isWordChar c = false := by
  by_contra hword
  have htoken := isTokenChar_of_isWordChar (Bool.not_eq_false _ ▸ hword)
  rw [not_isTokenChar_of_isQuote hc] at htoken
  contradiction

theorem any_isWordChar_of_any_isTokenChar {c : Option Char} (hc : c.any isTokenChar = false) :
    c.any isWordChar = false := by
  cases c with
  | none => rfl
  | some c =>
    by_contra hword
    have htoken := isTokenChar_of_isWordChar (Bool.not_eq_false _ ▸ hword)
    exact Bool.false_ne_true (hc.symm.trans htoken)

theorem exists_taken (hfound : secretAt prev s = some found) :
    atWordBoundary prev = true ∧ ∃ lead gone rest, Taken s found lead gone rest := by
  obtain ⟨hboundary, hfound⟩ := Option.ite_none_right_eq_some.mp hfound
  refine ⟨hboundary, ?_⟩
  cases hknown : knownSecret s with
  | some known =>
    rw [hknown] at hfound
    obtain rfl := Option.some.inj hfound
    obtain ⟨word, rest, hword, rfl⟩ := exists_known hknown
    obtain ⟨-, -, hhead⟩ := hword.dense
    refine ⟨[], word, rest, hword.eq, rfl, by simp, ?_, by simp, .inl rfl, .inl hword.rest_head⟩
    cases word with
    | nil => contradiction
    | cons c word => exact isTokenChar_of_isWordChar hhead
  | none =>
    rw [hknown] at hfound
    cases hbearer : bearerSecret s with
    | some bearer =>
      rw [hbearer] at hfound
      obtain rfl := Option.some.inj hfound
      obtain ⟨lead, value, rest, hreads, -, rfl⟩ := exists_of_bearerSecret hbearer
      obtain ⟨c, tail, rfl, hc⟩ := hreads.head_value
      exact ⟨lead, c :: tail, rest, hreads.eq, rfl, rfl, hc, by simp,
        .inr (exists_parts_bearer hreads.lead_mem),
        .inl (any_isWordChar_of_any_isTokenChar hreads.rest_head)⟩
    | none =>
      rw [hbearer] at hfound
      obtain ⟨lead, value, rest, quote, hreads, -, hquote, rfl⟩ := exists_of_namedSecret hfound
      obtain ⟨c, tail, rfl, hc⟩ := hreads.head_value
      have hrest := quoteOf_append_drop rest
      refine ⟨lead, c :: tail ++ (quoteOf rest).toList,
        rest.drop (quoteOf rest).toList.length, ?_, rfl, ?_, hc, hquote,
        .inr (exists_parts_assign hreads.lead_mem), ?_⟩
      · rw [List.append_assoc, hrest]
        exact hreads.eq
      · rw [List.length_append]
        exact Nat.add_assoc ..
      · cases hclosing : quoteOf rest with
        | none =>
          exact .inl (any_isWordChar_of_any_isTokenChar hreads.rest_head)
        | some q =>
          refine .inr ?_
          have hq : isQuote q = true := (Option.filter_eq_some_iff.mp hclosing).2
          rw [Option.toList_some, List.getLast?_concat]
          exact not_isWordChar_of_isQuote hq

theorem redactFrom_skip (prev : Option Char) (front rest : Text) :
    redactFrom prev front.length (front ++ rest) = redactFrom (lastOr prev front) 0 rest := by
  induction front generalizing prev with
  | nil => rfl
  | cons c front ih =>
    rw [lastOr_cons]
    exact ih (some c)

theorem Taken.redactFrom (htaken : Taken s found lead gone rest)
    (hfound : secretAt prev s = some found) :
    redactFrom prev 0 s = lead ++ (secretRedactionPlaceholder ++
      (found.closing.toList ++ redactFrom gone.getLast? 0 rest)) := by
  have hgone : gone ≠ [] := by
    rintro rfl
    exact Bool.false_ne_true htaken.gone_head
  have hpos : 0 < gone.length := List.length_pos_of_ne_nil hgone
  cases hs : s with
  | nil =>
    have heq := htaken.eq
    rw [hs] at heq
    simp [hgone] at heq
  | cons c tail =>
    have hdivide : c :: tail = (lead ++ gone) ++ rest := by
      rw [← hs, htaken.eq, List.append_assoc]
    obtain ⟨front, hfront⟩ : ∃ front, lead ++ gone = c :: front := by
      cases hgoneLead : lead ++ gone with
      | nil => exact absurd (List.append_eq_nil_iff.mp hgoneLead).2 hgone
      | cons d front =>
        rw [hgoneLead] at hdivide
        rw [(List.cons.inj hdivide).1]
        exact ⟨front, rfl⟩
    have htail : tail = front ++ rest := by
      rw [hfront] at hdivide
      exact (List.cons.inj hdivide).2
    have hskip : found.consumed - 1 = front.length := by
      have hlength := congrArg List.length hfront
      rw [List.length_append, List.length_cons] at hlength
      rw [htaken.consumed]
      omega
    rw [Observability.redactFrom, ← hs, hfound]
    simp only
    rw [htaken.kept, hskip, htail, redactFrom_skip, htaken.eq, List.take_left,
      ← lastOr_cons none, ← hfront, lastOr_append, lastOr_of_ne_nil hgone]

theorem redactFrom_plain (hplain : secretAt prev (c :: rest) = none) :
    redactFrom prev 0 (c :: rest) = c :: redactFrom (some c) 0 rest := by
  rw [redactFrom, hplain]

theorem scan_induction {P : Option Char → Text → Prop} (hnil : ∀ prev, P prev [])
    (hplain : ∀ prev c rest, secretAt prev (c :: rest) = none → P (some c) rest →
      P prev (c :: rest)) (hredacted : ∀ prev s found lead gone rest, secretAt prev s = some found →
      Taken s found lead gone rest → P gone.getLast? rest → P prev s)
    (prev : Option Char) (s : Text) : P prev s := by
  induction hn : s.length using Nat.strong_induction_on generalizing prev s with
  | _ n ih =>
    cases hfound : secretAt prev s with
    | some found =>
      obtain ⟨-, lead, gone, rest, htaken⟩ := exists_taken hfound
      refine hredacted prev s found lead gone rest hfound htaken (ih _ ?_ _ rest rfl)
      have hgone : gone ≠ [] := by
        rintro rfl
        exact Bool.false_ne_true htaken.gone_head
      have hpos := List.length_pos_of_ne_nil hgone
      rw [← hn, htaken.eq, List.length_append, List.length_append]
      omega
    | none =>
      cases s with
      | nil => exact hnil prev
      | cons c rest => exact hplain prev c rest hfound (ih _ (by simp [← hn]) _ rest rfl)

/-! ## What cannot begin anything -/

/-- A text at which a secret could begin: it starts with a long dense word, or with a lead and a
value behind it. -/
def Striking (s : Text) : Prop := (∃ word, word <+: s ∧ Dense word) ∨
  ∃ lead name separator value, LeadParts lead name separator ∧ lead ++ value <+: s ∧
    12 ≤ value.length ∧ value.all isTokenChar = true

theorem striking_of_known (hknown : Known s word rest) : Striking s :=
  .inl ⟨word, ⟨rest, hknown.eq.symm⟩, hknown.dense⟩

theorem striking_of_secretAt (hfound : secretAt prev s ≠ none) : Striking s := by
  obtain ⟨found, hfound⟩ := Option.ne_none_iff_exists'.mp hfound
  obtain ⟨-, hfound⟩ := Option.ite_none_right_eq_some.mp hfound
  cases hknown : knownSecret s with
  | some known =>
    obtain ⟨word, rest, hword, -⟩ := exists_known hknown
    exact striking_of_known hword
  | none =>
    rw [hknown] at hfound
    have hvalue : ∀ {leads lead value rest}, ValueReads leads s lead value rest →
        (∃ name separator, LeadParts lead name separator) → Striking s := by
      intro leads lead value rest hreads hparts
      obtain ⟨name, separator, hlead⟩ := hparts
      refine .inr ⟨lead, name, separator, value, hlead, ⟨rest, ?_⟩, hreads.value_mem⟩
      rw [hreads.eq, List.append_assoc]
    cases hbearer : bearerSecret s with
    | some bearer =>
      obtain ⟨lead, value, rest, hreads, -, -⟩ := exists_of_bearerSecret hbearer
      exact hvalue hreads (exists_parts_bearer hreads.lead_mem)
    | none =>
      rw [hbearer] at hfound
      obtain ⟨lead, value, rest, quote, hreads, -⟩ := exists_of_namedSecret hfound
      exact hvalue hreads (exists_parts_assign hreads.lead_mem)

theorem Striking.head (hs : Striking s) : s.head?.any isWordChar = true := by
  rcases hs with ⟨word, ⟨rest, rfl⟩, -, -, hhead⟩ |
    ⟨lead, name, separator, value, hlead, ⟨rest, rfl⟩, -⟩
  · cases word with
    | nil => contradiction
    | cons c word => exact hhead
  · have hhead := hlead.name_head
    rw [hlead.eq]
    cases name with
    | nil => contradiction
    | cons c name => exact hhead

def IsMark (mark : Char) : Prop :=
  isDense mark = false ∧ isSeparator mark = false ∧ isTokenChar mark = false

instance (mark : Char) : Decidable (IsMark mark) := inferInstanceAs (Decidable (_ ∧ _))

theorem not_mem_of_all {p : Char → Bool} (hword : word.all p = true) (hmark : p mark = false) :
    mark ∉ word := by
  intro hmem
  rw [List.all_eq_true.mp hword mark hmem] at hmark
  contradiction

theorem IsMark.not_mem_lead (hmark : IsMark mark) {name separator value : Text}
    (hlead : LeadParts lead name separator) (hvalue : value.all isTokenChar = true) :
    mark ∉ lead ++ value := by
  have hsegment : isSegmentChar mark = false := (Bool.or_eq_false_iff.mp hmark.1).1
  simp only [hlead.eq, List.mem_append, not_or]
  exact ⟨⟨not_mem_of_all hlead.name_all hsegment, not_mem_of_all hlead.separator_all hmark.2.1⟩,
    not_mem_of_all hvalue hmark.2.2⟩

theorem Striking.front {front : Text} (hmark : IsMark mark)
    (hs : Striking (front ++ mark :: tail)) :
    Striking front := by
  rcases hs with ⟨word, hword, hlong, hdense, hhead⟩ |
    ⟨lead, name, separator, value, hlead, hvalue, hlong, htoken⟩
  · exact .inl ⟨word, prefix_of_cut (not_mem_of_all hdense hmark.1) hword, hlong, hdense, hhead⟩
  · exact .inr ⟨lead, name, separator, value, hlead,
      prefix_of_cut (hmark.not_mem_lead hlead htoken) hvalue, hlong, htoken⟩

theorem countP_eq_length_of_all {p : Char → Bool} (hword : word.all p = true) :
    word.countP p = word.length :=
  List.countP_eq_length.mpr (List.all_eq_true.mp hword)

theorem LeadParts.not_striking {name separator front back : Text}
    (hlead : LeadParts lead name separator) (hdivide : lead = front ++ back) : ¬ Striking back := by
  have hseparator : separator.countP isDense = 0 := by
    refine List.countP_eq_zero.mpr fun c hc => ?_
    have hsep := List.all_eq_true.mp hlead.separator_all c hc
    have hdot : c ≠ '.' := by
      rintro rfl
      exact absurd hsep (by decide)
    simp [isDense, not_isSegmentChar_of_isSeparator hsep, hdot]
  rintro (⟨word, ⟨rest, rfl⟩, hlong, hdense, -⟩ |
    ⟨lead', name', separator', value, hlead', ⟨rest, rfl⟩, hlong, htoken⟩)
  · have hcount := congrArg (List.countP isDense) (hlead.eq.symm.trans hdivide)
    rw [List.countP_append, List.countP_append, List.countP_append, hseparator,
      countP_eq_length_of_all hdense] at hcount
    have hname := (List.countP_le_length : name.countP isDense ≤ name.length)
    have hshort := hlead.name_length
    omega
  · -- the separator inside starts behind the name, and so the value lies in the separator
    have heq : name ++ separator = (front ++ name') ++ (separator' ++ (value ++ rest)) := by
      rw [← hlead.eq, hdivide, hlead'.eq]
      simp only [List.append_assoc]
    have hinside : ∀ before, separator = before ++ (separator' ++ (value ++ rest)) → False := by
      intro before hsep
      have htokens := hlead.tokens
      rw [hsep, List.countP_append, List.countP_append, List.countP_append,
        countP_eq_length_of_all htoken] at htokens
      omega
    rcases List.append_eq_append_iff.mp heq with ⟨before, -, hsep⟩ | ⟨more, hname, hsep⟩
    · exact hinside before hsep
    · cases more with
      | nil => exact hinside [] hsep.symm
      | cons c more =>
        obtain ⟨d, tail, hseparator'⟩ := List.exists_cons_of_ne_nil hlead'.separator_ne
        rw [hseparator'] at hsep
        obtain ⟨rfl, -⟩ := List.cons.inj hsep
        have hc := List.all_eq_true.mp hlead'.separator_all d (by simp [hseparator'])
        have hsegment := List.all_eq_true.mp hlead.name_all d (by simp [hname])
        rw [not_isSegmentChar_of_isSeparator hc] at hsegment
        contradiction

theorem not_striking_of_short (hword : word.all isSegmentChar = true) (hshort : word.length < 20) :
    ¬ Striking word := by
  rintro (⟨inner, hinner, hlong, -⟩ | ⟨lead, name, separator, value, hlead, hvalue, -⟩)
  · have hle := hinner.length_le
    omega
  · obtain ⟨c, tail, hseparator⟩ := List.exists_cons_of_ne_nil hlead.separator_ne
    have hsep := List.all_eq_true.mp hlead.separator_all c (by simp [hseparator])
    have hmem : c ∈ word := hvalue.subset (by simp [hlead.eq, hseparator])
    have hsegment := List.all_eq_true.mp hword c hmem
    rw [not_isSegmentChar_of_isSeparator hsep] at hsegment
    contradiction

theorem not_striking_of_head (hs : s.head?.any isWordChar = false) : ¬ Striking s := by
  intro hstriking
  exact Bool.false_ne_true (hs.symm.trans hstriking.head)

theorem not_striking_placeholder {front : Text}
    (hdivide : secretRedactionPlaceholder = front ++ c :: rest) :
    ¬ Striking (c :: rest ++ tail) := by
  have hplaceholder : secretRedactionPlaceholder = '‹' :: ("redacted-secret" ++ ['›']) := by decide
  rw [hplaceholder] at hdivide
  cases front with
  | nil =>
    obtain ⟨rfl, -⟩ := List.cons.inj hdivide
    exact not_striking_of_head (by rfl)
  | cons d front =>
    obtain ⟨-, hdivide⟩ := List.cons.inj hdivide
    rcases List.suffix_concat_iff.mp ⟨front, hdivide.symm⟩ with hnil | ⟨word, hword, hsuffix⟩
    · contradiction
    · rw [hword, List.append_assoc]
      intro hstriking
      have hshort := hsuffix.length_le
      refine not_striking_of_short (List.all_eq_true.mpr fun e he => ?_)
        (lt_of_le_of_lt hshort (by decide)) (Striking.front (by decide) hstriking)
      exact List.all_eq_true.mp (by decide : "redacted-secret".toList.all isSegmentChar = true) e
        (hsuffix.subset he)

inductive Reached : Option Char → Text → Option Char → Text → Prop
  | here (prev : Option Char) (s : Text) : Reached prev s prev s
  | plain {prev q : Option Char} {c : Char} {rest t : Text}
      (hplain : secretAt prev (c :: rest) = none) (hrest : Reached (some c) rest q t) :
      Reached prev (c :: rest) q t
  | redacted {prev q : Option Char} {s t : Text} {found : Redaction}
      (hfound : secretAt prev s = some found)
      (hrest : Reached (s.take found.consumed).getLast? (s.drop found.consumed) q t) :
      Reached prev s q t

theorem secretAt_nil (prev : Option Char) : secretAt prev [] = none := by
  by_contra hfound
  exact not_striking_of_head (by rfl) (striking_of_secretAt hfound)

theorem reached_nil (hreached : Reached prev [] q t) : q = prev ∧ t = [] := by
  cases hreached with
  | here => exact ⟨rfl, rfl⟩
  | redacted hfound hrest =>
    rw [secretAt_nil] at hfound
    contradiction

theorem reached_plain (hplain : secretAt prev (c :: rest) = none) :
    Reached prev (c :: rest) q t ↔ (q = prev ∧ t = c :: rest) ∨ Reached (some c) rest q t := by
  constructor
  · intro hreached
    cases hreached with
    | here => exact .inl ⟨rfl, rfl⟩
    | plain _ hrest => exact .inr hrest
    | redacted hfound hrest =>
      rw [hplain] at hfound
      contradiction
  · rintro (⟨rfl, rfl⟩ | hrest)
    · exact .here _ _
    · exact .plain hplain hrest

theorem Taken.gone_ne (htaken : Taken s found lead gone rest) : gone ≠ [] := by
  rintro rfl
  exact Bool.false_ne_true htaken.gone_head

theorem Taken.take_consumed (htaken : Taken s found lead gone rest) :
    (s.take found.consumed).getLast? = gone.getLast? ∧ s.drop found.consumed = rest := by
  have hdivide : s = (lead ++ gone) ++ rest := by rw [htaken.eq, List.append_assoc]
  rw [htaken.consumed, ← List.length_append, hdivide, List.take_left, List.drop_left,
    ← lastOr_of_ne_nil htaken.gone_ne lead.getLast?]
  exact ⟨List.getLast?_append, rfl⟩

theorem reached_redacted (hfound : secretAt prev s = some found)
    (htaken : Taken s found lead gone rest) :
    Reached prev s q t ↔ (q = prev ∧ t = s) ∨ Reached gone.getLast? rest q t := by
  obtain ⟨hlast, hdrop⟩ := htaken.take_consumed
  constructor
  · intro hreached
    cases hreached with
    | here => exact .inl ⟨rfl, rfl⟩
    | plain hplain _ =>
      rw [hplain] at hfound
      contradiction
    | redacted hfound' hrest =>
      obtain rfl := Option.some.inj (hfound.symm.trans hfound')
      rw [hlast, hdrop] at hrest
      exact .inr hrest
  · rintro (⟨rfl, rfl⟩ | hrest)
    · exact .here _ _
    · exact .redacted hfound (by rwa [hlast, hdrop])

/-! ## Places of the redacted text -/

def AtBoundaries (R : Text → Prop) : Option Char → Text → Prop :=
  AtEach fun prev s => atWordBoundary prev = true → R s

section Places

variable {R : Text → Prop}

theorem atEach_inert (hinert : ∀ front c rest, s = front ++ c :: rest → R (c :: rest ++ tail)) :
    AtEach (fun p u => atWordBoundary p = true → R (u ++ tail)) prev s :=
  atEach_iff.mpr fun front c rest hs _ => hinert front c rest hs

/-- A property that only a striking text can violate holds at every word boundary of the redacted
text exactly when it holds wherever the loop copies a character. -/
theorem atBoundaries_redactFrom (hinert : ∀ s, ¬ Striking s → R s) (prev : Option Char) (s : Text) :
    ∀ p, (atWordBoundary p = atWordBoundary prev ∨ s.head?.any isWordChar = false) →
      (AtBoundaries R p (redactFrom prev 0 s) ↔
        ∀ q t, Reached prev s q t → atWordBoundary q = true → secretAt q t = none →
          R (redactFrom q 0 t)) := by
  induction prev, s using scan_induction with
  | hnil prev =>
    intro p _
    refine ⟨fun _ q t hreached _ _ => ?_, fun _ => trivial⟩
    obtain ⟨-, rfl⟩ := reached_nil hreached
    exact hinert [] (not_striking_of_head (by rfl))
  | hplain prev c rest hplain ih =>
    intro p hedge
    have ih := ih (some c) (.inl rfl)
    rw [redactFrom_plain hplain, AtBoundaries, AtEach]
    -- the place in front of the copied character
    have hhere : (atWordBoundary p = true → R (c :: redactFrom (some c) 0 rest)) ↔
        (atWordBoundary prev = true → R (redactFrom prev 0 (c :: rest))) := by
      rw [redactFrom_plain hplain]
      rcases hedge with hsame | hhead
      · rw [hsame]
      · have hR : R (c :: redactFrom (some c) 0 rest) := hinert _ (not_striking_of_head hhead)
        exact ⟨fun _ _ => hR, fun _ _ => hR⟩
    rw [hhere]
    refine (and_congr_right fun _ => ih).trans ?_
    constructor
    · rintro ⟨hfirst, hothers⟩ q t hreached hq hcopied
      rcases (reached_plain hplain).mp hreached with ⟨rfl, rfl⟩ | hrest
      · exact hfirst hq
      · exact hothers q t hrest hq hcopied
    · intro hall
      exact ⟨fun hprev => hall prev _ (.here _ _) hprev hplain,
        fun q t hrest => hall q t (.plain hplain hrest)⟩
  | hredacted prev s found lead gone rest hfound htaken ih =>
    intro p _
    have hlead : ∀ tail,
        AtEach (fun p u => atWordBoundary p = true → R (u ++ '‹' :: tail)) p lead := by
      intro tail
      refine atEach_inert fun front c back hdivide => hinert _ fun hstriking => ?_
      rcases htaken.lead_parts with rfl | ⟨name, separator, hparts⟩
      · simp at hdivide
      · exact hparts.not_striking hdivide (Striking.front (by decide) hstriking)
    have hclosing : ∀ p' tail, AtEach (fun p u => atWordBoundary p = true → R (u ++ tail)) p'
        found.closing.toList := by
      intro p' tail
      refine atEach_inert fun front c back hdivide => hinert _ (not_striking_of_head ?_)
      have hmem : c ∈ found.closing := Option.mem_toList.mp (by simp [hdivide])
      exact not_isWordChar_of_isQuote (htaken.closing c hmem)
    have hplaceholder : ∀ p' tail, AtEach (fun p u => atWordBoundary p = true → R (u ++ tail)) p'
        secretRedactionPlaceholder :=
      fun p' tail => atEach_inert fun front c back hdivide =>
        hinert _ (not_striking_placeholder hdivide)
    have hedge : atWordBoundary (lastOr (lastOr (lastOr p lead) secretRedactionPlaceholder)
        found.closing.toList) = atWordBoundary gone.getLast? ∨
        rest.head?.any isWordChar = false := by
      rcases htaken.edge with hrest | hgone
      · exact .inr hrest
      · refine .inl ?_
        have hgone : atWordBoundary gone.getLast? = true := by
          cases hlast : gone.getLast? with
          | none => rfl
          | some c =>
            have hc : isWordChar c = false := by simpa [hlast] using hgone
            simp [atWordBoundary, hc]
        rw [hgone]
        cases hquote : found.closing with
        | none => rfl
        | some c => simp [lastOr, atWordBoundary,
            not_isWordChar_of_isQuote (htaken.closing c hquote)]
    rw [htaken.redactFrom hfound, AtBoundaries, atEach_append, atEach_append, atEach_append]
    have ih := ih _ hedge
    rw [AtBoundaries] at ih
    rw [ih]
    constructor
    · rintro ⟨-, -, -, hothers⟩ q t hreached hq hcopied
      rcases (reached_redacted hfound htaken).mp hreached with ⟨rfl, rfl⟩ | hrest
      · rw [hfound] at hcopied
        contradiction
      · exact hothers q t hrest hq hcopied
    · intro hall
      exact ⟨hlead _, hplaceholder _ _, hclosing _ _,
        fun q t hrest => hall q t ((reached_redacted hfound htaken).mpr (.inr hrest))⟩

theorem redactFrom_eq_self_iff :
    redactFrom prev 0 s = s ↔ AtEach (fun p u => secretAt p u = none) prev s := by
  induction prev, s using scan_induction with
  | hnil prev => exact ⟨fun _ => trivial, fun _ => rfl⟩
  | hplain prev c rest hplain ih =>
    rw [redactFrom_plain hplain, AtEach, ← ih]
    simp [hplain]
  | hredacted prev s found lead gone rest hfound htaken ih =>
    constructor
    · intro hself
      rw [htaken.redactFrom hfound] at hself
      have hgone := List.append_cancel_left (hself.trans htaken.eq)
      have hhead := htaken.gone_head
      cases gone with
      | nil => contradiction
      | cons c gone =>
        obtain ⟨rfl, -⟩ := List.cons.inj hgone
        contradiction
    · intro hnone
      cases s with
      | nil =>
        rw [secretAt_nil] at hfound
        contradiction
      | cons c s =>
        rw [hnone.1] at hfound
        contradiction

theorem redactFrom_eq_self_iff_reached :
    redactFrom prev 0 s = s ↔ ∀ q t, Reached prev s q t → secretAt q t = none := by
  induction prev, s using scan_induction with
  | hnil prev =>
    refine ⟨fun _ q t hreached => ?_, fun _ => rfl⟩
    obtain ⟨-, rfl⟩ := reached_nil hreached
    exact secretAt_nil q
  | hplain prev c rest hplain ih =>
    rw [redactFrom_plain hplain, List.cons.injEq, eq_self, true_and, ih]
    constructor
    · intro hrest q t hreached
      rcases (reached_plain hplain).mp hreached with ⟨rfl, rfl⟩ | hthere
      · exact hplain
      · exact hrest q t hthere
    · exact fun hall q t hthere => hall q t (.plain hplain hthere)
  | hredacted prev s found lead gone rest hfound htaken ih =>
    constructor
    · intro hself
      have hnone := redactFrom_eq_self_iff.mp hself
      cases s with
      | nil =>
        rw [secretAt_nil] at hfound
        contradiction
      | cons c s =>
        rw [hnone.1] at hfound
        contradiction
    · intro hall
      rw [hall prev s (.here _ _)] at hfound
      contradiction

end Places

end Difflore.Observability
