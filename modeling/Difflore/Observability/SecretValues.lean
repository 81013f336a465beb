import Difflore.Observability.SecretShapes

/-! # Values behind a name

A bearer token and an assigned value are read alike: a lead that is kept, and the whole run of
token characters behind it.
-/

namespace Difflore.Observability

open Foundation Text

variable {c : Char} {name spaces lead s value rest : Text}

structure ValueReads (leads : Language Char) (s lead value rest : Text) : Prop where
  lead_mem : lead ∈ leads
  eq : s = lead ++ (value ++ rest)
  value_mem : value ∈ tokenWords
  rest_head : rest.head?.any isTokenChar = false

/-! ## Leads -/

def isSeparator (c : Char) : Bool := isWhitespace c || c = ':' || c = '=' || isQuote c

/-- A short name, and a separator in which at most the equals sign could be part of a token. -/
structure LeadParts (lead name separator : Text) : Prop where
  eq : lead = name ++ separator
  name_ne : name ≠ []
  name_head : name.head?.any isWordChar = true
  name_length : name.length ≤ 14
  name_all : name.all isSegmentChar = true
  separator_ne : separator ≠ []
  separator_all : separator.all isSeparator = true
  tokens : separator.countP isTokenChar ≤ 1

theorem not_isSegmentChar_of_isSeparator (hc : isSeparator c = true) : isSegmentChar c = false := by
  by_contra hsegment
  have htoken := isTokenChar_of_isSegmentChar (Bool.not_eq_false _ ▸ hsegment)
  have hspace := not_isWhitespace_of_isTokenChar htoken
  simp only [isSeparator, hspace, isQuote, Bool.false_or, Bool.or_eq_true, decide_eq_true_eq] at hc
  rcases hc with (rfl | rfl) | (rfl | rfl) | rfl <;> exact hsegment (by decide)

theorem toLower_eq_mark {mark : Char} (hlower : ¬ (97 ≤ mark.toNat ∧ mark.toNat ≤ 122))
    (hupper : ¬ (65 ≤ mark.toNat ∧ mark.toNat ≤ 90)) : c.toLower = mark ↔ c = mark := by
  rw [← Char.toNat_inj, ← Char.toNat_inj, toNat_toLower]
  split <;> omega

theorem isWordChar_toLower (c : Char) : isWordChar c.toLower = isWordChar c := by
  have hunderscore : c.toLower = '_' ↔ c = '_' := toLower_eq_mark (by decide) (by decide)
  simp only [isWordChar, isAlphanum_toLower, hunderscore]

theorem isSegmentChar_toLower (c : Char) : isSegmentChar c.toLower = isSegmentChar c := by
  have hhyphen : c.toLower = '-' ↔ c = '-' := toLower_eq_mark (by decide) (by decide)
  simp only [isSegmentChar, isWordChar_toLower, hhyphen]

theorem keywords_all : ∀ keyword ∈ keywords,
    (keyword.all isSegmentChar && keyword.head?.any isWordChar &&
      decide (keyword.length ≤ 14)) = true := by
  decide

theorem keywordWords_parts (hname : name ∈ keywordWords) :
    name.head?.any isWordChar = true ∧ name.length ≤ 14 ∧ name.all isSegmentChar = true := by
  have hkeyword := keywords_all _ hname
  simp only [Bool.and_eq_true, decide_eq_true_eq, toAsciiLowercase, List.length_map] at hkeyword
  obtain ⟨⟨hall, hhead⟩, hshort⟩ := hkeyword
  refine ⟨?_, hshort, ?_⟩
  · cases name with
    | nil => exact hhead
    | cons c name => simpa [isWordChar_toLower] using hhead
  · simpa [Function.comp_def, isSegmentChar_toLower] using hall

theorem countP_isTokenChar_spaces (hspaces : spaces.all isWhitespace = true) :
    spaces.countP isTokenChar = 0 := by
  refine List.countP_eq_zero.mpr fun c hc htoken => ?_
  have hspace := List.all_eq_true.mp hspaces c hc
  rw [not_isWhitespace_of_isTokenChar htoken] at hspace
  contradiction

theorem all_isSeparator_spaces (hspaces : spaces.all isWhitespace = true) :
    spaces.all isSeparator = true := by
  refine List.all_eq_true.mpr fun c hc => ?_
  simp [isSeparator, List.all_eq_true.mp hspaces c hc]

theorem exists_parts_bearer (hlead : lead ∈ bearerLead) :
    ∃ name separator, LeadParts lead name separator := by
  obtain ⟨name, hname, spaces, ⟨hlong, hspaces⟩, rfl⟩ := Language.mem_mul.mp hlead
  obtain rfl : name = "Bearer" := by simpa using hname
  exact ⟨_, spaces, rfl, by decide, by decide, by decide, by decide,
    List.ne_nil_of_length_pos hlong,
    all_isSeparator_spaces hspaces, by rw [countP_isTokenChar_spaces hspaces]; omega⟩

theorem exists_of_assignLead (hlead : lead ∈ assignLead) :
    ∃ name before operator behind quote, name ∈ keywordWords ∧
      before.all isWhitespace = true ∧ (operator = ':' ∨ operator = '=') ∧
      behind.all isWhitespace = true ∧ (∀ c ∈ quote, isQuote c = true) ∧
      lead = name ++ (before ++ operator :: (behind ++ Option.toList quote)) := by
  obtain ⟨name, hname, afterName, hafterName, rfl⟩ := Language.mem_mul.mp hlead
  obtain ⟨before, hbefore, afterBefore, hafterBefore, rfl⟩ := Language.mem_mul.mp hafterName
  obtain ⟨operator, hoperator, afterOperator, hafterOperator, rfl⟩ :=
    Language.mem_mul.mp hafterBefore
  obtain ⟨behind, hbehind, _, ⟨quote, hquote, rfl⟩, rfl⟩ := Language.mem_mul.mp hafterOperator
  have hbefore := hbefore.2
  have hbehind := hbehind.2
  have hoperator : operator = [':'] ∨ operator = ['='] := by simpa using hoperator
  rcases hoperator with rfl | rfl
  · exact ⟨name, before, ':', behind, quote, hname, hbefore, .inl rfl, hbehind, hquote, rfl⟩
  · exact ⟨name, before, '=', behind, quote, hname, hbefore, .inr rfl, hbehind, hquote, rfl⟩

theorem mem_assignLead {before behind : Text} {operator : Char} {quote : Option Char}
    (hname : name ∈ keywordWords) (hbefore : before.all isWhitespace = true)
    (hoperator : operator = ':' ∨ operator = '=') (hbehind : behind.all isWhitespace = true)
    (hquote : ∀ c ∈ quote, isQuote c = true) :
    name ++ (before ++ operator :: (behind ++ quote.toList)) ∈ assignLead := by
  refine Language.mem_mul.mpr ⟨name, hname, _,
    Language.mem_mul.mpr ⟨before, ⟨Nat.zero_le _, hbefore⟩,
    _, Language.mem_mul.mpr ⟨[operator], ?_, _, Language.mem_mul.mpr ⟨behind,
      ⟨Nat.zero_le _, hbehind⟩, _, ⟨quote, hquote, rfl⟩, rfl⟩, rfl⟩, rfl⟩, rfl⟩
  rcases hoperator with rfl | rfl <;> simp

theorem not_isTokenChar_of_isQuote (hc : isQuote c = true) : isTokenChar c = false := by
  simp only [isQuote, Bool.or_eq_true, decide_eq_true_eq] at hc
  rcases hc with (rfl | rfl) | rfl <;> decide

theorem not_isWhitespace_of_isQuote (hc : isQuote c = true) : isWhitespace c = false := by
  simp only [isQuote, Bool.or_eq_true, decide_eq_true_eq] at hc
  rcases hc with (rfl | rfl) | rfl <;> decide

theorem exists_parts_assign (hlead : lead ∈ assignLead) :
    ∃ name separator, LeadParts lead name separator := by
  obtain ⟨name, before, operator, behind, quote, hname, hbefore, hoperator, hbehind, hquote, rfl⟩ :=
    exists_of_assignLead hlead
  obtain ⟨hhead, hshort, hall⟩ := keywordWords_parts hname
  have hquoteTokens : quote.toList.countP isTokenChar = 0 := by
    cases quote with
    | none => rfl
    | some c => simp [not_isTokenChar_of_isQuote (hquote c rfl)]
  have hquoteAll : quote.toList.all isSeparator = true := by
    cases quote with
    | none => rfl
    | some c => simp [isSeparator, hquote c rfl]
  have hoperatorAll : isSeparator operator = true := by
    rcases hoperator with rfl | rfl <;> decide
  have hne : name ≠ [] := by
    rintro rfl
    contradiction
  refine ⟨name, _, rfl, hne, hhead, hshort, hall, by simp, ?_, ?_⟩
  · rw [List.all_append, List.all_cons, List.all_append, all_isSeparator_spaces hbefore,
      all_isSeparator_spaces hbehind, hquoteAll, hoperatorAll]
    rfl
  · rw [List.countP_append, List.countP_cons, List.countP_append,
      countP_isTokenChar_spaces hbefore, countP_isTokenChar_spaces hbehind, hquoteTokens]
    split <;> omega

theorem ValueReads.head_value {leads : Language Char}
    (hreads : ValueReads leads s lead value rest) :
    ∃ c tail, value = c :: tail ∧ isTokenChar c = true := by
  obtain ⟨hlong, hall⟩ := hreads.value_mem
  cases value with
  | nil => exact absurd hlong (by decide)
  | cons c tail => exact ⟨c, tail, rfl, List.all_eq_true.mp hall c (.head _ ..)⟩

theorem ValueReads.bearer (hreads : ValueReads bearerLead s lead value rest) :
    matchBearerSecret s = some (lead.length, lead.length + value.length) := by
  obtain ⟨c, tail, hvalue, hc⟩ := hreads.head_value
  obtain ⟨name, hname, spaces, ⟨hlong, hspaces⟩, rfl⟩ := Language.mem_mul.mp hreads.lead_mem
  obtain rfl : name = "Bearer" := by simpa using hname
  have hs : s = "Bearer" ++ (spaces ++ (value ++ rest)) := by simp [hreads.eq]
  have htail : (value ++ rest).head?.any isWhitespace = false := by
    rw [hvalue]
    exact not_isWhitespace_of_isTokenChar hc
  have hdrop : s.drop 6 = spaces ++ (value ++ rest) := by rw [hs]; rfl
  have hne : spaces ≠ [] := List.ne_nil_of_length_pos hlong
  simp only [matchBearerSecret, hdrop, takeWhile_append_of_head hspaces htail, List.drop_left,
    takeWhile_append_of_head hreads.value_mem.2 hreads.rest_head, if_neg hne,
    if_neg (Nat.not_lt.mpr hreads.value_mem.1)]
  rw [if_pos ⟨_, hs.symm⟩, List.length_append]
  rfl

theorem exists_of_matchBearerSecret {stops : Nat × Nat}
    (hmatch : matchBearerSecret s = some stops) :
    ∃ lead value rest, ValueReads bearerLead s lead value rest := by
  unfold matchBearerSecret at hmatch
  obtain ⟨⟨afterHead, rfl⟩, hmatch⟩ := Option.ite_none_right_eq_some.mp hmatch
  obtain ⟨hspaces, hmatch⟩ := Option.ite_none_left_eq_some.mp hmatch
  obtain ⟨hlong, -⟩ := Option.ite_none_left_eq_some.mp hmatch
  have hdrop : ("Bearer" ++ afterHead).drop 6 = afterHead := rfl
  rw [hdrop] at hspaces hlong
  rw [drop_length_takeWhile] at hlong
  refine ⟨"Bearer" ++ afterHead.takeWhile isWhitespace,
    (afterHead.dropWhile isWhitespace).takeWhile isTokenChar,
    (afterHead.dropWhile isWhitespace).dropWhile isTokenChar, ?_, ?_,
    ⟨Nat.le_of_not_lt hlong, all_takeWhile _ _⟩, head_dropWhile _ _⟩
  · exact Language.mem_mul.mpr ⟨_, by simp, _,
      ⟨List.length_pos_of_ne_nil hspaces, all_takeWhile _ _⟩, rfl⟩
  · rw [List.takeWhile_append_dropWhile, List.append_assoc, List.takeWhile_append_dropWhile]

/-! ## Assignments -/

theorem max?_keywords {tail : Text} (hname : name ∈ keywordWords)
    (htail : tail.head?.any isSegmentChar = false) :
    ((keywords.filter (startsWithCharsCi (name ++ tail))).map List.length).max? =
      some name.length := by
  have hlower : (toAsciiLowercase name).length = name.length := List.length_map ..
  refine List.max?_eq_some_iff.mpr ⟨?_, fun n hn => ?_⟩
  · refine List.mem_map.mpr ⟨toAsciiLowercase name, List.mem_filter.mpr ⟨hname, ?_⟩, hlower⟩
    simp [startsWithCharsCi, toAsciiLowercase]
  · obtain ⟨keyword, hkeyword, rfl⟩ := List.mem_map.mp hn
    obtain ⟨hmem, hstarts⟩ := List.mem_filter.mp hkeyword
    have hstarts : keyword <+: toAsciiLowercase name ++ toAsciiLowercase tail := by
      simpa [startsWithCharsCi, toAsciiLowercase] using hstarts
    by_contra hlong
    cases tail with
    | nil =>
      have hle := hstarts.length_le
      simp [toAsciiLowercase] at hle
      omega
    | cons c tail =>
      -- a longer keyword would go on with the character behind the name
      have hc : toAsciiLowercase name ++ [c.toLower] <+: keyword := by
        refine List.prefix_of_prefix_length_le ⟨toAsciiLowercase tail, ?_⟩ hstarts ?_
        · simp [toAsciiLowercase]
        · rw [List.length_append, hlower]
          simp only [List.length_singleton]
          omega
      have hall := keywords_all keyword hmem
      simp only [Bool.and_eq_true] at hall
      have hsegment := List.all_eq_true.mp hall.1.1 c.toLower (hc.subset (by simp))
      rw [isSegmentChar_toLower] at hsegment
      have hcfalse : isSegmentChar c = false := htail
      rw [hcfalse] at hsegment
      contradiction

theorem head_spaces {p : Char → Bool} (hspaces : spaces.all isWhitespace = true)
    (hp : ∀ c, isWhitespace c = true → p c = false) (hrest : rest.head?.any p = false) :
    (spaces ++ rest).head?.any p = false := by
  cases spaces with
  | nil => exact hrest
  | cons c spaces => exact hp c (List.all_eq_true.mp hspaces c (.head _ ..))

theorem not_isSegmentChar_of_isWhitespace (c : Char) (hc : isWhitespace c = true) :
    isSegmentChar c = false :=
  not_isSegmentChar_of_isSeparator (by rw [isSeparator, hc]; rfl)

theorem quoteOf_append {quote : Option Char} (hquote : ∀ c ∈ quote, isQuote c = true)
    (hrest : quoteOf rest = none) : quoteOf (quote.toList ++ rest) = quote := by
  cases quote with
  | none => exact hrest
  | some c => simp [quoteOf, hquote c rfl]

theorem quoteOf_append_drop (s : Text) :
    (quoteOf s).toList ++ s.drop (quoteOf s).toList.length = s := by
  cases s with
  | nil => rfl
  | cons c s =>
    rw [quoteOf, List.head?_cons, Option.filter_some]
    split <;> rfl

theorem ValueReads.named (hreads : ValueReads assignLead s lead value rest) :
    ∃ quote, (∀ c ∈ quote, isQuote c = true) ∧ matchNamedSecretAssign s =
      some ⟨lead.length, lead.length + value.length, quote,
        lead.length + value.length + (quoteOf rest).toList.length⟩ := by
  obtain ⟨c, valueTail, hvalue, hc⟩ := hreads.head_value
  obtain ⟨name, before, operator, behind, quote,
    hname, hbefore, hoperator, hbehind, hquote, hlead⟩ :=
    exists_of_assignLead hreads.lead_mem
  have hs : s = name ++ (before ++ operator :: (behind ++ (quote.toList ++ (value ++ rest)))) := by
    simp [hreads.eq, hlead]
  have hoperatorSpace : isWhitespace operator = false := by
    rcases hoperator with rfl | rfl <;> decide
  have hoperatorSegment : isSegmentChar operator = false := by
    rcases hoperator with rfl | rfl <;> decide
  have hafterName : (before ++ operator :: (behind ++ (quote.toList ++ (value ++ rest)))).head?.any
      isSegmentChar = false :=
    head_spaces hbefore not_isSegmentChar_of_isWhitespace hoperatorSegment
  have hnoQuote : quoteOf (value ++ rest) = none := by
    have hcQuote : isQuote c = false := by
      by_contra hq
      rw [not_isTokenChar_of_isQuote (Bool.not_eq_false _ ▸ hq)] at hc
      contradiction
    simp [quoteOf, hvalue, hcQuote]
  have hopened : (quote.toList ++ (value ++ rest)).head?.any isWhitespace = false := by
    cases quote with
    | none =>
      rw [hvalue]
      exact not_isWhitespace_of_isTokenChar hc
    | some q => exact not_isWhitespace_of_isQuote (hquote q rfl)
  have hquoteOf := quoteOf_append hquote hnoQuote
  refine ⟨quote, hquote, ?_⟩
  have hmax := max?_keywords hname hafterName
  rw [← hs] at hmax
  have hdrop : s.drop name.length =
      before ++ operator :: (behind ++ (quote.toList ++ (value ++ rest))) := by
    rw [hs, List.drop_left]
  have hlength : lead.length =
      name.length + before.length + 1 + behind.length + quote.toList.length := by
    rw [hlead]
    simp only [List.length_append, List.length_cons]
    omega
  have htakeBefore : (before ++ operator :: (behind ++ (quote.toList ++ (value ++ rest)))).takeWhile
      isWhitespace = before :=
    takeWhile_append_of_head hbefore hoperatorSpace
  unfold matchNamedSecretAssign
  simp only [hmax, hdrop, any_isWordChar_of_any_isSegmentChar hafterName, htakeBefore,
    List.drop_left]
  simp only [takeWhile_append_of_head hbehind hopened, List.drop_left, hquoteOf,
    takeWhile_append_of_head hreads.value_mem.2 hreads.rest_head,
    if_neg (Nat.not_lt.mpr hreads.value_mem.1), hlength]
  rcases hoperator with rfl | rfl <;> simp

theorem exists_of_matchNamedSecretAssign {found : NamedAssignMatch}
    (hmatch : matchNamedSecretAssign s = some found) :
    ∃ lead value rest, ValueReads assignLead s lead value rest := by
  unfold matchNamedSecretAssign at hmatch
  cases hmax : ((keywords.filter (startsWithCharsCi s)).map List.length).max? with
  | none =>
    rw [hmax] at hmatch
    contradiction
  | some kwLen =>
    simp only [hmax] at hmatch
    obtain ⟨-, hmatch⟩ := Option.ite_none_left_eq_some.mp hmatch
    obtain ⟨keyword, hkeyword, rfl⟩ := List.mem_map.mp (List.max?_mem hmax)
    obtain ⟨hmem, hstarts⟩ := List.mem_filter.mp hkeyword
    have hstarts : keyword <+: toAsciiLowercase s := by simpa [startsWithCharsCi] using hstarts
    have hname : s.take keyword.length ∈ keywordWords := by
      have hlower : toAsciiLowercase (s.take keyword.length) = keyword := by
        rw [toAsciiLowercase, List.map_take]
        exact (List.prefix_iff_eq_take.mp hstarts).symm
      change toAsciiLowercase (s.take keyword.length) ∈ keywords
      rw [hlower]
      exact hmem
    rw [drop_length_takeWhile] at hmatch
    cases hafter : (s.drop keyword.length).dropWhile isWhitespace with
    | nil =>
      rw [hafter] at hmatch
      contradiction
    | cons operator afterOperator =>
      simp only [hafter] at hmatch
      obtain ⟨hoperator, hmatch⟩ := Option.ite_none_right_eq_some.mp hmatch
      obtain ⟨hlong, -⟩ := Option.ite_none_left_eq_some.mp hmatch
      have hoperator : operator = ':' ∨ operator = '=' := by simpa using hoperator
      rw [drop_length_takeWhile] at hlong
      generalize hquoted : afterOperator.dropWhile isWhitespace = quoted at hlong
      have hquote : ∀ c ∈ quoteOf quoted, isQuote c = true :=
        fun c hc => (Option.filter_eq_some_iff.mp hc).2
      refine ⟨_, _, (quoted.drop (quoteOf quoted).toList.length).dropWhile isTokenChar,
        mem_assignLead hname (all_takeWhile _ (s.drop keyword.length)) hoperator
          (all_takeWhile _ afterOperator) hquote, ?_,
        ⟨Nat.le_of_not_lt hlong, all_takeWhile _ _⟩, head_dropWhile _ _⟩
      rw [List.takeWhile_append_dropWhile]
      calc s = s.take keyword.length ++ s.drop keyword.length := (List.take_append_drop _ s).symm
        _ = s.take keyword.length ++ ((s.drop keyword.length).takeWhile isWhitespace ++
              operator :: (afterOperator.takeWhile isWhitespace ++ quoted)) := by
            rw [← hquoted, List.takeWhile_append_dropWhile, ← hafter,
              List.takeWhile_append_dropWhile]
        _ = _ := by
            conv_lhs => rw [← quoteOf_append_drop quoted]
            simp only [List.append_assoc, List.cons_append]

theorem span_value (hs : s = lead ++ (value ++ rest)) :
    span s lead.length (lead.length + value.length) = value := by
  rw [span, hs, List.take_length_add_append, List.drop_left, List.take_left]

theorem ValueReads.bearerSecret (hreads : ValueReads bearerLead s lead value rest) :
    bearerSecret s = if looksLikeCodeReference value then none
      else some ⟨lead.length, lead.length + value.length, none⟩ := by
  unfold Observability.bearerSecret
  rw [hreads.bearer]
  simp only [Option.bind_some, span_value hreads.eq]
  cases looksLikeCodeReference value <;> rfl

theorem ValueReads.namedSecret (hreads : ValueReads assignLead s lead value rest) :
    ∃ quote, (∀ c ∈ quote, isQuote c = true) ∧ namedSecret s =
      if !looksLikeCodeReference value && hasSecretEntropy value then
        some ⟨lead.length, lead.length + value.length + (quoteOf rest).toList.length, quote⟩
      else none := by
  obtain ⟨quote, hquote, hmatch⟩ := hreads.named
  refine ⟨quote, hquote, ?_⟩
  unfold Observability.namedSecret
  rw [hmatch]
  simp only [Option.bind_some, span_value hreads.eq]

theorem exists_of_bearerSecret {found : Redaction} (hfound : bearerSecret s = some found) :
    ∃ lead value rest, ValueReads bearerLead s lead value rest ∧
      looksLikeCodeReference value = false ∧
      found = ⟨lead.length, lead.length + value.length, none⟩ := by
  obtain ⟨_, hmatch, -⟩ := Option.bind_eq_some_iff.mp hfound
  obtain ⟨lead, value, rest, hreads⟩ := exists_of_matchBearerSecret hmatch
  rw [hreads.bearerSecret] at hfound
  obtain ⟨href, hfound⟩ := Option.ite_none_left_eq_some.mp hfound
  exact ⟨lead, value, rest, hreads, Bool.not_eq_true _ ▸ href, (Option.some.inj hfound).symm⟩

theorem exists_of_namedSecret {found : Redaction} (hfound : namedSecret s = some found) :
    ∃ lead value rest quote, ValueReads assignLead s lead value rest ∧
      (looksLikeCodeReference value = false ∧ hasSecretEntropy value = true) ∧
      (∀ c ∈ quote, isQuote c = true) ∧
      found = ⟨lead.length, lead.length + value.length + (quoteOf rest).toList.length, quote⟩ := by
  obtain ⟨_, hmatch, -⟩ := Option.bind_eq_some_iff.mp hfound
  obtain ⟨lead, value, rest, hreads⟩ := exists_of_matchNamedSecretAssign hmatch
  obtain ⟨quote, hquote, hnamed⟩ := hreads.namedSecret
  rw [hnamed] at hfound
  obtain ⟨hvalue, hfound⟩ := Option.ite_none_right_eq_some.mp hfound
  have hvalue : looksLikeCodeReference value = false ∧ hasSecretEntropy value = true := by
    simpa using hvalue
  exact ⟨lead, value, rest, quote, hreads, hvalue, hquote, (Option.some.inj hfound).symm⟩

end Difflore.Observability
