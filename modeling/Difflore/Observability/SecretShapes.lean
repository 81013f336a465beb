import Difflore.Foundation.Runs
import Difflore.Observability.Secrets

/-! # What the scanner matches

The documented shapes as languages, and for each matcher what it accepts.
-/

namespace Difflore.Observability

open Foundation Text

variable {c : Char} {shape : ProviderShape} {run head header : Text}

def oneOf (heads : List Text) : Language Char := {head | head ∈ heads}

@[simp] theorem mem_oneOf {heads : List Text} {word : Text} : word ∈ oneOf heads ↔ word ∈ heads :=
  Iff.rfl

def ProviderShape.words (shape : ProviderShape) : Language Char :=
  oneOf shape.heads * atLeast shape.least shape.body

/-- `eyJ[\w-]{10,}\.[\w-]{10,}\.[\w-]{10,}` -/
def jwtWords : Language Char := oneOf ["eyJ"] * (atLeast 10 isSegmentChar * (oneOf [['.']] *
    (atLeast 10 isSegmentChar * (oneOf [['.']] * atLeast 10 isSegmentChar))))

def providerWords : Language Char :=
  {word | (∃ shape ∈ providerShapes, word ∈ shape.words) ∨ word ∈ jwtWords}

/-- `[\w.~+/=-]{12,}` -/
def tokenWords : Language Char := atLeast 12 isTokenChar

def bearerLead : Language Char := oneOf ["Bearer"] * atLeast 1 isWhitespace

def keywordWords : Language Char := {name | toAsciiLowercase name ∈ keywords}

def quoteWords : Language Char :=
  {opening | ∃ quote : Option Char, (∀ c ∈ quote, isQuote c = true) ∧ opening = quote.toList}

/-- `<keyword>\s*[:=]\s*` and at most one opening quote. -/
def assignLead : Language Char := keywordWords * (atLeast 0 isWhitespace * (oneOf [[':'], ['=']] *
    (atLeast 0 isWhitespace * quoteWords)))

/-- `\b` between two characters, of which an end of the text has none. -/
def WordBoundary (before after : Option Char) : Prop := before.any isWordChar ≠ after.any isWordChar

instance (before after : Option Char) : Decidable (WordBoundary before after) :=
  inferInstanceAs (Decidable (_ ≠ _))

/-- A word of the language stands in the text, with a word boundary at both ends. -/
def Delimited (words : Language Char) (text : Text) : Prop :=
  ∃ front word rest, text = front ++ (word ++ rest) ∧ word ∈ words ∧
    WordBoundary front.getLast? word.head? ∧ WordBoundary word.getLast? rest.head?

/-- A word of the language stands in the text, with a word boundary in front. -/
def Begins (words : Language Char) (text : Text) : Prop :=
  ∃ front word rest, text = front ++ (word ++ rest) ∧ word ∈ words ∧
    WordBoundary front.getLast? word.head?

def PlainText (text : Text) : Prop :=
  ¬ Delimited providerWords text ∧ ¬ Begins (bearerLead * tokenWords) text ∧
    ¬ Begins (assignLead * tokenWords) text

theorem isSegmentChar_of_isWordChar (hc : isWordChar c = true) : isSegmentChar c = true := by
  rw [isSegmentChar, hc, Bool.true_or]

theorem isTokenChar_of_isSegmentChar (hc : isSegmentChar c = true) : isTokenChar c = true := by
  simp only [isSegmentChar, isWordChar, Bool.or_eq_true, decide_eq_true_eq] at hc
  simp only [isTokenChar, Bool.or_eq_true, decide_eq_true_eq]
  tauto

theorem not_isWhitespace_of_isTokenChar (hc : isTokenChar c = true) : isWhitespace c = false := by
  simp only [isTokenChar, Bool.or_eq_true, decide_eq_true_eq] at hc
  rcases hc with ((((((hc | rfl) | rfl) | rfl) | rfl) | rfl) | rfl) | rfl
  · exact not_isWhitespace_of_isAlphanum hc
  all_goals decide

/-! ## Provider shapes -/

theorem matchPrefixRun_append {rest : Text} {least : Nat} {pred : Char → Bool}
    (hrun : run.all pred = true) (hrest : rest.head?.any pred = false) :
    matchPrefixRun (run ++ rest) least pred =
      if least ≤ run.length ∧ rest.head?.any isWordChar = false then some run.length
      else none := by
  unfold matchPrefixRun
  simp only [takeWhile_append_of_head hrun hrest, List.drop_left]
  by_cases hlong : least ≤ run.length
  · simp [hlong, Nat.not_lt.mpr hlong]
    cases rest.head?.any isWordChar <;> simp
  · simp [hlong, Nat.lt_of_not_le hlong]

structure ProviderShape.Reads (shape : ProviderShape) (s head run rest : Text) : Prop where
  head_mem : head ∈ shape.heads
  eq : s = head ++ (run ++ rest)
  run_all : run.all shape.body = true
  rest_head : rest.head?.any shape.body = false

theorem ProviderShape.length_heads : ∀ shape ∈ providerShapes, ∀ a ∈ shape.heads,
    ∀ b ∈ shape.heads, a.length = b.length := by decide

theorem ProviderShape.exists_reads (shape : ProviderShape) {s : Text} (hhead : head ∈ shape.heads)
    (hs : head <+: s) :
    ∃ run rest, shape.Reads s head run rest := by
  obtain ⟨tail, rfl⟩ := hs
  exact ⟨tail.takeWhile shape.body, tail.dropWhile shape.body, hhead,
    by rw [List.takeWhile_append_dropWhile], all_takeWhile _ _, head_dropWhile _ _⟩

theorem ProviderShape.find?_heads (hshape : shape ∈ providerShapes) {s rest : Text}
    (hreads : shape.Reads s head run rest) :
    shape.heads.find? (· <+: s) = some head := by
  have hs : head <+: s := ⟨run ++ rest, hreads.eq.symm⟩
  cases hfind : shape.heads.find? (· <+: s) with
  | none => simpa [hs] using List.find?_eq_none.mp hfind head hreads.head_mem
  | some other =>
    have hother : other <+: s := by simpa using List.find?_some hfind
    have hlength := ProviderShape.length_heads shape hshape other
      (List.mem_of_find?_eq_some hfind) head hreads.head_mem
    rw [(List.prefix_of_prefix_length_le hother hs hlength.le).eq_of_length hlength]

theorem ProviderShape.Reads.matchAt (hshape : shape ∈ providerShapes) {s rest : Text}
    (hreads : shape.Reads s head run rest) :
    shape.matchAt s = if shape.least ≤ run.length ∧ rest.head?.any isWordChar = false then
        some (head.length + run.length)
      else none := by
  have htail : s.drop head.length = run ++ rest := by rw [hreads.eq, List.drop_left]
  rw [ProviderShape.matchAt, ProviderShape.find?_heads hshape hreads, Option.bind_some, htail,
    matchPrefixRun_append hreads.run_all hreads.rest_head]
  split <;> rfl

theorem ProviderShape.exists_of_matchAt (hshape : shape ∈ providerShapes) {s : Text} {stop : Nat}
    (hmatch : shape.matchAt s = some stop) :
    ∃ head run rest, shape.Reads s head run rest ∧ shape.least ≤ run.length ∧
      rest.head?.any isWordChar = false ∧ stop = head.length + run.length := by
  obtain ⟨head, hfind, -⟩ := Option.bind_eq_some_iff.mp hmatch
  obtain ⟨run, rest, hreads⟩ := shape.exists_reads (List.mem_of_find?_eq_some hfind)
    (by simpa using List.find?_some hfind)
  rw [hreads.matchAt hshape] at hmatch
  obtain ⟨⟨hlong, hrest⟩, hstop⟩ := Option.ite_none_right_eq_some.mp hmatch
  exact ⟨head, run, rest, hreads, hlong, hrest, (Option.some.inj hstop).symm⟩

theorem jwtSegment_eq_some {s rest : Text} {n : Nat} :
    jwtSegment s = some (n, rest) ↔ ∃ run, s = run ++ rest ∧ run ∈ atLeast 10 isSegmentChar ∧
      rest.head?.any isSegmentChar = false ∧ n = run.length := by
  unfold jwtSegment
  constructor
  · intro hsegment
    obtain ⟨hlong, hpair⟩ := Option.ite_none_left_eq_some.mp hsegment
    obtain ⟨rfl, rfl⟩ := Prod.mk.inj (Option.some.inj hpair)
    rw [drop_length_takeWhile]
    exact ⟨s.takeWhile isSegmentChar, List.takeWhile_append_dropWhile.symm,
      ⟨Nat.le_of_not_lt hlong, all_takeWhile _ _⟩, head_dropWhile _ _, rfl⟩
  · rintro ⟨run, rfl, ⟨hlong, hrun⟩, hrest, rfl⟩
    simp only [takeWhile_append_of_head hrun hrest, List.drop_left, if_neg (Nat.not_lt.mpr hlong)]

structure JwtReads (s header payload signature rest : Text) : Prop where
  eq : s = header ++ '.' :: (payload ++ '.' :: (signature ++ rest))
  header_mem : header ∈ atLeast 10 isSegmentChar
  payload_mem : payload ∈ atLeast 10 isSegmentChar
  signature_mem : signature ∈ atLeast 10 isSegmentChar
  rest_head : rest.head?.any isSegmentChar = false

theorem any_isWordChar_of_any_isSegmentChar {c : Option Char}
    (hc : c.any isSegmentChar = false) : c.any isWordChar = false := by
  cases c with
  | none => rfl
  | some c =>
    have hc : isSegmentChar c = false := hc
    exact (Bool.or_eq_false_iff.mp hc).1

theorem matchJwt_eq_some {s : Text} {stop : Nat} :
    matchJwt s = some stop ↔ ∃ header payload signature rest,
      JwtReads s header payload signature rest ∧
        stop = header.length + 1 + payload.length + 1 + signature.length := by
  constructor
  · intro hmatch
    unfold matchJwt at hmatch
    split at hmatch
    next first afterFirst hfirst =>
      split at hmatch
      next second afterSecond hsecond =>
        split at hmatch
        next third rest hthird =>
          obtain ⟨header, rfl, hheader, -, rfl⟩ := jwtSegment_eq_some.mp hfirst
          obtain ⟨payload, rfl, hpayload, -, rfl⟩ := jwtSegment_eq_some.mp hsecond
          obtain ⟨signature, rfl, hsignature, hrest, rfl⟩ := jwtSegment_eq_some.mp hthird
          obtain ⟨-, hstop⟩ := Option.ite_none_left_eq_some.mp hmatch
          exact ⟨header, payload, signature, rest,
            ⟨rfl, hheader, hpayload, hsignature, hrest⟩, (Option.some.inj hstop).symm⟩
        next => contradiction
      next => contradiction
    next => contradiction
  · rintro ⟨header, payload, signature, rest, hreads, rfl⟩
    have hdot : ∀ tail : Text, ('.' :: tail).head?.any isSegmentChar = false := fun _ => rfl
    have hfirst := jwtSegment_eq_some.mpr ⟨header, hreads.eq, hreads.header_mem, hdot _, rfl⟩
    have hsecond := jwtSegment_eq_some.mpr ⟨payload, rfl, hreads.payload_mem,
      hdot (signature ++ rest), rfl⟩
    have hthird := jwtSegment_eq_some.mpr ⟨signature, rfl, hreads.signature_mem,
      hreads.rest_head, rfl⟩
    simp [matchJwt, hfirst, hsecond, hthird, any_isWordChar_of_any_isSegmentChar hreads.rest_head]

/-! ## Credentials that are known by their shape -/

/-- The word with which a credential is known at the start of the text, and what is left. -/
inductive Known (s : Text) : Text → Text → Prop
  | shape {shape : ProviderShape} {head run rest : Text} (hshape : shape ∈ providerShapes)
      (hreads : shape.Reads s head run rest) (hlong : shape.least ≤ run.length)
      (hrest : rest.head?.any isWordChar = false) : Known s (head ++ run) rest
  | jwt {header payload signature rest : Text} (hhead : "eyJ" <+: header)
      (hreads : JwtReads s header payload signature rest) :
      Known s (header ++ '.' :: (payload ++ '.' :: signature)) rest

theorem JwtReads.prefix_iff {s payload signature rest : Text}
    (hreads : JwtReads s header payload signature rest) :
    "eyJ" <+: s ↔ "eyJ" <+: header := by
  refine ⟨fun hs => ?_, fun hhead => hhead.trans ⟨_, hreads.eq.symm⟩⟩
  refine List.prefix_of_prefix_length_le hs ⟨_, hreads.eq.symm⟩ ?_
  exact le_trans (by decide) hreads.header_mem.1

theorem exists_known {s : Text} {found : Redaction} (hfound : knownSecret s = some found) :
    ∃ word rest, Known s word rest ∧ found = ⟨0, word.length, none⟩ := by
  obtain ⟨stop, hstop, rfl⟩ := Option.map_eq_some_iff.mp hfound
  unfold matchKnownPrefixSecret at hstop
  cases hfind : providerShapes.findSome? (·.matchAt s) with
  | some first =>
    rw [hfind] at hstop
    obtain rfl := Option.some.inj hstop
    obtain ⟨shape, hshape, hmatch⟩ := List.exists_of_findSome?_eq_some hfind
    obtain ⟨head, run, rest, hreads, hlong, hrest, rfl⟩ :=
      ProviderShape.exists_of_matchAt hshape hmatch
    exact ⟨_, rest, .shape hshape hreads hlong hrest, by rw [List.length_append]⟩
  | none =>
    rw [hfind] at hstop
    obtain ⟨hhead, hmatch⟩ := Option.ite_none_right_eq_some.mp hstop
    obtain ⟨header, payload, signature, rest, hreads, rfl⟩ := matchJwt_eq_some.mp hmatch
    refine ⟨_, rest, .jwt (hreads.prefix_iff.mp hhead) hreads, ?_⟩
    simp only [List.length_append, List.length_cons]
    congr 1
    omega

theorem Known.isSome {s word rest : Text} (hknown : Known s word rest) : knownSecret s ≠ none := by
  simp only [knownSecret, ne_eq, Option.map_eq_none_iff]
  unfold matchKnownPrefixSecret
  cases hfind : providerShapes.findSome? (·.matchAt s) with
  | some stop => simp
  | none =>
    have hnone := List.findSome?_eq_none_iff.mp hfind
    cases hknown with
    | shape hshape hreads hlong hrest =>
      have hmatch := hnone _ hshape
      simp [hreads.matchAt hshape, hlong, hrest] at hmatch
    | jwt hhead hreads =>
      have hmatch := matchJwt_eq_some.mpr ⟨_, _, _, _, hreads, rfl⟩
      rw [if_pos (hreads.prefix_iff.mpr hhead), hmatch]
      simp

namespace Known

variable {s word rest : Text}

theorem eq (hknown : Known s word rest) : s = word ++ rest := by
  cases hknown with
  | shape hshape hreads hlong hrest => rw [hreads.eq, List.append_assoc]
  | jwt hhead hreads => simp [hreads.eq]

theorem rest_head (hknown : Known s word rest) : rest.head?.any isWordChar = false := by
  cases hknown with
  | shape hshape hreads hlong hrest => exact hrest
  | jwt hhead hreads => exact any_isWordChar_of_any_isSegmentChar hreads.rest_head

end Known

/-- `[\w.-]`: what a credential is made of. -/
def isDense (c : Char) : Bool := isSegmentChar c || c = '.'

theorem ProviderShape.all_heads : ∀ shape ∈ providerShapes, ∀ head ∈ shape.heads,
    (head.head?.any isWordChar && head.all isDense &&
      decide (20 ≤ head.length + shape.least)) = true := by decide

theorem ProviderShape.isAlphanum_of_awsKey {c : Char} (hc : awsKey.body c = true) :
    c.isAlphanum = true := by
  simp only [awsKey, Bool.or_eq_true] at hc
  unfold Char.isAlphanum Char.isAlpha
  rcases hc with hc | hc <;> simp [hc]

theorem ProviderShape.isSegmentChar_of_body : ∀ shape ∈ providerShapes, ∀ c,
    shape.body c = true → isSegmentChar c = true := by
  have halnum : ∀ c : Char, c.isAlphanum = true → isSegmentChar c = true := by
    intro c hc
    simp [isSegmentChar, isWordChar, hc]
  intro shape hshape c hc
  simp only [providerShapes, List.mem_cons, List.not_mem_nil, or_false] at hshape
  rcases hshape with rfl | rfl | rfl | rfl | rfl
  · exact halnum c hc
  · exact isSegmentChar_of_isWordChar hc
  · exact halnum c hc
  · simp only [slackToken, Bool.or_eq_true, decide_eq_true_eq] at hc
    rcases hc with hc | rfl
    · exact halnum c hc
    · rfl
  · exact halnum c (isAlphanum_of_awsKey hc)

theorem all_isDense (hrun : run.all isSegmentChar = true) : run.all isDense = true := by
  refine List.all_eq_true.mpr fun c hc => ?_
  rw [isDense, List.all_eq_true.mp hrun c hc, Bool.true_or]

def Dense (word : Text) : Prop :=
  20 ≤ word.length ∧ word.all isDense = true ∧ word.head?.any isWordChar = true

theorem ProviderShape.dense (hshape : shape ∈ providerShapes) {word : Text}
    (hword : word ∈ shape.words) : Dense word := by
  obtain ⟨head, hhead, run, ⟨hlong, hbody⟩, rfl⟩ := Language.mem_mul.mp hword
  have hall := ProviderShape.all_heads shape hshape head hhead
  simp only [Bool.and_eq_true, decide_eq_true_eq] at hall
  obtain ⟨⟨hfirst, hdense⟩, hlength⟩ := hall
  have hrun : run.all isSegmentChar = true := List.all_eq_true.mpr fun c hc =>
    ProviderShape.isSegmentChar_of_body shape hshape c (List.all_eq_true.mp hbody c hc)
  refine ⟨?_, ?_, ?_⟩
  · rw [List.length_append]
    omega
  · rw [List.all_append, hdense, all_isDense hrun]
    rfl
  · cases head with
    | nil => contradiction
    | cons c head => exact hfirst

theorem dense_of_segments {payload signature : Text} (hhead : "eyJ" <+: header)
    (hheader : header ∈ atLeast 10 isSegmentChar) (hpayload : payload ∈ atLeast 10 isSegmentChar)
    (hsignature : signature ∈ atLeast 10 isSegmentChar) :
    Dense (header ++ '.' :: (payload ++ '.' :: signature)) := by
  refine ⟨?_, ?_, ?_⟩
  · have hheader := hheader.1
    have hpayload := hpayload.1
    simp only [List.length_append, List.length_cons] at hheader ⊢
    omega
  · have hdot : isDense '.' = true := by decide
    rw [List.all_append, List.all_cons, List.all_append, List.all_cons, all_isDense hheader.2,
      all_isDense hpayload.2, all_isDense hsignature.2, hdot]
    rfl
  · obtain ⟨tail, rfl⟩ := hhead
    rfl

theorem Known.dense {s word rest : Text} (hknown : Known s word rest) : Dense word := by
  cases hknown with
  | shape hshape hreads hlong hrest =>
    exact ProviderShape.dense hshape
      (Language.mem_mul.mpr ⟨_, hreads.head_mem, _, ⟨hlong, hreads.run_all⟩, rfl⟩)
  | jwt hhead hreads =>
    exact dense_of_segments hhead hreads.header_mem hreads.payload_mem hreads.signature_mem

theorem mem_jwtWords {word : Text} : word ∈ jwtWords ↔ ∃ header payload signature,
    header ∈ atLeast 10 isSegmentChar ∧ payload ∈ atLeast 10 isSegmentChar ∧
      signature ∈ atLeast 10 isSegmentChar ∧
      word = ("eyJ" ++ header) ++ '.' :: (payload ++ '.' :: signature) := by
  constructor
  · intro hword
    obtain ⟨first, hfirst, tail, htail, rfl⟩ := Language.mem_mul.mp hword
    obtain ⟨header, hheader, tail, hafterHeader, rfl⟩ := Language.mem_mul.mp htail
    obtain ⟨dot, hdot, tail, hafterDot, rfl⟩ := Language.mem_mul.mp hafterHeader
    obtain ⟨payload, hpayload, tail, hafterPayload, rfl⟩ := Language.mem_mul.mp hafterDot
    obtain ⟨dot', hdot', signature, hsignature, rfl⟩ := Language.mem_mul.mp hafterPayload
    obtain rfl : first = "eyJ" := by simpa using hfirst
    obtain rfl : dot = ['.'] := by simpa using hdot
    obtain rfl : dot' = ['.'] := by simpa using hdot'
    exact ⟨header, payload, signature, hheader, hpayload, hsignature, by simp⟩
  · rintro ⟨header, payload, signature, hheader, hpayload, hsignature, rfl⟩
    refine Language.mem_mul.mpr ⟨"eyJ", by simp, _, Language.mem_mul.mpr ⟨header, hheader, _,
      Language.mem_mul.mpr ⟨['.'], by simp, _, Language.mem_mul.mpr ⟨payload, hpayload, _,
        Language.mem_mul.mpr ⟨['.'], by simp, signature, hsignature, rfl⟩, rfl⟩, rfl⟩, rfl⟩, ?_⟩
    simp

theorem isSegmentChar_eyJ (hheader : header ∈ atLeast 10 isSegmentChar) :
    "eyJ" ++ header ∈ atLeast 10 isSegmentChar := by
  refine ⟨le_trans hheader.1 (List.suffix_append _ _).length_le, ?_⟩
  rw [List.all_append, hheader.2]
  rfl

theorem dense_of_mem_providerWords {word : Text} (hword : word ∈ providerWords) : Dense word := by
  rcases hword with ⟨shape, hshape, hword⟩ | hword
  · exact ProviderShape.dense hshape hword
  · obtain ⟨header, payload, signature, hheader, hpayload, hsignature, rfl⟩ := mem_jwtWords.mp hword
    exact dense_of_segments (List.prefix_append _ _) (isSegmentChar_eyJ hheader) hpayload hsignature

end Difflore.Observability
