import Mathlib.Algebra.GroupWithZero.Nat
import Mathlib.Algebra.Ring.Int.Defs
import Mathlib.Data.Char
import Mathlib.Data.List.DropRight
import Mathlib.Data.List.Infix
import Mathlib.Data.List.Lex
import Mathlib.Order.Lattice

/-! # Text as a list of characters -/

namespace Difflore.Foundation

variable {c : Char} {s : Text}

abbrev Text := List Char

instance : Coe String Text := ⟨String.toList⟩

instance : LawfulBEq Text := inferInstance

namespace Text

/-- Characters with the Unicode `White_Space` property. -/
def isWhitespace (c : Char) : Bool :=
  let code := c.toNat
  (9 ≤ code && code ≤ 13) || code = 0x20 || code = 0x85 || code = 0xA0 || code = 0x1680 ||
    (0x2000 ≤ code && code ≤ 0x200A) || code = 0x2028 || code = 0x2029 || code = 0x202F ||
    code = 0x205F || code = 0x3000

def trimStart (s : Text) : Text := s.dropWhile isWhitespace

def trimEnd (s : Text) : Text := s.rdropWhile isWhitespace

def trim (s : Text) : Text := trimEnd (trimStart s)

/-! ## Trimming -/

theorem trim_of_ends (hhead : ∀ c ∈ s.head?, isWhitespace c = false)
    (hlast : ∀ c ∈ s.getLast?, isWhitespace c = false) : trim s = s := by
  have hstart : trimStart s = s := by
    cases s with
    | nil => rfl
    | cons c rest => exact List.dropWhile_cons_of_neg (by simp [hhead c rfl])
  unfold trim
  rw [hstart]
  refine List.rdropWhile_eq_self_iff.mpr fun hne => ?_
  simp [hlast _ (List.getLast?_eq_some_getLast hne)]

theorem trim_concat_of_isWhitespace (hc : isWhitespace c = true) : trim (s ++ [c]) = trim s := by
  unfold trim trimEnd trimStart
  rw [List.dropWhile_append]
  split
  next hempty =>
    rw [List.isEmpty_iff.mp hempty]
    simp [hc]
  next => exact List.rdropWhile_concat_pos _ _ _ hc

theorem trim_trimEnd (s : Text) : trim (trimEnd s) = trim s := by
  induction s using List.reverseRecOn with
  | nil => rfl
  | append_singleton s c ih =>
    by_cases hc : isWhitespace c = true
    · rw [trim_concat_of_isWhitespace hc, ← ih, trimEnd, List.rdropWhile_concat_pos _ _ _ hc,
        ← trimEnd]
    · rw [trimEnd, List.rdropWhile_concat_neg _ _ _ hc]

theorem head_trimStart (s : Text) : ∀ c ∈ (trimStart s).head?, isWhitespace c = false := by
  intro c hc
  have hhead := List.head?_dropWhile_not isWhitespace s
  unfold trimStart at hc
  rw [Option.mem_def.mp hc] at hhead
  simpa using hhead

theorem trim_ne_nil_of_mem (hmem : c ∈ s) (hc : isWhitespace c = false) : trim s ≠ [] := by
  intro hnil
  have hdropped := List.rdropWhile_eq_nil_iff.mp hnil
  cases hstart : trimStart s with
  | nil =>
    have hall := List.dropWhile_eq_nil_iff.mp hstart c hmem
    rw [hc] at hall
    contradiction
  | cons first rest =>
    have hfirst := hdropped first (by simp [hstart])
    rw [head_trimStart s first (by simp [hstart])] at hfirst
    contradiction

theorem mem_of_mem_trim (hmem : c ∈ trim s) : c ∈ s :=
  (List.dropWhile_sublist _).subset ((List.rdropWhile_prefix ..).subset hmem)

theorem head_trim (s : Text) : ∀ c ∈ (trim s).head?, isWhitespace c = false := by
  intro c hc
  obtain ⟨rest, hrest⟩ := List.head?_eq_some_iff.mp hc
  obtain ⟨dropped, hdropped⟩ : trim s <+: trimStart s := List.rdropWhile_prefix ..
  rw [hrest] at hdropped
  exact head_trimStart s c (by simp [← hdropped])

theorem getLast_trim (s : Text) : ∀ c ∈ (trim s).getLast?, isWhitespace c = false := by
  intro c hc
  have hne : trim s ≠ [] := by
    intro heq
    simp [heq] at hc
  have hlast := List.rdropWhile_last_not _ _ hne
  rw [List.getLast?_eq_some_getLast hne] at hc
  obtain rfl := Option.some.inj hc
  exact Bool.not_eq_true _ ▸ hlast

theorem trim_trim (s : Text) : trim (trim s) = trim s := trim_of_ends (head_trim s) (getLast_trim s)

theorem trim_cons_of_isWhitespace (hc : isWhitespace c = true) : trim (c :: s) = trim s := by
  unfold trim trimStart
  rw [List.dropWhile_cons_of_pos hc]

theorem exists_eq_trim (s : Text) : ∃ front back, s = front ++ (trim s ++ back) ∧
    (∀ c ∈ front, isWhitespace c = true) ∧ ∀ c ∈ back, isWhitespace c = true := by
  refine ⟨s.takeWhile isWhitespace, (trimStart s).rtakeWhile isWhitespace, ?_,
    fun c hc => List.mem_takeWhile_imp hc, fun c hc => List.mem_rtakeWhile_imp hc⟩
  rw [trim, trimEnd, List.rdropWhile_append_rtakeWhile, trimStart, List.takeWhile_append_dropWhile]

def afterFirst (needle : Text) : Text → Option Text
  | [] => if needle = [] then some [] else none
  | c :: rest =>
    if needle <+: c :: rest then some ((c :: rest).drop needle.length)
    else afterFirst needle rest

def beforeFirst (needle : Text) : Text → Option Text
  | [] => if needle = [] then some [] else none
  | c :: rest =>
    if needle <+: c :: rest then some [] else (beforeFirst needle rest).map (c :: ·)

def splitWhitespace (s : Text) : List Text := (s.splitOnP isWhitespace).filter (· ≠ [])

def stripPrefix (start s : Text) : Option Text :=
  if start <+: s then some (s.drop start.length) else none

theorem stripPrefix_append (start rest : Text) : stripPrefix start (start ++ rest) = some rest := by
  rw [stripPrefix, if_pos (List.prefix_append _ _), List.drop_left]

theorem stripPrefix_eq_some {start rest : Text} (hrest : stripPrefix start s = some rest) :
    s = start ++ rest := by
  rw [stripPrefix] at hrest
  obtain ⟨hstart, hdrop⟩ := Option.ite_none_right_eq_some.mp hrest
  obtain ⟨tail, rfl⟩ := hstart
  rw [List.drop_left] at hdrop
  rw [Option.some.inj hdrop]

def toAsciiLowercase (s : Text) : Text := s.map Char.toLower

theorem toNat_toLower (c : Char) :
    c.toLower.toNat = if 65 ≤ c.toNat ∧ c.toNat ≤ 90 then c.toNat + 32 else c.toNat := by
  unfold Char.toLower
  split
  next hupper =>
    have hlow : 65 ≤ c.val.toNat := hupper.1
    have hhigh : c.val.toNat ≤ 90 := hupper.2
    rw [if_pos ⟨hlow, hhigh⟩]
    change (c.val + ('a'.val - 'A'.val)).toNat = c.val.toNat + 32
    have hstep : ('a'.val - 'A'.val).toNat = 32 := by decide
    rw [UInt32.toNat_add, hstep]
    omega
  next hupper =>
    rw [if_neg]
    rintro ⟨hlow, hhigh⟩
    exact hupper ⟨hlow, hhigh⟩

theorem toLower_eq_iff {d : Char} (hd : d.toNat < 65 ∨ 122 < d.toNat) : c.toLower = d ↔ c = d := by
  rw [← Char.toNat_inj, ← Char.toNat_inj, toNat_toLower]
  split <;> omega

theorem toAsciiLowercase_idem (s : Text) :
    toAsciiLowercase (toAsciiLowercase s) = toAsciiLowercase s := by
  unfold toAsciiLowercase
  rw [List.map_map]
  apply List.map_congr_left
  intro c _
  rw [Function.comp_apply, ← Char.toNat_inj, toNat_toLower, toNat_toLower]
  split_ifs <;> omega

def eqIgnoreAsciiCase (s t : Text) : Bool := toAsciiLowercase s = toAsciiLowercase t

def afterLast (c : Char) (s : Text) : Option Text :=
  if c ∈ s then some (s.rtakeWhile (· ≠ c)) else none

def trimMatches (p : Char → Bool) (s : Text) : Text := (s.dropWhile p).rdropWhile p

def trimSpaces (s : Text) : Text := trimMatches (· = ' ') s

def countCrlf : Text → Nat
  | '\r' :: '\n' :: rest => countCrlf rest + 1
  | _ :: rest => countCrlf rest
  | [] => 0

def crlfToLf : Text → Text
  | '\r' :: '\n' :: rest => '\n' :: crlfToLf rest
  | c :: rest => c :: crlfToLf rest
  | [] => []

def digitsValue (digits : Text) : Nat :=
  digits.foldl (fun value digit => 10 * value + (digit.toNat - '0'.toNat)) 0

/-- `str::parse` into a 32-bit unsigned number: an optional plus, then digits. -/
def parseU32 (s : Text) : Option Nat :=
  let digits := (stripPrefix ['+'] s).getD s
  if digits ≠ [] && digits.all Char.isDigit && digitsValue digits < 2 ^ 32 then
    some (digitsValue digits)
  else none

end Text

/-! ## Joined and split texts -/

theorem append_cons_inj {first second u v : Text} (hfirst : c ∉ first) (hsecond : c ∉ second) :
    first ++ c :: u = second ++ c :: v ↔ first = second ∧ u = v := by
  constructor
  · intro heq
    induction first generalizing second with
    | nil =>
      cases second with
      | nil => exact ⟨rfl, (List.cons.inj heq).2⟩
      | cons d rest =>
        exact absurd (List.mem_cons.mpr (.inl (List.cons.inj heq).1)) hsecond
    | cons d rest ih =>
      cases second with
      | nil => exact absurd (List.mem_cons.mpr (.inl (List.cons.inj heq).1.symm)) hfirst
      | cons e tail =>
        obtain ⟨rfl, hrest⟩ := List.cons.inj heq
        obtain ⟨rfl, huv⟩ := ih (fun hmem => hfirst (List.mem_cons_of_mem _ hmem))
          (fun hmem => hsecond (List.mem_cons_of_mem _ hmem)) hrest
        exact ⟨rfl, huv⟩
  · rintro ⟨rfl, rfl⟩
    rfl

theorem forall_of_mem_splitOnP {p : Char → Bool} {part : Text} (hpart : part ∈ s.splitOnP p) :
    ∀ c ∈ part, p c = false := by
  induction s generalizing part with
  | nil =>
    rw [List.splitOnP_nil, List.mem_singleton] at hpart
    simp [hpart]
  | cons c rest ih =>
    rw [List.splitOnP_cons_eq_if_modifyHead] at hpart
    split at hpart
    next =>
      rcases List.mem_cons.mp hpart with rfl | hrest
      · simp
      · exact ih hrest
    next hc =>
      obtain ⟨first, others, hsplit⟩ := List.exists_cons_of_ne_nil (List.splitOnP_ne_nil p rest)
      rw [hsplit, List.modifyHead_cons] at hpart
      rcases List.mem_cons.mp hpart with rfl | hothers
      · have hfirst := ih (hsplit ▸ List.mem_cons_self)
        simpa [hc] using hfirst
      · exact ih (hsplit ▸ List.mem_cons_of_mem _ hothers)

theorem intercalate_inj {parts others : List Text} (hparts : ∀ part ∈ parts, part ≠ [] ∧ c ∉ part)
    (hothers : ∀ part ∈ others, part ≠ [] ∧ c ∉ part) :
    [c].intercalate parts = [c].intercalate others ↔ parts = others := by
  refine ⟨fun heq => ?_, fun heq => heq ▸ rfl⟩
  have hsplit : ∀ {found : List Text}, (∀ part ∈ found, part ≠ [] ∧ c ∉ part) →
      (([c].intercalate found).splitOn c).filter (· ≠ []) = found := by
    intro found hfound
    by_cases hnil : found = []
    · rw [hnil, List.intercalate_nil, List.splitOn_nil]
      rfl
    · rw [List.splitOn_intercalate c (fun part hpart => (hfound part hpart).2) hnil]
      exact List.filter_eq_self.mpr fun part hpart => by simpa using (hfound part hpart).1
  rw [← hsplit hparts, heq, hsplit hothers]

theorem mem_intercalate {d : Char} {parts : List Text} (hd : d ∈ [c].intercalate parts) :
    d = c ∨ ∃ part ∈ parts, d ∈ part := by
  induction parts with
  | nil => simp at hd
  | cons part rest ih =>
    by_cases hrest : rest = []
    · rw [hrest, List.intercalate_singleton] at hd
      exact .inr ⟨part, List.mem_cons_self, hd⟩
    · rw [List.intercalate_cons_of_ne_nil hrest, List.mem_append, List.mem_append,
        List.mem_singleton] at hd
      rcases hd with (hpart | hsep) | hmem
      · exact .inr ⟨part, List.mem_cons_self, hpart⟩
      · exact .inl hsep
      · rcases ih hmem with hsep | ⟨other, hother, hin⟩
        · exact .inl hsep
        · exact .inr ⟨other, List.mem_cons_of_mem _ hother, hin⟩

theorem isAlphanum_iff : c.isAlphanum = true ↔
    (65 ≤ c.toNat ∧ c.toNat ≤ 90 ∨ 97 ≤ c.toNat ∧ c.toNat ≤ 122) ∨ 48 ≤ c.toNat ∧ c.toNat ≤ 57 := by
  unfold Char.isAlphanum Char.isAlpha Char.isUpper Char.isLower Char.isDigit
  simp only [Bool.or_eq_true, Bool.and_eq_true, decide_eq_true_eq, ge_iff_le,
    UInt32.le_iff_toNat_le]
  rfl

theorem isAlphanum_toLower (c : Char) : c.toLower.isAlphanum = c.isAlphanum := by
  rw [Bool.eq_iff_iff, isAlphanum_iff, isAlphanum_iff, Text.toNat_toLower]
  split <;> omega

theorem not_isWhitespace_of_isAlphanum (hc : c.isAlphanum = true) :
    Text.isWhitespace c = false := by
  rw [isAlphanum_iff] at hc
  rw [← Bool.not_eq_true]
  simp only [Text.isWhitespace, Bool.or_eq_true, Bool.and_eq_true, decide_eq_true_eq]
  omega

def isHexDigit (c : Char) : Bool := c.isDigit || ('a' ≤ c && c ≤ 'f') || ('A' ≤ c && c ≤ 'F')

theorem isHexDigit_iff : isHexDigit c = true ↔
    (48 ≤ c.toNat ∧ c.toNat ≤ 57 ∨ 97 ≤ c.toNat ∧ c.toNat ≤ 102) ∨ 65 ≤ c.toNat ∧ c.toNat ≤ 70 := by
  simp only [isHexDigit, Char.isDigit, Char.le_def, Bool.or_eq_true, Bool.and_eq_true,
    decide_eq_true_eq, ge_iff_le, UInt32.le_iff_toNat_le]
  rfl

def decimal : Int → Text
  | .ofNat n => Nat.toDigits 10 n
  | .negSucc n => '-' :: Nat.toDigits 10 (n + 1)

def hexDigit (n : Nat) : Char := "0123456789abcdef".toList.getD n '0'

def hexByte (byte : UInt8) : Text := [hexDigit (byte.toNat / 16), hexDigit (byte.toNat % 16)]

theorem hexDigit_mem (n : Nat) : hexDigit n ∈ "0123456789abcdef".toList := by
  rw [hexDigit, List.getD_eq_getElem?_getD]
  cases hdigit : "0123456789abcdef".toList[n]? with
  | none => decide
  | some c => exact List.mem_of_getElem? hdigit

theorem hexDigit_not_isWhitespace (n : Nat) : Text.isWhitespace (hexDigit n) = false := by
  have hall : ∀ c ∈ "0123456789abcdef".toList, Text.isWhitespace c = false := by
    simp [Text.isWhitespace]
  exact hall _ (hexDigit_mem n)

end Difflore.Foundation
