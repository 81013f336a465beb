import Difflore.Foundation.Text

/-! # Do the directories of cloud rules stay apart?

A rule that is synced from the cloud gets a directory named after its id. An id that is no
directory name as it stands is cut to a slug, and a prefix of its digest is put after it.
-/

namespace Difflore.Cloud

open Foundation Text

def isDirectoryChar (c : Char) : Bool := c.isLower || c.isDigit || c = '_' || c = '-'

def windowsReserved : List Text := ["con".toList, "prn".toList, "aux".toList, "nul".toList] ++
    ["com", "lpt"].flatMap fun device =>
      "123456789".toList.map fun digit => device ++ [digit]

def isWindowsReservedPathName (name : Text) : Bool :=
  toAsciiLowercase (name.rdropWhile (· = '.')) ∈ windowsReserved

def safeChar (c : Char) : Char :=
  if c.isAlphanum || c = '_' || c = '-' then c.toLower else '-'

def collapseDashes : Bool → Text → Text
  | _, [] => []
  | lastDash, c :: rest =>
    if safeChar c ≠ '-' then safeChar c :: collapseDashes false rest
    else if lastDash then collapseDashes true rest
    else '-' :: collapseDashes true rest

def ruleSlug (ruleId : Text) : Text := trimMatches (· = '-') (collapseDashes false (trim ruleId))

def needsHash (ruleId : Text) : Bool :=
  ruleSlug ruleId = [] || ruleSlug ruleId ≠ ruleId || 96 < (ruleSlug ruleId).length ||
    isWindowsReservedPathName (ruleSlug ruleId)

def baseName (ruleId : Text) : Text :=
  if ruleSlug ruleId = [] then "rule" else ruleSlug ruleId

def hashedName (shortRuleIdHash : Text → Text) (ruleId : Text) : Text :=
  (baseName ruleId).take 80 ++ '-' :: shortRuleIdHash ruleId

def cloudRuleDirectoryName (shortRuleIdHash : Text → Text) (ruleId : Text) : Text :=
  if needsHash ruleId then hashedName shortRuleIdHash ruleId else baseName ruleId

structure IsSafeName (name : Text) : Prop where
  nonempty : name ≠ []
  chars : ∀ c ∈ name, isDirectoryChar c = true
  length : name.length ≤ 96
  notReserved : isWindowsReservedPathName name = false

structure IsShortHash (hash : Text) : Prop where
  length : hash.length = 12
  digits : (hash.all fun c => c ∈ "0123456789abcdef".toList) = true

variable {shortRuleIdHash : Text → Text} {ruleId first second : Text}

theorem isDirectoryChar_iff {c : Char} : isDirectoryChar c = true ↔
    ((97 ≤ c.toNat ∧ c.toNat ≤ 122 ∨ 48 ≤ c.toNat ∧ c.toNat ≤ 57) ∨ c.toNat = 95) ∨
      c.toNat = 45 := by
  unfold isDirectoryChar Char.isLower
  simp only [Char.isDigit, Bool.or_eq_true, Bool.and_eq_true, decide_eq_true_eq, ge_iff_le,
    UInt32.le_iff_toNat_le, ← Char.toNat_inj]
  rfl

theorem isDirectoryChar_safeChar (c : Char) : isDirectoryChar (safeChar c) = true := by
  unfold safeChar
  split
  next hsafe =>
    simp only [Bool.or_eq_true, decide_eq_true_eq, isAlphanum_iff, ← Char.toNat_inj] at hsafe
    have hkept : '_'.toNat = 95 ∧ '-'.toNat = 45 := by decide
    rw [isDirectoryChar_iff, toNat_toLower]
    split <;> omega
  next => decide

theorem isDirectoryChar_of_mem_collapseDashes {lastDash : Bool} {text : Text} {c : Char}
    (hmem : c ∈ collapseDashes lastDash text) : isDirectoryChar c = true := by
  induction text generalizing lastDash with
  | nil => cases hmem
  | cons head rest ih =>
    unfold collapseDashes at hmem
    split at hmem
    · rcases List.mem_cons.mp hmem with rfl | htail
      · exact isDirectoryChar_safeChar head
      · exact ih htail
    · split at hmem
      · exact ih hmem
      · rcases List.mem_cons.mp hmem with rfl | htail
        · decide
        · exact ih htail

theorem isDirectoryChar_of_mem_baseName {c : Char} (hmem : c ∈ baseName ruleId) :
    isDirectoryChar c = true := by
  unfold baseName at hmem
  split at hmem
  · have hrule : "rule".toList.all isDirectoryChar = true := by decide
    exact List.all_eq_true.mp hrule c hmem
  · exact isDirectoryChar_of_mem_collapseDashes
      (List.dropWhile_sublist _ |>.mem ((List.rdropWhile_prefix _ _).mem hmem))

theorem baseName_of_not_needsHash (hplain : needsHash ruleId = false) :
    baseName ruleId = ruleId ∧ ruleId.length ≤ 96 ∧ isWindowsReservedPathName ruleId = false := by
  simp only [needsHash, Bool.or_eq_false_iff, decide_eq_false_iff_not, not_not, not_lt] at hplain
  obtain ⟨⟨⟨hnonempty, hsame⟩, hlength⟩, hfree⟩ := hplain
  rw [hsame] at hlength hfree
  exact ⟨by rw [baseName, if_neg hnonempty, hsame], hlength, hfree⟩

theorem length_le_of_mem_windowsReserved : ∀ name ∈ windowsReserved, name.length ≤ 4 := by decide

theorem isSafeName_hashedName (hhash : IsShortHash (shortRuleIdHash ruleId)) :
    IsSafeName (hashedName shortRuleIdHash ruleId) := by
  have hchars : ∀ c ∈ hashedName shortRuleIdHash ruleId, isDirectoryChar c = true := by
    intro c hc
    rcases List.mem_append.mp hc with hbase | hrest
    · exact isDirectoryChar_of_mem_baseName (List.mem_of_mem_take hbase)
    · rcases List.mem_cons.mp hrest with rfl | hdigit
      · decide
      · have hhex : "0123456789abcdef".toList.all isDirectoryChar = true := by decide
        exact List.all_eq_true.mp hhex c
          (of_decide_eq_true (List.all_eq_true.mp hhash.digits c hdigit))
  have hlength : (hashedName shortRuleIdHash ruleId).length =
      min 80 (baseName ruleId).length + 13 := by
    rw [hashedName, List.length_append, List.length_take, List.length_cons, hhash.length]
  refine ⟨fun hnil => ?_, hchars, by omega, ?_⟩
  · rw [hnil] at hlength
    cases hlength
  · -- Without a dot at its end the name is compared as a whole, and it is too long.
    have hdotless : (hashedName shortRuleIdHash ruleId).rdropWhile (· = '.') =
        hashedName shortRuleIdHash ruleId := by
      refine List.rdropWhile_eq_self_iff.mpr fun hne hdot => ?_
      have hlast := hchars _ (List.getLast_mem hne)
      rw [of_decide_eq_true hdot] at hlast
      exact absurd hlast (by decide)
    rw [isWindowsReservedPathName, hdotless, decide_eq_false_iff_not]
    intro hreserved
    have hshort := length_le_of_mem_windowsReserved _ hreserved
    rw [toAsciiLowercase, List.length_map] at hshort
    omega

theorem isSafeName_cloudRuleDirectoryName (hhash : IsShortHash (shortRuleIdHash ruleId)) :
    IsSafeName (cloudRuleDirectoryName shortRuleIdHash ruleId) := by
  unfold cloudRuleDirectoryName
  split
  next => exact isSafeName_hashedName hhash
  next hplain =>
    rw [Bool.not_eq_true] at hplain
    obtain ⟨hbase, hlength, hfree⟩ := baseName_of_not_needsHash hplain
    refine ⟨?_, fun c hc => isDirectoryChar_of_mem_baseName hc, ?_, ?_⟩
    · unfold baseName
      split
      · decide
      · assumption
    · rw [hbase]
      exact hlength
    · rw [hbase]
      exact hfree

/-- The first id is kept as it is, and looks like the name that the second gets. -/
def Impersonates (shortRuleIdHash : Text → Text) (first second : Text) : Prop :=
  needsHash first = false ∧ needsHash second = true ∧ first = hashedName shortRuleIdHash second

/-- Two ids clash exactly if one of them is already the name of the other. -/
theorem names_safe_and_distinct_iff (hfirst : IsShortHash (shortRuleIdHash first))
    (hsecond : IsShortHash (shortRuleIdHash second)) (hne : first ≠ second)
    (hhash : shortRuleIdHash first ≠ shortRuleIdHash second) :
    IsSafeName (cloudRuleDirectoryName shortRuleIdHash first) ∧
      (cloudRuleDirectoryName shortRuleIdHash first ≠
          cloudRuleDirectoryName shortRuleIdHash second ↔
        ¬ Impersonates shortRuleIdHash first second ∧
          ¬ Impersonates shortRuleIdHash second first) := by
  refine ⟨isSafeName_cloudRuleDirectoryName hfirst, ?_⟩
  unfold Impersonates cloudRuleDirectoryName
  cases hplain : needsHash first <;> cases hother : needsHash second
  · rw [(baseName_of_not_needsHash hplain).1, (baseName_of_not_needsHash hother).1]
    simpa using hne
  · rw [(baseName_of_not_needsHash hplain).1]
    simp
  · rw [(baseName_of_not_needsHash hother).1]
    simp [eq_comm]
  · -- Both names end with a digest of twelve digits, and the digests differ.
    have hnames : hashedName shortRuleIdHash first ≠ hashedName shortRuleIdHash second := by
      intro heq
      have hlengths := hfirst.length.trans hsecond.length.symm
      exact hhash (List.cons.inj (List.append_inj' heq (by simp [hlengths])).2).2
    simpa using hnames

/-- The digests of `Foo!`, `foo` and `foo-dfb72b5d6af4`. -/
def fooHash (ruleId : Text) : Text :=
  if ruleId = "Foo!" then "dfb72b5d6af4"
  else if ruleId = "foo" then "2c26b46b68ff"
  else "8dbee2bf5ab0"

theorem names_safe_and_distinct_iff_foo :
    cloudRuleDirectoryName fooHash "Foo!".toList ≠ cloudRuleDirectoryName fooHash "foo".toList :=
  (names_safe_and_distinct_iff ⟨rfl, by decide +kernel⟩ ⟨rfl, by decide +kernel⟩
    (by decide) (by decide +kernel)).2.mpr (by unfold Impersonates; decide +kernel)

theorem names_clash : ¬ ∀ (shortRuleIdHash : Text → Text) (first second : Text),
    IsShortHash (shortRuleIdHash first) → IsShortHash (shortRuleIdHash second) →
      first ≠ second → shortRuleIdHash first ≠ shortRuleIdHash second →
        cloudRuleDirectoryName shortRuleIdHash first ≠
          cloudRuleDirectoryName shortRuleIdHash second := by
  intro hclaim
  exact hclaim fooHash "Foo!".toList "foo-dfb72b5d6af4".toList ⟨rfl, by decide +kernel⟩
    ⟨rfl, by decide +kernel⟩ (by decide +kernel) (by decide +kernel) (by decide +kernel)

end Difflore.Cloud
