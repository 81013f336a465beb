import Difflore.Infra.Hex

/-! # Reading stored secrets

A stored secret is the hexadecimal text of a nonce and a ciphertext. The text is read in slices
of two bytes up to the first that is refused. A slice with a sign in front of one digit is not
refused, and a slice that would cut a character panics.
-/

namespace Difflore.Infra

open Foundation Text SessionMine Skills

inductive DecryptOrigin
  | currentKey

inductive SecretError
  | hex (e : HexError)
  | ciphertextTooShort
  | masterKey (e : Text)
  | decryptionFailed
  | invalidUtf8

/-- `cipher` is `Aes256Gcm`: key, nonce and ciphertext. -/
def decryptSecretWithOrigin (cipher : Bytes32 → List UInt8 → List UInt8 → Option (List UInt8))
    (masterKey : Except Text Bytes32) (hexData : Text) :
    Except SecretError (Text × DecryptOrigin) :=
  match fromHex hexData with
  | .error e => .error (.hex e)
  | .ok combined =>
    if combined.length < 13 then .error .ciphertextTooShort
    else
      match masterKey with
      | .error e => .error (.masterKey e)
      | .ok key =>
        match cipher key (combined.take 12) (combined.drop 12) with
        | none => .error .decryptionFailed
        | some plaintext =>
          match String.fromUTF8? ⟨plaintext.toArray⟩ with
          | none => .error .invalidUtf8
          | some s => .ok (s.toList, .currentKey)

theorem decryptSecretWithOrigin_panics_iff
    {cipher : Bytes32 → List UInt8 → List UInt8 → Option (List UInt8)}
    {masterKey : Except Text Bytes32} {hexData : Text} :
    decryptSecretWithOrigin cipher masterKey hexData = .error (.hex .panics) ↔
      fromHex hexData = .error .panics := by
  unfold decryptSecretWithOrigin
  cases fromHex hexData with
  | error e => simp
  | ok combined =>
    simp only [reduceCtorEq, iff_false]
    split
    · simp
    cases masterKey with
    | error e => simp
    | ok key =>
      dsimp only
      cases cipher key (combined.take 12) (combined.drop 12) with
      | none => simp
      | some plaintext =>
        dsimp only
        cases String.fromUTF8? ⟨plaintext.toArray⟩ <;> simp

/-- An even number of digits of either case, which spell the bytes. -/
structure HexForm (hex : Text) (bytes : List UInt8) : Prop where
  even : hex.length % 2 = 0
  digits : ∀ c ∈ hex, isHexDigit c
  spells : toAsciiLowercase hex = toHex bytes

/-- The grammar decides what is read, and no stored text makes decryption panic. -/
structure ReadByGrammar (hex : Text) : Prop where
  ok_iff : ∀ bytes, fromHex hex = .ok bytes ↔ HexForm hex bytes
  refused : (∀ bytes, ¬ HexForm hex bytes) → fromHex hex = .error .invalid
  decrypts : ∀ cipher masterKey,
    decryptSecretWithOrigin cipher masterKey hex ≠ .error (.hex .panics)

def isReadPair (pair : Char × Char) : Bool :=
  (pair.1 = '+' || isHexDigit pair.1) && isHexDigit pair.2

/-- The text starts with a slice of whole characters that is not read. -/
def StartsRefused : Text → Prop
  | [] => False
  | [c] => c.utf8Size = 2
  | c :: d :: _ => c.utf8Size = 2 ∨ c.utf8Size = 1 ∧ d.utf8Size = 1 ∧ ¬ isReadPair (c, d)

def pairText (pairs : List (Char × Char)) : Text := pairs.flatMap fun pair => [pair.1, pair.2]

/-- The bytes are odd in number, or all characters are digits, or a slice is refused before one
would cut a character. -/
def Decided (hex : Text) : Prop :=
  byteLength hex % 2 = 1 ∨ (∀ c ∈ hex, isHexDigit c) ∨
    ∃ pairs rest, hex = pairText pairs ++ rest ∧ (∀ pair ∈ pairs, isReadPair pair) ∧
      StartsRefused rest

theorem isHexDigit_spec {c : Char} (hdigit : isHexDigit c) :
    ∃ value < 16, hexValue c = some value ∧ c.toLower = hexDigit value ∧ c.utf8Size = 1 ∧
      c ≠ '+' := by
  have hcode : c = Char.ofNat c.toNat := (Char.ofNat_toNat c).symm
  have hranges := isHexDigit_iff.mp hdigit
  refine ⟨(hexValue c).getD 0, ?_⟩
  generalize c.toNat = code at hcode hranges
  subst hcode
  rcases hranges with (⟨hlow, hhigh⟩ | ⟨hlow, hhigh⟩) | ⟨hlow, hhigh⟩ <;>
    interval_cases code <;> decide

theorem isHexDigit_of_hexValue {c : Char} {value : Nat} (hvalue : hexValue c = some value) :
    isHexDigit c := by
  simp only [hexValue, Bool.and_eq_true, decide_eq_true_eq] at hvalue
  rw [isHexDigit_iff]
  split_ifs at hvalue <;> omega

/-- `from_str_radix` takes the pairs that are read, and no others. -/
theorem fromStrRadix_spec (c d : Char) :
    (isReadPair (c, d) = true ∧ ∃ byte, fromStrRadix c d = .ok byte) ∨
      (isReadPair (c, d) = false ∧ fromStrRadix c d = .error .invalid) := by
  have hread : ∀ c, isHexDigit c = (hexValue c).isSome := by
    intro c
    cases hvalue : hexValue c with
    | none =>
      rw [Option.isSome_none, Bool.eq_false_iff]
      intro hdigit
      obtain ⟨value, _, hsome, _⟩ := isHexDigit_spec hdigit
      rw [hvalue] at hsome
      contradiction
    | some value => simpa using isHexDigit_of_hexValue hvalue
  simp only [isReadPair, fromStrRadix, hread]
  by_cases hsign : c = '+'
  · cases hexValue d <;> simp [hsign]
  · cases hexValue c <;> cases hexValue d <;> simp [hsign]

theorem utf8Size_of_isReadPair {c d : Char} (hpair : isReadPair (c, d)) :
    c.utf8Size = 1 ∧ d.utf8Size = 1 := by
  simp only [isReadPair, Bool.and_eq_true, Bool.or_eq_true, decide_eq_true_eq] at hpair
  obtain ⟨hfirst, hsecond⟩ := hpair
  obtain ⟨_, _, _, _, hsize, _⟩ := isHexDigit_spec hsecond
  refine ⟨?_, hsize⟩
  rcases hfirst with rfl | hfirst
  · decide
  · obtain ⟨_, _, _, _, hsize, _⟩ := isHexDigit_spec hfirst
    exact hsize

theorem fromHexPairs_of_isReadPair {c d : Char} (hpair : isReadPair (c, d)) (rest : Text) :
    ∃ byte, fromHexPairs (c :: d :: rest) = (fromHexPairs rest).map (byte :: ·) := by
  obtain ⟨hc, hd⟩ := utf8Size_of_isReadPair hpair
  obtain ⟨_, byte, hbyte⟩ | ⟨hrefused, _⟩ := fromStrRadix_spec c d
  · refine ⟨byte, ?_⟩
    rw [fromHexPairs, if_neg (by rw [hc]; decide), if_pos hc, if_pos hd, hbyte]
  · rw [hpair] at hrefused
    contradiction

theorem fromHexPairs_of_startsRefused {rest : Text} (hrest : StartsRefused rest) :
    fromHexPairs rest = .error .invalid := by
  match rest, hrest with
  | [c], hwide =>
    have hsize : c.utf8Size = 2 := hwide
    rw [fromHexPairs, if_pos hsize]
  | c :: d :: rest, .inl hwide => rw [fromHexPairs, if_pos hwide]
  | c :: d :: rest, .inr ⟨hc, hd, hpair⟩ =>
    obtain ⟨hread, _⟩ | ⟨_, hrefused⟩ := fromStrRadix_spec c d
    · exact absurd hread hpair
    · rw [fromHexPairs, if_neg (by rw [hc]; decide), if_pos hc, if_pos hd, hrefused]

theorem fromHexPairs_pairText_append {pairs : List (Char × Char)} {rest : Text}
    (hpairs : ∀ pair ∈ pairs, isReadPair pair) (hrest : StartsRefused rest) :
    fromHexPairs (pairText pairs ++ rest) = .error .invalid := by
  induction pairs with
  | nil => exact fromHexPairs_of_startsRefused hrest
  | cons pair pairs ih =>
    obtain ⟨byte, hbyte⟩ := fromHexPairs_of_isReadPair (hpairs pair (.head _))
      (pairText pairs ++ rest)
    have hrecur := ih fun other hother => hpairs other (.tail _ hother)
    rw [hrecur] at hbyte
    exact hbyte

theorem fromHexPairs_cases (text : Text) : (∃ bytes, fromHexPairs text = .ok bytes) ∨
      (fromHexPairs text = .error .invalid ∧
        ∃ pairs rest, text = pairText pairs ++ rest ∧ (∀ pair ∈ pairs, isReadPair pair) ∧
          StartsRefused rest) ∨
      fromHexPairs text = .error .panics := by
  -- two characters at a time
  induction hlength : text.length using Nat.strong_induction_on generalizing text with
  | _ n ih =>
    match text, hlength with
    | [], _ => exact .inl ⟨[], rfl⟩
    | [c], _ =>
      by_cases hwide : c.utf8Size = 2
      · have hrest : StartsRefused [c] := hwide
        exact .inr (.inl ⟨fromHexPairs_of_startsRefused hrest, [], [c], rfl, by simp, hrest⟩)
      · rw [fromHexPairs, if_neg hwide]
        split <;> simp
    | c :: d :: rest, hlength =>
      by_cases hwide : c.utf8Size = 2
      · have hrest : StartsRefused (c :: d :: rest) := .inl hwide
        exact .inr (.inl ⟨fromHexPairs_of_startsRefused hrest, [], _, rfl, by simp, hrest⟩)
      by_cases hc : c.utf8Size = 1
      swap
      · rw [fromHexPairs, if_neg hwide, if_neg hc]
        simp
      by_cases hd : d.utf8Size = 1
      swap
      · rw [fromHexPairs, if_neg hwide, if_pos hc, if_neg hd]
        simp
      by_cases hpair : isReadPair (c, d)
      · obtain ⟨byte, hbyte⟩ := fromHexPairs_of_isReadPair hpair rest
        have hshorter : rest.length < n := by
          simp only [List.length_cons] at hlength
          omega
        rw [hbyte]
        rcases ih rest.length hshorter rest rfl with
          ⟨bytes, hok⟩ | ⟨hrefused, pairs, stop, rfl, hpairs, hstop⟩ | hpanics
        · exact .inl ⟨byte :: bytes, by rw [hok]; rfl⟩
        · refine .inr (.inl ⟨by rw [hrefused]; rfl, (c, d) :: pairs, stop, rfl, ?_, hstop⟩)
          intro pair hmem
          rcases List.mem_cons.mp hmem with rfl | hmem
          · exact hpair
          · exact hpairs pair hmem
        · exact .inr (.inr (by rw [hpanics]; rfl))
      · have hrest : StartsRefused (c :: d :: rest) := .inr ⟨hc, hd, hpair⟩
        exact .inr (.inl ⟨fromHexPairs_of_startsRefused hrest, [], _, rfl, by simp, hrest⟩)

/-! ## Texts of digits -/

theorem byteLength_of_digits {hex : Text} (hdigits : ∀ c ∈ hex, isHexDigit c) :
    byteLength hex = hex.length := by
  induction hex with
  | nil => rfl
  | cons c rest ih =>
    obtain ⟨_, _, _, _, hsize, _⟩ := isHexDigit_spec (hdigits c (.head _))
    have hrest := ih fun d hd => hdigits d (.tail _ hd)
    unfold byteLength at hrest ⊢
    rw [List.map_cons, List.sum_cons, hsize, hrest, List.length_cons, Nat.add_comm]

theorem fromHexPairs_of_digits {hex : Text} (heven : hex.length % 2 = 0)
    (hdigits : ∀ c ∈ hex, isHexDigit c) :
    ∃ bytes, fromHexPairs hex = .ok bytes ∧ toAsciiLowercase hex = toHex bytes := by
  induction hlength : hex.length using Nat.strong_induction_on generalizing hex with
  | _ n ih =>
    match hex, hlength with
    | [], _ => exact ⟨[], rfl, rfl⟩
    | [c], _ => simp at heven
    | c :: d :: rest, hlength =>
      obtain ⟨high, hhigh, hhighValue, hhighLower, hc, hsign⟩ :=
        isHexDigit_spec (hdigits c (.head _))
      obtain ⟨low, hlow, hlowValue, hlowLower, hd, _⟩ :=
        isHexDigit_spec (hdigits d (.tail _ (.head _)))
      simp only [List.length_cons] at hlength heven
      obtain ⟨bytes, hbytes, hspells⟩ := ih rest.length (by omega) (by omega)
        (fun e he => hdigits e (.tail _ (.tail _ he))) rfl
      have hradix : fromStrRadix c d = .ok (UInt8.ofNat (16 * high + low)) := by
        rw [fromStrRadix, if_neg hsign, hhighValue, hlowValue]
        rfl
      have hvalue : (UInt8.ofNat (16 * high + low)).toNat = 16 * high + low := by
        rw [UInt8.toNat_ofNat']
        exact Nat.mod_eq_of_lt (by omega)
      refine ⟨UInt8.ofNat (16 * high + low) :: bytes, ?_, ?_⟩
      · rw [fromHexPairs, if_neg (by rw [hc]; decide), if_pos hc, if_pos hd, hradix, hbytes]
        rfl
      · have hbyte : hexByte (UInt8.ofNat (16 * high + low)) = [hexDigit high, hexDigit low] := by
          rw [hexByte, hvalue, Nat.mul_add_div (by decide), Nat.div_eq_of_lt hlow,
            Nat.add_zero, Nat.mul_add_mod, Nat.mod_eq_of_lt hlow]
        unfold toAsciiLowercase toHex at *
        rw [List.map_cons, List.map_cons, hhighLower, hlowLower, hspells, List.flatMap_cons, hbyte]
        rfl

theorem HexForm.fromHex {hex : Text} {bytes : List UInt8} (hform : HexForm hex bytes) :
    fromHex hex = .ok bytes := by
  obtain ⟨read, hread, hspells⟩ := fromHexPairs_of_digits hform.even hform.digits
  have hsame : read = bytes := by
    have hboth : fromHexPairs (toHex read) = fromHexPairs (toHex bytes) := by
      rw [← hspells, hform.spells]
    rwa [fromHexPairs_toHex, fromHexPairs_toHex, Except.ok.injEq] at hboth
  unfold Infra.fromHex
  rw [byteLength_of_digits hform.digits, if_pos hform.even, hread, hsame]

/-- Stored text is read by the grammar, and decryption reports an error otherwise, exactly when
the reading is decided before a sign or a cut character. -/
theorem readByGrammar_iff_decided (hex : Text) : ReadByGrammar hex ↔ Decided hex := by
  by_cases heven : byteLength hex % 2 = 0
  swap
  · -- an odd number of bytes is refused before anything is read
    have hrefused : fromHex hex = .error .invalid := if_neg heven
    have hnoForm : ∀ bytes, ¬ HexForm hex bytes := by
      intro bytes hform
      rw [hform.fromHex] at hrefused
      contradiction
    refine iff_of_true ⟨fun bytes => ?_, fun _ => hrefused, fun cipher key => ?_⟩ (.inl (by omega))
    · rw [hrefused]
      exact iff_of_false (by simp) (hnoForm bytes)
    · rw [Ne, decryptSecretWithOrigin_panics_iff, hrefused]
      simp
  have hpairs : fromHex hex = fromHexPairs hex := if_pos heven
  rcases fromHexPairs_cases hex with ⟨bytes, hok⟩ | ⟨hrefused, hstop⟩ | hpanics
  · constructor
    · intro hgrammar
      exact .inr (.inl ((hgrammar.ok_iff bytes).mp (hpairs.trans hok)).digits)
    · rintro (hodd | hdigits | ⟨pairs, rest, rfl, hread, hrest⟩)
      · omega
      · obtain ⟨read, hread, hspells⟩ := fromHexPairs_of_digits
          (by rwa [byteLength_of_digits hdigits] at heven) hdigits
        have hform : HexForm hex read :=
          ⟨by rwa [byteLength_of_digits hdigits] at heven, hdigits, hspells⟩
        refine ⟨fun other => ⟨fun hother => ?_, HexForm.fromHex⟩, fun hnone => ?_,
          fun cipher key => ?_⟩
        · rw [hform.fromHex, Except.ok.injEq] at hother
          exact hother ▸ hform
        · exact absurd hform (hnone read)
        · rw [Ne, decryptSecretWithOrigin_panics_iff, hform.fromHex]
          simp
      · rw [fromHexPairs_pairText_append hread hrest] at hok
        contradiction
  · have hfrom : fromHex hex = .error .invalid := hpairs.trans hrefused
    refine iff_of_true ⟨fun bytes => ⟨fun hok => ?_, HexForm.fromHex⟩, fun _ => hfrom,
      fun cipher key => ?_⟩ (.inr (.inr hstop))
    · rw [hfrom] at hok
      contradiction
    · rw [Ne, decryptSecretWithOrigin_panics_iff, hfrom]
      simp
  · have hfrom : fromHex hex = .error .panics := hpairs.trans hpanics
    refine iff_of_false (fun hgrammar => ?_) ?_
    · exact hgrammar.decrypts (fun _ _ _ => none) (.error [])
        (decryptSecretWithOrigin_panics_iff.mpr hfrom)
    · rintro (hodd | hdigits | ⟨pairs, rest, rfl, hread, hrest⟩)
      · omega
      · obtain ⟨read, hread, _⟩ := fromHexPairs_of_digits
          (by rwa [byteLength_of_digits hdigits] at heven) hdigits
        rw [hread] at hpanics
        contradiction
      · rw [fromHexPairs_pairText_append hread hrest] at hpanics
        contradiction

/-- A sign in front of a digit is read as a byte, and a character of three bytes panics. -/
theorem not_readByGrammar : ¬ ReadByGrammar "+f" ∧ ¬ ReadByGrammar "€0" := by
  refine ⟨fun hgrammar => ?_, fun hgrammar => ?_⟩
  · have hform := (hgrammar.ok_iff [15]).mp (by decide)
    exact absurd (hform.digits '+' (by decide)) (by decide)
  · exact hgrammar.decrypts (fun _ _ _ => none) (.error [])
      (decryptSecretWithOrigin_panics_iff.mpr (by decide))

end Difflore.Infra
