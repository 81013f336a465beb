import Difflore.Infra.ScopeForms

/-! # Hosts in a repo scope

A normalized host is a name with an optional port, all of it in lower case, and
normalizing it again changes nothing.
-/

namespace Difflore.Infra

open Foundation Text

structure HostParts (name : Text) (port : Option Text) : Prop where
  name_ne : name ≠ []
  name_chars : ∀ c ∈ name, hostChar c
  name_end : ∀ c ∈ name.getLast?, c ≠ '.'
  port_ok : ∀ p ∈ port, p ≠ [] ∧ ∀ c ∈ p, isAsciiDigit c

def hostText (name : Text) (port : Option Text) : Text := port.elim name fun p => name ++ ':' :: p

theorem hostChar_toLower (c : Char) : hostChar c.toLower = hostChar c := by
  unfold hostChar
  rw [isAsciiAlphanumeric_toLower]
  have hdot : decide (c.toLower = '.') = decide (c = '.') :=
    decide_eq_decide.mpr (toLower_eq_iff (by decide))
  have hminus : decide (c.toLower = '-') = decide (c = '-') :=
    decide_eq_decide.mpr (toLower_eq_iff (by decide))
  rw [hdot, hminus]

theorem toLower_of_isAsciiDigit {c : Char} (hc : isAsciiDigit c) : c.toLower = c := by
  have hnine : '9'.toNat = 57 := by decide
  simp only [isAsciiDigit, Bool.and_eq_true, decide_eq_true_eq, hnine] at hc
  rw [← Char.toNat_inj, toNat_toLower]
  split <;> omega

theorem getLast?_rdropWhile_dot (s : Text) : ∀ c ∈ (s.rdropWhile (· = '.')).getLast?, c ≠ '.' := by
  induction s using List.reverseRecOn with
  | nil => simp
  | append_singleton s last ih =>
    by_cases hlast : last = '.'
    · rwa [List.rdropWhile_concat_pos _ _ _ (by simpa using hlast)]
    · rw [List.rdropWhile_concat_neg _ _ _ (by simpa using hlast), List.getLast?_concat]
      rintro c ⟨⟩
      exact hlast

theorem normalizeGitlabHost_ok {input host : Text} (hhost : normalizeGitlabHost input = .ok host) :
    ∃ name port, HostParts name port ∧ host = toAsciiLowercase (hostText name port) ∧
      host.length ≤ input.length := by
  unfold normalizeGitlabHost at hhost
  dsimp only at hhost
  generalize hslash : trimSlashes (withoutScheme (trim input)) = withoutSlash at hhost
  have hlength : withoutSlash.length ≤ input.length := by
    have htrim := (trim_isInfix input).length_le
    have hscheme : (withoutScheme (trim input)).length ≤ (trim input).length := by
      unfold withoutScheme
      cases hstrip : (stripPrefix httpsScheme (trim input)).or
          (stripPrefix httpScheme (trim input)) with
      | none => exact le_refl _
      | some rest =>
        have hdrop : ∀ start, stripPrefix start (trim input) = some rest →
            rest.length ≤ (trim input).length := by
          intro start hstart
          unfold stripPrefix at hstart
          obtain ⟨_, hrest⟩ := Option.ite_none_right_eq_some.mp hstart
          obtain rfl := Option.some.inj hrest
          exact (List.drop_suffix _ _).length_le
        rcases Option.or_eq_some_iff.mp hstrip with hhttps | ⟨_, hhttp⟩
        · exact hdrop _ hhttps
        · exact hdrop _ hhttp
    have hslashes : withoutSlash.length ≤ (withoutScheme (trim input)).length := by
      rw [← hslash]
      exact (List.rdropWhile_prefix _ _).length_le
    omega
  split at hhost
  next => contradiction
  next =>
    split at hhost
    next => contradiction
    next =>
      split at hhost
      next => contradiction
      next hparts =>
        simp only [Bool.or_eq_true, decide_eq_true_eq, not_or, Bool.not_eq_true',
          Bool.not_eq_false, List.all_eq_true, Option.any_eq_true, not_exists, not_and] at hparts
        obtain ⟨⟨hne, hchars⟩, hport⟩ := hparts
        refine ⟨hostName withoutSlash, hostPort withoutSlash, ⟨hne, hchars, ?_, ?_⟩,
          (Except.ok.inj hhost).symm, ?_⟩
        · exact getLast?_rdropWhile_dot _
        · intro p hp
          have hdigits := hport p hp
          exact hdigits
        · rw [← Except.ok.inj hhost, toAsciiLowercase, List.length_map]
          unfold hostName hostPort
          cases hsplit : splitOnce ':' withoutSlash with
          | none => exact ((List.rdropWhile_prefix _ _).length_le).trans hlength
          | some parts =>
            obtain ⟨first, rest⟩ := parts
            have hwhole := (splitOnce_eq_some hsplit).2
            have hname := (List.rdropWhile_prefix (· = '.') first).length_le
            simp only [Option.elim_some, Option.map_some, List.length_append, List.length_cons]
            rw [hwhole, List.length_append, List.length_cons] at hlength
            omega

theorem HostParts.lowered {name : Text} {port : Option Text} (hparts : HostParts name port) :
    HostParts (toAsciiLowercase name) port ∧
      toAsciiLowercase (hostText name port) = hostText (toAsciiLowercase name) port := by
  constructor
  · refine ⟨?_, ?_, ?_, hparts.port_ok⟩
    · simpa [toAsciiLowercase] using hparts.name_ne
    · intro c hc
      obtain ⟨d, hd, rfl⟩ := List.mem_map.mp hc
      rw [hostChar_toLower]
      exact hparts.name_chars d hd
    · intro c hc
      rw [toAsciiLowercase, List.getLast?_map] at hc
      obtain ⟨d, hd, rfl⟩ := Option.map_eq_some_iff.mp hc
      rw [ne_eq, toLower_eq_iff (by decide)]
      exact hparts.name_end d hd
  · cases port with
    | none => rfl
    | some p =>
      have hdigits : p.map Char.toLower = p := by
        conv_rhs => rw [← List.map_id p]
        exact List.map_congr_left fun c hc =>
          toLower_of_isAsciiDigit ((hparts.port_ok p rfl).2 c hc)
      simp only [hostText, Option.elim_some, toAsciiLowercase, List.map_append, List.map_cons,
        hdigits]
      rfl

theorem hostChar_spec {c : Char} (hc : hostChar c) :
    c ≠ '/' ∧ c ≠ '@' ∧ c ≠ ':' ∧ isWhitespace c = false := by
  refine ⟨?_, ?_, ?_, ?_⟩
  · rintro rfl
    exact absurd hc (by decide)
  · rintro rfl
    exact absurd hc (by decide)
  · rintro rfl
    exact absurd hc (by decide)
  · apply not_isWhitespace
    simp only [hostChar, Bool.or_eq_true, decide_eq_true_eq] at hc
    tauto

theorem isAsciiDigit_hostChar {c : Char} (hc : isAsciiDigit c) : hostChar c := by
  unfold isAsciiDigit at hc
  unfold hostChar isAsciiAlphanumeric
  rw [hc]
  rfl

namespace HostParts

variable {name : Text} {port : Option Text}

section

variable (hparts : HostParts name port)
include hparts

theorem mem_hostText {c : Char} (hc : c ∈ hostText name port) :
    hostChar c ∨ c = ':' := by
  cases port with
  | none => exact .inl (hparts.name_chars c hc)
  | some p =>
    rcases List.mem_append.mp hc with hmem | hmem
    · exact .inl (hparts.name_chars c hmem)
    · rcases List.mem_cons.mp hmem with rfl | hmem
      · exact .inr rfl
      · exact .inl (isAsciiDigit_hostChar ((hparts.port_ok p rfl).2 c hmem))

theorem hostText_tidy :
    Tidy (hostText name port) ∧ '@' ∉ hostText name port := by
  refine ⟨⟨?_, ?_⟩, ?_⟩
  · cases port with
    | none => exact hparts.name_ne
    | some p => exact List.append_ne_nil_of_left_ne_nil hparts.name_ne _
  · intro c hc
    rcases hparts.mem_hostText hc with hchar | rfl
    · exact ⟨(hostChar_spec hchar).1, (hostChar_spec hchar).2.2.2⟩
    · decide
  · intro hat
    rcases hparts.mem_hostText hat with hchar | heq
    · exact (hostChar_spec hchar).2.1 rfl
    · exact absurd heq (by decide)

theorem colon_not_mem : ':' ∉ name :=
  fun hmem => (hostChar_spec (hparts.name_chars _ hmem)).2.2.1 rfl

theorem name_trimmed : name.rdropWhile (· = '.') = name := by
  apply List.rdropWhile_eq_self_iff.mpr
  intro hne
  simpa using hparts.name_end _ (List.getLast?_eq_some_getLast hne)

theorem split_hostText :
    hostName (hostText name port) = name ∧ hostPort (hostText name port) = port := by
  cases port with
  | none =>
    have hsplit : splitOnce ':' name = none := if_neg hparts.colon_not_mem
    simp [hostText, hostName, hostPort, hsplit, hparts.name_trimmed]
  | some p =>
    have hsplit : splitOnce ':' (name ++ ':' :: p) = some (name, p) :=
      splitOnce_append hparts.colon_not_mem p
    simp [hostText, hostName, hostPort, hsplit, hparts.name_trimmed]

theorem normalizeGitlabHost_eq
    (hlower : toAsciiLowercase (hostText name port) = hostText name port) :
    normalizeGitlabHost (hostText name port) = .ok (hostText name port) := by
  obtain ⟨htidy, hat⟩ := hparts.hostText_tidy
  have hslash : '/' ∉ hostText name port := fun hmem => (htidy.2 _ hmem).1 rfl
  have hscheme : withoutScheme (hostText name port) = hostText name port := by
    have hnone : ∀ start : Text, '/' ∈ start → stripPrefix start (hostText name port) = none := by
      intro start hstart
      rw [stripPrefix, if_neg]
      exact fun hfront => hslash (hfront.subset hstart)
    rw [withoutScheme, hnone httpsScheme (by decide), hnone httpScheme (by decide)]
    rfl
  have hslashes : trimSlashes (hostText name port) = hostText name port := by
    apply List.rdropWhile_eq_self_iff.mpr
    intro hne
    have hlast := (htidy.2 _ (List.getLast_mem hne)).1
    simpa using hlast
  have hport : port.any (fun p => decide (p = []) || !p.all isAsciiDigit) = false := by
    rw [← Bool.not_eq_true, Option.any_eq_true]
    rintro ⟨p, hp, hbad⟩
    obtain ⟨hne, hdigits⟩ := hparts.port_ok p hp
    rw [Bool.or_eq_true, decide_eq_true_eq, or_iff_right hne, Bool.not_eq_true',
      ← Bool.not_eq_true, List.all_eq_true] at hbad
    exact hbad hdigits
  have hname : name.all hostChar = true := List.all_eq_true.mpr hparts.name_chars
  obtain ⟨hfirst, hsecond⟩ := hparts.split_hostText
  unfold normalizeGitlabHost
  rw [htidy.trim_eq, hscheme, hslashes]
  dsimp only
  rw [if_neg htidy.1, if_neg (by simp [hslash, hat]), hfirst, hsecond, if_neg, ← hostText, hlower]
  simp [hparts.name_ne, hname, hport]

end

end HostParts

theorem normalizeGitlabHost_idem {input host : Text}
    (hhost : normalizeGitlabHost input = .ok host) :
    normalizeGitlabHost host = .ok host ∧ Tidy host := by
  obtain ⟨name, port, hparts, rfl, _⟩ := normalizeGitlabHost_ok hhost
  obtain ⟨hlowered, heq⟩ := hparts.lowered
  have hlower : toAsciiLowercase (hostText (toAsciiLowercase name) port) =
      hostText (toAsciiLowercase name) port := by
    rw [← heq, toAsciiLowercase_idem]
  rw [heq]
  exact ⟨hlowered.normalizeGitlabHost_eq hlower, hlowered.hostText_tidy.1⟩

theorem length_normalizeGitlabHost {input host : Text}
    (hhost : normalizeGitlabHost input = .ok host) :
    host.length ≤ input.length := by
  obtain ⟨_, _, _, _, hlength⟩ := normalizeGitlabHost_ok hhost
  exact hlength

theorem toOption_eq_some {input host : Text} :
    (normalizeGitlabHost input).toOption = some host ↔ normalizeGitlabHost input = .ok host := by
  cases normalizeGitlabHost input with
  | error e => simp [Except.toOption]
  | ok h => simp [Except.toOption]

end Difflore.Infra
