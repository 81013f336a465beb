import Mathlib.Logic.Relation

/-! # References that lead to something live

Some things refer to others, and some are live. A thing is anchored if its
references can be followed to a live one; the whole is grounded if everything
referred to is anchored. Two changes are looked at: a live thing gives up its
place and refers to another one, and a thing is taken away.
-/

namespace Difflore.Foundation

open Relation

universe uThing

variable {Thing : Type uThing}

def Anchored (refers : Thing → Thing → Prop) (live : Thing → Prop) (thing : Thing) : Prop :=
  ∃ last, ReflTransGen refers thing last ∧ live last

def Grounded (refers : Thing → Thing → Prop) (live : Thing → Prop) : Prop :=
  ∀ source target, refers source target → Anchored refers live target

variable {refers refers' : Thing → Thing → Prop} {live live' : Thing → Prop}

theorem Anchored.of_live {thing : Thing} (hlive : live thing) : Anchored refers live thing :=
  ⟨thing, .refl, hlive⟩

theorem Anchored.head {source target : Thing} (hrefers : refers source target)
    (htarget : Anchored refers live target) : Anchored refers live source := by
  obtain ⟨last, hpath, hlive⟩ := htarget
  exact ⟨last, hpath.head hrefers, hlive⟩

theorem Grounded.congr (hgrounded : Grounded refers live)
    (hrefers : ∀ source target, refers' source target ↔ refers source target)
    (hlive : ∀ thing, live' thing ↔ live thing) : Grounded refers' live' := by
  obtain rfl : refers' = refers := funext₂ fun source target => propext (hrefers source target)
  obtain rfl : live' = live := funext fun thing => propext (hlive thing)
  exact hgrounded

section Redirect

variable {moved goal : Thing}

/-- A path that may use the new reference ends as an old path from its start, or
as an old path from where the new reference points. -/
theorem path_of_redirected (hrefers : ∀ source target, refers' source target →
      refers source target ∨ (source = moved ∧ target = goal))
    {start last : Thing} (hpath : ReflTransGen refers' start last) :
    ReflTransGen refers start last ∨ ReflTransGen refers goal last := by
  induction hpath using ReflTransGen.head_induction_on with
  | refl => exact .inl .refl
  | head hstep _ ih =>
    rcases ih with hfrom | hgoal
    · rcases hrefers _ _ hstep with hold | ⟨_, rfl⟩
      · exact .inl (hfrom.head hold)
      · exact .inr hfrom
    · exact .inr hgoal

/-- A live thing becomes a reference: the whole stays grounded exactly when the
goal leads to something live other than the thing that moved. -/
theorem grounded_redirect_iff (hgrounded : Grounded refers live)
    (hrefers : ∀ source target, refers' source target ↔
      refers source target ∨ (source = moved ∧ target = goal))
    (hlive : ∀ thing, live' thing ↔ live thing ∧ thing ≠ moved) :
    Grounded refers' live' ↔ ∃ last, ReflTransGen refers goal last ∧ live last ∧ last ≠ moved := by
  have hmono : ReflTransGen refers ≤ ReflTransGen refers' :=
    ReflTransGen.mono fun source target hstep => (hrefers source target).mpr (.inl hstep)
  constructor
  · intro hgrounded'
    obtain ⟨last, hpath, hlast⟩ :=
      hgrounded' moved goal ((hrefers moved goal).mpr (.inr ⟨rfl, rfl⟩))
    obtain ⟨hlast, hne⟩ := (hlive last).mp hlast
    have hold := path_of_redirected (fun source target => (hrefers source target).mp) hpath
    exact ⟨last, hold.elim id id, hlast, hne⟩
  · rintro ⟨last, hpath, hlast, hne⟩
    have hgoal : Anchored refers' live' goal :=
      ⟨last, hmono _ _ hpath, (hlive last).mpr ⟨hlast, hne⟩⟩
    intro source target hstep
    rcases (hrefers source target).mp hstep with hold | ⟨_, rfl⟩
    · obtain ⟨end_, hend, hendLive⟩ := hgrounded source target hold
      by_cases hmoved : end_ = moved
      · -- the old chain ends where the new reference begins
        subst end_
        have hmovedAnchored : Anchored refers' live' moved :=
          hgoal.head ((hrefers moved goal).mpr (.inr ⟨rfl, rfl⟩))
        obtain ⟨last', hpath', hlast'⟩ := hmovedAnchored
        exact ⟨last', (hmono _ _ hend).trans hpath', hlast'⟩
      · exact ⟨end_, hmono _ _ hend, (hlive end_).mpr ⟨hendLive, hmoved⟩⟩
    · exact hgoal

end Redirect

section Remove

variable {removed : Thing}

/-- Taking things away at one place: the whole stays grounded exactly when that
place, if it is still referred to, still leads to something live. -/
theorem grounded_remove_iff (hgrounded : Grounded refers live)
    (hsub : ∀ source target, refers' source target → refers source target)
    (hkeep : ∀ source target, source ≠ removed → refers source target → refers' source target)
    (hlive : ∀ thing, thing ≠ removed → live thing → live' thing) :
    Grounded refers' live' ↔
      ((∃ source, refers' source removed) → Anchored refers' live' removed) := by
  constructor
  · rintro hgrounded' ⟨source, hstep⟩
    exact hgrounded' source removed hstep
  · intro hremoved source target hstep
    obtain ⟨last, hpath, hlast⟩ := hgrounded source target (hsub source target hstep)
    induction hpath using ReflTransGen.head_induction_on generalizing source with
    | refl =>
      by_cases heq : last = removed
      · subst last
        exact hremoved ⟨source, hstep⟩
      · exact .of_live (hlive last heq hlast)
    | @head here next hnext _ ih =>
      by_cases heq : here = removed
      · subst here
        exact hremoved ⟨source, hstep⟩
      · have hkept := hkeep here next heq hnext
        exact (ih here hkept).head hkept

end Remove

end Difflore.Foundation
