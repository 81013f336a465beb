import Difflore.Hook.SecretFiles

/-! # Is only a true repeat suppressed?

An edit that is answered as a recent duplicate is not recorded and gets no rules. The
injection cache holds a digest of the first part of an edit under a normalized path, so
an edit that goes on differently passes for the one before it.
-/

namespace Difflore.Hook

open Foundation Text

structure EditCall where
  env : Env
  event : PostToolUse

def EditCall.handle (platform : Platform) (stores : Stores) (call : EditCall) : Stores :=
  handlePostToolUse platform call.env call.event stores

/-- The file that the edit is filed under, if the call is handled at all. -/
def EditCall.file (call : EditCall) : Option Text :=
  if isEditTool call.event.toolName then
    (orderedTargetFiles call.event.filePath call.event.targetFiles).head?
  else none

def EditCall.text (call : EditCall) : Option Text :=
  (nonBlank call.event.diff).or (nonBlank call.event.newText)

def EditCall.key (call : EditCall) : Option Text := call.file.map (cacheKey call.env.projectHash)

def EditCall.signal (platform : Platform) (call : EditCall) : Option Text :=
  signalHash platform.sha256 (postEditRetrievalIntent call.event.diff call.event.newText)

/-- The answer is `RecentDuplicate`. -/
def EditCall.isRecentDuplicate (platform : Platform) (stores : Stores) (call : EditCall) : Bool :=
  call.key.any fun key =>
    stores.shouldSkipRecent call.env.cacheTtlMs call.env.nowMs key (call.signal platform)

def EditCall.rulesInjected (call : EditCall) : Nat :=
  match call.env.retrieval with
  | .served ruleIds .. => ruleIds.length
  | .shortCircuit | .failed => 0

structure EditCall.Injects (platform : Platform) (stores : Stores) (call : EditCall) : Prop where
  fresh : call.isRecentDuplicate platform stores = false
  db : call.env.dbAvailable = true
  index : call.env.indexAvailable = true
  rules : 0 < call.rulesInjected

structure EditCall.SameEdit (earlier call : EditCall) : Prop where
  project : earlier.env.projectHash = call.env.projectHash
  file : earlier.file = call.file
  text : earlier.text = call.text

/-- Every recent duplicate repeats a call of the time-to-live that injected rules. -/
def OnlyRepeatsSuppressed (platform : Platform) (start : Stores) (history : List EditCall) : Prop :=
  ∀ before call after, history = before ++ call :: after →
    call.isRecentDuplicate platform (before.foldl (EditCall.handle platform) start) = true →
    ∃ first earlier rest, before = first ++ earlier :: rest ∧
      earlier.Injects platform (first.foldl (EditCall.handle platform) start) ∧
      earlier.SameEdit call ∧ call.env.nowMs - earlier.env.nowMs ≤ call.env.cacheTtlMs

/-- A later call with the key and the signal of one that finds rules is the same edit. -/
def ToldApart (platform : Platform) (history : List EditCall) : Prop :=
  history.Pairwise fun earlier call => 0 < earlier.rulesInjected →
    ∀ key, earlier.key = some key → call.key = some key →
      earlier.signal platform = call.signal platform → earlier.SameEdit call

/-! ## What a call does to the cache -/

variable {platform : Platform} {stores start : Stores} {env : Env}

theorem cache_replaySpillFiles {insert : Option (Text → Text → Stores → Stores)}
    (hinsert : ∀ insertRow ∈ insert, ∀ kind payloadJson stores,
      (insertRow kind payloadJson stores).cache = stores.cache)
    (files : List SpillFile) (stores : Stores) :
    (replaySpillFiles insert files stores).cache = stores.cache := by
  induction files generalizing stores with
  | nil => rfl
  | cons file rest ih =>
    unfold replaySpillFiles
    split
    next => exact ih stores
    next => exact ih _
    next =>
      split
      next => exact ih _
      next =>
        split
        next => rfl
        next insertRow =>
          rw [ih]
          exact hinsert insertRow rfl _ _ stores

theorem cache_enqueueObservationAndReplayOutbox (payload : Option Text) :
    (enqueueObservationAndReplayOutbox env payload stores).cache = stores.cache := by
  have hreplay : (stores.replay env.insertOutbox).cache = stores.cache := by
    apply cache_replaySpillFiles
    intro insertRow hrow kind payloadJson stores
    unfold Env.insertOutbox at hrow
    split at hrow
    · cases hrow
      rfl
    · cases hrow
  rw [← hreplay]
  unfold enqueueObservationAndReplayOutbox enqueueObservation spillObservationPayload
  repeat' first | rfl | split

theorem cache_emit (event : Cloud.Observations.ObservationEvent) :
    (env.emit platform event stores).cache = stores.cache := by
  unfold Env.emit
  split <;> rfl

theorem cache_maybeEmitRuleCitedInEdit (sessionId filePath : Text) (excerpt : Option Text) :
    (maybeEmitRuleCitedInEdit platform env sessionId filePath excerpt stores).cache =
      stores.cache := by
  unfold maybeEmitRuleCitedInEdit
  split
  · rfl
  · split
    · rfl
    · exact cache_emit _

theorem cache_handle (call : EditCall) : (call.handle platform stores).cache = stores.cache ∨
      call.Injects platform stores ∧ ∃ key, call.key = some key ∧
        (call.handle platform stores).cache =
          (stores.rememberInjection call.env.cacheTtlMs call.env.nowMs key call.rulesInjected
            (call.signal platform)).cache := by
  obtain ⟨env, event⟩ := call
  unfold EditCall.handle handlePostToolUse
  split
  next => exact .inl rfl
  next htool =>
    have htool : isEditTool event.toolName = true := by simpa using htool
    split
    next => exact .inl rfl
    next file hfile =>
      have hkey : EditCall.key ⟨env, event⟩ = some (cacheKey env.projectHash file) := by
        rw [EditCall.key, EditCall.file, if_pos htool, hfile, Option.map_some]
      unfold recordEdit recordSignals
      split
      next => exact .inl rfl
      next hfresh =>
        split
        next hdb =>
          unfold recordWithDb
          split
          next => exact .inl (cache_enqueueObservationAndReplayOutbox _)
          next hindex =>
            unfold fetchRelevantRules
            split
            next =>
              left
              rw [cache_maybeEmitRuleCitedInEdit, cache_enqueueObservationAndReplayOutbox]
            next =>
              left
              rw [cache_maybeEmitRuleCitedInEdit, cache_enqueueObservationAndReplayOutbox]
            next ruleIds topK strictMatchCount estimatedTokens hserved =>
              have hrules : EditCall.rulesInjected ⟨env, event⟩ = ruleIds.length := by
                rw [EditCall.rulesInjected, hserved]
              split
              next =>
                left
                rw [cache_emit, cache_maybeEmitRuleCitedInEdit,
                  cache_enqueueObservationAndReplayOutbox]
              next hne =>
                right
                refine ⟨⟨?_, hdb, by simpa using hindex, ?_⟩, _, hkey, ?_⟩
                · rw [EditCall.isRecentDuplicate, hkey]
                  exact Bool.eq_false_iff.mpr hfresh
                · rw [hrules]
                  exact List.length_pos_iff.mpr hne
                · simp only [Stores.rememberInjection, cache_emit, hrules,
                    cache_maybeEmitRuleCitedInEdit, cache_enqueueObservationAndReplayOutbox]
                  rfl
        next =>
          left
          unfold spillWithoutDb spillObservationPayload
          repeat' first | rfl | split

def WrittenBy (platform : Platform) (start : Stores) (history : List EditCall) (key : Text)
    (entry : CacheEntry) : Prop :=
  ∃ first earlier rest, history = first ++ earlier :: rest ∧
    earlier.Injects platform (first.foldl (EditCall.handle platform) start) ∧
    earlier.key = some key ∧
    entry = ⟨earlier.env.nowMs, earlier.rulesInjected, earlier.signal platform⟩

theorem writtenBy_of_mem_cache (hempty : start.cache = []) (history : List EditCall) :
    ∀ key entry, (key, entry) ∈ (history.foldl (EditCall.handle platform) start).cache →
      WrittenBy platform start history key entry := by
  induction history using List.reverseRecOn with
  | nil =>
    intro key entry hmem
    rw [List.foldl_nil, hempty] at hmem
    cases hmem
  | append_singleton before call ih =>
    intro key entry hmem
    rw [List.foldl_append, List.foldl_cons, List.foldl_nil] at hmem
    have hlater : (key, entry) ∈ (before.foldl (EditCall.handle platform) start).cache →
        WrittenBy platform start (before ++ [call]) key entry := by
      intro hold
      obtain ⟨first, earlier, rest, rfl, hearlier⟩ := ih key entry hold
      exact ⟨first, earlier, rest ++ [call], by simp, hearlier⟩
    rcases cache_handle call with hsame | ⟨hinjects, written, hkey, hcache⟩
    · exact hlater (hsame ▸ hmem)
    · rw [hcache, Stores.rememberInjection, List.mem_cons] at hmem
      rcases hmem with hnew | hold
      · obtain ⟨rfl, rfl⟩ := Prod.mk.inj hnew
        exact ⟨before, call, [], rfl, hinjects, hkey, rfl⟩
      · exact hlater (List.mem_of_mem_filter hold)

theorem signal_ne_none (call : EditCall) : call.signal platform ≠ none := by
  have hmem : 'p' ∈ postEditRetrievalIntent call.event.diff call.event.newText := by
    unfold postEditRetrievalIntent
    split <;> simp
  rw [EditCall.signal, signalHash, if_neg (trim_ne_nil_of_mem hmem (by decide))]
  exact Option.some_ne_none _

/-- Where the cache tells the edits of a history apart, it suppresses only repeats. -/
theorem only_repeats_suppressed (platform : Platform) {start : Stores} {history : List EditCall}
    (hempty : start.cache = []) (happart : ToldApart platform history) :
    OnlyRepeatsSuppressed platform start history := by
  intro before call after hhistory hskip
  obtain ⟨key, hkey, hrecent⟩ := (Option.any_eq_true _ _).mp hskip
  obtain ⟨entry, hfound, hmatches⟩ := (Option.any_eq_true _ _).mp hrecent
  obtain ⟨hlookup, hlive⟩ := Option.filter_eq_some_iff.mp hfound
  obtain ⟨front, back, hcache, -⟩ := List.lookup_eq_some_iff.mp hlookup
  obtain ⟨first, earlier, rest, hbefore, hinjects, hwritten, hentry⟩ :=
    writtenBy_of_mem_cache hempty before key entry
      (hcache ▸ List.mem_append_right front (.head _))
  subst hentry hbefore
  have hsignal : earlier.signal platform = call.signal platform := by
    cases hcurrent : call.signal platform with
    | none => exact absurd hcurrent (signal_ne_none call)
    | some hash => simpa [CacheEntry.matchesSignal, hcurrent] using hmatches
  simp only [CacheEntry.isLive, Bool.and_eq_true, decide_eq_true_eq] at hlive
  have hpair : [earlier, call].Sublist history := by
    rw [hhistory, List.append_assoc, List.cons_append]
    refine (List.Sublist.cons_cons earlier ?_).trans (List.sublist_append_right first _)
    exact (List.singleton_sublist.mpr (by simp)).trans (List.sublist_append_right rest _)
  have hsame := List.pairwise_iff_forall_sublist.mp happart hpair hinjects.rules key hwritten hkey
    hsignal
  exact ⟨first, earlier, rest, rfl, hinjects, hsame, hlive.1.2.le⟩

def servedEnv : Env := { quietEnv with retrieval := .served ["r1"] 3 1 10 }

def longEdit (tail : Text) : EditCall where
  env := servedEnv
  event := ⟨"Edit", some "src/a.rs", [], none, some "s",
    some (List.replicate 1200 'a' ++ tail), none⟩

theorem only_repeats_suppressed_longEdit : (longEdit "b").isRecentDuplicate citedPlatform
        ([longEdit "b"].foldl (EditCall.handle citedPlatform) emptyStores) = true ∧
      OnlyRepeatsSuppressed citedPlatform emptyStores
        [longEdit "b", longEdit "b"] :=
  ⟨by decide +kernel, only_repeats_suppressed citedPlatform rfl
    (List.pairwise_pair.mpr fun _ _ _ _ _ => ⟨rfl, rfl, rfl⟩)⟩

/-- The second edit is new, and it is dropped as a repeat of the first. -/
theorem changed_tail_suppressed : ¬ ∀ (platform : Platform) (start : Stores)
    (history : List EditCall), start.cache = [] → OnlyRepeatsSuppressed platform start history := by
  intro hclaim
  have htext : (longEdit "b").text ≠ (longEdit "c").text := by decide +kernel
  obtain ⟨first, earlier, rest, hbefore, -, hsame, -⟩ :=
    hclaim citedPlatform emptyStores [longEdit "b", longEdit "c"] rfl
      [longEdit "b"] (longEdit "c") [] rfl (by decide +kernel)
  cases first with
  | nil =>
    obtain ⟨hcons, -⟩ := List.cons.inj hbefore
    have hsame := hsame.text
    rw [← hcons] at hsame
    exact htext hsame
  | cons _ _ => simp at hbefore

end Difflore.Hook
