import OpenCollab.Shaping.Reactive

/-!
# OpenCollab.Shaping.AutoCompact

`AutoCompactShaper` (`shaping/reactive.py`): the last resort folds the largest
pinned-free run of groups in the open middle into one visible marker message
with a model-written summary.  A cached summary of an unchanged prefix of that
run is reused while the view it gives stays below the trigger.

The summarizer is a model: its answers are the `replies` of the shaping state,
in the order in which they are asked for, and each may come with what other
tasks left in the shaper's cache while it was awaited.  Nothing below depends on
the answers, nor on what the cache holds.
-/

namespace OpenCollab

open List (Forall₂)
open Segments

/-! ## the state of a shaping call -/

/-- A summary cache in least-recently-used order: key, length of the summarized
segment, summary. -/
abbrev SummaryCache := List (String × Nat × String)

/-- One answer of the summarizer: the summary, `last_call_cacheable`, and the
shaper's cache at that moment when other tasks have changed it. -/
structure SummaryReply where
  summary : String
  cacheable : Bool := true
  cacheNow : Option SummaryCache := none

/-- What a shaping call reads and changes: the message objects, the caches of the
shaper instances, and the answers still to come. -/
structure ShapingState where
  store : Store
  caches : Nat → SummaryCache := fun _ => []
  replies : List SummaryReply := []

/-- `self._summary_cache = cache` on instance `id`. -/
def ShapingState.setCache (s : ShapingState) (id : Nat) (cache : SummaryCache) : ShapingState :=
  { s with caches := fun i => if i = id then cache else s.caches i }

@[simp] theorem ShapingState.store_setCache (s : ShapingState) (id : Nat) (cache : SummaryCache) :
    (s.setCache id cache).store = s.store := rfl

/-- `cache.move_to_end(key)`. -/
def moveToEnd (cache : SummaryCache) (key : String) : SummaryCache :=
  cache.filter (·.1 ≠ key) ++ cache.filter (·.1 = key)

/-- What a shaping call gives back: a projection of the history behind valid
references, with no earlier cell touched. -/
structure ShapedView (Rejected : String → Prop) (k : Nat) (s : ShapingState) (refs : List Ref)
    (out : List Ref) (s' : ShapingState) : Prop where
  kept : s.store.Extends s'.store
  has : s'.store.Has out
  projects : Projects Rejected k (s.store.view refs) (s'.store.view out)

theorem ShapedView.refl {Rejected : String → Prop} {k : Nat} {refs : List Ref}
    {s s' : ShapingState} (hrefs : s.store.Has refs)
    (hvalid : ProtocolValid (s.store.view refs)) (hstore : s'.store = s.store) :
    ShapedView Rejected k s refs refs s' :=
  ⟨hstore ▸ Store.Extends.refl _, hstore ▸ hrefs, by rw [hstore]; exact Projects.refl hvalid⟩

/-- Shaping calls compose. -/
theorem ShapedView.trans {Rejected : String → Prop} {k : Nat} {refs out out' : List Ref}
    {s s' s'' : ShapingState} (h : ShapedView Rejected k s refs out s')
    (h' : ShapedView Rejected k s' out out' s'') : ShapedView Rejected k s refs out' s'' :=
  ⟨h.kept.trans h'.kept, h'.has, h.projects.trans h'.projects⟩

/-! ## the layer -/

/-- `AutoCompactShaper`; `hasSummarizer` is `summarizer is not None`. -/
structure AutoCompactShaper extends ReactiveHistoryShaper where
  hasSummarizer : Bool := false
  summaryCacheSize : Nat := 8

namespace AutoCompactShaper

/-- The marker message that stands for `n` summarized messages. -/
def markerText (n : Nat) (summary : String) : String :=
  "[Context auto-compacted — summary of " ++ toString n ++ " earlier messages]:\n" ++ summary

def markerObj (n : Nat) (summary : String) : MessageObj :=
  { role := .system, content := some (.str (markerText n summary)), compacted := true }

theorem in_markerObj (n : Nat) (summary : String) (calls items : Nat) :
    (markerObj n summary).In calls items := ⟨by simp [markerObj], by simp [markerObj]⟩

/-- `_replace_region`; `none` stands for `messages` itself. -/
def replaceRegion (cfg : AutoCompactShaper) (st : Store) (refs : List Ref) (start stop : Nat)
    (summary : String) : Option (List Ref × Store) :=
  if summary = "" then none
  else
    let segment := slice refs start stop
    let (marker, st') := st.alloc (markerObj segment.length summary) (in_markerObj _ _ _ _)
    let candidate := refs.take start ++ [marker] ++ refs.drop stop
    if cfg.estimate (st.view refs) ≤ cfg.estimate (st'.view candidate) then none
    else some (candidate, st')

/-- `_compact_region`: the message range of the run of groups to summarize. -/
def compactRegion (cfg : AutoCompactShaper) (forcedIds : List Nat) (messages : List Message) :
    Option (Nat × Nat) :=
  if !cfg.hasSummarizer || !cfg.overTrigger forcedIds messages then none
  else
    let (spans, lo, hi) := droppableRegion messages cfg.keepRecentGroups
    let (lo, hi) := pinnedFreeRegion messages spans lo hi
    let lo := scanWhile (fun i => !spanIsSafeToCompact messages (spanAt spans i)) lo (hi - lo)
    let hi := scanWhile (fun i => spanIsSafeToCompact messages (spanAt spans i)) lo (hi - lo)
    if hi ≤ lo then none
    else
      let start := (spanAt spans lo).1
      let stop := (spanAt spans (hi - 1)).2
      if start < stop then some (start, stop) else none

/-- The prefix lengths for which a cached summary may exist, longest first: the
lengths in the cache that end at a group boundary of the region. -/
def prefixLengths (cache : SummaryCache) (segment : List Message) : List Nat :=
  (((groupSpans segment).map (·.2)).filter fun stop => cache.any (·.2.1 = stop)).reverse

/-- The loop of `_cached_prefix_view` over the candidate lengths. -/
def cachedPrefixFrom (cfg : AutoCompactShaper) (cacheKey : List Message → String)
    (forcedIds : List Nat) (refs : List Ref) (start : Nat) (s : ShapingState) :
    List Nat → Option (List Ref × ShapingState)
  | [] => none
  | length :: rest =>
      let key := cacheKey (s.store.view (slice refs start (start + length)))
      match (s.caches cfg.id).lookup key with
      | none => cfg.cachedPrefixFrom cacheKey forcedIds refs start s rest
      | some (_, summary) =>
          match cfg.replaceRegion s.store refs start (start + length) summary with
          | none => none
          | some (candidate, store) =>
              -- renewed pressure or a forced pass summarizes the original messages
              if cfg.overTrigger forcedIds (store.view candidate) then none
              else some (candidate,
                { s with store }.setCache cfg.id (moveToEnd (s.caches cfg.id) key))

/-- `_cached_prefix_view`. -/
def cachedPrefixView (cfg : AutoCompactShaper) (cacheKey : List Message → String)
    (forcedIds : List Nat) (refs : List Ref) (start stop : Nat) (s : ShapingState) :
    Option (List Ref × ShapingState) :=
  if (s.caches cfg.id).isEmpty then none
  else
    cfg.cachedPrefixFrom cacheKey forcedIds refs start s
      (prefixLengths (s.caches cfg.id) (s.store.view (slice refs start stop)))

/-- Ask the summarizer for the next answer. -/
def askSummarizer (cfg : AutoCompactShaper) (s : ShapingState) : SummaryReply × ShapingState :=
  match s.replies with
  | [] => ({ summary := "", cacheable := false }, s)
  | reply :: rest =>
      let s := { s with replies := rest }
      (reply, match reply.cacheNow with
        | none => s
        | some cache => s.setCache cfg.id cache)

/-- `_cache_summary`. -/
def cacheSummary (cfg : AutoCompactShaper) (key : Option String) (length : Nat)
    (reply : SummaryReply) (s : ShapingState) : String × ShapingState :=
  if !reply.cacheable then ("", s)
  else match key with
    | none => (reply.summary, s)
    | some key =>
        if reply.summary = "" then (reply.summary, s)
        else
          let cache := (s.caches cfg.id).filter (·.1 ≠ key) ++ [(key, length, reply.summary)]
          (reply.summary, s.setCache cfg.id (cache.drop (cache.length - cfg.summaryCacheSize)))

/-- `_summarize` and `_asummarize`. -/
def summarize (cfg : AutoCompactShaper) (cacheKey : List Message → String)
    (segment : List Message) (s : ShapingState) : String × ShapingState :=
  let key := if cfg.summaryCacheSize = 0 then none else some (cacheKey segment)
  match key.bind fun key => ((s.caches cfg.id).lookup key).map (key, ·.2) with
  | some (key, summary) => (summary, s.setCache cfg.id (moveToEnd (s.caches cfg.id) key))
  | none =>
      let (reply, s) := cfg.askSummarizer s
      cfg.cacheSummary key segment.length reply s

/-- `AutoCompactShaper.shape` and `ashape`. -/
def shape (cfg : AutoCompactShaper) (cacheKey : List Message → String) (forcedIds : List Nat)
    (refs : List Ref) (s : ShapingState) : List Ref × ShapingState :=
  match cfg.compactRegion forcedIds (s.store.view refs) with
  | none => (refs, s)
  | some (start, stop) =>
      match cfg.cachedPrefixView cacheKey forcedIds refs start stop s with
      | some (view, s) => (view, s)
      | none =>
          let (summary, s) := cfg.summarize cacheKey (s.store.view (slice refs start stop)) s
          match cfg.replaceRegion s.store refs start stop summary with
          | none => (refs, s)
          | some (candidate, store) => (candidate, { s with store })

/-! ## the region -/

/-- A run of groups `[lo, hi)` that the layer may fold: behind the leading group,
in front of the last `keep` groups, and without a pinned source. -/
structure Foldable (ms : List Message) (keep lo hi : Nat) : Prop where
  lo_pos : 1 ≤ lo
  lo_lt : lo < hi
  recent : hi + keep ≤ (groups ms).length
  unpinned : ∀ i (hi' : i < (groups ms).length), lo ≤ i → i < hi →
    ∀ m ∈ (groups ms)[i], m.isPinned = false

/-- **The region the code computes is a foldable run of groups.** -/
theorem compactRegion_spec (cfg : AutoCompactShaper) (forcedIds : List Nat) (ms : List Message)
    (h : cfg.compactRegion forcedIds ms = some (start, stop)) :
    ∃ lo hi, Foldable ms cfg.keepRecentGroups lo hi ∧ start = startOf 0 (groups ms) lo ∧
      stop = startOf 0 (groups ms) hi := by
  unfold compactRegion at h
  split at h
  · contradiction
  · obtain ⟨hlo0, hhi0⟩ : (droppableRegion ms cfg.keepRecentGroups).2.1 = 1 ∧
        (droppableRegion ms cfg.keepRecentGroups).2.2 =
          max 1 ((groups ms).length - cfg.keepRecentGroups) := by simp [droppableRegion]
    have hspans : (droppableRegion ms cfg.keepRecentGroups).1 = groupSpans ms := rfl
    simp only [hspans, hlo0, hhi0] at h
    obtain ⟨h1, h2, h3, hfree⟩ := pinnedFreeRegion_spec ms 1
      (max 1 ((groups ms).length - cfg.keepRecentGroups)) (by omega)
    generalize pinnedFreeRegion ms (groupSpans ms) 1
      (max 1 ((groups ms).length - cfg.keepRecentGroups)) = region at h h1 h2 h3 hfree
    obtain ⟨lo, hi⟩ := region
    simp only at h h1 h2 h3 hfree
    have hlo := le_scanWhile
      (fun i => !spanIsSafeToCompact ms (spanAt (groupSpans ms) i)) lo (hi - lo)
    generalize scanWhile (fun i => !spanIsSafeToCompact ms (spanAt (groupSpans ms) i)) lo
      (hi - lo) = lo' at h hlo
    have hhi := scanWhile_le
      (fun i => spanIsSafeToCompact ms (spanAt (groupSpans ms) i)) lo' (hi - lo')
    generalize scanWhile (fun i => spanIsSafeToCompact ms (spanAt (groupSpans ms) i)) lo'
      (hi - lo') = hi' at h hhi
    split at h
    · contradiction
    · next hlt =>
        have hfold : Foldable ms cfg.keepRecentGroups lo' hi' :=
          ⟨by omega, by omega, by omega, fun i hi'' hge hlt' => hfree i hi'' (by omega) (by omega)⟩
        split at h
        · cases h
          have hrecent := hfold.recent
          refine ⟨lo', hi', hfold, ?_, ?_⟩
          · rw [spanAt_groupSpans ms (by omega)]
          · rw [spanAt_groupSpans ms (by omega)]
            simp only [show hi' - 1 + 1 = hi' by omega]
        · contradiction

/-- A shorter run at the same place is foldable. -/
theorem Foldable.shrink {ms : List Message} {keep lo hi hi' : Nat} (h : Foldable ms keep lo hi)
    (hlo : lo < hi') (hhi : hi' ≤ hi) : Foldable ms keep lo hi' :=
  ⟨h.lo_pos, hlo, by have := h.recent; omega,
    fun i hlen hge hlt => h.unpinned i hlen hge (by omega)⟩

/-! ## folding a run of groups -/

variable {st : Store} {refs : List Ref} {Rejected : String → Prop} {keep lo hi k : Nat}

/-- What a replaced region looks like. -/
theorem replaceRegion_inv (cfg : AutoCompactShaper)
    (h : cfg.replaceRegion st refs start stop summary = some (candidate, st')) :
    let fresh := st.alloc (markerObj (slice refs start stop).length summary) (in_markerObj _ _ _ _)
    candidate = refs.take start ++ [fresh.1] ++ refs.drop stop ∧ st' = fresh.2 := by
  intro fresh
  simp only [replaceRegion, Option.ite_none_left_eq_some] at h
  obtain ⟨-, -, h⟩ := h
  cases h
  exact ⟨rfl, rfl⟩

/-- The candidate, read back as groups. -/
theorem view_candidate {marker : Ref} (hext : st.Extends st') (hrefs : st.Has refs) :
    st'.view (refs.take (startOf 0 (groups (st.view refs)) lo) ++ [marker] ++
        refs.drop (startOf 0 (groups (st.view refs)) hi)) =
      ((groups (st.view refs)).take lo ++ [[st'.read marker]] ++
        (groups (st.view refs)).drop hi).flatten := by
  have htake := take_startOf_flatten (groups (st.view refs)) lo
  have hdrop := drop_startOf_flatten (groups (st.view refs)) hi
  rw [flatten_groups] at htake hdrop
  have hmap : refs.map st'.read = st.view refs := Store.view_of_extends hext hrefs
  simp only [Store.view, List.map_append, List.map_take, List.map_drop, hmap, List.flatten_append]
  rw [← Store.view, htake, hdrop]
  rfl

/-- **Folding a foldable run** into a marker projects the history and touches no
cell of the caller. -/
theorem replaceRegion_spec (cfg : AutoCompactShaper) (hrefs : st.Has refs)
    (hvalid : ProtocolValid (st.view refs)) (hfold : Foldable (st.view refs) keep lo hi)
    (hk : k ≤ keep)
    (h : cfg.replaceRegion st refs (startOf 0 (groups (st.view refs)) lo)
      (startOf 0 (groups (st.view refs)) hi) summary = some (candidate, st')) :
    st.Extends st' ∧ st'.Has candidate ∧
      Projects Rejected k (st.view refs) (st'.view candidate) := by
  obtain ⟨rfl, rfl⟩ := replaceRegion_inv cfg h
  have hext := st.extends_alloc (markerObj (slice refs (startOf 0 (groups (st.view refs)) lo)
    (startOf 0 (groups (st.view refs)) hi)).length summary) (in_markerObj _ _ _ _)
  have hlt := st.alloc_lt (markerObj (slice refs (startOf 0 (groups (st.view refs)) lo)
    (startOf 0 (groups (st.view refs)) hi)).length summary) (in_markerObj _ _ _ _)
  have hmarker := st.read_alloc (markerObj (slice refs (startOf 0 (groups (st.view refs)) lo)
    (startOf 0 (groups (st.view refs)) hi)).length summary) (in_markerObj _ _ _ _)
  generalize st.alloc _ _ = fresh at hext hlt hmarker ⊢
  generalize slice refs _ _ = segment at hmarker
  refine ⟨hext, ?_, ?_⟩
  · intro r hr
    simp only [List.append_assoc, List.singleton_append, List.mem_append, List.mem_cons] at hr
    rcases hr with hr | rfl | hr
    · exact hrefs.mono hext r (List.mem_of_mem_take hr)
    · exact hlt
    · exact hrefs.mono hext r (List.mem_of_mem_drop hr)
  · rw [view_candidate hext hrefs, hmarker]
    obtain ⟨hlo, hlohi, hrecent, hfree⟩ := hfold
    have hcut : groups (st.view refs) = (groups (st.view refs)).take lo ++
        ((groups (st.view refs)).take hi).drop lo ++ (groups (st.view refs)).drop hi := by
      have htake : (groups (st.view refs)).take lo =
          ((groups (st.view refs)).take hi).take lo := by
        rw [List.take_take, Nat.min_eq_left (by omega)]
      rw [htake, List.take_append_drop, List.take_append_drop]
    refine projects_of_rewrite hvalid hcut ?_ ?_ ?_ ?_ ?_
    · simp; omega
    · simp; omega
    · intro g hg
      rw [List.mem_singleton.mp hg]
      exact groupValid_solo rfl rfl
    · have hnone : isExchange [st.deref (markerObj segment.length summary)] = false := rfl
      simp [hnone]
    · have hnone : pinnedSolos (((groups (st.view refs)).take hi).drop lo) = [] := by
        simp only [pinnedSolos, List.filter_eq_nil_iff, List.mem_flatten, List.mem_filter]
        rintro m ⟨g, ⟨hg, -⟩, hm⟩
        obtain ⟨i, hi', hget⟩ := List.mem_iff_getElem.mp hg
        simp only [List.length_drop, List.length_take] at hi'
        rw [List.getElem_drop, List.getElem_take] at hget
        have := hfree (lo + i) (by omega) (by omega) (by omega) m (hget ▸ hm)
        simp [this]
      rw [hnone]
      exact List.nil_sublist _

/-! ## the layer projects the history -/

/-- A boundary of the segment is a group boundary of the history. -/
theorem prefixLengths_boundary {ms : List Message} (cache : SummaryCache)
    (hms : ProtocolValid ms)
    (hfold : Foldable ms keep lo hi)
    (hlen : n ∈ prefixLengths cache (slice ms (startOf 0 (groups ms) lo)
      (startOf 0 (groups ms) hi))) :
    ∃ hi', lo < hi' ∧ hi' ≤ hi ∧ startOf 0 (groups ms) lo + n = startOf 0 (groups ms) hi' := by
  simp only [prefixLengths, List.mem_reverse, List.mem_filter] at hlen
  obtain ⟨span, hspan, rfl⟩ := List.mem_map.mp hlen.1
  rw [slice_groups ms (Nat.le_of_lt hfold.lo_lt)] at hspan
  have hmid : ∀ g ∈ ((groups ms).take hi).drop lo, GroupValid g := fun g hg =>
    hms g (List.mem_of_mem_take (List.mem_of_mem_drop hg))
  rw [groupSpans_eq, groups_flatten hmid] at hspan
  obtain ⟨i, hget⟩ := List.mem_iff_getElem?.mp hspan
  have hi' := (List.getElem?_eq_some_iff.mp hget).1
  rw [length_spansOf] at hi'
  rw [getElem?_spansOf 0 _ hi'] at hget
  cases hget
  simp only [List.length_drop, List.length_take] at hi'
  exact ⟨lo + (i + 1), by omega, by omega, startOf_add _ (by omega)⟩

/-- A cached view folds a shorter run at the same place. -/
theorem cachedPrefixFrom_spec (cfg : AutoCompactShaper) (cacheKey : List Message → String)
    (forcedIds : List Nat) {s s' : ShapingState} (hrefs : s.store.Has refs)
    (hvalid : ProtocolValid (s.store.view refs))
    (hfold : Foldable (s.store.view refs) keep lo hi) (hk : k ≤ keep) (lengths : List Nat)
    (hlengths : ∀ n ∈ lengths, ∃ hi', lo < hi' ∧ hi' ≤ hi ∧
      startOf 0 (groups (s.store.view refs)) lo + n = startOf 0 (groups (s.store.view refs)) hi')
    (h : cfg.cachedPrefixFrom cacheKey forcedIds refs
      (startOf 0 (groups (s.store.view refs)) lo) s lengths = some (out, s')) :
    ShapedView Rejected k s refs out s' := by
  induction lengths with
  | nil => simp [cachedPrefixFrom] at h
  | cons n rest ih =>
      simp only [cachedPrefixFrom] at h
      split at h
      · exact ih (fun m hm => hlengths m (List.mem_cons_of_mem n hm)) h
      · split at h
        · contradiction
        · next candidate store hreplace =>
            split at h
            · contradiction
            · cases h
              obtain ⟨hi', hlt, hle, hstop⟩ := hlengths n List.mem_cons_self
              rw [hstop] at hreplace
              obtain ⟨hext, hhas, hproj⟩ : _ ∧ _ ∧ Projects Rejected k _ _ :=
                replaceRegion_spec cfg hrefs hvalid (hfold.shrink hlt hle) hk hreplace
              exact ⟨hext, hhas, hproj⟩

@[simp] theorem store_askSummarizer (cfg : AutoCompactShaper) (s : ShapingState) :
    (cfg.askSummarizer s).2.store = s.store := by
  unfold askSummarizer
  split
  · rfl
  · next reply _ _ => cases reply.cacheNow <;> rfl

theorem store_cacheSummary (cfg : AutoCompactShaper) (key : Option String) (n : Nat)
    (reply : SummaryReply) (s : ShapingState) :
    (cfg.cacheSummary key n reply s).2.store = s.store := by
  unfold cacheSummary
  split
  · rfl
  · split
    · rfl
    · split <;> rfl

/-- Asking for a summary changes no message object. -/
theorem store_summarize (cfg : AutoCompactShaper) (cacheKey : List Message → String)
    (segment : List Message) (s : ShapingState) :
    (cfg.summarize cacheKey segment s).2.store = s.store := by
  simp only [summarize]
  split
  · rfl
  · rw [store_cacheSummary, store_askSummarizer]

theorem shape_spec (cfg : AutoCompactShaper) (cacheKey : List Message → String)
    (forcedIds : List Nat) {s : ShapingState} (hrefs : s.store.Has refs)
    (hvalid : ProtocolValid (s.store.view refs)) (hk : k ≤ cfg.keepRecentGroups) :
    ShapedView Rejected k s refs (cfg.shape cacheKey forcedIds refs s).1
      (cfg.shape cacheKey forcedIds refs s).2 := by
  unfold shape
  cases hregion : cfg.compactRegion forcedIds (s.store.view refs) with
  | none => exact ShapedView.refl hrefs hvalid rfl
  | some region =>
      obtain ⟨lo, hi, hfold, hstart, hstop⟩ := compactRegion_spec cfg forcedIds _ hregion
      dsimp only
      split
      · next view s' hcached =>
          simp only [cachedPrefixView] at hcached
          split at hcached
          · contradiction
          · rw [hstart] at hcached
            refine cachedPrefixFrom_spec cfg cacheKey forcedIds hrefs hvalid hfold hk _ ?_ hcached
            intro n hn
            refine prefixLengths_boundary (s.caches cfg.id) hvalid hfold ?_
            rwa [hstop, Store.view, slice, List.map_drop, List.map_take] at hn
      · have hstore := store_summarize cfg cacheKey
          (s.store.view (slice refs region.1 region.2)) s
        generalize cfg.summarize cacheKey (s.store.view (slice refs region.1 region.2)) s =
          answer at hstore ⊢
        obtain ⟨summary, s'⟩ := answer
        dsimp only at hstore ⊢
        split
        · exact ShapedView.refl hrefs hvalid hstore
        · next candidate store hreplace =>
            rw [hstore, hstart, hstop] at hreplace
            obtain ⟨hext, hhas, hproj⟩ : _ ∧ _ ∧ Projects Rejected k _ _ :=
              replaceRegion_spec cfg hrefs hvalid hfold hk hreplace
            exact ⟨hext, hhas, hproj⟩

end AutoCompactShaper

end OpenCollab
