import OpenCollab.Shaping.TokenEstimation

/-!
# OpenCollab.Shaping.SnipExact

Which exchanges `OldHistorySnipShaper` takes.  The loop walks group spans with a
running estimate and collects message indices; here the same walk is made over
the groups themselves.

* `snipRun` — the loop on groups; `emitValues_snipLoop` — the loop of the code,
  followed by its comprehension, is that one, for every message list;
* `snipFirst` — the first `k` exchanges that may go, snipped;
* `snipRun_shortest` — with an additive estimate the loop takes the shortest
  prefix of them that reaches the target;
* `snips_oldest` — the view of the layer.
-/

namespace OpenCollab

open Segments

/-- No group of a history is empty. -/
theorem ne_nil_of_mem_groupsFrom {cur : Group} {isOpen : Bool} {ms : List Message}
    (hcur : cur ≠ []) : ∀ g ∈ groupsFrom cur isOpen ms, g ≠ [] := by
  induction ms generalizing cur isOpen with
  | nil =>
      intro g hg
      rw [List.mem_singleton.mp hg]
      exact hcur
  | cons m ms ih =>
      intro g hg
      rw [groupsFrom] at hg
      split at hg
      · exact ih (by simp) g hg
      · obtain rfl | hg := List.mem_cons.mp hg
        · exact hcur
        · exact ih (by simp) g hg

theorem ne_nil_of_mem_groups {ms : List Message} : ∀ g ∈ groups ms, g ≠ [] := by
  cases ms with
  | nil => exact fun g hg => absurd hg List.not_mem_nil
  | cons m ms => exact ne_nil_of_mem_groupsFrom (by simp)

namespace OldHistorySnipShaper

variable {cfg : OldHistorySnipShaper} {g : Group} {gs mid tail : List Group} {s s' : SnipState}

/-! ## one group -/

/-- The group is an exchange that may go: it is complete and does not consist of
reasoning only. -/
def eligible : Group → Bool
  | [] => false
  | leader :: results => maySnip (leader :: results) (0, (leader :: results).length) leader

/-- What is left of an exchange that goes: what its leader said. -/
def snipGroup : Group → Group
  | [] => []
  | leader :: _ => if hasContent leader then [withoutCalls leader] else []

/-- The running estimate behind an exchange that went. -/
def snipRunning (cfg : OldHistorySnipShaper) (running : Int) (g : Group) : Int :=
  running - max 0 (cfg.estimate g -
    if hasContent (g.head?.getD default) then
      cfg.estimate [withoutCalls (g.head?.getD default)] else 0)

/-- The loop, on groups. -/
def snipRun (cfg : OldHistorySnipShaper) : Int → List Group → List Group
  | _, [] => []
  | running, g :: gs =>
      if !eligible g then g :: snipRun cfg running gs
      else snipGroup g ::
        if cfg.snipRunning running g ≤ cfg.targetTokens then gs
        else snipRun cfg (cfg.snipRunning running g) gs

/-! ## the comprehension reads memberships -/

/-- The comprehension depends on the indices of its messages only. -/
theorem emitValues_congr {index : Nat} {ms : List Message}
    (h : ∀ i, index ≤ i → i < index + ms.length →
      (i ∈ s'.drop ↔ i ∈ s.drop) ∧ (i ∈ s'.replaced ↔ i ∈ s.replaced)) :
    emitValues s' index ms = emitValues s index ms := by
  induction ms generalizing index with
  | nil => rfl
  | cons m ms ih =>
      obtain ⟨hdrop, hreplaced⟩ := h index (Nat.le_refl _) (by simp)
      have hrest : emitValues s' (index + 1) ms = emitValues s (index + 1) ms :=
        ih fun i hi hi' => h i (by omega) (by simp; omega)
      simp only [emitValues, List.contains_iff_mem, hdrop, hreplaced, hrest]

/-- The exchange that is snipped now, in the comprehension. -/
theorem emitValues_snipExchange {messages : List Message} {leader : Message}
    {results : List Message} {start : Nat}
    (hfresh : ∀ i, start ≤ i → i ∉ s.drop ∧ i ∉ s.replaced) :
    emitValues (cfg.snipExchange messages (start, start + (results.length + 1)) leader s) start
      (leader :: results) = snipGroup (leader :: results) := by
  have hstart := hfresh start (Nat.le_refl _)
  unfold snipExchange snipGroup
  dsimp only
  split
  · have hkept : ¬start ∈ s.drop ++
        List.range' (start + 1) (start + (results.length + 1) - (start + 1)) := by
      rw [List.mem_append, List.mem_range'_1, not_or]
      exact ⟨hstart.1, by omega⟩
    have hreplaced : start ∈ s.replaced ++ [start] :=
      List.mem_append_right _ List.mem_cons_self
    have hresults : emitValues
        { running := s.running - max 0 (cfg.estimate (slice messages start
            (start + (results.length + 1))) - cfg.estimate [withoutCalls leader])
          drop := s.drop ++
            List.range' (start + 1) (start + (results.length + 1) - (start + 1))
          replaced := s.replaced ++ [start] } (start + 1) results = [] := by
      refine emitValues_dropped _ _ _ fun i hi hi' => ?_
      exact List.mem_append_right _ (List.mem_range'_1.mpr (by omega))
    simp only [emitValues, List.contains_iff_mem, hkept, hreplaced, hresults, if_true, if_false]
  · refine emitValues_dropped _ _ _ fun i hi hi' => ?_
    rw [List.length_cons] at hi'
    exact List.mem_append_right _ (List.mem_range'_1.mpr (by omega))

/-! ## the loop -/

/-- The indices that were collected lie in front of `stop`. -/
def Behind (s : SnipState) (stop : Nat) : Prop :=
  ∀ i, stop ≤ i → i ∉ s.drop ∧ i ∉ s.replaced

theorem Behind.mono {stop stop' : Nat} (h : Behind s stop) (hle : stop ≤ stop') :
    Behind s stop' :=
  fun i hi => h i (Nat.le_trans hle hi)

/-- Snipping an exchange collects indices of its span. -/
theorem behind_snipExchange {messages : List Message} {leader : Message} {start stop : Nat}
    (h : Behind s start) (hspan : start < stop) :
    Behind (cfg.snipExchange messages (start, stop) leader s) stop := by
  intro i hi
  have hout := snipExchange_outside cfg messages (start, stop) leader s (.inr hi) hspan
  rw [hout.1, hout.2]
  exact h i (by omega)

/-- The group at a span decides as it stands in the history. -/
theorem maySnip_eq {pre : List Group} (hg : g ≠ []) :
    maySnip (pre ++ g :: gs).flatten
        (pre.flatten.length, pre.flatten.length + g.length)
        ((pre ++ g :: gs).flatten[pre.flatten.length]?.getD default) = eligible g := by
  obtain ⟨leader, results, rfl⟩ := List.exists_cons_of_ne_nil hg
  have hflat : (pre ++ (leader :: results) :: gs).flatten =
      pre.flatten ++ (leader :: (results ++ gs.flatten)) := by simp
  have hget : (pre.flatten ++ (leader :: (results ++ gs.flatten)))[pre.flatten.length]? =
      some leader := by simp
  have hslice : slice (pre.flatten ++ (leader :: (results ++ gs.flatten)))
      (pre.flatten.length + 1) (pre.flatten.length + (leader :: results).length) =
        slice (leader :: results) (0 + 1) (leader :: results).length := by
    rw [slice, slice, List.take_length_add_append, List.drop_length_add_append, ← List.cons_append,
      List.take_left, List.take_length]
  rw [hflat, hget]
  simp only [eligible, maySnip, isCompleteToolExchange, hget, hslice, Option.getD_some]
  simp

/-- The messages of a span are its group. -/
theorem slice_group {pre : List Group} :
    slice (pre ++ g :: gs).flatten pre.flatten.length (pre.flatten.length + g.length) = g := by
  have hflat : (pre ++ g :: gs).flatten = pre.flatten ++ (g ++ gs.flatten) := by simp
  rw [hflat, slice, List.take_length_add_append, List.take_left, List.drop_left]

/-- **The loop of the code is the loop on groups.** -/
theorem emitValues_snipLoop {ms : List Message} (pre : List Group)
    (hgroups : groups ms = pre ++ mid ++ tail) (hs : Behind s pre.flatten.length) :
    emitValues (cfg.snipLoop ms (groupSpans ms) pre.length mid.length s) 0 ms =
      emitValues s 0 pre.flatten ++ (snipRun cfg s.running mid).flatten ++ tail.flatten := by
  -- what lies behind the collected indices stays
  have hrest : ∀ (s : SnipState) (k : Nat) (gs : List Group), Behind s k →
      emitValues s k gs.flatten = gs.flatten := by
    intro s k gs hs
    exact emitValues_untouched s k _ fun i hi _ => hs i hi
  induction mid generalizing pre s with
  | nil =>
      have hms := flatten_groups ms
      rw [hgroups] at hms
      rw [List.length_nil, snipLoop, ← hms, List.append_nil, List.flatten_append, emitValues_append,
        Nat.zero_add, hrest s _ tail hs]
      simp [snipRun]
  | cons g mid ih =>
      have hne : g ≠ [] := ne_nil_of_mem_groups g (by rw [hgroups]; simp)
      have hlt : pre.length < (groups ms).length := by
        rw [hgroups]
        simp only [List.length_append, List.length_cons]
        omega
      have happend : pre ++ g :: mid ++ tail = pre ++ g :: (mid ++ tail) := by simp
      have hspan : spanAt (groupSpans ms) pre.length =
          (pre.flatten.length, pre.flatten.length + g.length) := by
        have hstart := startOf_append_right 0 pre (g :: (mid ++ tail)) 0
        have hstop := startOf_append_right 0 pre (g :: (mid ++ tail)) 1
        rw [Nat.add_zero] at hstart
        rw [spanAt_groupSpans ms hlt, hgroups, happend, hstart, hstop]
        simp [startOf]
      have hgroups' : groups ms = (pre ++ [g]) ++ mid ++ tail := by
        rw [hgroups]
        simp
      have hms' : ms = (pre ++ g :: (mid ++ tail)).flatten := by
        rw [← happend, ← hgroups, flatten_groups]
      have hmay : maySnip (pre ++ g :: (mid ++ tail)).flatten _ _ = eligible g := maySnip_eq hne
      rw [← hms'] at hmay
      have hslice : slice (pre ++ g :: (mid ++ tail)).flatten _ _ = g := slice_group
      rw [← hms'] at hslice
      have hlen : (pre ++ [g]).flatten.length = pre.flatten.length + g.length := by simp
      rw [List.length_cons, snipLoop, hspan]
      dsimp only
      rw [hmay, snipRun]
      cases helig : eligible g with
      | false =>
          have hkept : emitValues s 0 (pre ++ [g]).flatten = emitValues s 0 pre.flatten ++ g := by
            rw [List.flatten_append, emitValues_append, Nat.zero_add, hrest s _ [g] hs]
            simp
          have hs' : Behind s (pre ++ [g]).flatten.length := hs.mono (by omega)
          have hnext := ih (pre ++ [g]) hgroups' hs'
          rw [List.length_append, List.length_singleton, hkept] at hnext
          simp only [Bool.not_false, if_true]
          rw [hnext]
          simp
      | true =>
          obtain ⟨leader, results, rfl⟩ := List.exists_cons_of_ne_nil hne
          have hleader : ms[pre.flatten.length]?.getD default = leader := by
            rw [hms']
            simp
          simp only [Bool.not_true, Bool.false_eq_true, if_false, hleader]
          have hlt' : pre.flatten.length < pre.flatten.length + (leader :: results).length := by simp
          have hbehind : Behind (cfg.snipExchange ms (pre.flatten.length,
              pre.flatten.length + (leader :: results).length) leader s) _ :=
            behind_snipExchange hs hlt'
          have hlead : emitValues (cfg.snipExchange ms (pre.flatten.length,
              pre.flatten.length + (leader :: results).length) leader s) 0 pre.flatten =
                emitValues s 0 pre.flatten := by
            refine emitValues_congr fun i _ hi => ?_
            exact snipExchange_outside cfg ms (_, _) leader s (.inl (by omega)) hlt'
          have hgone : emitValues (cfg.snipExchange ms (pre.flatten.length,
              pre.flatten.length + (leader :: results).length) leader s) pre.flatten.length
                (leader :: results) = snipGroup (leader :: results) :=
            emitValues_snipExchange hs
          have hrunning : (cfg.snipExchange ms (pre.flatten.length,
              pre.flatten.length + (leader :: results).length) leader s).running =
                cfg.snipRunning s.running (leader :: results) := by
            unfold snipExchange snipRunning
            dsimp only
            rw [hslice, List.head?_cons, Option.getD_some]
            split
            · rfl
            · rw [Int.sub_zero]
          generalize cfg.snipExchange ms (pre.flatten.length,
            pre.flatten.length + (leader :: results).length) leader s = s1 at *
          have hfront : emitValues s1 0 (pre ++ [leader :: results]).flatten =
              emitValues s 0 pre.flatten ++ snipGroup (leader :: results) := by
            rw [List.flatten_append, emitValues_append, Nat.zero_add, hlead, List.flatten_singleton,
              hgone]
          rw [hrunning]
          split
          · have hcut : ms = (pre ++ [leader :: results]).flatten ++ (mid ++ tail).flatten := by
              rw [hms']
              simp
            conv_lhs => rw [hcut]
            rw [emitValues_append, Nat.zero_add, hlen, hrest s1 _ _ hbehind, hfront]
            simp
          · have hs1 : Behind s1 (pre ++ [leader :: results]).flatten.length := by
              rw [hlen]
              exact hbehind
            have hnext := ih (pre ++ [leader :: results]) hgroups' hs1
            rw [List.length_append, List.length_singleton, hfront, hrunning] at hnext
            rw [hnext]
            simp

/-! ## the shortest prefix -/

/-- The groups with the first `k` exchanges that may go snipped. -/
def snipFirst : Nat → List Group → List Group
  | _, [] => []
  | 0, g :: gs => g :: gs
  | k + 1, g :: gs =>
      if eligible g then snipGroup g :: snipFirst k gs else g :: snipFirst (k + 1) gs

@[simp] theorem snipFirst_zero (gs : List Group) : snipFirst 0 gs = gs := by
  cases gs <;> rfl

theorem snipFirst_of_not_eligible (k : Nat) (h : eligible g = false) :
    snipFirst k (g :: gs) = g :: snipFirst k gs := by
  cases k with
  | zero => rw [snipFirst_zero, snipFirst_zero]
  | succ k => rw [snipFirst, h, if_neg Bool.false_ne_true]

/-- **What is asked of an estimate**: it is additive, no message counts less than
nothing, and an assistant turn without its calls no more than with them. -/
structure Fair (estimate : List Message → Int) : Prop where
  append : ∀ a b, estimate (a ++ b) = estimate a + estimate b
  nonneg : ∀ m, 0 ≤ estimate [m]
  withoutCalls : ∀ m, m.opensExchange = true → estimate [withoutCalls m] ≤ estimate [m]

theorem Fair.nil {estimate : List Message → Int} (h : Fair estimate) : estimate [] = 0 := by
  have := h.append [] []
  rw [List.append_nil] at this
  omega

theorem Fair.nonneg_all {estimate : List Message → Int} (h : Fair estimate) (ms : List Message) :
    0 ≤ estimate ms := by
  induction ms with
  | nil => exact Int.le_of_eq h.nil.symm
  | cons m ms ih =>
      have hm := h.nonneg m
      have hcons := h.append [m] ms
      rw [List.singleton_append] at hcons
      omega

theorem opensExchange_of_eligible {leader : Message} {results : List Message}
    (h : eligible (leader :: results) = true) : leader.opensExchange = true := by
  rw [eligible, maySnip, Bool.and_eq_true, Bool.and_eq_true] at h
  exact h.1.1

/-- The running estimate is the estimate. -/
theorem snipRunning_eq (h : Fair cfg.estimate) (hg : eligible g = true) (running : Int) :
    cfg.snipRunning running g = running - (cfg.estimate g - cfg.estimate (snipGroup g)) := by
  cases g with
  | nil => contradiction
  | cons leader results =>
      have hcons := h.append [leader] results
      have hleader := h.withoutCalls leader (opensExchange_of_eligible hg)
      have hresults := h.nonneg_all results
      have hall := h.nonneg_all (leader :: results)
      rw [List.singleton_append] at hcons
      have hleft : snipGroup (leader :: results) =
          if hasContent leader then [withoutCalls leader] else [] := rfl
      rw [snipRunning, hleft, List.head?_cons, Option.getD_some]
      split
      · omega
      · rw [h.nil]
        omega

/-- **The loop takes the shortest prefix** of the exchanges that may go: enough
of them to reach the target, or all; no smaller number is enough, and one goes in
any case. -/
theorem snipRun_shortest (h : Fair cfg.estimate) (gs : List Group) (running : Int) :
    ∃ k ≤ (gs.filter eligible).length, snipRun cfg running gs = snipFirst k gs ∧
      (running - cfg.estimate gs.flatten + cfg.estimate (snipFirst k gs).flatten ≤
          cfg.targetTokens ∨ k = (gs.filter eligible).length) ∧
      (∀ j, 0 < j → j < k → (cfg.targetTokens : Int) <
          running - cfg.estimate gs.flatten + cfg.estimate (snipFirst j gs).flatten) ∧
      (0 < (gs.filter eligible).length → 0 < k) := by
  induction gs generalizing running with
  | nil => exact ⟨0, Nat.zero_le _, rfl, .inr rfl, fun j _ hj => by omega, fun h => by simp at h⟩
  | cons g gs ih =>
      have hflat : cfg.estimate (g :: gs).flatten =
          cfg.estimate g + cfg.estimate gs.flatten := by
        rw [List.flatten_cons, h.append]
      cases hg : eligible g with
      | false =>
          obtain ⟨k, hk, hrun, hreach, hshort, hpos⟩ := ih running
          have hshift : ∀ j, running - cfg.estimate (g :: gs).flatten +
              cfg.estimate (snipFirst j (g :: gs)).flatten =
                running - cfg.estimate gs.flatten + cfg.estimate (snipFirst j gs).flatten := by
            intro j
            rw [snipFirst_of_not_eligible j hg, hflat, List.flatten_cons, h.append]
            omega
          rw [List.filter_cons_of_neg (by simp [hg])]
          refine ⟨k, hk, ?_, ?_, fun j hj hjk => ?_, hpos⟩
          · simp only [snipRun, hg, Bool.not_false, if_true]
            rw [hrun, snipFirst_of_not_eligible k hg]
          · rw [hshift]
            exact hreach
          · rw [hshift]
            exact hshort j hj hjk
      | true =>
          have hrunning := snipRunning_eq h hg running
          have hshift : ∀ j, running - cfg.estimate (g :: gs).flatten +
              cfg.estimate (snipFirst (j + 1) (g :: gs)).flatten =
                cfg.snipRunning running g - cfg.estimate gs.flatten +
                  cfg.estimate (snipFirst j gs).flatten := by
            intro j
            rw [snipFirst, hg, if_pos rfl, hflat, List.flatten_cons, h.append, hrunning]
            omega
          rw [List.filter_cons_of_pos hg, List.length_cons]
          simp only [snipRun, hg, Bool.not_true, Bool.false_eq_true, if_false]
          by_cases hreached : cfg.snipRunning running g ≤ cfg.targetTokens
          · refine ⟨1, by omega, ?_, .inl ?_, fun j hj hjk => by omega, fun _ => Nat.one_pos⟩
            · rw [if_pos hreached, snipFirst, hg, if_pos rfl, snipFirst_zero]
            · rw [hshift 0, snipFirst_zero]
              omega
          · obtain ⟨k, hk, hrun, hreach, hshort, -⟩ := ih (cfg.snipRunning running g)
            refine ⟨k + 1, by omega, ?_, ?_, fun j hj hjk => ?_, fun _ => Nat.succ_pos k⟩
            · rw [if_neg hreached, hrun, snipFirst, hg, if_pos rfl]
            · rw [hshift]
              exact hreach.imp_right fun hall => by omega
            · obtain ⟨j, rfl⟩ := Nat.exists_eq_succ_of_ne_zero (Nat.pos_iff_ne_zero.mp hj)
              rw [Nat.succ_eq_add_one, hshift]
              cases j with
              | zero =>
                  rw [snipFirst_zero]
                  omega
              | succ j => exact hshort (j + 1) (Nat.succ_pos j) (by omega)

/-! ## the layer -/

variable {st : Store} {refs : List Ref}

/-- The open middle of a history, what leads it and what is recent. -/
def region (cfg : OldHistorySnipShaper) (ms : List Message) :
    List Group × List Group × List Group :=
  ((groups ms).take 1, ((groups ms).take ((groups ms).length - cfg.keepRecentGroups)).drop 1,
    (groups ms).drop (max 1 ((groups ms).length - cfg.keepRecentGroups)))

/-- The history with the first `k` exchanges of the open middle snipped. -/
def snipped (cfg : OldHistorySnipShaper) (ms : List Message) (k : Nat) : List Message :=
  ((cfg.region ms).1 ++ snipFirst k (cfg.region ms).2.1 ++ (cfg.region ms).2.2).flatten

/-- The three parts are the history. -/
theorem groups_region (cfg : OldHistorySnipShaper) (ms : List Message) :
    groups ms = (cfg.region ms).1 ++ (cfg.region ms).2.1 ++ (cfg.region ms).2.2 := by
  unfold region
  dsimp only
  cases hn : (groups ms).length - cfg.keepRecentGroups with
  | zero =>
      rw [List.take_zero, List.drop_nil, List.append_nil]
      exact (List.take_append_drop 1 _).symm
  | succ n =>
      have hlead : (groups ms).take 1 = ((groups ms).take (n + 1)).take 1 := by
        rw [List.take_take, Nat.min_eq_left (by omega)]
      have hmax : max 1 (n + 1) = n + 1 := by omega
      rw [hmax, hlead, List.take_append_drop, List.take_append_drop]

/-- **Over its trigger the layer is the loop on the groups** of the open middle. -/
theorem view_shape {forcedIds : List Nat} (hrefs : st.Has refs)
    (hover : cfg.overTrigger forcedIds (st.view refs) = true) :
    (cfg.shape forcedIds refs st).2.view (cfg.shape forcedIds refs st).1 =
      ((cfg.region (st.view refs)).1 ++
        snipRun cfg (cfg.estimate (st.view refs)) (cfg.region (st.view refs)).2.1 ++
        (cfg.region (st.view refs)).2.2).flatten := by
  have hgroups := groups_region cfg (st.view refs)
  have hmid : (cfg.region (st.view refs)).2.1.length =
      max 1 ((groups (st.view refs)).length - cfg.keepRecentGroups) - 1 := by
    unfold region
    rw [List.length_drop, List.length_take]
    omega
  unfold shape
  simp only [hover, Bool.not_true, Bool.false_eq_true, if_false, droppableRegion,
    length_groupSpans]
  split
  · rename_i hhi
    have hnil : (cfg.region (st.view refs)).2.1 = [] :=
      List.length_eq_zero_iff.mp (by omega)
    have hflat := flatten_groups (st.view refs)
    rw [hgroups, hnil] at hflat
    rw [hnil, snipRun]
    exact hflat.symm
  · rename_i hhi
    have hlead : (cfg.region (st.view refs)).1.length = 1 := by
      unfold region
      rw [List.length_take]
      omega
    have hbehind : Behind { running := cfg.estimate (st.view refs) }
        (cfg.region (st.view refs)).1.flatten.length :=
      fun _ _ => ⟨List.not_mem_nil, List.not_mem_nil⟩
    have hloop := cfg.emitValues_snipLoop _ hgroups hbehind
    rw [hlead, hmid] at hloop
    obtain ⟨-, -, hview⟩ := emit_spec (cfg.snipLoop (st.view refs) (groupSpans (st.view refs)) 1
      (max 1 ((groups (st.view refs)).length - cfg.keepRecentGroups) - 1)
      { running := cfg.estimate (st.view refs) }) 0 hrefs
    rw [hview, hloop, List.flatten_append, List.flatten_append]
    rw [emitValues_untouched _ _ _ fun _ _ _ => ⟨List.not_mem_nil, List.not_mem_nil⟩]

/-- The default estimate is a fair one. -/
theorem fair_estimateRequestMessageTokens (q : Quoted) : Fair (estimateRequestMessageTokens q) :=
  ⟨estimateRequestMessageTokens_append q, fun _ => Int.natCast_nonneg _,
    fun m _ => estimate_withoutCalls_le q m⟩

/-- **The oldest exchanges go, and no more than it takes.**  Whenever the layer
fires, its view is the history with the first `k` exchanges of the open middle that
may go snipped, all else in place: they bring the estimate to the target or are all
there are, and no smaller number of them would have done; only when it is forced
on a history that is no larger than the target does one go for nothing. -/
theorem snips_oldest :
    (∀ q, Fair (estimateRequestMessageTokens q)) ∧
    ∀ cfg : OldHistorySnipShaper, Fair cfg.estimate →
      ∀ (forcedIds : List Nat) (refs : List Ref) (st : Store), st.Has refs →
      cfg.overTrigger forcedIds (st.view refs) = true →
      cfg.snipped (st.view refs) 0 = st.view refs ∧
      ∃ k ≤ ((cfg.region (st.view refs)).2.1.filter eligible).length,
        (cfg.shape forcedIds refs st).2.view (cfg.shape forcedIds refs st).1 =
          cfg.snipped (st.view refs) k ∧
        (cfg.estimate (cfg.snipped (st.view refs) k) ≤ cfg.targetTokens ∨
          k = ((cfg.region (st.view refs)).2.1.filter eligible).length) ∧
        (∀ j < k, 0 < j ∨ (cfg.forced || forcedIds.contains cfg.id) = false →
          (cfg.targetTokens : Int) < cfg.estimate (cfg.snipped (st.view refs) j)) ∧
        (0 < ((cfg.region (st.view refs)).2.1.filter eligible).length → 0 < k) := by
  refine ⟨fair_estimateRequestMessageTokens, ?_⟩
  intro cfg h forcedIds refs st hrefs hover
  have hgroups := groups_region cfg (st.view refs)
  have hzero : cfg.snipped (st.view refs) 0 = st.view refs := by
    rw [snipped, snipFirst_zero, ← hgroups, flatten_groups]
  obtain ⟨k, hk, hrun, hreach, hshort, hpos⟩ := snipRun_shortest h
    (cfg.region (st.view refs)).2.1 (cfg.estimate (st.view refs))
  have hestimate : ∀ j, cfg.estimate (st.view refs) -
      cfg.estimate (cfg.region (st.view refs)).2.1.flatten +
        cfg.estimate (snipFirst j (cfg.region (st.view refs)).2.1).flatten =
      cfg.estimate (cfg.snipped (st.view refs) j) := by
    intro j
    have hall := congrArg cfg.estimate hzero
    rw [snipped, snipFirst_zero] at hall
    rw [snipped, ← hall]
    simp only [List.flatten_append, h.append]
    omega
  refine ⟨hzero, k, hk, ?_, ?_, fun j hjk hj => ?_, hpos⟩
  · rw [view_shape hrefs hover, hrun, snipped]
  · rw [← hestimate]
    exact hreach
  · cases Nat.eq_zero_or_pos j with
    | inr hpos =>
        rw [← hestimate]
        exact hshort j hpos hjk
    | inl hj0 =>
        -- it fired by its trigger, and that lies above the target
        have hforced := hj.resolve_left (by omega)
        unfold ReactiveHistoryShaper.overTrigger at hover
        rw [hforced, if_neg Bool.false_ne_true, Bool.and_eq_true, decide_eq_true_iff] at hover
        have := cfg.target_lt_trigger
        rw [hj0, hzero]
        omega

/-! ## the estimates that are asked for -/

/-- A copy of a message dict with keys removed. -/
structure DropsKeys (m m' : Message) : Prop where
  role : m'.role = m.role
  content : m'.content = m.content ∨ m'.content = none
  toolCalls : m'.toolCalls = m.toolCalls ∨ m'.toolCalls = []
  toolCallId : m'.toolCallId = m.toolCallId ∨ m'.toolCallId = none
  reasoningContent : m'.reasoningContent = m.reasoningContent ∨ m'.reasoningContent = none
  responseItems : m'.responseItems = m.responseItems ∨ m'.responseItems = none
  providerState : m'.providerState = m.providerState ∨ m'.providerState = .null

/-- An estimate that charges for a list of items that is empty. -/
def emptyItems (ms : List Message) : Int :=
  (ms.map fun m => if m.responseItems = some [] then (50 : Int) else 10).sum

/-- Three exchanges; the first one's leader also speaks and carries a replay item. -/
def threeExchanges : Store where
  messages :=
    [{ role := .system, content := some (.str "prompt") },
     { role := .assistant, content := some (.str "look"), toolCalls := [0],
       responseItems := some [0] },
     { role := .tool, content := some (.str "a"), toolCallId := some "call_1" },
     { role := .assistant, toolCalls := [0] },
     { role := .tool, content := some (.str "b"), toolCallId := some "call_1" },
     { role := .assistant, toolCalls := [0] },
     { role := .tool, content := some (.str "c"), toolCallId := some "call_1" },
     { role := .user, content := some (.str "task") }]
  calls := [{ id := "call_1", name := "grep", arguments := "" }]
  items := [.obj [("type", .str "function_call")]]
  closed := by decide

/-- The layer with the estimate above. -/
def drifting : OldHistorySnipShaper where
  id := 1
  estimate := emptyItems
  triggerTokens := 70
  targetTokens := 60
  keepRecentGroups := 1

/-- The layer with an estimate of one for each message. -/
def counting : OldHistorySnipShaper where
  id := 1
  estimate := (·.length)
  triggerTokens := 70
  targetTokens := 60
  keepRecentGroups := 1

/-- An additive estimate that no removed key increases is not enough: the loop stops
above the target with an exchange left.  And a layer that is forced takes an
exchange below the target. -/
theorem snip_drifts :
    ((∀ a b, emptyItems (a ++ b) = emptyItems a + emptyItems b) ∧
      (∀ m m', DropsKeys m m' → emptyItems [m'] ≤ emptyItems [m]) ∧
      drifting.overTrigger [] (threeExchanges.view [0, 1, 2, 3, 4, 5, 6, 7]) = true ∧
      ((drifting.region (threeExchanges.view [0, 1, 2, 3, 4, 5, 6, 7])).2.1.filter
        eligible).length = 3 ∧
      (drifting.shape [] [0, 1, 2, 3, 4, 5, 6, 7] threeExchanges).1 = [0, 8, 5, 6, 7] ∧
      60 < emptyItems ((drifting.shape [] [0, 1, 2, 3, 4, 5, 6, 7] threeExchanges).2.view
        [0, 8, 5, 6, 7])) ∧
    counting.estimate (threeExchanges.view [0, 1, 2, 3, 4, 5, 6, 7]) ≤ counting.targetTokens ∧
      (counting.shape [1] [0, 1, 2, 3, 4, 5, 6, 7] threeExchanges).1 = [0, 8, 3, 4, 5, 6, 7] := by
  refine ⟨⟨fun a b => ?_, fun m m' h => ?_, by decide, by decide, by decide, by decide⟩,
    by decide, by decide⟩
  · unfold emptyItems
    rw [List.map_append, List.sum_append]
  · unfold emptyItems
    simp only [List.map_cons, List.map_nil, List.sum_cons, List.sum_nil]
    obtain hsame | hnone := h.responseItems
    · exact Int.le_of_eq (by rw [hsame])
    · rw [hnone, if_neg (by decide)]
      split <;> omega

theorem snips_oldest_sample :
    counting.snipped (threeExchanges.view [0, 1, 2, 3, 4, 5, 6, 7]) 0 =
        threeExchanges.view [0, 1, 2, 3, 4, 5, 6, 7] ∧
      ∃ k ≤ 3, (counting.shape [1] [0, 1, 2, 3, 4, 5, 6, 7] threeExchanges).2.view
          [0, 8, 3, 4, 5, 6, 7] =
        counting.snipped (threeExchanges.view [0, 1, 2, 3, 4, 5, 6, 7]) k := by
  have hfair : Fair counting.estimate :=
    ⟨fun a b => congrArg Int.ofNat List.length_append, fun _ => Int.one_nonneg,
      fun _ _ => Int.le_refl _⟩
  obtain ⟨hzero, k, hk, hview, -⟩ := snips_oldest.2 counting hfair [1] [0, 1, 2, 3, 4, 5, 6, 7]
    threeExchanges (by decide) (by decide)
  exact ⟨hzero, k, hk, hview⟩

end OldHistorySnipShaper

end OpenCollab
