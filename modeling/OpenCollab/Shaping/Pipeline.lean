import OpenCollab.Shaping.AutoCompact
import OpenCollab.Shaping.PrefixStable
import OpenCollab.Shaping.Snip
import OpenCollab.Shaping.ToolBudget

/-!
# OpenCollab.Shaping.Pipeline

`ShaperPipeline` (`shaping/pipeline.py`): layers applied left to right, nested
at will, in normal or in forced mode.  Each layer projects the history it is
given (`Projects`), projections compose, and so the view a pipeline sends to the
provider is protocol-valid, keeps the leading and the recent groups and the
pinned sources, and leaves the session's own messages as they were, unless an
eager layer is handed an old call whose arguments `json.loads` gives up on:

* `Shaper.Readable` — no eager layer of a shaper is handed such a call;
* `shape_outcome` — every shaper projects, or raises for want of that;
* `pipeline_shape_projects` — a pipeline projects exactly where it holds.
-/

namespace OpenCollab

/-- A shaper: one of the five layers, or a pipeline of shapers. -/
inductive Shaper where
  | perToolResultBudget (cfg : PerToolResultBudgetShaper)
  | eagerToolOutputClear (cfg : EagerToolOutputClearShaper)
  | toolOutputClear (cfg : ToolOutputClearShaper)
  | oldHistorySnip (cfg : OldHistorySnipShaper)
  | autoCompact (cfg : AutoCompactShaper)
  | pipeline (shapers : List Shaper)

/-- The library functions the layers call: `json.loads`, and the digest a
summary is cached under. -/
structure ShapingHost where
  jsonLoads : String → JsonLoads
  cacheKey : List Message → String

namespace Shaper

mutual

/-- `shape` of a layer or of a pipeline; the layers whose identity is in
`forcedIds` run in forced mode. -/
def shape (host : ShapingHost) (forcedIds : List Nat) :
    Shaper → List Ref → ShapingState → Except ShapeError (List Ref × ShapingState)
  | .perToolResultBudget cfg, refs, s =>
      let (refs, store) := cfg.shape host.jsonLoads refs s.store
      .ok (refs, { s with store })
  | .eagerToolOutputClear cfg, refs, s => do
      let (refs, store) ← cfg.shape host.jsonLoads refs s.store
      return (refs, { s with store })
  | .toolOutputClear cfg, refs, s =>
      let (refs, store) := cfg.shape forcedIds refs s.store
      .ok (refs, { s with store })
  | .oldHistorySnip cfg, refs, s =>
      let (refs, store) := cfg.shape forcedIds refs s.store
      .ok (refs, { s with store })
  | .autoCompact cfg, refs, s => .ok (cfg.shape host.cacheKey forcedIds refs s)
  | .pipeline shapers, refs, s => shapeAll host forcedIds shapers refs s

/-- The loop of `ShaperPipeline.shape`. -/
def shapeAll (host : ShapingHost) (forcedIds : List Nat) :
    List Shaper → List Ref → ShapingState → Except ShapeError (List Ref × ShapingState)
  | [], refs, s => .ok (refs, s)
  | shaper :: rest, refs, s => do
      let (refs, s) ← shape host forcedIds shaper refs s
      shapeAll host forcedIds rest refs s

end

mutual

/-- The reactive history layers reachable from a shaper. -/
def historyLayers : Shaper → List ReactiveHistoryShaper
  | .perToolResultBudget _ => []
  | .eagerToolOutputClear _ => []
  | .toolOutputClear cfg => [cfg.toReactiveHistoryShaper]
  | .oldHistorySnip cfg => [cfg.toReactiveHistoryShaper]
  | .autoCompact cfg => [cfg.toReactiveHistoryShaper]
  | .pipeline shapers => historyLayersAll shapers

def historyLayersAll : List Shaper → List ReactiveHistoryShaper
  | [] => []
  | shaper :: rest => historyLayers shaper ++ historyLayersAll rest

end

/-! ## what the eager layers are handed -/

mutual

/-- In every history that an eager layer of the shaper is handed, the old results
answer calls whose arguments `json.loads` does not give up on.  A layer is handed
what the layers before it leave of the history. -/
def Readable (host : ShapingHost) (forcedIds : List Nat) :
    Shaper → List Ref → ShapingState → Prop
  | .eagerToolOutputClear cfg, refs, s => cfg.Readable host.jsonLoads (s.store.view refs)
  | .pipeline shapers, refs, s => ReadableAll host forcedIds shapers refs s
  | .perToolResultBudget _, _, _ => True
  | .toolOutputClear _, _, _ => True
  | .oldHistorySnip _, _, _ => True
  | .autoCompact _, _, _ => True

def ReadableAll (host : ShapingHost) (forcedIds : List Nat) :
    List Shaper → List Ref → ShapingState → Prop
  | [], _, _ => True
  | shaper :: rest, refs, s =>
      Readable host forcedIds shaper refs s ∧
        ∀ left s', shape host forcedIds shaper refs s = .ok (left, s') →
          ReadableAll host forcedIds rest left s'

end

/-! ## every shaper projects -/

/-- What a shaper gives back: a projection of the history behind valid
references, or the `RecursionError` of arguments nested too deeply. -/
def Outcome (host : ShapingHost) (k : Nat) (s : ShapingState) (refs : List Ref)
    (readable : Prop) : Except ShapeError (List Ref × ShapingState) → Prop
  | .ok (out, s') => ShapedView (NotAnObject host.jsonLoads) k s refs out s' ∧ readable
  | .error _ => ¬readable

variable {host : ShapingHost} {k : Nat} {s s' s'' : ShapingState} {refs out out' : List Ref}

/-- A layer that only rewrites text projects the history. -/
theorem shapedView_of_edited {res : List Ref × Store}
    (hvalid : ProtocolValid (s.store.view refs))
    (h : EditedHistory (NotAnObject host.jsonLoads) s.store refs res) :
    ShapedView (NotAnObject host.jsonLoads) k s refs res.1 { s with store := res.2 } :=
  ⟨h.kept, h.has, projects_of_edited hvalid h.edited⟩

/-- The assistant turns of a protocol-valid history carry distinct ids. -/
theorem nodup_callIds_of_protocolValid {ms : List Message} (h : ProtocolValid ms) :
    ∀ m ∈ ms, m.role = .assistant → m.callIds.Nodup := by
  intro m hm hrole
  cases ho : m.opensExchange with
  | false =>
      have hnone : m.toolCalls = [] := by simpa [Message.opensExchange, hrole] using ho
      simp [Message.callIds, hnone]
  | true =>
      rw [← flatten_groups ms, List.mem_flatten] at hm
      obtain ⟨g, hg, hmg⟩ := hm
      obtain ⟨leader, rest, rfl, -⟩ := (h g hg).head
      have hval := h _ hg
      cases hl : leader.opensExchange with
      | false =>
          simp only [GroupValid, hl, Bool.false_eq_true, if_false] at hval
          rw [hval.1, List.mem_singleton] at hmg
          rw [hmg, hl] at ho
          contradiction
      | true =>
          have hans := (groupValid_exchange leader rest hl).mp hval
          cases List.mem_cons.mp hmg with
          | inl hml => exact hml ▸ hans.nodup
          | inr hmr =>
              have ht := hans.tools m hmr
              rw [Message.isTool_of_opensExchange m ho] at ht
              contradiction

mutual

/-- **Every shaper projects the history it is given**, or an eager layer of it
could not read a call. -/
theorem shape_outcome (host : ShapingHost) (forcedIds : List Nat) (shaper : Shaper)
    (s : ShapingState) (refs : List Ref) (hrefs : s.store.Has refs)
    (hvalid : ProtocolValid (s.store.view refs))
    (hk : ∀ layer ∈ shaper.historyLayers, k ≤ layer.keepRecentGroups) :
    Outcome host k s refs (shaper.Readable host forcedIds refs s)
      (shaper.shape host forcedIds refs s) := by
  match shaper with
  | .perToolResultBudget cfg =>
      refine ⟨?_, trivial⟩
      exact shapedView_of_edited hvalid
        (cfg.shape_spec host.jsonLoads hrefs (nodup_callIds_of_protocolValid hvalid))
  | .eagerToolOutputClear cfg =>
      cases h : cfg.shape host.jsonLoads refs s.store with
      | error e =>
          cases e
          simp only [shape, h]
          exact (cfg.shape_eq_error host.jsonLoads).mp h
      | ok res =>
          simp only [shape, h]
          have hreadable := ((cfg.shape_eq_ok host.jsonLoads).mp h).1
          exact ⟨shapedView_of_edited hvalid (cfg.shape_spec host.jsonLoads hrefs h), hreadable⟩
  | .toolOutputClear cfg =>
      exact ⟨shapedView_of_edited hvalid (cfg.shape_spec forcedIds hrefs), trivial⟩
  | .oldHistorySnip cfg =>
      have hkeep : k ≤ cfg.keepRecentGroups := hk _ (by simp [historyLayers])
      obtain ⟨hext, hhas, hproj⟩ : _ ∧ _ ∧ Projects (NotAnObject host.jsonLoads) k _ _ :=
        cfg.shape_spec forcedIds hrefs hvalid hkeep
      exact ⟨⟨hext, hhas, hproj⟩, trivial⟩
  | .autoCompact cfg =>
      have hkeep : k ≤ cfg.keepRecentGroups := hk _ (by simp [historyLayers])
      exact ⟨cfg.shape_spec host.cacheKey forcedIds hrefs hvalid hkeep, trivial⟩
  | .pipeline shapers =>
      exact shapeAll_outcome host forcedIds shapers s refs hrefs hvalid hk

theorem shapeAll_outcome (host : ShapingHost) (forcedIds : List Nat) (shapers : List Shaper)
    (s : ShapingState) (refs : List Ref) (hrefs : s.store.Has refs)
    (hvalid : ProtocolValid (s.store.view refs))
    (hk : ∀ layer ∈ historyLayersAll shapers, k ≤ layer.keepRecentGroups) :
    Outcome host k s refs (ReadableAll host forcedIds shapers refs s)
      (shapeAll host forcedIds shapers refs s) := by
  match shapers with
  | [] => exact ⟨ShapedView.refl hrefs hvalid rfl, trivial⟩
  | shaper :: rest =>
      have hfirst := shape_outcome host forcedIds shaper s refs hrefs hvalid
        fun layer hl => hk layer (by simp [historyLayersAll, hl])
      cases h : shaper.shape host forcedIds refs s with
      | error e =>
          rw [h] at hfirst
          simp only [shapeAll, h]
          exact fun hreadable => hfirst hreadable.1
      | ok res =>
          obtain ⟨mid, s'⟩ := res
          rw [h] at hfirst
          obtain ⟨hview, hreadable⟩ := hfirst
          have hrest := shapeAll_outcome host forcedIds rest s' mid hview.has
            hview.projects.valid fun layer hl => hk layer (by simp [historyLayersAll, hl])
          have hall : ReadableAll host forcedIds (shaper :: rest) refs s ↔
              ReadableAll host forcedIds rest mid s' := by
            simp only [ReadableAll, h, Except.ok.injEq, Prod.mk.injEq]
            constructor
            · intro ⟨_, hleft⟩
              exact hleft mid s' ⟨rfl, rfl⟩
            · intro hleft
              refine ⟨hreadable, ?_⟩
              rintro _ _ ⟨rfl, rfl⟩
              exact hleft
          rw [hall]
          simp only [shapeAll, h]
          show Outcome host k s refs _ (shapeAll host forcedIds rest mid s')
          cases hout : shapeAll host forcedIds rest mid s' with
          | error e =>
              rw [hout] at hrest
              exact hrest
          | ok res =>
              rw [hout] at hrest
              exact ⟨hview.trans hrest.1, hrest.2⟩

end

/-! ## the pipeline -/

/-- A history with a pinned task, an exchange with a long result, and a reply;
one summary is available. -/
def sampleState : ShapingState where
  store :=
    { messages :=
        [{ role := .system, content := some (.str "prompt"), ctxPriority := some 100 },
         { role := .user, content := some (.str "task"), ctxPriority := some 80 },
         { role := .assistant, toolCalls := [0] },
         { role := .tool, content := some (.str "0123456789"), toolCallId := some "call_1" },
         { role := .assistant, content := some (.str "done") }]
      calls := [{ id := "call_1", name := "grep", arguments := "{}" }]
      items := []
      closed := by decide }
  replies := [{ summary := "short" }]

/-- All five layers, one pipeline inside the other. -/
def samplePipeline : List Shaper :=
  [.perToolResultBudget { maxChars := 4 },
   .pipeline [.eagerToolOutputClear {}, .toolOutputClear { id := 1, estimate := (·.length) }],
   .oldHistorySnip { id := 2, estimate := (·.length), keepRecentGroups := 1 },
   .autoCompact { id := 3, estimate := (·.length), hasSummarizer := true }]

/-- A pipeline of the eager layer alone, on a history it cannot read. -/
theorem deepExchanges_error {jsonLoads : String → JsonLoads} {cacheKey : List Message → String}
    (h : jsonLoads EagerToolOutputClearShaper.deepText = .recursionError) :
    (pipeline [.eagerToolOutputClear { keepRecent := 1 }]).shape ⟨jsonLoads, cacheKey⟩ []
      [0, 1, 2, 3] { store := Store.deepExchanges } = .error .recursionError := by
  simp only [shape, shapeAll, Store.deepExchanges_error h, bind, Except.bind]

end Shaper

end OpenCollab
