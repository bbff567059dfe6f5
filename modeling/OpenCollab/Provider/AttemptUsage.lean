import OpenCollab.Lib.Tally
import OpenCollab.Provider.ResponsesReceived
import OpenCollab.Provider.StreamAssembly

/-!
# OpenCollab.Provider.AttemptUsage

The usage of one model call (`_attempt_usage.py`, and the accounting of
`complete_openai`, `complete_responses` and `LLMClient.complete`).

The counters of a failed attempt travel on the exception: the consumer of a stream
attaches them (`consumeChatStream`, `consumeStream`), the attempt adds them to
`failed_usages` (`requestOnce`), the retry loop goes on or raises (`withRetry`), the
completion attaches the combination of all entries (`settle`), and the client hands it
on past a recording that may be cancelled (`complete`).

* `complete_usage` — what arrives is the combination of one entry for each attempt that
  was started, in their order;
* `combineAttemptUsage_complete` — a combination says of its entries all that it should
  (`Complete`);
* `brokenReport_fromEvents` — what a broken attempt reported is read off its events;
* `kept_eq_reported` — an entry holds what its attempt reported, unless the attempt
  ended at a `response.incomplete` event whose object has another status: that event is
  refused before its object is looked at.
-/

namespace OpenCollab.AttemptUsage

open Chat (Chunk ChatStreamState absorbChunk absorbHeader optionalUsageInt
  streamStateToResponse usageToDict)
open Responses (Codec Event Response StreamState handleEvent parseResponsesResponse parseStream
  settleFragments)

/-! ## usage -/

/-- `Usage`: the token accounting of one completion. -/
structure Usage where
  inputTokens : Int := 0
  outputTokens : Int := 0
  cacheReadTokens : Option Int := some 0
  cacheCreationTokens : Option Int := some 0
  reasoningTokens : Option Int := none
  estimated : Bool := false
  rawUsage : Json := .obj []
  markupRecovered : Nat := 0
  contextTokens : Option Int := none
  contextOutputTokens : Option Int := none
  contextTokensEstimated : Option Bool := none
deriving DecidableEq, Repr

namespace Usage

/-- The usage of a Chat response. -/
def ofChat (usage : Chat.Usage) : Usage :=
  { inputTokens := usage.inputTokens
    outputTokens := usage.outputTokens
    cacheReadTokens := some usage.cacheReadTokens
    reasoningTokens := usage.reasoningTokens
    estimated := usage.estimated
    rawUsage := usage.rawUsage
    markupRecovered := usage.markupRecovered }

/-- The usage of a Responses response. -/
def ofResponses (usage : Responses.Usage) : Usage :=
  { inputTokens := usage.inputTokens
    outputTokens := usage.outputTokens
    cacheReadTokens := usage.cacheReadTokens
    cacheCreationTokens := usage.cacheCreationTokens
    reasoningTokens := usage.reasoningTokens
    estimated := usage.estimated
    rawUsage := usage.rawUsage }

/-- The size of the last context, as its readers take it: the call's own counters stand
in for a field that is `None`. -/
def context (usage : Usage) : Int × Int × Bool :=
  (usage.contextTokens.getD usage.inputTokens,
    usage.contextOutputTokens.getD usage.outputTokens,
    usage.contextTokensEstimated.getD usage.estimated)

end Usage

/-- `_reported_chat_usage`: the counters that a broken attempt reported. -/
def reportedChatUsage (c : Chat.Codec) (usage : Option Json) : Option Usage :=
  let raw := usageToDict usage
  let inputTokens := optionalUsageInt c raw "prompt_tokens"
  let outputTokens := optionalUsageInt c raw "completion_tokens"
  if inputTokens.isNone && outputTokens.isNone then none
  else some
    { inputTokens := inputTokens.getD 0
      outputTokens := outputTokens.getD 0
      cacheReadTokens := optionalUsageInt c (raw.get "prompt_tokens_details") "cached_tokens"
      reasoningTokens :=
        optionalUsageInt c (raw.get "completion_tokens_details") "reasoning_tokens"
      estimated := inputTokens.isNone || outputTokens.isNone
      rawUsage := raw }

/-- `_reported_responses_usage`. -/
def reportedResponsesUsage (c : Chat.Codec) (response : Option Response) : Option Usage :=
  let raw := usageToDict (response.map Response.usage)
  let inputTokens := optionalUsageInt c raw "input_tokens"
  let outputTokens := optionalUsageInt c raw "output_tokens"
  let inputDetails := raw.get "input_tokens_details"
  if inputTokens.isNone && outputTokens.isNone then none
  else some
    { inputTokens := inputTokens.getD 0
      outputTokens := outputTokens.getD 0
      cacheReadTokens := optionalUsageInt c inputDetails "cached_tokens"
      cacheCreationTokens := (optionalUsageInt c inputDetails "cache_write_tokens").or
        (optionalUsageInt c raw "cache_write_tokens")
      reasoningTokens :=
        optionalUsageInt c (raw.get "output_tokens_details") "reasoning_tokens"
      estimated := inputTokens.isNone || outputTokens.isNone
      rawUsage := raw }

/-- `optional_total`: a counter that some attempt lacks has no total. -/
def optionalTotal (attempts : List (Option Usage)) (counter : Usage → Option Int) : Option Int :=
  let values := attempts.map fun usage => usage.bind counter
  if values.any Option.isNone then none else some (values.map fun value => value.getD 0).sum

/-- `_combine_attempt_usage`. -/
def combineAttemptUsage (attempts : List (Option Usage)) : Option Usage :=
  let known := attempts.filterMap id
  match known.getLast? with
  | none => none
  | some last =>
      if attempts.length = 1 then known.head?
      else some
        { inputTokens := (known.map Usage.inputTokens).sum
          outputTokens := (known.map Usage.outputTokens).sum
          cacheReadTokens := optionalTotal attempts Usage.cacheReadTokens
          cacheCreationTokens := optionalTotal attempts Usage.cacheCreationTokens
          reasoningTokens := optionalTotal attempts Usage.reasoningTokens
          estimated := attempts.any fun usage => usage.elim true Usage.estimated
          rawUsage := .obj [("attempts",
            .arr (attempts.map fun usage => usage.elim .null Usage.rawUsage))]
          markupRecovered := (known.map Usage.markupRecovered).sum
          contextTokens := some (last.contextTokens.getD last.inputTokens)
          contextOutputTokens := some (last.contextOutputTokens.getD last.outputTokens)
          contextTokensEstimated := some (last.contextTokensEstimated.getD last.estimated) }

/-! ## one attempt -/

/-- One attempt, of either path.

A Chat stream delivers `chunks` and then ends, or is `interrupted`: the transport fails, a
timeout passes, the call is cancelled, also while the stream is closed.  A Responses stream
delivers `events`; without a terminal one among them it is interrupted, and `closed` says
that it was closed undisturbed.  A Responses object may arrive whole.  `echoed` is the
check of the echoed instructions. -/
inductive Attempt where
  | unopened
  | chat (chunks : List Chunk) (interrupted : Bool)
  | responses (events : List Event) (closed echoed : Bool)
  | whole (response : Response) (echoed : Bool)

/-- What all attempts of a call share. -/
structure Call where
  codec : Codec
  chatMessages : List Json := []
  chatTools : List Json := []
  request : Responses.Request := {}

/-- `_drain_chat_stream`: the state, and whether it was left by an exception.  A chunk that
is refused has set the usage before its choices are read; nothing else of the state
is looked at then. -/
def drainChatStream (interrupted : Bool) (state : ChatStreamState) :
    List Chunk → ChatStreamState × Bool
  | [] => (state, interrupted)
  | chunk :: chunks =>
      match absorbChunk state chunk with
      | .ok state => drainChatStream interrupted state chunks
      | .error _ => (absorbHeader state chunk, true)

/-- `_consume_chat_stream`: the state, or the usage attached to the exception. -/
def consumeChatStream (c : Chat.Codec) (chunks : List Chunk) (interrupted : Bool) :
    Except (Option Usage) ChatStreamState :=
  match drainChatStream interrupted {} chunks with
  | (state, true) => .error (reportedChatUsage c state.usageObject)
  | (state, false) => .ok state

/-- `state.completed_response` when `_handle_event` raises. -/
def refusedResponse (state : StreamState) : Event → Option Response
  | .failed response _ => response
  | .incomplete response =>
      if (response.getD {}).status ≠ .str "incomplete" then state.completedResponse else response
  | .completed response => response
  | _ => state.completedResponse

/-- `_drain_stream`: the state, or the `completed_response` that an exception leaves. -/
def drainStream (closed : Bool) (state : StreamState) :
    List Event → Except (Option Response) StreamState
  | [] => .error state.completedResponse
  | event :: events =>
      match handleEvent state event with
      | .error _ => .error (refusedResponse state event)
      | .ok (state, false) => drainStream closed state events
      | .ok (state, true) =>
          if closed then (settleFragments state).mapError fun _ => state.completedResponse
          else .error state.completedResponse

/-- `_consume_stream`. -/
def consumeStream (c : Chat.Codec) (events : List Event) (closed : Bool) :
    Except (Option Usage) StreamState :=
  (drainStream closed {} events).mapError (reportedResponsesUsage c)

/-- How an attempt ended: with a response of that usage, or with an exception that carries
`carried`, after `entry` was added to `failed_usages`. -/
inductive Ended where
  | returned (usage : Usage)
  | raised (entry carried : Option Usage)

/-- A Responses attempt ends once its terminal object is there: it is checked and parsed. -/
def finish (c : Chat.Codec) (terminal : Option Response) (echoed : Bool)
    (parsed : Except Responses.ResponsesError Responses.LLMResponse) : Ended :=
  match echoed, parsed with
  | true, .ok response => .returned (.ofResponses response.usage)
  | _, _ => .raised (reportedResponsesUsage c terminal) none

/-- `request_once`. -/
def requestOnce (call : Call) : Attempt → Ended
  | .unopened => .raised none none
  | .chat chunks interrupted =>
      match consumeChatStream call.codec.toCodec chunks interrupted with
      | .error carried => .raised carried carried
      | .ok state =>
          match streamStateToResponse call.codec.toCodec state call.chatMessages call.chatTools
              true with
          | .error _ => .raised (reportedChatUsage call.codec.toCodec state.usageObject) none
          | .ok response => .returned (.ofChat response.usage)
  | .responses events closed echoed =>
      match consumeStream call.codec.toCodec events closed with
      | .error carried => .raised carried carried
      | .ok state =>
          finish call.codec.toCodec state.completedResponse echoed
            (parseStream call.codec call.request state)
  | .whole response echoed =>
      finish call.codec.toCodec (some response) echoed
        (parseResponsesResponse call.codec call.request response)

/-! ## the call -/

/-- What follows a failed attempt: another one after a pause; the exception is raised; or
one without usage takes its place, where the deadline of the attempt or of the round passes
or the pause is cancelled. -/
inductive After where
  | retry
  | raise
  | replace
deriving DecidableEq, Repr

/-- An attempt, and what follows if it fails. -/
structure Step where
  attempt : Attempt
  after : After := .raise

/-- What a call ends with: a response or an exception, and the usage attached to it. -/
structure Outcome where
  raised : Bool
  usage : Option Usage
deriving DecidableEq, Repr

/-- `with_retry` around `request_once`: what it ends with, and `failed_usages`.  Without a
further step the call is interrupted before the next attempt starts. -/
def withRetry (call : Call) (failed : List (Option Usage)) :
    List Step → Outcome × List (Option Usage)
  | [] => (⟨true, none⟩, failed)
  | step :: steps =>
      match requestOnce call step.attempt with
      | .returned usage => (⟨false, some usage⟩, failed)
      | .raised entry carried =>
          match step.after with
          | .retry => withRetry call (failed ++ [entry]) steps
          | .raise => (⟨true, carried⟩, failed ++ [entry])
          | .replace => (⟨true, none⟩, failed ++ [entry])

/-- The end of `complete_openai` and of `complete_responses`. -/
def settle (outcome : Outcome) (failed : List (Option Usage)) : Outcome :=
  if outcome.raised then { outcome with usage := (combineAttemptUsage failed).or outcome.usage }
  else if failed = [] then outcome
  else { outcome with usage := combineAttemptUsage (failed ++ [outcome.usage]) }

/-- `LLMClient.complete`: the outcome is recorded, and the cancellation of that takes its
place with the same usage. -/
def complete (call : Call) (steps : List Step) (cancelled : Bool) : Outcome :=
  let (outcome, failed) := withRetry call [] steps
  let outcome := settle outcome failed
  { outcome with raised := outcome.raised || cancelled }

/-! ## what was reported -/

/-- The chunks that an attempt reads: all, or up to the one that is refused. -/
def receivedChunks (state : ChatStreamState) : List Chunk → List Chunk
  | [] => []
  | chunk :: chunks =>
      match absorbChunk state chunk with
      | .ok state => chunk :: receivedChunks state chunks
      | .error _ => [chunk]

/-- The events that an attempt reads: up to the terminal one, or the one that is refused. -/
def receivedEvents (state : StreamState) : List Event → List Event
  | [] => []
  | event :: events =>
      match handleEvent state event with
      | .ok (state, false) => event :: receivedEvents state events
      | _ => [event]

/-- The Responses object of a terminal event; no other event has counters. -/
def terminalResponse : Event → Option Response
  | .failed response _ => response
  | .incomplete response => response
  | .completed response => response
  | _ => none

/-- The counters that the provider reported to a broken attempt: those of the last usage
object of a Chat stream, or of the object of the event that ended a Responses stream. -/
def brokenReport (c : Chat.Codec) : Attempt → Option Usage
  | .unopened => none
  | .chat chunks _ => reportedChatUsage c ((receivedChunks {} chunks).filterMap Chunk.usage).getLast?
  | .responses events _ _ =>
      reportedResponsesUsage c ((receivedEvents {} events).getLast?.bind terminalResponse)
  | .whole response _ => reportedResponsesUsage c (some response)

/-- The usage an attempt reported: that of its response, or what was reported until it
broke off. -/
def reported (call : Call) (attempt : Attempt) : Option Usage :=
  match requestOnce call attempt with
  | .returned usage => some usage
  | .raised _ _ => brokenReport call.codec.toCodec attempt

/-- The keys of a path's counters in a usage object. -/
structure Keys where
  input : String
  output : String
  inputDetails : String
  outputDetails : String

/-- The usage object that a broken attempt received last. -/
def rawReport : Attempt → Option Json
  | .unopened => none
  | .chat chunks _ => ((receivedChunks {} chunks).filterMap Chunk.usage).getLast?
  | .responses events _ _ =>
      ((receivedEvents {} events).getLast?.bind terminalResponse).map Response.usage
  | .whole response _ => some response.usage

/-- The keys of an attempt's path. -/
def Attempt.keys : Attempt → Keys
  | .chat _ _ =>
      ⟨"prompt_tokens", "completion_tokens", "prompt_tokens_details", "completion_tokens_details"⟩
  | _ => ⟨"input_tokens", "output_tokens", "input_tokens_details", "output_tokens_details"⟩

/-- An object has a counter: a number that is not negative, and no `bool`. -/
def Counts (c : Chat.Codec) (source : Json) (key : String) (n : Int) : Prop :=
  source.get key ≠ .null ∧ (∀ b, source.get key ≠ .bool b) ∧
    c.toInt (source.get key) = some n ∧ 0 ≤ n

/-- `usage` says what a usage object does; 0 stands in for a counter it lacks. -/
structure ReadOff (c : Chat.Codec) (keys : Keys) (source : Json) (usage : Usage) : Prop where
  input : ∀ n, Counts c source keys.input n → usage.inputTokens = n
  output : ∀ n, Counts c source keys.output n → usage.outputTokens = n
  noInput : (∀ n, ¬Counts c source keys.input n) → usage.inputTokens = 0
  noOutput : (∀ n, ¬Counts c source keys.output n) → usage.outputTokens = 0
  cacheRead : ∀ n, usage.cacheReadTokens = some n ↔
    Counts c (source.get keys.inputDetails) "cached_tokens" n
  reasoning : ∀ n, usage.reasoningTokens = some n ↔
    Counts c (source.get keys.outputDetails) "reasoning_tokens" n
  estimated : usage.estimated = false ↔
    (∃ n, Counts c source keys.input n) ∧ ∃ n, Counts c source keys.output n
  rawUsage : usage.rawUsage = source

/-- **Read off the events**: a broken attempt reported something exactly if the last usage
object it received has one of the two counters, and it reported what that object says. -/
structure FromEvents (c : Chat.Codec) (attempt : Attempt) (report : Option Usage) : Prop where
  none_iff : report = none ↔ ∀ items, rawReport attempt = some (.obj items) →
    ∀ n, ¬Counts c (.obj items) attempt.keys.input n ∧ ¬Counts c (.obj items) attempt.keys.output n
  known : ∀ usage, report = some usage →
    ∃ items, rawReport attempt = some (.obj items) ∧ ReadOff c attempt.keys (.obj items) usage

/-- A `response.incomplete` event whose object has another status. -/
def mislabelled : Event → Bool
  | .incomplete response => (response.getD {}).status ≠ .str "incomplete"
  | _ => false

/-- The attempt ends at a mislabelled event, and that event has counters. -/
def endsMislabelled (c : Chat.Codec) : Attempt → Bool
  | .responses events _ _ =>
      (receivedEvents {} events).getLast?.any fun event =>
        mislabelled event && (reportedResponsesUsage c (terminalResponse event)).isSome
  | _ => false

/-- The attempts that a call starts. -/
def started (call : Call) : List Step → List Attempt
  | [] => []
  | step :: steps =>
      match requestOnce call step.attempt, step.after with
      | .raised _ _, .retry => step.attempt :: started call steps
      | _, _ => [step.attempt]

/-! ## a complete usage -/

/-- The sum of a counter over all attempts; an attempt that reported nothing adds 0. -/
def counted (reports : List (Option Usage)) (counter : Usage → Int) : Int :=
  (reports.map fun report => report.elim 0 counter).sum

/-- An optional counter is absent exactly if some attempt lacks it, and else the sum. -/
structure OptionalComplete (reports : List (Option Usage)) (counter : Usage → Option Int)
    (value : Option Int) : Prop where
  absent : value = none ↔ ∃ report ∈ reports, report.bind counter = none
  total : ∀ n, value = some n → n = counted reports fun usage => (counter usage).getD 0

/-- **Complete usage**: what a usage has to say of the attempts it stands for. -/
structure CompleteUsage (reports : List (Option Usage)) (usage : Usage) : Prop where
  input : usage.inputTokens = counted reports Usage.inputTokens
  output : usage.outputTokens = counted reports Usage.outputTokens
  cacheRead : OptionalComplete reports Usage.cacheReadTokens usage.cacheReadTokens
  cacheCreation : OptionalComplete reports Usage.cacheCreationTokens usage.cacheCreationTokens
  reasoning : OptionalComplete reports Usage.reasoningTokens usage.reasoningTokens
  estimated : usage.estimated = true ↔
    ∃ report ∈ reports, ∀ known, report = some known → known.estimated = true
  context : ∃ last, (reports.filterMap id).getLast? = some last ∧ usage.context = last.context

/-- **Complete**: there is a usage exactly if some attempt reported any, and it is
complete. -/
structure Complete (reports : List (Option Usage)) (usage : Option Usage) : Prop where
  none_iff : usage = none ↔ ∀ report ∈ reports, report = none
  some_complete : ∀ known, usage = some known → CompleteUsage reports known

/-! ## combining -/

section Combining

variable {reports : List (Option Usage)}

/-- The attempts that reported nothing add nothing to a sum. -/
theorem sum_known (reports : List (Option Usage)) (counter : Usage → Int) :
    ((reports.filterMap id).map counter).sum = counted reports counter := by
  induction reports with
  | nil => rfl
  | cons report reports ih =>
      cases report with
      | none =>
          simp only [List.filterMap_cons, id_eq, counted, List.map_cons, Option.elim_none,
            List.sum_cons, Int.zero_add]
          exact ih
      | some usage =>
          simp only [List.filterMap_cons, id_eq, counted, List.map_cons, Option.elim_some,
            List.sum_cons]
          exact congrArg (counter usage + ·) ih

theorem optionalTotal_complete (reports : List (Option Usage)) (counter : Usage → Option Int) :
    OptionalComplete reports counter (optionalTotal reports counter) := by
  simp only [optionalTotal]
  by_cases h : (reports.map fun usage => usage.bind counter).any Option.isNone
  · rw [if_pos h]
    constructor
    · simp only [List.any_map, List.any_eq_true, Function.comp, Option.isNone_iff_eq_none] at h
      simp only [true_iff]
      exact h
    · intro n hn
      cases hn
  · rw [if_neg h]
    constructor
    · simp only [List.any_map, List.any_eq_true, Function.comp, Option.isNone_iff_eq_none] at h
      simp only [reduceCtorEq, false_iff]
      exact h
    · intro n hn
      simp only [Option.some.injEq] at hn
      subst hn
      simp only [counted, List.map_map]
      congr 1
      apply List.map_congr_left
      intro report _
      cases report <;> rfl

/-- A single report is complete as it stands. -/
theorem single_complete (usage : Usage) : CompleteUsage [some usage] usage := by
  have optional (counter : Usage → Option Int) :
      OptionalComplete [some usage] counter (counter usage) := by
    constructor
    · simp
    · intro n hn
      simp [counted, hn]
  constructor
  · simp [counted]
  · simp [counted]
  · exact optional Usage.cacheReadTokens
  · exact optional Usage.cacheCreationTokens
  · exact optional Usage.reasoningTokens
  · simp
  · exact ⟨usage, rfl, rfl⟩

/-- **A combination is complete** for the reports it is made of. -/
theorem combineAttemptUsage_complete (reports : List (Option Usage)) :
    Complete reports (combineAttemptUsage reports) := by
  simp only [combineAttemptUsage]
  cases hlast : (reports.filterMap id).getLast? with
  | none =>
      have hnone : ∀ report ∈ reports, report = none := by
        simpa using hlast
      constructor
      · simp only [true_iff]
        exact hnone
      · intro known h
        cases h
  | some last =>
      have hmem : some last ∈ reports := by
        have := List.mem_of_getLast? hlast
        simpa using this
      have hsome : ¬ ∀ report ∈ reports, report = none := by
        intro h
        cases h _ hmem
      by_cases hlen : reports.length = 1
      · obtain ⟨report, rfl⟩ := List.length_eq_one_iff.mp hlen
        simp only [List.mem_singleton] at hmem
        subst hmem
        simp only [List.length_singleton, if_true]
        constructor
        · simp
        · intro known h
          simp only [List.filterMap_cons, id_eq, List.filterMap_nil, List.head?_cons,
            Option.some.injEq] at h
          subst h
          exact single_complete last
      · simp only [if_neg hlen]
        constructor
        · simp only [reduceCtorEq, false_iff]
          exact hsome
        · intro known h
          simp only [Option.some.injEq] at h
          subst h
          constructor
          · exact sum_known reports Usage.inputTokens
          · exact sum_known reports Usage.outputTokens
          · exact optionalTotal_complete reports Usage.cacheReadTokens
          · exact optionalTotal_complete reports Usage.cacheCreationTokens
          · exact optionalTotal_complete reports Usage.reasoningTokens
          · simp only [List.any_eq_true]
            constructor
            · intro ⟨report, hreport, he⟩
              refine ⟨report, hreport, ?_⟩
              intro known hknown
              simpa [hknown] using he
            · intro ⟨report, hreport, he⟩
              refine ⟨report, hreport, ?_⟩
              cases report with
              | none => rfl
              | some known => exact he known rfl
          · exact ⟨last, hlast, rfl⟩

end Combining

/-! ## one entry for each attempt -/

/-- What an attempt leaves for the sum: its entry, or the usage of its response. -/
def kept (call : Call) (attempt : Attempt) : Option Usage :=
  match requestOnce call attempt with
  | .returned usage => some usage
  | .raised entry _ => entry

/-- An exception carries what its attempt's entry holds. -/
theorem carried_entry {call : Call} {attempt : Attempt} {entry carried : Option Usage}
    (h : requestOnce call attempt = .raised entry carried) :
    carried = none ∨ carried = entry := by
  have hfinish {terminal : Option Response} {echoed : Bool}
      {parsed : Except Responses.ResponsesError Responses.LLMResponse}
      (h : finish call.codec.toCodec terminal echoed parsed = .raised entry carried) :
      carried = none := by
    unfold finish at h
    split at h
    · cases h
    · cases h
      rfl
  cases attempt with
  | unopened =>
      cases h
      exact .inl rfl
  | chat chunks interrupted =>
      simp only [requestOnce] at h
      split at h
      · cases h
        exact .inr rfl
      · split at h
        · cases h
          exact .inl rfl
        · cases h
  | responses events closed echoed =>
      simp only [requestOnce] at h
      split at h
      · cases h
        exact .inr rfl
      · exact .inl (hfinish h)
  | whole response echoed => exact .inl (hfinish h)

/-- An exception that already carries one of the entries is given the combination. -/
theorem combineAttemptUsage_or {reports : List (Option Usage)} {carried : Option Usage}
    (h : carried = none ∨ carried ∈ reports) :
    (combineAttemptUsage reports).or carried = combineAttemptUsage reports := by
  cases hcombined : combineAttemptUsage reports with
  | some usage => rfl
  | none =>
      have hnone := (combineAttemptUsage_complete reports).none_iff.mp hcombined
      cases h with
      | inl h => exact h
      | inr h => exact hnone carried h

theorem kept_raised {call : Call} {attempt : Attempt} {entry carried : Option Usage}
    (h : requestOnce call attempt = .raised entry carried) : kept call attempt = entry := by
  simp only [kept, h]

theorem kept_returned {call : Call} {attempt : Attempt} {usage : Usage}
    (h : requestOnce call attempt = .returned usage) : kept call attempt = some usage := by
  simp only [kept, h]

/-- **The retry loop** loses no entry and doubles none. -/
theorem settle_withRetry (call : Call) (steps : List Step) (failed : List (Option Usage)) :
    (settle (withRetry call failed steps).1 (withRetry call failed steps).2).usage
      = combineAttemptUsage (failed ++ (started call steps).map (kept call)) := by
  induction steps generalizing failed with
  | nil => simp [withRetry, settle, started]
  | cons step steps ih =>
      cases hend : requestOnce call step.attempt with
      | returned usage =>
          simp only [withRetry, started, hend, List.map_cons, List.map_nil, kept_returned hend]
          by_cases hfailed : failed = []
          · subst hfailed
            rfl
          · simp [settle, hfailed]
      | raised entry carried =>
          have hcarried : carried = none ∨ carried ∈ failed ++ [entry] := by
            cases carried_entry hend with
            | inl h => exact .inl h
            | inr h => exact .inr (by simp [h])
          cases hafter : step.after with
          | retry =>
              simp only [withRetry, started, hend, hafter, List.map_cons, kept_raised hend]
              rw [ih, List.append_assoc]
              rfl
          | raise =>
              simp only [withRetry, started, hend, hafter, List.map_cons, List.map_nil,
                kept_raised hend, settle, if_true]
              exact combineAttemptUsage_or hcarried
          | replace =>
              simp only [withRetry, started, hend, hafter, List.map_cons, List.map_nil,
                kept_raised hend, settle, if_true]
              exact combineAttemptUsage_or (.inl rfl)

/-- **The usage of a call** combines one entry for each attempt that was started. -/
theorem complete_usage (call : Call) (steps : List Step) (cancelled : Bool) :
    (complete call steps cancelled).usage
      = combineAttemptUsage ((started call steps).map (kept call)) :=
  settle_withRetry call steps []

/-! ## entries and reports -/

/-- A chunk that is absorbed has set the usage before its choices are read. -/
theorem absorbChunk_usage {state state' : ChatStreamState} {chunk : Chunk}
    (h : absorbChunk state chunk = .ok state') :
    state'.usageObject = chunk.usage.or state.usageObject := by
  have hslots := Chat.absorbChunk_withSlots state.toolSlots state chunk
  have hstate : Chat.withSlots state.toolSlots state = state := rfl
  rw [hstate, h] at hslots
  cases hfold : ((chunk.choices.flatMap Chat.choiceDeltas).flatMap Chat.Delta.toolCalls).foldlM
      Chat.absorbToolCallDelta state.toolSlots with
  | error e =>
      rw [hfold] at hslots
      cases hslots
  | ok slots =>
      rw [hfold] at hslots
      have hheader := congrArg Prod.fst (Chat.header_absorbChunkText state chunk)
      rw [Except.ok.inj hslots]
      exact hheader

/-- The usage object is the last one among the chunks that were read. -/
theorem drainChatStream_usage (interrupted : Bool) (chunks : List Chunk) (state : ChatStreamState) :
    (drainChatStream interrupted state chunks).1.usageObject
      = ((receivedChunks state chunks).filterMap Chunk.usage).getLast?.or state.usageObject := by
  induction chunks generalizing state with
  | nil => rfl
  | cons chunk chunks ih =>
      cases habsorb : absorbChunk state chunk with
      | error e =>
          simp only [drainChatStream, receivedChunks, habsorb, absorbHeader]
          cases husage : chunk.usage <;> simp [husage]
      | ok next =>
          simp only [drainChatStream, receivedChunks, habsorb]
          rw [ih, absorbChunk_usage habsorb]
          cases husage : chunk.usage with
          | none => simp [husage]
          | some usage =>
              simp only [List.filterMap_cons, husage, List.getLast?_cons, Option.some_or]
              cases ((receivedChunks next chunks).filterMap Chunk.usage).getLast? <;> rfl

/-- The object an event leaves behind, if it ends the stream. -/
def recordedResponse (event : Event) : Option Response :=
  if mislabelled event then none else terminalResponse event

theorem refusedResponse_eq {state : StreamState} (hstate : state.completedResponse = none)
    (event : Event) : refusedResponse state event = recordedResponse event := by
  cases event <;> simp [refusedResponse, recordedResponse, mislabelled, terminalResponse, hstate]

/-- **One event** that is handled: it leaves the `completed_response` as it was and has no
counters, or it ends the stream and leaves its object. -/
theorem handleEvent_response {state next : StreamState} {event : Event} {terminal : Bool}
    (h : handleEvent state event = .ok (next, terminal)) :
    (terminal = false ∧ next.completedResponse = state.completedResponse ∧
      terminalResponse event = none) ∨
    (terminal = true ∧ next.completedResponse = terminalResponse event ∧
      mislabelled event = false) := by
  cases event with
  | failed response error => cases h
  | incomplete response =>
      unfold handleEvent at h
      simp only [bind, Except.bind, pure, Except.pure, throw, throwThe, MonadExceptOf.throw] at h
      split at h
      · cases h
      · rename_i hstatus
        split at h
        · cases h
        · cases h
          exact .inr ⟨rfl, rfl, by simpa [mislabelled] using hstatus⟩
  | argumentsDelta outputIndex delta =>
      unfold handleEvent at h
      simp only [pure, Except.pure, Responses.refuse] at h
      split at h
      · cases h
        exact .inl ⟨rfl, rfl, rfl⟩
      · cases h
  | argumentsDone outputIndex arguments =>
      unfold handleEvent at h
      simp only [bind, Except.bind, pure, Except.pure, Responses.refuse] at h
      split at h
      · split at h
        · cases h
        · cases h
          exact .inl ⟨rfl, rfl, rfl⟩
      · cases h
  | outputItemDone outputIndex item =>
      simp only [handleEvent] at h
      obtain ⟨accepted, haccept, hpair⟩ := Lib.bind_eq_ok.mp h
      obtain ⟨index, rfl, hitem⟩ := Responses.acceptOutputItem_eq_ok haccept
      cases hpair
      exact .inl ⟨rfl, hitem.response, rfl⟩
  | completed response =>
      unfold handleEvent at h
      simp only [bind, Except.bind, pure, Except.pure, Responses.refuse] at h
      split at h
      · split at h
        · cases h
        · cases h
          exact .inr ⟨rfl, rfl, rfl⟩
      · cases h
  | passive =>
      cases h
      exact .inl ⟨rfl, rfl, rfl⟩
  | unsupported type => cases h
  | untyped => cases h

theorem settleFragments_response {state state' : StreamState}
    (h : settleFragments state = .ok state') :
    state'.completedResponse = state.completedResponse := by
  unfold settleFragments at h
  simp only [bind, Except.bind, pure, Except.pure, Responses.refuse] at h
  split at h
  · cases h
    rfl
  · split at h
    · cases h
    · split at h
      · cases h
      · split at h
        · cases h
          rfl
        · cases h

/-- The object that a drained stream leaves, whether it is left by an exception or not. -/
def leftResponse : Except (Option Response) StreamState → Option Response
  | .error response => response
  | .ok state => state.completedResponse

/-- The object left is the one of the last event, unless that is mislabelled. -/
theorem drainStream_response (closed : Bool) (events : List Event) {state : StreamState}
    (hstate : state.completedResponse = none) :
    leftResponse (drainStream closed state events)
      = (receivedEvents state events).getLast?.bind recordedResponse := by
  induction events generalizing state with
  | nil => exact hstate
  | cons event events ih =>
      cases hhandle : handleEvent state event with
      | error e =>
          simp only [drainStream, receivedEvents, hhandle, leftResponse]
          exact refusedResponse_eq hstate event
      | ok pair =>
          obtain ⟨next, terminal⟩ := pair
          cases handleEvent_response hhandle with
          | inl h =>
              obtain ⟨rfl, hnext, hevent⟩ := h
              have hrecorded : recordedResponse event = none := by
                simp [recordedResponse, hevent]
              simp only [drainStream, receivedEvents, hhandle]
              rw [ih (hnext.trans hstate), List.getLast?_cons]
              cases (receivedEvents next events).getLast? with
              | none => simp [hrecorded]
              | some last => rfl
          | inr h =>
              obtain ⟨rfl, hnext, hevent⟩ := h
              have hrecorded : recordedResponse event = next.completedResponse := by
                simp [recordedResponse, hevent, hnext]
              simp only [drainStream, receivedEvents, hhandle, List.getLast?_singleton,
                Option.bind_some, hrecorded]
              cases closed with
              | false => rfl
              | true =>
                  cases hsettle : settleFragments next with
                  | error e => rfl
                  | ok final => exact settleFragments_response hsettle

/-- A stream that is drained ended at an event that is not mislabelled. -/
theorem drainStream_ok {closed : Bool} {events : List Event} {state final : StreamState}
    (h : drainStream closed state events = .ok final) :
    ∃ last, (receivedEvents state events).getLast? = some last ∧ mislabelled last = false := by
  induction events generalizing state with
  | nil => cases h
  | cons event events ih =>
      cases hhandle : handleEvent state event with
      | error e => simp [drainStream, hhandle] at h
      | ok pair =>
          obtain ⟨next, terminal⟩ := pair
          cases handleEvent_response hhandle with
          | inl hpassed =>
              obtain ⟨rfl, -, -⟩ := hpassed
              simp only [drainStream, hhandle] at h
              obtain ⟨last, hlast, hlabel⟩ := ih h
              refine ⟨last, ?_, hlabel⟩
              simp only [receivedEvents, hhandle, List.getLast?_cons, hlast, Option.getD_some]
          | inr hended =>
              obtain ⟨rfl, -, hlabel⟩ := hended
              exact ⟨event, by simp only [receivedEvents, hhandle, List.getLast?_singleton], hlabel⟩

theorem reportedResponsesUsage_none (c : Chat.Codec) : reportedResponsesUsage c none = none := by
  simp [reportedResponsesUsage, usageToDict, optionalUsageInt, Json.get, Json.get?]

/-- What a broken attempt leaves is what it reported, or nothing after a mislabelled event
that has counters. -/
theorem entry_eq {call : Call} {attempt : Attempt} {entry carried : Option Usage}
    (h : requestOnce call attempt = .raised entry carried) :
    entry = if endsMislabelled call.codec.toCodec attempt then none
      else brokenReport call.codec.toCodec attempt := by
  have hfinish {terminal : Option Response} {echoed : Bool}
      {parsed : Except Responses.ResponsesError Responses.LLMResponse}
      (h : finish call.codec.toCodec terminal echoed parsed = .raised entry carried) :
      entry = reportedResponsesUsage call.codec.toCodec terminal := by
    unfold finish at h
    split at h
    · cases h
    · cases h
      rfl
  cases attempt with
  | unopened =>
      cases h
      rfl
  | whole response echoed => exact hfinish h
  | chat chunks interrupted =>
      have husage := drainChatStream_usage interrupted chunks {}
      rw [Option.or_none] at husage
      simp only [endsMislabelled, Bool.false_eq_true, if_false, brokenReport]
      rw [← husage]
      simp only [requestOnce, consumeChatStream] at h
      split at h
      · rename_i hconsume
        split at hconsume
        · rename_i hdrain
          cases hconsume
          cases h
          rw [hdrain]
        · cases hconsume
      · rename_i hconsume
        split at hconsume
        · cases hconsume
        · rename_i hdrain
          cases hconsume
          split at h
          · cases h
            rw [hdrain]
          · cases h
  | responses events closed echoed =>
      have hentry : entry = reportedResponsesUsage call.codec.toCodec
          (leftResponse (drainStream closed {} events)) := by
        simp only [requestOnce, consumeStream] at h
        cases hdrain : drainStream closed {} events with
        | error response =>
            simp only [hdrain, Except.mapError] at h
            cases h
            rfl
        | ok state =>
            simp only [hdrain, Except.mapError] at h
            exact hfinish h
      rw [hentry, drainStream_response closed events rfl]
      obtain ⟨last, hlast⟩ : ∃ last, (receivedEvents {} events).getLast? = last := ⟨_, rfl⟩
      simp only [endsMislabelled, brokenReport, hlast]
      cases last with
      | none => simp [reportedResponsesUsage_none]
      | some last =>
          simp only [Option.bind_some, Option.any_some, recordedResponse]
          cases hlabel : mislabelled last with
          | false => simp
          | true =>
              simp only [if_true, Bool.true_and, reportedResponsesUsage_none]
              cases reportedResponsesUsage call.codec.toCodec (terminalResponse last) <;> simp

/-- An attempt that returned did not end at a mislabelled event. -/
theorem endsMislabelled_of_returned {call : Call} {attempt : Attempt} {usage : Usage}
    (h : requestOnce call attempt = .returned usage) :
    endsMislabelled call.codec.toCodec attempt = false := by
  cases attempt with
  | unopened => rfl
  | chat chunks interrupted => rfl
  | whole response echoed => rfl
  | responses events closed echoed =>
      simp only [requestOnce, consumeStream] at h
      cases hdrain : drainStream closed {} events with
      | error response =>
          simp only [hdrain, Except.mapError] at h
          cases h
      | ok state =>
          obtain ⟨last, hlast, hlabel⟩ := drainStream_ok hdrain
          simp [endsMislabelled, hlast, hlabel]

/-- **An attempt's entry** is what it reported, unless it ended at a mislabelled event that
has counters. -/
theorem kept_eq_reported {call : Call} {attempt : Attempt}
    (h : endsMislabelled call.codec.toCodec attempt = false) :
    kept call attempt = reported call attempt := by
  cases hend : requestOnce call attempt with
  | returned usage => simp only [kept, reported, hend]
  | raised entry carried =>
      simp only [kept, reported, hend]
      rw [entry_eq hend, h]
      rfl

/-- The counters of a mislabelled event are lost. -/
theorem kept_mislabelled {call : Call} {attempt : Attempt}
    (h : endsMislabelled call.codec.toCodec attempt = true) :
    kept call attempt = none ∧ (reported call attempt).isSome := by
  cases hend : requestOnce call attempt with
  | returned usage => simp [endsMislabelled_of_returned hend] at h
  | raised entry carried =>
      simp only [kept, reported, hend]
      constructor
      · rw [entry_eq hend, h]
        rfl
      · cases attempt with
        | responses events closed echoed =>
            simp only [endsMislabelled, Option.any_eq_true, Bool.and_eq_true] at h
            obtain ⟨last, hlast, -, hsome⟩ := h
            simpa [brokenReport, hlast] using hsome
        | _ => cases h

/-! ## reports off the events -/

section Reports

variable {c : Chat.Codec} {source : Json} {key : String}

theorem optionalUsageInt_eq_some {n : Int} :
    optionalUsageInt c source key = some n ↔ Counts c source key n := by
  unfold optionalUsageInt Counts
  cases hvalue : source.get key <;> simp [Option.filter_eq_some_iff]

theorem optionalUsageInt_eq_none :
    optionalUsageInt c source key = none ↔ ∀ n, ¬Counts c source key n := by
  rw [Option.eq_none_iff_forall_ne_some]
  exact forall_congr' fun n => not_congr optionalUsageInt_eq_some

theorem optionalUsageInt_isNone :
    (optionalUsageInt c source key).isNone = false ↔ ∃ n, Counts c source key n := by
  rw [Option.isNone_eq_false_iff, Option.isSome_iff_exists]
  exact exists_congr fun n => optionalUsageInt_eq_some

/-- What is no object counts nothing. -/
theorem not_counts_empty (n : Int) : ¬Counts c (.obj []) key n :=
  fun h => h.1 rfl

/-- A usage whose fields are the counters of an object is read off it. -/
theorem readOff_of {keys : Keys} {usage : Usage}
    (hinput : usage.inputTokens = (optionalUsageInt c source keys.input).getD 0)
    (houtput : usage.outputTokens = (optionalUsageInt c source keys.output).getD 0)
    (hcache : usage.cacheReadTokens =
      optionalUsageInt c (source.get keys.inputDetails) "cached_tokens")
    (hreasoning : usage.reasoningTokens =
      optionalUsageInt c (source.get keys.outputDetails) "reasoning_tokens")
    (hestimated : usage.estimated = ((optionalUsageInt c source keys.input).isNone ||
      (optionalUsageInt c source keys.output).isNone))
    (hraw : usage.rawUsage = source) : ReadOff c keys source usage where
  input n h := by rw [hinput, optionalUsageInt_eq_some.mpr h, Option.getD_some]
  output n h := by rw [houtput, optionalUsageInt_eq_some.mpr h, Option.getD_some]
  noInput h := by rw [hinput, optionalUsageInt_eq_none.mpr h, Option.getD_none]
  noOutput h := by rw [houtput, optionalUsageInt_eq_none.mpr h, Option.getD_none]
  cacheRead n := by rw [hcache, optionalUsageInt_eq_some]
  reasoning n := by rw [hreasoning, optionalUsageInt_eq_some]
  estimated := by
    rw [hestimated, Bool.or_eq_false_iff, optionalUsageInt_isNone, optionalUsageInt_isNone]
  rawUsage := hraw

/-- A report of the last usage object, where that has a counter. -/
theorem fromEvents_of {attempt : Attempt} {usage : Usage}
    (h : ReadOff c attempt.keys (usageToDict (rawReport attempt)) usage) :
    FromEvents c attempt
      (if (optionalUsageInt c (usageToDict (rawReport attempt)) attempt.keys.input).isNone &&
          (optionalUsageInt c (usageToDict (rawReport attempt)) attempt.keys.output).isNone
        then none else some usage) := by
  by_cases hobj : ∃ items, rawReport attempt = some (.obj items)
  · obtain ⟨items, hraw⟩ := hobj
    simp only [hraw, usageToDict] at h ⊢
    constructor
    · rw [ite_eq_left_iff, hraw]
      simp only [reduceCtorEq, imp_false, not_not, Bool.and_eq_true, Option.isNone_iff_eq_none,
        optionalUsageInt_eq_none, Option.some.injEq, Json.obj.injEq, forall_eq', forall_and]
    · intro known hknown
      obtain ⟨-, hsame⟩ := Option.ite_none_left_eq_some.mp hknown
      obtain rfl := Option.some.inj hsame
      exact ⟨items, hraw, h⟩
  · have hdict : usageToDict (rawReport attempt) = .obj [] := by
      unfold usageToDict
      split
      · rename_i items hraw
        exact absurd ⟨items, hraw⟩ hobj
      · rfl
    rw [hdict, optionalUsageInt_eq_none.mpr not_counts_empty,
      optionalUsageInt_eq_none.mpr not_counts_empty]
    constructor
    · exact iff_of_true rfl fun items hraw => absurd ⟨items, hraw⟩ hobj
    · intro known hknown
      cases hknown

/-- **The report of a broken attempt** is read off the events it received. -/
theorem brokenReport_fromEvents (attempt : Attempt) :
    FromEvents c attempt (brokenReport c attempt) := by
  cases attempt with
  | unopened =>
      constructor
      · exact iff_of_true rfl fun items h => by cases h
      · intro usage h
        cases h
  | chat chunks interrupted => exact fromEvents_of (readOff_of rfl rfl rfl rfl rfl rfl)
  | responses events closed echoed => exact fromEvents_of (readOff_of rfl rfl rfl rfl rfl rfl)
  | whole response echoed => exact fromEvents_of (readOff_of rfl rfl rfl rfl rfl rfl)

end Reports

/-! ## the usage of a call -/

/-- The native record of several attempts lists each of them, and which reported nothing. -/
def Recorded (reports : List (Option Usage)) (usage : Option Usage) : Prop :=
  ∀ known, usage = some known → reports.length ≠ 1 → known.rawUsage =
    .obj [("attempts", .arr (reports.map fun report => report.elim .null Usage.rawUsage))]

theorem combineAttemptUsage_recorded (reports : List (Option Usage)) :
    Recorded reports (combineAttemptUsage reports) := by
  intro known h hlen
  simp only [combineAttemptUsage, if_neg hlen] at h
  split at h
  · cases h
  · cases h
    rfl

/-- Reported counters are no negative numbers, and come with their native record. -/
theorem reportedResponsesUsage_known {c : Chat.Codec} {response : Option Response} {usage : Usage}
    (h : reportedResponsesUsage c response = some usage) :
    0 ≤ usage.inputTokens ∧ 0 ≤ usage.outputTokens ∧ usage.rawUsage ≠ .null := by
  have hcounter (source : Json) (key : String) : 0 ≤ (optionalUsageInt c source key).getD 0 := by
    cases hvalue : optionalUsageInt c source key with
    | none => simp
    | some n =>
        simp only [optionalUsageInt] at hvalue
        split at hvalue
        · cases hvalue
        · cases hvalue
        · simpa using (Option.filter_eq_some_iff.mp hvalue).2
  simp only [reportedResponsesUsage] at h
  split at h
  · cases h
  · cases h
    refine ⟨hcounter _ _, hcounter _ _, ?_⟩
    simp only [usageToDict]
    split <;> simp

/-- What an attempt reported to a mislabelled event. -/
theorem reported_mislabelled {call : Call} {attempt : Attempt} {usage : Usage}
    (h : endsMislabelled call.codec.toCodec attempt = true)
    (hreported : reported call attempt = some usage) :
    0 ≤ usage.inputTokens ∧ 0 ≤ usage.outputTokens ∧ usage.rawUsage ≠ .null := by
  cases hend : requestOnce call attempt with
  | returned usage => simp [endsMislabelled_of_returned hend] at h
  | raised entry carried =>
      simp only [reported, hend] at hreported
      cases attempt with
      | responses events closed echoed => exact reportedResponsesUsage_known hreported
      | _ => cases h

section Losses

variable {call : Call} {attempts : List Attempt}

/-- Where no attempt ended at a mislabelled event with counters, all reports are kept. -/
theorem map_kept_eq (h : ∀ attempt ∈ attempts,
    endsMislabelled call.codec.toCodec attempt = false) :
    attempts.map (kept call) = attempts.map (reported call) :=
  List.map_congr_left fun attempt hattempt => kept_eq_reported (h attempt hattempt)

/-- Of a sum that is right, no attempt's part is lost. -/
theorem counter_kept {counter : Usage → Int}
    (hnonneg : ∀ attempt usage, endsMislabelled call.codec.toCodec attempt = true →
      reported call attempt = some usage → 0 ≤ counter usage)
    (hsum : counted (attempts.map (kept call)) counter
      = counted (attempts.map (reported call)) counter)
    {attempt : Attempt} (hattempt : attempt ∈ attempts) {usage : Usage}
    (hlost : endsMislabelled call.codec.toCodec attempt = true)
    (hreported : reported call attempt = some usage) : counter usage = 0 := by
  have hle : ∀ attempt ∈ attempts,
      (kept call attempt).elim 0 counter ≤ (reported call attempt).elim 0 counter := by
    intro attempt _
    cases hlabel : endsMislabelled call.codec.toCodec attempt with
    | false =>
        rw [kept_eq_reported hlabel]
    | true =>
        obtain ⟨hkept, hsome⟩ := kept_mislabelled hlabel
        obtain ⟨usage, husage⟩ := Option.isSome_iff_exists.mp hsome
        rw [hkept, husage]
        exact hnonneg attempt usage hlabel husage
  simp only [counted, List.map_map] at hsum
  have := Lib.eq_of_sum_map_eq hle hsum attempt hattempt
  rw [(kept_mislabelled hlost).1, hreported] at this
  exact this.symm

/-- A lost report shows in the record, or in there being no usage at all. -/
theorem not_endsMislabelled_of_recorded
    (hcomplete : Complete (attempts.map (reported call))
      (combineAttemptUsage (attempts.map (kept call))))
    (hrecorded : Recorded (attempts.map (reported call))
      (combineAttemptUsage (attempts.map (kept call))))
    {attempt : Attempt} (hattempt : attempt ∈ attempts) :
    endsMislabelled call.codec.toCodec attempt = false := by
  cases hlabel : endsMislabelled call.codec.toCodec attempt with
  | false => rfl
  | true =>
      obtain ⟨hkept, hsome⟩ := kept_mislabelled hlabel
      obtain ⟨usage, husage⟩ := Option.isSome_iff_exists.mp hsome
      cases hcombined : combineAttemptUsage (attempts.map (kept call)) with
      | none =>
          have := hcomplete.none_iff.mp hcombined _ (List.mem_map_of_mem hattempt)
          rw [husage] at this
          cases this
      | some known =>
          by_cases hlen : attempts.length = 1
          · obtain ⟨single, rfl⟩ := List.length_eq_one_iff.mp hlen
            rw [List.mem_singleton.mp hattempt] at hkept
            simp [combineAttemptUsage, hkept] at hcombined
          · have hkeptRecord := combineAttemptUsage_recorded _ known hcombined
              (by rwa [List.length_map])
            have hrecord := hrecorded known hcombined (by rwa [List.length_map])
            rw [hkeptRecord] at hrecord
            simp only [Json.obj.injEq, List.cons.injEq, Prod.mk.injEq, Json.arr.injEq,
              List.map_map, true_and, and_true, List.map_inj_left, Function.comp] at hrecord
            have := hrecord attempt hattempt
            rw [hkept, husage] at this
            exact absurd this.symm (reported_mislabelled hlabel husage).2.2

end Losses

/-- **The usage of one model call** is complete, with its native record, exactly if no
attempt ended at a mislabelled event that has counters; and it is complete without its
record only if the counters lost with such events are 0.  What a broken attempt reported
is read off the events it received. -/
theorem call_usage_complete (call : Call) (steps : List Step) (cancelled : Bool) :
    (Complete ((started call steps).map (reported call)) (complete call steps cancelled).usage ∧
        Recorded ((started call steps).map (reported call)) (complete call steps cancelled).usage
      ↔ ∀ attempt ∈ started call steps, endsMislabelled call.codec.toCodec attempt = false) ∧
    (Complete ((started call steps).map (reported call)) (complete call steps cancelled).usage →
      ∀ attempt ∈ started call steps, endsMislabelled call.codec.toCodec attempt = true →
        ∀ usage, reported call attempt = some usage →
          usage.inputTokens = 0 ∧ usage.outputTokens = 0) ∧
    ∀ attempt ∈ started call steps, ∀ entry carried,
      requestOnce call attempt = .raised entry carried →
        FromEvents call.codec.toCodec attempt (reported call attempt) := by
  rw [complete_usage]
  refine ⟨?_, ?_, ?_⟩
  · constructor
    · intro ⟨hcomplete, hrecorded⟩ attempt hattempt
      exact not_endsMislabelled_of_recorded hcomplete hrecorded hattempt
    · intro h
      rw [map_kept_eq h]
      exact ⟨combineAttemptUsage_complete _, combineAttemptUsage_recorded _⟩
  · intro hcomplete attempt hattempt hlost usage hreported
    obtain ⟨-, hsome⟩ := kept_mislabelled hlost
    cases hcombined : combineAttemptUsage ((started call steps).map (kept call)) with
    | none =>
        have := hcomplete.none_iff.mp hcombined _ (List.mem_map_of_mem hattempt)
        rw [this] at hreported
        cases hreported
    | some known =>
        have hkept := (combineAttemptUsage_complete _).some_complete known hcombined
        have hall := hcomplete.some_complete known hcombined
        constructor
        · exact counter_kept (fun _ _ h hr => (reported_mislabelled h hr).1)
            (hkept.input.symm.trans hall.input) hattempt hlost hreported
        · exact counter_kept (fun _ _ h hr => (reported_mislabelled h hr).2.1)
            (hkept.output.symm.trans hall.output) hattempt hlost hreported
  · intro attempt _ entry carried hraised
    rw [reported, hraised]
    exact brokenReport_fromEvents attempt

def sampleCall : Call where
  codec :=
    { jsonLoads := fun _ => .valueError
      toInt := Json.asInt?
      extractMarkup := fun text => .ok ([], some text)
      estimateMessagesTokens := fun _ _ => 1
      estimateOutputTokens := fun _ => 1
      jsonDumps := fun _ => ""
      sha256 := id
      estimateReplayTokens := fun _ _ => 1
      estimateTokens := fun _ => 1 }

/-- A terminal object with counters, of a status. -/
def sampleResponse (status : String) : Response where
  status := .str status
  usage := .obj [("input_tokens", .int 30), ("output_tokens", .int 7)]

/-- A failure after reported counters, an interrupted Chat stream, and a cancelled pause. -/
def sampleSteps : List Step :=
  [⟨.responses [.passive, .failed (some (sampleResponse "failed")) .null] true true, .retry⟩,
    ⟨.chat [{ usage := some (.obj [("prompt_tokens", .int 4)]) }] true, .replace⟩]

example : ((complete sampleCall sampleSteps false).usage.map fun usage =>
    (usage.inputTokens, usage.outputTokens, usage.estimated)) = some (34, 7, true) := by
  decide

/-- The counters of a `response.incomplete` event whose object has failed reach nobody. -/
theorem mislabelled_counters_lost :
    ¬ ∀ (call : Call) (steps : List Step) (cancelled : Bool),
      Complete ((started call steps).map (reported call))
        (complete call steps cancelled).usage := by
  intro h
  have hlost := h sampleCall
    [⟨.responses [.incomplete (some (sampleResponse "failed"))] true true, .raise⟩] false
  have hnone : reported sampleCall
      (.responses [.incomplete (some (sampleResponse "failed"))] true true) = none :=
    hlost.none_iff.mp (by decide) _ (List.mem_singleton.mpr rfl)
  exact absurd hnone (by decide)

/-- The usage of the sample call. -/
theorem call_usage_complete_sample :
    Complete ((started sampleCall sampleSteps).map (reported sampleCall))
      (complete sampleCall sampleSteps true).usage :=
  ((call_usage_complete sampleCall sampleSteps true).1.mpr (by decide)).1

end OpenCollab.AttemptUsage
