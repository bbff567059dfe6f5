import OpenCollab.Trace.Tracer

/-!
# OpenCollab.Trace.Recovery

A trace file and the tracers that are opened on it one after another: each
recovers the number of the last record from a bounded tail, and moves a file
aside whose end is damaged.

- `scanLines_lines`: what the loop of `_recover_trace_tail` reads of records.
- `recovered_good`: what a recovery that succeeds has found.
- `Good.act`: what each step keeps of the file.
- `trace_exact`: the account and the file, in every run.
-/

namespace OpenCollab.Trace

open LineFrames

/-- `_TRACE_RECOVERY_TAIL_BYTES`. -/
def traceRecoveryTailBytes : Nat := 1024 * 1024

/-! ## the recovery -/

/-- The variables of the loop of `_recover_trace_tail`. -/
structure Scan where
  latestStep : Nat := 0
  foundStep : Bool := false
  damaged : Bool := false

/-- `record.get("step")`, where it is an `int` (and no `bool`) above the latest. -/
def stepAbove (latest : Nat) (record : Json) : Option Nat :=
  match record.get "step" with
  | .int step => if (latest : Int) < step then some step.toNat else none
  | _ => none

/-- The loop; a `RecursionError` of `json.loads` leaves it. -/
def scanLines (loads : Bytes → JsonLoads) : List Bytes → Scan → Option Scan
  | [], s => some s
  | line :: lines, s => match loads line with
    | .recursionError => none
    | .valueError => scanLines loads lines { s with damaged := true }
    | .value record => match stepAbove s.latestStep record with
      | some step => scanLines loads lines { s with latestStep := step, foundStep := true }
      | none => scanLines loads lines { s with damaged := true }

/-- `_recover_trace_tail`: the latest step, whether a line boundary is missing, and whether
a record is damaged; `none` where it raises. -/
def recoverTraceTail (loads : Bytes → JsonLoads) (content : Bytes) : Option (Nat × Bool × Bool) :=
  if content = [] then some (0, false, false)
  else
    let start := content.length - traceRecoveryTailBytes
    match scanLines loads (tailLines start content) {} with
    | none => none
    | some s =>
        if s.foundStep then
          some (s.latestStep, (content.drop start).getLast? ≠ some 10, s.damaged)
        else none

/-! ## the file and its tracers -/

/-- The file, the files that have been moved aside, and the tracer that was opened last. -/
structure World where
  active : Option Bytes := none
  aside : List Bytes := []
  tracer : Option Tracer := none

/-- What the system does while a tracer is opened. -/
structure Opening where
  opens : Bool := true
  reads : Bool := true
  closes : Bool := true
  moves : Bool := true
  reopens : Bool := true
  boundary : Append

namespace World

def content (w : World) : Bytes := w.active.getD []

/-- `Tracer.__init__`, from the lease on.  A step that fails, or that the process does not
live to see, leaves what stands on the disk, and no tracer. -/
def openTracer (loads : Bytes → JsonLoads) (o : Opening) (w : World) : World :=
  if w.tracer.any (fun t => !t.returned) then w
  else if !o.opens then w
  else
    let created := { w with active := some w.content, tracer := none }
    if !o.reads then created
    else match recoverTraceTail loads w.content with
    | none => created
    | some (latest, boundary, damaged) =>
        if damaged then
          if !(o.closes && o.moves) then created
          else
            let moved := { active := none, aside := w.aside ++ [w.content] }
            if o.reopens then
              { moved with
                active := some []
                tracer := some { stepCounter := latest } }
            else moved
        else if boundary then
          let ended :=
            { created with active := some (w.content ++ (writeLockedText o.boundary [10]).1) }
          if (writeLockedText o.boundary [10]).2 then
            { ended with tracer := some { stepCounter := latest } }
          else ended
        else { created with tracer := some { stepCounter := latest } }

/-- The steps: a tracer is opened, the process dies, or a thread of the tracer goes on. -/
inductive Step where
  | openTracer (o : Opening)
  | crash
  | act (action : Action)

def step (loads : Bytes → JsonLoads) (w : World) : Step → World
  | .openTracer o => w.openTracer loads o
  | .crash => { w with tracer := none }
  | .act action => match w.tracer with
    | some t =>
        { w with active := some (w.content ++ t.output action), tracer := some (t.act action) }
    | none => w

/-- The record of a call is one that `json` can be relied on for. -/
def Writes (loads : Bytes → JsonLoads) (w : World) : Step → Prop
  | .act action => ∀ t, w.tracer = some t → t.Writes loads action
  | _ => True

/-- The lock of the file can be given back wherever the system took the whole record. -/
def Unlocks (w : World) : Step → Prop
  | .act action => ∀ t, w.tracer = some t → t.Unlocks action
  | _ => True

/-- The states of the runs on a path where no file is: in each, the lock can be given back
where a record has been written. -/
inductive Reached (loads : Bytes → JsonLoads) : World → Prop
  | start : Reached loads {}
  | next {w : World} {s : Step} : Reached loads w → w.Writes loads s → w.Unlocks s →
      Reached loads (w.step loads s)

/-- At the next append of the tracer, the file is one of complete records whose numbers
rise, up to the number of the record to come, which is above what was recovered. -/
def Continues (loads : Bytes → JsonLoads) (w : World) (t : Tracer) : Prop :=
  ∀ l, t.writer = .writing l → t.recovered < l.step ∧
    ∃ lines : List Line, w.content = lines.flatMap Line.text ∧ (∀ r ∈ lines, r.Dumped loads) ∧
      (lines ++ [l]).Pairwise (·.step < ·.step)

/-- What stood in the file stands in it, or the whole file has been moved aside. -/
def Keeps (w w' : World) : Prop :=
  (w'.aside = w.aside ∧ w.content <+: w'.content) ∨ w'.aside = w.aside ++ [w.content]

end World

/-! ## what the recovery finds -/

variable {loads : Bytes → JsonLoads}

/-- A file of records whose numbers rise, that ends in a part of one more. -/
structure File (loads : Bytes → JsonLoads) (lines : List Line) (torn : Bytes) : Prop where
  dumped : ∀ l ∈ lines, l.Dumped loads
  rising : lines.Pairwise (·.step < ·.step)
  positive : ∀ l ∈ lines, 0 < l.step
  torn_of : torn = [] ∨ ∃ l : Line, l.Dumped loads ∧ (lines ++ [l]).Pairwise (·.step < ·.step) ∧
    0 < l.step ∧
    torn <+: l.body

theorem stepAbove_of_get {record : Json} {latest step : Nat} (h : record.get "step" = .int step)
    (hlt : latest < step) : stepAbove latest record = some step := by
  rw [stepAbove, h]
  dsimp only
  rw [if_pos (by omega), Int.toNat_natCast]

/-- The loop takes the number of the last of the records. -/
theorem scanLines_lines {ls : List Line} (hdumped : ∀ l ∈ ls, l.Dumped loads)
    (hrising : ls.Pairwise (·.step < ·.step)) {s : Scan} (habove : ∀ l ∈ ls, s.latestStep < l.step)
    (rest : List Bytes) :
    scanLines loads (ls.map Line.body ++ rest) s = none ∨
      scanLines loads (ls.map Line.body ++ rest) s =
        scanLines loads rest
          { s with latestStep := (ls.getLast?.map Line.step).getD s.latestStep
                   foundStep := s.foundStep || !ls.isEmpty } := by
  induction ls generalizing s with
  | nil => exact .inr (by simp)
  | cons l ls ih =>
      obtain ⟨hfirst, hrest⟩ := List.pairwise_cons.mp hrising
      rw [List.map_cons, List.cons_append, scanLines]
      obtain hdeep | ⟨record, hvalue, hget⟩ := (hdumped l List.mem_cons_self).reads
      · rw [hdeep]
        exact .inl rfl
      · rw [hvalue]
        dsimp only
        rw [stepAbove_of_get hget (habove l List.mem_cons_self)]
        dsimp only
        obtain hnone | hsome := @ih (fun l hl => hdumped l (List.mem_cons_of_mem _ hl)) hrest
          { s with latestStep := l.step, foundStep := true } hfirst
        · exact .inl hnone
        · rw [hsome, List.getLast?_cons]
          cases ls.getLast? <;> exact .inr (by simp)

/-- The last of the records has the highest number. -/
theorem step_le_last {ls : List Line} (hrising : ls.Pairwise (·.step < ·.step)) {l : Line}
    (hl : l ∈ ls)
    (latest : Nat) : l.step ≤ (ls.getLast?.map Line.step).getD latest := by
  obtain ⟨front, last, rfl⟩ : ∃ front last, ls = front ++ [last] :=
    ⟨_, _, (List.dropLast_concat_getLast (List.ne_nil_of_mem hl)).symm⟩
  rw [List.getLast?_concat]
  obtain hmem | hmem := List.mem_append.mp hl
  · exact Nat.le_of_lt ((List.pairwise_append.mp hrising).2.2 l hmem last
      (List.mem_singleton_self _))
  · rw [List.mem_singleton.mp hmem]
    exact Nat.le_refl _

/-- The window shows the last of the lines, or none. -/
theorem drop_lines (lines : List Line) (torn : Bytes) (k : Nat) :
    (lines.map Line.body ++ unfinished torn).drop k =
        (lines.drop k).map Line.body ++ unfinished torn ∨
      (lines.map Line.body ++ unfinished torn).drop k = [] := by
  by_cases hk : k ≤ lines.length
  · refine .inl ?_
    rw [List.drop_append_of_le_length (by rw [List.length_map]; exact hk), List.map_drop]
  · refine .inr (List.drop_eq_nil_of_le ?_)
    have hshort : (unfinished torn).length ≤ 1 := by
      rw [unfinished]
      split <;> simp
    rw [List.length_append, List.length_map]
    omega

/-- The last byte says whether the last line is finished. -/
theorem getLast?_drop_frames {bodies : List Bytes} {torn : Bytes} {start : Nat}
    (hstart : start < (frames bodies ++ torn).length) (htorn : Unbroken torn) :
    decide (((frames bodies ++ torn).drop start).getLast? ≠ some 10) = decide (torn ≠ []) := by
  rw [List.getLast?_drop, if_neg (by omega)]
  by_cases hnil : torn = []
  · obtain rfl := hnil
    rw [List.append_nil] at hstart ⊢
    by_cases hbodies : bodies = []
    · simp [hbodies] at hstart
    · obtain ⟨front, last, rfl⟩ : ∃ front last, bodies = front ++ [last] :=
        ⟨_, _, (List.dropLast_concat_getLast hbodies).symm⟩
      simp [frames_append, frames_cons]
  · have hlast : torn.getLast hnil ≠ 10 := (htorn _ (List.getLast_mem hnil)).1
    rw [List.getLast?_append_of_ne_nil _ hnil, List.getLast?_eq_some_getLast hnil]
    simp [hlast, hnil]

/-- What a recovery has found: no number of the file is above the one it returns; and where
it calls nothing damaged, the file ends in a complete record, of which the newline may
be missing. -/
structure Recovered (loads : Bytes → JsonLoads) (lines : List Line) (torn : Bytes) (latest : Nat)
    (boundary damaged : Bool) : Prop where
  highest : ∀ l ∈ lines, l.step ≤ latest
  ends : damaged = false → (torn = [] ∧ boundary = false) ∨
    (boundary = true ∧ ∃ l : Line, l.Dumped loads ∧ torn = l.body ∧ l.step ≤ latest ∧
      (lines ++ [l]).Pairwise (·.step < ·.step) ∧ 0 < l.step)

/-- What the loop has found when it comes to the unfinished line, and what it does there. -/
theorem recovered_rest {lines shown : List Line} {torn : Bytes} (h : File loads lines torn)
    (hlast : ∀ l ∈ lines, shown ≠ [] → l.step ≤ (shown.getLast?.map Line.step).getD 0)
    (hsub : shown.Sublist lines) {latest : Nat} {boundary damaged : Bool}
    (hrecover : (match scanLines loads (unfinished torn)
        { latestStep := (shown.getLast?.map Line.step).getD 0
          foundStep := false || !shown.isEmpty } with
      | none => none
      | some s =>
          if s.foundStep then some (s.latestStep, decide (torn ≠ []), s.damaged) else none) =
      some (latest, boundary, damaged)) :
    Recovered loads lines torn latest boundary damaged := by
  have hfound : ∀ {damage : Bool}, (if (false || !shown.isEmpty) = true then
      some ((shown.getLast?.map Line.step).getD 0, decide (torn ≠ []), damage) else none) =
        some (latest, boundary, damaged) →
      (∀ l ∈ lines, l.step ≤ latest) ∧ decide (torn ≠ []) = boundary ∧ damage = damaged := by
    intro damage heq
    split at heq
    · rename_i hshown
      obtain ⟨rfl, rfl, rfl⟩ : (shown.getLast?.map Line.step).getD 0 = latest ∧
          decide (torn ≠ []) = boundary ∧ damage = damaged := by
        simpa only [Option.some.injEq, Prod.mk.injEq] using heq
      refine ⟨fun l hl => hlast l hl ?_, rfl, rfl⟩
      intro hnil
      simp [hnil] at hshown
    · contradiction
  obtain rfl | ⟨l, hl, hrising, hpos, hpart⟩ := h.torn_of
  · rw [unfinished, if_pos rfl, scanLines] at hrecover
    obtain ⟨hall, hboundary, -⟩ := hfound hrecover
    exact ⟨hall, fun _ => .inl ⟨rfl, by simpa using hboundary.symm⟩⟩
  · by_cases hnil : torn = []
    · obtain rfl := hnil
      rw [unfinished, if_pos rfl, scanLines] at hrecover
      obtain ⟨hall, hboundary, -⟩ := hfound hrecover
      exact ⟨hall, fun _ => .inl ⟨rfl, by simpa using hboundary.symm⟩⟩
    · rw [unfinished, if_neg hnil, scanLines] at hrecover
      by_cases hwhole : torn = l.body
      · -- only the newline is missing
        obtain rfl := hwhole
        obtain hdeep | ⟨record, hvalue, hget⟩ := hl.reads
        · rw [hdeep] at hrecover
          contradiction
        · have habove : (shown.getLast?.map Line.step).getD 0 < l.step := by
            cases hshown : shown.getLast? with
            | none => exact hpos
            | some last =>
                have hmem := hsub.subset (List.mem_of_getLast? hshown)
                exact (List.pairwise_append.mp hrising).2.2 last hmem l (List.mem_singleton_self l)
          rw [hvalue] at hrecover
          dsimp only at hrecover
          rw [stepAbove_of_get hget habove] at hrecover
          obtain ⟨rfl, rfl, rfl⟩ : l.step = latest ∧ decide (l.body ≠ []) = boundary ∧
            false = damaged := by
            simpa [scanLines] using hrecover
          refine ⟨fun r hr => ?_, fun _ =>
            .inr ⟨by simp [hnil], l, hl, rfl, Nat.le_refl _, hrising, hpos⟩⟩
          exact Nat.le_of_lt
            ((List.pairwise_append.mp hrising).2.2 r hr l (List.mem_singleton_self l))
      · obtain hvalue | hdeep := hl.torn torn hnil hpart hwhole
        · rw [hvalue] at hrecover
          dsimp only [scanLines] at hrecover
          obtain ⟨hall, -, hdamaged⟩ := hfound hrecover
          refine ⟨hall, fun hfalse => ?_⟩
          exact absurd (hdamaged.trans hfalse) Bool.noConfusion
        · rw [hdeep] at hrecover
          contradiction

/-- **What a recovery that succeeds has found.** -/
theorem recovered_good {lines : List Line} {torn : Bytes} (h : File loads lines torn)
    {latest : Nat} {boundary damaged : Bool}
    (hrecover : recoverTraceTail loads (frames (lines.map Line.body) ++ torn) =
      some (latest, boundary, damaged)) :
    Recovered loads lines torn latest boundary damaged := by
  have hbodies : ∀ body ∈ lines.map Line.body, Unbroken body := by
    intro body hbody
    obtain ⟨l, hl, rfl⟩ := List.mem_map.mp hbody
    exact Line.unbroken_body (h.dumped l hl).unbroken
  have htorn : Unbroken torn := by
    obtain rfl | ⟨l, hl, -, -, hpart⟩ := h.torn_of
    · intro b hb
      contradiction
    · exact (Line.unbroken_body hl.unbroken).of_front hpart
  rw [recoverTraceTail] at hrecover
  split at hrecover
  · -- an empty file
    rename_i hempty
    obtain ⟨rfl, rfl, rfl⟩ : 0 = latest ∧ false = boundary ∧ false = damaged := by
      simpa using hrecover
    obtain ⟨hnone, rfl⟩ := List.append_eq_nil_iff.mp hempty
    refine ⟨fun l hl => ?_, fun _ => .inl ⟨rfl, rfl⟩⟩
    have hmem : l.body ∈ lines.map Line.body := List.mem_map.mpr ⟨l, hl, rfl⟩
    cases hlines : lines.map Line.body with
    | nil => simp [hlines] at hmem
    | cons body bodies => simp [hlines, frames_cons] at hnone
  · rename_i hne
    dsimp only at hrecover
    have hlen := List.length_pos_iff.mpr hne
    have hstart : (frames (lines.map Line.body) ++ torn).length - traceRecoveryTailBytes <
        (frames (lines.map Line.body) ++ torn).length := Nat.sub_lt hlen (by decide)
    generalize (frames (lines.map Line.body) ++ torn).length - traceRecoveryTailBytes = start
      at hrecover hstart
    rw [getLast?_drop_frames hstart htorn] at hrecover
    obtain ⟨k, hk⟩ := tailLines_frames hbodies htorn start
    rw [hk] at hrecover
    obtain hwindow | hwindow := drop_lines lines torn k
    · have hsub : (lines.drop k).Sublist lines := List.drop_sublist k lines
      have hscan := @scanLines_lines loads (lines.drop k) (fun l hl => h.dumped l (hsub.subset hl))
        (h.rising.sublist hsub) {} (fun l hl => h.positive l (hsub.subset hl)) (unfinished torn)
      rw [hwindow] at hrecover
      have hlast : ∀ l ∈ lines, (lines.drop k) ≠ [] →
          l.step ≤ ((lines.drop k).getLast?.map Line.step).getD 0 := by
        intro l hl hsome
        have hk : ¬lines.length ≤ k := fun hle => hsome (List.drop_eq_nil_of_le hle)
        rw [List.getLast?_drop, if_neg hk]
        exact step_le_last h.rising hl 0
      obtain hnone | hsome := hscan
      · rw [hnone] at hrecover
        contradiction
      · rw [hsome] at hrecover
        exact recovered_rest h hlast hsub hrecover
    · rw [hwindow, scanLines] at hrecover
      contradiction

/-! ## the runs -/

theorem frames_map_body (lines : List Line) :
    frames (lines.map Line.body) = lines.flatMap Line.text := by
  rw [frames, List.flatMap_map]
  rfl

/-- The records of the tracer come behind those it has found. -/
theorem rising_append {base lines : List Line} {n : Nat} (hbase : base.Pairwise (·.step < ·.step))
    (hle : ∀ l ∈ base, l.step ≤ n) (hlines : lines.Pairwise (·.step < ·.step))
    (hlt : ∀ l ∈ lines, n < l.step) : (base ++ lines).Pairwise (·.step < ·.step) :=
  List.pairwise_append.mpr ⟨hbase, hlines,
    fun l hl r hr => Nat.lt_of_le_of_lt (hle l hl) (hlt r hr)⟩

/-- The file with what the tracer has appended to it. -/
theorem File.extend {base done : List Line} {torn : Bytes} {t : Tracer} (h : File loads base [])
    (hle : ∀ l ∈ base, l.step ≤ t.recovered) (ht : t.Accounts loads done torn) :
    File loads (base ++ done) torn := by
  have hsub : done.Sublist t.submitted := (List.sublist_append_left done t.pending).trans ht.order
  have hdone := rising_append h.rising hle (ht.rising.sublist hsub) fun l hl =>
    (ht.above l (hsub.subset hl)).1
  refine ⟨fun l hl => ?_, hdone, fun l hl => ?_, ?_⟩
  · obtain hl | hl := List.mem_append.mp hl
    · exact h.dumped l hl
    · exact ht.dumped l (hsub.subset hl)
  · obtain hl | hl := List.mem_append.mp hl
    · exact h.positive l hl
    · exact Nat.lt_of_le_of_lt (Nat.zero_le _) (ht.above l (hsub.subset hl)).1
  · refine ht.torn_of.imp_right fun hex => ?_
    obtain ⟨l, hl, hpart⟩ := hex
    have hmem := hl.subset (List.mem_append_right done (List.mem_singleton_self l))
    refine ⟨l, ht.dumped l hmem, ?_, Nat.lt_of_le_of_lt (Nat.zero_le _) (ht.above l hmem).1, hpart⟩
    rw [List.append_assoc]
    exact rising_append h.rising hle (ht.rising.sublist hl) fun r hr =>
      (ht.above r (hl.subset hr)).1

namespace World

/-- The file of a run: its records, and those of the tracer that was opened last. -/
structure Good (loads : Bytes → JsonLoads) (w : World) : Prop where
  file : ∃ lines torn, w.content = frames (lines.map Line.body) ++ torn ∧ File loads lines torn
  tracer : ∀ t, w.tracer = some t → w.active ≠ none ∧ ∃ base done torn,
    w.content = frames (base.map Line.body) ++ t.appended ∧ File loads base [] ∧
      (∀ l ∈ base, l.step ≤ t.recovered) ∧ t.Accounts loads done torn

variable {w : World}

theorem good_start : Good loads {} where
  file := ⟨[], [], rfl, ⟨by simp, List.Pairwise.nil, by simp, .inl rfl⟩⟩
  tracer := by simp

/-- No tracer is there. -/
theorem Good.of_file {lines : List Line} {torn : Bytes} (hnone : w.tracer = none)
    (hcontent : w.content = frames (lines.map Line.body) ++ torn) (hfile : File loads lines torn) :
    Good loads w where
  file := ⟨lines, torn, hcontent, hfile⟩
  tracer := by simp [hnone]

/-- A tracer has been opened on a file of complete records. -/
theorem Good.opened {lines : List Line} {content : Bytes} {latest : Nat}
    (hactive : w.active = some content)
    (htracer : w.tracer = some { stepCounter := latest })
    (hcontent : content = frames (lines.map Line.body)) (hfile : File loads lines [])
    (hle : ∀ l ∈ lines, l.step ≤ latest) : Good loads w where
  file := ⟨lines, [], by rw [World.content, hactive, hcontent, List.append_nil]; rfl, hfile⟩
  tracer := by
    intro t ht
    obtain rfl := Option.some.inj (htracer.symm.trans ht)
    refine ⟨by simp [hactive], lines, [], [], ?_, hfile, hle, Tracer.accounts_new latest⟩
    rw [World.content, hactive, hcontent, List.append_nil]
    rfl

/-- A front of a single newline. -/
theorem newline_part {part : Bytes} (h : part <+: [10]) : part = [] ∨ part = [10] := by
  obtain rfl | hpart := List.prefix_concat_iff.mp (show part <+: [] ++ [10] from h)
  · exact .inr rfl
  · exact .inl (List.prefix_nil.mp hpart)

theorem Good.openTracer (h : Good loads w) (o : Opening) : Good loads (w.openTracer loads o) := by
  obtain ⟨lines, torn, hcontent, hfile⟩ := h.file
  have hcreated : Good loads { w with active := some w.content, tracer := none } :=
    Good.of_file rfl hcontent hfile
  rw [World.openTracer]
  split
  · exact h
  · split
    · exact h
    · dsimp only
      split
      · exact hcreated
      · split
        · exact hcreated
        · rename_i latest boundary damaged hrecover
          rw [hcontent] at hrecover
          have hfound := recovered_good hfile hrecover
          have hempty : File loads [] [] := ⟨by simp, List.Pairwise.nil, by simp, .inl rfl⟩
          split
          · split
            · exact hcreated
            · split
              · exact @Good.opened loads _ [] [] latest rfl rfl rfl hempty (by simp)
              · exact @Good.of_file loads _ [] [] rfl rfl hempty
          · rename_i hundamaged
            obtain ⟨rfl, rfl⟩ | ⟨rfl, l, hl, rfl, hle, hrising, hpos⟩ :=
              hfound.ends (by simpa using hundamaged)
            · rw [if_neg Bool.false_ne_true]
              exact Good.opened rfl rfl (by rw [hcontent, List.append_nil]) hfile hfound.highest
            · -- the last record gets its newline
              have hwhole : File loads (lines ++ [l]) [] := by
                refine ⟨fun r hr => ?_, hrising, fun r hr => ?_, .inl rfl⟩
                · obtain hr | hr := List.mem_append.mp hr
                  · exact hfile.dumped r hr
                  · rw [List.mem_singleton.mp hr]
                    exact hl
                · obtain hr | hr := List.mem_append.mp hr
                  · exact hfile.positive r hr
                  · rw [List.mem_singleton.mp hr]
                    exact hpos
              have hends : w.content ++ [10] = frames ((lines ++ [l]).map Line.body) := by
                rw [hcontent, List.map_append, frames_append]
                simp [frames]
              rw [if_pos rfl]
              split
              · rename_i hdone
                rw [writeLockedText_done hdone, hends]
                refine Good.opened rfl rfl rfl hwhole fun r hr => ?_
                obtain hr | hr := List.mem_append.mp hr
                · exact hfound.highest r hr
                · rw [List.mem_singleton.mp hr]
                  exact hle
              · obtain hnil | hnewline := newline_part (writeLockedText_front o.boundary [10])
                · rw [hnil, List.append_nil]
                  exact hcreated
                · rw [hnewline, hends]
                  exact @Good.of_file loads _ (lines ++ [l]) [] rfl (List.append_nil _).symm hwhole

theorem Good.act (h : Good loads w) {t : Tracer} (ht : w.tracer = some t) {action : Action}
    (hwrites : t.Writes loads action) (hunlocks : t.Unlocks action) :
    Good loads (w.step loads (.act action)) := by
  obtain ⟨-, base, done, torn, hcontent, hbase, hle, haccounts⟩ := h.tracer t ht
  obtain ⟨done', torn', hnext⟩ := haccounts.act hwrites hunlocks
  have hle' : ∀ l ∈ base, l.step ≤ (t.act action).recovered := by
    rw [Tracer.recovered_act]
    exact hle
  have hafter : w.content ++ t.output action =
    frames (base.map Line.body) ++ (t.act action).appended := by
    rw [hcontent, Tracer.appended_act, List.append_assoc]
  rw [World.step]
  simp only [ht]
  refine ⟨⟨base ++ done', torn', ?_, hbase.extend hle' hnext⟩, fun t' ht' => ?_⟩
  · change w.content ++ t.output action = _
    rw [hafter, hnext.appended, List.map_append, frames_append, List.append_assoc]
  · obtain rfl := Option.some.inj ht'
    exact ⟨Option.some_ne_none _, base, done', torn', hafter, hbase, hle', hnext⟩

theorem Good.step (h : Good loads w) {s : Step} (hwrites : w.Writes loads s)
    (hunlocks : w.Unlocks s) :
    Good loads (w.step loads s) := by
  cases s with
  | openTracer o => exact h.openTracer o
  | crash =>
      obtain ⟨lines, torn, hcontent, hfile⟩ := h.file
      exact Good.of_file rfl hcontent hfile
  | act action =>
      cases ht : w.tracer with
      | none =>
          rw [World.step]
          simp only [ht]
          exact h
      | some t => exact h.act ht (hwrites t ht) (hunlocks t ht)

theorem Reached.good (h : Reached loads w) : w.Good loads := by
  induction h with
  | start => exact good_start
  | next _ hwrites hunlocks ih => exact ih.step hwrites hunlocks

/-- Every step keeps what stands in the file. -/
theorem keeps_step (w : World) (s : Step) : w.Keeps (w.step loads s) := by
  have hsame : ∀ tracer, w.Keeps { w with active := some w.content, tracer } :=
    fun _ => .inl ⟨rfl, List.prefix_refl _⟩
  cases s with
  | openTracer o =>
      rw [World.step, World.openTracer]
      split
      · exact .inl ⟨rfl, List.prefix_refl _⟩
      · split
        · exact .inl ⟨rfl, List.prefix_refl _⟩
        · dsimp only
          split
          · exact hsame none
          · split
            · exact hsame none
            · split
              · split
                · exact hsame none
                · split <;> exact .inr rfl
              · split
                · split <;> exact .inl ⟨rfl, List.prefix_append _ _⟩
                · exact hsame _
  | crash => exact .inl ⟨rfl, List.prefix_refl _⟩
  | act action =>
      rw [World.step]
      split
      · exact .inl ⟨rfl, List.prefix_append _ _⟩
      · exact .inl ⟨rfl, List.prefix_refl _⟩

theorem Good.continues (h : Good loads w) {t : Tracer} (ht : w.tracer = some t) :
    w.Continues loads t := by
  intro l hwriting
  obtain ⟨-, base, done, torn, hcontent, hbase, hle, haccounts⟩ := h.tracer t ht
  obtain rfl := haccounts.writing l hwriting
  have hnext := haccounts.next hwriting
  have hmem := hnext.subset (List.mem_append_right done (List.mem_singleton_self l))
  refine ⟨(haccounts.above l hmem).1, base ++ done, ?_, (hbase.extend hle haccounts).dumped, ?_⟩
  · rw [hcontent, haccounts.appended, List.append_nil, ← frames_append, ← List.map_append,
      frames_map_body]
  · rw [List.append_assoc]
    exact rising_append hbase.rising hle (haccounts.rising.sublist hnext)
      fun r hr => (haccounts.above r (hnext.subset hr)).1

/-- **The trace is exact**, in the runs in which the file's lock can be given back wherever a
record has been written: the account of each tracer, whose bytes are the end of the file, the
file before each append, and what becomes of the records that stand in it. -/
theorem trace_exact (h : Reached loads w) :
    (∀ t, w.tracer = some t → t.Exact ∧ t.appended <:+ w.content ∧ w.Continues loads t) ∧
      ∀ s, w.Keeps (w.step loads s) := by
  refine ⟨fun t ht => ?_, fun s => keeps_step w s⟩
  obtain ⟨-, base, done, torn, hcontent, -, -, haccounts⟩ := h.good.tracer t ht
  exact ⟨haccounts.exact, ⟨_, hcontent.symm⟩, h.good.continues ht⟩

/-- The record of the runs below, with its number. -/
def sampleLine (n : Nat) : Line := ⟨n, asciiBytes "\x7b\"aid\": null\x7d"⟩

/-- `json.loads`, on the texts of the first records and on texts that are no JSON. -/
def sampleLoads (text : Bytes) : JsonLoads :=
  match (List.range 10).find? fun n => text = (sampleLine n).body with
  | some n => .value (.obj [("step", .int n), ("aid", .null)])
  | none => .valueError

theorem sampleLine_dumped {n : Nat} (h : n < 10) : (sampleLine n).Dumped sampleLoads where
  unbroken := by
    have hserialized : ∀ b ∈ (sampleLine 0).serialized, b ≠ 10 ∧ b ≠ 13 := by decide
    exact hserialized
  reads := by
    have hfind : ∀ n < 10,
        (List.range 10).find? (fun k => (sampleLine n).body = (sampleLine k).body) = some n := by
      decide
    refine .inr ⟨.obj [("step", .int n), ("aid", .null)], ?_, by simp [Json.get, Json.get?]; rfl⟩
    rw [sampleLoads, hfind n h]
  torn := by
    intro front _ hfront hne
    have hlength : ∀ n < 10, (sampleLine n).body.length = 22 := by decide
    have hnone : (List.range 10).find? (fun k => front = (sampleLine k).body) = none := by
      rw [List.find?_eq_none]
      intro k hk heq
      refine hne (hfront.eq_of_length ?_)
      rw [of_decide_eq_true heq, hlength k (List.mem_range.mp hk), hlength n h]
    rw [sampleLoads, hnone]
    exact .inl rfl

/-- Steps of the threads. -/
def acts (w : World) (actions : List Action) : World :=
  actions.foldl (fun w action => w.step sampleLoads (.act action)) w

/-- A step that logs nothing and appends nothing. -/
def isQuiet : Action → Bool
  | .logStep _ | .write _ => false
  | _ => true

theorem Reached.acts (h : Reached sampleLoads w) {actions : List Action}
    (hquiet : actions.all isQuiet = true) : Reached sampleLoads (w.acts actions) := by
  induction actions generalizing w with
  | nil => exact h
  | cons action actions ih =>
      rw [List.all_cons, Bool.and_eq_true] at hquiet
      refine ih (.next h (fun t _ => ?_) fun t _ => ?_) hquiet.2
      · cases action <;> first | trivial | exact absurd hquiet.1 Bool.false_ne_true
      · cases action <;> first | trivial | exact absurd hquiet.1 Bool.false_ne_true

/-- The record is logged. -/
def logged (w : World) : World := w.step sampleLoads (.act (.logStep (sampleLine 0).serialized))

theorem Reached.logged (h : Reached sampleLoads w)
    (hnumber : w.tracer.all (·.stepCounter < 9) = true) : Reached sampleLoads w.logged := by
  refine .next h (fun t ht => ?_) fun t _ => trivial
  rw [ht, Option.all_some, decide_eq_true_eq] at hnumber
  exact sampleLine_dumped (Nat.succ_lt_succ hnumber)

/-- The record that is in the writer's hands is appended, as far as the system takes it. -/
def written (w : World) (writes : List (Option Nat)) : World :=
  w.step sampleLoads (.act (.write { writes }))

theorem Reached.written (h : Reached sampleLoads w) (writes : List (Option Nat)) :
    Reached sampleLoads (w.written writes) :=
  .next h (fun _ _ => trivial) fun _ _ _ _ => .inl rfl

/-- A tracer on the file. -/
def opened (w : World) : World := w.step sampleLoads (.openTracer { boundary := { writes := [] } })

/-- A record that is written, and one whose write fails in its midst. -/
def failedWorld : World :=
  (((((opened {}).logged.acts [.get, .handle true]).written [some 23]).logged.acts
    [.get, .handle true]).written [some 5, none]).acts [.latch]

/-- One more record, which is dropped, and the end of the tracer. -/
def closedWorld : World :=
  failedWorld.logged.acts [.close, .putClose, .get, .handle true, .writerJoined]

/-- A tracer that is opened behind it moves the damaged file aside, and is about to append. -/
def reopenedWorld : World := closedWorld.opened.logged.acts [.get, .handle true]

theorem reached_closedWorld : Reached sampleLoads closedWorld := by
  have hopened : Reached sampleLoads (opened {}) := .next .start trivial trivial
  have htaken : [Action.get, .handle true].all isQuiet = true := by decide
  have hfirst := ((hopened.logged (by decide)).acts htaken).written [some 23]
  have hsecond := ((hfirst.logged (by decide)).acts htaken).written [some 5, none]
  have hfailed : Reached sampleLoads failedWorld := hsecond.acts (by decide)
  exact (hfailed.logged (by decide)).acts (by decide)

theorem reached_reopenedWorld : Reached sampleLoads reopenedWorld := by
  have hopened : Reached sampleLoads closedWorld.opened :=
    .next reached_closedWorld trivial trivial
  exact (hopened.logged (by decide)).acts (by decide)

/-- Of three calls one is in the file when the tracer is closed; the next tracer goes on behind
the number it finds there. -/
theorem trace_exact_sample :
    (∀ t, closedWorld.tracer = some t → t.returned = true ∧ t.calls = 3 ∧
      (completeLines t.appended).length + t.droppedSteps = 3) ∧
    (∀ t, reopenedWorld.tracer = some t → t.Exact ∧ t.appended <:+ reopenedWorld.content ∧
      reopenedWorld.Continues sampleLoads t) ∧
    reopenedWorld.tracer.map (·.writer) = some (.writing (sampleLine 2)) ∧
    ∀ s, reopenedWorld.Keeps (reopenedWorld.step sampleLoads s) := by
  obtain ⟨hreopened, hkeeps⟩ := trace_exact reached_reopenedWorld
  refine ⟨fun t ht => ?_, hreopened, by decide, hkeeps⟩
  have hexact := ((trace_exact reached_closedWorld).1 t ht).1.1
  have hclosed : ∀ t ∈ closedWorld.tracer, t.returned = true ∧ t.calls = 3 := by decide
  obtain ⟨hreturned, hcalls⟩ := hclosed t ht
  exact ⟨hreturned, hcalls, by rw [← hexact hreturned, hcalls]⟩

/-- **A record whose write ends in an error of the unlock** is in the file and is counted as
dropped. -/
theorem unlock_failure_counted :
    ¬∀ actions : List Action, (actions.foldl Tracer.act { stepCounter := 0 }).Exact := by
  intro h
  have hcount := (h [.logStep (sampleLine 1).serialized, .get, .handle true,
    .write { writes := [some 23], unlocks := false }, .latch, .close, .putClose, .get, .handle true,
    .writerJoined]).1
  revert hcount
  decide

end World

end OpenCollab.Trace
