import OpenCollab.Transfer.Pack

/-!
# OpenCollab.Transfer.Publish

`publish`: an unpacked payload is moved, child by child, into a destination
directory that is empty but for the staging directory the payload stands in.

- `moveChildren_spec`: what the loop of renames leaves.
- `start_spec`: what is done before the loop.
- `transfer_exact`: the round trip, the confinement, and when a publication is
  whole.
-/

namespace OpenCollab.Transfer

/-- The tree after `os.rename` of a node with what stands beneath it. -/
def Files.move (fs : Files) (old new : Path) : Files := fun q =>
  if new <+: q then fs (old ++ q.drop new.length)
  else if old <+: q then none
  else fs q

section
variable (cred : Credentials)

/-- `os.rename(c, c, src_dir_fd=source, dst_dir_fd=target)` succeeds where no `c` is in the
target; for a directory, `..` has to be rewritten. -/
def movable (fs : Files) (source target : Path) (c : Name) : Bool :=
  grants cred fs source (writeBit + searchBit) &&
    grants cred fs target (writeBit + searchBit) &&
    (fs (target ++ [c])).isNone &&
    match fs (source ++ [c]) with
    | none => false
    | some (.dir mode) => allows cred (source ++ [c]) mode writeBit
    | some _ => true

/-- The loop of renames, and whether it comes to its end. -/
def moveChildren (source target : Path) : Files → List Name → Files × Bool
  | fs, [] => (fs, true)
  | fs, c :: rest =>
      if movable cred fs source target c then
        moveChildren source target (fs.move (source ++ [c]) (target ++ [c])) rest
      else (fs, false)

/-- `_absolute_parent`. -/
def absoluteParent (create : Bool) (fs : Files) (path : Path) : Files × Option (Path × Name) :=
  match path.getLast? with
  | none => (fs, none)
  | some name =>
      if path.any fun c => c = [] || c = dot || c = dotdot then (fs, none)
      else match openParents cred create fs [] path.dropLast with
        | (fs, none) => (fs, none)
        | (fs, some parent) => (fs, some (parent, name))

/-- The entries that stand in the way of a publication: all but the payload's own staging
directory. -/
def entries (payload target : Path) (names : List Name) : List Name :=
  if payload.dropLast.dropLast.dropLast = target ∧ payload.dropLast.dropLast ≠ [] then
    names.filter fun c => payload.dropLast.dropLast.getLast? ≠ some c
  else names

/-- `publish` of a directory, up to its loop: the tree, and the two directories with the
payload's mode unless it raises.  `targetNames` is what `os.listdir` returns. -/
def publishStart (fs : Files) (payload destination : Path) (targetNames : List Name) :
    Files × Option (Path × Path × Nat) :=
  match absoluteParent cred false fs payload with
  | (fs, none) => (fs, none)
  | (fs, some (sourceParent, sourceName)) =>
    match absoluteParent cred true fs destination with
    | (fs, none) => (fs, none)
    | (fs, some (parent, name)) =>
        let made := (makeEntry cred fs parent name (.dir ownerBits)).getD fs
        match openDirectory cred made parent name with
        | .dir target =>
            if grants cred made sourceParent searchBit ∧
                cred.owns (sourceParent ++ [sourceName]) then
              match made (sourceParent ++ [sourceName]) with
              | some (.dir mode) =>
                  let widened := made.set (sourceParent ++ [sourceName]) (.dir (mode ||| ownerBits))
                  if entries payload target targetNames = [] then
                    (widened, some (sourceParent ++ [sourceName], target, mode))
                  else (widened, none)
              | some (.file mode content) =>
                  (made.set (sourceParent ++ [sourceName])
                    (.file (mode ||| ownerBits) content), none)
              | _ => (made, none)
            else (made, none)
        | _ => (made, none)

/-- `publish(payload, destination, directory=True)`; `sourceNames` is what `os.listdir` returns
for the payload. -/
def publishDirectory (fs : Files) (payload destination : Path)
    (targetNames sourceNames : List Name) :
    Files × Bool :=
  match publishStart cred fs payload destination targetNames with
  | (fs, none) => (fs, false)
  | (fs, some (source, target, mode)) =>
    match moveChildren cred source target fs sourceNames with
    | (fs, true) =>
        -- `os.fchmod(target, source_mode)`, after the renames
        if cred.owns target then (fs.set target (.dir mode), true) else (fs, false)
    | (fs, false) => (fs, false)

end

/-! ## the loop of renames -/

variable {cred : Credentials} {P D : Path}

/-- A place in the payload is not one in the destination. -/
theorem not_below {c : Name} (hPD : ¬P <+: D) (hc : ¬D ++ [c] <+: P) (c' : Name) (r : Path) :
    ¬D ++ [c] <+: P ++ c' :: r := by
  intro hpre
  have hP : P <+: P ++ c' :: r := List.prefix_append _ _
  obtain hle | hle := Nat.le_total (D ++ [c]).length P.length
  · exact hc (List.prefix_of_prefix_length_le hpre hP hle)
  · have hshort := List.prefix_of_prefix_length_le hP hpre hle
    obtain heq | hD := List.prefix_concat_iff.mp hshort
    · exact hc (heq ▸ List.prefix_refl _)
    · exact hPD hD

/-- A place in the destination is not one in the payload. -/
theorem not_inside {c : Name} (hPD : ¬P <+: D) {c' : Name} (hc : ¬D ++ [c'] <+: P) (r : Path) :
    ¬P ++ [c] <+: D ++ c' :: r := by
  intro hpre
  have hD : D ++ [c'] <+: D ++ c' :: r := ⟨r, by simp⟩
  have hP : P <+: D ++ c' :: r := (List.prefix_append P [c]).trans hpre
  obtain hle | hle := Nat.le_total (D ++ [c']).length P.length
  · exact hc (List.prefix_of_prefix_length_le hD hP hle)
  · obtain heq | hshort := List.prefix_concat_iff.mp (List.prefix_of_prefix_length_le hP hD hle)
    · exact hc (heq ▸ List.prefix_refl _)
    · exact hPD hshort

/-- A sibling's inside lies apart. -/
theorem sibling_apart {A : Path} {c c' : Name} (hne : c ≠ c') (r : Path) :
    ¬A ++ [c] <+: A ++ c' :: r := by
  intro hpre
  have := (List.prefix_append_right_inj A).mp hpre
  exact hne (List.cons_prefix_cons.mp this).1

/-- A directory does not lie in its child. -/
theorem not_below_self {A : Path} (c : Name) : ¬A ++ [c] <+: A := by
  intro hpre
  have := hpre.length_le
  rw [List.length_append, List.length_singleton] at this
  omega

variable {fs : Files}

/-- A moved tree is found under its new name. -/
theorem move_new (c : Name) (r : Path) :
    fs.move (P ++ [c]) (D ++ [c]) (D ++ c :: r) = fs (P ++ c :: r) := by
  have hpre : D ++ [c] <+: D ++ c :: r := ⟨r, by simp⟩
  have hdrop : (D ++ c :: r).drop (D ++ [c]).length = r := by
    rw [show D ++ c :: r = (D ++ [c]) ++ r by simp, List.drop_left]
  rw [Files.move, if_pos hpre, hdrop, List.append_assoc, List.singleton_append]

/-- A move leaves what lies apart as it is. -/
theorem move_frame {old new q : Path} (hnew : ¬new <+: q) (hold : ¬old <+: q) :
    fs.move old new q = fs q := by
  rw [Files.move, if_neg hnew, if_neg hold]

/-- Nothing is left under the old name. -/
theorem move_old {old new q : Path} (hnew : ¬new <+: q) (hold : old <+: q) :
    fs.move old new q = none := by
  rw [Files.move, if_neg hnew, if_pos hold]

/-- What stands in the way of a name in the destination stays there. -/
def Anchored (P D : Path) (fs : Files) : Prop := ∀ c, D ++ [c] <+: P → fs (D ++ [c]) ≠ none

/-- What can be moved does not hold the payload. -/
theorem Anchored.movable (h : Anchored P D fs) {c : Name}
    (hmov : movable cred fs P D c = true) :
    ¬D ++ [c] <+: P := by
  intro hpre
  simp only [Transfer.movable, Bool.and_eq_true, Option.isNone_iff_eq_none] at hmov
  exact h c hpre hmov.1.2

/-- A rename changes nothing about the other children. -/
theorem move_others (hPD : ¬P <+: D) {c : Name} (hc : ¬D ++ [c] <+: P) {c' : Name} (hne : c ≠ c') :
    (∀ r, fs.move (P ++ [c]) (D ++ [c]) (P ++ c' :: r) = fs (P ++ c' :: r)) ∧
      fs.move (P ++ [c]) (D ++ [c]) (D ++ [c']) = fs (D ++ [c']) ∧
      movable cred (fs.move (P ++ [c]) (D ++ [c])) P D c' = movable cred fs P D c' := by
  have hsource : ∀ r, fs.move (P ++ [c]) (D ++ [c]) (P ++ c' :: r) = fs (P ++ c' :: r) :=
    fun r => move_frame (not_below hPD hc c' r) (sibling_apart hne r)
  have htarget : fs.move (P ++ [c]) (D ++ [c]) (D ++ [c']) = fs (D ++ [c']) := by
    refine move_frame (sibling_apart hne []) fun hpre => ?_
    obtain heq | hshort := List.prefix_concat_iff.mp hpre
    · exact hPD ((List.append_inj_left' heq rfl) ▸ List.prefix_refl _)
    · exact hPD ((List.prefix_append _ _).trans hshort)
  have hD : fs.move (P ++ [c]) (D ++ [c]) D = fs D :=
    move_frame (not_below_self c) fun hpre => hPD ((List.prefix_append _ _).trans hpre)
  have hP : fs.move (P ++ [c]) (D ++ [c]) P = fs P := move_frame hc (not_below_self c)
  have hchild := hsource []
  refine ⟨hsource, htarget, ?_⟩
  rw [movable, movable, grants, grants, grants, grants, hP, hD, htarget, hchild]

/-- **The loop of renames.** -/
theorem moveChildren_spec (hPD : ¬P <+: D) {names : List Name} (hnodup : names.Nodup)
    (hanchored : Anchored P D fs) :
    ((moveChildren cred P D fs names).2 = true ↔
      ∀ c ∈ names, movable cred fs P D c = true) ∧
      (∀ q, (∀ c ∈ names, movable cred fs P D c = true → ¬D ++ [c] <+: q ∧ ¬P ++ [c] <+: q) →
        (moveChildren cred P D fs names).1 q = fs q) ∧
      ((∀ c ∈ names, movable cred fs P D c = true) → ∀ c ∈ names, ∀ r,
        (moveChildren cred P D fs names).1 (D ++ c :: r) = fs (P ++ c :: r)) ∧
      ∀ c, names.head? = some c → movable cred fs P D c = true →
        (moveChildren cred P D fs names).1 (P ++ [c]) = none := by
  induction names generalizing fs with
  | nil => simp [moveChildren]
  | cons c names ih =>
      obtain ⟨hfresh, hnodup⟩ := List.nodup_cons.mp hnodup
      rw [moveChildren]
      by_cases hmov : movable cred fs P D c = true
      · have hc := hanchored.movable hmov
        have hothers : ∀ c' ∈ names, c ≠ c' := fun c' hc' heq => hfresh (heq ▸ hc')
        have hsame : ∀ c' ∈ names, movable cred (fs.move (P ++ [c]) (D ++ [c])) P D c' =
            movable cred fs P D c' :=
          fun c' hc' => (move_others hPD hc (hothers c' hc')).2.2
        have hnext : Anchored P D (fs.move (P ++ [c]) (D ++ [c])) := by
          intro c' hpre
          have hne : c ≠ c' := fun heq => hc (heq ▸ hpre)
          rw [(@move_others cred P D fs hPD c hc c' hne).2.1]
          exact hanchored c' hpre
        obtain ⟨hok, hframe, hmoved, -⟩ := ih hnodup hnext
        rw [if_pos hmov]
        have hfirst : ∀ c' ∈ names, movable cred fs P D c' = true → ¬D ++ [c'] <+: P :=
          fun c' _ hc' => hanchored.movable hc'
        refine ⟨?_, fun q hq => ?_, fun hall c' hc' r => ?_, fun c' hhead _ => ?_⟩
        · rw [hok]
          constructor
          · intro hall c' hc'
            obtain rfl | hc' := List.mem_cons.mp hc'
            · exact hmov
            · rw [← hsame c' hc']
              exact hall c' hc'
          · intro hall c' hc'
            rw [hsame c' hc']
            exact hall c' (List.mem_cons_of_mem _ hc')
        · obtain ⟨hnew, hold⟩ := hq c List.mem_cons_self hmov
          rw [hframe q fun c' hc' hmov' =>
            hq c' (List.mem_cons_of_mem _ hc') (hsame c' hc' ▸ hmov'),
            move_frame hnew hold]
        · have hrest : ∀ c' ∈ names, movable cred (fs.move (P ++ [c]) (D ++ [c])) P D c' =
            true := by
            intro c' hc'
            rw [hsame c' hc']
            exact hall c' (List.mem_cons_of_mem _ hc')
          obtain rfl | hc' := List.mem_cons.mp hc'
          · rw [hframe, move_new]
            intro c'' hc'' _
            exact ⟨sibling_apart (hothers c'' hc'').symm r, not_inside hPD hc r⟩
          · rw [hmoved hrest c' hc' r,
              (@move_others cred P D fs hPD c hc c' (hothers c' hc')).1]
        · obtain rfl := Option.some.inj hhead
          rw [hframe, move_old (not_below hPD hc c []) (List.prefix_refl _)]
          intro c'' hc'' hmov''
          rw [hsame c'' hc''] at hmov''
          exact ⟨not_below hPD (hfirst c'' hc'' hmov'') c [],
            sibling_apart (hothers c'' hc'').symm []⟩
      · rw [if_neg hmov]
        refine ⟨?_, fun _ _ => rfl, ?_, ?_⟩
        · constructor
          · intro hfalse
            contradiction
          · intro hall
            exact absurd (hall c List.mem_cons_self) hmov
        · intro hall
          exact absurd (hall c List.mem_cons_self) hmov
        · intro c' hhead hmov'
          obtain rfl := Option.some.inj hhead
          exact absurd hmov' hmov

/-! ## before the loop -/

/-- Opening a parent makes directories at most. -/
theorem openParents_creates (create : Bool) (fs : Files) (fd : Path) (names : List Name)
    (q : Path) :
    (openParents cred create fs fd names).1 q = fs q ∨ fs q = none := by
  fun_induction openParents cred create fs fd names with
  | case1 fs fd => exact .inl rfl
  | case2 fs fd c rest path hopen ih => exact ih
  | case3 fs fd c rest hopen => exact .inl rfl
  | case4 fs fd c rest hopen hcreate hmade => exact .inl rfl
  | case5 fs fd c rest hopen hcreate made hmade path hdir ih =>
      obtain ⟨rfl, hnone⟩ := makeEntry_some hmade
      by_cases hq : q = resolve fd c
      · exact .inr (hq ▸ hnone)
      · rw [Files.set_ne fs _ hq] at ih
        exact ih
  | case6 fs fd c rest hopen hcreate made hmade hdir =>
      obtain ⟨rfl, hnone⟩ := makeEntry_some hmade
      by_cases hq : q = resolve fd c
      · exact .inr (hq ▸ hnone)
      · exact .inl (Files.set_ne fs _ hq)
  | case7 fs fd c rest hopen hcreate => exact .inl rfl

/-- What is created is created on the way to the destination. -/
def Creates (D : Path) (before after : Files) : Prop :=
  ∀ q, after q = before q ∨ (before q = none ∧ q <+: D)

/-- Nothing made. -/
theorem Creates.refl (fs : Files) : Creates D fs fs := fun _ => .inl rfl

/-- Making directories composes. -/
theorem Creates.trans {fs' fs'' : Files} (h : Creates D fs fs') (h' : Creates D fs' fs'') :
    Creates D fs fs'' := by
  intro q
  obtain heq | hnew := h q
  · rw [← heq]
    exact h' q
  · exact .inr hnew

/-- The walk to a parent only makes directories, and ends at the parent and a proper name. -/
theorem absoluteParent_spec {create : Bool} {path : Path} (hpath : path <+: D) :
    Creates D fs (absoluteParent cred create fs path).1 ∧
      ∀ parent name, (absoluteParent cred create fs path).2 = some (parent, name) →
        parent ++ [name] = path ∧ name ≠ dot ∧ name ≠ dotdot := by
  have hstop : Creates D fs fs ∧
    ∀ parent name, (none : Option (Path × Name)) = some (parent, name) →
      parent ++ [name] = path ∧ name ≠ dot ∧ name ≠ dotdot := ⟨Creates.refl _, by simp⟩
  rw [absoluteParent]
  split
  · exact hstop
  · rename_i name hlast
    split
    · exact hstop
    · rename_i hclean
      have hall : ∀ c ∈ path, c ≠ dot ∧ c ≠ dotdot := by
        intro c hc
        simp only [List.any_eq_true, not_exists, not_and] at hclean
        have := hclean c hc
        simp at this
        exact ⟨this.1.2, this.2⟩
      have hjoin : path.dropLast ++ [name] = path := List.dropLast_append_getLast? name hlast
      obtain ⟨hgrows, hparent⟩ := @openParents_grows cred create path.dropLast
        (fun c hc => hall c (List.mem_of_mem_dropLast hc)) fs []
      have hcreates : Creates D fs (openParents cred create fs [] path.dropLast).1 := by
        intro q
        obtain heq | ⟨-, -, ⟨-, front, -, hfront, hq⟩, -⟩ := hgrows q
        · exact .inl heq
        · obtain heq | hnone := openParents_creates create fs [] path.dropLast q
          · exact .inl heq
          · rw [List.nil_append] at hq
            rw [← hq] at hfront
            exact .inr ⟨hnone, (hfront.trans (List.dropLast_prefix _)).trans hpath⟩
      split
      · rename_i fs' hopen
        rw [hopen] at hcreates
        exact ⟨hcreates, by simp⟩
      · rename_i fs' parent hopen
        rw [hopen] at hcreates hparent
        refine ⟨hcreates, fun parent' name' heq => ?_⟩
        obtain ⟨rfl, rfl⟩ := Prod.mk.inj (Option.some.inj heq)
        obtain rfl := hparent parent rfl
        exact ⟨hjoin, hall name (by rw [← hjoin]; simp)⟩

/-- Opening what has to be there already creates nothing. -/
theorem openParents_false (fs : Files) (fd : Path) (names : List Name) :
    (openParents cred false fs fd names).1 = fs := by
  induction names generalizing fd with
  | nil => rfl
  | cons c rest ih =>
      rw [openParents]
      split
      · exact ih _
      · rfl
      · rw [if_neg Bool.false_ne_true]

/-- Without `create` the walk makes nothing. -/
theorem absoluteParent_false (fs : Files) (path : Path) :
    (absoluteParent cred false fs path).1 = fs := by
  have hsame := @openParents_false cred fs [] path.dropLast
  rw [absoluteParent]
  split
  · rfl
  · split
    · rfl
    · split
      · rename_i fs' hopen
        rw [hopen] at hsame
        exact hsame
      · rename_i fs' parent hopen
        rw [hopen] at hsame
        exact hsame

/-- The tree is as it was but for the mode of the payload and what was created on the way to
the destination. -/
def Unmoved (P D : Path) (before after : Files) : Prop :=
  ∀ q, q ≠ P → after q = before q ∨ (before q = none ∧ q <+: D)

/-- Directories on the way move nothing. -/
theorem Creates.unmoved {fs' : Files} (h : Creates D fs fs') : Unmoved P D fs fs' := fun q _ => h q

/-- Neither does the payload's own directory. -/
theorem Creates.set_unmoved {fs' : Files} (h : Creates D fs fs') (node : Node) :
    Unmoved P D fs (fs'.set P node) := by
  intro q hq
  rw [Files.set_ne _ _ hq]
  exact h q

/-- What has been found before the loop. -/
structure Started (P D : Path) (before after : Files) (names : List Name) (mode : Nat) : Prop where
  payload : before P = some (.dir mode)
  widened : after P = some (.dir (mode ||| ownerBits))
  entries : Transfer.entries P D names = []

/-- **What is done before the loop.** -/
theorem start_spec (hPD : ¬P <+: D) (names : List Name) :
    Unmoved P D fs (publishStart cred fs P D names).1 ∧
      ∀ source target mode, (publishStart cred fs P D names).2 = some (source, target, mode) →
        source = P ∧ target = D ∧
          Started P D fs (publishStart cred fs P D names).1 names mode := by
  have hstop : ∀ fs', Creates D fs fs' → Unmoved P D fs fs' ∧
      ∀ source target mode, (none : Option (Path × Path × Nat)) = some (source, target, mode) →
        source = P ∧ target = D ∧ Started P D fs fs' names mode :=
    fun fs' h => ⟨h.unmoved, by simp⟩
  have hsource := @absoluteParent_spec cred P fs false P (List.prefix_refl _)
  have hsame := @absoluteParent_false cred fs P
  rw [publishStart]
  split
  · rename_i fs1 hfirst
    rw [hfirst] at hsame
    obtain rfl := hsame
    exact hstop _ (Creates.refl _)
  · rename_i fs1 sourceParent sourceName hfirst
    rw [hfirst] at hsame hsource
    obtain rfl := hsame
    obtain ⟨hP, -⟩ := hsource.2 sourceParent sourceName rfl
    obtain ⟨hcreates, htarget⟩ := @absoluteParent_spec cred D fs1 true D (List.prefix_refl _)
    split
    · rename_i fs2 hsecond
      rw [hsecond] at hcreates
      exact hstop _ hcreates
    · rename_i fs2 parent name hsecond
      rw [hsecond] at hcreates htarget
      obtain ⟨hD, hname⟩ := htarget parent name rfl
      have hmade : Creates D fs1
        ((makeEntry cred fs2 parent name (.dir ownerBits)).getD fs2) := by
        refine hcreates.trans ?_
        cases hentry : makeEntry cred fs2 parent name (.dir ownerBits) with
        | none => exact Creates.refl _
        | some made =>
            obtain ⟨rfl, hnone⟩ := makeEntry_some hentry
            rw [resolve_name _ hname, hD] at hnone ⊢
            intro q
            by_cases hq : q = D
            · exact .inr ⟨hq ▸ hnone, hq ▸ List.prefix_refl _⟩
            · exact .inl (Files.set_ne _ _ hq)
      dsimp only
      split
      · rename_i target hopen
        obtain ⟨rfl, -⟩ := openDirectory_dir hopen
        rw [resolve_name _ hname, hD, hP]
        split
        · split
          · rename_i mode hdir
            have hpayload : fs1 P = some (.dir mode) := by
              obtain heq | ⟨-, hpre⟩ := hmade P
              · rw [← heq]
                exact hdir
              · exact absurd hpre hPD
            split
            · rename_i hempty
              refine ⟨hmade.set_unmoved _, fun source target mode' heq => ?_⟩
              obtain ⟨rfl, rfl, rfl⟩ : P = source ∧ D = target ∧ mode = mode' := by
                simpa using heq
              exact ⟨rfl, rfl, hpayload, Files.set_self _ _ _, hempty⟩
            · exact ⟨hmade.set_unmoved _, by simp⟩
          · exact ⟨hmade.set_unmoved _, by simp⟩
          · exact hstop _ hmade
        · exact hstop _ hmade
      · exact hstop _ hmade

/-! ## a whole publication -/

/-- Whatever stands in the tree stands in a directory. -/
def Rooted (fs : Files) : Prop := ∀ q c, fs (q ++ [c]) ≠ none → ∃ mode, fs q = some (.dir mode)

/-- Beneath nothing is nothing. -/
theorem Rooted.beneath (h : Rooted fs) {q : Path} (hnone : fs q = none) (r : Path) :
    fs (q ++ r) = none := by
  by_contra hsome
  induction r generalizing q with
  | nil =>
      rw [List.append_nil] at hsome
      exact hsome hnone
  | cons c r ih =>
      have hchild : fs (q ++ [c]) = none := by
        by_contra hchild
        obtain ⟨mode, hdir⟩ := h q c hchild
        rw [hnone] at hdir
        contradiction
      refine ih hchild ?_
      rw [List.append_assoc, List.singleton_append]
      exact hsome

/-- Above something is something. -/
theorem Rooted.above (h : Rooted fs) {q p : Path} (hpre : q <+: p) (hp : fs p ≠ none) :
    fs q ≠ none := by
  intro hnone
  obtain ⟨r, rfl⟩ := hpre
  exact hp (h.beneath hnone r)

/-- `os.listdir` returns each name of the directory once, in any order. -/
def Lists (fs : Files) (directory : Path) (names : List Name) : Prop :=
  names.Nodup ∧ ∀ c, c ∈ names ↔ fs (directory ++ [c]) ≠ none

/-- The destination has the payload's mode and its children, beside the directory the payload
stood in. -/
def Moved (P D : Path) (before after : Files) : Prop :=
  ∃ mode, before P = some (.dir mode) ∧ after D = some (.dir mode) ∧
    ∀ c q, ¬D ++ [c] <+: P → after (D ++ c :: q) = before (P ++ c :: q)

/-- A publication that raises has moved nothing, and one that returns has moved everything. -/
def AllOrNothing (P D : Path) (before : Files) (result : Files × Bool) : Prop :=
  (result.2 = false → Unmoved P D before result.1) ∧ (result.2 = true → Moved P D before result.1)

/-- Where the renames are come to, each child can be renamed and the destination given its mode, or
the first child cannot be renamed. -/
def Whole (cred : Credentials) (fs : Files) (P D : Path) (targetNames sourceNames : List Name) :
    Prop :=
  ∀ source target mode, (publishStart cred fs P D targetNames).2 =
    some (source, target, mode) →
    (cred.owns target = true ∧ ∀ c ∈ sourceNames,
      movable cred (publishStart cred fs P D targetNames).1 source target c = true) ∨
    ∀ c, sourceNames.head? = some c →
      movable cred (publishStart cred fs P D targetNames).1 source target c = false

section

variable {targetNames sourceNames : List Name}

/-- No child of the destination but the directory the payload stands in. -/
theorem absent_of_entries (htarget : Lists fs D targetNames)
    (hentries : entries P D targetNames = [])
    {c : Name} (hc : ¬D ++ [c] <+: P) : fs (D ++ [c]) = none := by
  by_contra hsome
  have hmem := (htarget.2 c).mpr hsome
  rw [entries] at hentries
  split at hentries
  · rename_i howned
    obtain ⟨hparent, hne⟩ := howned
    have hkeep := List.filter_eq_nil_iff.mp hentries c hmem
    have hlast : P.dropLast.dropLast.getLast? = some c := by simpa using hkeep
    have hjoin := List.dropLast_append_getLast? c hlast
    rw [hparent] at hjoin
    exact hc (hjoin ▸ (List.dropLast_prefix _).trans (List.dropLast_prefix _))
  · rw [hentries] at hmem
    contradiction

/-- What the children of the payload are before the loop. -/
theorem started_children (hPD : ¬P <+: D) {after : Files} (hunmoved : Unmoved P D fs after)
    (c : Name) (q : Path) :
    after (P ++ c :: q) = fs (P ++ c :: q) := by
  obtain heq | ⟨-, hpre⟩ := hunmoved (P ++ c :: q) (by simp)
  · exact heq
  · exact absurd ((List.prefix_append _ _).trans hpre) hPD

/-- What stands in the destination before the loop. -/
theorem started_target {after : Files} (hunmoved : Unmoved P D fs after) {c : Name} {q : Path}
    (hne : D ++ c :: q ≠ P) : after (D ++ c :: q) = fs (D ++ c :: q) := by
  obtain heq | ⟨-, hpre⟩ := hunmoved (D ++ c :: q) hne
  · exact heq
  · have := hpre.length_le
    rw [List.length_append, List.length_cons] at this
    omega

/-- Where the first child cannot be renamed, nothing is. -/
theorem moveChildren_stuck (h : ∀ c, sourceNames.head? = some c → movable cred fs P D c = false) :
    (moveChildren cred P D fs sourceNames).1 = fs := by
  cases sourceNames with
  | nil => rfl
  | cons c rest => rw [moveChildren, h c rfl, if_neg Bool.false_ne_true]

/-- Where the first child has been renamed, the tree is not as it was. -/
theorem not_unmoved {after : Files} {c : Name} (hsource : Lists fs P sourceNames)
    (hhead : sourceNames.head? = some c) (hgone : after (P ++ [c]) = none) :
    ¬Unmoved P D fs after := by
  intro hunmoved
  have hthere : fs (P ++ [c]) ≠ none := (hsource.2 c).mp (List.mem_of_mem_head? hhead)
  obtain hkeep | ⟨hnone, -⟩ := hunmoved (P ++ [c]) (by simp)
  · exact hthere (hkeep.symm.trans hgone)
  · exact hthere hnone

/-- A publication that can rename every child ends with the payload's children. -/
theorem moved_children (hrooted : Rooted fs) (hPD : ¬P <+: D) (htarget : Lists fs D targetNames)
    (hsource : Lists fs P sourceNames) {started final : Files} (hunmoved : Unmoved P D fs started)
    (hempty : entries P D targetNames = [])
    (hframe : ∀ q, (∀ c ∈ sourceNames, movable cred started P D c = true →
      ¬D ++ [c] <+: q ∧ ¬P ++ [c] <+: q) → final q = started q)
    (hmoved : ∀ c ∈ sourceNames, ∀ r, final (D ++ c :: r) = started (P ++ c :: r))
    {c : Name} (hc : ¬D ++ [c] <+: P) (q : Path) : final (D ++ c :: q) = fs (P ++ c :: q) := by
  by_cases hmem : c ∈ sourceNames
  · rw [hmoved c hmem q]
    exact started_children hPD hunmoved c q
  · have hnoSource : fs (P ++ [c]) = none := by
      by_contra hsome
      exact hmem ((hsource.2 c).mpr hsome)
    have hnoTarget := absent_of_entries htarget hempty hc
    rw [hframe (D ++ c :: q) ?_, started_target hunmoved ?_]
    · have hleft := hrooted.beneath hnoTarget q
      have hright := hrooted.beneath hnoSource q
      rw [List.append_assoc, List.singleton_append] at hleft hright
      rw [hleft, hright]
    · intro heq
      exact hc (heq ▸ ⟨q, by simp⟩)
    · intro c' hc' _
      exact ⟨sibling_apart (fun heq : c' = c => hmem (heq ▸ hc')) q, not_inside hPD hc q⟩

/-- **When a publication is all or nothing.** -/
theorem publish_iff (hrooted : Rooted fs) (hPD : ¬P <+: D) (htarget : Lists fs D targetNames)
    (hsource : Lists fs P sourceNames) :
    AllOrNothing P D fs (publishDirectory cred fs P D targetNames sourceNames) ↔
      Whole cred fs P D targetNames sourceNames := by
  obtain ⟨hunmoved, hstarted⟩ := @start_spec cred P D fs hPD targetNames
  rw [publishDirectory, AllOrNothing, Whole]
  generalize publishStart cred fs P D targetNames = start at hunmoved hstarted ⊢
  obtain ⟨started, plan⟩ := start
  cases plan with
  | none =>
      dsimp only
      exact ⟨fun _ source target mode h => by contradiction,
        fun _ => ⟨fun _ => hunmoved, fun h => by contradiction⟩⟩
  | some plan =>
      obtain ⟨source, target, mode⟩ := plan
      obtain ⟨rfl, rfl, hstart⟩ := hstarted source target mode rfl
      dsimp only at hunmoved hstart ⊢
      have hanchored : Anchored source target started := by
        intro c hpre
        by_cases hself : target ++ [c] = source
        · rw [hself, hstart.widened]
          simp
        · rw [started_target hunmoved hself]
          exact hrooted.above hpre (by rw [hstart.payload]; simp)
      obtain ⟨hok, hframe, hmoved, hfirst⟩ :=
        @moveChildren_spec cred source target started hPD sourceNames hsource.1 hanchored
      cases hresult : moveChildren cred source target started sourceNames with
      | mk final ok =>
        rw [hresult] at hok hframe hmoved hfirst
        dsimp only at hframe hmoved hfirst
        have hstuck : (∀ c, sourceNames.head? = some c →
            movable cred started source target c = false) → final = started := by
          intro hhead
          have hstay := moveChildren_stuck hhead
          rw [hresult] at hstay
          exact hstay
        constructor
        · intro hprop source' target' mode' heq
          obtain ⟨rfl, rfl, rfl⟩ : source = source' ∧ target = target' ∧ mode = mode' := by
            simpa using heq
          by_cases hend : cred.owns target = true ∧ ok = true
          · exact .inl ⟨hend.1, hok.mp hend.2⟩
          · refine .inr fun c hhead => ?_
            by_contra hmov
            rw [Bool.not_eq_false] at hmov
            -- the first child is gone, and the call has raised
            have hgone := @not_unmoved source target fs sourceNames final c hsource hhead
              (hfirst c hhead hmov)
            cases ok with
            | true =>
                dsimp only at hprop
                rw [if_neg (fun howned => hend ⟨howned, rfl⟩)] at hprop
                exact hgone (hprop.1 rfl)
            | false => exact hgone (hprop.1 rfl)
        · intro hwhole
          have hcase := hwhole source target mode rfl
          cases ok with
          | true =>
              have hall := hok.mp rfl
              dsimp only
              by_cases howned : cred.owns target = true
              · rw [if_pos howned]
                refine ⟨fun h => by contradiction, fun _ =>
                  ⟨mode, hstart.payload, Files.set_self _ _ _, fun c q hc => ?_⟩⟩
                dsimp only
                rw [Files.set_ne _ _ (by simp)]
                exact moved_children hrooted hPD htarget hsource hunmoved hstart.entries hframe
                  (hmoved hall) hc q
              · rw [if_neg howned]
                obtain ⟨howned', -⟩ | hhead := hcase
                · exact absurd howned' howned
                · rw [hstuck hhead]
                  exact ⟨fun _ => hunmoved, fun h => by contradiction⟩
          | false =>
              obtain ⟨-, hall⟩ | hhead := hcase
              · exact absurd (hok.mpr hall) Bool.false_ne_true
              · rw [hstuck hhead]
                exact ⟨fun _ => hunmoved, fun h => by contradiction⟩

end

/-- **A transfer is faithful and confined, and a publication is whole** exactly where each child
can be renamed and the destination given its mode, or the first child cannot be renamed: the round
trip of a tree, the nodes an archive can bring, and the renames. -/
theorem transfer_exact (cred : Credentials) :
    (∀ (source : Path) (t : Tree) (directory : Bool) (members : List Member) (fs made : Files)
      (staging : Path), t.Wellformed → pack cred source t directory = some members →
      cred.OwnsNew fs → (∀ q, fs (staging ++ q) = none) →
      makeStaging cred staging fs = some made →
        (unpack cred staging fs directory members).2 = true ∧
          ∀ q, (unpack cred staging fs directory members).1 (staging ++ payloadName :: q) =
            t.at_ q) ∧
    (∀ (front back : List Member) (directory : Bool) (fs : Files) (staging : Path),
      (makeStaging cred staging fs = none →
        unpack cred staging fs directory (front ++ back) = (fs, false)) ∧
      (∀ made, makeStaging cred staging fs = some made →
        Grows (AnyPlaced staging (front ++ back))
          (unpackMembers cred staging directory { fs := made } front).1.fs
          (unpack cred staging fs directory (front ++ back)).1) ∧
      ∀ q node, AnyPlaced staging (front ++ back) q node →
        ∃ rest, q = staging ++ payloadName :: rest) ∧
    ∀ (fs : Files) (P D : Path) (targetNames sourceNames : List Name), Rooted fs → ¬P <+: D →
      Lists fs D targetNames → Lists fs P sourceNames →
        (AllOrNothing P D fs (publishDirectory cred fs P D targetNames sourceNames) ↔
          Whole cred fs P D targetNames sourceNames) := by
  refine ⟨fun source t directory members fs made staging hwell hpack howns hnone hmake =>
      unpack_pack hwell hpack howns hnone hmake,
    fun front back directory fs staging => ⟨fun hmake => unpack_refused hmake _,
      fun made hmake => unpack_confined hmake front back, fun q node hplaced => ?_⟩,
    fun fs P D targetNames sourceNames hrooted hPD htarget hsource =>
      publish_iff hrooted hPD htarget hsource⟩
  obtain ⟨m, -, hplaced⟩ := hplaced
  exact hplaced.beneath

/-! ## a tree of seven nodes -/

/-- The tree of the nodes that are listed. -/
def listed (nodes : List (Path × Node)) : Files := fun q => nodes.lookup q

/-- What is found is listed. -/
theorem mem_of_listed {nodes : List (Path × Node)} {q : Path} (h : listed nodes q ≠ none) :
    ∃ e ∈ nodes, e.1 = q := by
  induction nodes with
  | nil => exact absurd rfl h
  | cons e nodes ih =>
      obtain ⟨p, node⟩ := e
      by_cases hq : q = p
      · exact ⟨_, List.mem_cons_self, hq.symm⟩
      · have hrest : listed nodes q ≠ none := by
          rw [listed, List.lookup_cons, show (q == p) = false by simp [hq]] at h
          exact h
        obtain ⟨e, he, heq⟩ := ih hrest
        exact ⟨e, List.mem_cons_of_mem _ he, heq⟩

/-- A listed file system is rooted if every parent is listed as a directory. -/
theorem rooted_listed {nodes : List (Path × Node)}
    (h : ∀ e ∈ nodes, e.1 = [] ∨
      (listed nodes e.1.dropLast).any (fun node => node matches .dir _) = true) :
    Rooted (listed nodes) := by
  intro q c hsome
  obtain ⟨e, he, heq⟩ := mem_of_listed hsome
  obtain hnil | hdir := h e he
  · rw [heq] at hnil
    simp at hnil
  · rw [heq, List.dropLast_concat, Option.any_eq_true_iff_get] at hdir
    obtain ⟨hget, hmatch⟩ := hdir
    cases hnode : listed nodes q with
    | none => simp [hnode] at hget
    | some node =>
        simp only [hnode, Option.get_some] at hmatch
        cases node with
        | dir mode => exact ⟨mode, rfl⟩
        | file mode content => contradiction
        | link target => contradiction

/-- The names of a directory of a listed file system. -/
theorem lists_listed {nodes : List (Path × Node)} {directory : Path} {names : List Name}
    (hnodup : names.Nodup)
    (hthere : ∀ c ∈ names, (listed nodes (directory ++ [c])).isSome = true)
    (hall : ∀ e ∈ nodes, e.1.dropLast = directory → e.1 = [] ∨
      ∃ c ∈ names, e.1 = e.1.dropLast ++ [c]) :
    Lists (listed nodes) directory names := by
  refine ⟨hnodup, fun c => ⟨fun hc => Option.isSome_iff_ne_none.mp (hthere c hc), fun hsome => ?_⟩⟩
  obtain ⟨e, he, heq⟩ := mem_of_listed hsome
  obtain hnil | ⟨c', hc', hjoin⟩ := hall e he (by rw [heq, List.dropLast_concat])
  · rw [heq] at hnil
    simp at hnil
  · rw [heq, List.dropLast_concat] at hjoin
    obtain rfl := List.singleton_inj.mp (List.append_cancel_left hjoin)
    exact hc'

/-- A payload of a file and of a directory without write permission, and an empty destination. -/
def sampleNodes : List (Path × Node) :=
  [([], .dir 0o755), ([['d']], .dir 0o755), ([['s']], .dir 0o700), ([['s'], ['c']], .dir 0o700),
    ([['s'], ['c'], payloadName], .dir 0o755),
      ([['s'], ['c'], payloadName, ['a']], .file 0o644 [104]),
    ([['s'], ['c'], payloadName, ['b']], .dir 0o555)]

def samplePayload : Path := [['s'], ['c'], payloadName]

theorem sample_rooted : Rooted (listed sampleNodes) := rooted_listed (by decide)

theorem sample_target : Lists (listed sampleNodes) [['d']] [] :=
  lists_listed List.nodup_nil (by simp) (by decide)

theorem sample_source : Lists (listed sampleNodes) samplePayload [['a'], ['b']] :=
  lists_listed (by decide) (by decide) (by decide)

/-- The modules cache of a checkout: a directory that nobody may write to, and an empty one that
may only be read. -/
def sampleTree : Tree :=
  .dir 0o755 [(['b'], .dir 0o555 [(['l'], .link ['a'])]), (['a'], .file 0o644 [104]),
    (['e'], .dir 0o400 [])]

/-- A process that owns what is there. -/
def ownProcess : Credentials := { privileged := false, classAt := fun _ => .owner }

def sampleRoot : Files := listed [([], .dir 0o755)]

theorem transfer_exact_sample :
    ((unpack ownProcess [['s']] sampleRoot true (add payloadName sampleTree)).2 = true ∧
      ∀ q, (unpack ownProcess [['s']] sampleRoot true (add payloadName sampleTree)).1
        ([['s']] ++ payloadName :: q) = sampleTree.at_ q) ∧
    (Grows (AnyPlaced [['s']] (add payloadName sampleTree))
        (unpackMembers ownProcess [['s']] true
          { fs := sampleRoot.set [['s']] (.dir ownerBits) } []).1.fs
        (unpack ownProcess [['s']] sampleRoot true (add payloadName sampleTree)).1) ∧
    (AllOrNothing samplePayload [['d']] (listed sampleNodes)
        (publishDirectory { ownProcess with privileged := true } (listed sampleNodes) samplePayload
          [['d']] [] [['a'], ['b']]) ↔
      Whole { ownProcess with privileged := true } (listed sampleNodes) samplePayload [['d']] []
        [['a'], ['b']]) := by
  have hmake : makeStaging ownProcess [['s']] sampleRoot =
    some (sampleRoot.set [['s']] (.dir ownerBits)) := if_pos (by decide)
  refine ⟨(transfer_exact ownProcess).1 [['t']] sampleTree true _ _ _ _ ?_ ?_ (fun _ _ => rfl)
      (fun _ => rfl) hmake,
    ((transfer_exact ownProcess).2.1 [] _ true _ _).2.1 _ hmake,
    (transfer_exact _).2.2 _ _ _ _ _ sample_rooted (by decide) sample_target sample_source⟩
  · simp only [sampleTree, Tree.Wellformed, Tree.Wellformed.go]
    decide
  · exact if_pos ⟨rfl, by decide⟩

/-- **A directory that its owner cannot write to** stops a publication after others have been
moved. -/
theorem readonly_child_stops :
    ¬∀ (fs : Files) (P D : Path) (targetNames sourceNames : List Name), Rooted fs → ¬P <+: D →
      Lists fs D targetNames → Lists fs P sourceNames →
        AllOrNothing P D fs (publishDirectory ownProcess fs P D targetNames sourceNames) := by
  intro h
  have hprop := h _ _ _ _ _ sample_rooted (by decide) sample_target sample_source
  have hkeep := hprop.1 (by decide) (samplePayload ++ [['a']]) (by decide)
  revert hkeep
  decide

-- a destination that everyone may write to and that belongs to another user: `fchmod` raises last
example :
    let cred : Credentials :=
      { privileged := false, classAt := fun q => if q = [['d']] then .other else .owner }
    let fs := (listed sampleNodes).set [['d']] (.dir 0o777)
    let result := publishDirectory cred fs samplePayload [['d']] [] [['a']]
    result.2 = false ∧ result.1 [['d'], ['a']] = some (.file 0o644 [104]) := by decide

end OpenCollab.Transfer
