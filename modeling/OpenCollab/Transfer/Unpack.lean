import OpenCollab.Transfer.Files

/-!
# OpenCollab.Transfer.Unpack

An archive of a transferred tree, as any sender may have written it, and what
`unpack` makes of its members in a new staging directory.

- `unpackMember_grows`: a member is put where its name says, or nothing is; what is
  made on the way to it are directories.
- `unpack_confined`: where `unpack` creates nodes, and what it leaves alone.
-/

namespace OpenCollab.Transfer

/-! ## the archive and `unpack` -/

inductive Kind where
  | dir
  | sym
  | file
  | other
deriving DecidableEq, Repr

/-- A member as `tarfile` reads it; `data` is what can be read of its contents. -/
structure Member where
  name : Name
  kind : Kind
  linkname : Name := []
  size : Nat := 0
  data : Bytes := []
  mode : Nat
deriving DecidableEq, Repr

/-- `0o777`. -/
def permissionBits : Nat := 0o777

def payloadName : Name := ['p', 'a', 'y', 'l', 'o', 'a', 'd']

/-- A name `os.symlink` takes. -/
def linkable (target : Name) : Bool := target ≠ [] && !target.contains (Char.ofNat 0)

namespace Member

def parts (m : Member) : List Name := pureParts m.name

/-- The name begins at the payload, and leads nowhere else. -/
def Sound (m : Member) : Prop := m.parts.head? = some payloadName ∧ dotdot ∉ m.parts

instance (m : Member) : Decidable m.Sound := inferInstanceAs (Decidable (_ ∧ _))

/-- The checks of `unpack` on a member. -/
def Accepted (m : Member) (directory : Bool) (seen : List Name) : Prop :=
  m.name.head? ≠ some '/' ∧ m.Sound ∧ m.name ∉ seen ∧
    (m.parts.length = 1 → decide (m.kind = .dir) = directory)

instance (m : Member) (directory : Bool) (seen : List Name) :
  Decidable (m.Accepted directory seen) :=
  inferInstanceAs (Decidable (_ ∧ _ ∧ _ ∧ (_ → _)))

end Member

/-- The variables of `unpack`, with the tree it works on. -/
structure State where
  fs : Files
  seen : List Name := []
  modes : List (Name × Nat) := []

section
variable (cred : Credentials) (staging : Path)

/-- What `unpack` creates for a member, in the directory it has opened. -/
def addNode (s : State) (parents : List Name) (parent : Path) (name : Name) (m : Member) :
    State × Bool :=
  match m.kind with
  | .dir => match makeEntry cred s.fs parent name (.dir ownerBits) with
    | some fs => ({ s with fs, modes := s.modes ++ [(m.name, m.mode &&& permissionBits)] }, true)
    | none => (s, false)
  | .sym =>
      if linkable m.linkname then
        match makeEntry cred s.fs parent name (.link m.linkname) with
        | some fs => ({ s with fs }, true)
        | none => (s, false)
      else (s, false)
  | .file =>
      -- `write_regular_file_atomic_at` opens the parent again
      match openParents cred true s.fs staging parents with
      | (fs, none) => ({ s with fs }, false)
      | (fs, some parent) =>
          if m.data.length < m.size then ({ s with fs }, false)
          else match makeEntry cred fs parent name
              (.file (m.mode &&& permissionBits) (m.data.take m.size)) with
            | some fs => ({ s with fs }, true)
            | none => ({ s with fs }, false)
  | .other => (s, false)

/-- The body of `unpack`'s loop: the state, and whether it goes on. -/
def unpackMember (directory : Bool) (s : State) (m : Member) : State × Bool :=
  if m.Accepted directory s.seen then
    match relativeComponents m.name with
    | none => ({ s with seen := s.seen ++ [m.name] }, false)
    | some (parents, name) => match openParents cred true s.fs staging parents with
      | (fs, none) => ({ s with fs, seen := s.seen ++ [m.name] }, false)
      | (fs, some parent) =>
          addNode cred staging { s with fs, seen := s.seen ++ [m.name] } parents parent name m
  else (s, false)

def unpackMembers (directory : Bool) : State → List Member → State × Bool
  | s, [] => (s, true)
  | s, m :: members =>
      if (unpackMember cred staging directory s m).2 then
        unpackMembers directory (unpackMember cred staging directory s m).1 members
      else unpackMember cred staging directory s m

/-- The second loop: the modes of the directories, each opened and then changed by its owner. -/
def applyModes : Files → List (Name × Nat) → Files × Bool
  | fs, [] => (fs, true)
  | fs, (path, mode) :: rest => match relativeComponents path with
    | none => (fs, false)
    | some (parents, name) => match openParents cred false fs staging parents with
      | (fs, none) => (fs, false)
      | (fs, some parent) => match openDirectory cred fs parent name with
        | .dir path =>
            if cred.owns path then applyModes (fs.set path (.dir mode)) rest else (fs, false)
        | _ => (fs, false)

/-- `staging.mkdir(mode=0o700)`: `none` where a directory on the way cannot be searched, the last
of them cannot be written to, or something stands there. -/
def makeStaging (fs : Files) : Option Files :=
  if staging.inits.dropLast.all (fun front => grants cred fs front searchBit) ∧
      grants cred fs staging.dropLast writeBit ∧ fs staging = none then
    some (fs.set staging (.dir ownerBits))
  else none

/-- `unpack`: the tree, and whether it returns. -/
def unpack (fs : Files) (directory : Bool) (members : List Member) : Files × Bool :=
  match makeStaging cred staging fs with
  | none => (fs, false)
  | some made =>
      let loop := unpackMembers cred staging directory { fs := made } members
      if loop.2 ∧ payloadName ∈ loop.1.seen then
        applyModes cred staging loop.1.fs loop.1.modes.reverse
      else (loop.1.fs, false)

end

/-! ## where `unpack` writes -/

namespace Member

/-- A node that a member gives: what its kind, contents and link target say, a directory with the
mode it is made with or the one that is declared. -/
def Gives (m : Member) (node : Node) : Prop :=
  match m.kind with
  | .dir => node = .dir ownerBits ∨ node = .dir (m.mode &&& permissionBits)
  | .sym => node = .link m.linkname
  | .file => node = .file (m.mode &&& permissionBits) (m.data.take m.size)
  | .other => False

end Member

/-- A node made for a member: its own at the place its name says, and a directory at a place on
the way to it. -/
def Placed (staging : Path) (m : Member) (q : Path) (node : Node) : Prop :=
  m.Sound ∧ ((q = staging ++ m.parts ∧ m.Gives node) ∨
    ∃ front, front ≠ [] ∧ front <+: m.parts ∧ front ≠ m.parts ∧ q = staging ++ front ∧
      node = .dir ownerBits)

/-- A sound member's name begins at the payload, and so do the places on the way to it. -/
theorem Member.Sound.beneath {m : Member} (h : m.Sound) {front : Path} (hne : front ≠ [])
    (hfront : front <+: m.parts) : ∃ rest, front = payloadName :: rest := by
  cases front with
  | nil => contradiction
  | cons first rest =>
      obtain ⟨back, hback⟩ := hfront
      have hhead := h.1
      rw [← hback] at hhead
      obtain rfl := Option.some.inj hhead
      exact ⟨rest, rfl⟩

/-- A sound member has parts. -/
theorem Member.Sound.parts_ne_nil {m : Member} (h : m.Sound) : m.parts ≠ [] := by
  intro hnil
  have hhead := h.1
  rw [hnil] at hhead
  contradiction

/-- Every node that is made stands beneath the payload. -/
theorem Placed.beneath {staging q : Path} {m : Member} {node : Node}
    (h : Placed staging m q node) : ∃ rest, q = staging ++ payloadName :: rest := by
  obtain ⟨hsound, ⟨rfl, -⟩ | ⟨front, hne, hfront, -, rfl, -⟩⟩ := h
  · obtain ⟨rest, hrest⟩ := hsound.beneath hsound.parts_ne_nil (List.prefix_refl _)
    exact ⟨rest, by rw [hrest]⟩
  · obtain ⟨rest, rfl⟩ := hsound.beneath hne hfront
    exact ⟨rest, rfl⟩

variable {cred : Credentials} {staging : Path} {directory : Bool}

/-- What the names of a sound member lead to. -/
theorem placed_of_components {m : Member} (hsound : m.Sound) {parents : List Name} {name : Name}
    (hread : relativeComponents m.name = some (parents, name)) :
    parents ++ [name] = m.parts ∧ (∀ c ∈ parents, c ≠ dot ∧ c ≠ dotdot) ∧ name ≠ dot ∧
      name ≠ dotdot := by
  have hparts : parents ++ [name] = m.parts := relativeComponents_eq hsound.2 hread
  have hclean := clean_pureParts hsound.2
  have hmem : ∀ c ∈ parents ++ [name], c ≠ dot ∧ c ≠ dotdot := by
    rw [hparts]
    exact fun c hc => (hclean c hc).2
  refine ⟨hparts, fun c hc => hmem c (List.mem_append_left _ hc), ?_⟩
  exact hmem name (List.mem_append_right _ (List.mem_singleton_self name))

/-- Opening a member's parent makes directories on the way to it. -/
theorem openParents_placed {m : Member} (hsound : m.Sound) {parents : List Name} {name : Name}
    (hread : relativeComponents m.name = some (parents, name)) (create : Bool) (fs : Files) :
    Grows (Placed staging m) fs (openParents cred create fs staging parents).1 ∧
      ∀ path, (openParents cred create fs staging parents).2 = some path →
        path = staging ++ parents := by
  obtain ⟨hparts, hclean, -⟩ := placed_of_components hsound hread
  obtain ⟨hgrows, hpath⟩ := @openParents_grows cred create parents hclean fs staging
  refine ⟨hgrows.mono fun q node hmade => ?_, hpath⟩
  obtain ⟨rfl, front, hne, hfront, rfl⟩ := hmade
  refine ⟨hsound, .inr ⟨front, hne, ?_, fun heq => ?_, rfl, rfl⟩⟩
  · rw [← hparts]
    exact hfront.trans (List.prefix_append _ _)
  · have hlen := hfront.length_le
    rw [heq, ← hparts, List.length_append, List.length_singleton] at hlen
    omega

/-- What is made under a member's own name is what the member gives. -/
theorem makeEntry_placed {m : Member} (hsound : m.Sound) {parents : List Name} {name : Name}
    (hread : relativeComponents m.name = some (parents, name)) {fs made : Files} {node : Node}
    (hgives : m.Gives node)
    (hmade : makeEntry cred fs (staging ++ parents) name node = some made) :
    Grows (Placed staging m) fs made := by
  obtain ⟨hparts, -, hname⟩ := placed_of_components hsound hread
  obtain ⟨rfl, hnone⟩ := makeEntry_some hmade
  refine Grows.set_new ⟨hsound, .inl ⟨?_, hgives⟩⟩ hnone
  rw [resolve_name _ hname, List.append_assoc, hparts]

/-- In the directory it opened, `unpack` makes the member's node, or nothing. -/
theorem addNode_grows {s : State} {m : Member} (hsound : m.Sound) {parents : List Name}
    {name : Name} (hread : relativeComponents m.name = some (parents, name)) :
    Grows (Placed staging m) s.fs
        (addNode cred staging s parents (staging ++ parents) name m).1.fs ∧
      ∀ entry ∈ (addNode cred staging s parents (staging ++ parents) name m).1.modes,
        entry ∈ s.modes ∨ (entry.1 = m.name ∧ m.Gives (.dir entry.2)) := by
  have hsame : ∀ entry ∈ s.modes,
    entry ∈ s.modes ∨ (entry.1 = m.name ∧ m.Gives (.dir entry.2)) := fun _ he => .inl he
  rw [addNode]
  split
  · rename_i hkind
    split
    · rename_i fs hmade
      have hgives : m.Gives (.dir ownerBits) := by
        rw [Member.Gives, hkind]
        exact .inl rfl
      refine ⟨makeEntry_placed hsound hread hgives hmade, fun entry he => ?_⟩
      obtain he | he := List.mem_append.mp he
      · exact .inl he
      · rw [List.mem_singleton.mp he, Member.Gives, hkind]
        exact .inr ⟨rfl, .inr rfl⟩
    · exact ⟨Grows.refl _, hsame⟩
  · rename_i hkind
    split
    · split
      · rename_i fs hmade
        have hgives : m.Gives (.link m.linkname) := by rw [Member.Gives, hkind]
        exact ⟨makeEntry_placed hsound hread hgives hmade, hsame⟩
      · exact ⟨Grows.refl _, hsame⟩
    · exact ⟨Grows.refl _, hsame⟩
  · rename_i hkind
    obtain ⟨hgrows, hpath⟩ :=
      @openParents_placed cred staging m hsound parents name hread true s.fs
    split
    · rename_i fs hopen
      rw [hopen] at hgrows
      exact ⟨hgrows, hsame⟩
    · rename_i fs parent hopen
      rw [hopen] at hgrows hpath
      obtain rfl := hpath parent rfl
      split
      · exact ⟨hgrows, hsame⟩
      · split
        · rename_i made hmade
          have hgives : m.Gives (.file (m.mode &&& permissionBits) (m.data.take m.size)) := by
            rw [Member.Gives, hkind]
          exact ⟨hgrows.trans (makeEntry_placed hsound hread hgives hmade), hsame⟩
        · exact ⟨hgrows, hsame⟩
  · exact ⟨Grows.refl _, hsame⟩

/-- **A member is put where its name says**, or nothing is. -/
theorem unpackMember_grows (s : State) (m : Member) :
    Grows (Placed staging m) s.fs (unpackMember cred staging directory s m).1.fs ∧
      ∀ entry ∈ (unpackMember cred staging directory s m).1.modes,
        entry ∈ s.modes ∨ (entry.1 = m.name ∧ m.Sound ∧ m.Gives (.dir entry.2)) := by
  have hsame : ∀ entry ∈ s.modes,
    entry ∈ s.modes ∨ (entry.1 = m.name ∧ m.Sound ∧ m.Gives (.dir entry.2)) :=
    fun _ he => .inl he
  rw [unpackMember]
  split
  · rename_i haccepted
    have hsound := haccepted.2.1
    split
    · exact ⟨Grows.refl _, hsame⟩
    · rename_i parents name hread
      obtain ⟨hgrows, hpath⟩ :=
        @openParents_placed cred staging m hsound parents name hread true s.fs
      split
      · rename_i fs hopen
        rw [hopen] at hgrows
        exact ⟨hgrows, hsame⟩
      · rename_i fs parent hopen
        rw [hopen] at hgrows hpath
        obtain rfl := hpath parent rfl
        obtain ⟨hadd, hmodes⟩ := @addNode_grows cred staging
          { s with fs, seen := s.seen ++ [m.name] } m hsound parents name hread
        exact ⟨hgrows.trans hadd, fun entry he => (hmodes entry he).imp_right fun heq =>
          ⟨heq.1, hsound, heq.2⟩⟩
  · exact ⟨Grows.refl _, hsame⟩

/-- A node made for one of the members. -/
def AnyPlaced (staging : Path) (members : List Member) (q : Path) (node : Node) : Prop :=
  ∃ m ∈ members, Placed staging m q node

/-- **The first loop is confined**, wherever it stops. -/
theorem unpackMembers_grows (s : State) (members : List Member) :
    Grows (AnyPlaced staging members) s.fs
      (unpackMembers cred staging directory s members).1.fs ∧
      ∀ entry ∈ (unpackMembers cred staging directory s members).1.modes,
        entry ∈ s.modes ∨ ∃ m ∈ members, entry.1 = m.name ∧ m.Sound ∧ m.Gives (.dir entry.2) := by
  induction members generalizing s with
  | nil => exact ⟨Grows.refl _, fun _ he => .inl he⟩
  | cons m members ih =>
      obtain ⟨hgrows, hmodes⟩ := @unpackMember_grows cred staging directory s m
      have hfirst : Grows (AnyPlaced staging (m :: members)) s.fs
          (unpackMember cred staging directory s m).1.fs :=
        hgrows.mono fun q node hq => ⟨m, List.mem_cons_self, hq⟩
      have hnow : ∀ entry ∈ (unpackMember cred staging directory s m).1.modes,
          entry ∈ s.modes ∨ ∃ m' ∈ m :: members, entry.1 = m'.name ∧ m'.Sound ∧
            m'.Gives (.dir entry.2) :=
        fun entry he => (hmodes entry he).imp_right fun heq => ⟨m, List.mem_cons_self, heq⟩
      rw [unpackMembers]
      split
      · obtain ⟨hrest, hlater⟩ := ih (unpackMember cred staging directory s m).1
        refine ⟨hfirst.trans (hrest.mono fun q node hq => ?_), fun entry he => ?_⟩
        · obtain ⟨m', hm', hq⟩ := hq
          exact ⟨m', List.mem_cons_of_mem _ hm', hq⟩
        · obtain he | ⟨m', hm', heq⟩ := hlater entry he
          · exact hnow entry he
          · exact .inr ⟨m', List.mem_cons_of_mem _ hm', heq⟩
      · exact ⟨hfirst, hnow⟩

/-- The second loop gives directories the modes that were declared for them. -/
theorem applyModes_grows {members : List Member} (fs : Files) (modes : List (Name × Nat))
    (hmodes : ∀ entry ∈ modes, ∃ m ∈ members, entry.1 = m.name ∧ m.Sound ∧
      m.Gives (.dir entry.2)) :
    Grows (AnyPlaced staging members) fs (applyModes cred staging fs modes).1 := by
  induction modes generalizing fs with
  | nil => exact Grows.refl _
  | cons entry modes ih =>
      obtain ⟨path, mode⟩ := entry
      obtain ⟨m, hm, rfl, hsound, hgives⟩ := hmodes _ List.mem_cons_self
      have hlater := fun fs => ih fs fun entry he => hmodes entry (List.mem_cons_of_mem _ he)
      have hany : ∀ q node, Placed staging m q node → AnyPlaced staging members q node :=
        fun q node hq => ⟨m, hm, hq⟩
      rw [applyModes]
      split
      · exact Grows.refl _
      · rename_i parents name hread
        obtain ⟨hparts, -, hname⟩ := placed_of_components hsound hread
        obtain ⟨hgrows, hpath⟩ :=
          @openParents_placed cred staging m hsound parents name hread false fs
        split
        · rename_i fs' hopen
          rw [hopen] at hgrows
          exact hgrows.mono hany
        · rename_i fs' parent hopen
          rw [hopen] at hgrows hpath
          obtain rfl := hpath parent rfl
          split
          · rename_i path hdir
            obtain ⟨rfl, old, hold⟩ := openDirectory_dir hdir
            split
            · rw [resolve_name _ hname, List.append_assoc, hparts] at hold ⊢
              have hplaced : Placed staging m (staging ++ m.parts) (.dir mode) :=
                ⟨hsound, .inl ⟨rfl, hgives⟩⟩
              exact (hgrows.mono hany).trans
                ((Grows.set_dir (hany _ _ hplaced) hold).trans (hlater _))
            · exact hgrows.mono hany
          · exact hgrows.mono hany

/-- The first loop goes on behind a part of the archive, unless it has raised. -/
theorem unpackMembers_append (s : State) (front back : List Member) :
    unpackMembers cred staging directory s (front ++ back) =
      if (unpackMembers cred staging directory s front).2 then
        unpackMembers cred staging directory
          (unpackMembers cred staging directory s front).1 back
      else unpackMembers cred staging directory s front := by
  induction front generalizing s with
  | nil => simp [unpackMembers]
  | cons m front ih =>
      rw [List.cons_append, unpackMembers, unpackMembers]
      split
      · exact ih _
      · rfl

/-- The staging directory is made with the owner's bits. -/
theorem makeStaging_some {fs made : Files} (h : makeStaging cred staging fs = some made) :
    made = fs.set staging (.dir ownerBits) := by
  rw [makeStaging] at h
  split at h
  · exact (Option.some.inj h).symm
  · contradiction

/-- Where the staging directory cannot be made, `unpack` raises and has done nothing. -/
theorem unpack_refused {fs : Files} (hmake : makeStaging cred staging fs = none)
    (members : List Member) : unpack cred staging fs directory members = (fs, false) := by
  rw [unpack, hmake]

/-- **`unpack` is confined**: from any point of its loop on, and whether it returns or raises, it
creates each member's node at the member's place and directories on the way to it, all of them
beneath the payload, and changes nothing that was there but modes of such directories. -/
theorem unpack_confined {fs made : Files} (hmake : makeStaging cred staging fs = some made)
    (front back : List Member) :
    Grows (AnyPlaced staging (front ++ back))
      (unpackMembers cred staging directory { fs := made } front).1.fs
      (unpack cred staging fs directory (front ++ back)).1 := by
  have hloop : Grows (AnyPlaced staging (front ++ back))
      (unpackMembers cred staging directory { fs := made } front).1.fs
      (unpackMembers cred staging directory { fs := made } (front ++ back)).1.fs := by
    rw [unpackMembers_append]
    split
    · refine (unpackMembers_grows _ back).1.mono fun q node hq => ?_
      obtain ⟨m, hm, hq⟩ := hq
      exact ⟨m, List.mem_append_right _ hm, hq⟩
    · exact Grows.refl _
  rw [unpack, hmake]
  dsimp only
  split
  · refine hloop.trans (applyModes_grows _ _ fun entry he => ?_)
    obtain he | hsome := (unpackMembers_grows _ (front ++ back)).2 entry (List.mem_reverse.mp he)
    · contradiction
    · exact hsome
  · exact hloop

end OpenCollab.Transfer
