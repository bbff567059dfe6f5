import Mathlib.Data.Char
import Mathlib.Data.List.Lex
import OpenCollab.Transfer.Unpack

/-!
# OpenCollab.Transfer.Pack

The archive that `pack` writes of a file tree, and what comes back of it.

- `describes_add`: the members stand at the places of the tree, each behind the
  directories it stands in.
- `unpack_ordered`: such members are unpacked to the nodes they stand for.
- `unpack_pack`: the round trip.
-/

namespace OpenCollab.Transfer

variable {cred : Credentials} {staging : Path} {directory : Bool}

/-! ## the file tree and `pack` -/

/-- A file tree as the file system holds it; the children of a directory stand in any order. -/
inductive Tree where
  | dir (mode : Nat) (children : List (Name × Tree))
  | file (mode : Nat) (content : Bytes)
  | link (target : Name)

namespace Tree

/-- The node at a place, its mode modulo `0o777`. -/
def at_ : Tree → Path → Option Node
  | .dir mode _, [] => some (.dir (mode &&& permissionBits))
  | .file mode content, [] => some (.file (mode &&& permissionBits) content)
  | .link target, [] => some (.link target)
  | .dir _ children, c :: rest => go children c rest
  | .file _ _, _ :: _ => none
  | .link _, _ :: _ => none
where
  /-- The node in the child of that name. -/
  go : List (Name × Tree) → Name → Path → Option Node
    | [], _, _ => none
    | (name, child) :: children, c, rest => if c = name then child.at_ rest else go children c rest

/-- A name a directory can have in it. -/
def IsName (c : Name) : Prop := isPart c = true ∧ c ≠ dotdot ∧ '/' ∉ c ∧ Char.ofNat 0 ∉ c

instance (c : Name) : Decidable (IsName c) := inferInstanceAs (Decidable (_ ∧ _ ∧ _ ∧ _))

/-- The names in each directory are names, and differ; links lead somewhere. -/
def Wellformed : Tree → Prop
  | .dir _ children => go children
  | .file _ _ => True
  | .link target => linkable target = true
where
  /-- The children of a directory. -/
  go : List (Name × Tree) → Prop
    | [] => True
    | (name, child) :: children =>
        IsName name ∧ (∀ other ∈ children, other.1 ≠ name) ∧ child.Wellformed ∧ go children

def isDir : Tree → Bool
  | .dir _ _ => true
  | _ => false

/-- Each directory and each file of the tree at a place can be read, and each directory that has
children can be searched for them. -/
def readable (cred : Credentials) (source : Path) : Tree → Bool
  | .dir mode children =>
      allows cred source mode readBit &&
        (children.isEmpty || allows cred source mode searchBit) && go source children
  | .file mode _ => allows cred source mode readBit
  | .link _ => true
where
  /-- The children of a directory. -/
  go (source : Path) : List (Name × Tree) → Bool
    | [] => true
    | (name, child) :: children =>
        child.readable cred (source ++ [name]) && go source children

end Tree

/-- The order of `sorted(os.listdir(fd))`. -/
def byName {α : Type} (a b : Name × α) : Bool := decide (a.1 ≤ b.1)

/-- `_add`: the members of a tree that is named `relative`. -/
def add (relative : Name) : Tree → List Member
  | .dir mode children =>
      { name := relative, kind := .dir, mode := mode &&& permissionBits } ::
        ((go relative children).mergeSort byName).flatMap Prod.snd
  | .file mode content =>
      [{ name := relative, kind := .file, size := content.length, data := content,
         mode := mode &&& permissionBits }]
  | .link target =>
      [{ name := relative, kind := .sym, linkname := target, mode := permissionBits }]
where
  /-- The children of a directory, each with its members. -/
  go (relative : Name) : List (Name × Tree) → List (Name × List Member)
    | [] => []
    | (name, child) :: children =>
      (name, add (relative ++ '/' :: name) child) :: go relative children

/-- `pack` of the tree that stands at `source`; `none` where it raises. -/
def pack (cred : Credentials) (source : Path) (t : Tree) (directory : Bool) :
    Option (List Member) :=
  if t.isDir = directory ∧ t.readable cred source = true then some (add payloadName t) else none

/-! ## names that are packed -/

/-- A name has parts. -/
theorem splitSlash_ne_nil (name : List Char) : splitSlash name ≠ [] := by
  cases name with
  | nil => exact List.cons_ne_nil _ _
  | cons c rest =>
      rw [splitSlash]
      split
      · exact List.cons_ne_nil _ _
      · split <;> exact List.cons_ne_nil _ _

/-- A slash separates the parts. -/
theorem splitSlash_append (front back : List Char) :
    splitSlash (front ++ '/' :: back) = splitSlash front ++ splitSlash back := by
  induction front with
  | nil => simp [splitSlash]
  | cons c front ih =>
      rw [List.cons_append, splitSlash, splitSlash, ih]
      split
      · rfl
      · cases hfront : splitSlash front with
        | nil => exact absurd hfront (splitSlash_ne_nil front)
        | cons name names => rfl

/-- A name without a slash is one part. -/
theorem splitSlash_name {name : List Char} (h : '/' ∉ name) : splitSlash name = [name] := by
  induction name with
  | nil => rfl
  | cons c rest ih =>
      rw [List.mem_cons, not_or] at h
      rw [splitSlash, if_neg (Ne.symm h.1), ih h.2]

/-- The parts of a child are those of its directory and its name. -/
theorem pureParts_child (relative : Name) {name : Name} (h : Tree.IsName name) :
    pureParts (relative ++ '/' :: name) = pureParts relative ++ [name] := by
  rw [pureParts, splitSlash_append, splitSlash_name h.2.2.1, List.filter_append, pureParts]
  simp [h.1]

/-- A name under which `pack` puts a member. -/
structure Named (name : Name) : Prop where
  text : Char.ofNat 0 ∉ name
  relative : name.head? ≠ some '/'
  payload : (pureParts name).head? = some payloadName
  confined : dotdot ∉ pureParts name

/-- The root of the payload has a proper name. -/
theorem named_payload : Named payloadName := by
  constructor <;> decide

/-- A proper name has parts. -/
theorem Named.ne_nil {name : Name} (h : Named name) : pureParts name ≠ [] := by
  intro hnil
  have := h.payload
  rw [hnil] at this
  contradiction

/-- A child of a proper name has one. -/
theorem Named.child {relative : Name} (h : Named relative) {name : Name}
    (hname : Tree.IsName name) :
    Named (relative ++ '/' :: name) := by
  have hparts := h.ne_nil
  have hrelative : relative ≠ [] := by
    rintro rfl
    exact hparts rfl
  constructor
  · intro hmem
    obtain hmem | hmem := List.mem_append.mp hmem
    · exact h.text hmem
    · obtain heq | hmem := List.mem_cons.mp hmem
      · revert heq
        decide
      · exact hname.2.2.2 hmem
  · rw [List.head?_append_of_ne_nil _ hrelative]
    exact h.relative
  · rw [pureParts_child relative hname, List.head?_append_of_ne_nil _ hparts]
    exact h.payload
  · rw [pureParts_child relative hname, List.mem_append, List.mem_singleton, not_or]
    exact ⟨h.confined, fun heq => hname.2.1 heq.symm⟩

/-- A proper name splits into its directories and its last part. -/
theorem Named.components {name : Name} (h : Named name) :
    relativeComponents name =
      some ((pureParts name).dropLast, (pureParts name).getLast h.ne_nil) := by
  have hname : name ≠ [] := by
    rintro rfl
    exact h.ne_nil rfl
  have hclean : (pureParts name).any (fun c => c = [] || c = dot || c = dotdot) = false := by
    rw [List.any_eq_false]
    intro c hc
    obtain ⟨hempty, hdot, hdotdot⟩ := clean_pureParts h.confined c hc
    simp [hempty, hdot, hdotdot]
  rw [relativeComponents, if_neg (by simp [hname, h.text, h.relative]),
    normComponents_eq h.confined,
    List.getLast?_eq_some_getLast h.ne_nil]
  dsimp only
  rw [hclean, if_neg Bool.false_ne_true]

/-! ## what `unpack` makes of packed members -/

namespace Member

/-- The node a member stands for. -/
def node (m : Member) : Node :=
  match m.kind with
  | .dir => .dir (m.mode &&& permissionBits)
  | .sym => .link m.linkname
  | _ => .file (m.mode &&& permissionBits) (m.data.take m.size)

/-- The node while the members are read: a directory can be written to. -/
def staged (m : Member) : Node := if m.kind = .dir then .dir ownerBits else m.node

/-- A member as `pack` writes it. -/
structure Packed (m : Member) : Prop where
  named : Named m.name
  ready : m.kind = .dir ∨ (m.kind = .sym ∧ linkable m.linkname = true) ∨
    (m.kind = .file ∧ m.size ≤ m.data.length)

end Member

/-- The tree with the nodes `f` gives to the members. -/
def place (staging : Path) (f : Member → Node) (base : Files) (members : List Member) : Files :=
  members.foldl (fun fs m => fs.set (staging ++ m.parts) (f m)) base

/-- Where no member lies, the base shows. -/
theorem place_of_not_mem {f : Member → Node} {members : List Member} {q : Path}
    (h : ∀ m ∈ members, q ≠ staging ++ m.parts) (base : Files) : place staging f base members q =
      base q := by
  induction members generalizing base with
  | nil => rfl
  | cons m members ih =>
      change place staging f (base.set (staging ++ m.parts) (f m)) members q = base q
      rw [ih fun m' hm' => h m' (List.mem_cons_of_mem _ hm'),
        Files.set_ne _ _ (h m List.mem_cons_self)]

/-- Where a member lies, its node is placed. -/
theorem place_of_mem {f : Member → Node} {members : List Member}
    (hdistinct : members.Pairwise (·.parts ≠ ·.parts)) {m : Member} (hm : m ∈ members)
      (base : Files) :
    place staging f base members (staging ++ m.parts) = some (f m) := by
  induction members generalizing base with
  | nil => contradiction
  | cons first members ih =>
      obtain ⟨hfirst, hrest⟩ := List.pairwise_cons.mp hdistinct
      change place staging f (base.set (staging ++ first.parts) (f first)) members
        (staging ++ m.parts) = _
      obtain rfl | hm := List.mem_cons.mp hm
      · rw [place_of_not_mem fun m' hm' heq => hfirst m' hm' (List.append_cancel_left heq),
          Files.set_self]
      · exact ih hrest hm _

/-- Before the member come the directories on the way to it, and no member at its place. -/
def Fresh (known : List Member) (m : Member) : Prop :=
  (∀ d ∈ known, d.parts ≠ m.parts) ∧
    ∀ front, front ≠ [] → front <+: m.parts → front ≠ m.parts → ∃ d ∈ known, d.kind = .dir ∧
      d.parts = front

/-- The members of a well-formed archive, behind those that are known. -/
def Ordered : List Member → List Member → Prop
  | _, [] => True
  | known, m :: rest => Fresh known m ∧ m.Packed ∧ Ordered (known ++ [m]) rest

/-- Members in order, part by part. -/
theorem ordered_append {known front back : List Member} :
    Ordered known (front ++ back) ↔ Ordered known front ∧ Ordered (known ++ front) back := by
  induction front generalizing known with
  | nil => simp [Ordered]
  | cons m front ih =>
      rw [List.cons_append, Ordered, Ordered, ih, List.append_assoc, List.singleton_append,
        and_assoc,
        and_assoc]

/-- A later member lies elsewhere than the known ones. -/
theorem Ordered.ne_known {known members : List Member} (h : Ordered known members) :
    ∀ m ∈ members, ∀ d ∈ known, d.parts ≠ m.parts := by
  induction members generalizing known with
  | nil => simp
  | cons first members ih =>
      intro m hm d hd
      obtain rfl | hm := List.mem_cons.mp hm
      · exact h.1.1 d hd
      · exact ih h.2.2 m hm d (List.mem_append_left _ hd)

/-- Members in order are packed. -/
theorem Ordered.packed {known members : List Member} (h : Ordered known members) :
    ∀ m ∈ members, m.Packed := by
  induction members generalizing known with
  | nil => simp
  | cons first members ih =>
      intro m hm
      obtain rfl | hm := List.mem_cons.mp hm
      · exact h.2.1
      · exact ih h.2.2 m hm

/-- The directories on the way to a member are among the members. -/
theorem Ordered.parents {known members : List Member} (h : Ordered known members) :
    ∀ m ∈ members, ∀ front, front ≠ [] → front <+: m.parts → front ≠ m.parts →
      ∃ d ∈ known ++ members, d.kind = .dir ∧ d.parts = front := by
  induction members generalizing known with
  | nil => simp
  | cons first members ih =>
      intro m hm front hne hfront hproper
      obtain rfl | hm := List.mem_cons.mp hm
      · obtain ⟨d, hd, hkind⟩ := h.1.2 front hne hfront hproper
        exact ⟨d, List.mem_append_left _ hd, hkind⟩
      · obtain ⟨d, hd, hkind⟩ := ih h.2.2 m hm front hne hfront hproper
        rw [List.append_assoc, List.singleton_append] at hd
        exact ⟨d, hd, hkind⟩

/-- No member stands on the way to one before it. -/
theorem Ordered.pairwise {known members : List Member} (h : Ordered known members) :
    members.Pairwise fun d e => ¬e.parts <+: d.parts := by
  induction members generalizing known with
  | nil => exact List.Pairwise.nil
  | cons first members ih =>
      refine List.pairwise_cons.mpr ⟨fun e he hfront => ?_, ih h.2.2⟩
      have hknown := h.2.2.ne_known e he
      have hne : e.parts ≠ first.parts := fun heq => hknown first (by simp) heq.symm
      obtain ⟨d, hd, -, heq⟩ := h.1.2 e.parts (h.2.2.packed e he).named.ne_nil hfront hne
      exact hknown d (List.mem_append_left _ hd) heq

/-- Members in order lie in different places. -/
theorem Ordered.distinct {known members : List Member} (h : Ordered known members) :
    members.Pairwise (·.parts ≠ ·.parts) :=
  h.pairwise.imp fun {d e} hnot heq => hnot (by rw [heq])

/-- What stands at the place and beneath it belongs to the process. -/
def Credentials.OwnsBelow (cred : Credentials) (fd : Path) : Prop :=
  ∀ q, fd <+: q → cred.classAt q = .owner

/-- Who owns a directory's inside owns that of its children. -/
theorem Credentials.OwnsBelow.child {fd : Path} (h : cred.OwnsBelow fd) (c : Name) :
    cred.OwnsBelow (fd ++ [c]) := fun q hq => h q ((List.prefix_append _ _).trans hq)

/-- The owner may do what the bits of a new directory grant. -/
theorem allows_ownerBits {q : Path} (howner : cred.classAt q = .owner) {bits : Nat}
    (h : ownerBits &&& bits = bits) : allows cred q ownerBits bits = true := by
  simp [allows, howner, Class.bits, h]

/-- An owner has the bits that the owner is given. -/
theorem Credentials.OwnsBelow.grants {fd : Path} (h : cred.OwnsBelow fd) {fs : Files}
    (hfd : fs fd = some (.dir ownerBits)) {bits : Nat} (hbits : ownerBits &&& bits = bits) :
    Transfer.grants cred fs fd bits = true := by
  rw [Transfer.grants, hfd]
  exact allows_ownerBits (h fd (List.prefix_refl _)) hbits

/-- A directory that is as it was made can be opened. -/
theorem openDirectory_present {fs : Files} {fd : Path} (howns : cred.OwnsBelow fd) {c : Name}
    (hc : c ≠ dot ∧ c ≠ dotdot) (hfd : fs fd = some (.dir ownerBits))
    (hdir : fs (fd ++ [c]) = some (.dir ownerBits)) :
    openDirectory cred fs fd c = .dir (fd ++ [c]) := by
  rw [openDirectory, if_pos (howns.grants hfd (by decide)), resolve_name fd hc, hdir]
  dsimp only
  rw [if_pos (allows_ownerBits (howns _ (List.prefix_append _ _)) (by decide))]

/-- Where the directories are there, opening a parent goes to it. -/
theorem openParents_present (create : Bool) {fs : Files} {names : List Name}
    (hclean : ∀ c ∈ names, c ≠ dot ∧ c ≠ dotdot) {fd : Path} (howns : cred.OwnsBelow fd)
    (hfd : fs fd = some (.dir ownerBits))
    (hdirs : ∀ front, front ≠ [] → front <+: names → fs (fd ++ front) = some (.dir ownerBits)) :
    openParents cred create fs fd names = (fs, some (fd ++ names)) := by
  induction names generalizing fd with
  | nil => rw [openParents, List.append_nil]
  | cons c rest ih =>
      have hnext := hdirs [c] (List.cons_ne_nil _ _) ((List.prefix_cons_inj c).mpr List.nil_prefix)
      rw [openParents, openDirectory_present howns (hclean c List.mem_cons_self) hfd hnext]
      dsimp only
      rw [ih (fun d hd => hclean d (List.mem_cons_of_mem _ hd)) (howns.child c) hnext,
        List.append_assoc, List.singleton_append]
      intro front hne hfront
      rw [List.append_assoc, List.singleton_append]
      exact hdirs _ (List.cons_ne_nil _ _) ((List.prefix_cons_inj c).mpr hfront)

/-- A new node can be made in a directory that is as it was made. -/
theorem makeEntry_present {fs : Files} {fd : Path} (howns : cred.OwnsBelow fd) {c : Name}
    (hc : c ≠ dot ∧ c ≠ dotdot) (hfd : fs fd = some (.dir ownerBits))
    (hnone : fs (fd ++ [c]) = none) (node : Node) :
    makeEntry cred fs fd c node = some (fs.set (fd ++ [c]) node) := by
  rw [makeEntry, resolve_name fd hc, if_pos ⟨howns.grants hfd (by decide), hnone⟩]

/-- The tree is ready for a member: the directories on the way to it are there, and are as they
were made. -/
structure Ready (staging : Path) (fs : Files) (m : Member) : Prop where
  root : fs staging = some (.dir ownerBits)
  dirs : ∀ front, front ≠ [] → front <+: m.parts → front ≠ m.parts →
    fs (staging ++ front) = some (.dir ownerBits)

/-- Opening the parent of such a member goes to it and makes nothing. -/
theorem Ready.parents {fs : Files} {m : Member} (h : Ready staging fs m)
    (howns : cred.OwnsBelow staging) (hnamed : Named m.name) (create : Bool) :
    openParents cred create fs staging m.parts.dropLast =
      (fs, some (staging ++ m.parts.dropLast)) ∧
      fs (staging ++ m.parts.dropLast) = some (.dir ownerBits) := by
  have hclean := clean_pureParts hnamed.confined
  have hproper : ∀ front, front <+: m.parts.dropLast → front ≠ m.parts := by
    intro front hfront heq
    have hlen := hfront.length_le
    have hpos := List.length_pos_iff.mpr hnamed.ne_nil
    rw [heq, List.length_dropLast] at hlen
    have : m.parts.length = (pureParts m.name).length := rfl
    omega
  have hall : ∀ front, front ≠ [] → front <+: m.parts.dropLast →
    fs (staging ++ front) = some (.dir ownerBits) :=
    fun front hne hfront => h.dirs front hne (hfront.trans (List.dropLast_prefix _))
      (hproper front hfront)
  constructor
  · exact openParents_present create
      (fun c hc => (hclean c (List.mem_of_mem_dropLast hc)).2) howns h.root hall
  · by_cases hnil : m.parts.dropLast = []
    · rw [hnil, List.append_nil]
      exact h.root
    · exact hall _ hnil (List.prefix_refl _)

/-- A member of a well-formed archive is put into the tree. -/
theorem unpackMember_ready (howns : cred.OwnsBelow staging) {s : State} {m : Member}
    (hready : Ready staging s.fs m)
    (hnone : s.fs (staging ++ m.parts) = none) (hpacked : m.Packed) (hseen : m.name ∉ s.seen)
    (hroot : m.parts.length = 1 → decide (m.kind = .dir) = directory) :
    unpackMember cred staging directory s m =
      ({ fs := s.fs.set (staging ++ m.parts) m.staged
         seen := s.seen ++ [m.name]
         modes := s.modes ++ if m.kind = .dir then [(m.name, m.mode &&& permissionBits)] else [] },
           true) := by
  have hnamed := hpacked.named
  obtain ⟨hopen, hparent⟩ := hready.parents howns hnamed true
  have hlast : (pureParts m.name).getLast hnamed.ne_nil ≠ dot ∧
      (pureParts m.name).getLast hnamed.ne_nil ≠ dotdot :=
    (clean_pureParts hnamed.confined _ (List.getLast_mem _)).2
  have hpath : staging ++ m.parts.dropLast ++ [(pureParts m.name).getLast hnamed.ne_nil] =
      staging ++ m.parts := by
    rw [List.append_assoc]
    exact congrArg _ (List.dropLast_append_getLast hnamed.ne_nil)
  have hmake : ∀ node, makeEntry cred s.fs (staging ++ m.parts.dropLast)
      ((pureParts m.name).getLast hnamed.ne_nil) node =
        some (s.fs.set (staging ++ m.parts) node) := by
    intro node
    rw [makeEntry_present (fun q hq => howns q ((List.prefix_append _ _).trans hq)) hlast hparent
      (by rw [hpath]; exact hnone), hpath]
  rw [unpackMember, if_pos ⟨hnamed.relative, ⟨hnamed.payload, hnamed.confined⟩, hseen, hroot⟩,
    hnamed.components]
  dsimp only
  rw [show (pureParts m.name).dropLast = m.parts.dropLast from rfl, hopen]
  dsimp only
  rw [addNode]
  obtain hkind | ⟨hkind, hlink⟩ | ⟨hkind, hsize⟩ := hpacked.ready
  · rw [hkind]
    dsimp only
    rw [hmake]
    simp [Member.staged, hkind]
  · rw [hkind]
    dsimp only
    rw [if_pos hlink, hmake]
    simp [Member.staged, Member.node, hkind]
  · rw [hkind]
    dsimp only
    rw [hopen]
    dsimp only
    rw [if_neg (Nat.not_lt.mpr hsize), hmake]
    simp [Member.staged, Member.node, hkind]

/-- The modes that are left for the second loop. -/
def modesOf (members : List Member) : List (Name × Nat) :=
  (members.filter fun m => m.kind = .dir).map fun m => (m.name, m.mode &&& permissionBits)

/-- The first loop puts the members of a well-formed archive into the tree. -/
theorem unpackMembers_ordered (howns : cred.OwnsBelow staging) {base : Files}
    (hroot : base staging = some (.dir ownerBits))
    (hnone : ∀ q, q ≠ [] → base (staging ++ q) = none) {known members : List Member}
    (h : Ordered known members) (hdistinct : known.Pairwise (·.parts ≠ ·.parts))
    (hpacked : ∀ d ∈ known, d.Packed)
    (htype : ∀ m ∈ members, m.parts.length = 1 → decide (m.kind = .dir) = directory) :
    unpackMembers cred staging directory
        { fs := place staging Member.staged base known, seen := known.map Member.name,
          modes := modesOf known }
        members =
      ({ fs := place staging Member.staged base (known ++ members)
         seen := (known ++ members).map Member.name
         modes := modesOf (known ++ members) }, true) := by
  induction members generalizing known with
  | nil => rw [List.append_nil, unpackMembers]
  | cons m members ih =>
      obtain ⟨⟨hfresh, hparents⟩, hm, hrest⟩ := h
      have hbelow : ∀ d ∈ known, d.parts ≠ [] := fun d hd => (hpacked d hd).named.ne_nil
      have hready : Ready staging (place staging Member.staged base known) m := by
        constructor
        · rw [place_of_not_mem fun d hd heq => hbelow d hd (List.append_right_eq_self.mp heq.symm)]
          exact hroot
        · intro front hne hfront hproper
          obtain ⟨d, hd, hkind, rfl⟩ := hparents front hne hfront hproper
          rw [place_of_mem hdistinct hd, Member.staged, if_pos hkind]
      have habsent : place staging Member.staged base known (staging ++ m.parts) = none := by
        rw [place_of_not_mem fun d hd heq => hfresh d hd (List.append_cancel_left heq).symm]
        exact hnone _ hm.named.ne_nil
      have hunseen : m.name ∉ known.map Member.name := by
        intro hmem
        obtain ⟨d, hd, heq⟩ := List.mem_map.mp hmem
        exact hfresh d hd (congrArg pureParts heq)
      rw [unpackMembers,
        unpackMember_ready howns hready habsent hm hunseen (htype m List.mem_cons_self)]
      dsimp only
      rw [if_pos rfl]
      have hmodes : (modesOf known ++
        if m.kind = .dir then [(m.name, m.mode &&& permissionBits)] else []) =
          modesOf (known ++ [m]) := by
        by_cases hkind : m.kind = .dir <;> simp [modesOf, hkind]
      have hplace : (place staging Member.staged base known).set (staging ++ m.parts) m.staged =
          place staging Member.staged base (known ++ [m]) := by
        rw [place, place, List.foldl_append]
        rfl
      have hnames : known.map Member.name ++ [m.name] = (known ++ [m]).map Member.name := by simp
      have hpairs : (known ++ [m]).Pairwise (·.parts ≠ ·.parts) := by
        refine List.pairwise_append.mpr
          ⟨hdistinct, List.pairwise_singleton _ _, fun d hd e he => ?_⟩
        rw [List.mem_singleton.mp he]
        exact hfresh d hd
      have hall : ∀ d ∈ known ++ [m], d.Packed := by
        intro d hd
        obtain hd | hd := List.mem_append.mp hd
        · exact hpacked d hd
        · rw [List.mem_singleton.mp hd]
          exact hm
      rw [hmodes, hplace, hnames, ih hrest hpairs hall fun e he =>
        htype e (List.mem_cons_of_mem _ he),
        List.append_assoc, List.singleton_append]

/-- The second loop gives the directories their modes, the inner ones first. -/
theorem applyModes_ready (howns : cred.OwnsBelow staging) {fs : Files} {dirs : List Member}
    (hroot : fs staging = some (.dir ownerBits))
    (hpacked : ∀ d ∈ dirs, d.Packed) (hkind : ∀ d ∈ dirs, d.kind = .dir)
    (hthere : ∀ d ∈ dirs, ∀ front, front ≠ [] → front <+: d.parts →
      fs (staging ++ front) = some (.dir ownerBits))
    (hinner : dirs.Pairwise fun d e => ¬d.parts <+: e.parts) :
    applyModes cred staging fs (dirs.map fun d => (d.name, d.mode &&& permissionBits)) =
      (place staging Member.node fs dirs, true) := by
  induction dirs generalizing fs with
  | nil => rfl
  | cons d dirs ih =>
      have hnamed := (hpacked d List.mem_cons_self).named
      have hd := hthere d List.mem_cons_self
      obtain ⟨hfirst, hrest⟩ := List.pairwise_cons.mp hinner
      have hready : Ready staging fs d := ⟨hroot, fun front hne hfront _ => hd front hne hfront⟩
      obtain ⟨hopen, hparent⟩ := hready.parents howns hnamed false
      have hlast : (pureParts d.name).getLast hnamed.ne_nil ≠ dot ∧
          (pureParts d.name).getLast hnamed.ne_nil ≠ dotdot :=
        (clean_pureParts hnamed.confined _ (List.getLast_mem _)).2
      have hpath : staging ++ d.parts.dropLast ++ [(pureParts d.name).getLast hnamed.ne_nil] =
          staging ++ d.parts := by
        rw [List.append_assoc]
        exact congrArg _ (List.dropLast_append_getLast hnamed.ne_nil)
      have hdir : openDirectory cred fs (staging ++ d.parts.dropLast)
          ((pureParts d.name).getLast hnamed.ne_nil) = .dir (staging ++ d.parts) := by
        rw [openDirectory_present (fun q hq => howns q ((List.prefix_append _ _).trans hq)) hlast
          hparent, hpath]
        rw [hpath]
        exact hd d.parts hnamed.ne_nil (List.prefix_refl _)
      rw [List.map_cons, applyModes, hnamed.components]
      dsimp only
      rw [show (pureParts d.name).dropLast = d.parts.dropLast from rfl, hopen]
      dsimp only
      rw [hdir]
      dsimp only
      have howned : cred.owns (staging ++ d.parts) = true := by
        simp [Credentials.owns, howns _ (List.prefix_append staging d.parts)]
      rw [if_pos howned]
      have hnode : Node.dir (d.mode &&& permissionBits) = d.node := by
        rw [Member.node, hkind d List.mem_cons_self]
      rw [hnode]
      have hkeep : ∀ front, front ≠ d.parts →
          fs.set (staging ++ d.parts) d.node (staging ++ front) = fs (staging ++ front) :=
        fun front hne => Files.set_ne fs _ fun heq => hne (List.append_cancel_left heq)
      refine ih ?_ (fun e he => hpacked e (List.mem_cons_of_mem _ he))
        (fun e he => hkind e (List.mem_cons_of_mem _ he)) (fun e he front hne hfront => ?_) hrest
      · have := hkeep [] hnamed.ne_nil.symm
        rw [List.append_nil] at this
        rw [this]
        exact hroot
      · rw [hkeep front fun heq => hfirst e he (heq ▸ hfront)]
        exact hthere e (List.mem_cons_of_mem _ he) front hne hfront

/-- **A well-formed archive is unpacked**: each member stands at its place, and nothing else
stands beneath the staging directory. -/
theorem unpack_ordered (howns : cred.OwnsBelow staging) {fs made : Files}
    (hstaging : ∀ q, fs (staging ++ q) = none) (hmake : makeStaging cred staging fs = some made)
    {members : List Member}
    (h : Ordered [] members) (hpayload : ∃ m ∈ members, m.name = payloadName)
    (htype : ∀ m ∈ members, m.parts.length = 1 → decide (m.kind = .dir) = directory) :
    (unpack cred staging fs directory members).2 = true ∧
      (∀ m ∈ members, (unpack cred staging fs directory members).1 (staging ++ m.parts) =
        some m.node) ∧
      ∀ q, q ≠ [] → (∀ m ∈ members, m.parts ≠ q) →
        (unpack cred staging fs directory members).1 (staging ++ q) = none := by
  have hbelow : ∀ m ∈ members, m.parts ≠ [] := fun m hm => (h.packed m hm).named.ne_nil
  obtain rfl := (makeStaging_some hmake).symm
  have hbase : ∀ q, q ≠ [] → fs.set staging (.dir ownerBits) (staging ++ q) = none := by
    intro q hq
    rw [Files.set_ne _ _ fun heq => hq (List.append_right_eq_self.mp heq)]
    exact hstaging q
  have hloop := @unpackMembers_ordered cred staging directory howns
    (fs.set staging (.dir ownerBits))
    (Files.set_self _ _ _) hbase [] members h List.Pairwise.nil (by simp) htype
  rw [List.nil_append] at hloop
  have hplaced : ∀ m ∈ members,
    place staging Member.staged (fs.set staging (.dir ownerBits)) members
      (staging ++ m.parts) = some m.staged := fun m hm => place_of_mem h.distinct hm _
  have hsecond := @applyModes_ready cred staging howns
    (place staging Member.staged (fs.set staging (.dir ownerBits)) members)
    (members.filter fun m => m.kind = .dir).reverse
    (by rw [place_of_not_mem fun m hm heq => hbelow m hm (List.append_right_eq_self.mp heq.symm)]
        exact Files.set_self _ _ _)
    (fun d hd => h.packed d (List.mem_of_mem_filter (List.mem_reverse.mp hd)))
    (fun d hd => by simpa using (List.mem_filter.mp (List.mem_reverse.mp hd)).2)
    (by
      intro d hd front hne hfront
      obtain ⟨hmem, hkind⟩ := List.mem_filter.mp (List.mem_reverse.mp hd)
      by_cases hself : front = d.parts
      · rw [hself, hplaced d hmem, Member.staged, if_pos (by simpa using hkind)]
      · obtain ⟨e, he, hdir, rfl⟩ := h.parents d hmem front hne hfront hself
        rw [List.nil_append] at he
        rw [hplaced e he, Member.staged, if_pos hdir])
    (List.pairwise_reverse.mpr (h.pairwise.filter _))
  have hunpack : unpack cred staging fs directory members =
      (place staging Member.node
        (place staging Member.staged (fs.set staging (.dir ownerBits)) members)
        (members.filter fun m => m.kind = .dir).reverse, true) := by
    obtain ⟨root, hmem, hname⟩ := hpayload
    rw [unpack, hmake]
    dsimp only
    rw [show ({ fs := fs.set staging (.dir ownerBits) } : State) =
      { fs := place staging Member.staged (fs.set staging (.dir ownerBits)) [],
        seen := [].map Member.name,
        modes := modesOf [] } from rfl, hloop]
    dsimp only
    rw [if_pos ⟨rfl, List.mem_map.mpr ⟨root, hmem, hname⟩⟩, modesOf, ← List.map_reverse]
    exact hsecond
  rw [hunpack]
  dsimp only
  refine ⟨rfl, fun m hm => ?_, fun q hq hnot => ?_⟩
  · by_cases hkind : m.kind = .dir
    · exact place_of_mem (List.pairwise_reverse.mpr ((h.distinct.filter _).imp Ne.symm))
        (List.mem_reverse.mpr (List.mem_filter.mpr ⟨hm, by simpa using hkind⟩)) _
    · rw [place_of_not_mem, hplaced m hm, Member.staged, if_neg hkind]
      intro d hd heq
      obtain ⟨hmem, hdir⟩ := List.mem_filter.mp (List.mem_reverse.mp hd)
      have hparts := List.append_cancel_left heq
      have hsame : m = d := by
        by_contra hne
        have : Std.Symm fun d e : Member => d.parts ≠ e.parts := ⟨fun _ _ hne => hne.symm⟩
        exact h.distinct.forall hm hmem hne hparts
      rw [hsame] at hkind
      exact hkind (by simpa using hdir)
  · rw [place_of_not_mem, place_of_not_mem]
    · exact hbase q hq
    · intro m hm heq
      exact hnot m hm (List.append_cancel_left heq).symm
    · intro d hd heq
      obtain ⟨hmem, -⟩ := List.mem_filter.mp (List.mem_reverse.mp hd)
      exact hnot d hmem (List.append_cancel_left heq).symm

/-! ## packing a tree -/

/-- The members of a directory's children, in the order of their names. -/
def childMembers (relative : Name) (children : List (Name × Tree)) : List (Name × List Member) :=
  (add.go relative children).mergeSort byName

/-- The members of the children, child by child. -/
theorem mem_childMembers {relative : Name} {children : List (Name × Tree)}
    {entry : Name × List Member} :
    entry ∈ childMembers relative children ↔
      ∃ c ∈ children, entry = (c.1, add (relative ++ '/' :: c.1) c.2) := by
  rw [childMembers, List.mem_mergeSort]
  induction children with
  | nil => simp [add.go]
  | cons c children ih =>
      obtain ⟨name, child⟩ := c
      rw [add.go, List.mem_cons, ih]
      simp

/-- The child a name leads to. -/
theorem at_go_iff {children : List (Name × Tree)} (h : Tree.Wellformed.go children) {c : Name}
    {rest : Path}
    {node : Node} : Tree.at_.go children c rest = some node ↔
      ∃ child, (c, child) ∈ children ∧ child.at_ rest = some node := by
  induction children with
  | nil => simp [Tree.at_.go]
  | cons first children ih =>
      obtain ⟨name, child⟩ := first
      rw [Tree.Wellformed.go] at h
      obtain ⟨-, hothers, -, hrest⟩ := h
      rw [Tree.at_.go]
      split
      · rename_i heq
        obtain rfl := heq
        constructor
        · intro hat
          exact ⟨child, List.mem_cons_self, hat⟩
        · intro hex
          obtain ⟨child', hmem, hat⟩ := hex
          obtain heq | hmem := List.mem_cons.mp hmem
          · obtain rfl := (Prod.mk.inj heq).2
            exact hat
          · exact absurd rfl (hothers _ hmem)
      · rename_i hne
        rw [ih hrest]
        constructor
        · intro hex
          obtain ⟨child', hmem, hat⟩ := hex
          exact ⟨child', List.mem_cons_of_mem _ hmem, hat⟩
        · intro hex
          obtain ⟨child', hmem, hat⟩ := hex
          obtain heq | hmem := List.mem_cons.mp hmem
          · exact absurd (Prod.mk.inj heq).1 hne
          · exact ⟨child', hmem, hat⟩

theorem and_permissionBits (mode : Nat) :
    mode &&& permissionBits &&& permissionBits = mode &&& permissionBits := by
  rw [Nat.and_assoc, Nat.and_self]

/-- The children of a well-formed directory differ in their names, in the order of the archive. -/
theorem distinct_childMembers (relative : Name) {children : List (Name × Tree)}
    (h : Tree.Wellformed.go children) :
    (childMembers relative children).Pairwise fun a b => a.1 ≠ b.1 := by
  have hgo : (add.go relative children).Pairwise fun a b => a.1 ≠ b.1 := by
    induction children with
    | nil => exact List.Pairwise.nil
    | cons first children ih =>
        obtain ⟨name, child⟩ := first
        rw [Tree.Wellformed.go] at h
        rw [add.go]
        refine List.pairwise_cons.mpr ⟨fun entry hentry => ?_, ih h.2.2.2⟩
        have hmem : entry ∈ childMembers relative children := by
          rw [childMembers, List.mem_mergeSort]
          exact hentry
        obtain ⟨c, hc, rfl⟩ := mem_childMembers.mp hmem
        exact fun heq => h.2.1 c hc heq.symm
  exact (List.Perm.pairwise_iff (fun hne => hne.symm) (List.mergeSort_perm _ _)).mpr hgo

/-- What is known before a tree is added: the directories on the way to it, and nothing in it. -/
structure Before (known : List Member) (path : List Name) : Prop where
  dirs : ∀ front, front ≠ [] → front <+: path → front ≠ path → ∃ d ∈ known, d.kind = .dir ∧
    d.parts = front
  outside : ∀ d ∈ known, ¬path <+: d.parts

/-- The archives of the children of a directory stand one after another. -/
theorem ordered_children {path : List Name} {groups : List (Name × List Member)}
    (hdistinct : groups.Pairwise fun a b => a.1 ≠ b.1)
    (hgroup : ∀ g ∈ groups, (∀ m ∈ g.2, path ++ [g.1] <+: m.parts) ∧
      ∀ known, Before known (path ++ [g.1]) → Ordered known g.2)
    {known : List Member}
    (hdirs : ∀ front, front ≠ [] → front <+: path → ∃ d ∈ known, d.kind = .dir ∧ d.parts = front)
    (houtside : ∀ g ∈ groups, ∀ d ∈ known, ¬path ++ [g.1] <+: d.parts) :
    Ordered known (groups.flatMap Prod.snd) := by
  induction groups generalizing known with
  | nil => exact trivial
  | cons g groups ih =>
      obtain ⟨hfirst, hrest⟩ := List.pairwise_cons.mp hdistinct
      obtain ⟨hparts, hordered⟩ := hgroup g List.mem_cons_self
      rw [List.flatMap_cons, ordered_append]
      constructor
      · refine hordered known ⟨fun front hne hfront hproper => ?_, houtside g List.mem_cons_self⟩
        obtain rfl | hshort := List.prefix_concat_iff.mp hfront
        · contradiction
        · exact hdirs front hne hshort
      · refine ih hrest (fun g' hg' => hgroup g' (List.mem_cons_of_mem _ hg')) ?_ ?_
        · intro front hne hfront
          obtain ⟨d, hd, hkind⟩ := hdirs front hne hfront
          exact ⟨d, List.mem_append_left _ hd, hkind⟩
        · intro g' hg' d hd hfront
          obtain hd | hd := List.mem_append.mp hd
          · exact houtside g' (List.mem_cons_of_mem _ hg') d hd hfront
          · have hsame := List.prefix_of_prefix_length_le (hparts d hd) hfront (by simp)
            have heq := List.IsPrefix.eq_of_length hsame (by simp)
            exact hfirst g' hg' (List.singleton_inj.mp (List.append_cancel_left heq))

/-- The members of a tree stand at its places, and are the nodes there. -/
structure Describes (path : List Name) (t : Tree) (members : List Member) : Prop where
  ordered : ∀ known, Before known path → Ordered known members
  sound : ∀ m ∈ members, ∃ q, m.parts = path ++ q ∧ t.at_ q = some m.node
  complete : ∀ q node, t.at_ q = some node → ∃ m ∈ members, m.parts = path ++ q ∧ m.node = node

/-- A leaf is described by one member. -/
theorem describes_leaf {name : Name} {t : Tree} {m : Member} (hm : m.name = name)
    (hpacked : m.Packed) (hself : t.at_ [] = some m.node)
      (hleaf : ∀ c rest, t.at_ (c :: rest) = none) :
    Describes (pureParts name) t [m] where
  ordered := by
    intro known hbefore
    have hparts : m.parts = pureParts name := congrArg pureParts hm
    refine ⟨⟨fun d hd heq => hbefore.outside d hd ?_, ?_⟩, hpacked, trivial⟩
    · rw [heq, hparts]
    · rw [hparts]
      exact hbefore.dirs
  sound := by
    intro m' hm'
    obtain rfl := List.mem_singleton.mp hm'
    exact ⟨[], (congrArg pureParts hm).trans (List.append_nil _).symm, hself⟩
  complete := by
    intro q node hat
    cases q with
    | nil =>
        exact ⟨m, List.mem_singleton_self m, (congrArg pureParts hm).trans (List.append_nil _).symm,
          Option.some.inj (hself.symm.trans hat)⟩
    | cons c rest =>
        rw [hleaf] at hat
        contradiction

/-- A directory, from its children. -/
theorem describes_dir {name : Name} (hname : Named name) {mode : Nat}
    {children : List (Name × Tree)}
    (hwell : Tree.Wellformed.go children)
    (hchildren : ∀ c ∈ children,
      Describes (pureParts name ++ [c.1]) c.2 (add (name ++ '/' :: c.1) c.2)) :
    Describes (pureParts name) (.dir mode children) (add name (.dir mode children)) := by
  have hgroups : ∀ g ∈ childMembers name children, ∃ c ∈ children,
      g = (c.1, add (name ++ '/' :: c.1) c.2) := fun g hg => mem_childMembers.mp hg
  have hparts : ∀ m : Member, m.name = name → m.parts = pureParts name :=
    fun m hm => congrArg pureParts hm
  rw [add]
  constructor
  · intro known hbefore
    refine ⟨⟨fun d hd heq => hbefore.outside d hd ?_, hbefore.dirs⟩, ⟨hname, .inl rfl⟩, ?_⟩
    · rw [heq, hparts _ rfl]
    · refine @ordered_children (pureParts name) _ (distinct_childMembers name hwell)
        (fun g hg => ?_) _ ?_ ?_
      · obtain ⟨c, hc, rfl⟩ := hgroups g hg
        refine ⟨fun m hm => ?_, (hchildren c hc).ordered⟩
        obtain ⟨q, hq, -⟩ := (hchildren c hc).sound m hm
        rw [hq]
        exact List.prefix_append _ _
      · intro front hne hfront
        by_cases hself : front = pureParts name
        · exact ⟨_, List.mem_append_right _ (List.mem_singleton_self _), rfl, hself.symm⟩
        · obtain ⟨d, hd, hkind⟩ := hbefore.dirs front hne hfront hself
          exact ⟨d, List.mem_append_left _ hd, hkind⟩
      · intro g hg d hd hfront
        obtain hd | hd := List.mem_append.mp hd
        · exact hbefore.outside d hd ((List.prefix_append _ _).trans hfront)
        · obtain rfl := List.mem_singleton.mp hd
          have hlen := hfront.length_le
          rw [hparts _ rfl, List.length_append, List.length_singleton] at hlen
          omega
  · intro m hm
    obtain rfl | hm := List.mem_cons.mp hm
    · refine ⟨[], (hparts _ rfl).trans (List.append_nil _).symm, ?_⟩
      rw [Tree.at_, Member.node, and_permissionBits]
    · obtain ⟨g, hg, hm⟩ := List.mem_flatMap.mp hm
      obtain ⟨c, hc, rfl⟩ := hgroups g hg
      obtain ⟨q, hq, hat⟩ := (hchildren c hc).sound m hm
      refine ⟨c.1 :: q, by rw [hq, List.append_assoc, List.singleton_append], ?_⟩
      rw [Tree.at_]
      exact (at_go_iff hwell).mpr ⟨c.2, hc, hat⟩
  · intro q node hat
    cases q with
    | nil =>
        rw [Tree.at_] at hat
        refine ⟨_, List.mem_cons_self, (hparts _ rfl).trans (List.append_nil _).symm, ?_⟩
        rw [Member.node, and_permissionBits]
        exact Option.some.inj hat
    | cons c rest =>
        rw [Tree.at_] at hat
        obtain ⟨child, hmem, hat⟩ := (at_go_iff hwell).mp hat
        obtain ⟨m, hm, hq, hnode⟩ := (hchildren (c, child) hmem).complete rest node hat
        refine ⟨m, List.mem_cons_of_mem _
          (List.mem_flatMap.mpr ⟨_, mem_childMembers.mpr ⟨_, hmem, rfl⟩, hm⟩),
          ?_, hnode⟩
        rw [hq, List.append_assoc, List.singleton_append]

mutual

/-- **`pack` describes the tree**, whatever the order of the children. -/
theorem describes_add (t : Tree) (name : Name) (hname : Named name) (h : t.Wellformed) :
    Describes (pureParts name) t (add name t) := by
  cases t with
  | dir mode children =>
      rw [Tree.Wellformed] at h
      exact describes_dir hname h (describes_children children name hname h)
  | file mode content =>
      rw [add]
      refine describes_leaf rfl ⟨hname, .inr (.inr ⟨rfl, Nat.le_refl _⟩)⟩ ?_ fun _ _ => rfl
      rw [Tree.at_, Member.node, and_permissionBits, List.take_length]
  | link target =>
      rw [Tree.Wellformed] at h
      rw [add]
      exact describes_leaf rfl ⟨hname, .inr (.inl ⟨rfl, h⟩)⟩ rfl fun _ _ => rfl

/-- Each child is described by its members. -/
theorem describes_children (children : List (Name × Tree)) (name : Name) (hname : Named name)
    (h : Tree.Wellformed.go children) : ∀ c ∈ children,
      Describes (pureParts name ++ [c.1]) c.2 (add (name ++ '/' :: c.1) c.2) := by
  cases children with
  | nil => simp
  | cons first children =>
      obtain ⟨childName, child⟩ := first
      rw [Tree.Wellformed.go] at h
      intro c hc
      obtain rfl | hc := List.mem_cons.mp hc
      · have hchild := describes_add child (name ++ '/' :: childName) (hname.child h.1) h.2.2.1
        rw [pureParts_child name h.1] at hchild
        exact hchild
      · exact describes_children children name hname h.2.2.2 c hc

end

/-- The type of the root, and of no other member. -/
theorem root_type {t : Tree} (h : t.Wellformed) : ∀ m ∈ add payloadName t, m.parts.length = 1 →
    decide (m.kind = .dir) = t.isDir := by
  intro m hm hlen
  obtain ⟨q, hq, hat⟩ := (describes_add t payloadName named_payload h).sound m hm
  have hroot : pureParts payloadName = [payloadName] := by decide
  rw [hq, hroot, List.length_append, List.length_singleton] at hlen
  obtain rfl := List.length_eq_zero_iff.mp (show q.length = 0 by omega)
  have hnode : ∀ mode, m.node = .dir mode → m.kind = .dir := by
    intro mode heq
    rw [Member.node] at heq
    cases hkind : m.kind <;> simp_all
  cases t with
  | dir mode children =>
      rw [Tree.at_] at hat
      rw [hnode _ (Option.some.inj hat).symm]
      rfl
  | file mode content =>
      rw [Tree.at_] at hat
      have hkind : m.kind ≠ .dir := by
        intro heq
        rw [Member.node, heq] at hat
        simp at hat
      simp [hkind, Tree.isDir]
  | link target =>
      rw [Tree.at_] at hat
      have hkind : m.kind ≠ .dir := by
        intro heq
        rw [Member.node, heq] at hat
        simp at hat
      simp [hkind, Tree.isDir]

/-- A tree has a member of its own name. -/
theorem name_mem_add (name : Name) (t : Tree) : ∃ m ∈ add name t, m.name = name := by
  cases t with
  | dir mode children => exact ⟨_, by rw [add]; exact List.mem_cons_self, rfl⟩
  | file mode content => exact ⟨_, by rw [add]; exact List.mem_cons_self, rfl⟩
  | link target => exact ⟨_, by rw [add]; exact List.mem_cons_self, rfl⟩

/-- **`unpack` gives back what `pack` took**: the same places, kinds, contents, link targets and
permission bits, and nothing else. -/
theorem unpack_pack {source : Path} {t : Tree} (h : t.Wellformed) {members : List Member}
    (hpack : pack cred source t directory = some members) {fs made : Files}
    (howns : cred.OwnsNew fs) (hstaging : ∀ q, fs (staging ++ q) = none)
    (hmake : makeStaging cred staging fs = some made) :
    (unpack cred staging fs directory members).2 = true ∧
      ∀ q, (unpack cred staging fs directory members).1 (staging ++ payloadName :: q) =
        t.at_ q := by
  rw [pack] at hpack
  split at hpack
  · rename_i hready
    obtain rfl := Option.some.inj hpack
    have hdescribes := describes_add t payloadName named_payload h
    have hroot : pureParts payloadName = [payloadName] := by decide
    rw [hroot] at hdescribes
    have hordered : Ordered [] (add payloadName t) := by
      refine hdescribes.ordered [] ⟨fun front hne hfront hproper => ?_, by simp⟩
      obtain heq | hnil := List.prefix_concat_iff.mp
        (show front <+: [] ++ [payloadName] from hfront)
      · contradiction
      · exact absurd (List.prefix_nil.mp hnil) hne
    obtain ⟨hok, hthere, hnone⟩ :=
      @unpack_ordered cred staging directory
        (fun q hq => by obtain ⟨r, rfl⟩ := hq; exact howns _ (hstaging r)) fs made hstaging hmake _
        hordered
      (name_mem_add payloadName t) (fun m hm hlen => (root_type h m hm hlen).trans hready.1)
    refine ⟨hok, fun q => ?_⟩
    cases hat : t.at_ q with
    | some node =>
        obtain ⟨m, hm, hparts, rfl⟩ := hdescribes.complete q node hat
        rw [← hthere m hm, hparts]
        rfl
    | none =>
        refine hnone _ (List.cons_ne_nil _ _) fun m hm heq => ?_
        obtain ⟨q', hq', hat'⟩ := hdescribes.sound m hm
        rw [hq'] at heq
        obtain rfl := (List.cons.inj heq).2
        have := hat'.symm.trans hat
        contradiction
  · contradiction

end OpenCollab.Transfer
