import Deezns.FileTree
import Deezns.Lifetime
import Deezns.PolicyLaws
import Deezns.Relay
import Deezns.Stacking

/-!
# Starting

`main` loads everything and resolves its users before it binds a socket, and
binds all of its sockets before it serves one. A socket is bound in place of
whatever file an earlier daemon left. Any system call may fail, and the first
error ends the start where it stands.
-/
namespace Deezns.Startup

open Utf8 (Str)
open FileTree (Error)
open Listeners (Listener)
open Text (byteLen)

/-- A file: its mode, and the listener that made it, if one did. -/
structure File where
  mode : Nat
  madeBy : Option Listener
  deriving DecidableEq, Repr

abbrev Tree := FileTree.Tree Str File

abbrev Path := List Str

/-- The files, and what befalls the next system calls but for the files. -/
structure World where
  tree : Tree
  faults : List (Option IoError)

abbrev Sys := EStateM IoError World

/-- The world behind a computation, however it ends. -/
def after {ε β : Type} : EStateM.Result ε World β → World
  | .ok _ w => w
  | .error _ w => w

@[simp] theorem after_ok {ε β : Type} (b : β) (w : World) :
    after (.ok b w : EStateM.Result ε World β) = w := rfl
@[simp] theorem after_error {ε β : Type} (e : ε) (w : World) :
    after (.error e w : EStateM.Result ε World β) = w := rfl

/-- The error numbers of the calls. -/
def ioError : Error → IoError
  | .notFound => .os 2
  | .alreadyExists => .os 17
  | .notADirectory => .os 20
  | .isADirectory => .os 21
  | .addressInUse => .os 98

/-- `e.kind() == NotFound`. -/
def isNotFound (e : IoError) : Bool :=
  match e with
  | .new kind _ => kind == .notFound
  | .os errno => errno == 2

/-- A system call. -/
def call (op : Tree → Except Error Tree) : Sys Unit := fun w =>
  match w.faults.head?.join with
  | some e => .error e { w with faults := w.faults.tail }
  | none =>
    match op w.tree with
    | .error e => .error (ioError e) { w with faults := w.faults.tail }
    | .ok tree => .ok () ⟨tree, w.faults.tail⟩

/-- No name has a NUL in it. A path with one is refused before there is a call. -/
def NulFree (path : Path) : Prop := ∀ name ∈ path, '\x00' ∉ name

instance (path : Path) : Decidable (NulFree path) :=
  inferInstanceAs (Decidable (∀ name ∈ path, _))

theorem NulFree.tail {path : Path} (h : NulFree path) : NulFree path.tail :=
  fun name hname => h name (List.mem_of_mem_tail hname)

/-- What is at a path, if `stat` succeeds. -/
def stat (path : Path) : Sys (Option (FileTree.Node File)) := fun w =>
  .ok (if w.faults.head?.join.isSome then none else w.tree.node path)
    { w with faults := w.faults.tail }

/-- `path.exists()`, to which every error means no. -/
def fileExists (path : Path) : Sys Bool :=
  if NulFree path then do return (← stat path).isSome else return false

/-- An error does not matter where `path.is_dir()`. -/
def unlessDir (path : Path) (e : IoError) : Sys Unit := do
  if (← stat path).any FileTree.Node.isDir then return () else throw e

/-- `create_dir_all`, of a path that it does not refuse. -/
def makeDirs : Path → Sys Unit
  | [] => fun w =>
    match call (·.mkdir []) w with
    | .ok () w => .ok () w
    | .error e w =>
      if isNotFound e then .error (.new .uncategorized "failed to create whole tree") w
      else unlessDir [] e w
  | name :: above => fun w =>
    match call (·.mkdir (name :: above)) w with
    | .ok () w => .ok () w
    | .error e w =>
      if isNotFound e then
        match makeDirs above w with
        | .error e w => .error e w
        | .ok () w =>
          match call (·.mkdir (name :: above)) w with
          | .ok () w => .ok () w
          | .error e w => unlessDir (name :: above) e w
      else unlessDir (name :: above) e w

/-- `create_dir_all`. -/
def createDirAll (path : Path) : Sys Unit :=
  if NulFree path then makeDirs path
  else throw (.new .invalidInput "file name contained an unexpected NUL byte")

/-- `remove_file`, where there is one. -/
def removeOld (path : Path) : Sys Unit := do
  let there ← fileExists path
  if there then call (·.unlink path) else pure ()

/-- `UnixListener::bind`, given the path as it is written, which with a NUL behind it
must have room in an address. -/
def bindSocket (text : Str) (path : Path) (file : File) : Sys Unit :=
  if ¬ NulFree path then
    throw (.new .invalidInput "paths must not contain interior null bytes")
  else if 108 ≤ byteLen text then
    throw (.new .invalidInput "path must be shorter than SUN_LEN")
  else call (·.bind path file)

/-- Bind a socket of a listener in place of what is there, with a mode of its own. -/
def bindAt (umask : Nat) (listener : Listener) (mode : Nat) (text : Str) (path : Path) :
    Sys Unit := do
  removeOld path
  createDirAll path.tail
  bindSocket text path ⟨0o777 - umask, some listener⟩
  call (·.chmod path (fun file => { file with mode := mode }))

/-- What the daemon is given: the path of its own socket, which is built in, and what
a path stands for, which is absolute and leads over no link, `.` or `..`. -/
structure Env where
  umask : Nat
  socket : Str
  resolve : Str → Path

def Env.socketPath (env : Env) : Path := env.resolve env.socket

/-- `bind_policy_socket`. -/
def bindPolicySocket (env : Env) : Sys Unit :=
  bindAt env.umask .policySocket 0o660 env.socket env.socketPath

/-- `nscd::Frontend::bind`, if it is enabled. -/
def bindNscd (env : Env) : Option NscdFrontendConfig → Sys Unit
  | some front => bindAt env.umask .nscd 0o666 front.listen (env.resolve front.listen)
  | none => pure ()

/-- `dns::Frontend::with_limits` and `bind`, which make no files. -/
def bindDns : Option DnsFrontendConfig → Sys Unit
  | none => pure ()
  | some front =>
    match front.upstream with
    | none => throw (.new .invalidInput "the DNS front-end needs an upstream server")
    | some _ => do
      call .ok
      call .ok

/-- `main`, as far as it binds. -/
def bindAll (env : Env) (cfg : PolicyConfig) : Sys Unit := do
  bindPolicySocket env
  bindNscd env cfg.nscd
  bindDns cfg.dns

inductive StartError (cel : Cel) where
  /-- `failed to load policy from {path}: {e}` -/
  | invalid (e : ConfigError cel)
  | io (e : IoError)

/-- `main` from its configuration on, until it serves. -/
def start (cel : Cel) (env : Env) (passwd : Passwd) (files : Files) (cfg : PolicyConfig) :
    EStateM (StartError cel) World (PolicyEngine cel × ListenerRelays) := fun w =>
  match PolicyEngine.fromConfig files cfg with
  | .error e => .error (.invalid e) w
  | .ok engine =>
    match ListenerRelays.forConfig passwd cfg with
    | .error e => .error (.io e) w
    | .ok relays =>
      match bindAll env cfg w with
      | .error e w => .error (.io e) w
      | .ok () w => .ok (engine, relays) w

section
variable {β γ : Type}

/-- A computation does to the world only what a relation allows. -/
def Keeps (R : World → World → Prop) (m : Sys β) : Prop := ∀ w, R w (after (m w))

theorem bind_of_ok {m : Sys β} {f : β → Sys γ} {w w' : World} {a : β} (h : m w = .ok a w') :
    (m >>= f) w = f a w' := by
  simp only [bind, EStateM.bind, h]

theorem bind_of_error {m : Sys β} {f : β → Sys γ} {w w' : World} {e : IoError}
    (h : m w = .error e w') : (m >>= f) w = .error e w' := by
  simp only [bind, EStateM.bind, h]

theorem bind_eq_ok_iff {m : Sys β} {f : β → Sys γ} {w w' : World} {b : γ} :
    (m >>= f) w = .ok b w' ↔ ∃ a w₁, m w = .ok a w₁ ∧ f a w₁ = .ok b w' := by
  cases h : m w with
  | ok a w₁ =>
    rw [bind_of_ok h]
    simp
  | error e w₁ =>
    rw [bind_of_error h]
    simp

/-- Two computations that do the same on two worlds are gone on from in the same way. -/
theorem bind_congr {m m' : Sys β} {f : β → Sys γ} {w w' : World} (h : m w = m' w') :
    (m >>= f) w = (m' >>= f) w' := by
  simp only [bind, EStateM.bind, h]

variable {R : World → World → Prop}

theorem Keeps.bind (htrans : ∀ w₁ w₂ w₃, R w₁ w₂ → R w₂ w₃ → R w₁ w₃) {m : Sys β}
    {f : β → Sys γ} (hm : Keeps R m) (hf : ∀ a, Keeps R (f a)) : Keeps R (m >>= f) := by
  intro w
  have hfirst := hm w
  cases h : m w with
  | ok a w₁ =>
    rw [h] at hfirst
    rw [bind_of_ok h]
    exact htrans _ _ _ hfirst (hf a w₁)
  | error e w₁ =>
    rw [h] at hfirst
    rwa [bind_of_error h]

theorem keeps_pure (hrefl : ∀ w, R w w) (a : β) : Keeps R (pure a) := fun w => hrefl w

theorem keeps_throw (hrefl : ∀ w, R w w) (e : IoError) : Keeps R (throw e : Sys β) :=
  fun w => hrefl w

theorem keeps_stat (hfails : ∀ w, R w { w with faults := w.faults.tail }) (path : Path) :
    Keeps R (stat path) := fun w => hfails w

theorem stat_eq (path : Path) (t : Tree) : stat path ⟨t, []⟩ = .ok (t.node path) ⟨t, []⟩ := rfl

theorem fileExists_eq {path : Path} (h : NulFree path) (t : Tree) :
    fileExists path ⟨t, []⟩ = .ok (t.node path).isSome ⟨t, []⟩ := by
  rw [fileExists, if_pos h, bind_of_ok (stat_eq path t)]
  rfl

theorem call_eq_ok {op : Tree → Except Error Tree} {w w' : World} (h : call op w = .ok () w') :
    op w.tree = .ok w'.tree ∧ w'.faults = w.faults.tail := by
  unfold call at h
  split at h
  · cases h
  · split at h
    · cases h
    · next htree =>
      cases h
      exact ⟨htree, rfl⟩

theorem call_eq_error {op : Tree → Except Error Tree} {w w' : World} {e : IoError}
    (h : call op w = .error e w') : w' = { w with faults := w.faults.tail } := by
  unfold call at h
  split at h
  · cases h
    rfl
  · split at h
    · cases h
      rfl
    · cases h

theorem keeps_call {op : Tree → Except Error Tree}
    (hfails : ∀ w, R w { w with faults := w.faults.tail })
    (hop : ∀ w t, op w.tree = .ok t → R w ⟨t, w.faults.tail⟩) : Keeps R (call op) := by
  intro w
  cases h : call op w with
  | ok u w' =>
    obtain ⟨htree, hfaults⟩ := call_eq_ok h
    have hkept := hop w w'.tree htree
    rwa [← hfaults] at hkept
  | error e w' =>
    rw [call_eq_error h]
    exact hfails w

theorem keeps_unlessDir (hrefl : ∀ w, R w w)
    (htrans : ∀ w₁ w₂ w₃, R w₁ w₂ → R w₂ w₃ → R w₁ w₃)
    (hfails : ∀ w, R w { w with faults := w.faults.tail }) (path : Path) (e : IoError) :
    Keeps R (unlessDir path e) := by
  refine Keeps.bind htrans (keeps_stat hfails path) (fun node => ?_)
  split
  · exact keeps_pure hrefl ()
  · exact keeps_throw hrefl e

theorem keeps_makeDirs (hrefl : ∀ w, R w w)
    (htrans : ∀ w₁ w₂ w₃, R w₁ w₂ → R w₂ w₃ → R w₁ w₃)
    (hfails : ∀ w, R w { w with faults := w.faults.tail }) {above : Path}
    (hmkdir : ∀ q, q <:+ above → ∀ w t, w.tree.mkdir q = .ok t → R w ⟨t, w.faults.tail⟩) :
    Keeps R (makeDirs above) := by
  have hunless := keeps_unlessDir hrefl htrans hfails
  induction above with
  | nil =>
    have hhere : Keeps R (call (·.mkdir [])) := keeps_call hfails (hmkdir _ List.suffix_rfl)
    intro w
    have hfirst := hhere w
    simp only [makeDirs]
    cases h : call (·.mkdir []) w with
    | ok u w₁ =>
      rw [h] at hfirst
      exact hfirst
    | error e w₁ =>
      rw [h] at hfirst
      dsimp only
      split
      · exact hfirst
      · exact htrans _ _ _ hfirst (hunless [] e w₁)
  | cons name above ih =>
    have hrest := ih (fun q hq => hmkdir q (hq.trans (List.suffix_cons name above)))
    have hhere : Keeps R (call (·.mkdir (name :: above))) :=
      keeps_call hfails (hmkdir _ List.suffix_rfl)
    intro w
    have hfirst := hhere w
    simp only [makeDirs]
    cases h : call (·.mkdir (name :: above)) w with
    | ok u w₁ =>
      rw [h] at hfirst
      exact hfirst
    | error e w₁ =>
      rw [h] at hfirst
      have hsecond := htrans _ _ _ hfirst (hrest w₁)
      dsimp only
      split
      · cases h' : makeDirs above w₁ with
        | error e w₂ =>
          rw [h'] at hsecond
          exact hsecond
        | ok u w₂ =>
          rw [h'] at hsecond
          have hthird := htrans _ _ _ hsecond (hhere w₂)
          dsimp only
          cases h'' : call (·.mkdir (name :: above)) w₂ with
          | ok u w₃ =>
            rw [h''] at hthird
            exact hthird
          | error e w₃ =>
            rw [h''] at hthird
            exact htrans _ _ _ hthird (hunless (name :: above) e w₃)
      · exact htrans _ _ _ hfirst (hunless (name :: above) e w₁)

end

/-- What an attempt to put a file at a path does; where nothing goes wrong of itself,
nothing will. -/
structure Attempt (path : Path) (w w' : World) : Prop where
  within : FileTree.Tree.Within path w.tree w'.tree
  refused : ¬ NulFree path → w'.tree.node path = w.tree.node path
  refusedAbove : ¬ NulFree path.tail → w'.tree = w.tree
  faultless : w.faults = [] → w'.faults = []

theorem Attempt.refl (path : Path) (w : World) : Attempt path w w :=
  ⟨.refl _ _, fun _ => rfl, fun _ => rfl, id⟩

theorem Attempt.trans {path : Path} (w₁ w₂ w₃ : World) (h : Attempt path w₁ w₂)
    (h' : Attempt path w₂ w₃) : Attempt path w₁ w₃ where
  within := h.within.trans h'.within
  refused hnul := (h'.refused hnul).trans (h.refused hnul)
  refusedAbove hnul := (h'.refusedAbove hnul).trans (h.refusedAbove hnul)
  faultless hnil := h'.faultless (h.faultless hnil)

theorem attempt_of_fault (path : Path) (w : World) :
    Attempt path w { w with faults := w.faults.tail } := by
  refine ⟨.refl _ _, fun _ => rfl, fun _ => rfl, fun hnil => ?_⟩
  simp [hnil]

theorem attempt_of_tree {path : Path} {w : World} {t : Tree} (hnul : NulFree path)
    (h : FileTree.Tree.Within path w.tree t) : Attempt path w ⟨t, w.faults.tail⟩ := by
  refine ⟨h, fun hnot => absurd hnul hnot, fun hnot => absurd hnul.tail hnot, fun hnil => ?_⟩
  simp [hnil]

/-- The directories above a path are made on the way. -/
theorem attempt_of_mkdir {path q : Path} (hsuffix : q <:+ path.tail) {w : World} {t : Tree}
    (htail : NulFree path.tail) (h : w.tree.mkdir q = .ok t) :
    Attempt path w ⟨t, w.faults.tail⟩ := by
  obtain ⟨hnone, _, hnode⟩ := w.tree.mkdir_eq_ok h
  have hne : q ≠ path := by
    rintro rfl
    refine FileTree.not_suffix_tail ?_ hsuffix
    rintro rfl
    rw [w.tree.root] at hnone
    cases hnone
  refine ⟨FileTree.Tree.within_mkdir (hsuffix.trans (List.tail_suffix path)) hne h, fun _ => ?_,
    fun hnot => absurd htail hnot, fun hnil => ?_⟩
  · rw [hnode, if_neg hne.symm]
  · simp [hnil]

theorem keeps_createDirAll_tail (path : Path) :
    Keeps (Attempt path) (createDirAll path.tail) := by
  unfold createDirAll
  split
  · next htail =>
    exact keeps_makeDirs (Attempt.refl path) Attempt.trans (attempt_of_fault path)
      (fun q hq w t h => attempt_of_mkdir hq htail h)
  · exact keeps_throw (Attempt.refl path) _

/-- A path with a NUL is refused when it comes to it, with its directories made. -/
theorem bindAt_of_nul (umask : Nat) (listener : Listener) (mode : Nat) (text : Str) {path : Path}
    (hnul : ¬ NulFree path) : bindAt umask listener mode text path = (do
      createDirAll path.tail
      throw (.new .invalidInput "paths must not contain interior null bytes")) := by
  simp only [bindAt, removeOld, fileExists, if_neg hnul, bindSocket, if_pos hnul]
  rfl

theorem keeps_bindAt (umask : Nat) (listener : Listener) (mode : Nat) (text : Str) (path : Path) :
    Keeps (Attempt path) (bindAt umask listener mode text path) := by
  have hfault := attempt_of_fault path
  by_cases hnul : NulFree path
  · refine Keeps.bind Attempt.trans ?_ (fun _ => ?_)
    · rw [removeOld, fileExists, if_pos hnul]
      refine Keeps.bind Attempt.trans (Keeps.bind Attempt.trans (keeps_stat hfault path)
        (fun node => keeps_pure (Attempt.refl path) _)) (fun there => ?_)
      split
      · exact keeps_call hfault
          (fun w t h => attempt_of_tree hnul (FileTree.Tree.within_unlink h))
      · exact keeps_pure (Attempt.refl path) _
    refine Keeps.bind Attempt.trans (keeps_createDirAll_tail path) (fun _ => ?_)
    refine Keeps.bind Attempt.trans ?_ (fun _ => ?_)
    · rw [bindSocket, if_neg (not_not.mpr hnul)]
      split
      · exact keeps_throw (Attempt.refl path) _
      · exact keeps_call hfault (fun w t h => attempt_of_tree hnul (FileTree.Tree.within_bind h))
    · refine keeps_call hfault (fun w t h => attempt_of_tree hnul ?_)
      rw [w.tree.chmod_eq_ok h]
      exact FileTree.Tree.within_modify path _
  · rw [bindAt_of_nul umask listener mode text hnul]
    exact Keeps.bind Attempt.trans (keeps_createDirAll_tail path)
      (fun _ => keeps_throw (Attempt.refl path) _)

/-- `UnixListener::bind` takes the path for an address. -/
structure IsAddress (text : Str) (path : Path) : Prop where
  nulFree : NulFree path
  short : byteLen text < 108

theorem bindSocket_eq_ok {text : Str} {path : Path} {file : File} {w w' : World}
    (h : bindSocket text path file w = .ok () w') :
    IsAddress text path ∧ w.tree.bind path file = .ok w'.tree := by
  unfold bindSocket at h
  split at h
  · cases h
  next hnul =>
  split at h
  · cases h
  next hlong =>
  exact ⟨⟨not_not.mp hnul, Nat.lt_of_not_le hlong⟩, (call_eq_ok h).1⟩

theorem bindSocket_of_isAddress {text : Str} {path : Path} (h : IsAddress text path)
    (file : File) : bindSocket text path file = call (·.bind path file) := by
  rw [bindSocket, if_neg (not_not.mpr h.nulFree), if_neg (Nat.not_le.mpr h.short)]

/-- A socket that is bound is the file at its path, and nothing else changes but
that there are directories above it. -/
theorem tree_of_bindAt {umask : Nat} {listener : Listener} {mode : Nat} {text : Str} {path : Path}
    {w w' : World} (h : bindAt umask listener mode text path w = .ok () w') :
    IsAddress text path ∧
      ∃ hfree, w'.tree = w.tree.placed path ⟨mode, some listener⟩ hfree := by
  have hattempt := keeps_bindAt umask listener mode text path w
  rw [h, after_ok] at hattempt
  obtain ⟨_, w₁, _, h⟩ := bind_eq_ok_iff.mp h
  obtain ⟨_, w₂, _, h⟩ := bind_eq_ok_iff.mp h
  obtain ⟨_, w₃, hbind, hchmod⟩ := bind_eq_ok_iff.mp h
  obtain ⟨haddress, hbind⟩ := bindSocket_eq_ok hbind
  refine ⟨haddress, hattempt.within.eq_placed ?_⟩
  have hleaf : w₃.tree.node path = some (.leaf ⟨0o777 - umask, some listener⟩) := by
    rw [(w₂.tree.bind_eq_ok hbind).2.2, if_pos rfl]
  rw [w₃.tree.chmod_eq_ok (call_eq_ok hchmod).1, FileTree.Tree.node_modify, if_pos rfl, hleaf]
  rfl

/-- A call that nothing befalls does what it does to the files. -/
theorem call_faultless (op : Tree → Except Error Tree) {t t' : Tree} (h : op t = .ok t') :
    call op ⟨t, []⟩ = .ok () ⟨t', []⟩ := by
  simp only [call, List.head?_nil, Option.join_none, h, List.tail_nil]

theorem call_faultless_error (op : Tree → Except Error Tree) {t : Tree} {e : Error}
    (h : op t = .error e) : call op ⟨t, []⟩ = .error (ioError e) ⟨t, []⟩ := by
  simp only [call, List.head?_nil, Option.join_none, h, List.tail_nil]

theorem mkdir_of_lookup {t : Tree} {path : Path} (hnone : t.node path = none)
    (hdir : t.isDir path.tail = false)
    (habove : ∀ q, q <:+ path → q ≠ path → ∀ x, t.node q ≠ some (.leaf x)) :
    call (·.mkdir path) ⟨t, []⟩ = .error (.os 2) ⟨t, []⟩ := by
  have hmkdir := t.mkdir_of_absent hnone hdir
  rw [FileTree.Tree.lookupError_eq_notFound habove] at hmkdir
  exact call_faultless_error (·.mkdir path) hmkdir

/-- A directory that is there is no error. -/
theorem unlessDir_of_dir {t : Tree} {path : Path} (h : t.node path = some .dir) (e : IoError) :
    unlessDir path e ⟨t, []⟩ = .ok () ⟨t, []⟩ := by
  rw [unlessDir, bind_of_ok (stat_eq path t), h]
  rfl

theorem node_makeDirs {above q : Path} (hq : ¬ q <:+ above) (w : World) :
    (after (makeDirs above w)).tree.node q = w.tree.node q := by
  refine keeps_makeDirs (R := fun w w' => w'.tree.node q = w.tree.node q) (fun _ => rfl)
    (fun _ _ _ h h' => h'.trans h) (fun _ => rfl) ?_ w
  intro a ha w t h
  rw [(w.tree.mkdir_eq_ok h).2.2, if_neg]
  rintro rfl
  exact hq ha

/-- With nothing but directories in the way, they are made. -/
theorem exists_makeDirs (t : Tree) (above : Path)
    (h : ∀ q, q <:+ above → ∀ x, t.node q ≠ some (.leaf x)) :
    ∃ t', makeDirs above ⟨t, []⟩ = .ok () ⟨t', []⟩ ∧ t'.isDir above = true := by
  induction above with
  | nil =>
    refine ⟨t, ?_, t.isDir_nil⟩
    have hroot : call (·.mkdir []) ⟨t, []⟩ = .error (.os 17) ⟨t, []⟩ :=
      call_faultless_error (·.mkdir []) (t.mkdir_of_some (by simp [t.root]))
    simp only [makeDirs, hroot, isNotFound]
    exact unlessDir_of_dir t.root _
  | cons name above ih =>
    have hrest : ∀ q, q <:+ above → ∀ x, t.node q ≠ some (.leaf x) :=
      fun q hq => h q (hq.trans (List.suffix_cons name above))
    simp only [makeDirs]
    by_cases hnode : t.node (name :: above) = none
    · by_cases hdir : t.isDir above = true
      · obtain ⟨t', hmkdir⟩ := t.exists_mkdir hnode hdir
        refine ⟨t', by rw [call_faultless (·.mkdir (name :: above)) hmkdir], ?_⟩
        rw [FileTree.Tree.isDir_iff, (t.mkdir_eq_ok hmkdir).2.2, if_pos rfl]
      · have hfirst : call (·.mkdir (name :: above)) ⟨t, []⟩ = .error (.os 2) ⟨t, []⟩ :=
          mkdir_of_lookup hnode (by simpa using hdir) (fun q hq _ => h q hq)
        obtain ⟨t₁, hcreate, hdir₁⟩ := ih hrest
        have hnone : t₁.node (name :: above) = none := by
          have houtside := node_makeDirs (FileTree.not_suffix_tail (List.cons_ne_nil name above))
            ⟨t, []⟩
          rw [List.tail_cons, hcreate, after_ok] at houtside
          exact houtside.trans hnode
        obtain ⟨t', hmkdir⟩ := t₁.exists_mkdir hnone hdir₁
        refine ⟨t', ?_, ?_⟩
        · rw [hfirst]
          simp only [isNotFound, beq_self_eq_true, if_true, hcreate,
            call_faultless (·.mkdir (name :: above)) hmkdir]
        · rw [FileTree.Tree.isDir_iff, (t₁.mkdir_eq_ok hmkdir).2.2, if_pos rfl]
    · have hdir : t.node (name :: above) = some .dir := by
        cases hsome : t.node (name :: above) with
        | none => exact absurd hsome hnode
        | some node =>
          cases node with
          | dir => rfl
          | leaf x => exact absurd hsome (h _ List.suffix_rfl x)
      refine ⟨t, ?_, (t.isDir_iff _).mpr hdir⟩
      rw [call_faultless_error (·.mkdir (name :: above)) (t.mkdir_of_some hnode)]
      exact unlessDir_of_dir hdir _

/-- Then they are there, and all else is as it was. -/
theorem createDirAll_faultless (t : Tree) {above : Path} (hnul : NulFree above)
    (h : ∀ q, q <:+ above → ∀ x, t.node q ≠ some (.leaf x)) :
    ∃ t', createDirAll above ⟨t, []⟩ = .ok () ⟨t', []⟩ ∧
      ∀ q, t'.node q = if q <:+ above then some .dir else t.node q := by
  obtain ⟨t', hmake, hdir⟩ := exists_makeDirs t above h
  refine ⟨t', by rw [createDirAll, if_pos hnul, hmake], fun q => ?_⟩
  rw [FileTree.Tree.isDir_iff] at hdir
  split
  · next hsuffix =>
    by_cases heq : q = above
    · rw [heq, hdir]
    · exact t'.node_eq_dir_of_suffix (by simp [hdir]) hsuffix heq
  · next hnot =>
    have houtside := node_makeDirs hnot ⟨t, []⟩
    rwa [hmake, after_ok] at houtside

theorem removeOld_faultless {t : Tree} {path : Path} (hnul : NulFree path) (h : t.Free path) :
    ∃ t', removeOld path ⟨t, []⟩ = .ok () ⟨t', []⟩ ∧
      ∀ q, t'.node q = if q = path then none else t.node q := by
  cases hnode : t.node path with
  | none =>
    refine ⟨t, ?_, fun q => ?_⟩
    · rw [removeOld, bind_of_ok (fileExists_eq hnul t)]
      simp only [hnode, Option.isSome_none, Bool.false_eq_true, if_false]
      rfl
    · split
      · next heq => rw [heq, hnode]
      · rfl
  | some node =>
    cases node with
    | dir => exact absurd hnode h.notDir
    | leaf x =>
      obtain ⟨t', hunlink⟩ := t.exists_unlink hnode
      refine ⟨t', ?_, (t.unlink_eq_ok hunlink).2⟩
      rw [removeOld, bind_of_ok (fileExists_eq hnul t)]
      simp only [hnode, Option.isSome_some, if_true]
      exact call_faultless (·.unlink path) hunlink

/-- Where nothing is in the way, the place is cleared and its directories are made. -/
theorem clear_faultless {t : Tree} {path : Path} (hnul : NulFree path) (h : t.Free path) :
    ∃ t', (do removeOld path; createDirAll path.tail : Sys Unit) ⟨t, []⟩ = .ok () ⟨t', []⟩ ∧
      ∀ q, t'.node q =
        if q <:+ path.tail then some .dir else if q = path then none else t.node q := by
  obtain ⟨t₁, hremove, hnode₁⟩ := removeOld_faultless hnul h
  have htail : ∀ q, q <:+ path.tail → q ≠ path := by
    rintro q hq rfl
    exact FileTree.not_suffix_tail h.ne_nil hq
  obtain ⟨t₂, hcreate, hnode₂⟩ := createDirAll_faultless t₁ hnul.tail (by
    intro q hq x
    rw [hnode₁, if_neg (htail q hq)]
    exact h.above_tail hq x)
  refine ⟨t₂, by rw [bind_of_ok hremove, hcreate], fun q => ?_⟩
  rw [hnode₂, hnode₁]

/-- Where nothing is in the way and nothing else befalls it, a socket is bound. -/
theorem bindAt_faultless (umask : Nat) (listener : Listener) (mode : Nat) {text : Str} {path : Path}
    (haddress : IsAddress text path) {t : Tree} (h : t.Free path) :
    bindAt umask listener mode text path ⟨t, []⟩ =
      .ok () ⟨t.placed path ⟨mode, some listener⟩ h, []⟩ := by
  have hsucceeds : ∃ w', bindAt umask listener mode text path ⟨t, []⟩ = .ok () w' := by
    obtain ⟨t₂, hclear, hnode⟩ := clear_faultless haddress.nulFree h
    have hnot : ¬ path <:+ path.tail := FileTree.not_suffix_tail h.ne_nil
    obtain ⟨t₃, hbind⟩ := t₂.exists_bind ⟨0o777 - umask, some listener⟩
      (by rw [hnode, if_neg hnot, if_pos rfl])
      (by rw [FileTree.Tree.isDir_iff, hnode, if_pos List.suffix_rfl])
    obtain ⟨t₄, hchmod⟩ := t₃.exists_chmod path
      (fun file => { file with mode := mode }) (by simp [(t₂.bind_eq_ok hbind).2.2])
    refine ⟨⟨t₄, []⟩, ?_⟩
    rw [bindAt, ← bind_assoc, bind_of_ok hclear, bindSocket_of_isAddress haddress,
      bind_of_ok (call_faultless (·.bind path ⟨0o777 - umask, some listener⟩) hbind)]
    exact call_faultless (·.chmod path (fun file => { file with mode := mode })) hchmod
  obtain ⟨w', hok⟩ := hsucceeds
  have hattempt := keeps_bindAt umask listener mode text path ⟨t, []⟩
  rw [hok, after_ok] at hattempt
  obtain ⟨-, _, htree⟩ := tree_of_bindAt hok
  have hworld : w' = ⟨w'.tree, w'.faults⟩ := rfl
  rw [hok, hworld, hattempt.faultless rfl, htree]

/-- After whatever became of an attempt, a socket is bound, or refused, as before it. -/
theorem bindAt_again {umask : Nat} {listener : Listener} {mode : Nat} {text : Str} {path : Path}
    {w w' : World} (h : Attempt path w w') :
    bindAt umask listener mode text path ⟨w'.tree, []⟩ =
      bindAt umask listener mode text path ⟨w.tree, []⟩ := by
  by_cases hfree : w.tree.Free path
  · have hfree' : w'.tree.Free path := h.within.free_iff.mpr hfree
    have hother : ∀ q, ¬ q <:+ path.tail → q ≠ path → w'.tree.node q = w.tree.node q := by
      intro q htail hne
      refine h.within.outside q (fun hsuffix => ?_)
      cases path with
      | nil => exact hne (List.suffix_nil.mp hsuffix)
      | cons name above => exact htail ((List.suffix_cons_iff.mp hsuffix).resolve_left hne)
    by_cases hnul : NulFree path
    · by_cases hshort : byteLen text < 108
      · rw [bindAt_faultless umask listener mode ⟨hnul, hshort⟩ hfree,
          bindAt_faultless umask listener mode ⟨hnul, hshort⟩ hfree', h.within.placed_eq hfree]
      · -- the place is cleared, and then the path is too long
        obtain ⟨t₁, hclear, hnode⟩ := clear_faultless hnul hfree
        obtain ⟨t₂, hclear', hnode'⟩ := clear_faultless hnul hfree'
        have hsame : t₂ = t₁ := by
          ext1
          funext q
          rw [hnode, hnode']
          split
          · rfl
          · next htail =>
            split
            · rfl
            · next hne => exact hother q htail hne
        rw [bindAt, ← bind_assoc]
        exact bind_congr (hclear'.trans (hsame ▸ hclear.symm))
    · rw [bindAt_of_nul umask listener mode text hnul]
      by_cases htail : NulFree path.tail
      · obtain ⟨t₁, hcreate, hnode⟩ :=
          createDirAll_faultless w.tree htail (fun q hq x => hfree.above_tail hq x)
        obtain ⟨t₂, hcreate', hnode'⟩ :=
          createDirAll_faultless w'.tree htail (fun q hq x => hfree'.above_tail hq x)
        have hsame : t₂ = t₁ := by
          ext1
          funext q
          rw [hnode, hnode']
          split
          · rfl
          · next hsuffix =>
            by_cases hpath : q = path
            · rw [hpath, h.refused hnul]
            · exact hother q hsuffix hpath
        exact bind_congr (hcreate'.trans (hsame ▸ hcreate.symm))
      · rw [h.refusedAbove htail]
  · rw [h.within.untouched hfree]

theorem bindAt_of_leaf {umask : Nat} {listener : Listener} {mode : Nat} {text : Str} {path : Path}
    (haddress : IsAddress text path) {t : Tree}
    (h : t.node path = some (.leaf ⟨mode, some listener⟩)) :
    bindAt umask listener mode text path ⟨t, []⟩ = .ok () ⟨t, []⟩ := by
  obtain ⟨hfree, heq⟩ := (FileTree.Tree.Within.refl path t).eq_placed h
  rw [bindAt_faultless umask listener mode haddress hfree, ← heq]

/-- Of two sockets, the first one is bound again as if the second one had not been
tried, and the second one then as before. -/
theorem bindAt_again_second (umask : Nat) (listener' : Listener) (mode' : Nat) (text' : Str)
    {listener : Listener} {mode : Nat} {text : Str} {path path' : Path}
    (haddress : IsAddress text path) {w w' : World}
    (hleaf : w.tree.node path = some (.leaf ⟨mode, some listener⟩)) (h : Attempt path' w w') :
    (do bindAt umask listener mode text path
        bindAt umask listener' mode' text' path' : Sys Unit) ⟨w'.tree, []⟩ =
      bindAt umask listener' mode' text' path' ⟨w.tree, []⟩ := by
  by_cases hpath : path' = path
  · subst hpath
    rw [bind_of_ok ((bindAt_again h).trans (bindAt_of_leaf haddress hleaf))]
  · by_cases hfree : w.tree.Free path'
    · have hnot : ¬ path <:+ path' := fun hsuffix =>
        hfree.above path hsuffix (Ne.symm hpath) _ hleaf
      have hleaf' : w'.tree.node path = some (.leaf ⟨mode, some listener⟩) := by
        rw [h.within.outside path hnot, hleaf]
      rw [bind_of_ok (bindAt_of_leaf haddress hleaf')]
      exact bindAt_again h
    · rw [h.within.untouched hfree, bind_of_ok (bindAt_of_leaf haddress hleaf)]

theorem tree_of_bindDns (front : Option DnsFrontendConfig) (w : World) :
    (after (bindDns front w)).tree = w.tree := by
  have hcall : ∀ w : World, (after (call .ok w)).tree = w.tree :=
    keeps_call (R := fun w w' => w'.tree = w.tree) (fun _ => rfl)
      (fun w t h => (Except.ok.inj h).symm)
  cases front with
  | none => rfl
  | some front =>
    simp only [bindDns]
    cases front.upstream with
    | none => rfl
    | some upstream =>
      exact Keeps.bind (R := fun w w' => w'.tree = w.tree) (fun _ _ _ h h' => h'.trans h) hcall
        (fun _ => hcall) w

theorem tree_of_bind {m : Sys Unit} {f : Unit → Sys Unit} {w : World}
    (hf : ∀ w, (after (f () w)).tree = w.tree) :
    (after ((m >>= f) w)).tree = (after (m w)).tree := by
  cases h : m w with
  | ok u w' =>
    rw [bind_of_ok h]
    exact hf w'
  | error e w' =>
    rw [bind_of_error h]

theorem bindAll_again (env : Env) (cfg : PolicyConfig) (t : Tree) (faults : List (Option IoError)) :
    bindAll env cfg ⟨(after (bindAll env cfg ⟨t, faults⟩)).tree, []⟩ = bindAll env cfg ⟨t, []⟩ := by
  have hattempt := keeps_bindAt env.umask .policySocket 0o660 env.socket env.socketPath ⟨t, faults⟩
  cases hfirst : bindPolicySocket env ⟨t, faults⟩ with
  | error e w₁ =>
    -- the first socket is tried again, and what follows follows
    rw [bindAll, bind_of_error hfirst, after_error]
    rw [bindPolicySocket] at hfirst
    rw [hfirst, after_error] at hattempt
    exact bind_congr (bindAt_again hattempt)
  | ok u w₁ =>
    obtain ⟨haddress, hfree, htree⟩ := tree_of_bindAt hfirst
    have hleaf : w₁.tree.node env.socketPath = some (.leaf ⟨0o660, some .policySocket⟩) := by
      rw [htree]
      simp [FileTree.Tree.placed]
    have hfresh : bindPolicySocket env ⟨t, []⟩ = .ok () ⟨w₁.tree, []⟩ := by
      rw [bindPolicySocket, bindAt_faultless env.umask .policySocket 0o660 haddress hfree, htree]
    have hrest : bindAll env cfg ⟨t, []⟩ = (do bindNscd env cfg.nscd; bindDns cfg.dns : Sys Unit)
        ⟨w₁.tree, []⟩ := bind_of_ok hfresh
    have hbehind : (after (bindAll env cfg ⟨t, faults⟩)).tree =
        (after (bindNscd env cfg.nscd w₁)).tree := by
      rw [bindAll, bind_of_ok hfirst]
      exact tree_of_bind (tree_of_bindDns cfg.dns)
    rw [hbehind, hrest, bindAll]
    cases cfg.nscd with
    | none => exact bind_of_ok (bindAt_of_leaf haddress hleaf)
    | some front =>
      have hsecond := keeps_bindAt env.umask .nscd 0o666 front.listen (env.resolve front.listen) w₁
      have hboth := bindAt_again_second env.umask .nscd 0o666 front.listen haddress hleaf hsecond
      rw [← bind_assoc]
      exact bind_congr hboth

variable (cel : Cel) (env : Env) (passwd : Passwd) (files : Files) (cfg : PolicyConfig)

/-- Whatever a start does, what was there before is still there, but for files at
the places of its sockets. -/
theorem kept_bindAll (t : Tree) (faults : List (Option IoError)) (q : Path)
    (hthere : t.node q ≠ none)
    (hq : t.node q = some .dir ∨ q ≠ env.socketPath ∧
      ∀ front, cfg.nscd = some front → q ≠ env.resolve front.listen) :
    (after (bindAll env cfg ⟨t, faults⟩)).tree.node q = t.node q := by
  have hfirst := (keeps_bindAt env.umask .policySocket 0o660 env.socket env.socketPath
    ⟨t, faults⟩).within.kept hthere (hq.symm.imp And.left id)
  cases h : bindPolicySocket env ⟨t, faults⟩ with
  | error e w₁ =>
    rw [bindPolicySocket] at h
    rw [bindAll, bindPolicySocket, bind_of_error h, after_error]
    rwa [h, after_error] at hfirst
  | ok u w₁ =>
    rw [bindAll, bind_of_ok h, tree_of_bind (tree_of_bindDns cfg.dns)]
    rw [bindPolicySocket] at h
    rw [h, after_ok] at hfirst
    cases hnscd : cfg.nscd with
    | none => exact hfirst
    | some front =>
      have hsecond := (keeps_bindAt env.umask .nscd 0o666 front.listen (env.resolve front.listen)
        w₁).within.kept (hfirst ▸ hthere)
        (hq.symm.imp (fun hne => hne.2 front hnscd) (fun hdir => hfirst.trans hdir))
      exact hsecond.trans hfirst

/-- The paths of the sockets that are configured can be addresses, nothing is in their
way, and the front-end for DNS has its upstream server. -/
structure Startable (t : Tree) : Prop where
  socketAddress : IsAddress env.socket env.socketPath
  socket : t.Free env.socketPath
  nscdAddress : ∀ front, cfg.nscd = some front →
    IsAddress front.listen (env.resolve front.listen)
  nscd : ∀ front, cfg.nscd = some front → env.resolve front.listen = env.socketPath ∨
    (t.Free (env.resolve front.listen) ∧ ¬ env.socketPath <:+ env.resolve front.listen ∧
      ¬ env.resolve front.listen <:+ env.socketPath)
  dns : ∀ front, cfg.dns = some front → front.upstream ≠ none

theorem bindDns_faultless_iff (front : Option DnsFrontendConfig) (t : Tree) :
    (∃ w, bindDns front ⟨t, []⟩ = .ok () w) ↔
      ∀ front', front = some front' → front'.upstream ≠ none := by
  cases front with
  | none =>
    refine ⟨fun _ front' h => ?_, fun _ => ⟨_, rfl⟩⟩
    cases h
  | some front =>
    simp only [Option.some.injEq, forall_eq', bindDns]
    cases front.upstream with
    | none =>
      refine ⟨?_, fun h => absurd rfl h⟩
      rintro ⟨w, h⟩
      cases h
    | some upstream => exact iff_of_true ⟨_, rfl⟩ (Option.some_ne_none upstream)

theorem bindAt_faultless_iff (umask : Nat) (listener : Listener) (mode : Nat) (text : Str)
    (path : Path) (t : Tree) :
    (∃ w, bindAt umask listener mode text path ⟨t, []⟩ = .ok () w) ↔
      IsAddress text path ∧ t.Free path := by
  constructor
  · rintro ⟨w, h⟩
    obtain ⟨haddress, hfree, _⟩ := tree_of_bindAt h
    exact ⟨haddress, hfree⟩
  · rintro ⟨haddress, hfree⟩
    exact ⟨_, bindAt_faultless umask listener mode haddress hfree⟩

theorem bindAll_faultless_iff (t : Tree) :
    (∃ w, bindAll env cfg ⟨t, []⟩ = .ok () w) ↔ Startable env cfg t := by
  by_cases hsocket : IsAddress env.socket env.socketPath ∧ t.Free env.socketPath
  · obtain ⟨haddress, hfree⟩ := hsocket
    have hfirst : bindPolicySocket env ⟨t, []⟩ = .ok () ⟨t.placed _ _ hfree, []⟩ :=
      bindAt_faultless env.umask .policySocket 0o660 haddress hfree
    have hstartable : Startable env cfg t ↔
        (∀ front, cfg.nscd = some front → IsAddress front.listen (env.resolve front.listen) ∧
          (t.placed env.socketPath ⟨0o660, some .policySocket⟩ hfree).Free
            (env.resolve front.listen)) ∧
        ∀ front, cfg.dns = some front → front.upstream ≠ none := by
      simp only [FileTree.Tree.free_placed_iff hfree]
      exact ⟨fun h => ⟨fun front hfront => ⟨h.nscdAddress front hfront, h.nscd front hfront⟩, h.dns⟩,
        fun h => ⟨haddress, hfree, fun front hfront => (h.1 front hfront).1,
          fun front hfront => (h.1 front hfront).2, h.2⟩⟩
    rw [hstartable, bindAll, bind_of_ok hfirst]
    cases cfg.nscd with
    | none =>
      have hnone : bindNscd env none ⟨t.placed env.socketPath ⟨0o660, some .policySocket⟩ hfree,
          []⟩ = .ok () ⟨_, []⟩ := rfl
      rw [bind_of_ok hnone, bindDns_faultless_iff]
      simp
    | some front =>
      simp only [Option.some.injEq, forall_eq']
      by_cases hnscd : IsAddress front.listen (env.resolve front.listen) ∧
          (t.placed env.socketPath ⟨0o660, some .policySocket⟩ hfree).Free
            (env.resolve front.listen)
      · have hsecond : bindNscd env (some front)
            ⟨t.placed env.socketPath ⟨0o660, some .policySocket⟩ hfree, []⟩ = .ok () ⟨_, []⟩ :=
          bindAt_faultless env.umask .nscd 0o666 hnscd.1 hnscd.2
        rw [bind_of_ok hsecond, bindDns_faultless_iff]
        exact (and_iff_right hnscd).symm
      · refine iff_of_false ?_ (fun h => hnscd h.1)
        rintro ⟨w, h⟩
        obtain ⟨_, w₁, hsecond, _⟩ := bind_eq_ok_iff.mp h
        exact hnscd ((bindAt_faultless_iff _ _ _ _ _ _).mp ⟨w₁, hsecond⟩)
  · refine iff_of_false ?_ (fun h => hsocket ⟨h.socketAddress, h.socket⟩)
    rintro ⟨w, h⟩
    obtain ⟨_, w₁, hfirst, _⟩ := bind_eq_ok_iff.mp h
    exact hsocket ((bindAt_faultless_iff _ _ _ _ _ _).mp ⟨w₁, hfirst⟩)

/-- With no failure but its own, the daemon starts exactly if its lists and rules
load, its relay is a user, and the paths of its sockets can be addresses, with nothing
in their way, and neither above the other. -/
theorem start_succeeds_iff (t : Tree) :
    (∃ parts w, start cel env passwd files cfg ⟨t, []⟩ = .ok parts w) ↔
      (∃ engine : PolicyEngine cel, PolicyEngine.fromConfig files cfg = .ok engine) ∧
      (∃ relays, ListenerRelays.forConfig passwd cfg = .ok relays) ∧ Startable env cfg t := by
  rw [← bindAll_faultless_iff]
  unfold start
  cases (PolicyEngine.fromConfig files cfg : Except (ConfigError cel) (PolicyEngine cel)) with
  | error e => simp
  | ok engine =>
    cases ListenerRelays.forConfig passwd cfg with
    | error e => simp
    | ok relays =>
      cases bindAll env cfg ⟨t, []⟩ with
      | error e w => simp
      | ok u w => simp

variable {env cfg} in
theorem tree_of_bindAll {w w' : World} (h : bindAll env cfg w = .ok () w') :
    (∀ front, cfg.nscd = some front →
      w'.tree.node (env.resolve front.listen) = some (.leaf ⟨0o666, some .nscd⟩)) ∧
    (w'.tree.node env.socketPath = some (.leaf ⟨0o660, some .policySocket⟩) ↔
      ∀ front, cfg.nscd = some front → env.resolve front.listen ≠ env.socketPath) := by
  obtain ⟨_, w₁, hfirst, h⟩ := bind_eq_ok_iff.mp h
  obtain ⟨_, w₂, hsecond, hdns⟩ := bind_eq_ok_iff.mp h
  have htree : w'.tree = w₂.tree := by
    have hkept := tree_of_bindDns cfg.dns w₂
    rwa [hdns, after_ok] at hkept
  have hsocket : w₁.tree.node env.socketPath = some (.leaf ⟨0o660, some .policySocket⟩) := by
    obtain ⟨-, _, heq⟩ := tree_of_bindAt hfirst
    rw [heq]
    simp [FileTree.Tree.placed]
  rw [htree]
  cases hnscd : cfg.nscd with
  | none =>
    rw [hnscd] at hsecond
    cases hsecond
    simp [hsocket]
  | some front =>
    rw [hnscd] at hsecond
    obtain ⟨-, hfree, heq⟩ := tree_of_bindAt hsecond
    have hlisten : w₂.tree.node (env.resolve front.listen) =
        some (.leaf ⟨0o666, some .nscd⟩) := by
      rw [heq]
      simp [FileTree.Tree.placed]
    simp only [Option.some.injEq, forall_eq']
    refine ⟨hlisten, ?_⟩
    by_cases hsame : env.resolve front.listen = env.socketPath
    · rw [hsame] at hlisten
      simp [hlisten, hsame]
    · have hnot : ¬ env.socketPath <:+ env.resolve front.listen := fun hsuffix =>
        hfree.above _ hsuffix (Ne.symm hsame) _ hsocket
      refine iff_of_true ?_ hsame
      rw [heq]
      simp only [FileTree.Tree.placed, if_neg (Ne.symm hsame), if_neg hnot, hsocket]

/-- A start, however it ends, leaves everything there that is not in the place of a
socket. One that succeeds leaves nscd's socket open to all, and its own to its
group, unless it has put the first one in the place of the other. -/
theorem start_leaves (t : Tree) (faults : List (Option IoError)) :
    (∀ q, t.node q ≠ none →
      (t.node q = some .dir ∨ q ≠ env.socketPath ∧
        ∀ front, cfg.nscd = some front → q ≠ env.resolve front.listen) →
      (after (start cel env passwd files cfg ⟨t, faults⟩)).tree.node q = t.node q) ∧
    ∀ parts w, start cel env passwd files cfg ⟨t, faults⟩ = .ok parts w →
      (∀ front, cfg.nscd = some front →
        w.tree.node (env.resolve front.listen) = some (.leaf ⟨0o666, some .nscd⟩)) ∧
      (w.tree.node env.socketPath = some (.leaf ⟨0o660, some .policySocket⟩) ↔
        ∀ front, cfg.nscd = some front → env.resolve front.listen ≠ env.socketPath) := by
  have hkept := kept_bindAll env cfg t faults
  unfold start
  cases (PolicyEngine.fromConfig files cfg : Except (ConfigError cel) (PolicyEngine cel)) with
  | error e => simp
  | ok engine =>
    cases ListenerRelays.forConfig passwd cfg with
    | error e => simp
    | ok relays =>
      dsimp only
      cases hresult : bindAll env cfg ⟨t, faults⟩ with
      | error e w =>
        rw [hresult, after_error] at hkept
        exact ⟨hkept, fun _ _ h => by cases h⟩
      | ok u w =>
        rw [hresult, after_ok] at hkept
        refine ⟨hkept, fun parts w' h => ?_⟩
        cases h
        exact tree_of_bindAll hresult

/-- A machine with nothing but `/`. -/
def bareTree : Tree where
  node := fun q => if q = [] then some .dir else none
  root := rfl
  parents := by
    intro name path h
    exact absurd rfl h

/-- The daemon's own socket is `/s`. -/
def testEnv : Env where
  umask := 0o022
  socket := ['s']
  resolve := fun listen => [listen]

/-- The nscd front-end alone, listening at a path. -/
def listeningAt (listen : Str) : PolicyConfig where
  defaultVerdict := .passthrough
  blocklists := []
  rules := []
  nscdUser := none
  nscdFrontend := some ⟨true, listen, ['u']⟩
  dnsFrontend := none
  nssFrontend := none

theorem bareTree_free {path : Path} (h : path ≠ []) : bareTree.Free path where
  notDir := by simp [bareTree, h]
  above := by
    intro q _ _ x
    simp only [bareTree]
    split <;> simp

theorem exists_start_listeningAt (passwd : Passwd) (listen : Str)
    (h : Startable testEnv (listeningAt listen) bareTree) :
    ∃ parts w, start Cel.direct testEnv passwd (fun _ => .error (.os 2)) (listeningAt listen)
      ⟨bareTree, []⟩ = .ok parts w := by
  obtain ⟨w, hbind⟩ := (bindAll_faultless_iff _ _ _).mpr h
  refine ⟨(⟨[], ∅, .passthrough⟩, ⟨⟨∅⟩, ⟨∅⟩⟩), w, ?_⟩
  unfold start
  rw [hbind]
  rfl

/-- A front-end in a place of its own, and one in the place of the daemon's own socket,
which then is gone. -/
theorem start_leaves_sockets :
    (∃ parts w, start Cel.direct testEnv Lookup.testPasswd (fun _ => .error (.os 2))
        (listeningAt ['n']) ⟨bareTree, []⟩ = .ok parts w ∧
      w.tree.node testEnv.socketPath = some (.leaf ⟨0o660, some .policySocket⟩)) ∧
    ∃ parts w, start Cel.direct testEnv Lookup.testPasswd (fun _ => .error (.os 2))
        (listeningAt ['s']) ⟨bareTree, []⟩ = .ok parts w ∧
      w.tree.node testEnv.socketPath ≠ some (.leaf ⟨0o660, some .policySocket⟩) := by
  have hsocket : bareTree.Free testEnv.socketPath := bareTree_free (by decide)
  have hapart : Startable testEnv (listeningAt ['n']) bareTree := by
    refine ⟨⟨by decide, by decide⟩, hsocket, fun front hfront => ?_, fun front hfront => .inr ?_,
      fun front hfront => by cases hfront⟩
    · cases hfront
      exact ⟨by decide, by decide⟩
    · cases hfront
      exact ⟨bareTree_free (by decide), by decide, by decide⟩
  have hsame : Startable testEnv (listeningAt ['s']) bareTree := by
    refine ⟨⟨by decide, by decide⟩, hsocket, fun front hfront => ?_, fun front hfront => .inl ?_,
      fun front hfront => by cases hfront⟩
    · cases hfront
      exact ⟨by decide, by decide⟩
    · cases hfront
      rfl
  constructor
  · obtain ⟨parts, w, h⟩ := exists_start_listeningAt Lookup.testPasswd ['n'] hapart
    refine ⟨parts, w, h, (((start_leaves Cel.direct testEnv Lookup.testPasswd _ _ bareTree []).2
      parts w h).2).mpr fun front hfront => ?_⟩
    cases hfront
    decide
  · obtain ⟨parts, w, h⟩ := exists_start_listeningAt Lookup.testPasswd ['s'] hsame
    refine ⟨parts, w, h, fun hnode => ?_⟩
    have hall := (((start_leaves Cel.direct testEnv Lookup.testPasswd _ _ bareTree []).2
      parts w h).2).mp hnode
    exact hall _ rfl rfl

end Deezns.Startup
