import Mathlib.Data.List.Basic

/-!
# A tree of files

A path is its names, the last one first, so that the path without its head is
its directory. Whatever is there is in a directory that is there. The operations
are those of the system calls, with their errors.
-/
namespace FileTree

/-- What is at a path: a directory, or something that is none. -/
inductive Node (ν : Type) where
  | dir
  | leaf (x : ν)
  deriving DecidableEq, Repr

def Node.modify {ν : Type} (f : ν → ν) : Node ν → Node ν
  | .dir => .dir
  | .leaf x => .leaf (f x)

def Node.isDir {ν : Type} : Node ν → Bool
  | .dir => true
  | .leaf _ => false

/-- The errors of the calls. -/
inductive Error where
  | notFound | notADirectory | isADirectory | alreadyExists | addressInUse
  deriving DecidableEq, Repr

@[ext] structure Tree (α ν : Type) where
  node : List α → Option (Node ν)
  root : node [] = some .dir
  parents : ∀ name path, node (name :: path) ≠ none → node path = some .dir

theorem ne_of_not_suffix {α : Type} {q path : List α} (h : ¬ q <:+ path) : q ≠ path := by
  rintro rfl
  exact h List.suffix_rfl

theorem not_suffix_tail {α : Type} {path : List α} (h : path ≠ []) : ¬ path <:+ path.tail := by
  intro hsuffix
  have hlen := hsuffix.length_le
  have hpos := List.length_pos_iff.mpr h
  rw [List.length_tail] at hlen
  omega

namespace Tree

section
variable {α ν : Type} (t : Tree α ν)

def isDir (path : List α) : Bool := (t.node path).any Node.isDir

theorem isDir_iff (path : List α) : t.isDir path = true ↔ t.node path = some .dir := by
  unfold isDir
  cases t.node path with
  | none => simp
  | some node => cases node <;> simp [Node.isDir]

@[simp] theorem isDir_nil : t.isDir [] = true := (t.isDir_iff []).mpr t.root

/-- Above what is there are directories. -/
theorem node_eq_dir_of_suffix {path above : List α} (h : t.node path ≠ none)
    (hsuffix : above <:+ path) (hne : above ≠ path) : t.node above = some .dir := by
  induction path with
  | nil => exact absurd (List.suffix_nil.mp hsuffix) hne
  | cons name path ih =>
    have hpath := t.parents name path h
    rcases List.suffix_cons_iff.mp hsuffix with heq | hsuffix
    · exact absurd heq hne
    · by_cases heq : above = path
      · rw [heq]
        exact hpath
      · exact ih (by simp [hpath]) hsuffix heq

/-- Below what is no directory there is nothing. -/
theorem node_eq_none_of_suffix {path above : List α} (h : t.node above ≠ some .dir)
    (hsuffix : above <:+ path) (hne : above ≠ path) : t.node path = none := by
  by_contra hpath
  exact h (t.node_eq_dir_of_suffix hpath hsuffix hne)

/-- The error of a path with nothing at it: what is above it may be no directory. -/
def lookupError : List α → Error
  | [] => .notFound
  | _ :: path =>
    match t.node path with
    | none => lookupError path
    | some .dir => .notFound
    | some (.leaf _) => .notADirectory

end

section
variable {α ν : Type} [DecidableEq α] (t : Tree α ν)

/-- Something else, or nothing, at a path with no directory at it. -/
def set (path : List α) (x : Option (Node ν)) (hhere : t.isDir path = false)
    (habove : x = none ∨ t.isDir path.tail = true) : Tree α ν where
  node := Function.update t.node path x
  root := by
    have hne : path ≠ [] := by
      rintro rfl
      rw [t.isDir_nil] at hhere
      cases hhere
    rw [Function.update_of_ne hne.symm, t.root]
  parents := by
    intro name above h
    have hother : t.node above = some .dir → above ≠ path := by
      rintro hdir rfl
      rw [(t.isDir_iff above).mpr hdir] at hhere
      cases hhere
    by_cases hpath : name :: above = path
    · rw [hpath, Function.update_self] at h
      rcases habove with hnone | hdir
      · exact absurd hnone h
      · rw [← hpath, List.tail_cons, isDir_iff] at hdir
        rw [Function.update_of_ne (hother hdir), hdir]
    · rw [Function.update_of_ne hpath] at h
      have hdir := t.parents name above h
      rw [Function.update_of_ne (hother hdir), hdir]

@[simp] theorem node_set (path : List α) (x : Option (Node ν)) (hhere habove) (q : List α) :
    (t.set path x hhere habove).node q = if q = path then x else t.node q := by
  simp only [set, Function.update_apply]

/-- `chmod` and the like: something about what is at a path changes. -/
def modify (path : List α) (f : ν → ν) : Tree α ν where
  node := fun q => if q = path then (t.node q).map (Node.modify f) else t.node q
  root := by
    split
    · rw [t.root]
      rfl
    · exact t.root
  parents := by
    intro name above h
    have hdir : t.node above = some .dir := by
      refine t.parents name above (fun hnone => h ?_)
      rw [hnone]
      split <;> rfl
    rw [hdir]
    split <;> rfl

theorem node_modify (path : List α) (f : ν → ν) (q : List α) :
    (t.modify path f).node q = if q = path then (t.node q).map (Node.modify f) else t.node q :=
  rfl

/-- `unlink`. -/
def unlink (path : List α) : Except Error (Tree α ν) :=
  if h : t.isDir path = true then .error .isADirectory
  else if (t.node path).isNone then .error (t.lookupError path)
  else .ok (t.set path none (by simpa using h) (.inl rfl))

/-- `mkdir`. -/
def mkdir (path : List α) : Except Error (Tree α ν) :=
  if hpath : (t.node path).isSome then .error .alreadyExists
  else if h : t.isDir path.tail = true then
    .ok (t.set path (some .dir) (by simp_all [isDir]) (.inr h))
  else .error (t.lookupError path)

/-- `bind`, which makes a file of its own for a socket. -/
def bind (path : List α) (x : ν) : Except Error (Tree α ν) :=
  if hpath : (t.node path).isSome then .error .addressInUse
  else if h : t.isDir path.tail = true then
    .ok (t.set path (some (.leaf x)) (by simp_all [isDir]) (.inr h))
  else .error (t.lookupError path)

/-- `chmod`. -/
def chmod (path : List α) (f : ν → ν) : Except Error (Tree α ν) :=
  if (t.node path).isNone then .error (t.lookupError path) else .ok (t.modify path f)

theorem unlink_eq_ok {path : List α} {t' : Tree α ν} (h : t.unlink path = .ok t') :
    (∃ x, t.node path = some (.leaf x)) ∧
      ∀ q, t'.node q = if q = path then none else t.node q := by
  unfold unlink at h
  split at h
  · cases h
  next hdir =>
  split at h
  · cases h
  next hsome =>
  cases h
  refine ⟨?_, fun q => t.node_set path none _ _ q⟩
  cases hnode : t.node path with
  | none => simp [hnode] at hsome
  | some node =>
    cases node with
    | dir => exact absurd ((t.isDir_iff path).mpr hnode) hdir
    | leaf x => exact ⟨x, rfl⟩

theorem mkdir_eq_ok {path : List α} {t' : Tree α ν} (h : t.mkdir path = .ok t') :
    t.node path = none ∧ t.isDir path.tail = true ∧
      ∀ q, t'.node q = if q = path then some .dir else t.node q := by
  unfold mkdir at h
  split at h
  · cases h
  next hsome =>
  split at h
  · next hdir =>
    cases h
    exact ⟨by simpa using hsome, hdir, fun q => t.node_set path _ _ _ q⟩
  · cases h

theorem bind_eq_ok {path : List α} {x : ν} {t' : Tree α ν} (h : t.bind path x = .ok t') :
    t.node path = none ∧ t.isDir path.tail = true ∧
      ∀ q, t'.node q = if q = path then some (.leaf x) else t.node q := by
  unfold bind at h
  split at h
  · cases h
  next hsome =>
  split at h
  · next hdir =>
    cases h
    exact ⟨by simpa using hsome, hdir, fun q => t.node_set path _ _ _ q⟩
  · cases h

theorem exists_unlink {path : List α} {x : ν} (h : t.node path = some (.leaf x)) :
    ∃ t', t.unlink path = .ok t' := by
  have hdir : ¬ t.isDir path = true := by simp [isDir_iff, h]
  rw [unlink, dif_neg hdir, if_neg (by simp [h])]
  exact ⟨_, rfl⟩

theorem exists_mkdir {path : List α} (hnone : t.node path = none)
    (hdir : t.isDir path.tail = true) : ∃ t', t.mkdir path = .ok t' := by
  rw [mkdir, dif_neg (by simp [hnone]), dif_pos hdir]
  exact ⟨_, rfl⟩

theorem mkdir_of_some {path : List α} (h : t.node path ≠ none) :
    t.mkdir path = .error .alreadyExists := by
  rw [mkdir, dif_pos (by simpa [Option.isSome_iff_ne_none] using h)]

theorem mkdir_of_absent {path : List α} (hnone : t.node path = none)
    (hdir : t.isDir path.tail = false) : t.mkdir path = .error (t.lookupError path) := by
  rw [mkdir, dif_neg (by simp [hnone]), dif_neg (by simp [hdir])]

theorem exists_bind {path : List α} (x : ν) (hnone : t.node path = none)
    (hdir : t.isDir path.tail = true) : ∃ t', t.bind path x = .ok t' := by
  rw [bind, dif_neg (by simp [hnone]), dif_pos hdir]
  exact ⟨_, rfl⟩

theorem exists_chmod (path : List α) (f : ν → ν) (h : t.node path ≠ none) :
    ∃ t', t.chmod path f = .ok t' := by
  rw [chmod, if_neg (by simpa [Option.isNone_iff_eq_none] using h)]
  exact ⟨_, rfl⟩

theorem chmod_eq_ok {path : List α} {f : ν → ν} {t' : Tree α ν} (h : t.chmod path f = .ok t') :
    t' = t.modify path f := by
  unfold chmod at h
  split at h
  · cases h
  · exact (Except.ok.inj h).symm

end

section
variable {α ν : Type} (t : Tree α ν)

/-- Nothing is in the way of a file at a path: no directory there, and nothing
else above it. -/
structure Free (path : List α) : Prop where
  notDir : t.node path ≠ some .dir
  above : ∀ q, q <:+ path → q ≠ path → ∀ x, t.node q ≠ some (.leaf x)

variable {t}

theorem Free.ne_nil {path : List α} (h : t.Free path) : path ≠ [] := by
  rintro rfl
  exact h.notDir t.root

/-- Where there is a leaf, nothing is in the way of one. -/
theorem free_of_leaf {path : List α} {x : ν} (h : t.node path = some (.leaf x)) : t.Free path where
  notDir := by simp [h]
  above := by
    intro q hsuffix hne y hleaf
    rw [t.node_eq_dir_of_suffix (by simp [h]) hsuffix hne] at hleaf
    cases hleaf

/-- Nor is there where a directory above can be made. -/
theorem free_of_vacant {path q : List α} (hsuffix : q <:+ path) (hnone : t.node q = none)
    (hdir : t.isDir q.tail = true) : t.Free path := by
  have hbelow : ∀ a, q <:+ a → t.node a = none := by
    intro a ha
    by_cases heq : q = a
    · rw [← heq, hnone]
    · exact t.node_eq_none_of_suffix (by simp [hnone]) ha heq
  refine ⟨by simp [hbelow path hsuffix], fun a ha _ x hleaf => ?_⟩
  rcases List.suffix_or_suffix_of_suffix ha hsuffix with haq | hqa
  · cases q with
    | nil =>
      rw [List.suffix_nil.mp haq, hnone] at hleaf
      cases hleaf
    | cons name q =>
      rw [List.tail_cons, isDir_iff] at hdir
      rcases List.suffix_cons_iff.mp haq with heq | haq
      · rw [heq, hnone] at hleaf
        cases hleaf
      · by_cases heq : a = q
        · rw [heq, hdir] at hleaf
          cases hleaf
        · rw [t.node_eq_dir_of_suffix (by simp [hdir]) haq heq] at hleaf
          cases hleaf
  · rw [hbelow a hqa] at hleaf
    cases hleaf

/-- A path is not below itself. -/
theorem Free.above_tail {path q : List α} (h : t.Free path) (hsuffix : q <:+ path.tail) (x : ν) :
    t.node q ≠ some (.leaf x) := by
  refine h.above q (hsuffix.trans (List.tail_suffix path)) ?_ x
  rintro rfl
  exact not_suffix_tail h.ne_nil hsuffix

theorem lookupError_eq_notFound {path : List α}
    (h : ∀ q, q <:+ path → q ≠ path → ∀ x, t.node q ≠ some (.leaf x)) :
    t.lookupError path = .notFound := by
  induction path with
  | nil => rfl
  | cons name path ih =>
    rw [lookupError]
    split
    · refine ih (fun q hsuffix hne => h q (hsuffix.trans (List.suffix_cons name path)) ?_)
      rintro rfl
      have hlen := hsuffix.length_le
      rw [List.length_cons] at hlen
      omega
    · rfl
    · next x hleaf => exact absurd hleaf (h path (List.suffix_cons name path) (by simp) x)

/-- What became of a tree in an attempt to put a file at a path: there may be
directories above it that were not there, and there is none at the path. -/
structure Within (path : List α) (t t' : Tree α ν) : Prop where
  outside : ∀ q, ¬ q <:+ path → t'.node q = t.node q
  above : ∀ q, q <:+ path → q ≠ path →
    t'.node q = t.node q ∨ (t.node q = none ∧ t'.node q = some .dir)
  here : t'.node path = some .dir ↔ t.node path = some .dir
  untouched : ¬ t.Free path → t' = t

theorem Within.refl (path : List α) (t : Tree α ν) : Within path t t :=
  ⟨fun _ _ => rfl, fun _ _ _ => .inl rfl, Iff.rfl, fun _ => rfl⟩

/-- What was there is still there, but for a file at the path. -/
theorem Within.kept {path q : List α} {t t' : Tree α ν} (h : Within path t t')
    (hthere : t.node q ≠ none) (hq : q ≠ path ∨ t.node q = some .dir) :
    t'.node q = t.node q := by
  by_cases heq : q = path
  · subst heq
    rcases hq with hne | hdir
    · exact absurd rfl hne
    · rw [hdir]
      exact h.here.mpr hdir
  · by_cases hsuffix : q <:+ path
    · rcases h.above q hsuffix heq with hsame | ⟨hnone, _⟩
      · exact hsame
      · exact absurd hnone hthere
    · exact h.outside q hsuffix

theorem Within.free_iff {path : List α} {t t' : Tree α ν} (h : Within path t t') :
    t'.Free path ↔ t.Free path := by
  have hleaf : ∀ q, q <:+ path → q ≠ path → ∀ x,
      (t'.node q = some (.leaf x) ↔ t.node q = some (.leaf x)) := by
    intro q hsuffix hne x
    rcases h.above q hsuffix hne with heq | ⟨hnone, hdir⟩
    · rw [heq]
    · simp [hnone, hdir]
  constructor
  · rintro ⟨hnot, habove⟩
    exact ⟨fun hdir => hnot (h.here.mpr hdir), fun q hsuffix hne x hx =>
      habove q hsuffix hne x ((hleaf q hsuffix hne x).mpr hx)⟩
  · rintro ⟨hnot, habove⟩
    exact ⟨fun hdir => hnot (h.here.mp hdir), fun q hsuffix hne x hx =>
      habove q hsuffix hne x ((hleaf q hsuffix hne x).mp hx)⟩

theorem Within.trans {path : List α} {t t' t'' : Tree α ν} (h : Within path t t')
    (h' : Within path t' t'') : Within path t t'' where
  outside q hq := (h'.outside q hq).trans (h.outside q hq)
  above := by
    intro q hsuffix hne
    rcases h.above q hsuffix hne with heq | ⟨hnone, hdir⟩
    · rw [← heq]
      exact h'.above q hsuffix hne
    · rcases h'.above q hsuffix hne with heq | ⟨hnone', _⟩
      · exact .inr ⟨hnone, heq.trans hdir⟩
      · rw [hdir] at hnone'
        cases hnone'
  here := h'.here.trans h.here
  untouched := by
    intro hfree
    rw [h'.untouched (fun hfree' => hfree (h.free_iff.mp hfree')), h.untouched hfree]

end

section
variable {α ν : Type} [DecidableEq α] {t : Tree α ν}

/-- The tree with a file at a path, and the directories above it. -/
def placed (t : Tree α ν) (path : List α) (x : ν) (h : t.Free path) : Tree α ν where
  node := fun q =>
    if q = path then some (.leaf x) else if q <:+ path then some .dir else t.node q
  root := by
    rw [if_neg (Ne.symm h.ne_nil), if_pos List.nil_suffix]
  parents := by
    intro name above hchild
    by_cases heq : above = path
    · have hnone : t.node (name :: above) = none :=
        t.node_eq_none_of_suffix (heq ▸ h.notDir) (List.suffix_cons name above) (by simp)
      have hnot : ¬ name :: above <:+ path := by
        intro hsuffix
        have hlen := hsuffix.length_le
        rw [heq, List.length_cons] at hlen
        omega
      rw [if_neg (ne_of_not_suffix hnot), if_neg hnot] at hchild
      exact absurd hnone hchild
    · rw [if_neg heq]
      by_cases hsuffix : above <:+ path
      · rw [if_pos hsuffix]
      · have hnot : ¬ name :: above <:+ path := fun hchild =>
          hsuffix ((List.suffix_cons name above).trans hchild)
        rw [if_neg (ne_of_not_suffix hnot), if_neg hnot] at hchild
        rw [if_neg hsuffix]
        exact t.parents name above hchild

/-- A file at one path leaves room for one at another if neither is above the other. -/
theorem free_placed_iff {p q : List α} {x : ν} (hp : t.Free p) :
    (t.placed p x hp).Free q ↔ q = p ∨ (t.Free q ∧ ¬ p <:+ q ∧ ¬ q <:+ p) := by
  have hother : ∀ a, ¬ a <:+ p → (t.placed p x hp).node a = t.node a := fun a ha => by
    rw [placed]
    simp only [if_neg (ne_of_not_suffix ha), if_neg ha]
  have hself : (t.placed p x hp).node p = some (.leaf x) := by simp [placed]
  constructor
  · intro hfree
    by_cases heq : q = p
    · exact .inl heq
    · have hbelow : ¬ p <:+ q := fun hsuffix =>
        hfree.above p hsuffix (Ne.symm heq) x hself
      have habove : ¬ q <:+ p := fun hsuffix => hfree.notDir (by simp [placed, heq, hsuffix])
      refine .inr ⟨⟨hother q habove ▸ hfree.notDir, fun a ha hne y hleaf => ?_⟩, hbelow, habove⟩
      by_cases hap : a <:+ p
      · exact hp.above a hap (by
          rintro rfl
          exact hbelow ha) y hleaf
      · exact hfree.above a ha hne y ((hother a hap).trans hleaf)
  · rintro (rfl | ⟨hfree, hbelow, habove⟩)
    · exact free_of_leaf hself
    · refine ⟨(hother q habove).symm ▸ hfree.notDir, fun a ha hne y hleaf => ?_⟩
      by_cases hap : a <:+ p
      · have hne' : a ≠ p := by
          rintro rfl
          exact hbelow ha
        simp [placed, hne', hap] at hleaf
      · exact hfree.above a ha hne y ((hother a hap).symm.trans hleaf)

/-- Whatever became of earlier attempts, the file is put there the same. -/
theorem Within.placed_eq {path : List α} {t' : Tree α ν} (h : Within path t t')
    (hfree : t.Free path) (x : ν) :
    t'.placed path x (h.free_iff.mpr hfree) = t.placed path x hfree := by
  ext1
  funext q
  simp only [placed]
  split
  · rfl
  · split
    · rfl
    · next hnot => exact h.outside q hnot

theorem within_unlink {path : List α} {t' : Tree α ν} (h : t.unlink path = .ok t') :
    Within path t t' := by
  obtain ⟨⟨x, hleaf⟩, hnode⟩ := t.unlink_eq_ok h
  refine ⟨fun q hq => ?_, fun q _ hne => .inl ?_, ?_,
    fun hfree => absurd (free_of_leaf hleaf) hfree⟩
  · rw [hnode, if_neg (ne_of_not_suffix hq)]
  · rw [hnode, if_neg hne]
  · simp [hnode, hleaf]

theorem within_mkdir {path q : List α} {t' : Tree α ν} (hsuffix : q <:+ path) (hne : q ≠ path)
    (h : t.mkdir q = .ok t') : Within path t t' := by
  obtain ⟨hnone, hdir, hnode⟩ := t.mkdir_eq_ok h
  refine ⟨fun a ha => ?_, fun a _ _ => ?_, ?_,
    fun hfree => absurd (free_of_vacant hsuffix hnone hdir) hfree⟩
  · rw [hnode, if_neg (by
      rintro rfl
      exact ha hsuffix)]
  · by_cases heq : a = q
    · rw [hnode, if_pos heq, heq]
      exact .inr ⟨hnone, rfl⟩
    · rw [hnode, if_neg heq]
      exact .inl rfl
  · rw [hnode, if_neg hne.symm]

theorem within_bind {path : List α} {x : ν} {t' : Tree α ν} (h : t.bind path x = .ok t') :
    Within path t t' := by
  obtain ⟨hnone, hdir, hnode⟩ := t.bind_eq_ok h
  refine ⟨fun q hq => ?_, fun q _ hne => .inl ?_, ?_,
    fun hfree => absurd (free_of_vacant List.suffix_rfl hnone hdir) hfree⟩
  · rw [hnode, if_neg (ne_of_not_suffix hq)]
  · rw [hnode, if_neg hne]
  · simp [hnode, hnone]

theorem modify_eq_self {path : List α} (f : ν → ν) (h : ∀ x, t.node path ≠ some (.leaf x)) :
    t.modify path f = t := by
  ext1
  funext q
  rw [node_modify]
  split
  · next heq =>
    rw [heq]
    cases hnode : t.node path with
    | none => rfl
    | some node =>
      cases node with
      | dir => rfl
      | leaf x => exact absurd hnode (h x)
  · rfl

theorem within_modify (path : List α) (f : ν → ν) : Within path t (t.modify path f) := by
  by_cases hleaf : ∃ x, t.node path = some (.leaf x)
  · obtain ⟨x, hleaf⟩ := hleaf
    refine ⟨fun q hq => ?_, fun q _ hne => .inl ?_, ?_,
      fun hfree => absurd (free_of_leaf hleaf) hfree⟩
    · rw [node_modify, if_neg (ne_of_not_suffix hq)]
    · rw [node_modify, if_neg hne]
    · simp [node_modify, hleaf, Node.modify]
  · rw [modify_eq_self f (not_exists.mp hleaf)]
    exact .refl path t

/-- An attempt that has put a file at a path has put it there, and no more. -/
theorem Within.eq_placed {path : List α} {t' : Tree α ν} (h : Within path t t') {x : ν}
    (hleaf : t'.node path = some (.leaf x)) : ∃ hfree, t' = t.placed path x hfree := by
  refine ⟨h.free_iff.mp (free_of_leaf hleaf), ?_⟩
  ext1
  funext q
  simp only [placed]
  split
  · next heq => rw [heq, hleaf]
  · next hne =>
    split
    · next hsuffix => exact t'.node_eq_dir_of_suffix (by simp [hleaf]) hsuffix hne
    · next hnot => exact h.outside q hnot

end

end Tree

end FileTree
