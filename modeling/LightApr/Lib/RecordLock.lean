import Mathlib.Logic.Function.Basic

/-! Advisory record locks as POSIX has them, one write lock for a whole file: the lock is on the file and not on
its path, belongs to a process, is not inherited by a child, and goes when its process ends or closes any of its
descriptors of the file. -/
namespace LightApr.Lib.RecordLock

/-- Files are numbered as they are created. Descriptors and locks are those of files that a path has named. -/
structure Host (Path Pid : Type*) where
  dir : Path → Option Nat
  next : Nat
  fds : Pid → Nat → Option Nat
  owner : Nat → Option Pid

namespace Host
variable {Path Pid : Type*}

/-- Apart from `p`, every process keeps its descriptors and its locks, and gets no others. -/
structure Frame (p : Pid) (h h' : Host Path Pid) : Prop where
  fds : ∀ q, q ≠ p → h'.fds q = h.fds q
  owner : ∀ q, q ≠ p → ∀ file, h'.owner file = some q ↔ h.owner file = some q

theorem Frame.refl (p : Pid) (h : Host Path Pid) : Frame p h h := ⟨fun _ _ => rfl, fun _ _ _ => .rfl⟩

def unlink [DecidableEq Path] (path : Path) (h : Host Path Pid) : Host Path Pid :=
  { h with dir := Function.update h.dir path none }

theorem frame_unlink [DecidableEq Path] {h : Host Path Pid} {p : Pid} (path : Path) : Frame p h (h.unlink path) :=
  ⟨fun _ _ => rfl, fun _ _ _ => .rfl⟩

variable [DecidableEq Pid]

def setFd (p : Pid) (fd : Nat) (file? : Option Nat) (h : Host Path Pid) : Host Path Pid :=
  { h with fds := Function.update h.fds p (Function.update (h.fds p) fd file?) }

/-- The file loses its lock if `p` has it. -/
def drop (p : Pid) (file : Nat) (h : Host Path Pid) : Host Path Pid :=
  { h with owner := Function.update h.owner file (if h.owner file = some p then none else h.owner file) }

/-- `open(path, O_RDWR | O_CREAT)`, with the descriptor that it returns. -/
def openFile [DecidableEq Path] (p : Pid) (path : Path) (fd : Nat) (h : Host Path Pid) : Host Path Pid :=
  match h.dir path with
  | some file => h.setFd p fd (some file)
  | none =>
    { h.setFd p fd (some h.next) with
      dir := Function.update h.dir path (some h.next)
      next := h.next + 1 }

/-- No other process has a lock on the file behind the descriptor. -/
def Lockable (p : Pid) (fd : Nat) (h : Host Path Pid) : Prop :=
  ∃ file ∈ h.fds p fd, h.owner file = none ∨ h.owner file = some p

instance (p : Pid) (fd : Nat) (h : Host Path Pid) : Decidable (h.Lockable p fd) :=
  inferInstanceAs (Decidable (∃ file ∈ h.fds p fd, _))

/-- `fcntl(fd, F_SETLK)` for writing; none: it fails. -/
def setLock (p : Pid) (fd : Nat) (h : Host Path Pid) : Option (Host Path Pid) :=
  if h.Lockable p fd then
    (h.fds p fd).map fun file => { h with owner := Function.update h.owner file (some p) }
  else none

def closeFd (p : Pid) (fd : Nat) (h : Host Path Pid) : Host Path Pid :=
  match h.fds p fd with
  | none => h
  | some file => (h.setFd p fd none).drop p file

def fork (p child : Pid) (h : Host Path Pid) : Host Path Pid :=
  { h with fds := Function.update h.fds child (h.fds p) }

/-- The end of a process. -/
def exit (p : Pid) (h : Host Path Pid) : Host Path Pid :=
  { h with
    fds := Function.update h.fds p fun _ => none
    owner := fun file => if h.owner file = some p then none else h.owner file }

variable {h h' : Host Path Pid} {p q : Pid} {fd : Nat}

theorem frame_openFile [DecidableEq Path] (path : Path) : Frame p h (h.openFile p path fd) := by
  unfold openFile
  split
  · exact ⟨fun q hq => Function.update_of_ne hq _ _, fun _ _ _ => .rfl⟩
  · exact ⟨fun q hq => Function.update_of_ne hq _ _, fun _ _ _ => .rfl⟩

theorem drop_owner {file file' : Nat} :
    (h.drop p file).owner file' = some q ↔ h.owner file' = some q ∧ (q = p → file' ≠ file) := by
  unfold drop
  dsimp only
  by_cases hf : file' = file
  · subst hf
    rw [Function.update_self]
    split
    · rename_i ho
      refine iff_of_false (Option.some_ne_none q).symm fun hq => ?_
      exact hq.2 (Option.some.inj (hq.1.symm.trans ho)) rfl
    · rename_i ho
      refine ⟨fun hq => ⟨hq, ?_⟩, And.left⟩
      rintro rfl
      exact absurd hq ho
  · rw [Function.update_of_ne hf]
    exact ⟨fun hq => ⟨hq, fun _ => hf⟩, And.left⟩

theorem closeFd_owner {file : Nat} :
    (h.closeFd p fd).owner file = some q ↔ h.owner file = some q ∧ (q = p → h.fds p fd ≠ some file) := by
  unfold closeFd
  cases hfd : h.fds p fd with
  | none => exact ⟨fun hq => ⟨hq, fun _ => (Option.some_ne_none file).symm⟩, And.left⟩
  | some file' =>
    rw [drop_owner]
    refine and_congr_right fun _ => imp_congr_right fun _ => ?_
    rw [Ne, Ne, Option.some.injEq, eq_comm]

theorem frame_closeFd : Frame p h (h.closeFd p fd) := by
  refine ⟨fun q hq => ?_, fun q hq file => ?_⟩
  · unfold closeFd
    split
    · rfl
    · exact Function.update_of_ne hq _ _
  · rw [closeFd_owner]
    exact and_iff_left fun hqp => absurd hqp hq

theorem exit_owner {file : Nat} : (h.exit p).owner file = some q ↔ h.owner file = some q ∧ q ≠ p := by
  unfold exit
  dsimp only
  split
  · rename_i ho
    refine iff_of_false (Option.some_ne_none q).symm fun hq => ?_
    exact hq.2 (Option.some.inj (hq.1.symm.trans ho))
  · rename_i ho
    refine ⟨fun hq => ⟨hq, ?_⟩, And.left⟩
    rintro rfl
    exact ho hq

theorem frame_exit : Frame p h (h.exit p) := by
  refine ⟨fun q hq => Function.update_of_ne hq _ _, fun q hq file => ?_⟩
  rw [exit_owner]
  exact and_iff_left hq

/-- What a lock that is given says, and what it changes. -/
theorem setLock_some (hl : h.setLock p fd = some h') :
    ∃ file, h.fds p fd = some file ∧ (∀ q, h.owner file = some q → q = p) ∧ h'.owner file = some p ∧
      h'.fds = h.fds ∧ Frame p h h' := by
  unfold setLock at hl
  split at hl
  · rename_i hfree
    obtain ⟨file, hfile, hfree⟩ := hfree
    rw [Option.mem_def.mp hfile, Option.map_some, Option.some.injEq] at hl
    subst hl
    have hown : ∀ q, h.owner file = some q → q = p := by
      intro q hq
      obtain hnone | hsome := hfree
      · cases hnone.symm.trans hq
      · exact Option.some.inj (hq.symm.trans hsome)
    refine ⟨file, hfile, hown, Function.update_self _ _ _, rfl, fun _ _ => rfl, fun q hq file' => ?_⟩
    by_cases hf : file' = file
    · subst hf
      dsimp only
      rw [Function.update_self, Option.some.injEq]
      exact ⟨fun he => absurd he.symm hq, fun ho => absurd (hown q ho) hq⟩
    · dsimp only
      rw [Function.update_of_ne hf]
  · cases hl

theorem setLock_isSome : (h.setLock p fd).isSome = true ↔ h.Lockable p fd := by
  unfold setLock
  split
  · rename_i hfree
    obtain ⟨file, hfile, -⟩ := id hfree
    rw [Option.mem_def.mp hfile]
    exact iff_of_true rfl hfree
  · rename_i hfree
    exact iff_of_false (by simp) hfree

end Host
end LightApr.Lib.RecordLock
