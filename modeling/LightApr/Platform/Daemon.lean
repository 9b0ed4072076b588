import LightApr.Lib.Machine
import LightApr.Lib.RecordLock

/-! Daemon mode on POSIX: the single-instance lock, the double fork that follows it, and the release. Any number of
processes on one host, in any interleaving of their system calls. -/
namespace LightApr.Platform.Daemon
open Lib Lib.RecordLock

/-- The two places for the pid file: /var/run, or /tmp where that cannot be opened. -/
inductive PidFile where
  | varRun
  | tmp
  deriving DecidableEq, Repr

/-- Where a process is: the system call that comes next. -/
inductive Pc where
  | started
  /-- `F_SETLK`, and the close where it fails -/
  | opened
  | refused
  /-- `initialize_daemon` -/
  | locked
  | session
  | second
  | closing (x : Nat)
  | redirecting
  | serving
  /-- `release_single_instance_lock` -/
  | releasing
  | unlinking
  /-- `_exit`, or the return from `main` -/
  | leaving
  | ended
  deriving DecidableEq, Repr

structure Process where
  pc : Pc
  /-- `pid_fd_`; none: -1 -/
  pidFd : Option Nat
  pidFile : PidFile
  /-- a history variable: the process has come out of a fork -/
  forked : Bool
  deriving Repr

structure World where
  host : Host PidFile Nat
  procs : List Process

/-- The next system call, with what the system answers. -/
inductive Call where
  | openFile (varRun tmp : Bool) (fd : Nat)
  | setLock
  | close
  | fork (ok : Bool)
  | setsid (ok : Bool)
  | redirect
  | stop
  | unlink
  | exit
  deriving DecidableEq, Repr

inductive Event where
  | start
  | call (p : Nat) (c : Call)
  deriving DecidableEq, Repr

/-- `acquire_single_instance_lock` up to the open file. -/
def openPidFile (varRun tmp : Bool) (fd p : Nat) (proc : Process) (h : Host PidFile Nat) : Host PidFile Nat × Process :=
  if varRun then (h.openFile p .varRun fd, { proc with pc := .opened, pidFd := some fd, pidFile := .varRun })
  else if tmp then (h.openFile p .tmp fd, { proc with pc := .opened, pidFd := some fd, pidFile := .tmp })
  else (h, { proc with pc := .leaving, pidFd := none, pidFile := .tmp })

/-- One system call of process `p`: the host, the process, and the child that a fork leaves. A failed fork or
`setsid` ends `initialize_daemon`, and `main` goes on. Only descriptors of pid files are followed. -/
def advance (openMax : Nat) (h : Host PidFile Nat) (p child : Nat) (proc : Process) (c : Call) :
    Option (Host PidFile Nat × Process × Option Process) :=
  match proc.pc, c with
  | .started, .openFile varRun tmp fd =>
    if h.fds p fd = none then
      let (h, proc) := openPidFile varRun tmp fd p proc h
      some (h, proc, none)
    else none
  | .opened, .setLock =>
    match proc.pidFd.bind fun fd => h.setLock p fd with
    | some h => some (h, { proc with pc := .locked }, none)
    | none => some (h, { proc with pc := .refused }, none)
  | .refused, .close =>
    some ((proc.pidFd.map fun fd => h.closeFd p fd).getD h, { proc with pc := .leaving, pidFd := none }, none)
  | .locked, .fork true =>
    some (h.fork p child, { proc with pc := .leaving }, some { proc with pc := .session, forked := true })
  | .locked, .fork false => some (h, { proc with pc := .serving }, none)
  | .session, .setsid ok => some (h, { proc with pc := if ok then .second else .serving }, none)
  | .second, .fork true =>
    some (h.fork p child, { proc with pc := .leaving }, some { proc with pc := .closing openMax })
  | .second, .fork false => some (h, { proc with pc := .serving }, none)
  | .closing 0, .close => some (h.closeFd p 0, { proc with pc := .redirecting }, none)
  | .closing (x + 1), .close => some (h.closeFd p (x + 1), { proc with pc := .closing x }, none)
  | .redirecting, .redirect => some (h, { proc with pc := .serving }, none)
  | .serving, .stop => some (h, { proc with pc := .releasing }, none)
  | .releasing, .close =>
    match proc.pidFd with
    | some fd => some (h.closeFd p fd, { proc with pc := .unlinking, pidFd := none }, none)
    | none => some (h, { proc with pc := .leaving }, none)
  | .unlinking, .unlink => some (h.unlink proc.pidFile, { proc with pc := .leaving }, none)
  | .ended, _ => none
  | _, .exit => some (h.exit p, { proc with pc := .ended }, none)
  | _, _ => none

def step (openMax : Nat) (w : World) : Event → Option World
  | .start => some { w with procs := w.procs ++ [⟨.started, none, .varRun, false⟩] }
  | .call p c => do
    let proc ← w.procs[p]?
    let (host, proc, child) ← advance openMax w.host p w.procs.length proc c
    some ⟨host, w.procs.set p proc ++ child.toList⟩

def init : World := ⟨⟨fun _ => none, 0, fun _ _ => none, fun _ => none⟩, []⟩

def machine (openMax : Nat) : Machine World Event := ⟨step openMax⟩

/-- From the lock to the end of the serving. -/
def Pc.active : Pc → Bool
  | .locked | .session | .second | .closing _ | .redirecting | .serving => true
  | _ => false

/-- Before the first fork. -/
def Pc.early : Pc → Bool
  | .started | .opened | .refused | .locked => true
  | _ => false

/-- Between the first fork and the serving. -/
def Pc.late : Pc → Bool
  | .session | .second | .closing _ | .redirecting => true
  | _ => false

/-- Every other process that has taken the lock, and has not come to its release, has not been through a fork and
has the file behind this descriptor open as its pid file. -/
def World.Unforked (w : World) (p fd : Nat) : Prop :=
  ∀ q < w.procs.length, ∀ other ∈ w.procs[q]?, q ≠ p → other.pc.active = true →
    other.forked = false ∧ other.pidFd.bind (w.host.fds q) = w.host.fds p fd

instance (w : World) (p fd : Nat) : Decidable (w.Unforked p fd) := by
  unfold World.Unforked
  infer_instance

/-- The lock is given only in this situation. -/
def Sole (w : World) : Event → Prop
  | .call p .setLock => ∀ proc ∈ w.procs[p]?, ∀ fd ∈ proc.pidFd, w.host.Lockable p fd → w.Unforked p fd
  | _ => True

instance (w : World) (e : Event) : Decidable (Sole w e) := by
  unfold Sole
  split <;> infer_instance

def World.Active (w : World) (p : Nat) : Prop := ∃ proc, w.procs[p]? = some proc ∧ proc.pc.active = true

def World.Serves (w : World) (p : Nat) : Prop := ∃ proc, w.procs[p]? = some proc ∧ proc.pc = .serving

/-- At most one process has the lock, or had it and is on its way to serve or serving. -/
def Single (w : World) : Prop := ∀ p q, w.Active p → w.Active q → p = q

/-- What holds of a process in every run. -/
structure Sound (h : Host PidFile Nat) (p : Nat) (proc : Process) : Prop where
  early : proc.pc.early = true → proc.forked = false
  late : proc.pc.late = true → proc.forked = true
  /-- a process that has not been through a fork keeps its lock -/
  holds : proc.pc.active = true → proc.forked = false →
    ∃ fd file, proc.pidFd = some fd ∧ h.fds p fd = some file ∧ h.owner file = some p
  /-- one that has come out of a fork has none -/
  unlocked : proc.forked = true → ∀ file, h.owner file ≠ some p

variable {openMax : Nat} {h h' : Host PidFile Nat} {p q child : Nat} {proc proc' : Process} {c : Call}

private theorem not_both {b : Bool} {P : Prop} (hno : b = false) (hyes : b = true) : P :=
  absurd (hno.symm.trans hyes) Bool.false_ne_true

theorem Sound.frame (hs : Sound h q proc) (hf : Host.Frame p h h') (hq : q ≠ p) : Sound h' q proc := by
  refine ⟨hs.early, hs.late, fun ha hn => ?_, fun hy file => ?_⟩
  · obtain ⟨fd, file, hfd, hfile, hown⟩ := hs.holds ha hn
    exact ⟨fd, file, hfd, by rw [hf.fds q hq, hfile], (hf.owner q hq file).mpr hown⟩
  · rw [Ne, hf.owner q hq file]
    exact hs.unlocked hy file

/-- A step that leaves descriptors and locks alone, from a stage to one with no further obligation. -/
theorem Sound.move (hs : Sound h p proc) {pc : Pc} (hearly : pc.early = true → proc.pc.early = true)
    (hlate : pc.late = true → proc.pc.late = true) (hactive : pc.active = true → proc.pc.active = true) :
    Sound h p { proc with pc := pc } :=
  ⟨fun he => hs.early (hearly he), fun hl => hs.late (hlate hl), fun ha => hs.holds (hactive ha), hs.unlocked⟩

/-- Behind the serving, and after a refusal, it is required only that no lock is taken. -/
theorem Sound.rest (hs : Sound h p proc) {pc : Pc} {pidFd : Option Nat} {pidFile : PidFile}
    (hpc : pc.early = false ∧ pc.late = false ∧ pc.active = false)
    (hown : ∀ file, h'.owner file = some p → h.owner file = some p) :
    Sound h' p { proc with pc := pc, pidFd := pidFd, pidFile := pidFile } := by
  obtain ⟨he, hl, ha⟩ := hpc
  refine ⟨not_both he, not_both hl, not_both ha, fun hy file ho => ?_⟩
  exact hs.unlocked hy file (hown file ho)

theorem Sound.of_unforked (hforked : proc.forked = false) (hlate : proc.pc.late = false)
    (hholds : proc.pc.active = true → ∃ fd file, proc.pidFd = some fd ∧ h.fds p fd = some file ∧
      h.owner file = some p) : Sound h p proc :=
  ⟨fun _ => hforked, not_both hlate, fun ha _ => hholds ha, not_both hforked⟩

theorem Sound.of_forked (hforked : proc.forked = true) (hearly : proc.pc.early = false)
    (hunlocked : ∀ file, h.owner file ≠ some p) : Sound h p proc :=
  ⟨not_both hearly, fun _ => hforked, fun _ hn => not_both hn hforked, fun _ => hunlocked⟩

/-- A child with another number changes nothing for a process. -/
theorem Sound.fork (hs : Sound h q proc) (hne : q ≠ child) : Sound (h.fork p child) q proc := by
  refine ⟨hs.early, hs.late, fun ha hn => ?_, hs.unlocked⟩
  obtain ⟨fd, file, hfd, hfile, hown⟩ := hs.holds ha hn
  exact ⟨fd, file, hfd, (congrFun (Function.update_of_ne hne _ _) fd).trans hfile, hown⟩

/-- Closing descriptors on the way takes a lock from no one, since there is none. -/
theorem Sound.closing (hs : Sound h p proc) (hl : proc.pc.late = true) (x : Nat) {pc : Pc} (he : pc.early = false) :
    Sound (h.closeFd p x) p { proc with pc := pc } := by
  refine .of_forked (hs.late hl) he fun file ho => ?_
  exact hs.unlocked (hs.late hl) file (Host.closeFd_owner.mp ho).1

theorem openPidFile_spec {varRun tmp : Bool} {fd : Nat} (ho : openPidFile varRun tmp fd p proc h = (h', proc')) :
    Host.Frame p h h' ∧ proc'.forked = proc.forked ∧ (proc'.pc = .opened ∨ proc'.pc = .leaving) := by
  unfold openPidFile at ho
  split at ho
  · obtain ⟨rfl, rfl⟩ := Prod.mk.inj ho
    exact ⟨Host.frame_openFile _, rfl, .inl rfl⟩
  · split at ho
    · obtain ⟨rfl, rfl⟩ := Prod.mk.inj ho
      exact ⟨Host.frame_openFile _, rfl, .inl rfl⟩
    · obtain ⟨rfl, rfl⟩ := Prod.mk.inj ho
      exact ⟨.refl _ _, rfl, .inr rfl⟩

/-- What one system call can do: the host, the process and the child behind it. -/
inductive Advanced (openMax : Nat) (h : Host PidFile Nat) (p child : Nat) (proc : Process) :
    Call → Host PidFile Nat → Process → Option Process → Prop
  | openFile {varRun tmp : Bool} {fd : Nat} {h' : Host PidFile Nat} {proc' : Process} : proc.pc = .started →
      h.fds p fd = none → openPidFile varRun tmp fd p proc h = (h', proc') →
      Advanced openMax h p child proc (.openFile varRun tmp fd) h' proc' none
  | lock {fd : Nat} {h' : Host PidFile Nat} : proc.pc = .opened → proc.pidFd = some fd → h.setLock p fd = some h' →
      Advanced openMax h p child proc .setLock h' { proc with pc := .locked } none
  | refuse : proc.pc = .opened → (proc.pidFd.bind fun fd => h.setLock p fd) = none →
      Advanced openMax h p child proc .setLock h { proc with pc := .refused } none
  | giveUp : proc.pc = .refused →
      Advanced openMax h p child proc .close ((proc.pidFd.map fun fd => h.closeFd p fd).getD h)
        { proc with pc := .leaving, pidFd := none } none
  | fork : proc.pc = .locked →
      Advanced openMax h p child proc (.fork true) (h.fork p child) { proc with pc := .leaving }
        (some { proc with pc := .session, forked := true })
  | forkAgain : proc.pc = .second →
      Advanced openMax h p child proc (.fork true) (h.fork p child) { proc with pc := .leaving }
        (some { proc with pc := .closing openMax })
  | forkFailed : proc.pc = .locked ∨ proc.pc = .second →
      Advanced openMax h p child proc (.fork false) h { proc with pc := .serving } none
  | setsid {ok : Bool} : proc.pc = .session →
      Advanced openMax h p child proc (.setsid ok) h { proc with pc := if ok then .second else .serving } none
  | closeLast : proc.pc = .closing 0 →
      Advanced openMax h p child proc .close (h.closeFd p 0) { proc with pc := .redirecting } none
  | closeNext {x : Nat} : proc.pc = .closing (x + 1) →
      Advanced openMax h p child proc .close (h.closeFd p (x + 1)) { proc with pc := .closing x } none
  | redirect : proc.pc = .redirecting → Advanced openMax h p child proc .redirect h { proc with pc := .serving } none
  | stop : proc.pc = .serving → Advanced openMax h p child proc .stop h { proc with pc := .releasing } none
  | release {fd : Nat} : proc.pc = .releasing → proc.pidFd = some fd →
      Advanced openMax h p child proc .close (h.closeFd p fd) { proc with pc := .unlinking, pidFd := none } none
  | releaseNone : proc.pc = .releasing → proc.pidFd = none →
      Advanced openMax h p child proc .close h { proc with pc := .leaving } none
  | unlink : proc.pc = .unlinking →
      Advanced openMax h p child proc .unlink (h.unlink proc.pidFile) { proc with pc := .leaving } none
  | exit : proc.pc ≠ .ended → Advanced openMax h p child proc .exit (h.exit p) { proc with pc := .ended } none

theorem advance_cases {child? : Option Process} (hs : advance openMax h p child proc c = some (h', proc', child?)) :
    Advanced openMax h p child proc c h' proc' child? := by
  unfold advance at hs
  split at hs
  · rename_i varRun tmp fd hpc
    split at hs
    · rename_i hfree
      obtain ⟨⟨h1, proc1⟩, ho⟩ : ∃ x, openPidFile varRun tmp fd p proc h = x := ⟨_, rfl⟩
      rw [ho] at hs
      cases hs
      exact .openFile hpc hfree ho
    · cases hs
  · rename_i hpc
    split at hs
    · rename_i hl
      obtain ⟨fd, hfd, hl⟩ := Option.bind_eq_some_iff.mp hl
      cases hs
      exact .lock hpc hfd hl
    · rename_i hno
      cases hs
      exact .refuse hpc hno
  · cases hs
    exact .giveUp ‹_›
  · cases hs
    exact .fork ‹_›
  · cases hs
    exact .forkFailed (.inl ‹_›)
  · cases hs
    exact .setsid ‹_›
  · cases hs
    exact .forkAgain ‹_›
  · cases hs
    exact .forkFailed (.inr ‹_›)
  · cases hs
    exact .closeLast ‹_›
  · cases hs
    exact .closeNext ‹_›
  · cases hs
    exact .redirect ‹_›
  · cases hs
    exact .stop ‹_›
  · rename_i hpc
    split at hs
    · rename_i hfd
      cases hs
      exact .release hpc hfd
    · rename_i hfd
      cases hs
      exact .releaseNone hpc hfd
  · cases hs
    exact .unlink ‹_›
  · cases hs
  · rename_i hended
    cases hs
    exact .exit hended
  · cases hs

/-! A call that leaves no child. -/

theorem Advanced.frame (ha : Advanced openMax h p child proc c h' proc' none) : Host.Frame p h h' := by
  cases ha with
  | openFile _ _ ho => exact (openPidFile_spec ho).1
  | lock _ _ hl =>
    obtain ⟨file, -, -, -, -, hframe⟩ := Host.setLock_some hl
    exact hframe
  | giveUp _ =>
    cases proc.pidFd with
    | none => exact .refl p h
    | some fd => exact Host.frame_closeFd
  | closeLast _ | closeNext _ | release _ _ => exact Host.frame_closeFd
  | unlink _ => exact Host.frame_unlink _
  | exit _ => exact Host.frame_exit
  | refuse _ _ | forkFailed _ | setsid _ | redirect _ | stop _ | releaseNone _ _ => exact .refl p h

theorem Advanced.sound (ha : Advanced openMax h p child proc c h' proc' none) (hs : Sound h p proc) :
    Sound h' p proc' := by
  cases ha with
  | openFile hpc _ ho =>
    obtain ⟨-, hforked, hpc'⟩ := openPidFile_spec ho
    refine .of_unforked ?_ ?_ fun ha => ?_
    · rw [hforked, hs.early (by rw [hpc]; rfl)]
    · obtain hpc' | hpc' := hpc' <;> rw [hpc'] <;> rfl
    · obtain hpc' | hpc' := hpc' <;> rw [hpc'] at ha <;> cases ha
  | @lock fd _ hpc hfd hl =>
    obtain ⟨file, hfile, -, hown, hfds, -⟩ := Host.setLock_some hl
    have hkept : h'.fds p fd = some file := by rw [hfds, hfile]
    exact .of_unforked (hs.early (by rw [hpc]; rfl)) rfl fun _ => ⟨fd, file, hfd, hkept, hown⟩
  | refuse hpc _ => exact .of_unforked (hs.early (by rw [hpc]; rfl)) rfl fun ha => by cases ha
  | giveUp _ =>
    refine hs.rest ⟨rfl, rfl, rfl⟩ fun file ho => ?_
    cases hfd : proc.pidFd with
    | none => rwa [hfd] at ho
    | some fd =>
      rw [hfd] at ho
      exact (Host.closeFd_owner.mp ho).1
  | forkFailed hpc =>
    refine hs.move (fun h0 => by cases h0) (fun h0 => by cases h0) fun _ => ?_
    obtain hpc | hpc := hpc <;> rw [hpc] <;> rfl
  | @setsid ok hpc =>
    refine hs.move (fun h0 => ?_) (fun _ => ?_) fun _ => ?_
    · cases ok <;> cases h0
    · rw [hpc]; rfl
    · rw [hpc]; rfl
  | closeLast hpc => exact hs.closing (by rw [hpc]; rfl) 0 rfl
  | @closeNext x hpc => exact hs.closing (by rw [hpc]; rfl) (x + 1) rfl
  | redirect hpc => exact hs.move (fun h0 => by cases h0) (fun h0 => by cases h0) fun _ => by rw [hpc]; rfl
  | release _ _ => exact hs.rest ⟨rfl, rfl, rfl⟩ fun file ho => (Host.closeFd_owner.mp ho).1
  | exit _ => exact hs.rest ⟨rfl, rfl, rfl⟩ fun file ho => (Host.exit_owner.mp ho).1
  | stop _ | releaseNone _ _ | unlink _ => exact hs.rest ⟨rfl, rfl, rfl⟩ fun _ => id

/-- Only the lock makes a process active. -/
theorem Advanced.active (ha : Advanced openMax h p child proc c h' proc' none) (hactive : proc'.pc.active = true) :
    proc.pc.active = true ∨ c = .setLock ∧ ∃ fd ∈ proc.pidFd, h.Lockable p fd := by
  cases ha with
  | openFile _ _ ho =>
    obtain ⟨-, -, hpc' | hpc'⟩ := openPidFile_spec ho <;> rw [hpc'] at hactive <;> cases hactive
  | @lock fd _ _ hfd hl => exact .inr ⟨rfl, fd, hfd, Host.setLock_isSome.mp (by rw [hl]; rfl)⟩
  | forkFailed hpc => obtain hpc | hpc := hpc <;> rw [hpc] <;> exact .inl rfl
  | setsid hpc | closeLast hpc | closeNext hpc | redirect hpc => exact .inl (by rw [hpc]; rfl)
  | refuse _ _ | giveUp _ | stop _ | release _ _ | releaseNone _ _ | unlink _ | exit _ => cases hactive

/-- A call that leaves a child: a fork of an active process, which has nothing more to do then. -/
theorem Advanced.forked {next : Process} (ha : Advanced openMax h p child proc c h' proc' (some next)) :
    h' = h.fork p child ∧ proc' = { proc with pc := .leaving } ∧ proc.pc.active = true ∧ next.pc.early = false ∧
      (next.forked = true ∨ proc.pc.late = true ∧ next.forked = proc.forked) := by
  cases ha with
  | fork hpc => exact ⟨rfl, rfl, by rw [hpc]; rfl, rfl, .inl rfl⟩
  | forkAgain hpc => exact ⟨rfl, rfl, by rw [hpc]; rfl, rfl, .inr ⟨by rw [hpc]; rfl, rfl⟩⟩

/-- `F_SETLK` on a file that no other process has locked: the process goes on with the lock. -/
theorem Advanced.setLock {child? : Option Process} {fd : Nat} (hfd : proc.pidFd = some fd) (hl : h.Lockable p fd)
    (ha : Advanced openMax h p child proc .setLock h' proc' child?) :
    proc' = { proc with pc := .locked } ∧ child? = none := by
  cases ha with
  | lock _ _ _ => exact ⟨rfl, rfl⟩
  | refuse _ hno =>
    rw [hfd, Option.bind_some] at hno
    have hsome := Host.setLock_isSome.mpr hl
    rw [hno] at hsome
    cases hsome

/-! The world. -/

/-- Who is where after a call: the process that made it, the others, and the child. -/
theorem getElem?_stepped {procs : List Process} {child? : Option Process} {other : Process}
    (hq : (procs.set p proc' ++ child?.toList)[q]? = some other) :
    (q = p ∧ other = proc') ∨ (q ≠ p ∧ procs[q]? = some other) ∨ (q = procs.length ∧ child? = some other) := by
  rw [List.getElem?_append, List.length_set] at hq
  split at hq
  · obtain ⟨hpq, hproc, -⟩ | hother := getElem?_set_some hq
    · exact .inl ⟨hpq, hproc⟩
    · exact .inr (.inl hother)
  · rename_i hle
    cases child? with
    | none => simp at hq
    | some next =>
      rw [Option.toList_some, List.getElem?_singleton] at hq
      split at hq
      · rename_i h0
        exact .inr (.inr ⟨by omega, hq⟩)
      · cases hq

/-- Every process is sound, and a number that is not in use has no lock. -/
structure Sane (w : World) : Prop where
  procs : ∀ p proc, w.procs[p]? = some proc → Sound w.host p proc
  unused : ∀ p, w.procs.length ≤ p → ∀ file, w.host.owner file ≠ some p

variable {w w' : World} {e : Event}

theorem sane_init : Sane init := ⟨fun p proc hp => by simp [init] at hp, fun _ _ _ => (Option.some_ne_none _).symm⟩

/-- A step taken apart: a process is started, or one makes a call. -/
theorem step_cases (hs : step openMax w e = some w') :
    (e = .start ∧ w' = { w with procs := w.procs ++ [⟨.started, none, .varRun, false⟩] }) ∨
      ∃ p c proc host proc' child?, e = .call p c ∧ w.procs[p]? = some proc ∧
        Advanced openMax w.host p w.procs.length proc c host proc' child? ∧
        w' = ⟨host, w.procs.set p proc' ++ child?.toList⟩ := by
  cases e with
  | start => exact .inl ⟨rfl, (Option.some.inj hs).symm⟩
  | call p c =>
    obtain ⟨proc, hp, hs⟩ := Option.bind_eq_some_iff.mp hs
    obtain ⟨⟨host, proc', child?⟩, ha, hs⟩ := Option.bind_eq_some_iff.mp hs
    exact .inr ⟨p, c, proc, host, proc', child?, rfl, hp, advance_cases ha, (Option.some.inj hs).symm⟩

theorem sane_step (hw : Sane w) (hs : step openMax w e = some w') : Sane w' := by
  obtain ⟨-, rfl⟩ | ⟨p, c, proc, host, proc', child?, -, hp, ha, rfl⟩ := step_cases hs
  · refine ⟨fun q other hq => ?_, fun q hq => hw.unused q ?_⟩
    · obtain hq | ⟨rfl, rfl⟩ := getElem?_snoc hq
      · exact hw.procs q other hq
      · exact .of_unforked rfl rfl fun h0 => by cases h0
    · rw [List.length_append] at hq
      exact Nat.le_trans (Nat.le_add_right _ _) hq
  · have hlt := (List.getElem?_eq_some_iff.mp hp).1
    cases child? with
    | none =>
      refine ⟨fun q other hq => ?_, fun q hq file => ?_⟩
      · obtain ⟨rfl, rfl⟩ | ⟨hne, hq⟩ | ⟨-, hnone⟩ := getElem?_stepped hq
        · exact ha.sound (hw.procs q proc hp)
        · exact (hw.procs q other hq).frame ha.frame hne
        · cases hnone
      · rw [Option.toList_none, List.append_nil, List.length_set] at hq
        rw [Ne, ha.frame.owner q (by omega) file]
        exact hw.unused q hq file
    | some next =>
      obtain ⟨rfl, rfl, -, hearly, hforked⟩ := ha.forked
      refine ⟨fun q other hq => ?_, fun q hq file => hw.unused q ?_ file⟩
      · obtain ⟨rfl, rfl⟩ | ⟨-, hq⟩ | ⟨rfl, hnext⟩ := getElem?_stepped hq
        · exact ((hw.procs q proc hp).rest ⟨rfl, rfl, rfl⟩ fun _ => id).fork (Nat.ne_of_lt hlt)
        · exact (hw.procs q other hq).fork (Nat.ne_of_lt (List.getElem?_eq_some_iff.mp hq).1)
        · obtain rfl := Option.some.inj hnext
          have hyes : next.forked = true := by
            obtain hforked | ⟨hl, hforked⟩ := hforked
            · exact hforked
            · rw [hforked, (hw.procs p proc hp).late hl]
          exact .of_forked hyes hearly (hw.unused _ (Nat.le_refl _))
      · rw [List.length_append, List.length_set] at hq
        exact Nat.le_trans (Nat.le_add_right _ _) hq

/-- Where the lock is taken under the condition, no other process is active: it would still have its lock. -/
theorem alone_of_sole (hw : Sane w) (hsole : Sole w (.call p .setLock)) (hp : w.procs[p]? = some proc) {fd : Nat}
    (hfd : proc.pidFd = some fd) (hl : w.host.Lockable p fd) (hq : w.Active q) : q = p := by
  by_contra hne
  obtain ⟨other, hother, hactive⟩ := hq
  obtain ⟨hforked, hsame⟩ :=
    hsole proc hp fd hfd hl q (List.getElem?_eq_some_iff.mp hother).1 other hother hne hactive
  obtain ⟨fd', file, hfd', hfile, hown⟩ := (hw.procs q other hother).holds hactive hforked
  obtain ⟨file', hfile', hfree⟩ := hl
  have hboth : some file = some file' := by
    rw [← hfile, ← Option.mem_def.mp hfile', ← hsame, hfd']
    rfl
  obtain rfl := Option.some.inj hboth
  obtain hfree | hfree := hfree
  · cases hown.symm.trans hfree
  · exact hne (Option.some.inj (hown.symm.trans hfree))

/-- Who is active after a step: who was, the child of an active process that goes, or the one that gets the lock. -/
theorem active_step (hs : step openMax w e = some w') (hq : w'.Active q) :
    w.Active q ∨
      (∃ p, w.Active p ∧ ¬ w'.Active p ∧ q = w.procs.length) ∨
      (e = .call q .setLock ∧ ∃ proc, w.procs[q]? = some proc ∧ ∃ fd, proc.pidFd = some fd ∧ w.host.Lockable q fd) := by
  obtain ⟨other, hother, hactive⟩ := hq
  obtain ⟨-, rfl⟩ | ⟨p, c, proc, host, proc', child?, rfl, hp, ha, rfl⟩ := step_cases hs
  · obtain hother | ⟨-, rfl⟩ := getElem?_snoc hother
    · exact .inl ⟨other, hother, hactive⟩
    · cases hactive
  · have hlt := (List.getElem?_eq_some_iff.mp hp).1
    obtain ⟨rfl, rfl⟩ | ⟨-, hother⟩ | ⟨rfl, hchild⟩ := getElem?_stepped hother
    · cases child? with
      | none =>
        obtain hwas | ⟨rfl, fd, hfd, hl⟩ := ha.active hactive
        · exact .inl ⟨proc, hp, hwas⟩
        · exact .inr (.inr ⟨rfl, proc, hp, fd, hfd, hl⟩)
      | some next =>
        obtain ⟨-, rfl, -⟩ := ha.forked
        cases hactive
    · exact .inl ⟨other, hother, hactive⟩
    · obtain rfl := hchild
      obtain ⟨-, rfl, hwas, -⟩ := ha.forked
      refine .inr (.inl ⟨p, ⟨proc, hp, hwas⟩, ?_, rfl⟩)
      rintro ⟨left, hleft, hleft'⟩
      obtain ⟨-, rfl⟩ | ⟨hne, -⟩ | ⟨rfl, -⟩ := getElem?_stepped hleft
      · cases hleft'
      · exact hne rfl
      · exact Nat.lt_irrefl _ hlt

theorem single_step (hw : Sane w) (hone : Single w) (hsole : Sole w e) (hs : step openMax w e = some w') :
    Single w' := by
  -- one of two that are active was so before, unless both are the same newcomer
  have hold {p q : Nat} (hp : w'.Active p) (hq : w'.Active q) (hwas : w.Active p) : p = q := by
    obtain hq0 | ⟨left, hleft, hgone, -⟩ | ⟨rfl, proc, hproc, fd, hfd, hl⟩ := active_step hs hq
    · exact hone p q hwas hq0
    · exact absurd (hone p left hwas hleft ▸ hp) hgone
    · exact alone_of_sole hw hsole hproc hfd hl hwas
  intro p q hp hq
  obtain hwas | ⟨left, hleft, hgone, rfl⟩ | ⟨rfl, proc, hproc, fd, hfd, hl⟩ := active_step hs hp
  · exact hold hp hq hwas
  · obtain hwas | ⟨-, -, -, rfl⟩ | ⟨rfl, proc, hproc, fd, hfd, hl⟩ := active_step hs hq
    · exact (hold hq hp hwas).symm
    · rfl
    · exact absurd (alone_of_sole hw hsole hproc hfd hl hleft ▸ hq) hgone
  · obtain hwas | ⟨left, hleft, hgone, -⟩ | ⟨he, -⟩ := active_step hs hq
    · exact (hold hq hp hwas).symm
    · exact absurd (alone_of_sole hw hsole hproc hfd hl hleft ▸ hp) hgone
    · cases he
      rfl

/-- The condition is what it takes: without it the call that takes the lock leaves two active processes. -/
theorem single_setLock_iff (hw : Sane w) (hone : Single w) (hs : step openMax w (.call p .setLock) = some w') :
    Single w' ↔ Sole w (.call p .setLock) := by
  refine ⟨fun h proc hp fd hfd hl q hlt other hother hne hactive => ?_, fun h => single_step hw hone h hs⟩
  obtain ⟨he, -⟩ | ⟨p, c, proc1, host, proc', child?, he, hp1, ha, rfl⟩ := step_cases hs
  · cases he
  · cases he
    obtain rfl := Option.some.inj (hp1.symm.trans hp)
    obtain ⟨rfl, rfl⟩ := ha.setLock hfd hl
    rw [Option.toList_none, List.append_nil] at h
    refine absurd (h q p ⟨other, (List.getElem?_set_ne (Ne.symm hne)).trans hother, hactive⟩ ?_) hne
    exact ⟨_, List.getElem?_set_self (List.getElem?_eq_some_iff.mp hp).1, rfl⟩

theorem sane_run {es : List Event} (h : (machine openMax).Reaches init es w) : Sane w :=
  h.invariant Sane sane_init fun _ _ _ hw _ hs => sane_step hw hs

/-- In no run does a process that has come out of a fork have the lock. -/
theorem forked_unlocked {es : List Event} (h : (machine openMax).Reaches init es w) (hp : w.procs[p]? = some proc)
    (hforked : proc.forked = true) (file : Nat) : w.host.owner file ≠ some p :=
  ((sane_run h).procs p proc hp).unlocked hforked file

/-- **In every run in which the lock is given only in the situation of `Sole`, at most one process serves.** -/
theorem at_most_one_serves (openMax : Nat) {es : List Event} {w : World} (h : (machine openMax).Run Sole init es w)
    {p q : Nat} (hp : w.Serves p) (hq : w.Serves q) : p = q := by
  have hinv : Sane w ∧ Single w := by
    refine h.invariant (fun w => Sane w ∧ Single w) ⟨sane_init, ?_⟩ fun _ _ _ hw hsole hs =>
      ⟨sane_step hw.1 hs, single_step hw.1 hw.2 hsole hs⟩
    rintro p q ⟨proc, hproc, -⟩
    simp [init] at hproc
  obtain ⟨proc, hproc, hserves⟩ := hp
  obtain ⟨proc', hproc', hserves'⟩ := hq
  exact hinv.2 p q ⟨proc, hproc, by rw [hserves]; rfl⟩ ⟨proc', hproc', by rw [hserves']; rfl⟩

instance (w : World) (p : Nat) : Decidable (w.Serves p) :=
  decidable_of_iff (∃ proc ∈ w.procs[p]?, proc.pc = .serving) .rfl

/-- The calls of a process `p` that takes the lock and becomes a daemon, and of its child and grandchild. -/
private def becomes (p openMax : Nat) : List Event :=
  [.call p (.fork true), .call p .exit, .call (p + 1) (.setsid true), .call (p + 1) (.fork true),
      .call (p + 1) .exit] ++
    List.replicate (openMax + 1) (.call (p + 2) .close) ++ [.call (p + 2) .redirect]

private def locks (p : Nat) : List Event := [.start, .call p (.openFile true true 3), .call p .setLock]

private def twice : List Event := locks 0 ++ becomes 0 20 ++ locks 3 ++ becomes 3 20

private def bothServe : World := ((machine 20).exec init twice).getD init

/-- No fork succeeds: the second process opens the file before the first removes it, and the third afterwards. -/
private def removed : List Event :=
  locks 0 ++ [.call 0 (.fork false), .start, .call 1 (.openFile true true 3), .call 0 .stop, .call 0 .close,
    .call 1 .setLock, .call 0 .unlink] ++ locks 2 ++ [.call 1 (.fork false), .call 2 (.fork false)]

private def removedServe : World := ((machine 20).exec init removed).getD init

/-- A second daemon serves beside the first, whose lock went with the process that took it; and two processes that
have the lock serve, on the file that was removed and on the one that was created after it. -/
theorem two_daemons_serve :
    ((machine 20).Reaches init twice bothServe ∧ bothServe.Serves 2 ∧ bothServe.Serves 5) ∧
      ((machine 20).Reaches init removed removedServe ∧ removedServe.Serves 1 ∧ removedServe.Serves 2) := by
  have hfacts : (((machine 20).exec init twice).isSome = true ∧ bothServe.Serves 2 ∧ bothServe.Serves 5) ∧
      ((machine 20).exec init removed).isSome = true ∧ removedServe.Serves 1 ∧ removedServe.Serves 2 := by
    decide +kernel
  obtain ⟨⟨h1, hs1⟩, h2, hs2⟩ := hfacts
  exact ⟨⟨(machine 20).reaches_exec h1, hs1⟩, (machine 20).reaches_exec h2, hs2⟩

/-- A second process is refused while the first has the lock, a third serves when the first has ended. -/
private def inTurn : List Event :=
  locks 0 ++ locks 1 ++ [.call 1 .close, .call 1 .exit] ++
    [.call 0 (.fork false), .call 0 .stop, .call 0 .close, .call 0 .unlink, .call 0 .exit] ++ locks 2 ++ becomes 2 20

private def served : World := ((machine 20).execIf Sole init inTurn).getD init

theorem third_serves_alone : served.Serves 4 ∧ ∀ p q, served.Serves p → served.Serves q → p = q := by
  have hfacts : ((machine 20).execIf Sole init inTurn).isSome = true ∧ served.Serves 4 := by decide +kernel
  exact ⟨hfacts.2, fun p q hp hq => at_most_one_serves 20 ((machine 20).run_execIf Sole hfacts.1) hp hq⟩

end LightApr.Platform.Daemon
