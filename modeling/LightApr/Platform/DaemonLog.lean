import LightApr.Core.Logger
import LightApr.Platform.Daemon

/-! The log of a daemon. `main` makes the logger before it calls `initialize_daemon`, and a fork copies the logger, but
not the thread of its worker. Any number of processes on one host. -/
namespace LightApr.Platform.DaemonLog
open LightApr.Core Lib LightApr.Core.Logger

/-- A process's logger. -/
structure Copy where
  logger : AsyncLogger
  /-- the thread of `worker_loop` is in this process -/
  hasWorker : Bool
  /-- the mutex is held by a thread that is not in this process -/
  stuck : Bool
  deriving DecidableEq, Repr

structure World where
  daemon : Daemon.World
  /-- one for each process -/
  loggers : List Copy

inductive Event where
  /-- `main` constructs the logger -/
  | start
  /-- `held`: meanwhile the worker holds the mutex -/
  | call (p : Nat) (c : Daemon.Call) (held : Bool)
  | logger (p : Nat) (e : Logger.Event)
  deriving DecidableEq, Repr

def ofWorker : Logger.Event → Bool
  | .testRunning | .testQueue | .wake _ | .dequeue | .writeEntry => true
  | .log _ | .push _ | .notifyOne _ | .stop | .join => false

/-- The steps that lock the mutex. -/
def locks : Logger.Event → Bool
  | .push _ | .wake _ => true
  | .log _ | .notifyOne _ | .testRunning | .testQueue | .dequeue | .writeEntry | .stop | .join => false

namespace Copy

def start : Copy := ⟨Logger.start, true, false⟩

def step (sizeofLogMessage : Nat) (c : Copy) (e : Logger.Event) : Option Copy :=
  if (ofWorker e = true → c.hasWorker = true) ∧ (locks e = true → c.stuck = false) then
    (Logger.step sizeofLogMessage c.logger e).map fun logger => { c with logger }
  else none

/-- What the child gets. It is `main` that forks, and no other thread calls `log` before it serves. -/
def fork (held : Bool) (c : Copy) : Option Copy :=
  if (∀ call ∈ c.logger.calls, call = .returned) ∧
      (held = true → c.hasWorker = true ∧ c.logger.worker = .waiting) then
    some ⟨c.logger, false, c.stuck || held⟩
  else none

end Copy

/-- The destructor runs when `main` has returned. -/
def step (sizeofLogMessage openMax : Nat) (w : World) : Event → Option World
  | .start => (Daemon.step openMax w.daemon .start).map fun daemon => ⟨daemon, w.loggers ++ [.start]⟩
  | .call p (.fork true) held => do
    let daemon ← Daemon.step openMax w.daemon (.call p (.fork true))
    let child ← w.loggers[p]?.bind (Copy.fork held)
    some ⟨daemon, w.loggers ++ [child]⟩
  | .call p c _ => (Daemon.step openMax w.daemon (.call p c)).map fun daemon => { w with daemon }
  | .logger p e => do
    let proc ← w.daemon.procs[p]?
    if proc.pc = .ended ∨ (e = .stop ∧ proc.pc ≠ .leaving) then none
    else
      let c ← w.loggers[p]?.bind (Copy.step sizeofLogMessage · e)
      some { w with loggers := w.loggers.set p c }

def init : World := ⟨Daemon.init, []⟩

def machine (sizeofLogMessage openMax : Nat) : Machine World Event := ⟨step sizeofLogMessage openMax⟩

/-- The first fork of `initialize_daemon` does not fail. -/
def Forks (w : World) : Event → Prop
  | .call p (.fork false) _ => ∀ proc ∈ w.daemon.procs[p]?, proc.pc ≠ .locked
  | _ => True

instance (w : World) (e : Event) : Decidable (Forks w e) := by
  unfold Forks
  split <;> infer_instance

section
variable {sizeofLogMessage openMax : Nat} {c c' : Copy} {w w' : World} {p : Nat} {proc : Daemon.Process}

/-! One copy. -/

/-- What can happen to a logger whose worker is in another process: messages enter the queue, and stay in it. -/
structure Silent (sizeofLogMessage : Nat) (c c' : Copy) : Prop where
  hasWorker : c'.hasWorker = c.hasWorker
  stuck : c'.stuck = c.stuck
  worker : c'.logger.worker = c.logger.worker
  written : c'.logger.written = c.logger.written
  queued : ∃ more, c'.logger.entered = c.logger.entered ++ more ∧ c'.logger.queue = c.logger.queue ++ more ∧
    (c.stuck = true → more = [])
  gauge : ∃ more, c'.logger.logged = c.logger.logged ++ more ∧
    c'.logger.otherBytes = c.logger.otherBytes + weight sizeofLogMessage more

theorem Silent.refl (c : Copy) : Silent sizeofLogMessage c c :=
  ⟨rfl, rfl, rfl, rfl, ⟨[], by simp, by simp, fun _ => rfl⟩, ⟨[], by simp, by simp⟩⟩

theorem Silent.trans {c'' : Copy} (h : Silent sizeofLogMessage c c') (h' : Silent sizeofLogMessage c' c'') :
    Silent sizeofLogMessage c c'' := by
  obtain ⟨more, hentered, hqueue, hmore⟩ := h.queued
  obtain ⟨more', hentered', hqueue', hmore'⟩ := h'.queued
  obtain ⟨logged, hlogged, hgauge⟩ := h.gauge
  obtain ⟨logged', hlogged', hgauge'⟩ := h'.gauge
  refine ⟨h'.hasWorker.trans h.hasWorker, h'.stuck.trans h.stuck, h'.worker.trans h.worker,
    h'.written.trans h.written, ⟨more ++ more', ?_, ?_, fun hstuck => ?_⟩, ⟨logged ++ logged', ?_, ?_⟩⟩
  · rw [hentered', hentered, List.append_assoc]
  · rw [hqueue', hqueue, List.append_assoc]
  · rw [hmore hstuck, hmore' (h.stuck.trans hstuck), List.append_nil]
  · rw [hlogged', hlogged, List.append_assoc]
  · rw [hgauge', hgauge, weight_append, Int.add_assoc]

theorem copy_step_cases {e : Logger.Event} (h : c.step sizeofLogMessage e = some c') :
    (ofWorker e = true → c.hasWorker = true) ∧ (locks e = true → c.stuck = false) ∧
      c'.hasWorker = c.hasWorker ∧ c'.stuck = c.stuck ∧
      Logger.step sizeofLogMessage c.logger e = some c'.logger := by
  obtain ⟨⟨hworker, hlocks⟩, h⟩ := Option.ite_none_right_eq_some.mp h
  obtain ⟨logger, hs, rfl⟩ := Option.map_eq_some_iff.mp h
  exact ⟨hworker, hlocks, rfl, rfl, hs⟩

theorem silent_step {e : Logger.Event} (hnone : c.hasWorker = false) (h : c.step sizeofLogMessage e = some c') :
    Silent sizeofLogMessage c c' := by
  obtain ⟨hworker, hlocks, hhas, hstuck, hs⟩ := copy_step_cases h
  obtain ⟨logger, has, stuck⟩ := c'
  obtain rfl : has = c.hasWorker := hhas
  obtain rfl : stuck = c.stuck := hstuck
  cases step_cases hs with
  | log => exact ⟨rfl, rfl, rfl, rfl, ⟨[], by simp, by simp, fun _ => rfl⟩, ⟨[_], rfl, by simp⟩⟩
  | push =>
    have hfree : c.stuck ≠ true := fun hstuck => nomatch hstuck.symm.trans (hlocks rfl)
    exact ⟨rfl, rfl, rfl, rfl, ⟨[_], rfl, rfl, fun hstuck => absurd hstuck hfree⟩, ⟨[], by simp, by simp⟩⟩
  | notifyOne | stop | join => exact ⟨rfl, rfl, rfl, rfl, ⟨[], by simp, by simp, fun _ => rfl⟩, ⟨[], by simp, by simp⟩⟩
  | again | last | queued | exit | swap | sleep | drained | dequeue | writeEntry =>
    -- these are the worker's
    cases hnone.symm.trans (hworker rfl)

/-! The processes. -/

/-- What holds of a process and its logger. -/
structure Sound (sizeofLogMessage : Nat) (proc : Daemon.Process) (c : Copy) : Prop where
  kept : Kept sizeofLogMessage c.logger
  /-- the destructor has begun -/
  stopped : c.logger.running = false → proc.pc = .leaving ∨ proc.pc = .ended
  forked : proc.forked = true → c.hasWorker = false ∧ c.logger.worker ≠ .exited

theorem running_step {l l' : AsyncLogger} {e : Logger.Event} (hs : Stepped sizeofLogMessage l e l')
    (hstopped : l'.running = false) : l.running = false ∨ e = .stop := by
  cases hs with
  | stop => exact .inr rfl
  | log | push | notifyOne | again | last | queued | exit | swap | sleep | drained | dequeue | writeEntry | join =>
    exact .inl hstopped

theorem sound_start : Sound sizeofLogMessage ⟨.started, none, .varRun, false⟩ .start :=
  ⟨kept_start, nofun, nofun⟩

theorem Sound.step (h : Sound sizeofLogMessage proc c) {e : Logger.Event} (hs : c.step sizeofLogMessage e = some c')
    (hstop : e = .stop → proc.pc = .leaving) : Sound sizeofLogMessage proc c' := by
  obtain ⟨-, -, -, -, hstep⟩ := copy_step_cases hs
  refine ⟨h.kept.step e hstep, fun hstopped => ?_, fun hforked => ?_⟩
  · rcases running_step (step_cases hstep) hstopped with hbefore | rfl
    · exact h.stopped hbefore
    · exact .inl (hstop rfl)
  · obtain ⟨hnone, hworker⟩ := h.forked hforked
    have hsilent := silent_step hnone hs
    exact ⟨hsilent.hasWorker.trans hnone, hsilent.worker ▸ hworker⟩

theorem Sound.fork (h : Sound sizeofLogMessage proc c) {held : Bool} (hf : c.fork held = some c')
    (hactive : proc.pc.active = true) {child : Daemon.Process} : Sound sizeofLogMessage child c' := by
  obtain ⟨-, hf⟩ := Option.ite_none_right_eq_some.mp hf
  obtain rfl := Option.some.inj hf
  have hrunning : c.logger.running ≠ false := fun hstopped => by
    rcases h.stopped hstopped with hpc | hpc
    · rw [hpc] at hactive
      cases hactive
    · rw [hpc] at hactive
      cases hactive
  exact ⟨h.kept, fun hstopped => absurd hstopped hrunning,
    fun _ => ⟨rfl, fun hexited => hrunning (h.kept.halting (.inr hexited))⟩⟩

/-- A system call of the process. -/
theorem Sound.call {host host' : Lib.RecordLock.Host Daemon.PidFile Nat} {next : Nat} {call : Daemon.Call}
    {proc' : Daemon.Process} {child? : Option Daemon.Process} (h : Sound sizeofLogMessage proc c)
    (ha : Daemon.Advanced openMax host p next proc call host' proc' child?) : Sound sizeofLogMessage proc' c := by
  have hforked : proc'.forked = proc.forked := by
    cases ha with
    | openFile _ _ ho => exact (Daemon.openPidFile_spec ho).2.1
    | _ => rfl
  refine ⟨h.kept, fun hstopped => ?_, fun hf => h.forked (hforked ▸ hf)⟩
  have hpc := h.stopped hstopped
  cases ha with
  | exit => exact .inr rfl
  | fork | forkAgain | giveUp | releaseNone | unlink => exact .inl rfl
  | forkFailed hat => rcases hat with hat | hat <;> rcases hpc with hpc | hpc <;> cases hat.symm.trans hpc
  | openFile hat | lock hat | refuse hat | setsid hat | closeLast hat | closeNext hat | redirect hat | stop hat
  | release hat => rcases hpc with hpc | hpc <;> cases hat.symm.trans hpc

/-- A child is there only after a fork. -/
theorem child_cases {host host' : Lib.RecordLock.Host Daemon.PidFile Nat} {next : Nat} {call : Daemon.Call}
    {proc' : Daemon.Process} {child? : Option Daemon.Process}
    (ha : Daemon.Advanced openMax host p next proc call host' proc' child?) :
    (child? = none ∧ call ≠ .fork true) ∨
      (∃ child, child? = some child ∧ call = .fork true ∧ proc.pc.active = true) := by
  cases ha with
  | fork hpc | forkAgain hpc => exact .inr ⟨_, rfl, rfl, by rw [hpc]; rfl⟩
  | _ => exact .inl ⟨rfl, nofun⟩

/-! The world. -/

/-- Every process has its logger. -/
structure Paired (sizeofLogMessage : Nat) (procs : List Daemon.Process) (loggers : List Copy) : Prop where
  length : loggers.length = procs.length
  sound : ∀ (p : Nat) (proc : Daemon.Process) (c : Copy), procs[p]? = some proc → loggers[p]? = some c →
    Sound sizeofLogMessage proc c

variable {procs : List Daemon.Process} {loggers : List Copy}

theorem Paired.snoc (h : Paired sizeofLogMessage procs loggers) (hs : Sound sizeofLogMessage proc c) :
    Paired sizeofLogMessage (procs ++ [proc]) (loggers ++ [c]) := by
  refine ⟨by rw [List.length_append, List.length_append, h.length]; rfl, fun p other copy hp hc => ?_⟩
  rcases getElem?_snoc hp with hp | ⟨rfl, rfl⟩ <;> rcases getElem?_snoc hc with hc | ⟨hlen, rfl⟩
  · exact h.sound p other copy hp hc
  · exact absurd ((List.getElem?_eq_some_iff.mp hp).1) (by rw [hlen, h.length]; exact Nat.lt_irrefl _)
  · exact absurd ((List.getElem?_eq_some_iff.mp hc).1) (by rw [h.length]; exact Nat.lt_irrefl _)
  · exact hs

theorem Paired.setProcess (h : Paired sizeofLogMessage procs loggers)
    (hs : ∀ c, loggers[p]? = some c → Sound sizeofLogMessage proc c) :
    Paired sizeofLogMessage (procs.set p proc) loggers := by
  refine ⟨by rw [List.length_set, h.length], fun q other copy hq hc => ?_⟩
  rcases getElem?_set_some hq with ⟨rfl, rfl, -⟩ | ⟨-, hq⟩
  · exact hs copy hc
  · exact h.sound q other copy hq hc

theorem Paired.setLogger (h : Paired sizeofLogMessage procs loggers)
    (hs : ∀ proc, procs[p]? = some proc → Sound sizeofLogMessage proc c) :
    Paired sizeofLogMessage procs (loggers.set p c) := by
  refine ⟨by rw [List.length_set, h.length], fun q other copy hq hc => ?_⟩
  rcases getElem?_set_some hc with ⟨rfl, rfl, -⟩ | ⟨-, hc⟩
  · exact hs other hq
  · exact h.sound q other copy hq hc

/-- A step taken apart: a process is started, one makes a call, or something happens to its logger. -/
inductive Stepped (sizeofLogMessage openMax : Nat) (w : World) : Event → World → Prop
  | start {daemon : Daemon.World} : daemon.procs = w.daemon.procs ++ [⟨.started, none, .varRun, false⟩] →
      Stepped sizeofLogMessage openMax w .start ⟨daemon, w.loggers ++ [.start]⟩
  | call {p : Nat} {call : Daemon.Call} {held : Bool} {proc proc' : Daemon.Process}
      {host : Lib.RecordLock.Host Daemon.PidFile Nat} : w.daemon.procs[p]? = some proc →
      Daemon.Advanced openMax w.daemon.host p w.daemon.procs.length proc call host proc' none →
      Stepped sizeofLogMessage openMax w (.call p call held) { w with daemon := ⟨host, w.daemon.procs.set p proc'⟩ }
  | fork {p : Nat} {held : Bool} {proc proc' child : Daemon.Process} {c copy : Copy}
      {host : Lib.RecordLock.Host Daemon.PidFile Nat} : w.daemon.procs[p]? = some proc →
      Daemon.Advanced openMax w.daemon.host p w.daemon.procs.length proc (.fork true) host proc' (some child) →
      w.loggers[p]? = some c → c.fork held = some copy →
      Stepped sizeofLogMessage openMax w (.call p (.fork true) held)
        ⟨⟨host, w.daemon.procs.set p proc' ++ [child]⟩, w.loggers ++ [copy]⟩
  | logger {p : Nat} {e : Logger.Event} {proc : Daemon.Process} {c c' : Copy} : w.daemon.procs[p]? = some proc →
      (e = .stop → proc.pc = .leaving) → w.loggers[p]? = some c → c.step sizeofLogMessage e = some c' →
      Stepped sizeofLogMessage openMax w (.logger p e) { w with loggers := w.loggers.set p c' }

theorem step_stepped {e : Event} (h : step sizeofLogMessage openMax w e = some w') :
    Stepped sizeofLogMessage openMax w e w' := by
  unfold step at h
  split at h
  · obtain ⟨daemon, hd, rfl⟩ := Option.map_eq_some_iff.mp h
    obtain rfl := Option.some.inj hd
    exact .start rfl
  · rename_i p held
    obtain ⟨daemon, hd, h⟩ := Option.bind_eq_some_iff.mp h
    obtain ⟨copy, hcopy, h⟩ := Option.bind_eq_some_iff.mp h
    obtain ⟨c, hl, hcopy⟩ := Option.bind_eq_some_iff.mp hcopy
    obtain rfl := Option.some.inj h
    obtain ⟨hno, -⟩ | ⟨p, call, proc, host, proc', child?, hcall, hp, ha, rfl⟩ := Daemon.step_cases hd
    · cases hno
    · obtain ⟨rfl, rfl⟩ := Daemon.Event.call.inj hcall
      obtain ⟨-, hno⟩ | ⟨child, rfl, -, -⟩ := child_cases ha
      · exact absurd rfl hno
      · exact .fork hp ha hl hcopy
  · rename_i p call held hother
    obtain ⟨daemon, hd, rfl⟩ := Option.map_eq_some_iff.mp h
    obtain ⟨hno, -⟩ | ⟨p, call, proc, host, proc', child?, hcall, hp, ha, rfl⟩ := Daemon.step_cases hd
    · cases hno
    · obtain ⟨rfl, rfl⟩ := Daemon.Event.call.inj hcall
      obtain ⟨rfl, -⟩ | ⟨child, -, rfl, -⟩ := child_cases ha
      · rw [Option.toList_none, List.append_nil]
        exact .call hp ha
      · exact (hother rfl).elim
  · rename_i p e
    obtain ⟨proc, hp, h⟩ := Option.bind_eq_some_iff.mp h
    obtain ⟨hallowed, h⟩ := Option.ite_none_left_eq_some.mp h
    obtain ⟨c', hc, h⟩ := Option.bind_eq_some_iff.mp h
    obtain ⟨c, hl, hc⟩ := Option.bind_eq_some_iff.mp hc
    obtain rfl := Option.some.inj h
    refine .logger hp (fun hstop => ?_) hl hc
    by_contra hno
    exact hallowed (.inr ⟨hstop, hno⟩)

theorem paired_step {e : Event} (h : Paired sizeofLogMessage w.daemon.procs w.loggers)
    (hs : step sizeofLogMessage openMax w e = some w') : Paired sizeofLogMessage w'.daemon.procs w'.loggers := by
  cases step_stepped hs with
  | start hd =>
    rw [hd]
    exact h.snoc sound_start
  | call hp ha => exact h.setProcess fun c hc => (h.sound _ _ c hp hc).call ha
  | fork hp ha hl hcopy =>
    have hsound := h.sound _ _ _ hp hl
    refine (h.setProcess fun c hc => ?_).snoc ?_
    · exact (h.sound _ _ c hp hc).call ha
    · obtain ⟨hno, -⟩ | ⟨-, -, -, hactive⟩ := child_cases ha
      · cases hno
      · exact hsound.fork hcopy hactive
  | logger hp hstop hl hc =>
    refine h.setLogger fun proc hproc => ?_
    obtain rfl := Option.some.inj (hp.symm.trans hproc)
    exact (h.sound _ _ _ hp hl).step hc hstop

theorem paired_run {es : List Event} (h : (machine sizeofLogMessage openMax).Reaches init es w) :
    Paired sizeofLogMessage w.daemon.procs w.loggers :=
  h.invariant (fun w => Paired sizeofLogMessage w.daemon.procs w.loggers) ⟨rfl, fun _ _ _ h => nomatch h⟩
    fun _ _ _ hm _ hs => paired_step hm hs

/-- A logger whose worker is in another process stays silent whatever happens. -/
theorem silent_world {e : Event} (hs : step sizeofLogMessage openMax w e = some w') (hc : w.loggers[p]? = some c)
    (hnone : c.hasWorker = false) : ∃ c', w'.loggers[p]? = some c' ∧ Silent sizeofLogMessage c c' := by
  have hlt := (List.getElem?_eq_some_iff.mp hc).1
  cases step_stepped hs with
  | start _ | fork _ _ _ _ => exact ⟨c, by rw [List.getElem?_append_left hlt, hc], .refl c⟩
  | call _ _ => exact ⟨c, hc, .refl c⟩
  | @logger q e proc other c' _ _ hl hcopy =>
    by_cases hq : q = p
    · subst hq
      obtain rfl := Option.some.inj (hl.symm.trans hc)
      exact ⟨c', List.getElem?_set_self hlt, silent_step hnone hcopy⟩
    · exact ⟨c, (List.getElem?_set_ne hq).trans hc, .refl c⟩

theorem silent_run {es : List Event} (h : (machine sizeofLogMessage openMax).Reaches w es w')
    (hc : w.loggers[p]? = some c) (hnone : c.hasWorker = false) :
    ∃ c', w'.loggers[p]? = some c' ∧ Silent sizeofLogMessage c c' :=
  h.invariant (fun w' => ∃ c', w'.loggers[p]? = some c' ∧ Silent sizeofLogMessage c c') ⟨c, hc, .refl c⟩
    fun u _ v hu _ hs => by
      obtain ⟨c₁, hc₁, hsilent⟩ := hu
      obtain ⟨c₂, hc₂, hsilent'⟩ := silent_world hs hc₁ (hsilent.hasWorker.trans hnone)
      exact ⟨c₂, hc₂, hsilent.trans hsilent'⟩

/-- Its destructor waits for the worker for ever. -/
theorem join_none (hnone : c.logger.worker ≠ .exited) : c.step sizeofLogMessage .join = none := by
  refine Option.eq_none_iff_forall_ne_some.mpr fun ⟨logger, has, stuck⟩ hs => ?_
  obtain ⟨-, -, -, -, hstep⟩ := copy_step_cases hs
  cases step_cases hstep with
  | join _ hexited => exact hnone hexited

/-! Who serves. -/

/-- A process that has come past the first fork is a child. -/
def Daemonized (proc : Daemon.Process) : Prop := proc.pc.late = true ∨ proc.pc = .serving → proc.forked = true

theorem Daemonized.call {host host' : Lib.RecordLock.Host Daemon.PidFile Nat} {next : Nat} {call : Daemon.Call}
    {proc' : Daemon.Process} {child? : Option Daemon.Process} (h : Daemonized proc)
    (ha : Daemon.Advanced openMax host p next proc call host' proc' child?)
    (hfirst : call = .fork false → proc.pc ≠ .locked) : Daemonized proc' := by
  intro hpc
  cases ha with
  | openFile _ _ ho =>
    obtain ⟨-, -, hopened | hleaving⟩ := Daemon.openPidFile_spec ho
    · rw [hopened] at hpc
      rcases hpc with hpc | hpc <;> cases hpc
    · rw [hleaving] at hpc
      rcases hpc with hpc | hpc <;> cases hpc
  | forkFailed hat =>
    rcases hat with hat | hat
    · exact absurd hat (hfirst rfl)
    · exact h (.inl (by rw [hat]; rfl))
  | setsid hat | closeLast hat | closeNext hat | redirect hat => exact h (.inl (by rw [hat]; rfl))
  | lock | refuse | giveUp | fork | forkAgain | stop | release | releaseNone | unlink | exit =>
    rcases hpc with hpc | hpc <;> cases hpc

theorem daemonized_step {e : Event} (h : ∀ proc ∈ w.daemon.procs, Daemonized proc) (hforks : Forks w e)
    (hs : step sizeofLogMessage openMax w e = some w') : ∀ proc ∈ w'.daemon.procs, Daemonized proc := by
  intro other hother
  cases step_stepped hs with
  | start hd =>
    rw [hd] at hother
    rcases List.mem_append.mp hother with hold | hnew
    · exact h other hold
    · obtain rfl := List.mem_singleton.mp hnew
      rintro (hpc | hpc) <;> cases hpc
  | @call p call held proc proc' host hp ha =>
    rcases List.mem_or_eq_of_mem_set hother with hold | rfl
    · exact h other hold
    · refine (h proc (List.mem_of_getElem? hp)).call ha ?_
      rintro rfl
      exact hforks proc hp
  | fork hp ha hl hcopy =>
    rcases List.mem_append.mp hother with hold | hnew
    · rcases List.mem_or_eq_of_mem_set hold with hold | rfl
      · exact h other hold
      · exact (h _ (List.mem_of_getElem? hp)).call ha nofun
    · obtain rfl := List.mem_singleton.mp hnew
      cases ha with
      | fork => exact fun _ => rfl
      | forkAgain hat =>
        have hlate := h _ (List.mem_of_getElem? hp)
        exact fun _ => hlate (.inl (by rw [hat]; rfl))
  | logger hp hstop hl hc => exact h other hother

/-- **Where the first fork of `initialize_daemon` succeeds, whoever serves as a daemon writes nothing to the log, from
the fork on and in every run: what it logs stays in its queue, the gauge keeps all of it, and its destructor never
returns. If the worker held the mutex at the fork, nothing even enters the queue.** -/
theorem daemon_log_silent (sizeofLogMessage openMax : Nat) {es : List Event} {w : World}
    (hrun : (machine sizeofLogMessage openMax).Run Forks init es w) :
    (∀ proc ∈ w.daemon.procs, proc.pc = .serving → proc.forked = true) ∧
      ∀ (p : Nat) (proc : Daemon.Process) (c : Copy), w.daemon.procs[p]? = some proc → proc.forked = true →
        w.loggers[p]? = some c → ∀ (fs : List Event) (w' : World), (machine sizeofLogMessage openMax).Reaches w fs w' →
          ∃ c', w'.loggers[p]? = some c' ∧ Silent sizeofLogMessage c c' ∧ c'.step sizeofLogMessage .join = none := by
  have hdaemonized := hrun.invariant (fun w => ∀ proc ∈ w.daemon.procs, Daemonized proc) (fun _ h => nomatch h)
    fun _ _ _ hm hforks hs => daemonized_step hm hforks hs
  refine ⟨fun proc hproc hserves => hdaemonized proc hproc (.inr hserves), fun p proc c hp hforked hc fs w' hreach =>
    ?_⟩
  obtain ⟨hnone, hworker⟩ := ((paired_run hrun.reaches).sound p proc c hp hc).forked hforked
  obtain ⟨c', hc', hsilent⟩ := silent_run hreach hc hnone
  exact ⟨c', hc', hsilent, join_none (hsilent.worker ▸ hworker)⟩

end

/-! One daemon, started as `main` does it. -/

private def starting : LogMessage := ⟨.info, ascii "Starting LightAPR", ascii "t"⟩
private def daemonized : LogMessage := ⟨.info, ascii "Daemonized POSIX process: lightapr", ascii "t"⟩

private def logs (p : Nat) (msg : LogMessage) : List Event :=
  [.logger p (.log msg), .logger p (.push 0), .logger p (.notifyOne 0)]

private def worker (p : Nat) : List Event :=
  [.logger p .testRunning, .logger p (.wake false), .logger p .dequeue, .logger p .writeEntry, .logger p .dequeue]

private def becomes : List Event :=
  [.start] ++ logs 0 starting ++ worker 0 ++
    [.call 0 (.openFile true true 3) false, .call 0 .setLock false, .call 0 (.fork true) false, .call 0 .exit false,
      .call 1 (.setsid true) false, .call 1 (.fork true) false, .call 1 .exit false] ++
    List.replicate 5 (.call 2 .close false)

private def forkedOff : World := ((machine 72 4).execIf Forks init becomes).getD init

private def serving : List Event :=
  [.logger 2 (.log daemonized), .logger 2 (.push 1), .logger 2 (.notifyOne 1), .call 2 .redirect false]

private def servedOn : World := ((machine 72 4).exec forkedOff serving).getD forkedOff

private theorem daemon_runs : ((machine 72 4).execIf Forks init becomes).isSome = true ∧
    ((machine 72 4).exec forkedOff serving).isSome = true ∧
    ((forkedOff.daemon.procs[2]?).map fun proc => proc.forked) = some true ∧
    (forkedOff.loggers[2]?.map fun c => c.logger.written) = some [starting] := by
  decide +kernel

/-- The message of `initialize_daemon` itself is not written. -/
theorem own_message_lost : ∃ c, servedOn.loggers[2]? = some c ∧ c.logger.written = [starting] ∧
    c.step 72 .join = none := by
  obtain ⟨hbecomes, hserving, hforked, hwritten⟩ := daemon_runs
  obtain ⟨proc, hproc, hforked⟩ := Option.map_eq_some_iff.mp hforked
  obtain ⟨c, hc, hwritten⟩ := Option.map_eq_some_iff.mp hwritten
  obtain ⟨-, hsilent⟩ := daemon_log_silent 72 4 ((machine 72 4).run_execIf Forks hbecomes)
  obtain ⟨c', hc', hs, hjoin⟩ := hsilent 2 proc c hproc hforked hc _ _ ((machine 72 4).reaches_exec hserving)
  exact ⟨c', hc', hs.written.trans hwritten, hjoin⟩

end LightApr.Platform.DaemonLog
