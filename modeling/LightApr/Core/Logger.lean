import LightApr.Core.Bytes
import LightApr.Lib.Machine

/-! The asynchronous logger: the threads that call `log`, the worker that writes, and the destructor that stops it. -/
namespace LightApr.Core.Logger
open Lib

inductive LogLevel where
  | debug
  | info
  | warn
  | error
  deriving DecidableEq, Repr

structure LogMessage where
  level : LogLevel
  message : Bytes
  timestamp : Bytes
  deriving DecidableEq, Repr

/-- `sizeofLogMessage` is the platform's `sizeof(log_message)`. -/
def estimateLogMessageBytes (sizeofLogMessage : Nat) (msg : LogMessage) : Int :=
  sizeofLogMessage + msg.message.length + msg.timestamp.length

/-- How far a call of `log` has come: the gauge is raised, then the message is pushed, then the worker notified. -/
inductive Call where
  | counted (msg : LogMessage)
  | pushed
  | returned
  deriving DecidableEq, Repr

/-- Where the worker stands in its loop. -/
inductive WorkerLoop where
  /-- at the test of `running_` -/
  | testRunning
  /-- `running_` was false; at the test of the queue -/
  | testQueue
  /-- in `wait_for` -/
  | waiting
  /-- at the loop over the messages that were swapped out -/
  | draining (batch : List LogMessage)
  /-- the front is off the gauge, and not yet written -/
  | writing (msg : LogMessage) (batch : List LogMessage)
  | exited
  deriving DecidableEq, Repr

structure AsyncLogger where
  queue : List LogMessage
  running : Bool
  worker : WorkerLoop
  calls : List Call
  /-- what the logger has added to the gauge -/
  otherBytes : Int
  /-- the destructor has joined the worker -/
  joined : Bool
  /-- history: the messages of all calls, those that entered the queue, and those passed to `write_entry` -/
  logged : List LogMessage
  entered : List LogMessage
  written : List LogMessage
  deriving DecidableEq, Repr

inductive Event where
  /-- a thread calls `log` -/
  | log (msg : LogMessage)
  | push (k : Nat)
  | notifyOne (k : Nat)
  | testRunning
  | testQueue
  /-- the wait ends, by a notification, a timeout or for no reason -/
  | wake (timedOut : Bool)
  | dequeue
  | writeEntry
  /-- the destructor clears `running_` and notifies -/
  | stop
  | join
  deriving DecidableEq, Repr

/-- The queue changes only under the mutex, so a push is one step, and so is what the worker does from the end of its
wait to the swap. The destructor runs when all calls have returned, and none begins after it. -/
def step (sizeofLogMessage : Nat) (s : AsyncLogger) : Event → Option AsyncLogger
  | .log msg =>
    if s.running then
      some { s with
        calls := s.calls ++ [.counted msg]
        otherBytes := s.otherBytes + estimateLogMessageBytes sizeofLogMessage msg
        logged := s.logged ++ [msg] }
    else none
  | .push k =>
    match s.calls[k]? with
    | some (.counted msg) =>
      some { s with calls := s.calls.set k .pushed, queue := s.queue ++ [msg], entered := s.entered ++ [msg] }
    | _ => none
  | .notifyOne k =>
    match s.calls[k]? with
    | some .pushed => some { s with calls := s.calls.set k .returned }
    | _ => none
  | .testRunning =>
    if s.worker = .testRunning then some { s with worker := if s.running then .waiting else .testQueue } else none
  | .testQueue =>
    if s.worker = .testQueue then some { s with worker := if s.queue ≠ [] then .waiting else .exited } else none
  | .wake timedOut =>
    if s.worker = .waiting then
      if s.queue ≠ [] ∨ s.running = false ∨ timedOut = true then
        some { s with worker := .draining s.queue, queue := [] }
      else some s
    else none
  | .dequeue =>
    match s.worker with
    | .draining [] => some { s with worker := .testRunning }
    | .draining (msg :: batch) =>
      some { s with
        worker := .writing msg batch
        otherBytes := s.otherBytes - estimateLogMessageBytes sizeofLogMessage msg }
    | _ => none
  | .writeEntry =>
    match s.worker with
    | .writing msg batch => some { s with worker := .draining batch, written := s.written ++ [msg] }
    | _ => none
  | .stop =>
    if s.running ∧ ∀ call ∈ s.calls, call = .returned then some { s with running := false } else none
  | .join =>
    if s.running = false ∧ s.worker = .exited ∧ s.joined = false then some { s with joined := true } else none

def machine (sizeofLogMessage : Nat) : Machine AsyncLogger Event := ⟨step sizeofLogMessage⟩

def start : AsyncLogger := ⟨[], true, .testRunning, [], 0, false, [], [], []⟩

/-- What a step does, with what it needs. -/
inductive Stepped (sizeofLogMessage : Nat) (s : AsyncLogger) : Event → AsyncLogger → Prop where
  | log {msg : LogMessage} (hrunning : s.running = true) : Stepped sizeofLogMessage s (.log msg)
      { s with
        calls := s.calls ++ [.counted msg]
        otherBytes := s.otherBytes + estimateLogMessageBytes sizeofLogMessage msg
        logged := s.logged ++ [msg] }
  | push {k : Nat} {msg : LogMessage} (hcall : s.calls[k]? = some (.counted msg)) : Stepped sizeofLogMessage s (.push k)
      { s with calls := s.calls.set k .pushed, queue := s.queue ++ [msg], entered := s.entered ++ [msg] }
  | notifyOne {k : Nat} (hcall : s.calls[k]? = some .pushed) : Stepped sizeofLogMessage s (.notifyOne k)
      { s with calls := s.calls.set k .returned }
  | again (hworker : s.worker = .testRunning) (hrunning : s.running = true) :
      Stepped sizeofLogMessage s .testRunning { s with worker := .waiting }
  | last (hworker : s.worker = .testRunning) (hstopped : s.running = false) :
      Stepped sizeofLogMessage s .testRunning { s with worker := .testQueue }
  | queued (hworker : s.worker = .testQueue) (hqueue : s.queue ≠ []) :
      Stepped sizeofLogMessage s .testQueue { s with worker := .waiting }
  | exit (hworker : s.worker = .testQueue) (hqueue : s.queue = []) :
      Stepped sizeofLogMessage s .testQueue { s with worker := .exited }
  | swap {timedOut : Bool} (hworker : s.worker = .waiting)
      (hends : s.queue ≠ [] ∨ s.running = false ∨ timedOut = true) :
      Stepped sizeofLogMessage s (.wake timedOut) { s with worker := .draining s.queue, queue := [] }
  | sleep {timedOut : Bool} (hworker : s.worker = .waiting) (hrunning : s.running = true) :
      Stepped sizeofLogMessage s (.wake timedOut) s
  | drained (hworker : s.worker = .draining []) :
      Stepped sizeofLogMessage s .dequeue { s with worker := .testRunning }
  | dequeue {msg : LogMessage} {batch : List LogMessage} (hworker : s.worker = .draining (msg :: batch)) :
      Stepped sizeofLogMessage s .dequeue
        { s with
          worker := .writing msg batch
          otherBytes := s.otherBytes - estimateLogMessageBytes sizeofLogMessage msg }
  | writeEntry {msg : LogMessage} {batch : List LogMessage} (hworker : s.worker = .writing msg batch) :
      Stepped sizeofLogMessage s .writeEntry { s with worker := .draining batch, written := s.written ++ [msg] }
  | stop (hrunning : s.running = true) (hreturned : ∀ call ∈ s.calls, call = .returned) :
      Stepped sizeofLogMessage s .stop { s with running := false }
  | join (hstopped : s.running = false) (hexited : s.worker = .exited) (hjoined : s.joined = false) :
      Stepped sizeofLogMessage s .join { s with joined := true }

theorem step_cases {sizeofLogMessage : Nat} {s t : AsyncLogger} {e : Event} (hs : step sizeofLogMessage s e = some t) :
    Stepped sizeofLogMessage s e t := by
  cases e with
  | log msg =>
    obtain ⟨hrunning, hs⟩ := Option.ite_none_right_eq_some.mp hs
    cases hs
    exact .log hrunning
  | push k =>
    simp only [step] at hs
    split at hs
    · rename_i hcall
      cases hs
      exact .push hcall
    · cases hs
  | notifyOne k =>
    simp only [step] at hs
    split at hs
    · rename_i hcall
      cases hs
      exact .notifyOne hcall
    · cases hs
  | testRunning =>
    obtain ⟨hworker, hs⟩ := Option.ite_none_right_eq_some.mp hs
    by_cases hrunning : s.running = true
    · rw [if_pos hrunning] at hs
      cases hs
      exact .again hworker hrunning
    · rw [if_neg hrunning] at hs
      cases hs
      exact .last hworker (eq_false_of_ne_true hrunning)
  | testQueue =>
    obtain ⟨hworker, hs⟩ := Option.ite_none_right_eq_some.mp hs
    by_cases hqueue : s.queue = []
    · rw [if_neg (not_not_intro hqueue)] at hs
      cases hs
      exact .exit hworker hqueue
    · rw [if_pos hqueue] at hs
      cases hs
      exact .queued hworker hqueue
  | wake timedOut =>
    obtain ⟨hworker, hs⟩ := Option.ite_none_right_eq_some.mp hs
    by_cases hends : s.queue ≠ [] ∨ s.running = false ∨ timedOut = true
    · rw [if_pos hends] at hs
      cases hs
      exact .swap hworker hends
    · rw [if_neg hends] at hs
      cases hs
      have hrunning : s.running ≠ false := fun h => hends (.inr (.inl h))
      exact .sleep hworker (eq_true_of_ne_false hrunning)
  | dequeue =>
    simp only [step] at hs
    split at hs
    · rename_i hworker
      cases hs
      exact .drained hworker
    · rename_i hworker
      cases hs
      exact .dequeue hworker
    · cases hs
  | writeEntry =>
    simp only [step] at hs
    split at hs
    · rename_i hworker
      cases hs
      exact .writeEntry hworker
    · cases hs
  | stop =>
    obtain ⟨⟨hrunning, hreturned⟩, hs⟩ := Option.ite_none_right_eq_some.mp hs
    cases hs
    exact .stop hrunning hreturned
  | join =>
    obtain ⟨⟨hstopped, hexited, hjoined⟩, hs⟩ := Option.ite_none_right_eq_some.mp hs
    cases hs
    exact .join hstopped hexited hjoined

/-! What is on its way. -/

/-- The message of a call that is not in the queue yet. -/
def Call.message? : Call → Option LogMessage
  | .counted msg => some msg
  | .pushed | .returned => none

/-- The messages swapped out and not yet passed to `write_entry`. -/
def WorkerLoop.unwritten : WorkerLoop → List LogMessage
  | .draining batch => batch
  | .writing msg batch => msg :: batch
  | .testRunning | .testQueue | .waiting | .exited => []

/-- The messages swapped out and not yet dequeued for writing. -/
def WorkerLoop.queued : WorkerLoop → List LogMessage
  | .draining batch | .writing _ batch => batch
  | .testRunning | .testQueue | .waiting | .exited => []

/-- The messages of the calls that have not pushed yet. -/
def AsyncLogger.entering (s : AsyncLogger) : List LogMessage := s.calls.filterMap Call.message?

def weight (sizeofLogMessage : Nat) : List LogMessage → Int
  | [] => 0
  | msg :: msgs => estimateLogMessageBytes sizeofLogMessage msg + weight sizeofLogMessage msgs

/-- What holds whatever the threads, the worker and the destructor have done. -/
structure Kept (sizeofLogMessage : Nat) (s : AsyncLogger) : Prop where
  order : s.written ++ s.worker.unwritten ++ s.queue = s.entered
  logged : s.logged.Perm (s.entered ++ s.entering)
  gauge : s.otherBytes = weight sizeofLogMessage s.entering + weight sizeofLogMessage s.queue +
    weight sizeofLogMessage s.worker.queued
  stopped : s.running = false → ∀ call ∈ s.calls, call = .returned
  halting : s.worker = .testQueue ∨ s.worker = .exited → s.running = false
  exited : s.worker = .exited → s.queue = []
  joined : s.joined = true → s.worker = .exited

section
variable {sizeofLogMessage : Nat} {s t : AsyncLogger}

@[simp] theorem weight_nil : weight sizeofLogMessage [] = 0 := rfl

@[simp] theorem weight_cons (msg : LogMessage) (msgs : List LogMessage) :
    weight sizeofLogMessage (msg :: msgs) = estimateLogMessageBytes sizeofLogMessage msg +
      weight sizeofLogMessage msgs := rfl

@[simp] theorem weight_append (xs ys : List LogMessage) :
    weight sizeofLogMessage (xs ++ ys) = weight sizeofLogMessage xs + weight sizeofLogMessage ys := by
  induction xs with
  | nil => rw [List.nil_append, weight_nil, Int.zero_add]
  | cons x xs ih => rw [List.cons_append, weight_cons, weight_cons, ih, Int.add_assoc]

theorem weight_perm {xs ys : List LogMessage} (h : xs.Perm ys) :
    weight sizeofLogMessage xs = weight sizeofLogMessage ys := by
  induction h with
  | nil => rfl
  | cons x _ ih => rw [weight_cons, weight_cons, ih]
  | swap x y xs => rw [weight_cons, weight_cons, weight_cons, weight_cons, Int.add_left_comm]
  | trans _ _ ih ih' => exact ih.trans ih'

/-- A call that moves on to where it contributes nothing takes what it contributed away. -/
theorem filterMap_set_perm {α β : Type} {f : α → Option β} {l : List α} {k : Nat} {x y : α} (h : l[k]? = some x)
    (hy : f y = none) : (l.filterMap f).Perm ((f x).toList ++ (l.set k y).filterMap f) := by
  induction l generalizing k with
  | nil => cases h
  | cons z l ih =>
    cases k with
    | zero =>
      obtain rfl : z = x := Option.some.inj h
      rw [List.set_cons_zero, List.filterMap_cons, List.filterMap_cons, hy]
      cases f z with
      | none => exact .refl _
      | some v => exact .refl _
    | succ k =>
      rw [List.set_cons_succ, List.filterMap_cons, List.filterMap_cons]
      cases f z with
      | none => exact ih h
      | some w => exact ((ih h).cons w).trans List.perm_middle.symm

theorem kept_start : Kept sizeofLogMessage start :=
  ⟨rfl, .refl _, rfl, nofun, nofun, nofun, nofun⟩

theorem Kept.log (h : Kept sizeofLogMessage s) {msg : LogMessage} (hs : Stepped sizeofLogMessage s (.log msg) t) :
    Kept sizeofLogMessage t := by
  cases hs with
  | log hrunning =>
    have hentering : (s.calls ++ [Call.counted msg]).filterMap Call.message? = s.entering ++ [msg] := by
      rw [List.filterMap_append]
      rfl
    refine ⟨h.order, ?_, ?_, ?_, h.halting, h.exited, h.joined⟩
    · rw [AsyncLogger.entering, hentering, ← List.append_assoc]
      exact h.logged.append_right [msg]
    · rw [AsyncLogger.entering, hentering, weight_append, weight_cons, weight_nil]
      have hgauge := h.gauge
      dsimp only
      omega
    · exact fun hstopped => absurd (hrunning.symm.trans hstopped) nofun

theorem Kept.push (h : Kept sizeofLogMessage s) {k : Nat} (hs : Stepped sizeofLogMessage s (.push k) t) :
    Kept sizeofLogMessage t := by
  cases hs with
  | @push _ msg hcall =>
    have hentering : s.entering.Perm ([msg] ++ (s.calls.set k .pushed).filterMap Call.message?) :=
      filterMap_set_perm hcall rfl
    have hrunning : s.running ≠ false := fun hstopped =>
      nomatch h.stopped hstopped _ (List.mem_of_getElem? hcall)
    refine ⟨?_, ?_, ?_, fun hstopped => absurd hstopped hrunning, h.halting, ?_, h.joined⟩
    · rw [← List.append_assoc, h.order]
    · rw [List.append_assoc]
      exact h.logged.trans (hentering.append_left _)
    · have hgauge := h.gauge
      rw [weight_perm hentering, weight_append] at hgauge
      rw [weight_append, AsyncLogger.entering]
      dsimp only
      omega
    · exact fun hexited => absurd (h.halting (.inr hexited)) hrunning

theorem Kept.notifyOne (h : Kept sizeofLogMessage s) {k : Nat} (hs : Stepped sizeofLogMessage s (.notifyOne k) t) :
    Kept sizeofLogMessage t := by
  cases hs with
  | notifyOne hcall =>
    have hentering : s.entering.Perm ((s.calls.set k .returned).filterMap Call.message?) :=
      filterMap_set_perm hcall rfl
    refine ⟨h.order, h.logged.trans (hentering.append_left _), ?_, ?_, h.halting, h.exited, h.joined⟩
    · rw [h.gauge, weight_perm hentering]
      rfl
    · exact fun hstopped => nomatch h.stopped hstopped _ (List.mem_of_getElem? hcall)

/-- The worker goes on to another place with no message in its hands. -/
theorem Kept.goOn (h : Kept sizeofLogMessage s) {place loop : WorkerLoop} (hworker : s.worker = place)
    (hbefore : place.unwritten = [] ∧ place.queued = [] ∧ place ≠ .exited)
    (hafter : loop.unwritten = [] ∧ loop.queued = [])
    (hhalting : loop = .testQueue ∨ loop = .exited → s.running = false) (hexited : loop = .exited → s.queue = []) :
    Kept sizeofLogMessage { s with worker := loop } where
  order := by
    have horder := h.order
    rw [hworker, hbefore.1] at horder
    rw [hafter.1]
    exact horder
  logged := h.logged
  gauge := by
    have hgauge := h.gauge
    rw [hworker, hbefore.2.1] at hgauge
    rw [hafter.2]
    exact hgauge
  stopped := h.stopped
  halting := hhalting
  exited := hexited
  joined hj := absurd (hworker.symm.trans (h.joined hj)) hbefore.2.2

theorem Kept.wake (h : Kept sizeofLogMessage s) {timedOut : Bool}
    (hs : Stepped sizeofLogMessage s (.wake timedOut) t) : Kept sizeofLogMessage t := by
  cases hs with
  | sleep => exact h
  | swap hworker =>
    have horder := h.order
    have hgauge := h.gauge
    have hjoined := h.joined
    rw [hworker] at horder hgauge hjoined
    refine ⟨?_, h.logged, ?_, h.stopped, nofun, nofun, fun hj => nomatch hjoined hj⟩
    · simpa [WorkerLoop.unwritten] using horder
    · rw [WorkerLoop.queued, weight_nil] at hgauge
      rw [WorkerLoop.queued, weight_nil, AsyncLogger.entering]
      rw [AsyncLogger.entering] at hgauge
      dsimp only
      omega

theorem Kept.dequeue (h : Kept sizeofLogMessage s) (hs : Stepped sizeofLogMessage s .dequeue t) :
    Kept sizeofLogMessage t := by
  cases hs with
  | drained hworker => exact h.goOn hworker ⟨rfl, rfl, nofun⟩ ⟨rfl, rfl⟩ nofun nofun
  | dequeue hworker =>
    have horder := h.order
    have hgauge := h.gauge
    have hjoined := h.joined
    rw [hworker] at horder hgauge hjoined
    refine ⟨horder, h.logged, ?_, h.stopped, nofun, nofun, fun hj => nomatch hjoined hj⟩
    rw [WorkerLoop.queued, weight_cons] at hgauge
    rw [WorkerLoop.queued, AsyncLogger.entering]
    rw [AsyncLogger.entering] at hgauge
    dsimp only
    omega

theorem Kept.writeEntry (h : Kept sizeofLogMessage s) (hs : Stepped sizeofLogMessage s .writeEntry t) :
    Kept sizeofLogMessage t := by
  cases hs with
  | writeEntry hworker =>
    have horder := h.order
    have hgauge := h.gauge
    have hjoined := h.joined
    rw [hworker] at horder hgauge hjoined
    refine ⟨?_, h.logged, hgauge, h.stopped, nofun, nofun, fun hj => nomatch hjoined hj⟩
    simpa [WorkerLoop.unwritten] using horder

theorem Kept.step (h : Kept sizeofLogMessage s) (e : Event) (hs : step sizeofLogMessage s e = some t) :
    Kept sizeofLogMessage t := by
  have hstep := step_cases hs
  cases e with
  | log msg => exact h.log hstep
  | push k => exact h.push hstep
  | notifyOne k => exact h.notifyOne hstep
  | testRunning =>
    cases hstep with
    | again hworker => exact h.goOn hworker ⟨rfl, rfl, nofun⟩ ⟨rfl, rfl⟩ nofun nofun
    | last hworker hstopped => exact h.goOn hworker ⟨rfl, rfl, nofun⟩ ⟨rfl, rfl⟩ (fun _ => hstopped) nofun
  | testQueue =>
    have hstopped : s.worker = .testQueue → s.running = false := fun hworker => h.halting (.inl hworker)
    cases hstep with
    | queued hworker => exact h.goOn hworker ⟨rfl, rfl, nofun⟩ ⟨rfl, rfl⟩ nofun nofun
    | exit hworker hqueue =>
      exact h.goOn hworker ⟨rfl, rfl, nofun⟩ ⟨rfl, rfl⟩ (fun _ => hstopped hworker) fun _ => hqueue
  | wake timedOut => exact h.wake hstep
  | dequeue => exact h.dequeue hstep
  | writeEntry => exact h.writeEntry hstep
  | stop =>
    cases hstep with
    | stop _ hreturned => exact ⟨h.order, h.logged, h.gauge, fun _ => hreturned, fun _ => rfl, h.exited, h.joined⟩
  | join =>
    cases hstep with
    | join _ hexited => exact ⟨h.order, h.logged, h.gauge, h.stopped, h.halting, h.exited, fun _ => hexited⟩

theorem kept_of_reaches {es : List Event} (h : (machine sizeofLogMessage).Reaches start es s) :
    Kept sizeofLogMessage s := h.invariant _ kept_start fun _ e _ hm _ hs => hm.step e hs

/-! Once the destructor has cleared `running_`, everything comes to its end. -/

/-- The steps a queue still costs when the worker comes to test it. -/
def toFetch (queue : List LogMessage) : Nat := if queue = [] then 0 else 4 + 2 * queue.length

/-- A bound on what is left to do after the stop. -/
def remaining (s : AsyncLogger) : Nat :=
  match s.worker with
  | .exited => if s.joined then 0 else 1
  | .testQueue => 2 + toFetch s.queue
  | .testRunning => 3 + toFetch s.queue
  | .draining batch => 4 + toFetch s.queue + 2 * batch.length
  | .writing _ batch => 5 + toFetch s.queue + 2 * batch.length
  | .waiting => 5 + 2 * s.queue.length

def Stopped (sizeofLogMessage : Nat) (s : AsyncLogger) : Prop := Kept sizeofLogMessage s ∧ s.running = false

theorem Stopped.step (h : Stopped sizeofLogMessage s) (e : Event) (hs : step sizeofLogMessage s e = some t) :
    Stopped sizeofLogMessage t ∧ remaining t < remaining s := by
  obtain ⟨hkept, hstopped⟩ := h
  have hkept' := hkept.step e hs
  have hreturned : ∀ {k} {call : Call}, s.calls[k]? = some call → call = .returned := fun hcall =>
    hkept.stopped hstopped _ (List.mem_of_getElem? hcall)
  cases step_cases hs with
  | log hrunning => cases hrunning.symm.trans hstopped
  | push hcall => cases hreturned hcall
  | notifyOne hcall => cases hreturned hcall
  | again _ hrunning => cases hrunning.symm.trans hstopped
  | last hworker => exact ⟨⟨hkept', hstopped⟩, by simp [remaining, hworker]⟩
  | queued hworker hqueue =>
    refine ⟨⟨hkept', hstopped⟩, ?_⟩
    simp only [remaining, hworker, toFetch, hqueue, if_false]
    omega
  | exit hworker hqueue =>
    refine ⟨⟨hkept', hstopped⟩, ?_⟩
    simp only [remaining, hworker]
    split <;> omega
  | sleep _ hrunning => cases hrunning.symm.trans hstopped
  | swap hworker =>
    refine ⟨⟨hkept', hstopped⟩, ?_⟩
    simp only [remaining, hworker, toFetch, if_true]
    omega
  | drained hworker => exact ⟨⟨hkept', hstopped⟩, by simp [remaining, hworker]⟩
  | dequeue hworker =>
    refine ⟨⟨hkept', hstopped⟩, ?_⟩
    simp only [remaining, hworker, List.length_cons]
    omega
  | writeEntry hworker => exact ⟨⟨hkept', hstopped⟩, by simp [remaining, hworker]⟩
  | stop hrunning => cases hrunning.symm.trans hstopped
  | join _ hexited hjoined => exact ⟨⟨hkept', hstopped⟩, by simp [remaining, hexited, hjoined]⟩

/-- The worker never hangs: its wait times out. -/
theorem Stopped.live (h : Stopped sizeofLogMessage s) (hjoined : s.joined ≠ true) :
    ∃ e, (Logger.step sizeofLogMessage s e).isSome = true := by
  cases hworker : s.worker with
  | testRunning => exact ⟨.testRunning, by simp [Logger.step, hworker]⟩
  | testQueue => exact ⟨.testQueue, by simp [Logger.step, hworker]⟩
  | waiting => exact ⟨.wake true, by simp [Logger.step, hworker]⟩
  | draining batch => cases batch with
    | nil => exact ⟨.dequeue, by simp [Logger.step, hworker]⟩
    | cons msg batch => exact ⟨.dequeue, by simp [Logger.step, hworker]⟩
  | writing msg batch => exact ⟨.writeEntry, by simp [Logger.step, hworker]⟩
  | exited => exact ⟨.join, by simp [Logger.step, hworker, h.2, hjoined]⟩

/-- The messages on the gauge. -/
def AsyncLogger.notDequeued (s : AsyncLogger) : List LogMessage := s.entering ++ s.queue ++ s.worker.queued

/-- **Whatever the threads, the worker and the destructor do, the messages are written in the order they entered the
queue, every message logged is written, is about to be, or is entering, and the gauge is the weight of those not yet
dequeued. When the destructor has joined the worker each message was written once and the gauge is zero. After the
stop a bounded number of steps is left, and the join is always reached.** -/
theorem written_once {es : List Event} (h : (machine sizeofLogMessage).Reaches start es s) :
    s.written ++ s.worker.unwritten ++ s.queue = s.entered ∧ s.logged.Perm (s.entered ++ s.entering) ∧
      s.otherBytes = weight sizeofLogMessage s.notDequeued ∧
      (s.joined = true → s.written = s.entered ∧ s.written.Perm s.logged ∧ s.otherBytes = 0) ∧
      (s.running = false →
        (∀ fs t, (machine sizeofLogMessage).Reaches s fs t → fs.length ≤ remaining s ∧
          (t.joined = false → ∃ e, (step sizeofLogMessage t e).isSome = true)) ∧
        ∃ fs t, (machine sizeofLogMessage).Reaches s fs t ∧ t.joined = true) := by
  have hkept := kept_of_reaches h
  have hgauge : s.otherBytes = weight sizeofLogMessage s.notDequeued := by
    rw [AsyncLogger.notDequeued, weight_append, weight_append]
    exact hkept.gauge
  refine ⟨hkept.order, hkept.logged, hgauge, fun hjoined => ?_, fun hrunning => ?_⟩
  · have hworker := hkept.joined hjoined
    have hqueue := hkept.exited hworker
    have hentering : s.entering = [] := List.filterMap_eq_nil_iff.mpr fun call hcall => by
      rw [hkept.stopped (hkept.halting (.inr hworker)) call hcall]
      rfl
    have hwritten : s.written = s.entered := by
      have horder := hkept.order
      rwa [hworker, hqueue, WorkerLoop.unwritten, List.append_nil, List.append_nil] at horder
    refine ⟨hwritten, ?_, ?_⟩
    · have hlogged := hkept.logged
      rw [hentering, List.append_nil] at hlogged
      exact hwritten ▸ hlogged.symm
    · rw [hgauge, AsyncLogger.notDequeued, hentering, hqueue, hworker]
      rfl
  · have hstopped : Stopped sizeofLogMessage s := ⟨hkept, hrunning⟩
    constructor
    · intro fs t hrun
      obtain ⟨ht, hlength⟩ := hrun.length_le (fun _ e _ hm hs => hm.step e hs) hstopped
      exact ⟨Nat.le_of_add_right_le hlength, fun hj => ht.live (hj ▸ nofun)⟩
    · obtain ⟨fs, t, hrun, -, hjoined⟩ := Machine.exists_reaches (M := machine sizeofLogMessage)
        (fun t => t.joined = true) (fun _ e _ hm hs => hm.step e hs) (fun _ hm => hm.live) hstopped
      exact ⟨fs, t, hrun, hjoined⟩

end

private def twoLines : List LogMessage := [⟨.info, [104, 105], [49]⟩, ⟨.error, [111], [50]⟩]

private def twoThreads : List Event :=
  [.testRunning, .log ⟨.info, [104, 105], [49]⟩, .log ⟨.error, [111], [50]⟩, .push 1, .notifyOne 1, .wake false,
    .push 0,
    .notifyOne 0, .stop, .dequeue, .writeEntry, .dequeue, .testRunning, .testQueue, .wake false, .dequeue, .writeEntry,
    .dequeue, .testRunning, .testQueue, .join]

/-- Two threads log, the second gets to the queue first, and the destructor stops the worker in its wait. -/
theorem written_once_two : ∃ s : AsyncLogger, s.logged = twoLines ∧ s.entered = twoLines.reverse ∧
    s.written = s.entered ∧ s.written.Perm s.logged ∧ s.otherBytes = 0 := by
  have hrun : (machine 72).Reaches start twoThreads (((machine 72).exec start twoThreads).getD start) :=
    Machine.reaches_exec (machine 72) rfl
  obtain ⟨-, -, -, hend, -⟩ := written_once hrun
  exact ⟨_, rfl, rfl, hend rfl⟩

end LightApr.Core.Logger
