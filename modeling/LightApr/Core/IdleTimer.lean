import LightApr.Core.TcpSession
import LightApr.Lib.Machine

/-! The idle timer of a session on a clock. A wait whose deadline has passed may be queued with success; canceling
the timer reaches only the waits that are not queued yet. -/
namespace LightApr.Core.IdleTimer
open Lib

/-- What has become of a wait: its handler is still to be queued, or is queued with success or with an error. -/
inductive Fate where
  | pending
  | fired
  | canceled
  deriving DecidableEq, Repr

structure Wait where
  deadline : Nat
  fate : Fate
  deriving DecidableEq, Repr

def Wait.cancel (wait : Wait) : Wait := if wait.fate = .pending then { wait with fate := .canceled } else wait

/-- A close by the timer: its time, and when the read completions before it were handled. -/
structure IdleClose where
  time : Nat
  handled : List Nat
  deriving DecidableEq, Repr

structure TimedSession where
  tcp : TcpSession
  now : Nat
  waits : List Wait
  /-- history -/
  handled : List Nat
  idleClosed : Option IdleClose
  deriving DecidableEq, Repr

def start (tcp : TcpSession) (clock : Nat) : TimedSession := ⟨tcp, clock, [], [], none⟩

namespace TimedSession

def cancelIdleTimer (s : TimedSession) : TimedSession := { s with waits := s.waits.map Wait.cancel }

/-- `expires_after` cancels the waits that are pending. -/
def armIdleTimer (timeout : Nat) (s : TimedSession) : TimedSession :=
  { s with waits := s.waits.map Wait.cancel ++ [⟨s.now + timeout, .pending⟩] }

def startReadLoop (timeout : Nat) (s : TimedSession) : TimedSession :=
  { s.armIdleTimer timeout with tcp := s.tcp.startReadLoop }

def closeSession (s : TimedSession) : TimedSession :=
  if s.tcp.closed then s else { s.cancelIdleTimer with tcp := s.tcp.close }

end TimedSession
open TimedSession

/-- What code of a derived class does with the base; it may take time over it. -/
inductive Call where
  | startReadLoop
  | closeSession
  | spend (duration : Nat)
  deriving DecidableEq, Repr

def Call.run (timeout : Nat) (s : TimedSession) : Call → TimedSession
  | .startReadLoop => s.startReadLoop timeout
  | .closeSession => s.closeSession
  | .spend duration => { s with now := s.now + duration }

def runCalls (timeout : Nat) (calls : List Call) (s : TimedSession) : TimedSession :=
  calls.foldl (Call.run timeout) s

inductive Event where
  | tick (duration : Nat)
  /-- the deadline of wait `k` has passed, and its handler is queued -/
  | expires (k : Nat)
  /-- the handler of wait `k` runs -/
  | waitHandler (k : Nat)
  /-- a read completion, with what `on_bytes_read` calls -/
  | readHandler (calls : List Call)
  | readFailed
  /-- another handler, or `start` -/
  | handler (calls : List Call)
  deriving DecidableEq, Repr

/-- The handler of a wait that was not canceled. -/
def idleTimeout (s : TimedSession) : TimedSession :=
  if s.tcp.closed then s else { s.closeSession with idleClosed := some ⟨s.now, s.handled⟩ }

/-- The beginning of every read handler. -/
def completeRead (reads : List Bool) (s : TimedSession) : TimedSession :=
  { s.cancelIdleTimer with tcp := { s.tcp with reads }, handled := s.handled ++ [s.now] }

def step (timeout : Nat) (s : TimedSession) : Event → Option TimedSession
  | .tick duration => some { s with now := s.now + duration }
  | .expires k =>
    match s.waits[k]? with
    | some ⟨deadline, .pending⟩ =>
      if deadline ≤ s.now then some { s with waits := s.waits.set k ⟨deadline, .fired⟩ } else none
    | _ => none
  | .waitHandler k =>
    let done : TimedSession := { s with waits := s.waits.eraseIdx k, tcp := { s.tcp with waits := s.tcp.waits - 1 } }
    match s.waits[k]? with
    | some ⟨_, .fired⟩ => some (idleTimeout done)
    | some ⟨_, .canceled⟩ => some done
    | _ => none
  | .readHandler calls =>
    if true ∈ s.tcp.reads then some (runCalls timeout calls (completeRead (s.tcp.reads.erase true) s)) else none
  | .readFailed => if s.tcp.reads = [] then none else some (completeRead s.tcp.reads.tail s).closeSession
  | .handler calls => some (runCalls timeout calls s)

def machine (timeout : Nat) : Machine TimedSession Event := ⟨step timeout⟩

/-- When the timer closed the session, no read completion had been handled for as long as the timeout. -/
def IdleOnly (timeout : Nat) (s : TimedSession) : Prop :=
  ∀ close ∈ s.idleClosed, ∀ time ∈ close.handled, time + timeout ≤ close.time

/-- No expired wait is queued when the completion of a read is handled, unless the session is closed, or the
handler closes it. -/
def Unraced (s : TimedSession) : Event → Prop
  | .readHandler calls => s.tcp.closed = false → .closeSession ∉ calls → ∀ wait ∈ s.waits, wait.fate ≠ .fired
  | _ => True

instance (s : TimedSession) (e : Event) : Decidable (Unraced s e) := by
  cases e <;> unfold Unraced <;> infer_instance

/-! Any run. -/

/-- The session without wait `k`. -/
def finishWait (k : Nat) (s : TimedSession) : TimedSession :=
  { s with waits := s.waits.eraseIdx k, tcp := { s.tcp with waits := s.tcp.waits - 1 } }

/-- What each event comes to. -/
inductive Stepped (timeout : Nat) (s : TimedSession) : Event → TimedSession → Prop
  | tick (duration : Nat) : Stepped timeout s (.tick duration) { s with now := s.now + duration }
  | expires {k deadline : Nat} : s.waits[k]? = some ⟨deadline, .pending⟩ → deadline ≤ s.now →
      Stepped timeout s (.expires k) { s with waits := s.waits.set k ⟨deadline, .fired⟩ }
  | fired {k deadline : Nat} : s.waits[k]? = some ⟨deadline, .fired⟩ →
      Stepped timeout s (.waitHandler k) (idleTimeout (finishWait k s))
  | canceled {k deadline : Nat} : s.waits[k]? = some ⟨deadline, .canceled⟩ →
      Stepped timeout s (.waitHandler k) (finishWait k s)
  | read (calls : List Call) : true ∈ s.tcp.reads →
      Stepped timeout s (.readHandler calls) (runCalls timeout calls (completeRead (s.tcp.reads.erase true) s))
  | readFailed : s.tcp.reads ≠ [] → Stepped timeout s .readFailed (completeRead s.tcp.reads.tail s).closeSession
  | handler (calls : List Call) : Stepped timeout s (.handler calls) (runCalls timeout calls s)

theorem step_cases {timeout : Nat} {s s' : TimedSession} {e : Event} (h : step timeout s e = some s') :
    Stepped timeout s e s' := by
  cases e with
  | tick duration =>
    obtain rfl := Option.some.inj h
    exact .tick duration
  | expires k =>
    rw [step] at h
    split at h
    · rename_i deadline hk
      split at h
      · rename_i hle
        obtain rfl := Option.some.inj h
        exact .expires hk hle
      · cases h
    · cases h
  | waitHandler k =>
    rw [step] at h
    split at h
    · rename_i deadline hk
      obtain rfl := Option.some.inj h
      exact .fired hk
    · rename_i deadline hk
      obtain rfl := Option.some.inj h
      exact .canceled hk
    · cases h
  | readHandler calls =>
    rw [step] at h
    split at h
    · rename_i hread
      obtain rfl := Option.some.inj h
      exact .read calls hread
    · cases h
  | readFailed =>
    rw [step] at h
    split at h
    · cases h
    · rename_i hread
      obtain rfl := Option.some.inj h
      exact .readFailed hread
  | handler calls =>
    obtain rfl := Option.some.inj h
    exact .handler calls

/-- A wait that can still close the session was armed after every read completion so far. -/
structure Live (timeout : Nat) (s : TimedSession) (wait : Wait) : Prop where
  later : ∀ time ∈ s.handled, time + timeout ≤ wait.deadline
  due : wait.fate = .fired → wait.deadline ≤ s.now

structure Timed (timeout : Nat) (s : TimedSession) : Prop where
  past : ∀ time ∈ s.handled, time ≤ s.now
  live : s.tcp.closed = false → ∀ wait ∈ s.waits, wait.fate ≠ .canceled → Live timeout s wait
  idle : IdleOnly timeout s

section
variable {timeout : Nat} {s s' : TimedSession} {wait : Wait}

theorem Wait.cancel_fate (h : wait.cancel.fate ≠ .canceled) : wait.cancel = wait ∧ wait.fate = .fired := by
  cases wait with
  | mk deadline fate =>
    cases fate with
    | pending => exact absurd rfl h
    | fired => exact ⟨rfl, rfl⟩
    | canceled => exact absurd rfl h

/-- What is left to close the session after the timer is canceled was there before, and is queued. -/
theorem mem_canceled {waits : List Wait} (h : wait ∈ waits.map Wait.cancel) (hf : wait.fate ≠ .canceled) :
    wait ∈ waits ∧ wait.fate = .fired := by
  obtain ⟨old, hmem, rfl⟩ := List.mem_map.mp h
  obtain ⟨hsame, hfired⟩ := Wait.cancel_fate hf
  rw [hsame]
  exact ⟨hmem, hfired⟩

@[simp] theorem closeSession_closed (s : TimedSession) : s.closeSession.tcp.closed = true := by
  unfold closeSession
  split
  · assumption
  · rfl

theorem closeSession_rest (s : TimedSession) : s.closeSession.now = s.now ∧ s.closeSession.handled = s.handled ∧
    s.closeSession.idleClosed = s.idleClosed := by
  unfold closeSession
  split <;> exact ⟨rfl, rfl, rfl⟩

theorem timed_closeSession (h : Timed timeout s) : Timed timeout s.closeSession := by
  obtain ⟨hnow, hhandled, hidle⟩ := closeSession_rest s
  refine ⟨?_, fun hopen => ?_, ?_⟩
  · rw [hnow, hhandled]
    exact h.past
  · rw [closeSession_closed] at hopen
    cases hopen
  · rw [IdleOnly, hidle]
    exact h.idle

theorem timed_startReadLoop (h : Timed timeout s) : Timed timeout (s.startReadLoop timeout) := by
  refine ⟨h.past, fun hopen wait hw hf => ?_, h.idle⟩
  rcases List.mem_append.mp hw with hw | hw
  · obtain ⟨hmem, -⟩ := mem_canceled hw hf
    exact ⟨(h.live hopen wait hmem hf).later, (h.live hopen wait hmem hf).due⟩
  · obtain rfl := List.mem_singleton.mp hw
    exact ⟨fun time ht => Nat.add_le_add_right (h.past time ht) timeout, fun hfired => by cases hfired⟩

theorem timed_spend (h : Timed timeout s) (duration : Nat) : Timed timeout { s with now := s.now + duration } where
  past time ht := Nat.le_trans (h.past time ht) (Nat.le_add_right _ _)
  live hopen wait hw hf :=
    let hlive := h.live hopen wait hw hf
    ⟨hlive.later, fun hfired => Nat.le_trans (hlive.due hfired) (Nat.le_add_right _ _)⟩
  idle := h.idle

theorem timed_runCalls (h : Timed timeout s) (calls : List Call) : Timed timeout (runCalls timeout calls s) := by
  induction calls generalizing s with
  | nil => exact h
  | cons call calls ih =>
    refine ih ?_
    cases call with
    | startReadLoop => exact timed_startReadLoop h
    | closeSession => exact timed_closeSession h
    | spend duration => exact timed_spend h duration

/-- Once closed, a session stays closed. -/
theorem closed_runCalls (h : s.tcp.closed = true) (calls : List Call) :
    (runCalls timeout calls s).tcp.closed = true := by
  induction calls generalizing s with
  | nil => exact h
  | cons call calls ih =>
    refine ih ?_
    cases call with
    | startReadLoop => exact h
    | closeSession => exact closeSession_closed s
    | spend duration => exact h

theorem runCalls_closes {calls : List Call} (h : .closeSession ∈ calls) :
    (runCalls timeout calls s).tcp.closed = true := by
  induction calls generalizing s with
  | nil => exact absurd h List.not_mem_nil
  | cons call calls ih =>
    rcases List.mem_cons.mp h with rfl | h
    · exact closed_runCalls (closeSession_closed s) calls
    · exact ih h

theorem runCalls_rest (timeout : Nat) (s : TimedSession) (calls : List Call) : s.now ≤ (runCalls timeout calls s).now ∧
    (runCalls timeout calls s).handled = s.handled ∧ (runCalls timeout calls s).idleClosed = s.idleClosed := by
  induction calls generalizing s with
  | nil => exact ⟨Nat.le_refl _, rfl, rfl⟩
  | cons call calls ih =>
    obtain ⟨hnow, hhandled, hidle⟩ : s.now ≤ (call.run timeout s).now ∧ (call.run timeout s).handled = s.handled ∧
        (call.run timeout s).idleClosed = s.idleClosed := by
      cases call with
      | startReadLoop => exact ⟨Nat.le_refl _, rfl, rfl⟩
      | closeSession =>
        obtain ⟨hnow, hhandled, hidle⟩ := closeSession_rest s
        exact ⟨Nat.le_of_eq hnow.symm, hhandled, hidle⟩
      | spend duration => exact ⟨Nat.le_add_right _ _, rfl, rfl⟩
    obtain ⟨hnow', hhandled', hidle'⟩ := ih (call.run timeout s)
    exact ⟨Nat.le_trans hnow hnow', hhandled'.trans hhandled, hidle'.trans hidle⟩

/-- A read completion of a session whose queue holds no expired wait. -/
theorem timed_completeRead (h : Timed timeout s) (reads : List Bool)
    (hu : s.tcp.closed = false → ∀ wait ∈ s.waits, wait.fate ≠ .fired) : Timed timeout (completeRead reads s) := by
  refine ⟨fun time ht => ?_, fun hopen wait hw hf => ?_, h.idle⟩
  · rcases List.mem_append.mp ht with ht | ht
    · exact h.past time ht
    · exact Nat.le_of_eq (List.mem_singleton.mp ht)
  · obtain ⟨hmem, hfired⟩ := mem_canceled hw hf
    exact absurd hfired (hu hopen wait hmem)

/-- One that closes the session, whatever is queued. -/
theorem timed_closing (h : Timed timeout s)
    (hs : s'.tcp.closed = true) (hnow : s.now ≤ s'.now) (hhandled : s'.handled = s.handled ++ [s.now])
    (hidle : s'.idleClosed = s.idleClosed) : Timed timeout s' := by
  refine ⟨fun time ht => ?_, fun hopen => ?_, ?_⟩
  · rw [hhandled] at ht
    rcases List.mem_append.mp ht with ht | ht
    · exact Nat.le_trans (h.past time ht) hnow
    · rw [List.mem_singleton.mp ht]
      exact hnow
  · rw [hs] at hopen
    cases hopen
  · rw [IdleOnly, hidle]
    exact h.idle

theorem timed_idleTimeout (h : Timed timeout s)
    (hl : s.tcp.closed = false → ∀ time ∈ s.handled, time + timeout ≤ s.now) : Timed timeout (idleTimeout s) := by
  unfold idleTimeout
  split
  · exact h
  · rename_i hopen
    have hclose := timed_closeSession h
    refine ⟨hclose.past, fun hopen' => ?_, fun close hc time ht => ?_⟩
    · cases (closeSession_closed s).symm.trans hopen'
    · obtain rfl := Option.some.inj hc
      exact hl (eq_false_of_ne_true hopen) time ht

theorem timed_finishWait (h : Timed timeout s) (k : Nat) : Timed timeout (finishWait k s) where
  past := h.past
  live hopen wait hw hf :=
    let hlive := h.live hopen wait (List.mem_of_mem_eraseIdx hw) hf
    ⟨hlive.later, hlive.due⟩
  idle := h.idle

theorem timed_step {e : Event} (h : Timed timeout s) (hu : Unraced s e) (hs : step timeout s e = some s') :
    Timed timeout s' := by
  cases step_cases hs with
  | tick duration => exact timed_spend h duration
  | expires hk hle =>
    refine ⟨h.past, fun hopen wait hw hf => ?_, h.idle⟩
    have hold := h.live hopen _ (List.mem_of_getElem? hk) Fate.noConfusion
    rcases List.mem_or_eq_of_mem_set hw with hw | rfl
    · exact ⟨(h.live hopen wait hw hf).later, (h.live hopen wait hw hf).due⟩
    · exact ⟨hold.later, fun _ => hle⟩
  | @fired k deadline hk =>
    refine timed_idleTimeout (timed_finishWait h k) fun hopen time ht => ?_
    have hlive := h.live hopen _ (List.mem_of_getElem? hk) Fate.noConfusion
    exact Nat.le_trans (hlive.later time ht) (hlive.due rfl)
  | @canceled k _ _ => exact timed_finishWait h k
  | read calls _ =>
    by_cases hclose : .closeSession ∈ calls
    · obtain ⟨hnow, hhandled, hidle⟩ := runCalls_rest timeout (completeRead (s.tcp.reads.erase true) s) calls
      exact timed_closing h (runCalls_closes hclose) hnow hhandled hidle
    · exact timed_runCalls (timed_completeRead h _ fun hopen => hu hopen hclose) calls
  | readFailed _ =>
    obtain ⟨hnow, hhandled, hidle⟩ := closeSession_rest (completeRead s.tcp.reads.tail s)
    exact timed_closing h (closeSession_closed _) (Nat.le_of_eq hnow.symm) hhandled hidle
  | handler calls => exact timed_runCalls h calls

theorem waits_counted_close (h : s.tcp.waits = s.waits.length) :
    s.closeSession.tcp.waits = s.closeSession.waits.length := by
  unfold closeSession
  split
  · exact h
  · exact h.trans (List.length_map _).symm

theorem waits_counted_runCalls (h : s.tcp.waits = s.waits.length) (calls : List Call) :
    (runCalls timeout calls s).tcp.waits = (runCalls timeout calls s).waits.length := by
  induction calls generalizing s with
  | nil => exact h
  | cons call calls ih =>
    refine ih ?_
    cases call with
    | startReadLoop =>
      show s.tcp.waits + 1 = (s.waits.map Wait.cancel ++ [(⟨s.now + timeout, .pending⟩ : Wait)]).length
      rw [List.length_append, List.length_map, h]
      rfl
    | closeSession => exact waits_counted_close h
    | spend duration => exact h

theorem waits_counted_finishWait (h : s.tcp.waits = s.waits.length) {k : Nat} (hk : s.waits[k]? = some wait) :
    (finishWait k s).tcp.waits = (finishWait k s).waits.length := by
  obtain ⟨hlt, -⟩ := List.getElem?_eq_some_iff.mp hk
  show s.tcp.waits - 1 = (s.waits.eraseIdx k).length
  rw [List.length_eraseIdx_of_lt hlt, h]

theorem waits_counted_step {e : Event} (h : s.tcp.waits = s.waits.length) (hs : step timeout s e = some s') :
    s'.tcp.waits = s'.waits.length := by
  have hread (reads : List Bool) : (completeRead reads s).tcp.waits = (completeRead reads s).waits.length :=
    h.trans (List.length_map _).symm
  cases step_cases hs with
  | tick _ => exact h
  | expires _ _ => exact h.trans List.length_set.symm
  | fired hk =>
    unfold idleTimeout
    split
    · exact waits_counted_finishWait h hk
    · exact waits_counted_close (waits_counted_finishWait h hk)
  | canceled hk => exact waits_counted_finishWait h hk
  | read calls _ => exact waits_counted_runCalls (hread _) calls
  | readFailed _ => exact waits_counted_close (hread _)
  | handler calls => exact waits_counted_runCalls h calls

end

/-- In every run the session counts the waits whose handlers have not run. -/
theorem waits_counted {timeout clock : Nat} {admitted : Bytes} {remote : Option Bytes} {es : List Event}
    {s : TimedSession} (h : (machine timeout).Reaches (start (.new admitted remote) clock) es s) :
    s.tcp.waits = s.waits.length :=
  h.invariant (fun s => s.tcp.waits = s.waits.length) rfl fun _ _ _ hm _ hstep => waits_counted_step hm hstep

private def fresh : TcpSession := .new (ascii "10.0.0.7") (some (ascii "10.0.0.7"))

/-- A read at 40, and then none until 130. -/
private def quiet : List Event :=
  [.handler [.startReadLoop], .tick 40, .readHandler [.startReadLoop], .tick 90, .waitHandler 0, .expires 0,
    .waitHandler 0]

private def dropped : TimedSession := ((machine 90).execIf Unraced (start fresh 0) quiet).getD (start fresh 0)

private theorem dropped_run : ((machine 90).execIf Unraced (start fresh 0) quiet).isSome = true ∧
    dropped.idleClosed = some ⟨130, [40]⟩ := by
  decide +kernel

/-- Calls that do not close the session leave it open, and leave the queued waits where they are. -/
private theorem runCalls_open (timeout : Nat) {s : TimedSession} {calls : List Call} (h : .closeSession ∉ calls)
    (hopen : s.tcp.closed = false) {k : Nat} {wait : Wait} (hk : s.waits[k]? = some wait) (hf : wait.fate = .fired) :
    (runCalls timeout calls s).tcp.closed = false ∧ (runCalls timeout calls s).waits[k]? = some wait := by
  induction calls generalizing s with
  | nil => exact ⟨hopen, hk⟩
  | cons call calls ih =>
    obtain ⟨hne, hrest⟩ := not_or.mp (mt List.mem_cons.mpr h)
    cases call with
    | startReadLoop =>
      refine ih hrest hopen ?_
      obtain ⟨hlt, -⟩ := List.getElem?_eq_some_iff.mp hk
      show (s.waits.map Wait.cancel ++ _)[k]? = some wait
      rw [List.getElem?_append_left (by rwa [List.length_map]), List.getElem?_map, hk, Option.map_some, Wait.cancel, hf]
      rfl
    | closeSession => exact absurd rfl hne
    | spend duration => exact ih hrest hopen hk

/-- Where the condition fails, the next handler may be one that closes the session, with the read just handled. -/
theorem stale_handler_closes {timeout : Nat} {s s' : TimedSession} {calls : List Call}
    (hu : ¬ Unraced s (.readHandler calls)) (hs : step timeout s (.readHandler calls) = some s') :
    ∃ k s'', step timeout s' (.waitHandler k) = some s'' ∧ s''.idleClosed = some ⟨s'.now, s.handled ++ [s.now]⟩ := by
  obtain ⟨hopen, hcalls, wait, hmem, hfired⟩ : s.tcp.closed = false ∧ .closeSession ∉ calls ∧
      ∃ wait ∈ s.waits, wait.fate = .fired := by
    simpa [Unraced] using hu
  obtain ⟨k, hk⟩ := List.mem_iff_getElem?.mp hmem
  cases step_cases hs with
  | read _ _ =>
    have hcanceled : (completeRead (s.tcp.reads.erase true) s).waits[k]? = some wait := by
      show (s.waits.map Wait.cancel)[k]? = some wait
      rw [List.getElem?_map, hk, Option.map_some, Wait.cancel, hfired]
      rfl
    obtain ⟨hopen', hk'⟩ := runCalls_open timeout hcalls
      (show (completeRead (s.tcp.reads.erase true) s).tcp.closed = false from hopen) hcanceled hfired
    obtain ⟨-, hhandled, -⟩ := runCalls_rest timeout (completeRead (s.tcp.reads.erase true) s) calls
    obtain ⟨deadline, fate⟩ := wait
    obtain rfl : fate = .fired := hfired
    refine ⟨k, _, by rw [step, hk'], ?_⟩
    rw [idleTimeout, if_neg (by rw [hopen']; decide), hhandled]
    rfl

/-- Bytes arrive in the second in which the timer expires, and both completions are queued. -/
private def racing : List Event :=
  [.handler [.startReadLoop], .tick 90, .expires 0, .readHandler [.startReadLoop], .waitHandler 0]

private def raced : TimedSession := ((machine 90).exec (start fresh 0) racing).getD (start fresh 0)

private theorem raced_run : ((machine 90).exec (start fresh 0) racing).isSome = true ∧
    raced.idleClosed = some ⟨90, [90]⟩ := by
  decide +kernel

end LightApr.Core.IdleTimer
