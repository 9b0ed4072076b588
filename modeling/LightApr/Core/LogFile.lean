import LightApr.Core.Logger
import LightApr.Core.Table
import Mathlib.Data.List.DropRight

/-! Where the worker of the logger writes: two streams, or a file that is rotated when it has grown to its limit. -/
namespace LightApr.Core.LogFile
open Lib Logger

def toString : LogLevel → Bytes
  | .debug => ascii "DEBUG"
  | .info => ascii "INFO"
  | .warn => ascii "WARN"
  | .error => ascii "ERROR"

def formatted (msg : LogMessage) : Bytes :=
  ascii "[" ++ msg.timestamp ++ ascii "] [" ++ toString msg.level ++ ascii "] " ++ msg.message

def line (msg : LogMessage) : Bytes := formatted msg ++ [lf]

/-! Paths. -/

def dot : UInt8 := 46

def filename (path : Bytes) : Bytes := path.rtakeWhile (· ≠ slash)

/-- From the last dot of the name on, unless the name begins with it. -/
def extension (path : Bytes) : Bytes :=
  let name := filename path
  let ext := name.rtakeWhile (· ≠ dot)
  if name = [dot, dot] ∨ name.length ≤ ext.length + 1 then [] else dot :: ext

def replaceExtension (path replacement : Bytes) : Bytes :=
  path.take (path.length - (extension path).length) ++ replacement

def backupPath (logPath : Bytes) : Bytes := replaceExtension logPath (ascii ".old.log")

structure Config where
  isStandalone : Bool
  logPath : Bytes
  maxFileSize : Nat

/-- What the file system answers if the file is rotated. -/
structure Outcome where
  renamed : Bool
  reopened : Bool

/-- Where the entries go. -/
structure Output where
  /-- `file_stream_.is_open()` -/
  isOpen : Bool
  files : Table Bytes
  out : Bytes
  err : Bytes

section
variable (cfg : Config)

/-- The constructor; `opened`: the file can be opened for appending. -/
def start (opened : Bool) (files : Table Bytes) : Output :=
  if !cfg.isStandalone && opened then
    ⟨true, files.insert cfg.logPath ((files.lookup cfg.logPath).getD []), [], []⟩
  else ⟨false, files, [], []⟩

def rename (source target : Bytes) (files : Table Bytes) : Table Bytes :=
  match files.lookup source with
  | none => files
  | some contents => (files.erase source).insert target contents

/-- The error of the rename is ignored, and the file is truncated. -/
def rotateLogFiles (o : Outcome) (l : Output) : Output :=
  if cfg.isStandalone || !l.isOpen then l
  else
    let files := if o.renamed then rename cfg.logPath (backupPath cfg.logPath) l.files else l.files
    if o.reopened then { l with isOpen := true, files := files.insert cfg.logPath [] }
    else { l with isOpen := false, files }

def writeEntry (l : Output) (msg : LogMessage) (o : Outcome) : Output :=
  if cfg.isStandalone then
    if msg.level = .error ∨ msg.level = .warn then { l with err := l.err ++ line msg }
    else { l with out := l.out ++ line msg }
  else if l.isOpen then
    let contents := (l.files.lookup cfg.logPath).getD [] ++ line msg
    let l := { l with files := l.files.insert cfg.logPath contents }
    if contents.length ≥ cfg.maxFileSize then rotateLogFiles cfg o l else l
  else l

def writeAll (l : Output) (entries : List (LogMessage × Outcome)) : Output :=
  entries.foldl (fun l entry => writeEntry cfg l entry.1 entry.2) l

end

/-! The backup is another file. -/

theorem extension_cases (path : Bytes) :
    extension path = [] ∨ ∃ ext, extension path = dot :: ext ∧ dot ∉ ext := by
  unfold extension
  dsimp only
  split
  · exact .inl rfl
  · refine .inr ⟨_, rfl, fun hdot => ?_⟩
    have hno := List.mem_rtakeWhile_imp hdot
    simp at hno

/-- Where not all of a list is taken, the byte before the taken part is the one that ended it. -/
theorem cons_rtakeWhile_suffix {b : UInt8} {name : Bytes} (h : (name.rtakeWhile (· ≠ b)).length < name.length) :
    b :: name.rtakeWhile (· ≠ b) <:+ name := by
  have hname : name.rdropWhile (· ≠ b) ++ name.rtakeWhile (· ≠ b) = name := List.rdropWhile_append_rtakeWhile ..
  have hne : name.rdropWhile (· ≠ b) ≠ [] := by
    intro hnil
    rw [hnil, List.nil_append] at hname
    exact absurd (congrArg List.length hname) (Nat.ne_of_lt h)
  have hlast : (name.rdropWhile (· ≠ b)).getLast hne = b := by
    simpa using List.rdropWhile_last_not (· ≠ b) name hne
  have hstem : (name.rdropWhile (· ≠ b)).dropLast ++ [b] = name.rdropWhile (· ≠ b) :=
    (by rw [hlast] : _ = _ ++ [(name.rdropWhile (· ≠ b)).getLast hne]).trans (List.dropLast_append_getLast hne)
  refine ⟨(name.rdropWhile (· ≠ b)).dropLast, ?_⟩
  rw [← List.singleton_append, ← List.append_assoc, hstem, hname]

theorem extension_suffix (path : Bytes) : extension path <:+ path := by
  unfold extension
  dsimp only
  split
  · exact List.nil_suffix
  · rename_i hlong
    have hlong : ((filename path).rtakeWhile (· ≠ dot)).length < (filename path).length :=
      Nat.lt_of_succ_lt (Nat.lt_of_not_le fun hle => hlong (.inr hle))
    exact (cons_rtakeWhile_suffix hlong).trans (List.rtakeWhile_suffix (· ≠ slash) path)

theorem backupPath_ne (path : Bytes) : backupPath path ≠ path := by
  intro heq
  obtain ⟨stem, hstem⟩ := extension_suffix path
  have hlength := congrArg List.length hstem
  rw [List.length_append] at hlength
  have htake : path.take (path.length - (extension path).length) = stem := by
    rw [← hlength, Nat.add_sub_cancel]
    conv_lhs => rw [← hstem]
    rw [List.take_left]
  rw [backupPath, replaceExtension, htake] at heq
  have hold : ascii ".old.log" = extension path := List.append_cancel_left (heq.trans hstem.symm)
  rcases extension_cases path with hnone | ⟨ext, hext, hdot⟩
  · cases hold.trans hnone
  · obtain ⟨-, rfl⟩ : dot = dot ∧ ascii "old.log" = ext := List.cons.inj (hold.trans hext)
    exact hdot (by decide)

/-! Which entries are where. -/

/-- An entry, and what the file system answers if the file is rotated behind it. -/
abbrev Entry := LogMessage × Outcome

/-- The contents of a file behind earlier ones. The first file begins with what was in it. -/
def contents (initial : Bytes) (earlier : List (List Entry)) (entries : List Entry) : Bytes :=
  (if earlier = [] then initial else []) ++ entries.flatMap (line ·.1)

/-- Whether a file that was left behind these entries could be renamed then. -/
def renamed (entries : List Entry) : Bool := entries.getLast?.any (·.2.renamed)

/-- The contents of the newest file that could be renamed, among files that were left, the newest first. -/
def backup (initial : Bytes) : List (List Entry) → Option Bytes
  | [] => none
  | entries :: earlier => if renamed entries then some (contents initial earlier entries) else backup initial earlier

section
variable {cfg : Config} {files : Table Bytes} {former : List (List Entry)} {cur : List Entry} {l : Output}
  {entry : Entry}

def initial (cfg : Config) (files : Table Bytes) : Bytes := (files.lookup cfg.logPath).getD []

theorem contents_append (initial : Bytes) (earlier : List (List Entry)) (entries : List Entry) (entry : Entry) :
    contents initial earlier (entries ++ [entry]) = contents initial earlier entries ++ line entry.1 := by
  rw [contents, contents, List.flatMap_append, List.flatMap_singleton, List.append_assoc]

theorem renamed_append (entries : List Entry) (entry : Entry) : renamed (entries ++ [entry]) = entry.2.renamed := by
  rw [renamed, List.getLast?_concat]
  rfl

/-- If every file that was left could be renamed, the last of them is the backup. -/
theorem backup_of_renamed (initial : Bytes) {former : List (List Entry)}
    (h : ∀ entries ∈ former, renamed entries = true) :
    backup initial former = former.head?.map (contents initial former.tail) := by
  cases former with
  | nil => rfl
  | cons entries earlier => exact if_pos (h entries List.mem_cons_self)

/-- A file is left behind the first entry with which it reaches the limit. -/
structure Filled (cfg : Config) (initial : Bytes) (earlier : List (List Entry)) (entries : List Entry) : Prop where
  nonempty : entries ≠ []
  full : cfg.maxFileSize ≤ (contents initial earlier entries).length
  first : entries.dropLast = [] ∨ (contents initial earlier entries.dropLast).length < cfg.maxFileSize

/-- Where the entries of the files that were left are, the newest first, and those since. `files` is what there was at
the start. -/
structure Filed (cfg : Config) (files : Table Bytes) (former : List (List Entry)) (cur : List Entry) (l : Output) :
    Prop where
  isOpen : l.isOpen = true
  log : l.files.lookup cfg.logPath = some (contents (initial cfg files) former cur)
  saved : l.files.lookup (backupPath cfg.logPath) =
    (backup (initial cfg files) former).or (files.lookup (backupPath cfg.logPath))
  filled : ∀ entries earlier, entries :: earlier <:+ former → Filled cfg (initial cfg files) earlier entries
  below : cur = [] ∨ (contents (initial cfg files) former cur).length < cfg.maxFileSize
  others : ∀ path, path ≠ cfg.logPath → path ≠ backupPath cfg.logPath → l.files.lookup path = files.lookup path

theorem filed_start (hfile : cfg.isStandalone = false) (files : Table Bytes) :
    Filed cfg files [] [] (start cfg true files) := by
  have hstart : start cfg true files = ⟨true, files.insert cfg.logPath (initial cfg files), [], []⟩ := by
    rw [start, hfile]
    rfl
  rw [hstart]
  refine ⟨rfl, ?_, ?_, fun _ _ h => absurd (List.suffix_nil.mp h) (List.cons_ne_nil _ _), .inl rfl, fun path hlog _ =>
    ?_⟩
  · exact (AList.lookup_insert _).trans (congrArg some (List.append_nil _).symm)
  · exact AList.lookup_insert_ne (backupPath_ne cfg.logPath)
  · exact AList.lookup_insert_ne hlog

theorem writeEntry_eq (hfile : cfg.isStandalone = false) (hisOpen : l.isOpen = true)
    (hopen : entry.2.reopened = true) {text : Bytes}
    (htext : (l.files.lookup cfg.logPath).getD [] ++ line entry.1 = text) :
    writeEntry cfg l entry.1 entry.2 =
      let written := l.files.insert cfg.logPath text
      if text.length ≥ cfg.maxFileSize then
        { l with
          isOpen := true
          files := (if entry.2.renamed then rename cfg.logPath (backupPath cfg.logPath) written else written).insert
            cfg.logPath [] }
      else { l with files := written } := by
  simp [writeEntry, rotateLogFiles, hfile, hisOpen, hopen, htext]

/-- The file is left, and begun anew. -/
theorem filed_rotated (h : Filed cfg files former cur l) {entries : List Entry} {rest : Table Bytes}
    (hfilled : Filled cfg (initial cfg files) former entries)
    (hsaved : rest.lookup (backupPath cfg.logPath) =
      if renamed entries then some (contents (initial cfg files) former entries)
      else l.files.lookup (backupPath cfg.logPath))
    (hothers : ∀ path, path ≠ cfg.logPath → path ≠ backupPath cfg.logPath → rest.lookup path = l.files.lookup path) :
    Filed cfg files (entries :: former) [] { l with isOpen := true, files := rest.insert cfg.logPath [] } := by
  refine ⟨rfl, AList.lookup_insert _, ?_, fun es earlier hes => ?_, .inl rfl, fun path hlog hback => ?_⟩
  · rw [AList.lookup_insert_ne (backupPath_ne cfg.logPath), hsaved, h.saved, backup]
    split
    · rfl
    · rfl
  · rcases List.suffix_cons_iff.mp hes with heq | hearlier
    · obtain ⟨rfl, rfl⟩ := List.cons.inj heq
      exact hfilled
    · exact h.filled es earlier hearlier
  · rw [AList.lookup_insert_ne hlog, hothers path hlog hback, h.others path hlog hback]

/-- One more entry, and then a rotation or not. -/
theorem writeEntry_cases (hfile : cfg.isStandalone = false) (h : Filed cfg files former cur l)
    (hopen : entry.2.reopened = true) :
    Filed cfg files former (cur ++ [entry]) (writeEntry cfg l entry.1 entry.2) ∨
      Filed cfg files ((cur ++ [entry]) :: former) [] (writeEntry cfg l entry.1 entry.2) := by
  obtain ⟨text, htext⟩ : ∃ text, contents (initial cfg files) former (cur ++ [entry]) = text := ⟨_, rfl⟩
  have hwritten : (l.files.lookup cfg.logPath).getD [] ++ line entry.1 = text := by
    rw [h.log, Option.getD_some, ← contents_append, htext]
  have hsome : (l.files.insert cfg.logPath text).lookup cfg.logPath = some text := AList.lookup_insert _
  have hother {path : Bytes} (hlog : path ≠ cfg.logPath) :
      (l.files.insert cfg.logPath text).lookup path = l.files.lookup path := AList.lookup_insert_ne hlog
  have hbackup := hother (backupPath_ne cfg.logPath)
  rw [writeEntry_eq hfile h.isOpen hopen hwritten]
  dsimp only
  by_cases hfull : text.length ≥ cfg.maxFileSize
  · have hfilled : Filled cfg (initial cfg files) former (cur ++ [entry]) := by
      refine ⟨List.append_ne_nil_of_right_ne_nil _ (List.cons_ne_nil _ _), htext ▸ hfull, ?_⟩
      rw [List.dropLast_concat]
      exact h.below
    rw [if_pos hfull]
    cases hrenamed : entry.2.renamed with
    | true =>
      have hrename : rename cfg.logPath (backupPath cfg.logPath) (l.files.insert cfg.logPath text) =
          ((l.files.insert cfg.logPath text).erase cfg.logPath).insert (backupPath cfg.logPath) text := by
        rw [rename, hsome]
      rw [if_pos rfl, hrename]
      refine .inr (filed_rotated h hfilled ?_ fun path hlog hback => ?_)
      · rw [renamed_append, hrenamed, if_pos rfl, htext]
        exact AList.lookup_insert _
      · rw [AList.lookup_insert_ne hback, AList.lookup_erase_ne hlog, hother hlog]
    | false =>
      rw [if_neg Bool.false_ne_true]
      refine .inr (filed_rotated h hfilled ?_ fun path hlog _ => hother hlog)
      rw [renamed_append, hrenamed, if_neg Bool.false_ne_true, hbackup]
  · rw [if_neg hfull]
    refine .inl ⟨h.isOpen, ?_, hbackup.trans h.saved, h.filled, .inr ?_,
      fun path hlog hback => (hother hlog).trans (h.others path hlog hback)⟩
    · rw [htext]
      exact hsome
    · rw [htext]
      exact Nat.lt_of_not_le hfull

/-- Over all entries. -/
theorem filed_writeAll (hfile : cfg.isStandalone = false) {entries : List Entry}
    (hopen : ∀ entry ∈ entries, entry.2.reopened = true) (files : Table Bytes) :
    ∃ former cur, entries = former.reverse.flatten ++ cur ∧
      Filed cfg files former cur (writeAll cfg (start cfg true files) entries) := by
  induction entries using List.reverseRecOn with
  | nil => exact ⟨[], [], rfl, filed_start hfile files⟩
  | append_singleton entries entry ih =>
    obtain ⟨former, cur, hsplit, hfiled⟩ := ih fun e he => hopen e (List.mem_append_left _ he)
    have hwrite : writeAll cfg (start cfg true files) (entries ++ [entry]) =
        writeEntry cfg (writeAll cfg (start cfg true files) entries) entry.1 entry.2 := List.foldl_append ..
    rw [hwrite]
    obtain hkept | hrotated :=
      writeEntry_cases hfile hfiled (hopen entry (List.mem_append_right _ (List.mem_singleton_self _)))
    · exact ⟨former, cur ++ [entry], by rw [hsplit, List.append_assoc], hkept⟩
    · exact ⟨(cur ++ [entry]) :: former, [], by simp [hsplit], hrotated⟩

/-- Once the file could not be opened, nothing is written any more. -/
theorem writeAll_closed (hfile : cfg.isStandalone = false) (hclosed : l.isOpen = false)
    (entries : List (LogMessage × Outcome)) : writeAll cfg l entries = l := by
  induction entries with
  | nil => rfl
  | cons entry entries ih =>
    have hnone : writeEntry cfg l entry.1 entry.2 = l := by simp [writeEntry, hfile, hclosed]
    rw [writeAll, List.foldl_cons, hnone]
    exact ih

/-- The entries that go to `std::cerr`. -/
def toErr (msg : LogMessage) : Bool := msg.level = .error ∨ msg.level = .warn

/-- Standalone, each stream has the entries of its levels, and no file is written. -/
theorem writeAll_standalone (hstandalone : cfg.isStandalone = true) (l : Output)
    (entries : List (LogMessage × Outcome)) :
    writeAll cfg l entries =
      { l with
        out := l.out ++ ((entries.map Prod.fst).filter (!toErr ·)).flatMap line
        err := l.err ++ ((entries.map Prod.fst).filter toErr).flatMap line } := by
  induction entries generalizing l with
  | nil => simp [writeAll]
  | cons entry entries ih =>
    rw [writeAll, List.foldl_cons, ← writeAll, ih, writeEntry, if_pos hstandalone]
    by_cases herr : entry.1.level = .error ∨ entry.1.level = .warn
    · have hto : toErr entry.1 = true := decide_eq_true herr
      simp [herr, hto]
    · have hto : toErr entry.1 = false := decide_eq_false herr
      simp [herr, hto]

end

/-- **Whatever the threads and the worker do, as long as the log file can be reopened: what was written comes apart into
files that were left, each behind the first entry with which it reached the limit, and the newest entries. The log file
holds the newest entries and is shorter than the limit. The backup holds the newest of the files left that could be
renamed; so a rename that fails costs the entries of its file and no others, and as long as none fails, the entries
right before the newest are in the backup. No other file changes. What was written is what was logged, in order, all
of it when the destructor has joined the worker.** -/
theorem newest_entries_kept (cfg : Config) (hfile : cfg.isStandalone = false) (sizeofLogMessage : Nat)
    {es : List Logger.Event} {s : AsyncLogger} (hrun : (machine sizeofLogMessage).Reaches Logger.start es s)
    (files : Table Bytes) (outcomes : List Outcome) (hlength : outcomes.length = s.written.length)
    (hopen : ∀ o ∈ outcomes, o.reopened = true) :
    ∃ former cur, s.written.zip outcomes = former.reverse.flatten ++ cur ∧
      (former.reverse.flatten ++ cur).map Prod.fst <+: s.entered ∧
      (s.joined = true → (former.reverse.flatten ++ cur).map Prod.fst = s.entered) ∧
      Filed cfg files former cur (writeAll cfg (start cfg true files) (s.written.zip outcomes)) ∧
      ((∀ o ∈ outcomes, o.renamed = true) →
        backup (initial cfg files) former = former.head?.map (contents (initial cfg files) former.tail)) := by
  have hkept := kept_of_reaches hrun
  have hsecond : ∀ entry ∈ s.written.zip outcomes, entry.2 ∈ outcomes := fun _ he => (List.of_mem_zip he).2
  obtain ⟨former, cur, hsplit, hfiled⟩ :=
    filed_writeAll hfile (fun entry he => hopen entry.2 (hsecond entry he)) files
  have hwritten : (former.reverse.flatten ++ cur).map Prod.fst = s.written := by
    rw [← hsplit, List.map_fst_zip (Nat.le_of_eq hlength.symm)]
  refine ⟨former, cur, hsplit, ?_, fun hjoined => ?_, hfiled, fun hall => ?_⟩
  · rw [hwritten, ← hkept.order, List.append_assoc]
    exact List.prefix_append ..
  · have hworker := hkept.joined hjoined
    have horder := hkept.order
    rw [hworker, hkept.exited hworker, WorkerLoop.unwritten, List.append_nil, List.append_nil] at horder
    rw [hwritten, horder]
  · refine backup_of_renamed _ fun entries hentries => ?_
    obtain ⟨earlier, hearlier⟩ := List.append_of_mem hentries
    obtain ⟨later, rfl⟩ := hearlier
    have hne := (hfiled.filled entries later (List.suffix_append ..)).nonempty
    have hmem : entries.getLast hne ∈ s.written.zip outcomes := by
      rw [hsplit]
      exact List.mem_append_left _ (List.mem_flatten_of_mem (List.mem_reverse.mpr hentries) (List.getLast_mem hne))
    rw [renamed, List.getLast?_eq_some_getLast hne]
    exact hall _ (hsecond _ hmem)

/-! Two entries, the first of which reaches the limit. -/

private def small : Config := ⟨false, ascii "lightapr.log", 30⟩

private def logging : List Logger.Event :=
  [.testRunning, .log ⟨.info, ascii "Starting LightAPR", ascii "12:00"⟩, .push 0, .notifyOne 0,
    .log ⟨.error, ascii "no lock", ascii "12:01"⟩, .push 1, .notifyOne 1, .wake false, .dequeue, .writeEntry, .dequeue,
    .writeEntry, .dequeue, .stop, .testRunning, .testQueue, .join]

private def logged : AsyncLogger := ((machine 72).exec Logger.start logging).getD Logger.start

private def rotated : Output :=
  writeAll small (start small true ∅) (logged.written.zip [⟨true, true⟩, ⟨true, true⟩])

private theorem rotated_facts : ((machine 72).exec Logger.start logging).isSome = true ∧ logged.written.length = 2 ∧
    logged.joined = true := by decide +kernel

/-- The log file and its backup hold all entries but those of earlier files. -/
theorem rotated_kept : ∃ former cur, (former.reverse.flatten ++ cur).map Prod.fst = logged.entered ∧
    Filed small ∅ former cur rotated ∧
    backup (initial small ∅) former = former.head?.map (contents (initial small ∅) former.tail) := by
  obtain ⟨hsome, hlength, hjoined⟩ := rotated_facts
  obtain ⟨former, cur, -, -, hall, hfiled, hbackup⟩ := newest_entries_kept small rfl 72
    ((machine 72).reaches_exec hsome) ∅ [⟨true, true⟩, ⟨true, true⟩] hlength.symm (by simp)
  exact ⟨former, cur, hall hjoined, hfiled, hbackup (by simp)⟩

end LightApr.Core.LogFile
