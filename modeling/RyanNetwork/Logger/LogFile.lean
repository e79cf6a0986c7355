import RyanNetwork.Lib.Directory
import RyanNetwork.Lib.Runs
import RyanNetwork.Logger.FileUtil
import RyanNetwork.Logger.LogStream

/-!
# `LogFile`

`Append` writes a record to the current file and then looks whether a new file is due: at
once if the file is too large, else at every `check_every_n_`-th record if the day has
changed. A file is opened only in a later second than the one before. What `time(NULL)`
returns is given with each call.

The name of a file is the local time of the second in which it is opened, and it is opened
for appending. Where the local time is set back, a later second has the name of an earlier
one: then the roll goes on with the earlier file.
-/
namespace RyanNetwork.Logger

open Lib Directory

set_option autoImplicit false

def kRollPerSeconds : Nat := 86400

/-- `struct tm`: `year` counts from 1900, `mon` from 0. -/
structure Tm where
  year : Nat
  mon : Nat
  mday : Nat
  hour : Nat
  min : Nat
  sec : Nat

/-- `localtime` is what `localtime_r` fills in, in the time zone of the process. -/
structure LogConf where
  basename : List UInt8
  localtime : Nat → Tm
  rollSize : Int
  flushInterval : Int
  checkEveryN : Int

/-- A number of `strftime`, with leading zeros. -/
def padded (width n : Nat) : List UInt8 :=
  let digits := (Nat.toDigits 10 n).map fun c => c.toNat.toUInt8
  List.replicate (width - digits.length) 48 ++ digits

/-- `strftime` with the format `.%Y%m%d-%H%M%S`. -/
def strftime (tm : Tm) : List UInt8 :=
  chars "." ++ padded 4 (tm.year + 1900) ++ padded 2 (tm.mon + 1) ++ padded 2 tm.mday ++
    chars "-" ++ padded 2 tm.hour ++ padded 2 tm.min ++ padded 2 tm.sec

/-- `GetLogFileName`, called in second `now`. -/
def LogConf.getLogFileName (conf : LogConf) (now : Nat) : List UInt8 :=
  conf.basename ++ strftime (conf.localtime now) ++ chars ".log"

/-- `c_str()` as `fopen` reads it: what stands before the first zero byte. -/
def cStr (s : List UInt8) : List UInt8 := s.takeWhile (· ≠ 0)

/-- A file that `FileUtil` opened: under which name, and in which second. -/
structure OpenFile where
  name : List UInt8
  openedAt : Nat
  util : FileUtil
  deriving DecidableEq, Repr

/-- `fopen(fileName.c_str(), "ae")`, which succeeds. -/
def LogConf.openFile (conf : LogConf) (now : Nat) : OpenFile :=
  ⟨cStr (conf.getLogFileName now), now, .new⟩

/-- What an opening adds to the disk. -/
def OpenFile.opening (f : OpenFile) : File (List UInt8) UInt8 :=
  ⟨f.name, f.openedAt, f.util.contents⟩

/-- `past` are the files that were closed, in the order in which they were opened. -/
structure LogFile where
  count : Int
  startOfPeriod : Nat
  lastRoll : Nat
  lastFlush : Nat
  past : List OpenFile
  file : Option OpenFile
  deriving DecidableEq, Repr

/-- A record and the times of its call: when it is made, at the check of the period, and
in `RollFile`. -/
structure AppendCall where
  data : List UInt8
  arrival : Nat
  checked : Nat
  rolled : Nat

namespace LogFile

/-- All files in the order in which they were opened. -/
def files (l : LogFile) : List OpenFile := l.past ++ l.file.toList

/-- The files on the disk that held `existing` at first. A file is closed, and so written
out, before anything is written to the next one. -/
def disk (existing : List (File (List UInt8) UInt8)) (l : LogFile) :
    List (File (List UInt8) UInt8) :=
  appendAll existing (l.files.map OpenFile.opening)

def rollFile (conf : LogConf) (l : LogFile) (now : Nat) : LogFile × Bool :=
  let start := now / kRollPerSeconds * kRollPerSeconds
  if l.lastRoll < now then
    ({ l with
      lastRoll := now
      lastFlush := now
      startOfPeriod := start
      past := l.files
      file := some (conf.openFile now) }, true)
  else (l, false)

/-- `LogFile(…)`, which calls `RollFile`. -/
def new (conf : LogConf) (now : Nat) : LogFile := (rollFile conf ⟨0, 0, 0, 0, [], none⟩ now).1

/-- The check of the period. `Flush` writes nothing that `Append` has not. -/
def checkPeriod (conf : LogConf) (l : LogFile) (now rolled : Nat) : LogFile :=
  let thisPeriod := now / kRollPerSeconds * kRollPerSeconds
  if thisPeriod ≠ l.startOfPeriod then (l.rollFile conf rolled).1
  else if conf.flushInterval < (now : Int) - l.lastFlush then { l with lastFlush := now }
  else l

/-- `AppendInLock` from the return of `file_->Append` on, which left the file as `file`. -/
def appendInLock (conf : LogConf) (l : LogFile) (file : OpenFile) (c : AppendCall) : LogFile :=
  let l := { l with file := some file }
  if conf.rollSize < file.util.writtenBytes then (l.rollFile conf c.rolled).1
  else
    let l := { l with count := l.count + 1 }
    if conf.checkEveryN ≤ l.count then
      checkPeriod conf { l with count := 0 } c.checked c.rolled
    else l

end LogFile

/-- A log file and the time up to which the clock was read. -/
structure Clocked where
  log : LogFile
  now : Nat

/-- The clock does not go back. -/
def Clocked.InTime (s : Clocked) (c : AppendCall) : Prop :=
  s.now ≤ c.arrival ∧ c.arrival ≤ c.checked ∧ c.checked ≤ c.rolled

instance (s : Clocked) (c : AppendCall) : Decidable (s.InTime c) :=
  inferInstanceAs (Decidable (_ ∧ _))

/-- A call of `Append` that returns; `streams k` is the stream of opening `k`. -/
def Appends (conf : LogConf) (streams : Nat → Stream) (s : Clocked) (c : AppendCall)
    (t : Clocked) : Prop :=
  s.InTime c ∧ t.now = c.rolled ∧ ∃ file util fuel, s.log.file = some file ∧
    file.util.append (streams s.log.past.length) c.data fuel = some util ∧
    t.log = s.log.appendInLock conf { file with util := util } c

/-- The call opens a file: the current one is too large with the record, or the check is due
and finds another day, and the clock has moved on since the last roll. -/
def LogFile.Rolls (conf : LogConf) (l : LogFile) (c : AppendCall) : Prop :=
  l.lastRoll < c.rolled ∧
    ((∃ file ∈ l.file, conf.rollSize < (file.util.writtenBytes + c.data.length : Nat)) ∨
      conf.checkEveryN ≤ l.count + 1 ∧
        c.checked / kRollPerSeconds * kRollPerSeconds ≠ l.startOfPeriod)

/-- No file on the disk has the name of second `now`. -/
def NewName (conf : LogConf) (disk : List (File (List UInt8) UInt8)) (now : Nat) : Prop :=
  (conf.openFile now).name ∉ names disk

instance (conf : LogConf) (l : LogFile) (c : AppendCall) : Decidable (l.Rolls conf c) :=
  inferInstanceAs (Decidable (_ ∧ (_ ∨ _ ∧ _)))

instance (conf : LogConf) (disk : List (File (List UInt8) UInt8)) (now : Nat) :
    Decidable (NewName conf disk now) :=
  inferInstanceAs (Decidable (_ ∉ _))

/-- A file that the call opens is a new one. -/
def Clocked.Creates (conf : LogConf) (existing : List (File (List UInt8) UInt8)) (s : Clocked)
    (c : AppendCall) : Prop :=
  s.log.Rolls conf c → NewName conf (s.log.disk existing) c.rolled

instance (conf : LogConf) (existing : List (File (List UInt8) UInt8)) (s : Clocked)
    (c : AppendCall) : Decidable (s.Creates conf existing c) :=
  inferInstanceAs (Decidable (_ → _))

/-! ## What the files hold -/

def dayOf (second : Nat) : Nat := second / kRollPerSeconds

/-- The records of a file that were appended on `day` or later, if the file was opened
before. -/
def late (day openedAt : Nat) (group : List AppendCall) : List AppendCall :=
  if dayOf openedAt < day then group.filter fun c => day ≤ dayOf c.arrival else []

/-- The number of such records in all files, opened in the given seconds. -/
def lateCount (day : Nat) (seconds : List Nat) (groups : List (List AppendCall)) : Nat :=
  ((seconds.zip groups).flatMap fun x => late day x.1 x.2).length

/-- The calls are divided into groups, one for each of the files that were created. -/
structure Filed (conf : LogConf) (l : LogFile) (created : List (File (List UInt8) UInt8))
    (calls : List AppendCall) (groups : List (List AppendCall)) : Prop where
  complete : groups.flatten = calls
  contents : created.map File.contents = groups.map fun group => group.flatMap AppendCall.data
  concatenated : created.flatMap File.contents = calls.flatMap AppendCall.data
  count : l.count < conf.checkEveryN
  period : l.startOfPeriod = l.lastRoll / kRollPerSeconds * kRollPerSeconds
  openings : created.map File.time = l.files.map OpenFile.openedAt
  increasing : (created.map File.time).Pairwise (· < ·)
  punctual : ∀ day, (lateCount day (created.map File.time) groups : Int) ≤ conf.checkEveryN
  isOpen : l.file.isSome

theorem lateCount_append {seconds : List Nat} {groups : List (List AppendCall)} (day : Nat)
    (hlen : seconds.length = groups.length) (openedAt : Nat) (group : List AppendCall) :
    lateCount day (seconds ++ [openedAt]) (groups ++ [group]) =
      lateCount day seconds groups + (late day openedAt group).length := by
  unfold lateCount
  rw [List.zip_append hlen, List.flatMap_append, List.length_append]
  simp

/-- One more record in a file. -/
theorem late_snoc (day openedAt : Nat) (group : List AppendCall) (c : AppendCall) :
    (late day openedAt (group ++ [c])).length = (late day openedAt group).length +
      if dayOf openedAt < day ∧ day ≤ dayOf c.arrival then 1 else 0 := by
  unfold late
  by_cases hopen : dayOf openedAt < day
  · rw [if_pos hopen, if_pos hopen, List.filter_append, List.length_append]
    by_cases hlate : day ≤ dayOf c.arrival
    · simp [hopen, hlate]
    · simp [hlate]
  · rw [if_neg hopen, if_neg hopen]
    simp [hopen]

/-! ## One call -/

/-- What holds between two calls: `gs` are the groups of the closed files, `g` is that of
the current one. -/
structure Rolling (conf : LogConf) (existing : List (File (List UInt8) UInt8)) (s : Clocked)
    (calls : List AppendCall) (gs : List (List AppendCall)) (g : List AppendCall)
    (file : OpenFile) : Prop where
  current : s.log.file = some file
  opened : file.openedAt = s.log.lastRoll
  allNew : AllNew existing ((s.log.past ++ [file]).map OpenFile.opening)
  past : s.log.past.map (fun f => f.util.contents) =
    gs.map fun group => group.flatMap AppendCall.data
  contents : file.util.contents = g.flatMap AppendCall.data
  complete : gs.flatten ++ g = calls
  nonneg : 0 ≤ s.log.count
  count : s.log.count < conf.checkEveryN
  period : s.log.startOfPeriod = s.log.lastRoll / kRollPerSeconds * kRollPerSeconds
  increasing : (s.log.past.map OpenFile.openedAt ++ [s.log.lastRoll]).Pairwise (· < ·)
  elapsed : s.log.lastRoll ≤ s.now
  bounded : ∀ day, (lateCount day (s.log.past.map OpenFile.openedAt ++ [s.log.lastRoll])
    (gs ++ [g]) : Int) ≤ conf.checkEveryN
  lagging : ∀ day, dayOf s.log.lastRoll < day →
    (lateCount day (s.log.past.map OpenFile.openedAt ++ [s.log.lastRoll]) (gs ++ [g]) : Int) ≤
      s.log.count
  ahead : ∀ day, dayOf s.now < day →
    lateCount day (s.log.past.map OpenFile.openedAt ++ [s.log.lastRoll]) (gs ++ [g]) = 0

theorem dayOf_mono {a b : Nat} (h : a ≤ b) : dayOf a ≤ dayOf b := Nat.div_le_div_right h

section Call

variable {conf : LogConf} {existing : List (File (List UInt8) UInt8)} {s : Clocked}
  {calls : List AppendCall} {gs : List (List AppendCall)} {g : List AppendCall}
  {file : OpenFile} {util : FileUtil} {c : AppendCall}

theorem Rolling.files_eq (h : Rolling conf existing s calls gs g file) :
    s.log.files = s.log.past ++ [file] := by
  unfold LogFile.files
  rw [h.current]
  rfl

theorem Rolling.length_eq (h : Rolling conf existing s calls gs g file) :
    s.log.past.length = gs.length := by
  have hmap := congrArg List.length h.past
  rwa [List.length_map, List.length_map] at hmap

/-- The late records once the record is in the current file. -/
theorem Rolling.lateCount_snoc (h : Rolling conf existing s calls gs g file) (day : Nat) :
    lateCount day (s.log.past.map OpenFile.openedAt ++ [s.log.lastRoll]) (gs ++ [g ++ [c]]) =
      lateCount day (s.log.past.map OpenFile.openedAt ++ [s.log.lastRoll]) (gs ++ [g]) +
        if dayOf s.log.lastRoll < day ∧ day ≤ dayOf c.arrival then 1 else 0 := by
  have hlen : (s.log.past.map OpenFile.openedAt).length = gs.length := by
    rw [List.length_map, h.length_eq]
  rw [lateCount_append day hlen, lateCount_append day hlen, late_snoc, Nat.add_assoc]

theorem Rolling.increasing_roll (h : Rolling conf existing s calls gs g file) {now : Nat}
    (hroll : s.log.lastRoll < now) :
    (s.log.past.map OpenFile.openedAt ++ [s.log.lastRoll] ++ [now]).Pairwise (· < ·) := by
  rw [List.pairwise_append]
  refine ⟨h.increasing, List.pairwise_singleton _ _, ?_⟩
  intro a ha b hb
  rw [List.mem_singleton.mp hb]
  rcases List.mem_append.mp ha with ha | ha
  · have hlt := (List.pairwise_append.mp h.increasing).2.2 a ha _ List.mem_cons_self
    exact Nat.lt_trans hlt hroll
  · rw [List.mem_singleton.mp ha]
    exact hroll

/-- What was written through a stream does not change the names on the disk. -/
theorem Rolling.names_eq (util : FileUtil) (past : List OpenFile) (file : OpenFile) :
    names ((past ++ [{ file with util := util }]).map OpenFile.opening) =
      names ((past ++ [file]).map OpenFile.opening) := by
  simp [names, OpenFile.opening]

/-- A new file is opened. -/
theorem Rolling.rolled (h : Rolling conf existing s calls gs g file) (ht : s.InTime c)
    (hdata : util.contents = file.util.contents ++ c.data)
    (hnew : NewName conf (s.log.disk existing) c.rolled)
    (hroll : s.log.lastRoll < c.rolled) {count : Int} (hnonneg : 0 ≤ count)
    (hcount : count < conf.checkEveryN) :
    Rolling conf existing ⟨⟨count, c.rolled / kRollPerSeconds * kRollPerSeconds, c.rolled,
      c.rolled, s.log.past ++ [{ file with util := util }], some (conf.openFile c.rolled)⟩,
      c.rolled⟩ (calls ++ [c]) (gs ++ [g ++ [c]]) [] (conf.openFile c.rolled) := by
  obtain ⟨hnow, harrival, hchecked⟩ := ht
  have hday := dayOf_mono (Nat.le_trans harrival hchecked)
  have hago := dayOf_mono (Nat.le_trans hnow (Nat.le_trans harrival hchecked))
  have hopened : (s.log.past ++ [{ file with util := util }]).map OpenFile.openedAt =
      s.log.past.map OpenFile.openedAt ++ [s.log.lastRoll] := by
    rw [← h.opened, List.map_append]
    rfl
  have hlen : (s.log.past.map OpenFile.openedAt ++ [s.log.lastRoll]).length =
      (gs ++ [g ++ [c]]).length := by
    rw [List.length_append, List.length_append, List.length_map, h.length_eq]
    rfl
  have hlate (day : Nat) :
      lateCount day (s.log.past.map OpenFile.openedAt ++ [s.log.lastRoll] ++ [c.rolled])
        (gs ++ [g ++ [c]] ++ [[]]) =
      lateCount day (s.log.past.map OpenFile.openedAt ++ [s.log.lastRoll]) (gs ++ [g]) +
        if dayOf s.log.lastRoll < day ∧ day ≤ dayOf c.arrival then 1 else 0 := by
    have hnone : late day c.rolled [] = [] := by simp [late]
    rw [lateCount_append day hlen, hnone, h.lateCount_snoc]
    rfl
  have hfuture (day : Nat) (hd : dayOf c.rolled < day) :
      lateCount day (s.log.past.map OpenFile.openedAt ++ [s.log.lastRoll] ++ [c.rolled])
        (gs ++ [g ++ [c]] ++ [[]]) = 0 := by
    have hzero := h.ahead day (by omega)
    rw [hlate, hzero, if_neg (by omega)]
  have hall : AllNew existing ((s.log.past ++ [{ file with util := util }]).map
      OpenFile.opening ++ [(conf.openFile c.rolled).opening]) := by
    have hold : AllNew existing ((s.log.past ++ [file]).map OpenFile.opening ++
        [(conf.openFile c.rolled).opening]) := by
      refine h.allNew.snoc ?_
      unfold NewName LogFile.disk at hnew
      rwa [h.files_eq] at hnew
    refine hold.of_names ?_
    have hnames := Rolling.names_eq util s.log.past file
    simp only [names, List.map_append] at hnames ⊢
    rw [hnames]
  constructor
  · rfl
  · rfl
  · rw [List.map_append]
    exact hall
  · dsimp only
    rw [List.map_append, List.map_append, h.past]
    simp [hdata, h.contents]
  · rfl
  · rw [← h.complete]
    simp
  · exact hnonneg
  · exact hcount
  · rfl
  · dsimp only
    rw [hopened]
    exact h.increasing_roll hroll
  · exact Nat.le_refl _
  · intro day
    dsimp only
    rw [hopened, hlate]
    have hold := h.bounded day
    have hlag := h.lagging day
    have hcount := h.count
    split
    · rename_i hd
      have := hlag hd.1
      omega
    · exact hold
  · intro day hd
    dsimp only
    rw [hopened, hfuture day hd]
    exact hnonneg
  · intro day hd
    dsimp only
    rw [hopened]
    exact hfuture day hd

/-- The record stays in the current file, and no new one is opened. -/
theorem Rolling.stays (h : Rolling conf existing s calls gs g file) (ht : s.InTime c)
    (hdata : util.contents = file.util.contents ++ c.data) {count : Int}
    (hnonneg : 0 ≤ count) (hcount : count < conf.checkEveryN) (lastFlush : Nat)
    (hlag : ∀ day, dayOf s.log.lastRoll < day →
      (lateCount day (s.log.past.map OpenFile.openedAt ++ [s.log.lastRoll]) (gs ++ [g]) +
        if day ≤ dayOf c.arrival then 1 else 0 : Int) ≤ count) :
    Rolling conf existing ⟨⟨count, s.log.startOfPeriod, s.log.lastRoll, lastFlush, s.log.past,
      some { file with util := util }⟩, c.rolled⟩ (calls ++ [c]) gs (g ++ [c])
      { file with util := util } := by
  obtain ⟨hnow, harrival, hchecked⟩ := ht
  have hday := dayOf_mono (Nat.le_trans harrival hchecked)
  have hago := dayOf_mono (Nat.le_trans hnow (Nat.le_trans harrival hchecked))
  constructor
  · rfl
  · exact h.opened
  · exact h.allNew.of_names (Rolling.names_eq util s.log.past file)
  · exact h.past
  · dsimp only
    rw [hdata, h.contents]
    simp
  · rw [← h.complete, List.append_assoc]
  · exact hnonneg
  · exact hcount
  · exact h.period
  · exact h.increasing
  · exact Nat.le_trans h.elapsed (Nat.le_trans hnow (Nat.le_trans harrival hchecked))
  · intro day
    rw [h.lateCount_snoc]
    have hold := h.bounded day
    have hnew := hlag day
    split
    · rename_i hd
      have := hnew hd.1
      rw [if_pos hd.2] at this
      omega
    · exact hold
  · intro day hd
    rw [h.lateCount_snoc]
    have hnew := hlag day hd
    dsimp only at hd ⊢
    by_cases hl : day ≤ dayOf c.arrival
    · rw [if_pos hl] at hnew
      rw [if_pos ⟨hd, hl⟩]
      omega
    · rw [if_neg hl] at hnew
      rw [if_neg fun hboth => hl hboth.2]
      omega
  · intro day hd
    have hzero := h.ahead day (Nat.lt_of_le_of_lt hago hd)
    rw [h.lateCount_snoc, hzero, if_neg]
    dsimp only at hd
    omega

theorem LogFile.rollFile_eq (l : LogFile) (now : Nat) :
    (l.rollFile conf now).1 = if l.lastRoll < now then
      ⟨l.count, now / kRollPerSeconds * kRollPerSeconds, now, now, l.files,
        some (conf.openFile now)⟩
    else l := by
  unfold LogFile.rollFile
  split
  · rfl
  · rfl

/-- A roll for size: it may be refused, but only in the second of the last one. -/
theorem Rolling.roll (h : Rolling conf existing s calls gs g file) (ht : s.InTime c)
    (hdata : util.contents = file.util.contents ++ c.data)
    (hnew : s.log.lastRoll < c.rolled → NewName conf (s.log.disk existing) c.rolled) :
    ∃ gs' g' file', Rolling conf existing
      ⟨({ s.log with file := some { file with util := util } }.rollFile conf c.rolled).1,
        c.rolled⟩ (calls ++ [c]) gs' g' file' := by
  rw [LogFile.rollFile_eq]
  by_cases hroll : s.log.lastRoll < c.rolled
  · rw [if_pos hroll]
    exact ⟨_, _, _, h.rolled ht hdata (hnew hroll) hroll h.nonneg h.count⟩
  · rw [if_neg hroll]
    refine ⟨_, _, _, h.stays ht hdata h.nonneg h.count s.log.lastFlush ?_⟩
    intro day hd
    have hsame : dayOf c.arrival ≤ dayOf s.log.lastRoll :=
      dayOf_mono (by have := ht.2.1; have := ht.2.2; omega)
    rw [if_neg (by omega), Int.add_zero]
    exact h.lagging day hd

/-- The check of the period, with the count set back. On a later day the clock is past the
second of the last roll; on the same day no record can be late. -/
theorem Rolling.checkPeriod (h : Rolling conf existing s calls gs g file)
    (hn : 1 ≤ conf.checkEveryN) (ht : s.InTime c)
    (hdata : util.contents = file.util.contents ++ c.data)
    (hnew : s.log.lastRoll < c.rolled →
      c.checked / kRollPerSeconds * kRollPerSeconds ≠ s.log.startOfPeriod →
      NewName conf (s.log.disk existing) c.rolled) :
    ∃ gs' g' file', Rolling conf existing
      ⟨{ s.log with file := some { file with util := util }, count := 0 }.checkPeriod conf
        c.checked c.rolled, c.rolled⟩ (calls ++ [c]) gs' g' file' := by
  have hpos : (0 : Int) < conf.checkEveryN := by omega
  obtain ⟨hnow, harrival, hchecked⟩ := ht
  have helapsed := h.elapsed
  unfold LogFile.checkPeriod
  dsimp only
  by_cases hperiod : c.checked / kRollPerSeconds * kRollPerSeconds ≠ s.log.startOfPeriod
  · have hroll : s.log.lastRoll < c.rolled := by
      refine Nat.lt_of_le_of_ne (by omega) fun heq => hperiod ?_
      have hc : c.checked = s.log.lastRoll := by omega
      rw [hc, h.period]
    rw [if_pos hperiod, LogFile.rollFile_eq, if_pos hroll]
    exact ⟨_, _, _, h.rolled ⟨hnow, harrival, hchecked⟩ hdata (hnew hroll hperiod) hroll
      (Int.le_refl 0) hpos⟩
  · have hday : dayOf c.checked = dayOf s.log.lastRoll := by
      have hmul := (not_not.mp hperiod).trans h.period
      exact Nat.eq_of_mul_eq_mul_right (by decide) hmul
    have hlag (day : Nat) (hd : dayOf s.log.lastRoll < day) :
        (lateCount day (s.log.past.map OpenFile.openedAt ++ [s.log.lastRoll]) (gs ++ [g]) +
          if day ≤ dayOf c.arrival then 1 else 0 : Int) ≤ 0 := by
      have hsame := dayOf_mono harrival
      have hago := dayOf_mono (Nat.le_trans hnow harrival)
      rw [if_neg (by omega), h.ahead day (by omega)]
      exact Int.le_refl 0
    rw [if_neg hperiod]
    split
    · exact ⟨_, _, _, h.stays ⟨hnow, harrival, hchecked⟩ hdata (Int.le_refl 0) hpos _ hlag⟩
    · exact ⟨_, _, _, h.stays ⟨hnow, harrival, hchecked⟩ hdata (Int.le_refl 0) hpos _ hlag⟩

/-- A call keeps the invariant. -/
theorem Rolling.step {streams : Nat → Stream} {t : Clocked}
    (h : Rolling conf existing s calls gs g file) (hn : 1 ≤ conf.checkEveryN)
    (hs : Appends conf streams s c t) (hc : s.Creates conf existing c) :
    ∃ gs' g' file', Rolling conf existing t (calls ++ [c]) gs' g' file' := by
  obtain ⟨ht, hnow, file, util, fuel, hfile, happend, hlog⟩ := hs
  rw [h.current] at hfile
  cases hfile
  obtain ⟨hdata, hbytes⟩ := FileUtil.append_ok _ _ happend
  have hstate : t = ⟨s.log.appendInLock conf { file with util := util } c, c.rolled⟩ := by
    rw [← hlog, ← hnow]
  rw [hstate]
  unfold LogFile.appendInLock
  dsimp only
  by_cases hsize : conf.rollSize < util.writtenBytes
  · rw [if_pos hsize]
    rw [hbytes] at hsize
    exact h.roll ht hdata fun hroll => hc ⟨hroll, Or.inl ⟨file, h.current, hsize⟩⟩
  · rw [if_neg hsize]
    by_cases hcheck : conf.checkEveryN ≤ s.log.count + 1
    · rw [if_pos hcheck]
      exact h.checkPeriod hn ht hdata fun hroll hperiod => hc ⟨hroll, Or.inr ⟨hcheck, hperiod⟩⟩
    · rw [if_neg hcheck]
      have hnonneg := h.nonneg
      refine ⟨_, _, _, h.stays ht hdata (by omega) (by omega) _ ?_⟩
      intro day hd
      have hlag := h.lagging day hd
      split
      · omega
      · omega

end Call

/-! ## All calls -/

section Calls

variable {conf : LogConf} {streams : Nat → Stream} {existing : List (File (List UInt8) UInt8)}

/-- A run of calls keeps the invariant. -/
theorem Rolling.run {s t : Clocked} {before calls : List AppendCall} (hn : 1 ≤ conf.checkEveryN)
    (hr : Run (fun s c t => Appends conf streams s c t ∧ s.Creates conf existing c) s calls t)
    (h : ∃ gs g file, Rolling conf existing s before gs g file) :
    ∃ gs g file, Rolling conf existing t (before ++ calls) gs g file := by
  induction hr generalizing before with
  | nil s =>
    rw [List.append_nil]
    exact h
  | cons hs _ ih =>
    obtain ⟨gs, g, file, h⟩ := h
    have hrest := ih (h.step hn hs.1 hs.2)
    rwa [List.append_assoc] at hrest

theorem LogFile.new_eq {start : Nat} (hstart : 0 < start) : LogFile.new conf start =
    ⟨0, start / kRollPerSeconds * kRollPerSeconds, start, start, [],
      some (conf.openFile start)⟩ := by
  unfold LogFile.new
  rw [LogFile.rollFile_eq, if_pos hstart]
  rfl

/-- After the constructor there is one more file, which is empty. -/
theorem Rolling.new {start : Nat} (hn : 1 ≤ conf.checkEveryN) (hstart : 0 < start)
    (hnew : NewName conf existing start) :
    Rolling conf existing ⟨.new conf start, start⟩ [] [] [] (conf.openFile start) := by
  have hlate (day : Nat) :
      lateCount day ([].map OpenFile.openedAt ++ [start]) ([] ++ [[]]) = 0 := by
    simp [lateCount, late]
  rw [LogFile.new_eq hstart]
  constructor
  · rfl
  · rfl
  · exact (allNew_nil existing).snoc hnew
  · rfl
  · rfl
  · rfl
  · exact Int.le_refl 0
  · dsimp only
    omega
  · rfl
  · exact List.pairwise_singleton _ _
  · exact Nat.le_refl start
  · intro day
    dsimp only
    rw [hlate]
    omega
  · intro day _
    dsimp only
    rw [hlate]
    exact Int.le_refl 0
  · intro day _
    exact hlate day

/-- The files that were created, behind those that were on the disk before. -/
theorem Rolling.filed {s : Clocked} {calls : List AppendCall} {gs : List (List AppendCall)}
    {g : List AppendCall} {file : OpenFile} (h : Rolling conf existing s calls gs g file) :
    s.log.disk existing = existing ++ s.log.files.map OpenFile.opening ∧
      Filed conf s.log (s.log.files.map OpenFile.opening) calls (gs ++ [g]) := by
  have hopened : s.log.files.map OpenFile.openedAt =
      s.log.past.map OpenFile.openedAt ++ [s.log.lastRoll] := by
    rw [h.files_eq, List.map_append, ← h.opened]
    rfl
  have htimes : (s.log.files.map OpenFile.opening).map File.time =
      s.log.files.map OpenFile.openedAt := List.map_map
  have hcontents : (s.log.files.map OpenFile.opening).map File.contents =
      (gs ++ [g]).map fun group => group.flatMap AppendCall.data := by
    rw [List.map_map, h.files_eq, List.map_append, List.map_append, ← h.past]
    simp [h.contents, OpenFile.opening]
  have hcomplete : (gs ++ [g]).flatten = calls := by
    rw [← h.complete]
    simp
  refine ⟨?_, ?_⟩
  · unfold LogFile.disk
    rw [h.files_eq]
    exact appendAll_of_allNew h.allNew
  · constructor
    · exact hcomplete
    · exact hcontents
    · rw [List.flatMap_def, hcontents, ← hcomplete, List.flatMap_def, List.map_flatten,
        List.flatten_flatten, List.map_map]
      rfl
    · exact h.count
    · exact h.period
    · exact htimes
    · rw [htimes, hopened]
      exact h.increasing
    · intro day
      rw [htimes, hopened]
      exact h.bounded day
    · rw [h.current]
      rfl

/-- For every disk, every size limit, every check interval from 1 on and all calls, at times
that do not go back from a positive start on, of which none opens a file under the name of one
that is there: the records are in the created files in order and whole, the count stays below
the interval, the period is the day of the last file, files are opened at increasing seconds,
and of the records of a day and after it at most as many as the interval are in files of
earlier days. -/
theorem logFile_rolls {start : Nat} {calls : List AppendCall} {s : Clocked}
    (hn : 1 ≤ conf.checkEveryN) (hstart : 0 < start) (hnew : NewName conf existing start)
    (hr : Run (fun s c t => Appends conf streams s c t ∧ s.Creates conf existing c)
      ⟨.new conf start, start⟩ calls s) :
    ∃ created groups, s.log.disk existing = existing ++ created ∧
      Filed conf s.log created calls groups := by
  obtain ⟨gs, g, file, h⟩ := Rolling.run hn hr ⟨_, _, _, Rolling.new hn hstart hnew⟩
  exact ⟨_, _, h.filed⟩

end Calls

/-- A stream that takes everything. -/
def roomy : Stream where
  room := fun _ => 4096
  error := fun _ => false
  sticky := fun _ _ _ h => h
  progress := fun _ _ => by decide

/-- Universal time, in January 1970. -/
def utc (t : Nat) : Tm := ⟨70, 0, t / 86400 + 1, t % 86400 / 3600, t % 3600 / 60, t % 60⟩

def utcConf : LogConf := ⟨chars "log", utc, 10, 3, 2⟩

/-- Two records around midnight, with a check at every second one. -/
def aroundMidnight : List AppendCall := [⟨[97], 86399, 86399, 86399⟩, ⟨[98], 86400, 86400, 86400⟩]

theorem logFile_rolls_midnight : ∃ s created groups,
    Run (fun s c t => Appends utcConf (fun _ => roomy) s c t ∧ s.Creates utcConf [] c)
      ⟨.new utcConf 86399, 86399⟩ aroundMidnight s ∧
    s.log.disk [] = [⟨chars "log.19700101-235959.log", 86399, [97, 98]⟩,
      ⟨chars "log.19700102-000000.log", 86400, []⟩] ∧
    s.log.disk [] = [] ++ created ∧ Filed utcConf s.log created aroundMidnight groups := by
  let first := utcConf.openFile 86399
  have hrun : Run (fun s c t => Appends utcConf (fun _ => roomy) s c t ∧ s.Creates utcConf [] c)
      ⟨.new utcConf 86399, 86399⟩ aroundMidnight
      ⟨⟨0, 86400, 86400, 86400, [{ first with util := ⟨[97, 98], 2, 2, 0⟩ }],
        some (utcConf.openFile 86400)⟩, 86400⟩ := by
    have hfirst : Appends utcConf (fun _ => roomy) ⟨.new utcConf 86399, 86399⟩
        ⟨[97], 86399, 86399, 86399⟩
        ⟨⟨1, 0, 86399, 86399, [], some { first with util := ⟨[97], 1, 1, 0⟩ }⟩, 86399⟩ :=
      ⟨by decide, rfl, first, ⟨[97], 1, 1, 0⟩, 2, by decide +kernel, rfl, by decide +kernel⟩
    have hsecond : Appends utcConf (fun _ => roomy)
        ⟨⟨1, 0, 86399, 86399, [], some { first with util := ⟨[97], 1, 1, 0⟩ }⟩, 86399⟩
        ⟨[98], 86400, 86400, 86400⟩ ⟨⟨0, 86400, 86400, 86400,
          [{ first with util := ⟨[97, 98], 2, 2, 0⟩ }], some (utcConf.openFile 86400)⟩, 86400⟩ :=
      ⟨by decide, rfl, { first with util := ⟨[97], 1, 1, 0⟩ }, ⟨[97, 98], 2, 2, 0⟩, 2, rfl, rfl,
        by decide +kernel⟩
    exact .cons ⟨hfirst, by decide +kernel⟩ (.single ⟨hsecond, by decide +kernel⟩)
  obtain ⟨created, groups, hdisk, hfiled⟩ :=
    logFile_rolls (by decide) (by decide) (by decide +kernel) hrun
  exact ⟨_, created, groups, hrun, by decide +kernel, hdisk, hfiled⟩

/-- The local time of New York on 3 November 2024, where 2:00 is set back to 1:00. -/
def newYork (t : Nat) : Tm :=
  let second := if t < 1730613600 then t - 1730606400 else t - 1730610000
  ⟨124, 10, 3, second / 3600, second % 3600 / 60, second % 60⟩

def newYorkConf : LogConf := ⟨chars "log", newYork, 0, 3, 1024⟩

/-- Every record is too much for its file; the second roll is an hour after the start. -/
def aroundTwo : List AppendCall := [⟨[97], 1730611900, 1730611900, 1730611900⟩,
  ⟨[98], 1730615400, 1730615400, 1730615400⟩, ⟨[99], 1730615400, 1730615400, 1730615400⟩]

/-- The third record goes behind the first one. -/
theorem roll_reopens_earlier_file : NewName newYorkConf [] 1730611800 ∧ ∃ s,
    Run (Appends newYorkConf fun _ => roomy) ⟨.new newYorkConf 1730611800, 1730611800⟩
      aroundTwo s ∧
    s.log.disk [] = [⟨chars "log.20241103-013000.log", 1730611800, [97, 99]⟩,
      ⟨chars "log.20241103-013140.log", 1730611900, [98]⟩] ∧
    ¬∃ created groups, s.log.disk [] = [] ++ created ∧
      Filed newYorkConf s.log created aroundTwo groups := by
  let first := newYorkConf.openFile 1730611800
  let second := newYorkConf.openFile 1730611900
  let third := newYorkConf.openFile 1730615400
  let l₀ : LogFile := ⟨0, 1730592000, 1730611800, 1730611800, [], some first⟩
  let l₁ : LogFile := ⟨0, 1730592000, 1730611900, 1730611900,
    [{ first with util := ⟨[97], 1, 1, 0⟩ }], some second⟩
  let l₂ : LogFile := ⟨0, 1730592000, 1730615400, 1730615400,
    [{ first with util := ⟨[97], 1, 1, 0⟩ }, { second with util := ⟨[98], 1, 1, 0⟩ }], some third⟩
  let l₃ : LogFile := { l₂ with file := some { third with util := ⟨[99], 1, 1, 0⟩ } }
  have hnew : LogFile.new newYorkConf 1730611800 = l₀ := by decide +kernel
  have hrun : Run (Appends newYorkConf fun _ => roomy)
      ⟨.new newYorkConf 1730611800, 1730611800⟩ aroundTwo ⟨l₃, 1730615400⟩ := by
    rw [hnew]
    refine .cons (t := ⟨l₁, 1730611900⟩)
      ⟨by decide, rfl, first, ⟨[97], 1, 1, 0⟩, 2, rfl, rfl, by decide +kernel⟩ ?_
    refine .cons (t := ⟨l₂, 1730615400⟩)
      ⟨by decide, rfl, second, ⟨[98], 1, 1, 0⟩, 2, rfl, rfl, by decide +kernel⟩ ?_
    exact .single
      ⟨by decide, rfl, third, ⟨[99], 1, 1, 0⟩, 2, rfl, rfl, by decide +kernel⟩
  have hdisk : l₃.disk [] = [⟨chars "log.20241103-013000.log", 1730611800, [97, 99]⟩,
      ⟨chars "log.20241103-013140.log", 1730611900, [98]⟩] := by decide +kernel
  refine ⟨by decide +kernel, _, hrun, hdisk, ?_⟩
  rintro ⟨created, groups, hcreated, hfiled⟩
  have hconcat := hfiled.concatenated
  rw [← hcreated.trans (List.nil_append created), hdisk] at hconcat
  exact absurd hconcat (by decide)

end RyanNetwork.Logger
